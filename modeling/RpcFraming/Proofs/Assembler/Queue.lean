import RpcFraming.Proofs.Assembler.Run

/-!
# The queue of incomplete streams

The incomplete streams stand in a queue. What feeding a packet does to it is said once
(`pendingIds_feed`): some streams leave, and if the packet is the chunk 0 of a stream that is not in
the queue, that stream may be put behind the others. Nothing else moves. So the streams stand in the
order in which they were started (`inStartOrder_pendingIds`), and those behind a stream were all started
after it (`pendingIds_feedAll_sublist`).
-/

namespace RpcFraming

/-- The stream that a packet may start: that of a chunk 0. -/
def Packet.startOf? (p : Packet) : Option Int64 :=
  p.chunkInfo?.bind fun info => if info.chunkId = 0 then some info.streamId else none

namespace Packet

variable {p : Packet} {s : Int64}

theorem startOf?_eq_some_iff : p.startOf? = some s ↔ p.chunkInfo? = some ⟨s, 0⟩ := by
  rw [startOf?, Option.bind_eq_some_iff]
  constructor
  · rintro ⟨⟨t, id⟩, hinfo, hs⟩
    by_cases hid : id = 0
    · rw [if_pos hid] at hs
      cases hs
      rw [hinfo, hid]
    · rw [if_neg hid] at hs
      cases hs
  · intro hinfo
    exact ⟨⟨s, 0⟩, hinfo, if_pos rfl⟩

end Packet

namespace Assembler

variable {a : Assembler} {incomplete : List Event → Int64 → Prop} {events : List Event} {e : Event}
  {p : Packet} {s t : Int64} {i j : Nat}

/-! ### One packet -/

theorem assembler_feed_of_not_chunk (hinfo : p.chunkInfo? = none) : (a.feed p).assembler = a := by
  simp only [feed, hinfo]

/-- **What a packet does to the queue.** Streams leave it, and at most one is put behind it: one that
was not in it, by its chunk 0. -/
theorem pendingIds_feed (a : Assembler) (p : Packet) :
    (a.feed p).assembler.pendingIds.Sublist a.pendingIds ∨
      ∃ kept s, p.startOf? = some s ∧ s ∉ a.pendingIds ∧ kept.Sublist a.pendingIds ∧
        (a.feed p).assembler.pendingIds = kept ++ [s] := by
  cases hinfo : p.chunkInfo? with
  | none =>
    rw [assembler_feed_of_not_chunk hinfo]
    exact .inl (List.Sublist.refl _)
  | some info =>
    obtain ⟨fed, next, hfed, -, htakes⟩ := exists_takes (a := a) hinfo
    rw [hfed]
    have hrelease : (a.release info.streamId).pendingIds.Sublist a.pendingIds :=
      List.filter_sublist.map Prod.fst
    cases htakes with
    | dropped =>
      simp only
      split <;> exact .inl (List.Sublist.refl _)
    | unstarted =>
      rw [pendingIds, pending_discardRest]
      exact .inl (List.Sublist.refl _)
    | tooLarge =>
      rw [pendingIds_discard]
      exact .inl (List.Sublist.refl _)
    | started hs hid =>
      have hinfo' : p.chunkInfo? = some ⟨info.streamId, 0⟩ := by rw [hinfo, ← hid]
      exact .inr ⟨_, _, Packet.startOf?_eq_some_iff.2 hinfo', (stream_eq_idle_iff.1 hs).2,
        pending_makeRoom_sublist.map Prod.fst, pendingIds_start⟩
    | overgrown =>
      rw [pendingIds, pending_discardRest]
      exact .inl hrelease
    | completed => exact .inl hrelease
    | continued =>
      rw [pendingIds_update]
      exact .inl (List.Sublist.refl _)

theorem pendingIds_feed_sublist (a : Assembler) (p : Packet) :
    (a.feed p).assembler.pendingIds.Sublist (a.pendingIds ++ p.startOf?.toList) := by
  rcases pendingIds_feed a p with hsub | ⟨kept, s, hs, -, hsub, hids⟩
  · exact hsub.trans (List.sublist_append_left _ _)
  · rw [hids, hs]
    exact hsub.append (List.Sublist.refl _)

/-! ### Many packets -/

/-- The assembler after some packets. -/
def feedAll (a : Assembler) (packets : List Packet) : Assembler := a.after (packets.map .feed)

@[simp] theorem feedAll_nil : a.feedAll [] = a := rfl

@[simp] theorem feedAll_cons (packets : List Packet) :
    a.feedAll (p :: packets) = (a.feed p).assembler.feedAll packets := rfl

@[simp] theorem feedAll_concat (packets : List Packet) :
    a.feedAll (packets ++ [p]) = ((a.feedAll packets).feed p).assembler := by
  rw [feedAll, List.map_append]
  exact after_concat _ _

theorem feedAll_append (packets more : List Packet) :
    a.feedAll (packets ++ more) = (a.feedAll packets).feedAll more := by
  simp [feedAll, after]

theorem Valid.feedAll (h : a.Valid) (packets : List Packet) : (a.feedAll packets).Valid :=
  h.after _

@[simp] theorem config_feedAll (packets : List Packet) : (a.feedAll packets).config = a.config :=
  config_after _

@[simp] theorem dataLimit_feedAll (packets : List Packet) :
    (a.feedAll packets).dataLimit = a.dataLimit := by
  rw [dataLimit, config_feedAll, dataLimit]

/-- The queue after some packets: what is left of the queue before, and behind it some of the streams
whose chunk 0 was fed, in that order. -/
theorem pendingIds_feedAll_sublist (a : Assembler) (packets : List Packet) :
    (a.feedAll packets).pendingIds.Sublist
      (a.pendingIds ++ packets.filterMap Packet.startOf?) := by
  induction packets using List.reverseRecOn with
  | nil => simp
  | append_singleton packets p ih =>
    rw [feedAll_concat, List.filterMap_append, ← List.append_assoc]
    have hlast : [p].filterMap Packet.startOf? = p.startOf?.toList := by
      cases hp : p.startOf? <;> simp [hp]
    rw [hlast]
    exact (pendingIds_feed_sublist _ p).trans (ih.append (List.Sublist.refl _))

/-! ### The order of the queue -/

/-- Stream `s` is incomplete after some events, and has been since its chunk 0 was fed at step `i`.
Which streams are incomplete after which events is for the receiver to say. -/
structure StartedAt (incomplete : List Event → Int64 → Prop) (events : List Event) (s : Int64)
    (i : Nat) : Prop where
  /-- Its chunk 0 was fed at that step. -/
  starts : ∃ p, events[i]? = some (.feed p) ∧ p.chunkInfo? = some ⟨s, 0⟩
  /-- It was not incomplete before. -/
  fresh : ¬ incomplete (events.take i) s
  /-- It has been incomplete ever since. -/
  stays : ∀ k, i < k → k ≤ events.length → incomplete (events.take k) s

theorem StartedAt.lt_length (h : StartedAt incomplete events s i) : i < events.length := by
  obtain ⟨p, hp, -⟩ := h.starts
  exact (List.getElem?_eq_some_iff.1 hp).1

/-- A stream that is incomplete was started at one step only. -/
theorem StartedAt.existsUnique (h : StartedAt incomplete events s i) :
    ∃! j, StartedAt incomplete events s j := by
  refine ⟨i, h, fun j hj => ?_⟩
  rcases Nat.lt_trichotomy j i with hlt | heq | hgt
  · exact absurd (hj.stays i hlt (Nat.le_of_lt h.lt_length)) h.fresh
  · exact heq
  · exact absurd (h.stays j hgt (Nat.le_of_lt hj.lt_length)) hj.fresh

/-- One more event after which the stream is still incomplete. -/
theorem StartedAt.concat (h : StartedAt incomplete events s i)
    (hs : incomplete (events ++ [e]) s) :
    StartedAt incomplete (events ++ [e]) s i where
  starts := by
    rw [List.getElem?_append_left h.lt_length]
    exact h.starts
  fresh := by
    rw [List.take_append_of_le_length (Nat.le_of_lt h.lt_length)]
    exact h.fresh
  stays := by
    intro k hik hk
    rw [List.length_append, List.length_singleton] at hk
    rcases Nat.lt_or_eq_of_le hk with hlt | rfl
    · rw [List.take_append_of_le_length (Nat.le_of_lt_succ hlt)]
      exact h.stays k hik (Nat.le_of_lt_succ hlt)
    · rw [List.take_of_length_le (by simp)]
      exact hs

/-- The last event has started a stream. -/
theorem startedAt_concat_length (hinfo : p.chunkInfo? = some ⟨s, 0⟩)
    (hfresh : ¬ incomplete events s) (hs : incomplete (events ++ [.feed p]) s) :
    StartedAt incomplete (events ++ [.feed p]) s events.length where
  starts := ⟨p, by simp, hinfo⟩
  fresh := by
    rw [List.take_left]
    exact hfresh
  stays := by
    intro k hk _
    rw [List.take_of_length_le (by simp; omega)]
    exact hs

/-- The one stream was started before the other. -/
def StartedBefore (incomplete : List Event → Int64 → Prop) (events : List Event) (s t : Int64) : Prop :=
  ∃ i j, StartedAt incomplete events s i ∧ StartedAt incomplete events t j ∧ i < j

/-- Some incomplete streams, in the order in which they were started. -/
structure InStartOrder (incomplete : List Event → Int64 → Prop) (events : List Event)
    (ids : List Int64) : Prop where
  /-- Each of them has one step at which it was started. -/
  started : ∀ s ∈ ids, ∃! i, StartedAt incomplete events s i
  /-- Each of them was started before those behind it. -/
  sorted : ids.Pairwise (StartedBefore incomplete events)

theorem inStartOrder_nil : InStartOrder incomplete events [] where
  started := fun _ hs => absurd hs List.not_mem_nil
  sorted := List.Pairwise.nil

/-- One more event, after which some of the streams are still incomplete. -/
theorem InStartOrder.concat {ids kept : List Int64} (h : InStartOrder incomplete events ids)
    (hsub : kept.Sublist ids)
    (hmem : ∀ s ∈ kept, incomplete (events ++ [e]) s) :
    InStartOrder incomplete (events ++ [e]) kept where
  started := by
    intro s hs
    obtain ⟨i, hi, -⟩ := h.started s (hsub.subset hs)
    exact (hi.concat (hmem s hs)).existsUnique
  sorted := by
    refine (h.sorted.sublist hsub).imp_of_mem ?_
    rintro s t hs ht ⟨i, j, hi, hj, hij⟩
    exact ⟨i, j, hi.concat (hmem s hs), hj.concat (hmem t ht), hij⟩

/-- One more event, which has started another stream. -/
theorem InStartOrder.concat_start {ids kept : List Int64} (h : InStartOrder incomplete events ids)
    (hsub : kept.Sublist ids) (hp : p.startOf? = some s)
    (hfresh : ¬ incomplete events s)
    (hids : ∀ t, incomplete (events ++ [.feed p]) t ↔ t ∈ kept ++ [s]) :
    InStartOrder incomplete (events ++ [.feed p]) (kept ++ [s]) := by
  have hmem : ∀ t ∈ kept, incomplete (events ++ [.feed p]) t := fun t ht =>
    (hids t).2 (List.mem_append_left _ ht)
  have hlast : StartedAt incomplete (events ++ [.feed p]) s events.length :=
    startedAt_concat_length (Packet.startOf?_eq_some_iff.1 hp) hfresh
      ((hids s).2 (List.mem_append_right _ (List.mem_singleton.2 rfl)))
  obtain ⟨hstarted, hsorted⟩ := h.concat hsub hmem
  constructor
  · intro t ht
    rcases List.mem_append.1 ht with ht | ht
    · exact hstarted t ht
    · rw [List.mem_singleton.1 ht]
      exact hlast.existsUnique
  · refine List.pairwise_append.2 ⟨hsorted, List.pairwise_singleton _ _, ?_⟩
    intro t ht s' hs'
    rw [List.mem_singleton.1 hs']
    obtain ⟨i, hi, -⟩ := h.started t (hsub.subset ht)
    exact ⟨i, _, hi.concat (hmem t ht), hlast, hi.lt_length⟩

/-- The streams that are incomplete after some events. -/
def Incomplete (config : Config) (events : List Event) (s : Int64) : Prop :=
  s ∈ (after { config } events).pendingIds

/-- **The queue is in start order**, after every run. -/
theorem inStartOrder_pendingIds (config : Config) (events : List Event) :
    InStartOrder (Incomplete config) events (after { config } events).pendingIds := by
  induction events using List.reverseRecOn with
  | nil => exact inStartOrder_nil
  | append_singleton events e ih =>
    have hnext : after { config } (events ++ [e]) = (after { config } events).next e :=
      after_concat _ _
    cases e with
    | clear =>
      rw [hnext]
      exact inStartOrder_nil
    | feed p =>
      rcases pendingIds_feed (after { config } events) p with
        hsub | ⟨kept, s, hs, hfresh, hsub, hids⟩
      · refine ih.concat ?_ fun s hs => hs
        rw [hnext]
        exact hsub
      · have hids' : (after { config } (events ++ [.feed p])).pendingIds = kept ++ [s] := by
          rw [hnext]
          exact hids
        have hincomplete : ∀ t, Incomplete config (events ++ [.feed p]) t ↔ t ∈ kept ++ [s] := by
          intro t
          rw [Incomplete, hids']
        rw [hids']
        exact ih.concat_start hsub hs hfresh hincomplete

end Assembler

end RpcFraming
