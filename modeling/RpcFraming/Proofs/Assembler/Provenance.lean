import RpcFraming.Proofs.Assembler.Run

/-!
# Where packets come from

A packet that comes out of an assembler at a terminal chunk was put together from chunks that were fed
before. This module says from which ones. A packet has its `Origin` at the step at which a chunk 0 of
its stream was fed: from there on nothing was cleared, and the packet is made of all chunks of the
stream that were fed since, in their order, and of nothing else.

The induction is over the events. Its invariant (`Collected`) says the same of what came of a stream
so far, and in addition that nothing has come out of the stream since; for this reason the stretches of
two packets of one stream cannot overlap.
-/

namespace RpcFraming.Assembler

variable {config : Config} {events : List Event} {e : Event} {s : Int64} {i j : Nat}
  {p q : Packet}

/-! ### Histories -/

/-- The chunk of a stream that an event feeds, if it does. -/
def Event.chunkOf (s : Int64) : Event → Option Packet
  | feed p => if p.streamId? = some s then some p else none
  | clear => none

/-- The chunks of a stream that some events feed, in order. -/
def chunksOf (s : Int64) (events : List Event) : List Packet := events.filterMap (Event.chunkOf s)

/-- The attachment of the first packet that has one. -/
def firstAttachment (packets : List Packet) : Bytes :=
  ((packets.map Packet.attachment).find? (· ≠ [])).getD []

/-- The data of some packets, one after the other. -/
def allData (packets : List Packet) : Bytes := packets.flatMap Packet.data

/-- At step `j` a chunk of stream `s` is fed to the assembler, and the packet `q` comes out. -/
def Delivers (config : Config) (events : List Event) (s : Int64) (j : Nat) (q : Packet) : Prop :=
  ∃ p, events[j]? = some (.feed p) ∧ p.streamId? = some s ∧
    ((after { config } (events.take j)).feed p).outcome = .ok (some q)

/-- Where the packet `q` comes from that comes out of stream `s` at step `j`: it was started at step
`i`. -/
structure Origin (config : Config) (events : List Event) (s : Int64) (i j : Nat) (q : Packet) :
    Prop where
  /-- The start comes before the end. -/
  lt : i < j
  /-- A chunk 0 was fed at the start, and the packet has its head, metadata and timestamp. -/
  starts : ∃ p, events[i]? = some (.feed p) ∧ p.chunkInfo? = some ⟨s, 0⟩ ∧ q.head = p.head ∧
    q.metadata = p.metadata.map (fun x => { x with chunkInfo := none }) ∧ q.timestamp = p.timestamp
  /-- A terminal chunk was fed at the end. -/
  ends : ∃ p, events[j]? = some (.feed p) ∧ p.chunkInfo? = some ⟨s, ChunkInfo.finalId⟩
  /-- Nothing was cleared in between. -/
  uncleared : ∀ k, i < k → k < j → events[k]? ≠ some .clear
  /-- All data that was fed to the stream from the start to the end is there. -/
  data : q.data = allData (chunksOf s ((events.take (j + 1)).drop i))
  /-- The first attachment that was fed to the stream from the start to the end is there. -/
  attachment : q.attachment = firstAttachment (chunksOf s ((events.take (j + 1)).drop i))
  /-- There is no more data than may be. -/
  data_le : q.data.length ≤ config.maxBodySize.toNat

/-- What came of stream `s` after some events is `q`, and it was started at step `i`. -/
structure Collected (config : Config) (events : List Event) (s : Int64) (i : Nat) (q : Packet) :
    Prop where
  /-- A chunk 0 was fed at the start, and its head, metadata and timestamp were kept. -/
  starts : ∃ p, events[i]? = some (.feed p) ∧ p.chunkInfo? = some ⟨s, 0⟩ ∧ q.head = p.head ∧
    q.metadata = p.metadata ∧ q.timestamp = p.timestamp
  /-- Nothing was cleared since. -/
  uncleared : ∀ k, i < k → events[k]? ≠ some .clear
  /-- Nothing came out of the stream since. -/
  undelivered : ∀ k q', i ≤ k → ¬ Delivers config events s k q'
  /-- All data that was fed to the stream since is there. -/
  data : q.data = allData (chunksOf s (events.drop i))
  /-- The first attachment that was fed to the stream since is there. -/
  attachment : q.attachment = firstAttachment (chunksOf s (events.drop i))

/-! ### One more event -/

theorem lt_length_of_getElem?_eq_some (h : events[i]? = some e) : i < events.length :=
  (List.getElem?_eq_some_iff.1 h).1

theorem Delivers.lt_length (h : Delivers config events s j q) : j < events.length := by
  obtain ⟨p, hp, -⟩ := h
  exact lt_length_of_getElem?_eq_some hp

/-- What comes out at a step hangs on the events up to it. -/
theorem delivers_concat_of_lt (h : j < events.length) :
    Delivers config (events ++ [e]) s j q ↔ Delivers config events s j q := by
  rw [Delivers, Delivers, List.getElem?_append_left h, List.take_append_of_le_length (Nat.le_of_lt h)]

theorem delivers_concat_length :
    Delivers config (events ++ [e]) s events.length q ↔
      ∃ p, e = .feed p ∧ p.streamId? = some s ∧
        ((after { config } events).feed p).outcome = .ok (some q) := by
  simp [Delivers]

theorem chunksOf_concat_of_none (h : e.chunkOf s = none) :
    chunksOf s (events ++ [e]) = chunksOf s events := by
  simp [chunksOf, h]

theorem chunksOf_concat_of_some (h : e.chunkOf s = some p) :
    chunksOf s (events ++ [e]) = chunksOf s events ++ [p] := by
  simp [chunksOf, h]

theorem allData_concat (packets : List Packet) :
    allData (packets ++ [p]) = allData packets ++ p.data := by
  simp [allData]

theorem firstAttachment_concat (packets : List Packet) :
    firstAttachment (packets ++ [p])
      = if firstAttachment packets = [] then p.attachment else firstAttachment packets := by
  rw [firstAttachment, firstAttachment, List.map_append, List.find?_append]
  cases hfind : (packets.map Packet.attachment).find? (· ≠ []) with
  | none =>
    by_cases hp : p.attachment = [] <;> simp [hp]
  | some attachment =>
    have hne : attachment ≠ [] := by simpa using List.find?_some hfind
    simp [hne]

namespace Collected

variable (h : Collected config events s i q)

include h

theorem lt_length : i < events.length := by
  obtain ⟨p, hp, -⟩ := h.starts
  exact lt_length_of_getElem?_eq_some hp

/-- An event that clears nothing and brings nothing out of the stream: the start stays where it was,
and the chunks since are those that there were and perhaps one more. -/
theorem starts_concat :
    ∃ p, (events ++ [e])[i]? = some (.feed p) ∧ p.chunkInfo? = some ⟨s, 0⟩ ∧ q.head = p.head ∧
      q.metadata = p.metadata ∧ q.timestamp = p.timestamp := by
  rw [List.getElem?_append_left h.lt_length]
  exact h.starts

theorem uncleared_concat (he : e ≠ .clear) (k : Nat) (hk : i < k) :
    (events ++ [e])[k]? ≠ some .clear := by
  rcases Nat.lt_trichotomy k events.length with hlt | rfl | hgt
  · rw [List.getElem?_append_left hlt]
    exact h.uncleared k hk
  · simpa using he
  · have hle : (events ++ [e]).length ≤ k := by
      rw [List.length_append]
      exact hgt
    rw [List.getElem?_eq_none hle]
    simp

theorem undelivered_concat (he : ∀ q', ¬ Delivers config (events ++ [e]) s events.length q')
    (k : Nat) (q' : Packet) (hk : i ≤ k) : ¬ Delivers config (events ++ [e]) s k q' := by
  rcases Nat.lt_trichotomy k events.length with hlt | rfl | hgt
  · rw [delivers_concat_of_lt hlt]
    exact h.undelivered k q' hk
  · exact he q'
  · intro hdelivers
    have hlt := hdelivers.lt_length
    rw [List.length_append, List.length_singleton] at hlt
    omega

theorem drop_concat : (events ++ [e]).drop i = events.drop i ++ [e] :=
  List.drop_append_of_le_length (Nat.le_of_lt h.lt_length)

/-- An event that does not feed the stream changes nothing. -/
theorem concat_of_none (hchunk : e.chunkOf s = none) (hclear : e ≠ .clear)
    (he : ∀ q', ¬ Delivers config (events ++ [e]) s events.length q') :
    Collected config (events ++ [e]) s i q where
  starts := h.starts_concat
  uncleared := h.uncleared_concat hclear
  undelivered := h.undelivered_concat he
  data := by rw [h.drop_concat, chunksOf_concat_of_none hchunk, h.data]
  attachment := by rw [h.drop_concat, chunksOf_concat_of_none hchunk, h.attachment]

/-- An event that feeds the stream adds to what came of it. -/
theorem concat_of_some (hchunk : e.chunkOf s = some p) (hclear : e ≠ .clear)
    (he : ∀ q', ¬ Delivers config (events ++ [e]) s events.length q') :
    Collected config (events ++ [e]) s i (StreamState.absorb q p) where
  starts := h.starts_concat
  uncleared := h.uncleared_concat hclear
  undelivered := h.undelivered_concat he
  data := by
    rw [h.drop_concat, chunksOf_concat_of_some hchunk, allData_concat, ← h.data]
    rfl
  attachment := by
    rw [h.drop_concat, chunksOf_concat_of_some hchunk, firstAttachment_concat, ← h.attachment]
    rfl

end Collected

theorem chunkOf_feed_of_eq (hp : p.streamId? = some s) : (Event.feed p).chunkOf s = some p :=
  if_pos hp

theorem chunkOf_feed_of_ne (hp : p.streamId? ≠ some s) : (Event.feed p).chunkOf s = none :=
  if_neg hp

/-- A stream that is started has collected its chunk 0. -/
theorem collected_of_start (hinfo : p.chunkInfo? = some ⟨s, 0⟩)
    (he : ∀ q', ¬ Delivers config (events ++ [.feed p]) s events.length q') :
    Collected config (events ++ [.feed p]) s events.length p := by
  have hchunk : chunksOf s ([] ++ [Event.feed p]) = [] ++ [p] :=
    chunksOf_concat_of_some (chunkOf_feed_of_eq (by simp [Packet.streamId?, hinfo]))
  rw [List.nil_append, List.nil_append] at hchunk
  have hdrop : (events ++ [Event.feed p]).drop events.length = [.feed p] := by simp
  constructor
  · exact ⟨p, by simp, hinfo, rfl, rfl, rfl⟩
  · intro k hk
    have hle : (events ++ [Event.feed p]).length ≤ k := by
      rw [List.length_append]
      exact hk
    rw [List.getElem?_eq_none hle]
    simp
  · intro k q' hk
    rcases Nat.lt_or_eq_of_le hk with hlt | rfl
    · intro hdelivers
      have := hdelivers.lt_length
      rw [List.length_append, List.length_singleton] at this
      omega
    · exact he q'
  · rw [hdrop, hchunk]
    simp [allData]
  · rw [hdrop, hchunk]
    by_cases hp : p.attachment = [] <;> simp [firstAttachment, hp]

/-! ### The invariant -/

/-- **What came of an incomplete stream** is made of the chunks that were fed to it since its
start. -/
theorem exists_collected (config : Config) (events : List Event) (s : Int64) (q : Packet)
    (hs : (after { config } events).stream s = .collecting q) :
    ∃ i, Collected config events s i q := by
  induction events using List.reverseRecOn generalizing q with
  | nil => cases (stream_new config).symm.trans hs
  | append_singleton events e ih =>
    rw [after_concat] at hs
    have hvalid := (valid_new config).after events
    cases e with
    | clear => cases stream_clear.symm.trans hs
    | feed p =>
      have hclear : Event.feed p ≠ .clear := by simp
      cases hinfo : p.chunkInfo? with
      | none =>
        have hp : p.streamId? ≠ some s := by simp [Packet.streamId?, hinfo]
        have hsame : (after { config } events).next (.feed p) = after { config } events := by
          simp only [next, feed, hinfo]
        rw [hsame] at hs
        obtain ⟨i, hi⟩ := ih q hs
        refine ⟨i, hi.concat_of_none (chunkOf_feed_of_ne hp) hclear fun q' hq' => ?_⟩
        obtain ⟨p', he, hp', -⟩ := delivers_concat_length.1 hq'
        cases he
        exact hp hp'
      | some info =>
        by_cases he : info.streamId = s
        · subst he
          have hp : p.streamId? = some info.streamId := by simp [Packet.streamId?, hinfo]
          have hstep : (((after { config } events).stream info.streamId).feedChunk
              (after { config } events).dataLimit info p).1 = .collecting q :=
            (stream_feed_self hvalid hinfo).symm.trans hs
          have hnone : ∀ q', ¬ Delivers config (events ++ [.feed p]) info.streamId
              events.length q' := by
            intro q' hq'
            obtain ⟨p', he, -, hout⟩ := delivers_concat_length.1 hq'
            cases he
            rw [outcome_feed hinfo] at hout
            obtain ⟨_, -, -, -, -, hidle⟩ := StreamState.exists_of_feedChunk_eq_some hout
            cases hidle.symm.trans hstep
          rcases StreamState.collecting_of_feedChunk hstep with
            ⟨-, hid, -, rfl⟩ | ⟨assembled, hassembled, -, rfl⟩
          · have hinfo' : q.chunkInfo? = some ⟨info.streamId, 0⟩ := by rw [hinfo, ← hid]
            exact ⟨_, collected_of_start hinfo' hnone⟩
          · obtain ⟨i, hi⟩ := ih assembled hassembled
            exact ⟨i, hi.concat_of_some (chunkOf_feed_of_eq hp) hclear hnone⟩
        · have hp : p.streamId? ≠ some s := by simpa [Packet.streamId?, hinfo] using he
          have hfades := fades_feed hvalid hinfo (Ne.symm he)
          rw [show ((after { config } events).feed p).assembler.stream s = .collecting q from hs]
            at hfades
          obtain ⟨i, hi⟩ := ih q hfades.eq_collecting
          refine ⟨i, hi.concat_of_none (chunkOf_feed_of_ne hp) hclear fun q' hq' => ?_⟩
          obtain ⟨p', he, hp', -⟩ := delivers_concat_length.1 hq'
          cases he
          exact hp hp'

/-! ### Deliveries -/

theorem delivers_take_of_lt (h : i < j) :
    Delivers config (events.take j) s i q ↔ Delivers config events s i q := by
  rw [Delivers, Delivers, List.getElem?_take_of_lt h, List.take_take, Nat.min_eq_left (Nat.le_of_lt h)]

/-- At most one packet comes out at a step. -/
theorem Delivers.unique {q' : Packet} (h : Delivers config events s j q)
    (h' : Delivers config events s j q') : q = q' := by
  obtain ⟨p, hp, -, hout⟩ := h
  obtain ⟨p', hp', -, hout'⟩ := h'
  cases hp.symm.trans hp'
  cases hout.symm.trans hout'
  rfl

/-- Every packet that comes out has an origin, and nothing came out of its stream in between. -/
theorem Delivers.exists_origin (h : Delivers config events s j q) :
    ∃ i, Origin config events s i j q ∧ ∀ k q', i ≤ k → k < j → ¬ Delivers config events s k q' := by
  obtain ⟨p, hp, hs, hout⟩ := h
  obtain ⟨info, hinfo, rfl⟩ : ∃ info, p.chunkInfo? = some info ∧ info.streamId = s := by
    simpa [Packet.streamId?] using hs
  rw [outcome_feed hinfo] at hout
  obtain ⟨assembled, hassembled, hfinal, hlimit, rfl, -⟩ :=
    StreamState.exists_of_feedChunk_eq_some hout
  obtain ⟨i, hi⟩ := exists_collected config (events.take j) info.streamId assembled hassembled
  have hij : i < j := Nat.lt_of_lt_of_le hi.lt_length (List.length_take_le _ _)
  have htake : events.take (j + 1) = events.take j ++ [.feed p] := by
    rw [List.take_add_one, hp, Option.toList_some]
  have hchunks : chunksOf info.streamId ((events.take (j + 1)).drop i)
      = chunksOf info.streamId ((events.take j).drop i) ++ [p] := by
    rw [htake, hi.drop_concat, chunksOf_concat_of_some (chunkOf_feed_of_eq hs)]
  refine ⟨i, ?_, ?_⟩
  · constructor
    · exact hij
    · obtain ⟨p₀, hp₀, hinfo₀, hhead, hmetadata, htimestamp⟩ := hi.starts
      rw [List.getElem?_take_of_lt hij] at hp₀
      refine ⟨p₀, hp₀, hinfo₀, hhead, ?_, htimestamp⟩
      rw [← hmetadata]
      rfl
    · have hid : info.chunkId = ChunkInfo.finalId := by simpa [ChunkInfo.isFinal] using hfinal
      exact ⟨p, hp, by rw [hinfo, ← hid]⟩
    · intro k hk hkj
      rw [← List.getElem?_take_of_lt hkj]
      exact hi.uncleared k hk
    · rw [hchunks, allData_concat, ← hi.data]
      rfl
    · rw [hchunks, firstAttachment_concat, ← hi.attachment]
      rfl
    · have hle : (assembled.data ++ p.data).length ≤ config.maxBodySize.toNat := by
        rw [List.length_append]
        rwa [dataLimit, config_after] at hlimit
      exact hle
  · intro k q' hk hkj hdelivers
    exact hi.undelivered k q' hk ((delivers_take_of_lt hkj).2 hdelivers)

/-- **Provenance.** Whatever is fed to a new assembler and whenever it is cleared, every packet that
comes out of a chunk stream has an origin, and the stretches from the origins to the ends of two
packets of one stream do not overlap. -/
theorem exists_origins (config : Config) (events : List Event) :
    ∃ start : Int64 → Nat → Nat,
      (∀ s j q, Delivers config events s j q → Origin config events s (start s j) j q) ∧
      ∀ s j j' q q', Delivers config events s j q → Delivers config events s j' q' → j < j' →
        j < start s j' := by
  have hstart : ∀ s j, ∃ i, ∀ q, Delivers config events s j q →
      Origin config events s i j q ∧ ∀ k q', i ≤ k → k < j → ¬ Delivers config events s k q' := by
    intro s j
    by_cases h : ∃ q, Delivers config events s j q
    · obtain ⟨q, hq⟩ := h
      obtain ⟨i, hi⟩ := hq.exists_origin
      exact ⟨i, fun q' hq' => hq.unique hq' ▸ hi⟩
    · exact ⟨0, fun q hq => absurd ⟨q, hq⟩ h⟩
  choose start hstart using hstart
  refine ⟨start, fun s j q hq => (hstart s j q hq).1, ?_⟩
  intro s j j' q q' hq hq' hlt
  by_contra hle
  exact (hstart s j' q' hq').2 j q (Nat.le_of_not_lt hle) hlt hq

end RpcFraming.Assembler
