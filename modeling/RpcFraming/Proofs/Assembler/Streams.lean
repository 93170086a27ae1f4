import RpcFraming.Proofs.Assembler.Invariant
import RpcFraming.Proofs.Stream

/-!
# The streams of an assembler

An assembler is looked at through one stream at a time: `Assembler.stream` says where a stream
stands. Each move is described by what it does to the stream that it is made on and to the others
(`stream_*`). From this follows what feeding a chunk does, in two halves: the chunk's own stream takes
the step that it would take if it were alone (`stream_feed_self`), and every other stream stays or
fades (`fades_feed`). As long as there is room, no other stream is touched at all and the operator is
told what he would be told of the stream alone (`stream_feed_of_ne`,
`reply_feed_of_hasRoom`).
-/

namespace RpcFraming

/-- What is answered to the packet that is fed. -/
def Fed.reply (fed : Fed) : Reply := ⟨fed.outcome, fed.notice⟩

namespace Assembler

/-- Where a stream stands. -/
def stream (a : Assembler) (s : Int64) : StreamState :=
  if s ∈ a.discarded then .dropping
  else
    match a.pending.lookup s with
    | none => .idle
    | some q => .collecting q

/-- The number of data bytes that a stream may have. -/
def dataLimit (a : Assembler) : Nat := a.config.maxBodySize.toNat

variable {a b : Assembler} {s t : Int64} {p q : Packet}

@[simp] theorem stream_new (config : Config) : stream { config } s = .idle := by
  simp [stream]

@[simp] theorem stream_clear : a.clear.stream s = .idle := by
  simp [stream, clear]

theorem stream_eq_dropping_iff : a.stream s = .dropping ↔ s ∈ a.discarded := by
  rw [stream]
  split
  · next h => exact ⟨fun _ => h, fun _ => rfl⟩
  · next h =>
    refine ⟨fun h' => ?_, fun h' => absurd h' h⟩
    split at h' <;> cases h'

theorem stream_of_not_mem_discarded (h : s ∉ a.discarded) :
    a.stream s = match a.pending.lookup s with
      | none => .idle
      | some q => .collecting q := by
  rw [stream, if_neg h]

theorem stream_eq_idle_iff : a.stream s = .idle ↔ s ∉ a.discarded ∧ s ∉ a.pendingIds := by
  rw [← lookup_eq_none_iff, stream]
  split
  · next h => simp [h]
  · next h =>
    cases hq : a.pending.lookup s <;> simp [h]

theorem stream_eq_collecting_iff :
    a.stream s = .collecting q ↔ s ∉ a.discarded ∧ a.pending.lookup s = some q := by
  rw [stream]
  split
  · next h => simp [h]
  · next h =>
    cases hq : a.pending.lookup s <;> simp [h]

/-- Where a stream stands hangs on whether it is dropped and on what came of it so far. -/
theorem stream_congr (hd : s ∈ a.discarded ↔ s ∈ b.discarded)
    (hp : a.pending.lookup s = b.pending.lookup s) : a.stream s = b.stream s := by
  simp only [stream, hd, hp]

/-! ### What the moves do to the streams -/

theorem stream_discard_self : (a.discard s).stream s = .dropping :=
  stream_eq_dropping_iff.2 (streamId_mem_discarded_discard a s (memory_pos a))

/-- Dropping a stream can at most make another one forgotten that was dropped before. -/
theorem fades_discard (h : a.Valid) (ht : t ≠ s) : (a.stream t).Fades ((a.discard s).stream t) := by
  by_cases hd : t ∈ a.discarded
  · rw [stream_eq_dropping_iff.2 hd]
    by_cases hd' : t ∈ (a.discard s).discarded
    · rw [stream_eq_dropping_iff.2 hd']
      exact .kept
    · have hp : t ∉ (a.discard s).pendingIds := by
        rw [pendingIds_discard]
        exact fun hp => h.disjoint t hp hd
      rw [stream_eq_idle_iff.2 ⟨hd', hp⟩]
      exact .forgotten
  · have hd' : t ∉ (a.discard s).discarded := fun hd' =>
      (mem_of_mem_discarded_discard hd').elim hd ht
    rw [stream_congr (b := a.discard s) (by simp [hd, hd']) (by rw [pending_discard])]
    exact .kept

/-- As long as the memory is not full, dropping a stream leaves the others alone. -/
theorem stream_discard_of_lt (hs : s ∉ a.discarded) (h : a.discarded.length < a.memory)
    (ht : t ≠ s) : (a.discard s).stream t = a.stream t := by
  refine stream_congr ?_ (by rw [pending_discard])
  rw [discarded_discard_of_lt hs h]
  simp [ht]

theorem stream_discardRest_self {info : ChunkInfo} (h : a.stream info.streamId = .idle) :
    (a.discardRest info).stream info.streamId = .abandonedAt info := by
  rw [discardRest, StreamState.abandonedAt]
  split
  · exact h
  · exact stream_discard_self

theorem fades_discardRest {info : ChunkInfo} (h : a.Valid) (ht : t ≠ info.streamId) :
    (a.stream t).Fades ((a.discardRest info).stream t) := by
  rw [discardRest]
  split
  · exact .kept
  · exact fades_discard h ht

theorem stream_discardRest_of_lt {info : ChunkInfo} (hs : info.streamId ∉ a.discarded)
    (h : a.discarded.length < a.memory) (ht : t ≠ info.streamId) :
    (a.discardRest info).stream t = a.stream t := by
  rw [discardRest]
  split
  · rfl
  · exact stream_discard_of_lt hs h ht

theorem stream_forget_self (h : s ∉ a.pendingIds) : (a.forget s).stream s = .idle := by
  refine stream_eq_idle_iff.2 ⟨?_, h⟩
  simp [forget]

theorem stream_forget_of_ne (ht : t ≠ s) : (a.forget s).stream t = a.stream t :=
  stream_congr (by simp [forget, ht]) rfl

theorem stream_start_self (h : a.stream s = .idle) : (a.start s p).stream s = .collecting p := by
  obtain ⟨hd, hp⟩ := stream_eq_idle_iff.1 h
  refine stream_eq_collecting_iff.2 ⟨hd, ?_⟩
  rw [start, List.lookup_append, lookup_eq_none_iff.2 hp]
  simp

theorem stream_start_of_ne (ht : t ≠ s) : (a.start s p).stream t = a.stream t := by
  refine stream_congr Iff.rfl ?_
  have hnone : List.lookup t [(s, p)] = none := by
    rw [List.lookup_cons, beq_false_of_ne ht, List.lookup_nil]
  rw [start, List.lookup_append, hnone, Option.or_none]

theorem stream_release_self (h : s ∉ a.discarded) : (a.release s).stream s = .idle :=
  stream_eq_idle_iff.2 ⟨h, not_mem_pendingIds_release⟩

/-- Taking a stream out is seen by that stream alone. -/
theorem lookup_release_of_ne (ht : t ≠ s) :
    (a.release s).pending.lookup t = a.pending.lookup t := by
  show (a.pending.filter (·.1 ≠ s)).lookup t = a.pending.lookup t
  induction a.pending with
  | nil => rfl
  | cons e pending ih =>
    by_cases he : e.1 = s
    · rw [List.filter_cons_of_neg (by simpa using he), ih, List.lookup_cons,
        beq_false_of_ne (he ▸ ht)]
    · rw [List.filter_cons_of_pos (by simpa using he), List.lookup_cons, List.lookup_cons, ih]

theorem stream_release_of_ne (ht : t ≠ s) : (a.release s).stream t = a.stream t :=
  stream_congr Iff.rfl (lookup_release_of_ne ht)

/-- Replacing what came of a stream is seen by that stream alone. -/
theorem lookup_update (pending : List (Int64 × Packet)) :
    (pending.map fun e => if e.1 = s then (s, p) else e).lookup t
      = if t = s then (pending.lookup t).map fun _ => p else pending.lookup t := by
  induction pending with
  | nil => simp
  | cons e pending ih =>
    by_cases he : e.1 = s
    · rw [List.map_cons, if_pos he, List.lookup_cons, List.lookup_cons, ih, he]
      by_cases ht : t = s
      · simp [ht]
      · simp [ht, beq_false_of_ne ht]
    · rw [List.map_cons, if_neg he, List.lookup_cons, List.lookup_cons, ih]
      by_cases ht : t = s
      · simp [ht, beq_false_of_ne (Ne.symm he)]
      · simp [ht]

theorem stream_update_self (h : a.stream s = .collecting q) :
    (a.update s p).stream s = .collecting p := by
  obtain ⟨hd, hq⟩ := stream_eq_collecting_iff.1 h
  refine stream_eq_collecting_iff.2 ⟨hd, ?_⟩
  rw [update, lookup_update, if_pos rfl, hq, Option.map_some]

theorem stream_update_of_ne (ht : t ≠ s) : (a.update s p).stream t = a.stream t := by
  refine stream_congr Iff.rfl ?_
  rw [update, lookup_update, if_neg ht]

/-- Making room is done by one stream that is collecting, and may make another one forgotten. -/
theorem fades_makeRoom (h : a.Valid) : (a.stream t).Fades (a.makeRoom.1.stream t) := by
  cases hfull : a.isFull with
  | false =>
    rw [makeRoom_of_not_isFull hfull]
    exact .kept
  | true =>
    obtain ⟨oldest, q, rest, hp, hroom⟩ := exists_makeRoom_of_isFull hfull
    rw [hroom]
    by_cases ht : t = oldest
    · have hstream : a.stream t = .collecting q := by
        refine stream_eq_collecting_iff.2 ⟨h.disjoint t (by simp [pendingIds, hp, ht]), ?_⟩
        rw [hp, ht, List.lookup_cons_self]
      rw [hstream, ht, stream_discard_self]
      exact .evicted
    · have hvalid : Valid { a with pending := rest } :=
        h.sublist (by rw [hp]; exact List.sublist_cons_self _ _)
      have hstream : a.stream t = stream { a with pending := rest } t := by
        refine stream_congr Iff.rfl ?_
        rw [hp, List.lookup_cons, beq_false_of_ne ht]
      rw [hstream]
      exact fades_discard hvalid ht

/-! ### Feeding a chunk -/

/-- What is done with a chunk hangs on where its stream stands. -/
theorem feed_eq {info : ChunkInfo} (hinfo : p.chunkInfo? = some info) :
    a.feed p = match a.stream info.streamId with
      | .idle => a.feedNew info p
      | .collecting q => a.feedPending info q p
      | .dropping => a.feedDiscarded info := by
  rw [feed, hinfo]
  by_cases hd : info.streamId ∈ a.discarded
  · rw [stream_eq_dropping_iff.2 hd]
    exact if_pos hd
  · rw [stream_of_not_mem_discarded hd]
    simp only [if_neg hd]
    cases a.pending.lookup info.streamId <;> rfl

/-- The ways in which an assembler takes a chunk `p` whose place is `info`: what comes of feeding it,
and the step of the chunk's own stream. -/
inductive Takes (a : Assembler) (info : ChunkInfo) (p : Packet) : Fed → StreamState × Reply → Prop where
  /-- The stream is being dropped. -/
  | dropped (hs : a.stream info.streamId = .dropping) :
      Takes a info p ⟨if info.isFinal then a.forget info.streamId else a, .ok none, none⟩
        (.abandonedAt info, ⟨.ok none, none⟩)
  /-- The start of the stream was missed. -/
  | unstarted (hs : a.stream info.streamId = .idle) (hid : info.chunkId ≠ 0) :
      Takes a info p
        ⟨a.discardRest info, .ok none, some (.chunkWithoutStart info.chunkId info.streamId)⟩
        (.abandonedAt info,
          ⟨.ok none, some (.chunkWithoutStart info.chunkId info.streamId)⟩)
  /-- The first chunk alone is larger than is accepted. -/
  | tooLarge (hs : a.stream info.streamId = .idle) (hid : info.chunkId = 0)
      (hdata : a.dataLimit < p.data.length) :
      Takes a info p ⟨a.discard info.streamId, .error .streamAboveLimit, none⟩
        (.dropping, ⟨.error .streamAboveLimit, none⟩)
  /-- The stream starts. -/
  | started (hs : a.stream info.streamId = .idle) (hid : info.chunkId = 0)
      (hdata : p.data.length ≤ a.dataLimit) :
      Takes a info p ⟨a.makeRoom.1.start info.streamId p, .ok none, a.makeRoom.2⟩
        (.collecting p, ⟨.ok none, none⟩)
  /-- The stream grows larger than is accepted. -/
  | overgrown {q : Packet} (hs : a.stream info.streamId = .collecting q)
      (hdata : a.dataLimit < q.data.length + p.data.length) :
      Takes a info p ⟨(a.release info.streamId).discardRest info, .error .streamAboveLimit, none⟩
        (.abandonedAt info, ⟨.error .streamAboveLimit, none⟩)
  /-- The stream is complete. -/
  | completed {q : Packet} (hs : a.stream info.streamId = .collecting q)
      (hdata : q.data.length + p.data.length ≤ a.dataLimit) (hfinal : info.isFinal = true) :
      Takes a info p
        ⟨a.release info.streamId, .ok (some (StreamState.absorb q p).clearChunkInfo), none⟩
        (.idle, ⟨.ok (some (StreamState.absorb q p).clearChunkInfo), none⟩)
  /-- The stream goes on. -/
  | continued {q : Packet} (hs : a.stream info.streamId = .collecting q)
      (hdata : q.data.length + p.data.length ≤ a.dataLimit) (hfinal : info.isFinal = false) :
      Takes a info p ⟨a.update info.streamId (StreamState.absorb q p), .ok none, none⟩
        (.collecting (StreamState.absorb q p), ⟨.ok none, none⟩)

theorem exceedsLimit_iff {n : Nat} : a.exceedsLimit n = true ↔ a.dataLimit < n := decide_eq_true_iff

/-- A chunk is taken in one of these ways, and its stream takes the step that it would take if it
were alone. -/
theorem exists_takes {info : ChunkInfo} (hinfo : p.chunkInfo? = some info) :
    ∃ fed next, a.feed p = fed ∧
      (a.stream info.streamId).feedChunk a.dataLimit info p = next ∧ Takes a info p fed next := by
  refine ⟨_, _, rfl, rfl, ?_⟩
  rw [feed_eq hinfo]
  cases hs : a.stream info.streamId with
  | idle =>
    by_cases hid : info.chunkId = 0
    · by_cases hdata : a.dataLimit < p.data.length
      · simp only [feedNew, StreamState.feedChunk, ne_eq, hid, not_true, if_false,
          if_pos (exceedsLimit_iff.2 hdata), if_pos hdata]
        exact .tooLarge hs hid hdata
      · simp only [feedNew, StreamState.feedChunk, ne_eq, hid, not_true, if_false,
          if_neg (mt exceedsLimit_iff.1 hdata), if_neg hdata]
        exact .started hs hid (Nat.le_of_not_lt hdata)
    · simp only [feedNew, StreamState.feedChunk, ne_eq, hid, not_false_iff, if_true]
      exact .unstarted hs hid
  | collecting q =>
    by_cases hdata : a.dataLimit < q.data.length + p.data.length
    · simp only [feedPending, StreamState.feedChunk, if_pos (exceedsLimit_iff.2 hdata), if_pos hdata]
      exact .overgrown hs hdata
    · simp only [feedPending, StreamState.feedChunk, if_neg (mt exceedsLimit_iff.1 hdata),
        if_neg hdata]
      cases hfinal : info.isFinal with
      | true => exact .completed hs (Nat.le_of_not_lt hdata) hfinal
      | false => exact .continued hs (Nat.le_of_not_lt hdata) hfinal
  | dropping => exact .dropped hs

section Feed

variable {info : ChunkInfo} (h : a.Valid) (hinfo : p.chunkInfo? = some info)

include hinfo

/-- What comes out is what would come out if the stream were alone. -/
theorem outcome_feed :
    (a.feed p).outcome = ((a.stream info.streamId).feedChunk a.dataLimit info p).2.outcome := by
  obtain ⟨fed, next, hfed, hnext, htakes⟩ := exists_takes (a := a) hinfo
  rw [hfed, hnext]
  cases htakes <;> rfl

include h

/-- **The chunk's own stream** takes the step that it would take if it were alone. -/
theorem stream_feed_self :
    (a.feed p).assembler.stream info.streamId
      = ((a.stream info.streamId).feedChunk a.dataLimit info p).1 := by
  obtain ⟨fed, next, hfed, hnext, htakes⟩ := exists_takes (a := a) hinfo
  rw [hfed, hnext]
  cases htakes with
  | dropped hs =>
    have hp : info.streamId ∉ a.pendingIds := fun hp =>
      h.disjoint _ hp (stream_eq_dropping_iff.1 hs)
    simp only [StreamState.abandonedAt]
    split
    · exact stream_forget_self hp
    · exact hs
  | unstarted hs => exact stream_discardRest_self hs
  | tooLarge => exact stream_discard_self
  | started hs =>
    obtain ⟨hd, hp⟩ := stream_eq_idle_iff.1 hs
    exact stream_start_self (stream_eq_idle_iff.2
      ⟨not_mem_discarded_makeRoom hp hd, not_mem_pendingIds_makeRoom hp⟩)
  | overgrown hs =>
    exact stream_discardRest_self (stream_release_self (stream_eq_collecting_iff.1 hs).1)
  | completed hs => exact stream_release_self (stream_eq_collecting_iff.1 hs).1
  | continued hs => exact stream_update_self hs

/-- **Every other stream** stays where it stands, or fades. -/
theorem fades_feed (ht : t ≠ info.streamId) :
    (a.stream t).Fades ((a.feed p).assembler.stream t) := by
  obtain ⟨fed, next, hfed, -, htakes⟩ := exists_takes (a := a) hinfo
  rw [hfed]
  cases htakes with
  | dropped =>
    simp only
    split
    · rw [stream_forget_of_ne ht]
      exact .kept
    · exact .kept
  | unstarted => exact fades_discardRest h ht
  | tooLarge => exact fades_discard h ht
  | started =>
    rw [stream_start_of_ne ht]
    exact fades_makeRoom h
  | overgrown =>
    rw [← stream_release_of_ne (a := a) ht]
    exact fades_discardRest h.release ht
  | completed =>
    rw [stream_release_of_ne ht]
    exact .kept
  | continued =>
    rw [stream_update_of_ne ht]
    exact .kept

end Feed

/-- The configuration never changes. -/
@[simp] theorem config_feed : (a.feed p).assembler.config = a.config := by
  cases hinfo : p.chunkInfo? with
  | none => simp only [feed, hinfo]
  | some info =>
    obtain ⟨fed, next, hfed, -, htakes⟩ := exists_takes (a := a) hinfo
    rw [hfed]
    cases htakes with
    | dropped =>
      simp only
      split <;> rfl
    | unstarted => exact config_discardRest a info
    | tooLarge => exact config_discard a info.streamId
    | started => exact config_makeRoom
    | overgrown => exact config_discardRest _ info
    | completed => rfl
    | continued => rfl

@[simp] theorem dataLimit_feed : (a.feed p).assembler.dataLimit = a.dataLimit := by
  rw [dataLimit, config_feed, dataLimit]

/-! ### While there is room -/

/-- There is room for all that a chunk of the stream may need. -/
structure HasRoom (a : Assembler) (s : Int64) : Prop where
  /-- The stream can be started without another one being dropped. -/
  start : a.stream s = .idle → a.isFull = false
  /-- The stream can be dropped without another one being forgotten. -/
  discard : a.stream s ≠ .dropping → a.discarded.length < a.memory

section Room

variable {info : ChunkInfo} (hinfo : p.chunkInfo? = some info) (hroom : a.HasRoom info.streamId)

include hinfo hroom

/-- While there is room, the operator is told what he would be told of the stream alone. -/
theorem reply_feed_of_hasRoom :
    (a.feed p).reply = ((a.stream info.streamId).feedChunk a.dataLimit info p).2 := by
  obtain ⟨fed, next, hfed, hnext, htakes⟩ := exists_takes (a := a) hinfo
  rw [hfed, hnext]
  cases htakes with
  | started hs =>
    rw [makeRoom_of_not_isFull (hroom.start hs)]
    rfl
  | _ => rfl

/-- While there is room, no other stream is touched. -/
theorem stream_feed_of_ne (ht : t ≠ info.streamId) :
    (a.feed p).assembler.stream t = a.stream t := by
  obtain ⟨fed, next, hfed, -, htakes⟩ := exists_takes (a := a) hinfo
  rw [hfed]
  cases htakes with
  | dropped =>
    simp only
    split
    · exact stream_forget_of_ne ht
    · rfl
  | unstarted hs =>
    exact stream_discardRest_of_lt (stream_eq_idle_iff.1 hs).1 (hroom.discard (by simp [hs])) ht
  | tooLarge hs =>
    exact stream_discard_of_lt (stream_eq_idle_iff.1 hs).1 (hroom.discard (by simp [hs])) ht
  | started hs =>
    rw [makeRoom_of_not_isFull (hroom.start hs)]
    exact stream_start_of_ne ht
  | overgrown hs =>
    have hd : info.streamId ∉ (a.release info.streamId).discarded :=
      (stream_eq_collecting_iff.1 hs).1
    have hlt : (a.release info.streamId).discarded.length < (a.release info.streamId).memory :=
      hroom.discard (by simp [hs])
    rw [← stream_release_of_ne (a := a) ht]
    exact stream_discardRest_of_lt hd hlt ht
  | completed => exact stream_release_of_ne ht
  | continued => exact stream_update_of_ne ht

end Room

end Assembler

end RpcFraming
