import RpcFraming.Proofs.Assembler.Eviction
import RpcFraming.Proofs.Assembler.Indexed

/-!
# What a chunk does to other streams

A chunk is fed to one stream, but the bounds are shared by all. This module says what the others see of
it. To start a stream where there is no room drops the one that was started first; nothing else touches
an incomplete stream (`Valid.others_feed`), in particular no chunk that is refused does. A stream that
is dropped has to be remembered, and then others that were dropped before may be forgotten: those that
were dropped first, and no more than the memory cannot hold (`LosesOldest`).

## What is proved

* `Contained`: when a chunk is refused, and what becomes of its own stream and of all others.
* `contained_feed`: this holds of every chunk in every state that a run can reach.
-/

namespace RpcFraming.Assembler

variable {a : Assembler} {info : ChunkInfo} {p q : Packet} {s t : Int64}

/-! ### The other incomplete streams -/

/-- The incomplete streams other than `s` with what came of each so far, the one started first in
front. -/
def others (a : Assembler) (s : Int64) : List (Int64 × Packet) := a.pending.filter (·.1 ≠ s)

theorem others_eq_pending (hs : s ∉ a.pendingIds) : a.others s = a.pending := by
  refine List.filter_eq_self.2 fun e he => decide_eq_true fun heq => hs ?_
  exact heq ▸ List.mem_map.2 ⟨e, he, rfl⟩

@[simp] theorem others_discard : (a.discard t).others s = a.others s := by
  rw [others, pending_discard, others]

@[simp] theorem others_discardRest : (a.discardRest info).others s = a.others s := by
  rw [others, pending_discardRest, others]

theorem others_start_self : (a.start s p).others s = a.others s := by
  simp [others, start]

theorem others_release_self : (a.release s).others s = a.others s := by
  simp [others, release]

theorem others_update_self : (a.update s p).others s = a.others s :=
  congrArg pending release_update

/-- A chunk starts its stream where as many are incomplete as may be. -/
structure StartsWhenFull (a : Assembler) (info : ChunkInfo) (p : Packet) : Prop where
  /-- It is a chunk 0. -/
  chunkId_eq : info.chunkId = 0
  /-- Its stream is not incomplete. -/
  not_pending : info.streamId ∉ a.pendingIds
  /-- Its stream is not being dropped. -/
  not_discarded : info.streamId ∉ a.discarded
  /-- It is not too large. -/
  data_le : p.data.length ≤ a.config.maxBodySize.toNat
  /-- The number of incomplete streams is bounded. -/
  bounded : a.config.maxPendingStreams ≠ 0
  /-- There are as many as may be. -/
  full : a.pending.length = a.config.maxPendingStreams.toNat

/-- Where a stream is started and none has to make room, there was room. -/
theorem Valid.isFull_of_not_startsWhenFull (h : a.Valid) (hs : a.stream info.streamId = .idle)
    (hid : info.chunkId = 0) (hdata : p.data.length ≤ a.dataLimit)
    (hstarts : ¬ a.StartsWhenFull info p) : a.isFull = false := by
  obtain ⟨hd, hp⟩ := stream_eq_idle_iff.1 hs
  by_contra hfull
  obtain ⟨hmax, hle⟩ := isFull_iff.1 (Bool.eq_true_of_not_eq_false hfull)
  rw [length_pendingIds] at hle
  exact hstarts ⟨hid, hp, hd, hdata, hmax, Nat.le_antisymm (h.pending_le hmax) hle⟩

/-- **The others are left alone** by every chunk that does not start its stream where there is no
room, and the operator is not told otherwise. -/
theorem Valid.others_feed (h : a.Valid) (hinfo : p.chunkInfo? = some info)
    (hstarts : ¬ a.StartsWhenFull info p) :
    (a.feed p).assembler.others info.streamId = a.others info.streamId ∧
      ∀ t, (a.feed p).notice ≠ some (.streamEvicted t) := by
  obtain ⟨fed, next, hfed, -, htakes⟩ := exists_takes (a := a) hinfo
  rw [hfed]
  cases htakes with
  | dropped =>
    refine ⟨?_, by simp⟩
    simp only
    split <;> rfl
  | unstarted => exact ⟨others_discardRest, by simp⟩
  | tooLarge => exact ⟨others_discard, by simp⟩
  | started hs hid hdata =>
    have hfull := h.isFull_of_not_startsWhenFull hs hid hdata hstarts
    rw [makeRoom_of_not_isFull hfull]
    exact ⟨others_start_self, by simp⟩
  | overgrown => exact ⟨others_discardRest.trans others_release_self, by simp⟩
  | completed => exact ⟨others_release_self, by simp⟩
  | continued => exact ⟨others_update_self, by simp⟩

/-- **The one that was started first is dropped** by a chunk that starts its stream where there is no
room. -/
theorem StartsWhenFull.exists_oldest (h : a.StartsWhenFull info p) (hinfo : p.chunkInfo? = some info) :
    ∃ oldest q rest, a.pending = (oldest, q) :: rest ∧
      a.feed p = ⟨({ a with pending := rest }.discard oldest).start info.streamId p, .ok none,
        some (.streamEvicted oldest)⟩ := by
  have hs : a.stream info.streamId = .idle :=
    stream_eq_idle_iff.2 ⟨h.not_discarded, h.not_pending⟩
  have hfull : a.isFull = true := by
    rw [isFull_iff, length_pendingIds]
    exact ⟨h.bounded, Nat.le_of_eq h.full.symm⟩
  obtain ⟨oldest, q, rest, hp, hroom⟩ := exists_makeRoom_of_isFull hfull
  refine ⟨oldest, q, rest, hp, ?_⟩
  rw [feed_start hs (by rw [hinfo, ← h.chunkId_eq]) h.data_le, hroom]

/-! ### The memory of dropped streams -/

/-- From `before` to `after`, and not looking at some streams, the memory of dropped streams has lost
its oldest entries only, and no more of them than it would have had too many. -/
def LosesOldest (limit : Nat) (lookedAt : Int64 → Bool) (before after : List Int64) : Prop :=
  ∃ forgotten, before.filter lookedAt = forgotten ++ after.filter lookedAt ∧
    forgotten.length = before.length + (after.filter (· ∉ before)).length - limit

section Memory

variable {limit : Nat} {lookedAt : Int64 → Bool} {before : List Int64}

/-- Nothing is lost as long as no stream is added. -/
theorem losesOldest_filter {kept : Int64 → Bool} (hle : before.length ≤ limit)
    (hkept : ∀ t, lookedAt t = true → kept t = true) :
    LosesOldest limit lookedAt before (before.filter kept) := by
  have hnew : (before.filter kept).filter (· ∉ before) = [] :=
    List.filter_eq_nil_iff.2 fun t ht => by simpa using List.mem_of_mem_filter ht
  refine ⟨[], ?_, ?_⟩
  · rw [List.filter_filter, List.nil_append]
    refine List.filter_congr fun t _ => ?_
    by_cases ht : lookedAt t = true
    · rw [ht, hkept t ht]
      rfl
    · rw [Bool.eq_false_of_not_eq_true ht]
      rfl
  · rw [hnew, List.length_nil]
    omega

theorem losesOldest_refl (hle : before.length ≤ limit) :
    LosesOldest limit lookedAt before before := by
  have hfilter : LosesOldest limit lookedAt before (before.filter fun _ => true) :=
    losesOldest_filter hle fun _ _ => rfl
  rwa [List.filter_true] at hfilter

/-- Where one stream is added, those in front make room for it. -/
theorem losesOldest_concat (hlimit : 0 < limit) (hs : s ∉ before)
    (hlooked : ∀ t ∈ before, lookedAt t = true) (hs' : lookedAt s = false) :
    LosesOldest limit lookedAt before (before.drop (before.length + 1 - limit) ++ [s]) := by
  have hdrop : ∀ t ∈ before.drop (before.length + 1 - limit), t ∈ before := fun t =>
    List.mem_of_mem_drop
  have hnew : (before.drop (before.length + 1 - limit) ++ [s]).filter (· ∉ before) = [s] := by
    rw [List.filter_append, List.filter_eq_nil_iff.2 fun t ht => by simpa using hdrop t ht]
    simp [hs]
  have hkept : (before.drop (before.length + 1 - limit) ++ [s]).filter lookedAt
      = before.drop (before.length + 1 - limit) := by
    rw [List.filter_append, List.filter_eq_self.2 fun t ht => hlooked t (hdrop t ht)]
    simp [hs']
  refine ⟨before.take (before.length + 1 - limit), ?_, ?_⟩
  · rw [hkept, List.take_append_drop, List.filter_eq_self.2 hlooked]
  · rw [hnew, List.length_take, List.length_singleton]
    omega

end Memory

/-- A stream that was not dropped before is remembered last. -/
theorem discarded_discard (hs : s ∉ a.discarded) :
    (a.discard s).discarded = a.discarded.drop (a.discarded.length + 1 - a.memory) ++ [s] := by
  have hpos := memory_pos a
  rw [discard, if_neg hs]
  simp only [List.length_append, List.length_singleton]
  rw [List.drop_append_of_le_length (by omega)]

theorem losesOldest_discard {lookedAt : Int64 → Bool} (hs : s ∉ a.discarded)
    (hlooked : ∀ t ∈ a.discarded, lookedAt t = true) (hs' : lookedAt s = false) :
    LosesOldest a.memory lookedAt a.discarded (a.discard s).discarded := by
  rw [discarded_discard hs]
  exact losesOldest_concat (memory_pos a) hs hlooked hs'

theorem Valid.losesOldest_discardRest {lookedAt : Int64 → Bool} (h : a.Valid)
    (hs : info.streamId ∉ a.discarded) (hlooked : ∀ t ∈ a.discarded, lookedAt t = true)
    (hs' : lookedAt info.streamId = false) :
    LosesOldest a.memory lookedAt a.discarded (a.discardRest info).discarded := by
  rw [Assembler.discardRest]
  split
  · exact losesOldest_refl h.discarded_le
  · exact losesOldest_discard hs hlooked hs'

/-- **The memory** loses its oldest entries only, and only where it cannot hold them any more. The
chunk's own stream and one that makes room for it are not looked at. -/
theorem Valid.losesOldest_feed (h : a.Valid) (hinfo : p.chunkInfo? = some info) :
    LosesOldest a.memory
      (fun t => t ≠ info.streamId ∧ (a.feed p).notice ≠ some (.streamEvicted t))
      a.discarded (a.feed p).assembler.discarded := by
  have hother : ∀ {t}, info.streamId ∉ a.discarded → t ∈ a.discarded → t ≠ info.streamId := by
    rintro t hs ht rfl
    exact hs ht
  obtain ⟨fed, next, hfed, -, htakes⟩ := exists_takes (a := a) hinfo
  rw [hfed]
  cases htakes with
  | dropped =>
    simp only
    split
    · exact losesOldest_filter h.discarded_le fun t ht => by simpa using ht
    · exact losesOldest_refl h.discarded_le
  | unstarted hs =>
    have hd := (stream_eq_idle_iff.1 hs).1
    exact h.losesOldest_discardRest hd (fun t ht => by simpa using hother hd ht) (by simp)
  | tooLarge hs =>
    have hd := (stream_eq_idle_iff.1 hs).1
    exact losesOldest_discard hd (fun t ht => by simpa using hother hd ht) (by simp)
  | started hs =>
    obtain ⟨hd, hp⟩ := stream_eq_idle_iff.1 hs
    cases hfull : a.isFull with
    | false =>
      rw [makeRoom_of_not_isFull hfull]
      exact losesOldest_refl h.discarded_le
    | true =>
      obtain ⟨oldest, q, rest, hpending, hroom⟩ := exists_makeRoom_of_isFull hfull
      have holdest : oldest ∉ a.discarded := h.disjoint oldest (by simp [pendingIds, hpending])
      rw [hroom]
      refine losesOldest_discard (a := { a with pending := rest }) holdest (fun t ht => ?_) (by simp)
      have hne : oldest ≠ t := fun heq => holdest (heq ▸ ht)
      simpa [hne] using hother hd ht
  | overgrown hs =>
    have hd := (stream_eq_collecting_iff.1 hs).1
    exact h.release.losesOldest_discardRest hd (fun t ht => by simpa using hother hd ht) (by simp)
  | completed => exact losesOldest_refl h.discarded_le
  | continued => exact losesOldest_refl h.discarded_le

/-! ### Refused chunks -/

/-- The chunk would give its stream more data than may be. -/
def Overfills (a : Assembler) (info : ChunkInfo) (p : Packet) : Prop :=
  info.streamId ∉ a.discarded ∧
    ((∃ q, a.pending.lookup info.streamId = some q ∧
        a.config.maxBodySize.toNat < q.data.length + p.data.length) ∨
      (info.streamId ∉ a.pendingIds ∧ info.chunkId = 0 ∧
        a.config.maxBodySize.toNat < p.data.length))

theorem overfills_of_collecting (hs : a.stream info.streamId = .collecting q) :
    a.Overfills info p ↔ a.dataLimit < q.data.length + p.data.length := by
  obtain ⟨hd, hq⟩ := stream_eq_collecting_iff.1 hs
  have hp : info.streamId ∈ a.pendingIds := by
    by_contra hp
    rw [lookup_eq_none_iff.2 hp] at hq
    cases hq
  simp [Overfills, hd, hq, hp, dataLimit]

theorem overfills_of_idle (hs : a.stream info.streamId = .idle) :
    a.Overfills info p ↔ info.chunkId = 0 ∧ a.dataLimit < p.data.length := by
  obtain ⟨hd, hp⟩ := stream_eq_idle_iff.1 hs
  simp [Overfills, hd, hp, lookup_eq_none_iff.2 hp, dataLimit]

/-- **A chunk is refused** exactly if it would give its stream more data than may be. -/
theorem outcome_feed_eq_error_iff (hinfo : p.chunkInfo? = some info) {fault : Fault} :
    (a.feed p).outcome = .error fault ↔ fault = .streamAboveLimit ∧ a.Overfills info p := by
  obtain ⟨fed, next, hfed, -, htakes⟩ := exists_takes (a := a) hinfo
  rw [hfed]
  cases htakes with
  | dropped hs => simp [Overfills, stream_eq_dropping_iff.1 hs]
  | unstarted hs hid => simp [overfills_of_idle hs, hid]
  | tooLarge hs hid hdata => simp [overfills_of_idle hs, hid, hdata, eq_comm]
  | started hs hid hdata => simp [overfills_of_idle hs, Nat.not_lt.2 hdata]
  | overgrown hs hdata => simp [overfills_of_collecting hs, hdata, eq_comm]
  | completed hs hdata => simp [overfills_of_collecting hs, Nat.not_lt.2 hdata]
  | continued hs hdata => simp [overfills_of_collecting hs, Nat.not_lt.2 hdata]

/-- A chunk that is refused takes its own stream out and leaves the others, and the rest of its stream
is dropped if there is one. -/
theorem feed_of_overfills (hinfo : p.chunkInfo? = some info) (h : a.Overfills info p) :
    (a.feed p).assembler.pending = a.others info.streamId ∧
      (info.streamId ∈ (a.feed p).assembler.discarded ↔ info.isFinal = false) := by
  obtain ⟨fed, next, hfed, -, htakes⟩ := exists_takes (a := a) hinfo
  rw [hfed]
  cases htakes with
  | dropped hs => exact absurd (stream_eq_dropping_iff.1 hs) h.1
  | unstarted hs hid => exact absurd ((overfills_of_idle hs).1 h).1 hid
  | tooLarge hs hid =>
    have hfinal : info.isFinal = false := by simp [ChunkInfo.isFinal, hid, ChunkInfo.finalId]
    refine ⟨?_, iff_of_true (stream_eq_dropping_iff.1 stream_discard_self) hfinal⟩
    rw [others_eq_pending (stream_eq_idle_iff.1 hs).2]
    exact pending_discard a _
  | started hs _ hdata => exact absurd ((overfills_of_idle hs).1 h).2 (Nat.not_lt.2 hdata)
  | overgrown hs =>
    refine ⟨pending_discardRest _ info, ?_⟩
    simp only [discardRest]
    split
    · next hfinal => exact iff_of_false h.1 (by simp [hfinal])
    · next hfinal =>
      exact iff_of_true (stream_eq_dropping_iff.1 stream_discard_self)
        (Bool.eq_false_of_not_eq_true hfinal)
  | completed hs hdata => exact absurd ((overfills_of_collecting hs).1 h) (Nat.not_lt.2 hdata)
  | continued hs hdata => exact absurd ((overfills_of_collecting hs).1 h) (Nat.not_lt.2 hdata)

/-! ### Every chunk in every state -/

/-- What a chunk whose place is `info` does to its own stream and to the others. Streams are compared by
when they were started. -/
structure Contained (a : Assembler) (startedBefore : Int64 → Int64 → Prop) (info : ChunkInfo)
    (p : Packet) : Prop where
  /-- The chunk is refused exactly if it would give its stream more data than may be, and for no other
  reason. -/
  refused_iff : ∀ fault, (a.feed p).outcome = .error fault ↔
    fault = .streamAboveLimit ∧ a.Overfills info p
  /-- A chunk that is refused breaks the format. Of the incomplete streams only its own is taken out,
  and that one is dropped exactly if chunks of it are still to come. -/
  refused : ∀ fault, (a.feed p).outcome = .error fault → fault.kind = .format ∧
    (a.feed p).assembler.pending = a.others info.streamId ∧
    (info.streamId ∈ (a.feed p).assembler.discarded ↔ info.isFinal = false)
  /-- To start a stream where there is no room drops the one that was started first, and no other, and
  the operator is told. -/
  evicts : a.StartsWhenFull info p → ∃ oldest q rest, a.pending = (oldest, q) :: rest ∧
    (∀ e ∈ rest, startedBefore oldest e.1) ∧
    (a.feed p).assembler.pending = rest ++ [(info.streamId, p)] ∧
    oldest ∈ (a.feed p).assembler.discarded ∧
    (a.feed p).outcome = .ok none ∧ (a.feed p).notice = some (.streamEvicted oldest)
  /-- All other chunks leave what came of the other streams and their order as they were, and the
  operator is not told otherwise. -/
  keeps : ¬ a.StartsWhenFull info p →
    (a.feed p).assembler.others info.streamId = a.others info.streamId ∧
      ∀ t, (a.feed p).notice ≠ some (.streamEvicted t)
  /-- Apart from the chunk's own stream and one that makes room for it, the memory of dropped streams
  loses its oldest entries only, and no more than it would have had too many. -/
  forgets : LosesOldest a.memory
    (fun t => t ≠ info.streamId ∧ (a.feed p).notice ≠ some (.streamEvicted t))
    a.discarded (a.feed p).assembler.discarded

theorem Valid.contained {startedBefore : Int64 → Int64 → Prop} (h : a.Valid)
    (hsorted : a.pendingIds.Pairwise startedBefore) (hinfo : p.chunkInfo? = some info) :
    a.Contained startedBefore info p where
  refused_iff := fun _ => outcome_feed_eq_error_iff hinfo
  refused := by
    intro fault hfault
    obtain ⟨rfl, hoverfills⟩ := (outcome_feed_eq_error_iff hinfo).1 hfault
    exact ⟨rfl, feed_of_overfills hinfo hoverfills⟩
  evicts := by
    intro hstarts
    obtain ⟨oldest, q, rest, hpending, hfeed⟩ := hstarts.exists_oldest hinfo
    have hfirst : ∀ e ∈ rest, startedBefore oldest e.1 := by
      rw [pendingIds, hpending, List.map_cons, List.pairwise_cons] at hsorted
      exact fun e he => hsorted.1 e.1 (List.mem_map.2 ⟨e, he, rfl⟩)
    have hdropped : oldest ∈ (({ a with pending := rest } : Assembler).discard oldest).discarded :=
      stream_eq_dropping_iff.1 stream_discard_self
    refine ⟨oldest, q, rest, hpending, hfirst, ?_⟩
    rw [hfeed]
    refine ⟨?_, hdropped, rfl, rfl⟩
    rw [Assembler.start, pending_discard]
  keeps := h.others_feed hinfo
  forgets := h.losesOldest_feed hinfo

/-- **A chunk touches its own stream only**, also when it is refused. In every state that a run can
reach, no chunk does anything to another stream but drop the one that was started first, where there is
no room to start its own, and make streams forgotten that were dropped long ago. -/
theorem contained_feed (config : Config) (events : List Event) (hinfo : p.chunkInfo? = some info) :
    (after { config } events).Contained (StartedBefore (Incomplete config) events) info p :=
  ((valid_new config).after events).contained (inStartOrder_pendingIds config events).sorted hinfo

/-- Room for two streams of four bytes. -/
def roomForTwo : Config := { maxPendingStreams := 2, maxBodySize := 4 }

/-- Streams 8 and 6 are dropped, streams 9 and 7 are incomplete. -/
def crowdedHistory : List Event :=
  [.feed (sampleChunk 8 3 []), .feed (sampleChunk 6 3 []), .feed (sampleChunk 9 0 [0]),
    .feed (sampleChunk 7 0 [1, 2, 3])]

/-- `contained_feed` where there is no room left. A chunk with which stream 7 becomes too large is
refused and leaves stream 9 alone; the chunk 0 of stream 1 drops stream 9, and for its sake stream 8
is forgotten. -/
theorem contained_crowdedHistory :
    ((after { config := roomForTwo } crowdedHistory).feed (sampleChunk 7 1 [4, 5])).outcome
        = .error .streamAboveLimit ∧
      ((after { config := roomForTwo } crowdedHistory).feed
          (sampleChunk 7 1 [4, 5])).assembler.pending = [(9, sampleChunk 9 0 [0])] ∧
      ((after { config := roomForTwo } crowdedHistory).feed (sampleChunk 1 0 [6])).assembler.pending
        = [(7, sampleChunk 7 0 [1, 2, 3]), (1, sampleChunk 1 0 [6])] ∧
      ∃ forgotten : List Int64, [8, 6] = forgotten ++ [6] ∧ forgotten.length = 1 := by
  have hrefused := contained_feed roomForTwo crowdedHistory (p := sampleChunk 7 1 [4, 5]) rfl
  have hstarted := contained_feed roomForTwo crowdedHistory (p := sampleChunk 1 0 [6]) rfl
  have houtcome :=
    (hrefused.refused_iff .streamAboveLimit).2 ⟨rfl, by decide, .inl ⟨_, rfl, by decide⟩⟩
  refine ⟨houtcome, (hrefused.refused _ houtcome).2.1, ?_, hstarted.forgets⟩
  obtain ⟨oldest, q, rest, hpending, -, hstart, -⟩ := hstarted.evicts
    { chunkId_eq := rfl, not_pending := by decide, not_discarded := by decide, data_le := by decide,
      bounded := by decide, full := rfl }
  cases hpending
  exact hstart

end RpcFraming.Assembler
