import RpcFraming.Proofs.Assembler.Isolation
import RpcFraming.Proofs.Assembler.Provenance
import RpcFraming.Proofs.Assembler.Queue

/-!
# The oldest stream makes room

To start one stream too many, an assembler drops the incomplete stream that stands in front of the
queue. This module says what a stream can rely on all the same. It is dropped only when it is the
oldest, the assembler is full, and the chunk 0 of another stream is fed
(`stream_feed_of_collecting`); and those behind it were all started since. So it takes as many rivals
as there is room for to drive it out, and that many do.

## What is proved

* `FifoGuarantee`: fewer rivals than there is room for leave a stream whole, as many drive it out, and
  without a bound no stream is driven out.
* `fifoGuarantee_after`: this holds of every state that a run can reach.
-/

namespace RpcFraming.Assembler

variable {a : Assembler} {p q : Packet} {s t : Int64}

/-! ### Making room -/

theorem isFull_iff : a.isFull = true ↔
    a.config.maxPendingStreams ≠ 0 ∧ a.config.maxPendingStreams.toNat ≤ a.pendingIds.length := by
  simp [isFull]

theorem isFull_eq_false_of_unbounded (h : a.config.maxPendingStreams = 0) : a.isFull = false :=
  isFull_eq_false_of_lt fun hmax => absurd h hmax

/-- Where there is no room, the stream in front of the queue makes it. -/
theorem exists_oldest (h : a.isFull = true) :
    ∃ oldest behind, a.pendingIds = oldest :: behind ∧ a.makeRoom.1.pendingIds = behind ∧
      a.makeRoom.1.stream oldest = .dropping ∧ a.makeRoom.2 = some (.streamEvicted oldest) := by
  obtain ⟨oldest, q, rest, hp, hroom⟩ := exists_makeRoom_of_isFull h
  refine ⟨oldest, rest.map Prod.fst, by rw [pendingIds, hp, List.map_cons], ?_, ?_, by rw [hroom]⟩
  · rw [hroom, pendingIds_discard]
    rfl
  · rw [hroom]
    exact stream_discard_self

/-- A stream with fewer behind it than there is room for is not the one that makes room. -/
theorem exists_pendingIds_makeRoom {before behind : List Int64}
    (hids : a.pendingIds = before ++ s :: behind)
    (hlt : behind.length + 1 < a.config.maxPendingStreams.toNat) :
    ∃ before', a.makeRoom.1.pendingIds = before' ++ s :: behind := by
  cases hfull : a.isFull with
  | false =>
    rw [makeRoom_of_not_isFull hfull]
    exact ⟨before, hids⟩
  | true =>
    obtain ⟨oldest, rest, holdest, hrest, -, -⟩ := exists_oldest hfull
    obtain ⟨-, hle⟩ := isFull_iff.1 hfull
    rw [hids, List.length_append, List.length_cons] at hle
    rw [holdest] at hids
    cases before with
    | nil =>
      rw [List.length_nil] at hle
      omega
    | cons t before => exact ⟨before, hrest.trans (List.cons.inj hids).2⟩

/-- A stream with all others that there is room for behind it is the one that makes room. -/
theorem Valid.makeRoom_of_oldest {before behind : List Int64} (h : a.Valid)
    (hids : a.pendingIds = before ++ s :: behind)
    (hcount : behind.length + 1 = a.config.maxPendingStreams.toNat) :
    a.makeRoom.1.stream s = .dropping ∧ a.makeRoom.2 = some (.streamEvicted s) := by
  have hmax : a.config.maxPendingStreams ≠ 0 := by
    intro hmax
    rw [hmax] at hcount
    exact absurd hcount (Nat.succ_ne_zero _)
  have hle := h.pending_le hmax
  rw [← length_pendingIds, hids, List.length_append, List.length_cons] at hle
  obtain rfl : before = [] := List.length_eq_zero_iff.1 (by omega)
  have hfull : a.isFull = true := by
    rw [isFull_iff, hids, List.nil_append, List.length_cons]
    exact ⟨hmax, Nat.le_of_eq hcount.symm⟩
  obtain ⟨oldest, rest, holdest, -, hstream, hnotice⟩ := exists_oldest hfull
  rw [holdest] at hids
  obtain rfl : oldest = s := (List.cons.inj hids).1
  exact ⟨hstream, hnotice⟩

/-! ### Who is driven out -/

theorem stream_discard_of_collecting (hts : t ≠ s) (h : a.stream t = .collecting q) :
    (a.discard s).stream t = .collecting q := by
  obtain ⟨hd, hq⟩ := stream_eq_collecting_iff.1 h
  refine stream_eq_collecting_iff.2 ⟨fun hd' => ?_, by rwa [pending_discard]⟩
  rcases mem_of_mem_discarded_discard hd' with hold | heq
  · exact hd hold
  · exact hts heq

theorem stream_discardRest_of_collecting {info : ChunkInfo} (ht : t ≠ info.streamId)
    (h : a.stream t = .collecting q) : (a.discardRest info).stream t = .collecting q := by
  rw [discardRest]
  split
  · exact h
  · exact stream_discard_of_collecting ht h

/-- Only the oldest stream makes room, and only where there is none. -/
theorem stream_makeRoom_of_collecting (h : a.stream t = .collecting q) :
    a.makeRoom.1.stream t = .collecting q ∨
      a.isFull = true ∧ ∃ behind, a.pendingIds = t :: behind := by
  cases hfull : a.isFull with
  | false =>
    rw [makeRoom_of_not_isFull hfull]
    exact .inl h
  | true =>
    obtain ⟨oldest, q', rest, hp, hroom⟩ := exists_makeRoom_of_isFull hfull
    by_cases ht : t = oldest
    · exact .inr ⟨rfl, rest.map Prod.fst, by simp [pendingIds, hp, ht]⟩
    · have hrest : stream { a with pending := rest } t = a.stream t := by
        refine stream_congr Iff.rfl ?_
        rw [hp, List.lookup_cons, beq_false_of_ne ht]
      rw [hroom]
      exact .inl (stream_discard_of_collecting ht (hrest.trans h))

/-- **A stream is driven out only as the oldest one**, by the chunk 0 of another stream, and only where
there is no room left. -/
theorem stream_feed_of_collecting (hp : p.streamId? ≠ some t) (h : a.stream t = .collecting q) :
    (a.feed p).assembler.stream t = .collecting q ∨
      (∃ s, s ≠ t ∧ p.startOf? = some s) ∧ a.isFull = true ∧ ∃ behind, a.pendingIds = t :: behind := by
  cases hinfo : p.chunkInfo? with
  | none =>
    rw [assembler_feed_of_not_chunk hinfo]
    exact .inl h
  | some info =>
    have ht : t ≠ info.streamId := by
      intro ht
      exact hp (streamId?_eq_some_iff.2 ⟨info, hinfo, ht.symm⟩)
    obtain ⟨fed, next, hfed, -, htakes⟩ := exists_takes (a := a) hinfo
    rw [hfed]
    cases htakes with
    | dropped =>
      refine .inl ?_
      simp only
      split
      · rwa [stream_forget_of_ne ht]
      · exact h
    | unstarted => exact .inl (stream_discardRest_of_collecting ht h)
    | tooLarge => exact .inl (stream_discard_of_collecting ht h)
    | started hs hid =>
      have hstart : p.startOf? = some info.streamId := by
        rw [Packet.startOf?_eq_some_iff, hinfo, ← hid]
      rw [stream_start_of_ne ht]
      rcases stream_makeRoom_of_collecting h with hkept | hfull
      · exact .inl hkept
      · exact .inr ⟨⟨_, ht.symm, hstart⟩, hfull⟩
    | overgrown =>
      exact .inl (stream_discardRest_of_collecting ht ((stream_release_of_ne ht).trans h))
    | completed => exact .inl ((stream_release_of_ne ht).trans h)
    | continued => exact .inl ((stream_update_of_ne ht).trans h)

theorem notice_feed_ne_streamEvicted (h : a.isFull = false) :
    (a.feed p).notice ≠ some (.streamEvicted t) := by
  cases hinfo : p.chunkInfo? with
  | none => simp only [feed, hinfo, ne_eq, reduceCtorEq, not_false_iff]
  | some info =>
    obtain ⟨fed, next, hfed, -, htakes⟩ := exists_takes (a := a) hinfo
    rw [hfed]
    cases htakes with
    | started =>
      rw [makeRoom_of_not_isFull h]
      simp
    | _ => simp

/-! ### Fewer rivals than there is room for -/

/-- How many chunks 0 of streams other than `s` there are among some packets. -/
def rivals (s : Int64) (packets : List Packet) : Nat :=
  (packets.filterMap Packet.startOf?).countP (· ≠ s)

/-- The packets that belong to a stream. -/
def chunks (s : Int64) (packets : List Packet) : List Packet :=
  packets.filter fun p => p.streamId? = some s

/-- What came of a stream is its first chunk with the data of all behind its own, and the first
attachment. -/
theorem foldl_absorb (first : Packet) (more : List Packet) :
    more.foldl StreamState.absorb first
      = { first with
          data := allData (first :: more), attachment := firstAttachment (first :: more) } := by
  induction more using List.reverseRecOn with
  | nil =>
    by_cases hfirst : first.attachment = [] <;>
      simp [allData, firstAttachment, hfirst]
    rw [← hfirst]
  | append_singleton more p ih =>
    rw [List.foldl_concat, ih, ← List.cons_append, allData_concat, firstAttachment_concat]
    rfl

theorem sublist_of_cons_sublist_append {before behind l : List Int64} (hs : s ∉ before)
    (h : (s :: behind).Sublist (before ++ s :: l)) : behind.Sublist l := by
  induction before with
  | nil => exact List.cons_sublist_cons.1 h
  | cons t before ih =>
    rw [List.mem_cons, not_or] at hs
    exact ih hs.2 (h.of_cons_of_ne hs.1)

/-- Where a stream has become the oldest that was the youngest before, the streams behind it were all
started by rivals. -/
theorem Valid.length_le_rivals {before behind : List Int64} {packets : List Packet} (h : a.Valid)
    (hids : a.pendingIds = before ++ [s])
    (holdest : (a.feedAll packets).pendingIds = s :: behind) : behind.length ≤ rivals s packets := by
  have hs : s ∉ before := by
    have hnodup := h.nodup_pending
    rw [hids, ← List.concat_eq_append, List.nodup_concat] at hnodup
    exact hnodup.1
  have hs' : s ∉ behind := by
    have hnodup := (h.feedAll packets).nodup_pending
    rw [holdest] at hnodup
    exact (List.nodup_cons.1 hnodup).1
  have hsub : (s :: behind).Sublist (before ++ s :: packets.filterMap Packet.startOf?) := by
    have hsub := pendingIds_feedAll_sublist a packets
    rwa [holdest, hids, List.append_assoc, List.singleton_append] at hsub
  calc behind.length = behind.countP (· ≠ s) := by
        refine (List.countP_eq_length.2 fun t ht => ?_).symm
        exact decide_eq_true fun heq => hs' (heq ▸ ht)
    _ ≤ rivals s packets := (sublist_of_cons_sublist_append hs hsub).countP_le

/-- What is fed from the chunk 0 of a stream to its first terminal chunk, within the bounds: the stream
is not too large, and its rivals are fewer than there is room for. -/
structure Passage (config : Config) (s : Int64) (first : Packet) (between : List Packet)
    (last : Packet) : Prop where
  /-- The stream is started. -/
  starts : first.chunkInfo? = some ⟨s, 0⟩
  /-- The stream is complete at the end. -/
  ends : last.chunkInfo? = some ⟨s, ChunkInfo.finalId⟩
  /-- The stream is not complete before. -/
  unended : ∀ p ∈ between, p.chunkInfo? ≠ some ⟨s, ChunkInfo.finalId⟩
  /-- The stream has no more data than may be. -/
  data_le : (allData (chunks s (first :: (between ++ [last])))).length ≤ config.maxBodySize.toNat
  /-- The rivals are fewer than there is room for. -/
  rivals_lt : rivals s (first :: (between ++ [last])) < config.maxPendingStreams.toNat

theorem feed_start (hs : a.stream s = .idle) (hp : p.chunkInfo? = some ⟨s, 0⟩)
    (hdata : p.data.length ≤ a.dataLimit) :
    a.feed p = ⟨a.makeRoom.1.start s p, .ok none, a.makeRoom.2⟩ := by
  have hlimit : ¬ a.exceedsLimit p.data.length = true := mt exceedsLimit_iff.1 (Nat.not_lt.2 hdata)
  rw [feed_eq hp]
  simp only [hs, feedNew, ne_eq, not_true, if_false, if_neg hlimit]
  rfl

theorem Valid.exists_started (h : a.Valid) (hs : a.stream s = .idle)
    (hp : p.chunkInfo? = some ⟨s, 0⟩) (hdata : p.data.length ≤ a.dataLimit) :
    ∃ before, (a.feed p).assembler.pendingIds = before ++ [s] ∧
      (a.feed p).assembler.stream s = .collecting p := by
  have hstep := stream_feed_self h hp
  rw [hs] at hstep
  simp only [StreamState.feedChunk, ne_eq, not_true, if_false, if_neg (Nat.not_lt.2 hdata)] at hstep
  refine ⟨a.makeRoom.1.pendingIds, ?_, hstep⟩
  rw [feed_start hs hp hdata, pendingIds_start]

theorem reply_feed_of_final (hs : a.stream s = .collecting q)
    (hp : p.chunkInfo? = some ⟨s, ChunkInfo.finalId⟩)
    (hdata : q.data.length + p.data.length ≤ a.dataLimit) :
    (a.feed p).reply = ⟨.ok (some (StreamState.absorb q p).clearChunkInfo), none⟩ := by
  have hlimit : ¬ a.exceedsLimit (q.data.length + p.data.length) = true :=
    mt exceedsLimit_iff.1 (Nat.not_lt.2 hdata)
  have hfinal : ChunkInfo.isFinal ⟨s, ChunkInfo.finalId⟩ = true := rfl
  rw [feed_eq hp]
  simp only [hs, feedPending, if_neg hlimit, if_pos hfinal]
  rfl

theorem data_foldl_absorb (first : Packet) (more : List Packet) :
    (more.foldl StreamState.absorb first).data = allData (first :: more) := by
  rw [foldl_absorb]

/-- A stream's own chunk that is not terminal is added to what came of the stream, if that does not
become too large. -/
theorem Valid.stream_feed_own (h : a.Valid) (hs : a.stream s = .collecting q)
    (hp : p.streamId? = some s) (hunended : p.chunkInfo? ≠ some ⟨s, ChunkInfo.finalId⟩)
    (hdata : q.data.length + p.data.length ≤ a.dataLimit) :
    (a.feed p).assembler.stream s = .collecting (StreamState.absorb q p) := by
  obtain ⟨info, hinfo, rfl⟩ := streamId?_eq_some_iff.1 hp
  have hfinal : ¬ info.isFinal = true := by
    intro hfinal
    have hid : info.chunkId = ChunkInfo.finalId := by simpa [ChunkInfo.isFinal] using hfinal
    exact hunended (by rw [hinfo, ← hid])
  rw [stream_feed_self h hinfo, hs, StreamState.feedChunk, if_neg (Nat.not_lt.2 hdata),
    if_neg hfinal]

/-- A stream that was started last stays after one more packet of another stream, if with this one
its rivals are fewer than there is room for. -/
theorem Valid.stream_feed_rival {before : List Int64} {packets : List Packet} (h : a.Valid)
    (hids : a.pendingIds = before ++ [s]) (hs : (a.feedAll packets).stream s = .collecting q)
    (hp : p.streamId? ≠ some s)
    (hrivals : a.config.maxPendingStreams ≠ 0 →
      rivals s packets + rivals s [p] < a.config.maxPendingStreams.toNat) :
    ((a.feedAll packets).feed p).assembler.stream s = .collecting q := by
  rcases stream_feed_of_collecting hp hs with hkept | ⟨⟨t, ht, hstart⟩, hfull, behind, holdest⟩
  · exact hkept
  · -- It would have to be the oldest, with too few behind it.
    have hone : rivals s [p] = 1 := by simp [rivals, hstart, ht]
    have hbehind := h.length_le_rivals hids holdest
    obtain ⟨hmax, hbound⟩ := isFull_iff.1 hfull
    rw [config_feedAll] at hmax hbound
    rw [holdest, List.length_cons] at hbound
    have hlt := hrivals hmax
    omega

/-- **A stream that was started last survives** whatever else is fed, as long as its rivals are fewer
than there is room for, it does not become too large and is not completed. -/
theorem Valid.stream_feedAll {before : List Int64} {first : Packet} {packets : List Packet}
    (h : a.Valid) (hids : a.pendingIds = before ++ [s]) (hs : a.stream s = .collecting first)
    (hunended : ∀ p ∈ packets, p.chunkInfo? ≠ some ⟨s, ChunkInfo.finalId⟩)
    (hdata : (allData (first :: chunks s packets)).length ≤ a.dataLimit)
    (hrivals : a.config.maxPendingStreams ≠ 0 →
      rivals s packets < a.config.maxPendingStreams.toNat) :
    (a.feedAll packets).stream s
      = .collecting ((chunks s packets).foldl StreamState.absorb first) := by
  induction packets using List.reverseRecOn with
  | nil => exact hs
  | append_singleton packets p ih =>
    have hchunks : chunks s (packets ++ [p]) = chunks s packets ++ chunks s [p] :=
      List.filter_append _ _
    have hcount : rivals s (packets ++ [p]) = rivals s packets + rivals s [p] := by
      simp only [rivals, List.filterMap_append, List.countP_append]
    have hsize : (allData (first :: chunks s (packets ++ [p]))).length
        = (allData (first :: chunks s packets)).length + (allData (chunks s [p])).length := by
      rw [hchunks, ← List.cons_append, allData, List.flatMap_append, List.length_append]
      rfl
    rw [hsize] at hdata
    rw [hcount] at hrivals
    have hlast := ih (fun p hp => hunended p (List.mem_append_left _ hp))
      (Nat.le_trans (Nat.le_add_right _ _) hdata)
      fun hmax => Nat.lt_of_le_of_lt (Nat.le_add_right _ _) (hrivals hmax)
    rw [feedAll_concat, hchunks, List.foldl_append]
    by_cases hp : p.streamId? = some s
    · have hown : chunks s [p] = [p] := by simp [chunks, hp]
      have hone : allData [p] = p.data := by simp [allData]
      rw [hown, hone, ← data_foldl_absorb, ← dataLimit_feedAll packets] at hdata
      rw [hown]
      exact (h.feedAll packets).stream_feed_own hlast hp (hunended p (by simp)) hdata
    · have hother : chunks s [p] = [] := by simp [chunks, hp]
      rw [hother]
      exact h.stream_feed_rival hids hlast hp hrivals

/-! ### As many rivals as there is room for -/

/-- Idle streams that are started in a row, all different and none of them stream `s`. -/
structure Newcomers (a : Assembler) (s : Int64) (packets : List Packet) : Prop where
  /-- They are all different. -/
  nodup : (packets.map Packet.streamId?).Nodup
  /-- Each can be started, and is not the stream itself. -/
  starts : ∀ p ∈ packets, ∃ t, p.chunkInfo? = some ⟨t, 0⟩ ∧ t ≠ s ∧ a.stream t = .idle ∧
    p.data.length ≤ a.dataLimit

theorem Newcomers.tail {packets : List Packet} (hnew : Newcomers a s (p :: packets)) (h : a.Valid) :
    Newcomers (a.feed p).assembler s packets where
  nodup := (List.nodup_cons.1 hnew.nodup).2
  starts := by
    intro p' hp'
    obtain ⟨t, hinfo, -⟩ := hnew.starts p List.mem_cons_self
    obtain ⟨t', hinfo', hs, hidle, hdata⟩ := hnew.starts p' (List.mem_cons_of_mem _ hp')
    have ht : t' ≠ t := by
      rintro rfl
      refine (List.nodup_cons.1 hnew.nodup).1 (List.mem_map.2 ⟨p', hp', ?_⟩)
      rw [Packet.streamId?, Packet.streamId?, hinfo, hinfo']
    have hfades := fades_feed h hinfo ht
    rw [hidle] at hfades
    exact ⟨t', hinfo', hs, hfades.eq_idle, by rwa [dataLimit_feed]⟩

/-- **As many newcomers as there is room for drive a stream out**, those behind it counted; the last
of them does. -/
theorem Valid.feedAll_newcomers {before behind : List Int64} {packets : List Packet} (h : a.Valid)
    (hids : a.pendingIds = before ++ s :: behind) (hnew : Newcomers a s packets)
    (hne : packets ≠ [])
    (hcount : behind.length + packets.length = a.config.maxPendingStreams.toNat) :
    (a.feedAll packets).stream s = .dropping ∧
      (a.replies packets).getLast? = some ⟨.ok none, some (.streamEvicted s)⟩ := by
  induction packets generalizing a before behind with
  | nil => exact absurd rfl hne
  | cons p packets ih =>
    obtain ⟨t, hinfo, hts, hidle, hdata⟩ := hnew.starts p List.mem_cons_self
    have hfeed := feed_start hidle hinfo hdata
    rw [feedAll_cons, replies]
    cases packets with
    | nil =>
      obtain ⟨hstream, hnotice⟩ := h.makeRoom_of_oldest hids hcount
      rw [hfeed, feedAll_nil]
      refine ⟨(stream_start_of_ne hts.symm).trans hstream, ?_⟩
      simp only [replies, List.getLast?_singleton, Fed.reply, hnotice]
    | cons p' packets =>
      rw [List.length_cons, List.length_cons] at hcount
      obtain ⟨before', hbefore'⟩ := exists_pendingIds_makeRoom hids (by omega)
      have hids' : (a.feed p).assembler.pendingIds = before' ++ s :: (behind ++ [t]) := by
        rw [hfeed, pendingIds_start, hbefore', List.append_assoc, List.cons_append]
      have hcount' : (behind ++ [t]).length + (p' :: packets).length
          = (a.feed p).assembler.config.maxPendingStreams.toNat := by
        rw [config_feed, List.length_append, List.length_singleton, List.length_cons]
        omega
      rw [replies, List.getLast?_cons_cons, ← replies]
      exact ih (h.feed p) hids' (hnew.tail h) (List.cons_ne_nil _ _) hcount'

theorem Valid.not_collecting_feedAll {packets : List Packet} (h : a.Valid)
    (hs : ∀ q, a.stream s ≠ .collecting q) (hp : ∀ p ∈ packets, p.chunkInfo? ≠ some ⟨s, 0⟩) (q : Packet) :
    (a.feedAll packets).stream s ≠ .collecting q := by
  induction packets using List.reverseRecOn generalizing q with
  | nil => exact hs q
  | append_singleton packets p ih =>
    have hlast := ih fun p hp' => hp p (List.mem_append_left _ hp')
    rw [feedAll_concat]
    intro hq
    cases hinfo : p.chunkInfo? with
    | none =>
      rw [assembler_feed_of_not_chunk hinfo] at hq
      exact hlast q hq
    | some info =>
      by_cases he : info.streamId = s
      · subst he
        rw [stream_feed_self (h.feedAll packets) hinfo] at hq
        rcases StreamState.collecting_of_feedChunk hq with ⟨-, hid, -⟩ | ⟨assembled, hassembled, -⟩
        · exact hp p (by simp) (by rw [hinfo, ← hid])
        · exact hlast _ hassembled
      · have hfades := fades_feed (h.feedAll packets) hinfo (Ne.symm he)
        rw [hq] at hfades
        exact hlast q hfades.eq_collecting

theorem outcome_feed_of_not_collecting (hs : ∀ q, a.stream s ≠ .collecting q)
    (hp : p.chunkInfo? = some ⟨s, ChunkInfo.finalId⟩) : (a.feed p).outcome = .ok none := by
  rw [outcome_feed hp]
  cases hstream : a.stream s with
  | idle => rfl
  | collecting q => exact absurd hstream (hs q)
  | dropping => rfl

/-! ### The guarantee -/

/-- What a stream that is idle in a state can rely on, and no more. -/
structure FifoGuarantee (a : Assembler) (s : Int64) : Prop where
  /-- With fewer rivals than there is room for, the packet that was split comes out at the terminal
  chunk: the first chunk with all data of the stream in order. -/
  delivers : a.config.maxPendingStreams ≠ 0 → a.stream s = .idle → ∀ first between last,
    Passage a.config s first between last →
      ((a.feedAll (first :: between)).feed last).reply = ⟨.ok (some (Packet.clearChunkInfo
        { first with
          data := allData (chunks s (first :: (between ++ [last])))
          attachment := firstAttachment (chunks s (first :: (between ++ [last]))) })), none⟩
  /-- As many newcomers as there is room for, right after the start, drive the stream out with the
  last of them, and from then on nothing comes out at its terminal chunk unless it is started anew. -/
  evicts : a.config.maxPendingStreams ≠ 0 → a.stream s = .idle → ∀ first newcomers,
    first.chunkInfo? = some ⟨s, 0⟩ → first.data.length ≤ a.config.maxBodySize.toNat →
    Newcomers (a.feed first).assembler s newcomers →
    newcomers.length = a.config.maxPendingStreams.toNat →
      ((a.feed first).assembler.replies newcomers).getLast?
          = some ⟨.ok none, some (.streamEvicted s)⟩ ∧
        (a.feedAll (first :: newcomers)).stream s = .dropping ∧
        ∀ later last, (∀ p ∈ later, p.chunkInfo? ≠ some ⟨s, 0⟩) →
          last.chunkInfo? = some ⟨s, ChunkInfo.finalId⟩ →
            ((a.feedAll (first :: newcomers ++ later)).feed last).outcome = .ok none
  /-- Without a bound, no packet of another stream drives an incomplete one out, and the operator is
  never told that one was. -/
  keeps : a.config.maxPendingStreams = 0 → ∀ p,
    (a.feed p).notice ≠ some (.streamEvicted s) ∧
      ∀ q, a.stream s = .collecting q → p.streamId? ≠ some s →
        (a.feed p).assembler.stream s = .collecting q

/-- The stream is delivered: it survives all that is fed in between, and its terminal chunk finds room
for its data. -/
theorem Valid.reply_of_passage {first last : Packet} {between : List Packet} (h : a.Valid)
    (hidle : a.stream s = .idle) (hpassage : Passage a.config s first between last) :
    ((a.feedAll (first :: between)).feed last).reply = ⟨.ok (some (Packet.clearChunkInfo
      { first with
        data := allData (chunks s (first :: (between ++ [last])))
        attachment := firstAttachment (chunks s (first :: (between ++ [last]))) })), none⟩ := by
  obtain ⟨hstarts, hends, hunended, hdata, hrivals⟩ := hpassage
  have hchunks : chunks s (first :: (between ++ [last])) = first :: (chunks s between ++ [last]) := by
    simp [chunks, Packet.streamId?, hstarts, hends]
  rw [hchunks] at hdata ⊢
  have hsplit : (allData (first :: (chunks s between ++ [last]))).length
      = (allData (first :: chunks s between)).length + last.data.length := by
    rw [← List.cons_append, allData_concat, List.length_append]
  rw [hsplit] at hdata
  have hfirst : first.data.length ≤ (allData (first :: chunks s between)).length := by
    simp [allData]
  obtain ⟨before, hids, hstarted⟩ := h.exists_started hidle hstarts
    (hfirst.trans (Nat.le_trans (Nat.le_add_right _ _) hdata))
  have hfewer : rivals s between ≤ rivals s (first :: (between ++ [last])) := by
    refine List.Sublist.countP_le (List.Sublist.filterMap _ ?_)
    exact (List.sublist_append_left _ _).trans (List.sublist_cons_self _ _)
  have hcollected := (h.feed first).stream_feedAll hids hstarted hunended
    (by
      rw [dataLimit_feed]
      exact Nat.le_trans (Nat.le_add_right _ _) hdata)
    fun _ => by
      rw [config_feed]
      exact Nat.lt_of_le_of_lt hfewer hrivals
  have hreply := reply_feed_of_final hcollected hends
    (by
      rw [data_foldl_absorb, dataLimit_feedAll, dataLimit_feed]
      exact hdata)
  rw [feedAll_cons, hreply, ← foldl_absorb, List.foldl_concat]

theorem Valid.fifoGuarantee (h : a.Valid) (s : Int64) : FifoGuarantee a s where
  delivers := fun _ hidle _ _ _ hpassage => h.reply_of_passage hidle hpassage
  evicts := by
    intro hmax hidle first newcomers hfirst hdata hnew hcount
    obtain ⟨before, hids, -⟩ := h.exists_started hidle hfirst hdata
    have hne : newcomers ≠ [] := by
      rintro rfl
      exact hmax (UInt64.toNat_inj.1 hcount.symm)
    obtain ⟨hdropping, hlast⟩ := (h.feed first).feedAll_newcomers hids hnew hne
      (by simpa using hcount)
    refine ⟨hlast, hdropping, fun later last hlater hends => ?_⟩
    rw [feedAll_append]
    refine outcome_feed_of_not_collecting ?_ hends
    refine (h.feedAll _).not_collecting_feedAll (fun q hq => ?_) hlater
    cases hdropping.symm.trans hq
  keeps := by
    intro hmax p
    have hfull := isFull_eq_false_of_unbounded hmax
    refine ⟨notice_feed_ne_streamEvicted hfull, fun q hq hp => ?_⟩
    rcases stream_feed_of_collecting hp hq with hkept | ⟨-, hfull', -⟩
    · exact hkept
    · cases hfull.symm.trans hfull'

/-- **The oldest stream makes room, and only that one.** In every state that a run can reach, a stream
that is started now comes out whole if its rivals are fewer than there is room for; it is dropped if
they are as many; and no stream is dropped for another where there is no bound. -/
theorem fifoGuarantee_after (config : Config) (events : List Event) (s : Int64) :
    FifoGuarantee (after { config } events) s :=
  ((valid_new config).after events).fifoGuarantee s

/-- A receiver with room for two streams, one of which is taken. -/
def sampleReceiver : Assembler :=
  after { config := { maxPendingStreams := 2, maxBodySize := 4 } } [.feed (sampleChunk 9 0 [0])]

theorem passage_sample :
    Passage sampleReceiver.config 1 (sampleChunk 1 0 [1, 2])
      [sampleChunk 2 0 [3], sampleChunk 2 1 [4, 5, 6, 7]] (sampleChunk 1 (-1) [8]) where
  starts := rfl
  ends := rfl
  unended := by decide
  data_le := by decide
  rivals_lt := by decide

theorem newcomers_sample :
    Newcomers (sampleReceiver.feed (sampleChunk 1 0 [1, 2])).assembler 1
      [sampleChunk 2 0 [3], sampleChunk 3 0 []] where
  nodup := by decide
  starts := by
    intro p hp
    rw [List.mem_cons, List.mem_singleton] at hp
    rcases hp with rfl | rfl
    · exact ⟨2, rfl, by decide, rfl, by decide⟩
    · exact ⟨3, rfl, by decide, rfl, by decide⟩

/-- `fifoGuarantee_after` on a receiver with room for two streams: with one rival the stream comes out,
with two it is dropped and its terminal chunk brings out nothing. Without a bound it stays. -/
theorem fifoGuarantee_sample :
    ((sampleReceiver.feedAll
        [sampleChunk 1 0 [1, 2], sampleChunk 2 0 [3], sampleChunk 2 1 [4, 5, 6, 7]]).feed
          (sampleChunk 1 (-1) [8])).reply
        = ⟨.ok (some { metadata := some {}, data := [1, 2, 8] }), none⟩ ∧
      ((sampleReceiver.feed (sampleChunk 1 0 [1, 2])).assembler.replies
          [sampleChunk 2 0 [3], sampleChunk 3 0 []]).getLast?
        = some ⟨.ok none, some (.streamEvicted 1)⟩ ∧
      ((sampleReceiver.feedAll
          [sampleChunk 1 0 [1, 2], sampleChunk 2 0 [3], sampleChunk 3 0 []]).feed
            (sampleChunk 1 (-1) [8])).outcome = .ok none ∧
      ((after { config := { maxPendingStreams := 0 } } [.feed (sampleChunk 9 0 [0])]).feed
          (sampleChunk 1 0 [1, 2])).assembler.stream 9 = .collecting (sampleChunk 9 0 [0]) := by
  have hbounded := fifoGuarantee_after { maxPendingStreams := 2, maxBodySize := 4 }
    [.feed (sampleChunk 9 0 [0])] 1
  have hunbounded := fifoGuarantee_after { maxPendingStreams := 0 }
    [.feed (sampleChunk 9 0 [0])] 9
  obtain ⟨hlast, -, hnothing⟩ := hbounded.evicts (by decide) rfl _ _ rfl (by decide)
    newcomers_sample rfl
  refine ⟨hbounded.delivers (by decide) rfl _ _ _ passage_sample, hlast, ?_, ?_⟩
  · exact hnothing [] _ (fun p hp => absurd hp List.not_mem_nil) rfl
  · exact (hunbounded.keeps rfl _).2 _ rfl (by decide)

end RpcFraming.Assembler
