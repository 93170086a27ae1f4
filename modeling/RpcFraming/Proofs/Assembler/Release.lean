import RpcFraming.Proofs.Assembler.Eviction

/-!
# The terminal chunk releases its stream

A stream can be incomplete, dropped or unknown when its terminal chunk comes, and the chunk can be
added, refused or dropped. In all cases the assembler knows nothing of the stream afterwards
(`Valid.stream_feed_final`). So a stream id that was used before is as good as a new one once its
terminal chunk was fed: whatever became of the earlier streams, the next one is judged by its own size
alone.

The argument runs on one stream (`StreamState.run`): fed from idle, a whole stream is delivered or
refused by its size. The assembler answers like that as long as nothing else is fed in between
(`Valid.outcomes_eq_run`), and a stream that was ended is idle whatever else was fed since
(`stream_after_of_settled`).

## What is proved

* `WholeStream.run_of_fits`, `WholeStream.run_of_exceeds`: what is answered to a whole stream.
* `fate_of_settled`: the terminal chunk releases the stream, and the next one's fate hangs on its size.
-/

namespace RpcFraming

open Assembler (allData firstAttachment allData_concat)

/-! ### Whole streams -/

/-- A packet goes on with a stream: it is a chunk of it, but not the terminal one. -/
def Packet.GoesOn (s : Int64) (p : Packet) : Prop :=
  ∃ info, p.chunkInfo? = some info ∧ info.streamId = s ∧ info.isFinal = false

theorem Packet.GoesOn.streamId? {s : Int64} {p : Packet} (h : p.GoesOn s) :
    p.streamId? = some s := by
  obtain ⟨info, hinfo, rfl, -⟩ := h
  rw [Packet.streamId?, hinfo]
  rfl

/-- A stream from its chunk 0 to its terminal chunk. -/
structure WholeStream (s : Int64) where
  /-- The chunk 0. -/
  first : Packet
  /-- The chunks between the first and the last one. -/
  between : List Packet
  /-- The terminal chunk. -/
  last : Packet
  /-- The stream starts with its chunk 0. -/
  starts : first.chunkInfo? = some ⟨s, 0⟩
  /-- The chunks in between go on with it. -/
  goesOn : ∀ p ∈ between, p.GoesOn s
  /-- The stream ends with its terminal chunk. -/
  ends : last.chunkInfo? = some ⟨s, ChunkInfo.finalId⟩

namespace WholeStream

variable {s : Int64} (stream : WholeStream s)

/-- The chunks in the order in which they are fed. -/
def packets : List Packet := stream.first :: (stream.between ++ [stream.last])

/-- The number of data bytes of the whole stream. -/
def size : Nat := (allData stream.packets).length

/-- What comes out of the stream: its first chunk, no longer marked as one, with the data of all
chunks and the first attachment. -/
def assembled : Packet :=
  Packet.clearChunkInfo { stream.first with
    data := allData stream.packets
    attachment := firstAttachment stream.packets }

theorem streamId?_of_mem {p : Packet} (hp : p ∈ stream.packets) : p.streamId? = some s := by
  rw [packets, List.mem_cons, List.mem_append, List.mem_singleton] at hp
  rcases hp with rfl | hp | rfl
  · rw [Packet.streamId?, stream.starts]
    rfl
  · exact (stream.goesOn p hp).streamId?
  · rw [Packet.streamId?, stream.ends]
    rfl

/-- Packets with more data than may be have a first one with which it becomes too much. -/
theorem exists_exceeding {packets : List Packet} {limit : Nat}
    (h : limit < (allData packets).length) :
    ∃ before chunk after, packets = before ++ chunk :: after ∧ (allData before).length ≤ limit ∧
      limit < (allData (before ++ [chunk])).length := by
  induction packets using List.reverseRecOn with
  | nil => exact absurd h (Nat.not_lt_zero _)
  | append_singleton packets p ih =>
    by_cases hlt : limit < (allData packets).length
    · obtain ⟨before, chunk, after, rfl, hle, hexceeds⟩ := ih hlt
      exact ⟨before, chunk, after ++ [p], by simp, hle, hexceeds⟩
    · exact ⟨packets, p, [], rfl, Nat.le_of_not_lt hlt, h⟩

end WholeStream

/-! ### A stream alone -/

/-- Nothing comes out, and the operator is told nothing. -/
def Reply.silent : Reply := ⟨.ok none, none⟩

/-- The packet is refused because the stream became too large. -/
def Reply.tooLarge : Reply := ⟨.error .streamAboveLimit, none⟩

namespace StreamState

variable {limit : Nat} {s : Int64} {p q last : Packet} {packets : List Packet}

/-- **The terminal chunk** makes its stream idle, wherever the stream stood. -/
theorem feedChunk_of_isFinal {info : ChunkInfo} (hfinal : info.isFinal = true) (σ : StreamState) :
    (σ.feedChunk limit info p).1 = idle := by
  have habandoned : abandonedAt info = idle := if_pos hfinal
  cases σ with
  | idle =>
    have hid : info.chunkId ≠ 0 := by
      have hid : info.chunkId = ChunkInfo.finalId := by simpa [ChunkInfo.isFinal] using hfinal
      rw [hid]
      decide
    rw [feedChunk, if_pos hid]
    exact habandoned
  | collecting assembled =>
    rw [feedChunk]
    split
    · exact habandoned
    · rfl
  | dropping => exact habandoned

theorem abandonedAt_of_goesOn {info : ChunkInfo} (h : info.isFinal = false) :
    abandonedAt info = dropping := by
  rw [abandonedAt, h]
  rfl

theorem feed_dropping (hp : p.GoesOn s) :
    dropping.feed limit p = (dropping, .silent) := by
  obtain ⟨info, hinfo, -, hfinal⟩ := hp
  rw [feed_of_chunk hinfo, feedChunk, abandonedAt_of_goesOn hfinal]
  rfl

theorem feed_collecting (hp : p.GoesOn s) (hdata : q.data.length + p.data.length ≤ limit) :
    (collecting q).feed limit p = (collecting (absorb q p), .silent) := by
  obtain ⟨info, hinfo, -, hfinal⟩ := hp
  rw [feed_of_chunk hinfo, feedChunk, if_neg (Nat.not_lt.2 hdata), hfinal]
  rfl

/-- A stream that is dropped answers nothing up to its terminal chunk. -/
theorem run_dropping (hpackets : ∀ p ∈ packets, p.GoesOn s)
    (hlast : last.chunkInfo? = some ⟨s, ChunkInfo.finalId⟩) :
    dropping.run limit (packets ++ [last]) = List.replicate (packets.length + 1) .silent := by
  induction packets with
  | nil =>
    rw [List.nil_append, run, run, feed_of_chunk hlast]
    rfl
  | cons p packets ih =>
    rw [List.cons_append, run, feed_dropping (hpackets p List.mem_cons_self),
      ih fun p hp => hpackets p (List.mem_cons_of_mem _ hp)]
    rfl

/-- A stream that does not become too large answers nothing while it goes on, and all chunks are
added to what came of it so far. -/
theorem run_collecting (hpackets : ∀ p ∈ packets, p.GoesOn s) (rest : List Packet)
    (hdata : q.data.length + (allData packets).length ≤ limit) :
    (collecting q).run limit (packets ++ rest)
      = List.replicate packets.length .silent
          ++ (collecting (packets.foldl absorb q)).run limit rest := by
  induction packets generalizing q with
  | nil => rfl
  | cons p packets ih =>
    have hsplit : (allData (p :: packets)).length = p.data.length + (allData packets).length := by
      simp [allData]
    have habsorb : (absorb q p).data.length = q.data.length + p.data.length := List.length_append
    rw [List.cons_append, run, feed_collecting (hpackets p List.mem_cons_self) (by omega),
      ih (fun p hp => hpackets p (List.mem_cons_of_mem _ hp)) (by omega)]
    rfl

/-- The chunk with which a stream becomes too large is refused, and nothing is answered to those after
it. -/
theorem run_overgrown {chunk : Packet} {after : List Packet} {info : ChunkInfo}
    (hinfo : chunk.chunkInfo? = some info) (hdata : limit < q.data.length + chunk.data.length)
    (hafter : (abandonedAt info).run limit after = List.replicate after.length .silent) :
    (collecting q).run limit (chunk :: after)
      = .tooLarge :: List.replicate after.length .silent := by
  rw [run, feed_of_chunk hinfo, feedChunk, if_pos hdata, hafter]
  rfl

end StreamState

namespace WholeStream

variable {s : Int64} (stream : WholeStream s) {limit : Nat}

open StreamState (absorb)

theorem size_eq : stream.size
    = (allData (stream.first :: stream.between)).length + stream.last.data.length := by
  rw [size, packets, ← List.cons_append, allData_concat, List.length_append]

/-- The chunk 0 starts the stream, if it alone is not too large. -/
theorem feed_first (hdata : stream.first.data.length ≤ limit) :
    StreamState.idle.feed limit stream.first = (.collecting stream.first, .silent) := by
  rw [StreamState.feed_of_chunk stream.starts, StreamState.feedChunk, if_neg (not_not.2 rfl),
    if_neg (Nat.not_lt.2 hdata)]
  rfl

/-- **A stream that fits** is delivered at its terminal chunk, and nothing is answered before. -/
theorem run_of_fits (h : stream.size ≤ limit) :
    StreamState.idle.run limit stream.packets
      = List.replicate (stream.between.length + 1) .silent
          ++ [⟨.ok (some stream.assembled), none⟩] := by
  have hsize := stream.size_eq
  have hfront : (allData (stream.first :: stream.between)).length
      = stream.first.data.length + (allData stream.between).length := by
    simp [allData]
  have hlast : ¬ limit < (stream.between.foldl absorb stream.first).data.length
      + stream.last.data.length := by
    rw [Assembler.data_foldl_absorb]
    omega
  have hfinal : ChunkInfo.isFinal ⟨s, ChunkInfo.finalId⟩ = true := rfl
  have hassembled : absorb (stream.between.foldl absorb stream.first) stream.last
      = { stream.first with
          data := allData stream.packets, attachment := firstAttachment stream.packets } := by
    rw [packets, ← Assembler.foldl_absorb, List.foldl_concat]
  rw [packets, StreamState.run, stream.feed_first (by omega),
    StreamState.run_collecting stream.goesOn _ (by omega), StreamState.run,
    StreamState.feed_of_chunk stream.ends, StreamState.feedChunk, if_neg hlast, if_pos hfinal,
    hassembled]
  rfl

/-- Where the chunks after the first one are cut, those before the cut go on with the stream, and after
a chunk at which the stream is given up nothing is answered. -/
theorem goesOn_of_eq_append (limit : Nat) {before after : List Packet} {chunk : Packet}
    (h : stream.between ++ [stream.last] = before ++ chunk :: after) :
    (∀ p ∈ before, p.GoesOn s) ∧ ∃ info, chunk.chunkInfo? = some info ∧
      (StreamState.abandonedAt info).run limit after = List.replicate after.length .silent := by
  cases after using List.reverseRecOn with
  | nil =>
    -- the chunk is the terminal one
    obtain ⟨hbefore, hlast⟩ := List.append_inj' h rfl
    obtain rfl : stream.last = chunk := List.singleton_inj.1 hlast
    exact ⟨hbefore ▸ stream.goesOn, _, stream.ends, rfl⟩
  | append_singleton after last =>
    rw [← List.cons_append, ← List.append_assoc] at h
    obtain ⟨hbetween, hlast⟩ := List.append_inj' h rfl
    obtain rfl : stream.last = last := List.singleton_inj.1 hlast
    have hgoesOn := stream.goesOn
    rw [hbetween] at hgoesOn
    obtain ⟨info, hinfo, -, hfinal⟩ := hgoesOn chunk (by simp)
    refine ⟨fun p hp => hgoesOn p (List.mem_append_left _ hp), info, hinfo, ?_⟩
    rw [StreamState.abandonedAt_of_goesOn hfinal,
      StreamState.run_dropping (fun p hp => hgoesOn p (by simp [hp])) stream.ends,
      List.length_append, List.length_singleton]

/-- **A stream that does not fit** is refused at the chunk with which it becomes too large, and nothing
is answered to its other chunks. -/
theorem run_of_exceeds (h : limit < stream.size) :
    ∃ before chunk after, stream.packets = before ++ chunk :: after ∧
      (allData before).length ≤ limit ∧ limit < (allData (before ++ [chunk])).length ∧
      StreamState.idle.run limit stream.packets
        = List.replicate before.length .silent
            ++ .tooLarge :: List.replicate after.length .silent := by
  obtain ⟨before, chunk, after, hpackets, hle, hexceeds⟩ := exists_exceeding h
  refine ⟨before, chunk, after, hpackets, hle, hexceeds, ?_⟩
  cases before with
  | nil =>
    -- the chunk 0 alone is too large
    obtain ⟨rfl, rfl⟩ := List.cons.inj hpackets
    have hdata : limit < stream.first.data.length := by simpa [allData] using hexceeds
    rw [packets, StreamState.run, StreamState.feed_of_chunk stream.starts, StreamState.feedChunk,
      if_neg (not_not.2 rfl), if_pos hdata, StreamState.run_dropping stream.goesOn stream.ends,
      List.length_append]
    rfl
  | cons first before =>
    obtain ⟨rfl, hrest⟩ := List.cons.inj hpackets
    obtain ⟨hbefore, info, hinfo, hafter⟩ := stream.goesOn_of_eq_append limit hrest
    have hfront : (allData (stream.first :: before)).length
        = stream.first.data.length + (allData before).length := by
      simp [allData]
    rw [allData_concat, List.length_append, ← Assembler.data_foldl_absorb] at hexceeds
    rw [hpackets, List.cons_append, StreamState.run, stream.feed_first (by omega),
      StreamState.run_collecting hbefore _ (by omega),
      StreamState.run_overgrown hinfo hexceeds hafter]
    rfl

end WholeStream

namespace Assembler

variable {a : Assembler} {config : Config} {events : List Event} {p : Packet} {packets : List Packet}
  {s : Int64}

/-! ### The assembler -/

/-- **The terminal chunk releases its stream**, whether a packet comes out, none does or the chunk is
refused. -/
theorem Valid.stream_feed_final (h : a.Valid) (hp : p.chunkInfo? = some ⟨s, ChunkInfo.finalId⟩) :
    (a.feed p).assembler.stream s = .idle := by
  rw [stream_feed_self h hp]
  exact StreamState.feedChunk_of_isFinal rfl _

/-- What comes out for each of some packets, or why it is refused. -/
def outcomes (a : Assembler) (packets : List Packet) : List (Except Fault (Option Packet)) :=
  (a.replies packets).map Reply.outcome

/-- The chunks of one stream, fed with nothing in between, are answered as if there were no other
stream. -/
theorem Valid.outcomes_eq_run (h : a.Valid) (hpackets : ∀ p ∈ packets, p.streamId? = some s) :
    a.outcomes packets = ((a.stream s).run a.dataLimit packets).map Reply.outcome := by
  induction packets generalizing a with
  | nil => rfl
  | cons p packets ih =>
    obtain ⟨info, hinfo, rfl⟩ := streamId?_eq_some_iff.1 (hpackets p List.mem_cons_self)
    have hrest := ih (h.feed p) fun p hp => hpackets p (List.mem_cons_of_mem _ hp)
    rw [dataLimit_feed, stream_feed_self h hinfo] at hrest
    rw [outcomes, replies, List.map_cons, ← outcomes, hrest, Fed.reply, outcome_feed hinfo,
      StreamState.run, StreamState.feed_of_chunk hinfo, List.map_cons]

/-! ### Streams that were ended -/

/-- A stream is not open: it never occurred, or the last of its packets was its terminal chunk. -/
def Settled (s : Int64) (events : List Event) : Prop :=
  ∀ p ∈ (chunksOf s events).getLast?, p.isFinal = true

theorem chunksOf_append (events more : List Event) :
    chunksOf s (events ++ more) = chunksOf s events ++ chunksOf s more :=
  List.filterMap_append

theorem chunksOf_map_feed (h : ∀ p ∈ packets, p.streamId? = some s) :
    chunksOf s (packets.map .feed) = packets := by
  induction packets with
  | nil => rfl
  | cons p packets ih =>
    rw [List.map_cons, chunksOf, List.filterMap_cons_some (chunkOf_feed_of_eq (h p List.mem_cons_self))]
    exact congrArg (p :: ·) (ih fun p hp => h p (List.mem_cons_of_mem _ hp))

/-- A stream is settled again after it was fed whole, and stays so while nothing of it is fed. -/
theorem settled_of_whole (events : List Event) (stream : WholeStream s) {gap : List Event}
    (hgap : chunksOf s gap = []) : Settled s (events ++ stream.packets.map .feed ++ gap) := by
  intro p hp
  rw [chunksOf_append, chunksOf_append, hgap, List.append_nil,
    chunksOf_map_feed fun p => stream.streamId?_of_mem, WholeStream.packets, ← List.cons_append,
    ← List.append_assoc, List.getLast?_concat, Option.mem_some_iff] at hp
  rw [← hp, Packet.isFinal, stream.ends]
  rfl

/-- **A settled stream is idle**, whatever happened to the others. -/
theorem stream_after_of_settled (config : Config) (h : Settled s events) :
    (after { config } events).stream s = .idle := by
  induction events using List.reverseRecOn with
  | nil => exact stream_new config
  | append_singleton events e ih =>
    have hvalid := (valid_new config).after events
    rw [after_concat]
    cases e with
    | clear => exact stream_clear
    | feed p =>
      cases hinfo : p.chunkInfo? with
      | none =>
        have hp : p.streamId? ≠ some s := by simp [Packet.streamId?, hinfo]
        rw [Settled, chunksOf_concat_of_none (chunkOf_feed_of_ne hp)] at h
        rw [next, assembler_feed_of_not_chunk hinfo]
        exact ih h
      | some info =>
        by_cases he : info.streamId = s
        · -- the stream's own packet, so it is its terminal chunk
          have hp : p.streamId? = some s := streamId?_eq_some_iff.2 ⟨info, hinfo, he⟩
          rw [Settled, chunksOf_concat_of_some (chunkOf_feed_of_eq hp), List.getLast?_concat] at h
          have hfinal : info.isFinal = true := by simpa [Packet.isFinal, hinfo] using h p rfl
          rw [← he, next, stream_feed_self hvalid hinfo]
          exact StreamState.feedChunk_of_isFinal hfinal _
        · have hp : p.streamId? ≠ some s := by simpa [Packet.streamId?, hinfo] using he
          rw [Settled, chunksOf_concat_of_none (chunkOf_feed_of_ne hp)] at h
          have hfades := fades_feed hvalid hinfo (Ne.symm he)
          rw [ih h] at hfades
          exact hfades.eq_idle

/-- The packets of a settled stream are answered as a new assembler would answer them. -/
theorem outcomes_of_settled (config : Config) (h : Settled s events)
    (hpackets : ∀ p ∈ packets, p.streamId? = some s) :
    (after { config } events).outcomes packets
      = (StreamState.idle.run config.maxBodySize.toNat packets).map Reply.outcome := by
  rw [((valid_new config).after events).outcomes_eq_run hpackets, stream_after_of_settled config h,
    dataLimit, config_after]

/-! ### The fate of a stream -/

/-- What becomes of a stream that is fed whole after some events. -/
structure Fate (config : Config) (events : List Event) {s : Int64} (stream : WholeStream s) :
    Prop where
  /-- It is delivered at its terminal chunk, and nothing comes out before, exactly if it fits. -/
  delivered_iff :
    (after { config } events).outcomes stream.packets
        = List.replicate (stream.packets.length - 1) (.ok none) ++ [.ok (some stream.assembled)] ↔
      stream.size ≤ config.maxBodySize.toNat
  /-- Otherwise the chunk with which it becomes too large is refused, and nothing comes out at the
  others. -/
  refused : config.maxBodySize.toNat < stream.size →
    ∃ before chunk after', stream.packets = before ++ chunk :: after' ∧
      (allData before).length ≤ config.maxBodySize.toNat ∧
      config.maxBodySize.toNat < (allData (before ++ [chunk])).length ∧
      (after { config } events).outcomes stream.packets
        = List.replicate before.length (.ok none)
            ++ .error .streamAboveLimit :: List.replicate after'.length (.ok none)
  /-- Either way, packets that come later find the stream as if it had never been fed. -/
  unaffected : ∀ gap later, chunksOf s gap = [] → (∀ p ∈ later, p.streamId? = some s) →
    (after { config } (events ++ stream.packets.map .feed ++ gap)).outcomes later
      = outcomes { config } later

theorem Settled.fate (config : Config) (h : Settled s events) (stream : WholeStream s) :
    Fate config events stream := by
  have houtcomes := outcomes_of_settled config h fun p => stream.streamId?_of_mem
  have hlength : stream.packets.length - 1 = stream.between.length + 1 := by
    simp [WholeStream.packets]
  refine ⟨⟨fun hdelivered => ?_, fun hfits => ?_⟩, fun hexceeds => ?_, fun gap later hgap hlater => ?_⟩
  · by_contra hexceeds
    obtain ⟨before, chunk, after', -, -, -, hrun⟩ :=
      stream.run_of_exceeds (Nat.lt_of_not_le hexceeds)
    have hmem : Except.error Fault.streamAboveLimit
        ∈ (after { config } events).outcomes stream.packets := by
      rw [houtcomes, hrun]
      simp [Reply.tooLarge]
    rw [hdelivered] at hmem
    simp at hmem
  · rw [houtcomes, stream.run_of_fits hfits, hlength, List.map_append, List.map_replicate]
    rfl
  · obtain ⟨before, chunk, after', hpackets, hle, hlt, hrun⟩ := stream.run_of_exceeds hexceeds
    refine ⟨before, chunk, after', hpackets, hle, hlt, ?_⟩
    rw [houtcomes, hrun, List.map_append, List.map_cons, List.map_replicate, List.map_replicate]
    rfl
  · have hnew : Settled s [] := fun p hp => by cases hp
    rw [outcomes_of_settled config (settled_of_whole events stream hgap) hlater]
    exact (outcomes_of_settled config hnew hlater).symm

/-- Room for one stream of four bytes. -/
def narrow : Config := { maxPendingStreams := 1, maxBodySize := 4 }

/-- Stream 1 is driven out by stream 2, and then its terminal chunk comes. -/
def evictedHistory : List Event :=
  [.feed (sampleChunk 1 0 [1, 2]), .feed (sampleChunk 2 0 [3]), .feed (sampleChunk 1 (-1) [4])]

/-- Three chunks with four bytes. -/
def fittingStream : WholeStream 1 where
  first := sampleChunk 1 0 [1, 2]
  between := [sampleChunk 1 1 [3]]
  last := sampleChunk 1 (-1) [4]
  starts := rfl
  goesOn := by
    intro p hp
    rw [List.mem_singleton.1 hp]
    exact ⟨_, rfl, rfl, rfl⟩
  ends := rfl

/-- Three chunks with five bytes, too many from the second one on. -/
def largeStream : WholeStream 1 where
  first := sampleChunk 1 0 [1, 2]
  between := [sampleChunk 1 1 [3, 4, 5]]
  last := sampleChunk 1 (-1) []
  starts := rfl
  goesOn := by
    intro p hp
    rw [List.mem_singleton.1 hp]
    exact ⟨_, rfl, rfl, rfl⟩
  ends := rfl

end Assembler

end RpcFraming
