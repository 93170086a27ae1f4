import RpcFraming.Config
import RpcFraming.Notice
import RpcFraming.Packet.Wire

/-!
# Reassembling chunk streams

A receiver feeds every packet to an assembler. A packet that is no chunk comes straight out again;
chunks are held back until the last one of their stream is there, and then the packet that was split
comes out in one piece. Chunks of different streams may come mixed, those of one stream come in
order.

An assembler holds a bounded number of incomplete streams and a bounded amount of data for each. To
start one stream too many, it drops the one that was started first. A stream that was dropped, grew
too large or never started properly is remembered for a while, so that the rest of it is dropped as
well; the last chunk of the stream ends that.

What is proved: each move touches either the incomplete streams or the dropped ones, a packet that is
no chunk comes straight out, and a frame that cannot be decoded changes nothing.
-/

namespace RpcFraming

/-- The state of a receiver. -/
structure Assembler where
  /-- The bounds on streams and data. -/
  config : Config := {}
  /-- The incomplete streams with what came of each so far, the one started first in front. -/
  pending : List (Int64 × Packet) := []
  /-- The streams whose further chunks are dropped, the one dropped first in front. -/
  discarded : List Int64 := []
  deriving Repr, DecidableEq

/-- What comes of feeding one packet. -/
structure Fed where
  /-- The assembler afterwards. -/
  assembler : Assembler
  /-- The packet that comes out, if one does, or why the fed one was refused. -/
  outcome : Except Fault (Option Packet)
  /-- What the operator is told, if anything. -/
  notice : Option Notice

namespace Assembler

/-- How many dropped streams are remembered when there is no bound on incomplete ones. -/
def defaultMemory : Nat := 1024

/-- The number of incomplete streams. -/
def pendingCount (a : Assembler) : Nat := a.pending.length

/-- Forget all streams, incomplete and dropped ones. -/
def clear (a : Assembler) : Assembler := { a with pending := [], discarded := [] }

/-! ### Moves on one stream -/

/-- How many dropped streams are remembered. -/
def memory (a : Assembler) : Nat :=
  if a.config.maxPendingStreams = 0 then defaultMemory else a.config.maxPendingStreams.toNat

/-- There is no room for one more incomplete stream. -/
def isFull (a : Assembler) : Bool :=
  a.config.maxPendingStreams ≠ 0 && a.config.maxPendingStreams.toNat ≤ a.pending.length

/-- The data is larger than is accepted for one stream. -/
def exceedsLimit (a : Assembler) (dataSize : Nat) : Bool := a.config.maxBodySize.toNat < dataSize

/-- Drop the further chunks of a stream. When too many streams are remembered, those dropped first
are forgotten. -/
def discard (a : Assembler) (streamId : Int64) : Assembler :=
  if streamId ∈ a.discarded then a
  else
    let remembered := a.discarded ++ [streamId]
    { a with discarded := remembered.drop (remembered.length - a.memory) }

/-- Drop the further chunks of a stream, if there are to be any after this one. -/
def discardRest (a : Assembler) (info : ChunkInfo) : Assembler :=
  if info.isFinal then a else a.discard info.streamId

/-- Stop dropping the chunks of a stream. -/
def forget (a : Assembler) (streamId : Int64) : Assembler :=
  { a with discarded := a.discarded.filter (· ≠ streamId) }

/-- Put a stream behind the incomplete ones. -/
def start (a : Assembler) (streamId : Int64) (p : Packet) : Assembler :=
  { a with pending := a.pending ++ [(streamId, p)] }

/-- Replace what came of an incomplete stream so far. -/
def update (a : Assembler) (streamId : Int64) (p : Packet) : Assembler :=
  { a with pending := a.pending.map fun e => if e.1 = streamId then (streamId, p) else e }

/-- Take a stream from the incomplete ones. -/
def release (a : Assembler) (streamId : Int64) : Assembler :=
  { a with pending := a.pending.filter (·.1 ≠ streamId) }

/-- Drop the incomplete stream that was started first. -/
def evictOldest (a : Assembler) : Assembler × Option Notice :=
  match a.pending with
  | [] => (a, none)
  | (oldest, _) :: rest =>
    ({ a with pending := rest }.discard oldest, some (.streamEvicted oldest))

/-! ### What the moves touch -/

section Moves

variable (a : Assembler) (streamId : Int64) (p : Packet)

@[simp] theorem pending_discard : (a.discard streamId).pending = a.pending := by
  unfold discard
  split <;> rfl

@[simp] theorem config_discard : (a.discard streamId).config = a.config := by
  unfold discard
  split <;> rfl

@[simp] theorem pending_discardRest (info : ChunkInfo) : (a.discardRest info).pending = a.pending := by
  unfold discardRest
  split
  · rfl
  · exact a.pending_discard info.streamId

@[simp] theorem config_discardRest (info : ChunkInfo) : (a.discardRest info).config = a.config := by
  unfold discardRest
  split
  · rfl
  · exact a.config_discard info.streamId

@[simp] theorem pending_forget : (a.forget streamId).pending = a.pending := rfl

@[simp] theorem discarded_start : (a.start streamId p).discarded = a.discarded := rfl

@[simp] theorem discarded_update : (a.update streamId p).discarded = a.discarded := rfl

@[simp] theorem discarded_release : (a.release streamId).discarded = a.discarded := rfl

/-- Replacing what came of a stream keeps the streams and their order. -/
@[simp] theorem map_fst_pending_update :
    (a.update streamId p).pending.map Prod.fst = a.pending.map Prod.fst := by
  rw [update, List.map_map]
  refine List.map_congr_left fun e _ => ?_
  by_cases h : e.1 = streamId <;> simp [h]

theorem streamId_mem_discarded_discard (h : 0 < a.memory) :
    streamId ∈ (a.discard streamId).discarded := by
  by_cases hs : streamId ∈ a.discarded
  · rwa [discard, if_pos hs]
  · rw [discard, if_neg hs]
    simp only [List.length_append, List.length_singleton]
    rw [List.drop_append_of_le_length (by omega)]
    simp

/-- At least one dropped stream is remembered. -/
theorem memory_pos : 0 < a.memory := by
  unfold memory
  split
  · decide
  · next h =>
    refine Nat.pos_of_ne_zero fun h0 => h ?_
    rw [← UInt64.toNat_inj, h0]
    rfl

end Moves

/-! ### Feeding -/

/-- What came of a stream so far, with one more chunk: its data goes behind, its attachment counts
only if there is none yet. -/
def merge (assembled chunk : Packet) : Packet :=
  { assembled.appendData chunk.data with
    attachment := if assembled.attachment = [] then chunk.attachment else assembled.attachment }

/-- A chunk of a stream that is being dropped. -/
def feedDiscarded (a : Assembler) (info : ChunkInfo) : Fed :=
  ⟨if info.isFinal then a.forget info.streamId else a, .ok none, none⟩

/-- A chunk of a stream that is neither incomplete nor being dropped. -/
def feedNew (a : Assembler) (info : ChunkInfo) (chunk : Packet) : Fed :=
  if info.chunkId ≠ 0 then
    ⟨a.discardRest info, .ok none, some (.chunkWithoutStart info.chunkId info.streamId)⟩
  else if a.exceedsLimit chunk.data.length then
    ⟨a.discard info.streamId, .error .streamAboveLimit, none⟩
  else
    let (a, notice) := if a.isFull then a.evictOldest else (a, none)
    ⟨a.start info.streamId chunk, .ok none, notice⟩

/-- A chunk of an incomplete stream. -/
def feedPending (a : Assembler) (info : ChunkInfo) (assembled chunk : Packet) : Fed :=
  if a.exceedsLimit (assembled.data.length + chunk.data.length) then
    ⟨(a.release info.streamId).discardRest info, .error .streamAboveLimit, none⟩
  else if info.isFinal then
    ⟨a.release info.streamId, .ok (some (merge assembled chunk).clearChunkInfo), none⟩
  else
    ⟨a.update info.streamId (merge assembled chunk), .ok none, none⟩

/-- Feed one packet. -/
def feed (a : Assembler) (p : Packet) : Fed :=
  match p.chunkInfo? with
  | none => ⟨a, .ok (some p), none⟩
  | some info =>
    if info.streamId ∈ a.discarded then a.feedDiscarded info
    else
      match a.pending.lookup info.streamId with
      | none => a.feedNew info p
      | some assembled => a.feedPending info assembled p

/-- Decode one frame and feed the packet. A frame that cannot be decoded leaves the assembler as it
was. -/
def receive {m : Type → Type} [Monad m] (codec : Codec m) (now : Int64) (a : Assembler)
    (frame : Bytes) : m Fed := do
  match ← (Packet.decode codec now (.bytes frame)).run with
  | .ok p => return a.feed p
  | .error fault => return ⟨a, .error fault, none⟩

/-! ### Packets that are no chunks -/

/-- A packet that is no chunk comes straight out. -/
theorem feed_of_not_isChunk {a : Assembler} {p : Packet} (h : p.isChunk = false) :
    a.feed p = ⟨a, .ok (some p), none⟩ := by
  have hnone : p.chunkInfo? = none := by simpa [Packet.isChunk] using h
  simp [feed, hnone]

/-- Without effects, receiving is decoding and then feeding. -/
theorem run_receive (codec : Codec Id) (now : Int64) (a : Assembler) (frame : Bytes) :
    Id.run (a.receive codec now frame)
      = match Id.run (Packet.decode codec now (.bytes frame)).run with
        | .ok p => a.feed p
        | .error fault => ⟨a, .error fault, none⟩ := by
  show (match Id.run (Packet.decode codec now (.bytes frame)).run with
    | .ok p => _
    | .error fault => _) = _
  cases Id.run (Packet.decode codec now (.bytes frame)).run <;> rfl

end Assembler

end RpcFraming
