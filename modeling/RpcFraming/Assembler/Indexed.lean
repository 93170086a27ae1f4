import RpcFraming.Assembler
import Mathlib.Data.Finmap

/-!
# An assembler that finds streams by their ids

`Assembler` keeps the incomplete streams in one list and the dropped ones in another. A receiver of
many streams wants to find a stream by its id: here a map holds what came of each incomplete stream
and a set holds the dropped ones, and beside each of the two stands a queue of the same ids. A move has
to touch a container and its queue alike. Two moves return early where they find that nothing is to be
done; `skipped` records it, and nothing reads it.

That the containers and the queues agree after every run, that no move returns early, and that the
answers are those of `Assembler` is proved in `RpcFraming.Proofs.Assembler.Indexed`.
-/

namespace RpcFraming

/-- Why a move returned early. -/
inductive Skip where
  /-- No stream was incomplete, when one was to make room. -/
  | nothingToEvict
  /-- The stream to be dropped was dropped before. -/
  | alreadyDropped
  deriving Repr, DecidableEq

/-- The state of a receiver that finds streams by their ids. -/
structure IndexedAssembler where
  /-- The bounds on streams and data. -/
  config : Config := {}
  /-- What came of each incomplete stream so far. -/
  pending : Finmap fun _ : Int64 => Packet := ∅
  /-- The incomplete streams, the one started first in front. -/
  order : List Int64 := []
  /-- The streams whose further chunks are dropped. -/
  discarded : Finset Int64 := ∅
  /-- The dropped streams, the one dropped first in front. -/
  discardedOrder : List Int64 := []
  /-- The moves that returned early, the last one at the end. -/
  skipped : List Skip := []

/-- What comes of feeding one packet. -/
structure IndexedFed where
  /-- The assembler afterwards. -/
  assembler : IndexedAssembler
  /-- The packet that comes out, if one does, or why the fed one was refused. -/
  outcome : Except Fault (Option Packet)
  /-- What the operator is told, if anything. -/
  notice : Option Notice

namespace IndexedAssembler

/-! ### Moves on one stream -/

/-- Forget all streams, incomplete and dropped ones. -/
def clear (x : IndexedAssembler) : IndexedAssembler :=
  { x with pending := ∅, order := [], discarded := ∅, discardedOrder := [] }

/-- How many dropped streams are remembered. -/
def memory (x : IndexedAssembler) : Nat :=
  if x.config.maxPendingStreams = 0 then Assembler.defaultMemory
  else x.config.maxPendingStreams.toNat

/-- Forget the streams that were dropped first, until no more than `limit` are remembered. -/
def trim (limit : Nat) (discarded : Finset Int64) : List Int64 → Finset Int64 × List Int64
  | [] => (discarded, [])
  | oldest :: rest =>
    if limit < (oldest :: rest).length then trim limit (discarded.erase oldest) rest
    else (discarded, oldest :: rest)

/-- Drop the further chunks of a stream. -/
def discard (x : IndexedAssembler) (streamId : Int64) : IndexedAssembler :=
  if streamId ∈ x.discarded then { x with skipped := x.skipped ++ [.alreadyDropped] }
  else
    let (discarded, discardedOrder) :=
      trim x.memory (insert streamId x.discarded) (x.discardedOrder ++ [streamId])
    { x with discarded, discardedOrder }

/-- Drop the further chunks of a stream, if there are to be any after this one. -/
def discardRest (x : IndexedAssembler) (info : ChunkInfo) : IndexedAssembler :=
  if info.isFinal then x else x.discard info.streamId

/-- Stop dropping the chunks of a stream. -/
def forgetDiscarded (x : IndexedAssembler) (streamId : Int64) : IndexedAssembler :=
  { x with
    discarded := x.discarded.erase streamId
    discardedOrder := x.discardedOrder.filter (· ≠ streamId) }

/-- Start a stream. What came of an incomplete stream would not be replaced. -/
def emplace (x : IndexedAssembler) (streamId : Int64) (p : Packet) : IndexedAssembler :=
  { x with
    pending := if streamId ∈ x.pending then x.pending else x.pending.insert streamId p
    order := x.order ++ [streamId] }

/-- Replace what came of an incomplete stream so far. -/
def update (x : IndexedAssembler) (streamId : Int64) (p : Packet) : IndexedAssembler :=
  { x with pending := x.pending.insert streamId p }

/-- Take a stream from the incomplete ones. -/
def erase (x : IndexedAssembler) (streamId : Int64) : IndexedAssembler :=
  { x with
    pending := x.pending.erase streamId
    order := x.order.filter (· ≠ streamId) }

/-- Drop the incomplete stream that was started first. -/
def evictOldest (x : IndexedAssembler) : IndexedAssembler × Option Notice :=
  match x.order with
  | [] => ({ x with skipped := x.skipped ++ [.nothingToEvict] }, none)
  | oldest :: rest =>
    ({ x with order := rest, pending := x.pending.erase oldest }.discard oldest,
      some (.streamEvicted oldest))

/-! ### Feeding -/

/-- There is no room for one more incomplete stream. -/
def isFull (x : IndexedAssembler) : Bool :=
  x.config.maxPendingStreams ≠ 0 && x.config.maxPendingStreams.toNat ≤ x.pending.keys.card

/-- A chunk of a stream that is neither incomplete nor being dropped. -/
def feedNew (x : IndexedAssembler) (info : ChunkInfo) (chunk : Packet) : IndexedFed :=
  if info.chunkId ≠ 0 then
    ⟨x.discardRest info, .ok none, some (.chunkWithoutStart info.chunkId info.streamId)⟩
  else if x.config.maxBodySize.toNat < chunk.data.length then
    ⟨x.discard info.streamId, .error .streamAboveLimit, none⟩
  else
    let (x, notice) := if x.isFull then x.evictOldest else (x, none)
    ⟨x.emplace info.streamId chunk, .ok none, notice⟩

/-- A chunk of an incomplete stream. It is added to what came of the stream before the stream is
taken out. -/
def feedPending (x : IndexedAssembler) (info : ChunkInfo) (assembled chunk : Packet) : IndexedFed :=
  if x.config.maxBodySize.toNat < assembled.data.length + chunk.data.length then
    ⟨(x.erase info.streamId).discardRest info, .error .streamAboveLimit, none⟩
  else
    let assembled := Assembler.merge assembled chunk
    let x := x.update info.streamId assembled
    if info.isFinal then ⟨x.erase info.streamId, .ok (some assembled.clearChunkInfo), none⟩
    else ⟨x, .ok none, none⟩

/-- Feed one packet. -/
def feed (x : IndexedAssembler) (p : Packet) : IndexedFed :=
  match p.chunkInfo? with
  | none => ⟨x, .ok (some p), none⟩
  | some info =>
    if info.streamId ∈ x.discarded then
      ⟨if info.isFinal then x.forgetDiscarded info.streamId else x, .ok none, none⟩
    else
      match x.pending.lookup info.streamId with
      | none => x.feedNew info p
      | some assembled => x.feedPending info assembled p

end IndexedAssembler

end RpcFraming
