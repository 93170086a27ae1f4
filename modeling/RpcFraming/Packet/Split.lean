import RpcFraming.Packet
import RpcFraming.StreamId

/-!
# Splitting a packet

A packet with much data is sent as a stream of chunks. Every chunk is a packet of its own with the
head and the metadata of the whole, a piece of its data and a place in the stream; only the first
chunk carries the attachment. A packet whose data fits into one chunk is not touched and needs no
stream.

What is proved: the chunks carry the pieces of the data in order, so no data is lost, and there is
always at least one packet to send.
-/

namespace RpcFraming.Packet

/-- The `i`-th of `count` chunks of a packet. -/
def chunk (p : Packet) (streamId : Int64) (count i : Nat) (piece : Bytes) : Packet :=
  { p with
    data := piece
    attachment := if i = 0 then p.attachment else [] }.withChunkInfo
      { streamId, chunkId := if i + 1 = count then ChunkInfo.finalId else .ofNat i }

/-- The chunks of a packet, one for each piece of its data. -/
def chunks (p : Packet) (streamId : Int64) (pieces : List Bytes) : List Packet :=
  pieces.mapIdx (p.chunk streamId pieces.length)

/-- A packet as a list of packets with at most `size` data bytes each. A size less than 1 means that
the packet stays whole. One stream id is drawn, and only if there is more than one chunk. -/
def split (p : Packet) (size : Int64) (ids : StreamIds) : List Packet × StreamIds :=
  if size < 1 ∨ p.data.length ≤ size.toNatClampNeg then ([p], ids)
  else
    let (streamId, ids) := ids.next
    (p.chunks streamId (p.data.pieces size.toNatClampNeg), ids)

@[simp] theorem length_chunks (p : Packet) (streamId : Int64) (pieces : List Bytes) :
    (p.chunks streamId pieces).length = pieces.length := by
  simp [chunks]

/-- The chunks carry the pieces, in order. -/
theorem map_data_chunks (p : Packet) (streamId : Int64) (pieces : List Bytes) :
    (p.chunks streamId pieces).map data = pieces := by
  apply List.ext_getElem
  · simp
  · intro i h₁ h₂
    simp [chunks, chunk, withChunkInfo]

/-- A packet always becomes at least one packet. -/
theorem split_ne_nil (p : Packet) (size : Int64) (ids : StreamIds) : (p.split size ids).1 ≠ [] := by
  unfold split
  split
  · simp
  · intro h
    have := congrArg List.length h
    simp [Bytes.pieces_ne_nil] at this

end RpcFraming.Packet
