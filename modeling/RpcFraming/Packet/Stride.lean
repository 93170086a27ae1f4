import RpcFraming.Packet.Cursor
import RpcFraming.Packet.Split

/-!
# Splitting at a stride

The splitting of a packet as a machine runs it. The data stays as it is and a place moves over it,
one stride at a time; places and sizes are words of 64 bits, and the chunks are numbered by signed
words. Three things could happen here that cannot in `Packet.split`: the place could wrap around or
stay where it is, a slice could lie outside the data, and the numbers could run out. Any of them has
no result at all.
-/

namespace RpcFraming

/-- The largest number of bytes that a buffer can hold: the distance of two places in a buffer is a
signed word of 64 bits. -/
def Bytes.capacity : Nat := 0x7FFFFFFFFFFFFFFF

namespace Stride

/-- The place that lies one stride further on. There is none if the word wraps around, and none if
the stride leads nowhere. -/
def advance? (start stride : UInt64) : Option { next : UInt64 // start < next } :=
  if h : start < start + stride then some ⟨start + stride, h⟩ else none

/-- The number after a chunk's number, as long as the numbers do not run out. -/
def numberAfter? (i : Int64) : Option Int64 := if i < Int64.maxValue then some (i + 1) else none

/-- The bytes from one place to another. -/
def slice? (b : Bytes) (start stop : UInt64) : Option Bytes :=
  if start ≤ stop ∧ stop.toNat ≤ b.length then some (b.extract start.toNat stop.toNat) else none

/-- The chunk that takes the data from one place to another. It is the last one if it ends where the
data ends, and the first one if it starts where the data starts. -/
def chunk (p : Packet) (streamId : Int64) (start stop : UInt64) (i : Int64) (piece : Bytes) : Packet :=
  { p with
    data := piece
    attachment := if start = 0 then p.attachment else [] }.withChunkInfo
      { streamId, chunkId := if stop = Cursor.sizeOf p.data then ChunkInfo.finalId else i }

/-- The chunks from a place in the data on, the first of them with the number `i`. -/
def chunksFrom (p : Packet) (streamId : Int64) (stride start : UInt64) (i : Int64) :
    Option (List Packet) :=
  if start < Cursor.sizeOf p.data then
    match advance? start stride with
    | none => none
    | some ⟨next, _⟩ => do
      let stop := min next (Cursor.sizeOf p.data)
      let piece ← slice? p.data start stop
      let later ← chunksFrom p streamId stride next (← numberAfter? i)
      return chunk p streamId start stop i piece :: later
  else some []
termination_by (Cursor.sizeOf p.data).toNat - start.toNat
decreasing_by
  simp only [UInt64.lt_iff_toNat_lt] at *
  omega

/-- The number of chunks for which room is made beforehand. -/
def expected (p : Packet) (stride : UInt64) : UInt64 := (Cursor.sizeOf p.data + stride - 1) / stride

/-- A packet as a list of packets with at most `size` data bytes each. -/
def split (p : Packet) (size : Int64) (ids : StreamIds) : Option (List Packet × StreamIds) :=
  if size < 1 ∨ p.data = [] ∨ Cursor.sizeOf p.data ≤ size.toUInt64 then some ([p], ids)
  else
    let (streamId, ids) := ids.next
    (chunksFrom p streamId size.toUInt64 0 0).map (·, ids)

end Stride

end RpcFraming
