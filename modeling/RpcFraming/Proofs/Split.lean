import RpcFraming.Packet.Stride
import RpcFraming.Proofs.Cursor
import Mathlib.Data.List.Basic

/-!
# Splitting is a partition

A packet with much data becomes a stream of chunks. This module says which bytes each chunk has
(`Packet.IsChunk`), that the chunks divide the packet (`Packet.IsPartition`), and that the machine,
which moves a place over the data in words of 64 bits, makes the same chunks.

The data is cut by `Bytes.pieces`. Its pieces are found by their number (`Bytes.getElem_pieces`),
and there is an `i`-th piece exactly if there is a byte for it (`Bytes.lt_length_pieces_iff`). The
machine is followed one round at a time: `Stride.chunksFrom_of_lt` is what a round does, under the
invariant that the `i`-th round starts at `i` strides, and `Stride.chunksFrom_eq` is the induction
over the rounds that are left.

A buffer has at most `Bytes.capacity` bytes. This is used of the machine and of the chunks' numbers
alone; the partition itself holds of any number of bytes.

## What is proved

* `Stride.split_eq`: the machine splits a packet as `Packet.split` says, so it comes to an end, and
  no word wraps around on the way.
* `Packet.split_isPartition`: a packet stays whole or is divided into its chunks.
-/

namespace RpcFraming

/-! ### The pieces, by their places -/

namespace Bytes

variable {n i : Nat} {b : Bytes}

/-- The `i`-th piece starts `i` pieces behind the front and ends one piece later, or where the bytes
end. -/
theorem getElem_pieces (hn : n ≠ 0) (hi : i < (pieces n b).length) :
    (pieces n b)[i] = b.extract (i * n) (min ((i + 1) * n) b.length) := by
  fun_induction pieces n b generalizing i with
  | case1 b h =>
    obtain rfl : i = 0 := by simpa using hi
    have hle : b.length ≤ n := h.resolve_left hn
    simp [Nat.min_eq_right hle]
  | case2 b h ih =>
    have hlt : n < b.length := by omega
    cases i with
    | zero => simp [Nat.min_eq_left (Nat.le_of_lt hlt)]
    | succ i =>
      have hstop : min ((i + 1 + 1) * n) b.length - (i + 1) * n
          = min ((i + 1) * n) (b.length - n) - i * n := by
        rw [Nat.succ_mul (i + 1), Nat.succ_mul i]
        omega
      rw [List.getElem_cons_succ, ih (by simpa using hi), List.length_drop,
        List.extract_eq_take_drop, List.extract_eq_take_drop, List.drop_drop, hstop, Nat.succ_mul,
        Nat.add_comm n]

/-- Bytes make up as many pieces as are needed to hold them. -/
theorem length_pieces (hn : n ≠ 0) (hb : b ≠ []) :
    (pieces n b).length = (b.length + n - 1) / n := by
  fun_induction pieces n b with
  | case1 b h =>
    have hle : b.length ≤ n := h.resolve_left hn
    have hpos := List.length_pos_iff.2 hb
    have hone : (b.length + n - 1) / n = 1 := Nat.div_eq_of_lt_le (by omega) (by omega)
    rw [hone, List.length_singleton]
  | case2 b h ih =>
    have hlt : n < b.length := by omega
    have hrest : b.drop n ≠ [] := by simpa using hlt
    have hsum : b.length + n - 1 = b.length - n + n - 1 + n := by omega
    rw [List.length_cons, ih hrest, List.length_drop, hsum, Nat.add_div_right _ (by omega)]

/-- There is an `i`-th piece exactly if there is a byte for it. -/
theorem lt_length_pieces_iff (hn : n ≠ 0) (hb : b ≠ []) :
    i < (pieces n b).length ↔ i * n < b.length := by
  have hpos := List.length_pos_iff.2 hb
  rw [length_pieces hn hb, Nat.lt_iff_add_one_le, Nat.le_div_iff_mul_le (by omega), Nat.succ_mul]
  omega

/-- The bytes of a buffer can be numbered by signed words. -/
theorem toInt_ofNat_of_le_capacity (h : i ≤ capacity) : (Int64.ofNat i).toInt = i :=
  Int64.toInt_ofNat_of_lt (by rw [capacity] at h; omega)

theorem toNat_sizeOf (h : b.length ≤ capacity) : (Cursor.sizeOf b).toNat = b.length :=
  Cursor.toNat_sizeOf (by rw [capacity] at h; rw [UInt64.size]; omega)

end Bytes

/-! ### Whole packets -/

namespace Packet

/-- A packet is not split: no size is asked for, there is no data, or it fits into one chunk. -/
def StaysWhole (p : Packet) (size : Int64) : Prop :=
  size < 1 ∨ p.data = [] ∨ (p.data.length : Int) ≤ size.toInt

instance (p : Packet) (size : Int64) : Decidable (p.StaysWhole size) :=
  inferInstanceAs (Decidable (_ ∨ _))

variable {p : Packet} {size : Int64}

theorem size_lt_one_iff : size < 1 ↔ size.toNatClampNeg = 0 := by
  have hone : (1 : Int64).toInt = 1 := by decide
  rw [Int64.lt_iff_toInt_lt, hone, Int64.toNatClampNeg]
  omega

theorem staysWhole_iff : p.StaysWhole size ↔ size < 1 ∨ p.data.length ≤ size.toNatClampNeg := by
  have hnil : p.data = [] ↔ p.data.length = 0 := List.length_eq_zero_iff.symm
  rw [StaysWhole, hnil, size_lt_one_iff, Int64.toNatClampNeg]
  omega

theorem split_of_staysWhole (h : p.StaysWhole size) (ids : StreamIds) :
    p.split size ids = ([p], ids) := if_pos (staysWhole_iff.1 h)

theorem split_of_not_staysWhole (h : ¬ p.StaysWhole size) (ids : StreamIds) :
    p.split size ids
      = (p.chunks ids.next.1 (p.data.pieces size.toNatClampNeg), ids.next.2) :=
  if_neg (mt staysWhole_iff.2 h)

/-- A packet is only split at a positive size, and only if it has more data than that. -/
theorem size_lt_of_not_staysWhole (h : ¬ p.StaysWhole size) :
    0 < size.toNatClampNeg ∧ size.toNatClampNeg < p.data.length := by
  rw [staysWhole_iff, size_lt_one_iff] at h
  omega

/-! ### The chunks, by their numbers -/

/-- The packet `c` is the `i`-th of the `count` chunks of `p`, with `size` data bytes in each. -/
structure IsChunk (p : Packet) (size count : Nat) (streamId : Int64) (i : Nat) (c : Packet) :
    Prop where
  /-- The data starts `i` chunks behind the front, and ends one chunk later or where it all ends. -/
  data : c.data = p.data.extract (i * size) (min ((i + 1) * size) p.data.length)
  /-- Only the first chunk has the attachment. -/
  attachment : c.attachment = if i = 0 then p.attachment else []
  /-- The metadata says the chunk's place and is otherwise that of the whole, or the usual one. -/
  metadata : c.metadata = some { p.metadata.getD {} with
    chunkInfo := some ⟨streamId, if i + 1 = count then ChunkInfo.finalId else .ofNat i⟩ }
  /-- The head is that of the whole. -/
  head : c.head = p.head
  /-- The time is that of the whole. -/
  timestamp : c.timestamp = p.timestamp

/-- The packets are what a packet is divided into, at `size` data bytes each. -/
structure IsPartition (p : Packet) (size : Nat) (streamId : Int64) (chunks : List Packet) :
    Prop where
  /-- There are as many chunks as are needed. -/
  length_eq : chunks.length = (p.data.length + size - 1) / size
  /-- There is more than one chunk. -/
  two_le_length : 2 ≤ chunks.length
  /-- Each is the chunk of its number. -/
  isChunk : ∀ i (hi : i < chunks.length), p.IsChunk size chunks.length streamId i chunks[i]
  /-- No chunk goes without data. -/
  data_ne_nil : ∀ c ∈ chunks, c.data ≠ []
  /-- All chunks but the last are full. -/
  length_data : ∀ i (hi : i + 1 < chunks.length), chunks[i].data.length = size
  /-- Together the chunks have the data of the whole. -/
  flatten_data : (chunks.map Packet.data).flatten = p.data

theorem getElem_chunks {streamId : Int64} {pieces : List Bytes} {i : Nat}
    (hi : i < (p.chunks streamId pieces).length) (hi' : i < pieces.length) :
    (p.chunks streamId pieces)[i] = p.chunk streamId pieces.length i pieces[i] := by
  simp [chunks]

section IsChunk

variable {size count i : Nat} {streamId : Int64} {c : Packet}

theorem isChunk_getElem_chunks (hsize : size ≠ 0)
    (hi : i < (p.chunks streamId (p.data.pieces size)).length) :
    p.IsChunk size (p.chunks streamId (p.data.pieces size)).length streamId i
      (p.chunks streamId (p.data.pieces size))[i] := by
  have hi' : i < (p.data.pieces size).length := by rwa [length_chunks] at hi
  rw [getElem_chunks hi hi']
  simp only [length_chunks]
  exact
    { data := Bytes.getElem_pieces hsize hi'
      attachment := rfl
      metadata := rfl
      head := rfl
      timestamp := rfl }

theorem IsChunk.length_data (h : p.IsChunk size count streamId i c) :
    c.data.length = min ((i + 1) * size) p.data.length - i * size := by
  rw [h.data, List.extract_eq_take_drop, List.length_take, List.length_drop]
  omega

/-- A chunk has its own number, and only the last one has the number that ends a stream. -/
theorem IsChunk.exists_chunkInfo (h : p.IsChunk size count streamId i c)
    (hi : i ≤ Bytes.capacity) :
    ∃ info, c.chunkInfo? = some info ∧ info.streamId = streamId ∧
      info.chunkId.toInt = if i + 1 = count then -1 else (i : Int) := by
  refine ⟨_, by rw [chunkInfo?, h.metadata, Option.bind_some], rfl, ?_⟩
  show (if i + 1 = count then ChunkInfo.finalId else Int64.ofNat i).toInt = _
  split
  · rfl
  · exact Bytes.toInt_ofNat_of_le_capacity hi

/-- The chunk of a place in the data is there if the data goes as far. -/
theorem lt_length_chunks_iff (hsize : size ≠ 0) (hdata : p.data ≠ []) :
    i < (p.chunks streamId (p.data.pieces size)).length ↔ i * size < p.data.length := by
  rw [length_chunks, Bytes.lt_length_pieces_iff hsize hdata]

theorem isPartition_chunks (hsize : size ≠ 0) (hlt : size < p.data.length) (streamId : Int64) :
    p.IsPartition size streamId (p.chunks streamId (p.data.pieces size)) := by
  have hdata : p.data ≠ [] := List.length_pos_iff.1 (by omega)
  refine ⟨?_, ?_, fun i hi => isChunk_getElem_chunks hsize hi, ?_, ?_, ?_⟩
  · rw [length_chunks, Bytes.length_pieces hsize hdata]
  · exact (lt_length_chunks_iff hsize hdata).2 (by rwa [Nat.one_mul])
  · intro c hc hnil
    obtain ⟨i, hi, rfl⟩ := List.getElem_of_mem hc
    have hplace := (lt_length_chunks_iff hsize hdata).1 hi
    have hlength := (isChunk_getElem_chunks hsize hi).length_data
    rw [hnil, List.length_nil, Nat.succ_mul] at hlength
    omega
  · intro i hi
    have hplace := (lt_length_chunks_iff hsize hdata).1 hi
    rw [(isChunk_getElem_chunks hsize _).length_data, Nat.min_eq_left (Nat.le_of_lt hplace),
      Nat.succ_mul]
    omega
  · rw [map_data_chunks, Bytes.flatten_pieces]

end IsChunk

end Packet

/-! ### The machine's steps -/

namespace Stride

theorem advance?_eq (start : UInt64) {stride : UInt64} (hstride : 0 < stride.toNat)
    (h : start.toNat + stride.toNat < UInt64.size) :
    ∃ hlt, advance? start stride = some ⟨start + stride, hlt⟩ ∧
      (start + stride).toNat = start.toNat + stride.toNat := by
  have hsum : (start + stride).toNat = start.toNat + stride.toNat := by
    rw [UInt64.toNat_add]
    exact Nat.mod_eq_of_lt h
  have hlt : start < start + stride := by
    rw [UInt64.lt_iff_toNat_lt, hsum]
    omega
  exact ⟨hlt, dif_pos hlt, hsum⟩

theorem numberAfter?_ofNat {i : Nat} (h : i < Bytes.capacity) :
    numberAfter? (.ofNat i) = some (.ofNat (i + 1)) := by
  have hlt : Int64.ofNat i < Int64.maxValue := by
    have hmax : Int64.maxValue.toInt = Bytes.capacity := by decide
    rw [Int64.lt_iff_toInt_lt, Bytes.toInt_ofNat_of_le_capacity (Nat.le_of_lt h), hmax]
    omega
  rw [numberAfter?, if_pos hlt]
  simp

theorem slice?_eq {b : Bytes} {start stop : UInt64} (h : start.toNat ≤ stop.toNat)
    (hstop : stop.toNat ≤ b.length) :
    slice? b start stop = some (b.extract start.toNat stop.toNat) :=
  if_pos ⟨UInt64.le_iff_toNat_le.2 h, hstop⟩

theorem toNat_min (a b : UInt64) : (min a b).toNat = min a.toNat b.toNat := by
  show (if a ≤ b then a else b).toNat = _
  split
  · next h => exact (Nat.min_eq_left (UInt64.le_iff_toNat_le.1 h)).symm
  · next h => exact (Nat.min_eq_right (Nat.le_of_not_le (mt UInt64.le_iff_toNat_le.2 h))).symm

section Chunks

variable {p : Packet} {streamId : Int64} {stride start : UInt64} {i : Nat}
  (hcapacity : p.data.length ≤ Bytes.capacity) (hstride : 0 < stride.toNat)
  (hfits : stride.toNat ≤ p.data.length)

include hcapacity hstride hfits

/-- At its place, the machine makes the `i`-th chunk. -/
theorem chunk_eq (hstart : start.toNat = i * stride.toNat)
    (hi : i < (p.chunks streamId (p.data.pieces stride.toNat)).length) {stop : UInt64}
    (hstop : stop.toNat = min ((i + 1) * stride.toNat) p.data.length) :
    chunk p streamId start stop (.ofNat i) (p.data.extract start.toNat stop.toNat)
      = (p.chunks streamId (p.data.pieces stride.toNat))[i] := by
  have hdata : p.data ≠ [] := List.length_pos_iff.1 (by omega)
  have hsize := Bytes.toNat_sizeOf hcapacity
  have hfirst : start = 0 ↔ i = 0 := by
    rw [← UInt64.toNat_inj, hstart, UInt64.toNat_zero, Nat.mul_eq_zero]
    omega
  have hlast : stop = Cursor.sizeOf p.data ↔ i + 1 = (p.data.pieces stride.toNat).length := by
    have hnext := Bytes.lt_length_pieces_iff (i := i + 1) (Nat.ne_of_gt hstride) hdata
    rw [Packet.length_chunks] at hi
    rw [← UInt64.toNat_inj, hstop, hsize]
    omega
  have hi' : i < (p.data.pieces stride.toNat).length := by rwa [Packet.length_chunks] at hi
  rw [Packet.getElem_chunks hi hi', Bytes.getElem_pieces (Nat.ne_of_gt hstride), ← hstart, ← hstop]
  simp only [chunk, Packet.chunk, hfirst, hlast]

/-- One round: the `i`-th chunk is put in front of the later ones. -/
theorem chunksFrom_of_lt (hstart : start.toNat = i * stride.toNat)
    (hi : i < (p.chunks streamId (p.data.pieces stride.toNat)).length) :
    (start + stride).toNat = (i + 1) * stride.toNat ∧
    chunksFrom p streamId stride start (.ofNat i)
      = (chunksFrom p streamId stride (start + stride) (.ofNat (i + 1))).map
          ((p.chunks streamId (p.data.pieces stride.toNat))[i] :: ·) := by
  have hdata : p.data ≠ [] := List.length_pos_iff.1 (by omega)
  have hplace := (Packet.lt_length_chunks_iff (Nat.ne_of_gt hstride) hdata).1 hi
  have hsize := Bytes.toNat_sizeOf hcapacity
  have hbefore : start < Cursor.sizeOf p.data := by
    rw [UInt64.lt_iff_toNat_lt, hsize]
    omega
  obtain ⟨hlt, hadvance, hsum⟩ := advance?_eq start hstride
    (by rw [Bytes.capacity] at hcapacity; rw [UInt64.size]; omega)
  have hnext : (start + stride).toNat = (i + 1) * stride.toNat := by
    rw [hsum, hstart, Nat.succ_mul]
  have hstop : (min (start + stride) (Cursor.sizeOf p.data)).toNat
      = min ((i + 1) * stride.toNat) p.data.length := by
    rw [toNat_min, hnext, hsize]
  have hslice : slice? p.data start (min (start + stride) (Cursor.sizeOf p.data))
      = some (p.data.extract start.toNat (min (start + stride) (Cursor.sizeOf p.data)).toNat) :=
    slice?_eq (by omega) (by omega)
  have hnumber : numberAfter? (.ofNat i) = some (.ofNat (i + 1)) := by
    have hle := Nat.le_mul_of_pos_right i hstride
    exact numberAfter?_ofNat (by omega)
  refine ⟨hnext, ?_⟩
  rw [chunksFrom, if_pos hbefore, hadvance]
  simp only [hslice, hnumber, Option.bind_eq_bind, Option.bind_some]
  rw [chunk_eq hcapacity hstride hfits hstart hi hstop]
  cases chunksFrom p streamId stride (start + stride) (.ofNat (i + 1)) <;> rfl

/-- All rounds from a chunk's place on make the chunks from this one on. -/
theorem chunksFrom_eq (hstart : start.toNat = i * stride.toNat) :
    chunksFrom p streamId stride start (.ofNat i)
      = some ((p.chunks streamId (p.data.pieces stride.toNat)).drop i) := by
  induction hleft : (p.chunks streamId (p.data.pieces stride.toNat)).length - i
    generalizing start i with
  | zero =>
    have hdata : p.data ≠ [] := List.length_pos_iff.1 (by omega)
    have hplace : i < (p.chunks streamId (p.data.pieces stride.toNat)).length
        ↔ i * stride.toNat < p.data.length :=
      Packet.lt_length_chunks_iff (Nat.ne_of_gt hstride) hdata
    have hbehind : ¬ start < Cursor.sizeOf p.data := by
      rw [UInt64.lt_iff_toNat_lt, Bytes.toNat_sizeOf hcapacity]
      omega
    rw [chunksFrom, if_neg hbehind, List.drop_of_length_le (by omega)]
  | succ left ih =>
    have hi : i < (p.chunks streamId (p.data.pieces stride.toNat)).length := by omega
    obtain ⟨hnext, hround⟩ := chunksFrom_of_lt hcapacity hstride hfits hstart hi
    rw [hround, ih hnext (by omega), Option.map_some, List.drop_eq_getElem_cons hi]

end Chunks

/-- A positive size is the same number as a stride. -/
theorem toNat_toUInt64_size {size : Int64} (h : 0 < size.toNatClampNeg) :
    size.toUInt64.toNat = size.toNatClampNeg := by
  refine Int64.toNat_toUInt64_of_le ?_
  rw [Int64.toNatClampNeg] at h
  rw [Int64.le_iff_toInt_le, Int64.toInt_zero]
  omega

/-- The machine splits a packet as `Packet.split` says. -/
theorem split_eq {p : Packet} (hcapacity : p.data.length ≤ Bytes.capacity) (size : Int64)
    (ids : StreamIds) : split p size ids = some (p.split size ids) := by
  rw [split, Packet.split]
  by_cases hsize : size < 1
  · rw [if_pos (.inl hsize), if_pos (.inl hsize)]
  · have hpos : 0 < size.toNatClampNeg := Nat.pos_of_ne_zero (mt Packet.size_lt_one_iff.2 hsize)
    have hword := toNat_toUInt64_size hpos
    have hfits : Cursor.sizeOf p.data ≤ size.toUInt64 ↔ p.data.length ≤ size.toNatClampNeg := by
      rw [UInt64.le_iff_toNat_le, Bytes.toNat_sizeOf hcapacity, hword]
    by_cases hlong : p.data.length ≤ size.toNatClampNeg
    · rw [if_pos (.inr (.inr (hfits.2 hlong))), if_pos (.inr hlong)]
    · have hdata : p.data ≠ [] := List.length_pos_iff.1 (by omega)
      have hchunks : chunksFrom p ids.next.1 size.toUInt64 0 (.ofNat 0)
          = some ((p.chunks ids.next.1 (p.data.pieces size.toUInt64.toNat)).drop 0) :=
        chunksFrom_eq hcapacity (by omega) (by omega) (Nat.zero_mul _).symm
      rw [if_neg, if_neg]
      · show (chunksFrom p ids.next.1 size.toUInt64 0 (.ofNat 0)).map _ = _
        rw [hchunks, Option.map_some, hword]
        rfl
      · exact not_or.2 ⟨hsize, hlong⟩
      · exact not_or.2 ⟨hsize, not_or.2 ⟨hdata, mt hfits.1 hlong⟩⟩

/-- The room that is made beforehand is just enough. -/
theorem toNat_expected {p : Packet} {stride : UInt64} (hcapacity : p.data.length ≤ Bytes.capacity)
    (hstride : 0 < stride.toNat) (hfits : stride.toNat ≤ p.data.length) :
    (expected p stride).toNat = (p.data.length + stride.toNat - 1) / stride.toNat := by
  have hsize := Bytes.toNat_sizeOf hcapacity
  have hsum : (Cursor.sizeOf p.data + stride).toNat = p.data.length + stride.toNat := by
    rw [UInt64.toNat_add, hsize]
    exact Nat.mod_eq_of_lt (by rw [Bytes.capacity] at hcapacity; omega)
  have hone : 1 ≤ Cursor.sizeOf p.data + stride := by
    rw [UInt64.le_iff_toNat_le, hsum, UInt64.toNat_one]
    omega
  rw [expected, UInt64.toNat_div, UInt64.toNat_sub_of_le _ _ hone, hsum, UInt64.toNat_one]

end Stride

/-! ### Splitting -/

namespace Packet

/-- **Splitting is a partition.** A packet that is to stay whole stays as it is, and no stream id is
drawn. From any other packet one stream id is drawn, and the packet is divided into at least two
chunks, which have the pieces of the data in order, their own numbers, and otherwise what the packet
has. The machine comes to the same chunks without leaving its words: no place and no number wraps
around, and as much room is made beforehand as there are chunks. -/
theorem split_isPartition (p : Packet) (size : Int64) (ids : StreamIds) :
    (p.StaysWhole size → p.split size ids = ([p], ids)) ∧
    (¬ p.StaysWhole size → ∃ chunks, p.split size ids = (chunks, ids.next.2) ∧
      p.IsPartition size.toNatClampNeg ids.next.1 chunks ∧
      (p.data.length ≤ Bytes.capacity →
        (Stride.expected p size.toUInt64).toNat = chunks.length ∧
        ∀ i (hi : i < chunks.length), ∃ info, chunks[i].chunkInfo? = some info ∧
          info.streamId = ids.next.1 ∧
          info.chunkId.toInt = if i + 1 = chunks.length then -1 else (i : Int))) ∧
    (p.data.length ≤ Bytes.capacity → Stride.split p size ids = some (p.split size ids)) := by
  refine ⟨fun h => split_of_staysWhole h ids, fun h => ?_, fun h => Stride.split_eq h size ids⟩
  obtain ⟨hpos, hlt⟩ := size_lt_of_not_staysWhole h
  have hpartition := isPartition_chunks (Nat.ne_of_gt hpos) hlt ids.next.1
  refine ⟨_, split_of_not_staysWhole h ids, hpartition, fun hcapacity => ⟨?_, fun i hi => ?_⟩⟩
  · have hword := Stride.toNat_toUInt64_size hpos
    rw [Stride.toNat_expected hcapacity (hword ▸ hpos) (hword ▸ Nat.le_of_lt hlt), hword,
      hpartition.length_eq]
  · have hplace := (lt_length_chunks_iff (Nat.ne_of_gt hpos) (List.length_pos_iff.1 (by omega))).1 hi
    have hle := Nat.le_mul_of_pos_right i hpos
    exact (hpartition.isChunk i hi).exists_chunkInfo (by omega)

/-- A packet without metadata, with five bytes of data. -/
def fiveBytes : Packet where
  head := some {}
  data := [1, 2, 3, 4, 5]
  attachment := [0xAA]

/-- `split_isPartition` on five bytes: two and two and one. -/
theorem split_fiveBytes :
    ¬ fiveBytes.StaysWhole 2 ∧ fiveBytes.data.length ≤ Bytes.capacity ∧
      ∃ first second third, fiveBytes.split 2 ⟨0⟩ = ([first, second, third], ⟨1⟩) ∧
        first.data = [1, 2] ∧ second.data = [3, 4] ∧ third.data = [5] ∧
        third.metadata = some { chunkInfo := some ⟨(StreamIds.mk 0).next.1, -1⟩ } := by
  have hlong : ¬ fiveBytes.StaysWhole 2 := by decide
  obtain ⟨-, hsplit, -⟩ := split_isPartition fiveBytes 2 ⟨0⟩
  obtain ⟨chunks, hchunks, hpartition, -⟩ := hsplit hlong
  have hlength : chunks.length = 3 := hpartition.length_eq
  obtain ⟨first, second, third, rfl⟩ := List.length_eq_three.1 hlength
  have hfirst := hpartition.isChunk 0 (by simp)
  have hsecond := hpartition.isChunk 1 (by simp)
  have hthird := hpartition.isChunk 2 (by simp)
  exact ⟨hlong, by decide, first, second, third, hchunks, hfirst.data, hsecond.data, hthird.data,
    hthird.metadata⟩

end Packet

end RpcFraming
