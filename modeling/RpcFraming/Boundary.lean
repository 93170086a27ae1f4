import RpcFraming.Config

/-!
# Frame boundaries

A stream of bytes holds frames without separators; where one ends is said by its head. `frameSize?`
answers how long the frame at the front of a buffer is, as soon as its head is there, and refuses a
frame that the receiver would not accept. `cutFrames` takes all complete frames off a stream.

What is proved: a frame is never shorter than its head, so cutting comes to an end.
-/

namespace RpcFraming

/-- The size of the frame at the front of a buffer, head included; nothing while the head is
incomplete. The body may have at most `limit` bytes. -/
def frameSize? (limit : UInt32) (buffer : Buffer) : Except Fault (Option Nat) :=
  if buffer.size < Head.size then .ok none
  else do
    let head ← Head.decode buffer
    if head.totalSize < 0 then .error (.negative .total)
    else if limit < head.totalSize.toUInt32 then .error .totalAboveLimit
    else .ok (some (Head.size + head.totalSize.toNatClampNeg))

/-- A frame is never shorter than its head. -/
theorem size_le_of_frameSize? {limit : UInt32} {buffer : Buffer} {n : Nat}
    (h : frameSize? limit buffer = .ok (some n)) : Head.size ≤ n := by
  unfold frameSize? at h
  split at h
  · cases h
  · cases hd : Head.decode buffer with
    | error fault => rw [hd] at h; cases h
    | ok head =>
      rw [hd] at h
      simp only [bind, Except.bind] at h
      split at h
      · cases h
      · split at h
        · cases h
        · cases h
          omega

/-- The complete frames at the front of a stream, in order, and the bytes after them. -/
def cutFrames (limit : UInt32) (stream : Bytes) : Except Fault (List Bytes × Bytes) :=
  match _peeked : frameSize? limit (.bytes stream) with
  | .error fault => .error fault
  | .ok none => .ok ([], stream)
  | .ok (some n) =>
    if n ≤ stream.length then do
      let (frames, rest) ← cutFrames limit (stream.drop n)
      return (stream.take n :: frames, rest)
    else .ok ([], stream)
termination_by stream.length
decreasing_by
  have := size_le_of_frameSize? _peeked
  simp only [List.length_drop, Head.size] at *
  omega

theorem cutFrames_of_none {limit : UInt32} {stream : Bytes}
    (h : frameSize? limit (.bytes stream) = .ok none) : cutFrames limit stream = .ok ([], stream) := by
  rw [cutFrames]
  split
  · next fault hsize => rw [h] at hsize; cases hsize
  · rfl
  · next n hsize => rw [h] at hsize; cases hsize

theorem cutFrames_of_lt {limit : UInt32} {stream : Bytes} {n : Nat}
    (h : frameSize? limit (.bytes stream) = .ok (some n)) (hn : stream.length < n) :
    cutFrames limit stream = .ok ([], stream) := by
  rw [cutFrames]
  split
  · next fault hsize => rw [h] at hsize; cases hsize
  · rfl
  · next k hsize =>
    rw [h] at hsize
    cases hsize
    rw [if_neg (Nat.not_le.2 hn)]

/-- A complete frame is cut off, and cutting goes on behind it. -/
theorem cutFrames_of_le {limit : UInt32} {stream : Bytes} {n : Nat}
    (h : frameSize? limit (.bytes stream) = .ok (some n)) (hn : n ≤ stream.length) :
    cutFrames limit stream
      = (cutFrames limit (stream.drop n)).map fun r => (stream.take n :: r.1, r.2) := by
  rw [cutFrames]
  split
  · next fault hsize => rw [h] at hsize; cases hsize
  · next hsize => rw [h] at hsize; cases hsize
  · next k hsize =>
    rw [h] at hsize
    cases hsize
    rw [if_pos hn]
    cases cutFrames limit (stream.drop n) <;> rfl

end RpcFraming
