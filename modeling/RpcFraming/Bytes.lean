/-!
# Byte strings

A frame, each of its parts and everything a codec produces is a byte string. This module names the
type, cuts a byte string at an exact place or into pieces of one size, and describes what a caller
hands over for decoding: either bytes, or only the announcement of how many there would be.

What is proved: `split?` succeeds exactly when enough bytes are there, and then loses none of them;
the pieces of a byte string concatenate to it.
-/

namespace RpcFraming

/-- A string of bytes. -/
abbrev Bytes := List UInt8

namespace Bytes

/-! ### Cutting at an exact place -/

/-- The first `n` bytes and the rest, if there are at least `n` bytes. -/
def split? (n : Nat) (b : Bytes) : Option (Bytes × Bytes) :=
  if n ≤ b.length then some (b.take n, b.drop n) else none

@[simp] theorem split?_zero (b : Bytes) : split? 0 b = some ([], b) := by
  simp [split?]

@[simp] theorem split?_append (a b : Bytes) : split? a.length (a ++ b) = some (a, b) := by
  simp [split?]

theorem split?_eq_some_iff {n : Nat} {b first rest : Bytes} :
    split? n b = some (first, rest) ↔ first.length = n ∧ b = first ++ rest := by
  constructor
  · intro h
    by_cases hn : n ≤ b.length
    · simp only [split?, if_pos hn, Option.some.injEq, Prod.mk.injEq] at h
      obtain ⟨rfl, rfl⟩ := h
      simp [hn]
    · simp [split?, hn] at h
  · rintro ⟨rfl, rfl⟩
    simp

theorem split?_eq_none_iff {n : Nat} {b : Bytes} : split? n b = none ↔ b.length < n := by
  by_cases h : n ≤ b.length
  · simp [split?, h]
  · simpa [split?, h] using Nat.lt_of_not_le h

/-! ### Cutting into pieces -/

/-- The pieces of `n` bytes that make up `b`, the last one holding what is left over. A byte string
that is not longer than one piece stays whole, and so does every byte string when `n` is 0. -/
def pieces (n : Nat) (b : Bytes) : List Bytes :=
  if n = 0 ∨ b.length ≤ n then [b] else b.take n :: pieces n (b.drop n)
termination_by b.length
decreasing_by simp only [List.length_drop]; omega

/-- What fits into one piece is one piece. -/
theorem pieces_of_length_le {n : Nat} {b : Bytes} (h : b.length ≤ n) : pieces n b = [b] := by
  rw [pieces, if_pos (.inr h)]

/-- What does not fit gives one full piece and the pieces of the rest. -/
theorem pieces_of_lt_length {n : Nat} {b : Bytes} (hn : n ≠ 0) (h : n < b.length) :
    pieces n b = b.take n :: pieces n (b.drop n) := by
  rw [pieces, if_neg (by omega)]

theorem pieces_ne_nil (n : Nat) (b : Bytes) : pieces n b ≠ [] := by
  rw [pieces]
  split <;> simp

/-- Cutting loses no byte and keeps their order. -/
theorem flatten_pieces (n : Nat) (b : Bytes) : (pieces n b).flatten = b := by
  fun_induction pieces n b with
  | case1 b h => simp
  | case2 b h ih => simp [ih]

end Bytes

/-! ### Sizes -/

/-- The largest number of bytes that a size can say: sizes are sent as signed 32-bit words. -/
def sizeLimit : Nat := 0x7FFFFFFF

theorem toInt_ofNat_of_le_sizeLimit {n : Nat} (h : n ≤ sizeLimit) : (Int32.ofNat n).toInt = n :=
  Int32.toInt_ofNat_of_lt (by simp only [sizeLimit] at h; omega)

theorem toNatClampNeg_ofNat_of_le_sizeLimit {n : Nat} (h : n ≤ sizeLimit) :
    (Int32.ofNat n).toNatClampNeg = n := by
  rw [Int32.toNatClampNeg, toInt_ofNat_of_le_sizeLimit h, Int.toNat_natCast]

/-! ### What a caller hands over -/

/-- A buffer to be decoded. -/
inductive Buffer where
  /-- The bytes are there, possibly none. -/
  | bytes (content : Bytes)
  /-- Only the number of bytes was announced, the bytes themselves were not supplied. -/
  | announced (size : Nat)
  deriving Repr, DecidableEq

namespace Buffer

/-- The number of bytes supplied or announced. -/
def size : Buffer → Nat
  | bytes content => content.length
  | announced size => size

/-- The bytes that were supplied. -/
def content : Buffer → Bytes
  | bytes content => content
  | announced _ => []

@[simp] theorem size_bytes (b : Bytes) : (bytes b).size = b.length := rfl

@[simp] theorem content_bytes (b : Bytes) : (bytes b).content = b := rfl

end Buffer

end RpcFraming
