import RpcFraming.Bytes

/-!
# Stream ids

Chunks that belong together share the id of their chunk stream. Ids are made from a counter whose
value is scrambled, so that two processes that start at different values are unlikely to make the
same ones. The highest bit is cleared: an id is never negative, and so is never taken for the number
that marks the last chunk of a stream.

What is proved: no id is negative.
-/

namespace RpcFraming

/-- A source of stream ids. -/
structure StreamIds where
  /-- The number of the next id. -/
  counter : UInt64
  deriving Repr, DecidableEq

namespace StreamIds

/-- Scramble a word: add the golden ratio, then twice fold the high bits down and multiply by an odd
number, then fold once more. Each step can be undone, so no two words are scrambled alike. -/
def mix (w : UInt64) : UInt64 :=
  let w := w + 0x9E3779B97F4A7C15
  let w := (w ^^^ (w >>> 30)) * 0xBF58476D1CE4E5B9
  let w := (w ^^^ (w >>> 27)) * 0x94D049BB133111EB
  w ^^^ (w >>> 31)

/-- A scrambled word without its highest bit. -/
def idOf (counter : UInt64) : Int64 := (mix counter &&& 0x7FFFFFFFFFFFFFFF).toInt64

/-- No id is negative. -/
theorem idOf_nonneg (counter : UInt64) : 0 ≤ idOf counter := by
  have h : (mix counter &&& 0x7FFFFFFFFFFFFFFF).toBitVec.toNat < 2 ^ 63 := by
    rw [UInt64.toBitVec_and, BitVec.toNat_and]
    exact Nat.lt_of_le_of_lt Nat.and_le_right (by decide)
  rw [Int64.le_iff_toInt_le]
  show 0 ≤ (mix counter &&& 0x7FFFFFFFFFFFFFFF).toBitVec.toInt
  rw [BitVec.toInt_eq_toNat_of_lt (by omega)]
  exact Int.natCast_nonneg _

/-- The next id, and the source of those after it. -/
def next (ids : StreamIds) : Int64 × StreamIds := (idOf ids.counter, ⟨ids.counter + 1⟩)

end StreamIds

end RpcFraming
