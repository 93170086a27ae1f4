import RpcFraming.Bytes

/-!
# Big-endian words

The sizes in a frame's head are 32-bit words, sent with the most significant byte first. A signed
size travels as the word of its two's complement.

What is proved: joining the bytes of a word gives the word back, the bytes of joined bytes are those
bytes, and the value of joined bytes is read as a numeral of base 256 from left to right.
-/

namespace RpcFraming.BigEndian

/-- The four bytes of a word, most significant first. -/
def bytes (w : UInt32) : Bytes :=
  [(w >>> 24).toUInt8, (w >>> 16).toUInt8, (w >>> 8).toUInt8, w.toUInt8]

/-- The word of four bytes, most significant first. -/
def join (b₃ b₂ b₁ b₀ : UInt8) : UInt32 :=
  b₃.toUInt32 <<< 24 ||| b₂.toUInt32 <<< 16 ||| b₁.toUInt32 <<< 8 ||| b₀.toUInt32

@[simp] theorem length_bytes (w : UInt32) : (bytes w).length = 4 := rfl

/-- Joined bytes are a numeral of base 256. -/
theorem toNat_join (b₃ b₂ b₁ b₀ : UInt8) :
    (join b₃ b₂ b₁ b₀).toNat
      = ((b₃.toNat * 256 + b₂.toNat) * 256 + b₁.toNat) * 256 + b₀.toNat := by
  have h₃ := b₃.toNat_lt
  have h₂ := b₂.toNat_lt
  have h₁ := b₁.toNat_lt
  have h₀ := b₀.toNat_lt
  simp only [join, UInt32.toNat_or, UInt32.toNat_shiftLeft, UInt8.toNat_toUInt32]
  have e₃ : b₃.toNat <<< (UInt32.toNat 24 % 32) % 2 ^ 32 = b₃.toNat <<< 24 := by
    simp [Nat.shiftLeft_eq]; omega
  have e₂ : b₂.toNat <<< (UInt32.toNat 16 % 32) % 2 ^ 32 = b₂.toNat <<< 16 := by
    simp [Nat.shiftLeft_eq]; omega
  have e₁ : b₁.toNat <<< (UInt32.toNat 8 % 32) % 2 ^ 32 = b₁.toNat <<< 8 := by
    simp [Nat.shiftLeft_eq]; omega
  rw [e₃, e₂, e₁, Nat.or_assoc, Nat.or_assoc,
    ← Nat.shiftLeft_add_eq_or_of_lt (i := 8) (by omega),
    ← Nat.shiftLeft_add_eq_or_of_lt (i := 16) (by simp [Nat.shiftLeft_eq]; omega),
    ← Nat.shiftLeft_add_eq_or_of_lt (i := 24) (by simp [Nat.shiftLeft_eq]; omega)]
  simp only [Nat.shiftLeft_eq]
  omega

/-- Four bytes are the bytes of the word they join to. -/
@[simp] theorem bytes_join (b₃ b₂ b₁ b₀ : UInt8) : bytes (join b₃ b₂ b₁ b₀) = [b₃, b₂, b₁, b₀] := by
  have h₃ := b₃.toNat_lt
  have h₂ := b₂.toNat_lt
  have h₁ := b₁.toNat_lt
  have h₀ := b₀.toNat_lt
  simp only [bytes, List.cons.injEq, and_true, ← UInt8.toNat_inj, UInt32.toNat_toUInt8,
    UInt32.toNat_shiftRight, toNat_join, Nat.shiftRight_eq_div_pow]
  simp
  omega

/-- A word is what its own bytes join to. -/
@[simp] theorem join_bytes (w : UInt32) :
    join (w >>> 24).toUInt8 (w >>> 16).toUInt8 (w >>> 8).toUInt8 w.toUInt8 = w := by
  have h := w.toNat_lt
  rw [← UInt32.toNat_inj, toNat_join]
  simp [Nat.shiftRight_eq_div_pow]
  omega

/-! ### Signed words -/

/-- The four bytes of a signed word. -/
def signedBytes (i : Int32) : Bytes := bytes i.toUInt32

/-- The signed word of four bytes. -/
def joinSigned (b₃ b₂ b₁ b₀ : UInt8) : Int32 := (join b₃ b₂ b₁ b₀).toInt32

@[simp] theorem length_signedBytes (i : Int32) : (signedBytes i).length = 4 := rfl

@[simp] theorem signedBytes_joinSigned (b₃ b₂ b₁ b₀ : UInt8) :
    signedBytes (joinSigned b₃ b₂ b₁ b₀) = [b₃, b₂, b₁, b₀] := by
  simp [signedBytes, joinSigned]

/-! ### Reading back -/

/-- The unsigned word in the last four bytes of a byte string, if it has that many. -/
def lastWord? (b : Bytes) : Option UInt32 :=
  match b.drop (b.length - 4) with
  | [b₃, b₂, b₁, b₀] => some (join b₃ b₂ b₁ b₀)
  | _ => none

/-- What was appended last is read back. -/
@[simp] theorem lastWord?_append_bytes (b : Bytes) (w : UInt32) :
    lastWord? (b ++ bytes w) = some w := by
  have h : (b ++ bytes w).drop ((b ++ bytes w).length - 4) = bytes w := by simp
  rw [lastWord?, h]
  simp [bytes]

end RpcFraming.BigEndian
