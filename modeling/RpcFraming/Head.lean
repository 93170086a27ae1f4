import RpcFraming.BigEndian
import RpcFraming.Fault

/-!
# Frame heads

Every frame begins with a head of twelve bytes: a magic code of four bytes, the total size of what
follows the head, and the size of the metadata, which comes first in what follows. Both sizes are
signed big-endian words. A magic code other than the usual one is kept as it is read; whether to
accept it is for the receiver to decide.

What is proved: a head has twelve bytes, `Head.read` gives back a head that was written and leaves
whatever follows it, and what `Head.read` accepts is the head's own bytes followed by the rest.
-/

namespace RpcFraming

/-! ### Magic codes -/

/-- The four bytes that open a frame. -/
structure Magic where
  /-- The byte sent first. -/
  first : UInt8
  /-- The byte sent second. -/
  second : UInt8
  /-- The byte sent third. -/
  third : UInt8
  /-- The byte sent last. -/
  fourth : UInt8
  deriving Repr, DecidableEq

namespace Magic

/-- The usual magic code, the letters `PRPC`. -/
def standard : Magic := ⟨0x50, 0x52, 0x50, 0x43⟩

/-- The bytes in the order in which they are sent. -/
def toBytes (m : Magic) : Bytes := [m.first, m.second, m.third, m.fourth]

/-- The magic code of exactly four bytes. -/
def ofBytes? : Bytes → Option Magic
  | [a, b, c, d] => some ⟨a, b, c, d⟩
  | _ => none

@[simp] theorem length_toBytes (m : Magic) : m.toBytes.length = 4 := rfl

@[simp] theorem ofBytes?_toBytes (m : Magic) : ofBytes? m.toBytes = some m := rfl

theorem ofBytes?_eq_some_iff {b : Bytes} {m : Magic} : ofBytes? b = some m ↔ b = m.toBytes := by
  constructor
  · intro h
    unfold ofBytes? at h
    split at h
    · cases h; rfl
    · cases h
  · rintro rfl
    rfl

/-- Any four bytes are a magic code, and no other number of bytes is. -/
theorem ofBytes?_eq_none_iff {b : Bytes} : ofBytes? b = none ↔ b.length ≠ 4 := by
  constructor
  · intro h hb
    match b, hb with
    | [_, _, _, _], _ => cases h
  · intro hb
    unfold ofBytes?
    split
    · simp at hb
    · rfl

end Magic

/-! ### Heads -/

/-- The head of a frame. Either size may be any signed word: a head that was read is kept even if
no frame could have it. -/
structure Head where
  /-- The code that opens the frame. -/
  magic : Magic := .standard
  /-- The number of bytes after the head. -/
  totalSize : Int32 := 0
  /-- The number of bytes of the serialized metadata. -/
  metadataSize : Int32 := 0
  deriving Repr, DecidableEq

namespace Head

/-- The number of bytes of a head. -/
def size : Nat := 12

/-- The head opens with the usual magic code. -/
def hasStandardMagic (h : Head) : Bool := h.magic = .standard

/-- The same head under another magic code, which has to have four bytes. -/
def withMagic (h : Head) (code : Bytes) : Except Fault Head :=
  match Magic.ofBytes? code with
  | some magic => .ok { h with magic := magic }
  | none => .error .magicLength

/-- A head under a given magic code, with both sizes 0. -/
def ofMagic (code : Bytes) : Except Fault Head := withMagic {} code

/-! ### Bytes of a head -/

/-- Magic code, total size and metadata size, in this order. -/
def toBytes (h : Head) : Bytes :=
  h.magic.toBytes ++ BigEndian.signedBytes h.totalSize ++ BigEndian.signedBytes h.metadataSize

/-- The head at the front of some bytes, and the bytes after it. -/
def read : Bytes → Except Fault (Head × Bytes)
  | a :: b :: c :: d :: t₃ :: t₂ :: t₁ :: t₀ :: m₃ :: m₂ :: m₁ :: m₀ :: rest =>
    .ok (⟨⟨a, b, c, d⟩, BigEndian.joinSigned t₃ t₂ t₁ t₀, BigEndian.joinSigned m₃ m₂ m₁ m₀⟩, rest)
  | _ => .error (.incomplete .head)

/-- The head at the front of a buffer. Bytes that were not supplied are refused however many were
announced. -/
def decode : Buffer → Except Fault Head
  | .announced _ => .error .unsuppliedHead
  | .bytes b => (read b).map Prod.fst

@[simp] theorem length_toBytes (h : Head) : h.toBytes.length = size := rfl

/-- A head that was written is read back, whatever follows it. -/
@[simp] theorem read_toBytes_append (h : Head) (rest : Bytes) :
    read (h.toBytes ++ rest) = .ok (h, rest) := by
  simp [toBytes, Magic.toBytes, BigEndian.signedBytes, BigEndian.bytes, read, BigEndian.joinSigned]

/-- What is read is the head's own bytes and then the rest. -/
theorem eq_of_read_eq_ok {b rest : Bytes} {h : Head} (hb : read b = .ok (h, rest)) :
    b = h.toBytes ++ rest := by
  unfold read at hb
  split at hb
  · simp only [Except.ok.injEq, Prod.mk.injEq] at hb
    obtain ⟨rfl, rfl⟩ := hb
    simp [toBytes, Magic.toBytes]
  · cases hb

/-- Reading fails exactly on fewer than twelve bytes, and always for the same cause. -/
theorem read_eq_error_iff {b : Bytes} {fault : Fault} :
    read b = .error fault ↔ b.length < size ∧ fault = .incomplete .head := by
  constructor
  · intro h
    unfold read at h
    split at h
    · cases h
    · next hb =>
      refine ⟨?_, by cases h; rfl⟩
      match b, hb with
      | [], _ | [_], _ | [_, _], _ | [_, _, _], _ | [_, _, _, _], _ | [_, _, _, _, _], _
      | [_, _, _, _, _, _], _ | [_, _, _, _, _, _, _], _ | [_, _, _, _, _, _, _, _], _
      | [_, _, _, _, _, _, _, _, _], _ | [_, _, _, _, _, _, _, _, _, _], _
      | [_, _, _, _, _, _, _, _, _, _, _], _ => simp [size]
      | a :: b :: c :: d :: t₃ :: t₂ :: t₁ :: t₀ :: m₃ :: m₂ :: m₁ :: m₀ :: rest, hb =>
        exact absurd rfl (hb a b c d t₃ t₂ t₁ t₀ m₃ m₂ m₁ m₀ rest)
  · rintro ⟨hb, rfl⟩
    cases h : read b with
    | ok r =>
      rw [eq_of_read_eq_ok (show read b = .ok (r.1, r.2) from h)] at hb
      simp only [List.length_append, length_toBytes] at hb
      omega
    | error e =>
      unfold read at h
      split at h
      · cases h
      · cases h; rfl

end Head

end RpcFraming
