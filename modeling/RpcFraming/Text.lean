import RpcFraming.Bytes

/-!
# Texts

Names, keys and error texts are meant to be read, but nothing makes sure that they can be: a text is
whatever bytes were set or received, and is kept and passed on as it is. A string stands for the text
that is its UTF-8 form, and a text is displayed as the string whose UTF-8 form it is.

What is proved: a text that was made from a string is displayed as that string, and is as long as it.
-/

namespace RpcFraming

/-- A byte string that is meant to be read. -/
structure Text where
  /-- The bytes. -/
  bytes : Bytes
  deriving Repr, DecidableEq

namespace Text

/-- The UTF-8 form of a string. -/
@[coe] def ofString (s : String) : Text := ⟨s.toUTF8.data.toList⟩

/-- The string whose UTF-8 form a text is. If there is none, each byte is shown as one character. -/
@[coe] def display (t : Text) : String :=
  (String.fromUTF8? ⟨t.bytes.toArray⟩).getD
    (String.ofList (t.bytes.map fun byte => Char.ofNat byte.toNat))

/-- The number of bytes. -/
def utf8ByteSize (t : Text) : Nat := t.bytes.length

/-- One text after the other. -/
instance : Append Text := ⟨fun t u => ⟨t.bytes ++ u.bytes⟩⟩

instance : Coe String Text := ⟨ofString⟩

instance : CoeOut Text String := ⟨display⟩

instance : ToString Text := ⟨display⟩

/-- Whatever answers with a string answers with a text. -/
instance {α : Type} : Coe (α → String) (α → Text) := ⟨fun f a => f a⟩

/-- Whatever can be done with a text can be done with a string. -/
instance {α : Type} : Coe (Text → α) (String → α) := ⟨fun f s => f s⟩

@[simp] theorem display_ofString (s : String) : (ofString s).display = s := by
  have hvalid : (⟨s.toUTF8.data.toList.toArray⟩ : ByteArray) = s.toByteArray := by simp
  rw [display, ofString, hvalid, String.fromUTF8?, dif_pos s.isValidUTF8]
  rfl

@[simp] theorem utf8ByteSize_ofString (s : String) : (ofString s).utf8ByteSize = s.utf8ByteSize :=
  Array.length_toList

end Text

end RpcFraming
