import RpcFraming.Fault
import RpcFraming.Message

/-!
# Message codecs

How a message becomes bytes and bytes become a message is left to a codec: this library fixes which
message is sent, and the codec fixes its bytes. Both directions may fail, and both may have effects
in a monad `m`; a codec that is just a pair of functions lives in `Id`.

What is proved: under a lawful codec, metadata that was encoded is decoded again.
-/

namespace RpcFraming

/-- A serializer and a parser of messages. -/
structure Codec (m : Type → Type) where
  /-- The bytes of a message, if it can be serialized. -/
  serialize : Message → m (Option Bytes)
  /-- The message of some bytes, if they are one. -/
  parse : Bytes → m (Option Message)

/-- Parsing gives back every message that was serialized. -/
def Codec.Lawful (codec : Codec Id) : Prop :=
  ∀ message bytes, Id.run (codec.serialize message) = some bytes →
    Id.run (codec.parse bytes) = some message

namespace Metadata

variable {m : Type → Type} [Monad m]

/-- The bytes of metadata. -/
def encode (codec : Codec m) (x : Metadata) : ExceptT Fault m Bytes := do
  match ← codec.serialize x.toMessage with
  | some bytes => return bytes
  | none => throw .unserializable

/-- The metadata in a buffer. A buffer that is too large is refused before any byte is looked at. -/
def decode (codec : Codec m) (buffer : Buffer) : ExceptT Fault m Metadata := do
  if sizeLimit < buffer.size then throw .metadataTooLarge
  match ← codec.parse buffer.content with
  | some message => return message.toMetadata
  | none => throw .unparsable

end Metadata

/-! ### Codecs without effects -/

/-- Without effects, a step that may fail is followed by the next one as in `Except`. -/
theorem run_bind_of_id {ε α β : Type} (x : ExceptT ε Id α) (f : α → ExceptT ε Id β) :
    Id.run (x >>= f).run = Id.run x.run >>= fun a => Id.run (f a).run := by
  show Id.run (ExceptT.bindCont f (Id.run x.run)) = _
  cases Id.run x.run <;> rfl

/-- Without effects, a plain result is lifted to itself. -/
theorem run_liftM_of_id {ε α : Type} (x : Except ε α) :
    Id.run (liftM x : ExceptT ε Id α).run = x := rfl

namespace Metadata

theorem run_encode (codec : Codec Id) (x : Metadata) :
    Id.run (encode codec x).run
      = match Id.run (codec.serialize x.toMessage) with
        | some bytes => .ok bytes
        | none => .error .unserializable := by
  show (match Id.run (codec.serialize x.toMessage) with
    | some bytes => _
    | none => _) = _
  cases Id.run (codec.serialize x.toMessage) <;> rfl

theorem run_decode (codec : Codec Id) {b : Bytes} (h : b.length ≤ sizeLimit) :
    Id.run (decode codec (.bytes b)).run
      = match Id.run (codec.parse b) with
        | some message => .ok message.toMetadata
        | none => .error .unparsable := by
  have h' : ¬ sizeLimit < (Buffer.bytes b).size := by simpa using h
  unfold decode
  rw [if_neg h']
  show (match Id.run (codec.parse b) with
    | some message => _
    | none => _) = _
  cases Id.run (codec.parse b) <;> rfl

/-- Metadata that was encoded is decoded again. -/
theorem run_decode_of_run_encode {codec : Codec Id} (lawful : codec.Lawful) {x : Metadata}
    {b : Bytes} (hb : b.length ≤ sizeLimit) (h : Id.run (encode codec x).run = .ok b) :
    Id.run (decode codec (.bytes b)).run = .ok x := by
  rw [run_encode] at h
  cases hs : Id.run (codec.serialize x.toMessage) with
  | none => simp [hs] at h
  | some bytes =>
    obtain rfl : bytes = b := by simpa [hs] using h
    rw [run_decode codec hb, lawful _ _ hs]
    simp

end Metadata

end RpcFraming
