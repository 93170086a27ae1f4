import RpcFraming.Proofs.Frame
import Mathlib.Data.List.Forall2

/-!
# The normal form of messages

Nearly every field of a message may be left out, so many messages say the same. Of these, one is in
normal form: it has every plain number and text of the parts that are there, and a trace key or an
extra parameter only if it is not empty. `Message.IsNormalOf` says field by field what the normal
form of a message is, without reading the message as metadata; it is what comes of reading the
message and writing what was read.

## What is proved

* `Message.isNormalOf_iff`: reading a message and writing the metadata again gives the normal form,
  and there is no other.
* `Metadata.run_decode_eq_error_iff`, `Metadata.run_encode_eq_error_iff`: which faults a codec can
  meet with.
* `Metadata.lossless`: metadata is read back as it was written, messages have one normal form, and
  under a lawful codec no metadata is lost on the way.
-/

namespace RpcFraming

namespace Message

/-! ### What is in normal form -/

/-- The added value `n` is the normal form of `f`: both parts are there. -/
structure ExtField.IsNormalOf (n f : ExtField) : Prop where
  /-- The name, empty if it was left out. -/
  key : n.key = some (f.key.getD "")
  /-- The value, empty if it was left out. -/
  value : n.value = some (f.value.getD "")

/-- The request part `n` is the normal form of `r`. -/
structure Request.IsNormalOf (n r : Request) : Prop where
  /-- The service is the same. -/
  serviceName : n.serviceName = r.serviceName
  /-- The method is the same. -/
  methodName : n.methodName = r.methodName
  /-- The log id, 0 if it was left out. -/
  logId : n.logId = some (r.logId.getD 0)
  /-- The trace, 0 if it was left out. -/
  traceId : n.traceId = some (r.traceId.getD 0)
  /-- The call, 0 if it was left out. -/
  spanId : n.spanId = some (r.spanId.getD 0)
  /-- The calling call, 0 if it was left out. -/
  parentSpanId : n.parentSpanId = some (r.parentSpanId.getD 0)
  /-- The added values are in normal form one by one, in the same order. -/
  extFields : List.Forall₂ ExtField.IsNormalOf n.extFields r.extFields
  /-- The trace key is there if it is not empty. -/
  traceKey : n.traceKey = r.traceKey.filter fun t : Text => t ≠ ""
  /-- The extra parameter is there if it is not empty. -/
  extraParam : n.extraParam = r.extraParam.filter (· ≠ [])

/-- The response part `n` is the normal form of `r`: both fields are there. -/
structure Response.IsNormalOf (n r : Response) : Prop where
  /-- The code, 0 if it was left out. -/
  errorCode : n.errorCode = some (r.errorCode.getD 0)
  /-- The text, empty if it was left out. -/
  errorText : n.errorText = some (r.errorText.getD "")

/-- The message `n` is the normal form of `w`. -/
structure IsNormalOf (n w : Message) : Prop where
  /-- There is a request part exactly if there was one, in normal form. -/
  request : Option.Rel Request.IsNormalOf n.request w.request
  /-- There is a response part exactly if there was one, in normal form. -/
  response : Option.Rel Response.IsNormalOf n.response w.response
  /-- The compression, 0 if it was left out. -/
  compressType : n.compressType = some (w.compressType.getD 0)
  /-- The correlation id, 0 if it was left out. -/
  correlationId : n.correlationId = some (w.correlationId.getD 0)
  /-- The size of the attachment, 0 if it was left out. -/
  attachmentSize : n.attachmentSize = some (w.attachmentSize.getD 0)
  /-- The chunk info is there exactly if it was, and the same. -/
  chunkInfo : n.chunkInfo = w.chunkInfo
  /-- The authentication data is there exactly if it was, and the same, empty or not. -/
  authenticationData : n.authenticationData = w.authenticationData

/-! ### Reading, then writing -/

theorem textUnlessEmpty_getD (s : Option Text) :
    textUnlessEmpty (s.getD "") = s.filter fun t : Text => t ≠ "" := by
  cases s with
  | none => rfl
  | some s => by_cases h : s = "" <;> simp [textUnlessEmpty, Option.filter, h]

theorem bytesUnlessEmpty_getD (b : Option Bytes) :
    bytesUnlessEmpty (b.getD []) = b.filter (· ≠ []) := by
  cases b with
  | none => rfl
  | some b => by_cases h : b = [] <;> simp [bytesUnlessEmpty, Option.filter, h]

/-- A part that may be left out is in normal form if it is what a function makes of the part. -/
theorem rel_iff_eq_map {α β : Type} {R : α → β → Prop} {f : β → α} (h : ∀ a b, R a b ↔ a = f b)
    {x : Option α} {y : Option β} : Option.Rel R x y ↔ x = y.map f := by
  cases x <;> cases y <;> simp [h]

/-- A list of parts is in normal form if it is what a function makes of each part. -/
theorem forall₂_iff_eq_map {α β : Type} {R : α → β → Prop} {f : β → α} (h : ∀ a b, R a b ↔ a = f b)
    {xs : List α} {ys : List β} : List.Forall₂ R xs ys ↔ xs = ys.map f := by
  have hR : R = fun a b => a = f b := by
    funext a b
    exact propext (h a b)
  rw [hR, ← List.forall₂_map_right_iff, List.forall₂_eq_eq_eq]

theorem ExtField.isNormalOf_iff (n f : ExtField) :
    n.IsNormalOf f ↔ n = f.toExtField.toMessage := by
  constructor
  · rintro ⟨hkey, hvalue⟩
    cases n
    cases hkey
    cases hvalue
    rfl
  · rintro rfl
    exact ⟨rfl, rfl⟩

theorem Request.isNormalOf_iff (n r : Request) :
    n.IsNormalOf r ↔ n = r.toRequest.toMessage := by
  have hext : (r.extFields.map ExtField.toExtField).map ExtField.toMessage
      = r.extFields.map fun f => f.toExtField.toMessage := List.map_map
  constructor
  · rintro ⟨hservice, hmethod, hlog, htrace, hspan, hparent, hfields, hkey, hparam⟩
    rw [forall₂_iff_eq_map ExtField.isNormalOf_iff, ← hext] at hfields
    rw [← textUnlessEmpty_getD] at hkey
    rw [← bytesUnlessEmpty_getD] at hparam
    cases n
    cases hservice
    cases hmethod
    cases hlog
    cases htrace
    cases hspan
    cases hparent
    cases hfields
    cases hkey
    cases hparam
    rfl
  · rintro rfl
    have hfields := (forall₂_iff_eq_map ExtField.isNormalOf_iff).2 hext
    exact ⟨rfl, rfl, rfl, rfl, rfl, rfl, hfields, textUnlessEmpty_getD _, bytesUnlessEmpty_getD _⟩

theorem Response.isNormalOf_iff (n r : Response) :
    n.IsNormalOf r ↔ n = r.toResponse.toMessage := by
  constructor
  · rintro ⟨hcode, htext⟩
    cases n
    cases hcode
    cases htext
    rfl
  · rintro rfl
    exact ⟨rfl, rfl⟩

/-- **The normal form** of a message is what comes of reading and writing it. -/
theorem isNormalOf_iff (n w : Message) : n.IsNormalOf w ↔ n = w.toMetadata.toMessage := by
  have hreq : (w.request.map Request.toRequest).map RpcFraming.Request.toMessage
      = w.request.map fun r => r.toRequest.toMessage := Option.map_map _ _ _
  have hres : (w.response.map Response.toResponse).map RpcFraming.Response.toMessage
      = w.response.map fun r => r.toResponse.toMessage := Option.map_map _ _ _
  constructor
  · rintro ⟨hrequest, hresponse, htype, hcorrelation, hsize, hchunk, hauth⟩
    rw [rel_iff_eq_map Request.isNormalOf_iff, ← hreq] at hrequest
    rw [rel_iff_eq_map Response.isNormalOf_iff, ← hres] at hresponse
    cases n
    cases hrequest
    cases hresponse
    cases htype
    cases hcorrelation
    cases hsize
    cases hchunk
    cases hauth
    rfl
  · rintro rfl
    have hrequest := (rel_iff_eq_map Request.isNormalOf_iff).2 hreq
    have hresponse := (rel_iff_eq_map Response.isNormalOf_iff).2 hres
    exact ⟨hrequest, hresponse, rfl, rfl, rfl, rfl, rfl⟩

end Message

/-! ### Through a codec -/

namespace Codec

/-- No message becomes more bytes than a size can say. -/
def Bounded (codec : Codec Id) : Prop :=
  ∀ message bytes, Id.run (codec.serialize message) = some bytes → bytes.length ≤ sizeLimit

theorem bounded_ofTable {table : List (Message × Bytes)}
    (h : ∀ bytes ∈ table.map Prod.snd, bytes.length ≤ sizeLimit) : (ofTable table).Bounded := by
  intro message bytes hs
  exact h bytes (snd_mem_of_lookup hs)

end Codec

namespace Metadata

variable {codec : Codec Id} {x : Metadata} {b : Bytes} {fault : Fault}

theorem run_encode_eq_ok_iff :
    Id.run (encode codec x).run = .ok b ↔ Id.run (codec.serialize x.toMessage) = some b := by
  rw [run_encode]
  cases Id.run (codec.serialize x.toMessage) <;> simp

/-- Writing fails if the message cannot be serialized, and for no other cause. -/
theorem run_encode_eq_error_iff :
    Id.run (encode codec x).run = .error fault ↔
      Id.run (codec.serialize x.toMessage) = none ∧ fault = .unserializable := by
  rw [run_encode]
  cases Id.run (codec.serialize x.toMessage) <;> simp [eq_comm]

theorem run_decode_of_lt (h : sizeLimit < b.length) :
    Id.run (decode codec (.bytes b)).run = .error .metadataTooLarge := by
  rw [decode, if_pos (show sizeLimit < (Buffer.bytes b).size from h)]
  rfl

/-- Reading fails if there are too many bytes, or else if they cannot be parsed. -/
theorem run_decode_eq_error_iff :
    Id.run (decode codec (.bytes b)).run = .error fault ↔
      (sizeLimit < b.length ∧ fault = .metadataTooLarge) ∨
        (b.length ≤ sizeLimit ∧ Id.run (codec.parse b) = none ∧ fault = .unparsable) := by
  by_cases h : b.length ≤ sizeLimit
  · have hlt : ¬ sizeLimit < b.length := Nat.not_lt.2 h
    rw [run_decode codec h]
    cases Id.run (codec.parse b) <;> simp [h, hlt, eq_comm]
  · rw [run_decode_of_lt (Nat.lt_of_not_le h)]
    simp [h, Nat.lt_of_not_le h, eq_comm]

/-- **No metadata is lost.** Metadata is read back as it was written. The message that is written
after reading any message is the normal form of that message, and reading and writing it once more
changes nothing. Under a lawful codec, what was encoded is decoded again, unless it is too large to
be looked at, which no codec makes that keeps to the sizes that can be said. Encoding and decoding
fail with a format fault, the one when the message cannot be serialized and the other when there are
too many bytes or the bytes cannot be parsed. -/
theorem lossless (codec : Codec Id) :
    (∀ x : Metadata, x.toMessage.toMetadata = x) ∧
    (∀ n w : Message, n.IsNormalOf w ↔ n = w.toMetadata.toMessage) ∧
    (∀ w : Message, w.toMetadata.toMessage.toMetadata.toMessage = w.toMetadata.toMessage) ∧
    (codec.Lawful → ∀ (x : Metadata) (b : Bytes), Id.run (x.encode codec).run = .ok b →
      (Id.run (decode codec (.bytes b)).run
        = if sizeLimit < b.length then .error .metadataTooLarge else .ok x) ∧
      (codec.Bounded → Id.run (decode codec (.bytes b)).run = .ok x)) ∧
    (∀ (x : Metadata) (fault : Fault), Id.run (x.encode codec).run = .error fault ↔
      Id.run (codec.serialize x.toMessage) = none ∧ fault = .unserializable) ∧
    (∀ (b : Bytes) (fault : Fault), Id.run (decode codec (.bytes b)).run = .error fault ↔
      (sizeLimit < b.length ∧ fault = .metadataTooLarge) ∨
        (b.length ≤ sizeLimit ∧ Id.run (codec.parse b) = none ∧ fault = .unparsable)) ∧
    ∀ fault ∈ [Fault.unserializable, .metadataTooLarge, .unparsable], fault.kind = .format := by
  refine ⟨toMetadata_toMessage, Message.isNormalOf_iff, fun w => ?_, fun lawful x b h => ?_,
    fun _ _ => run_encode_eq_error_iff, fun _ _ => run_decode_eq_error_iff, by decide⟩
  · rw [toMetadata_toMessage]
  · have hsmall : b.length ≤ sizeLimit → Id.run (decode codec (.bytes b)).run = .ok x :=
      fun hb => run_decode_of_run_encode lawful hb h
    constructor
    · split
      · next hb => exact run_decode_of_lt hb
      · next hb => exact hsmall (Nat.le_of_not_lt hb)
    · intro bounded
      exact hsmall (bounded _ _ (run_encode_eq_ok_iff.1 h))

end Metadata

/-- A message that leaves out what it can, and has a trace key all the same. -/
def Message.sparse : Message where
  request := some
    { serviceName := "E", methodName := "m", logId := none, traceId := some 3, spanId := none,
      parentSpanId := none, extFields := [⟨some "k", none⟩], traceKey := some "",
      extraParam := none }
  response := none
  compressType := none
  correlationId := some 7
  attachmentSize := none
  chunkInfo := none
  authenticationData := some []

/-- `Metadata.lossless` on the normal form of `Message.sparse`, and on the metadata of
`Packet.sample`. -/
theorem Metadata.lossless_sample :
    Packet.sampleCodec.Lawful ∧ Packet.sampleCodec.Bounded ∧
      Id.run (decode Packet.sampleCodec (.bytes Packet.sampleBytes)).run
        = .ok Packet.sampleMetadata ∧
      Message.IsNormalOf
        { request := some
            { serviceName := "E", methodName := "m", logId := some 0, traceId := some 3,
              spanId := some 0, parentSpanId := some 0, extFields := [⟨some "k", some ""⟩],
              traceKey := none, extraParam := none }
          response := none, compressType := some 0, correlationId := some 7
          attachmentSize := some 0, chunkInfo := none, authenticationData := some [] }
        Message.sparse := by
  have hbounded : Packet.sampleCodec.Bounded := Codec.bounded_ofTable (by decide)
  obtain ⟨-, hnormal, -, hcodec, -⟩ := lossless Packet.sampleCodec
  have hencode : Id.run (Packet.sampleMetadata.encode Packet.sampleCodec).run
      = .ok Packet.sampleBytes := rfl
  exact ⟨Packet.lawful_sampleCodec, hbounded,
    (hcodec Packet.lawful_sampleCodec _ _ hencode).2 hbounded, (hnormal _ _).2 rfl⟩

end RpcFraming
