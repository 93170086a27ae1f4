import RpcFraming.Metadata.Flat
import RpcFraming.Proofs.NormalForm

/-!
# Equality of metadata

Metadata is compared field by field, and its message is filled field by field, each in an order of its
own. Here it is shown that both go over the same fields: metadata is equal exactly if it makes the same
message. This is said of flat metadata, where the trace of a request has to be put together before it is
compared. Flat metadata is `Metadata` laid out in another way (`Metadata.flatten`), and both are compared
and sent alike.

## What is proved

* `FlatMetadata.toMessage_eq`: filling a message part by part gives the message of the metadata.
* `FlatMetadata.toMessage_injective`: different metadata makes different messages.
* `FlatMetadata.run_encode_eq_ok_iff_beq`: under a lawful codec it also makes different bytes.
* `FlatMetadata.equal_iff_sentAlike`: all this in one place.
-/

namespace RpcFraming

/-! ### Laying out flat -/

/-- A request with its trace among the other fields. -/
def Request.flatten (r : Request) : FlatRequest where
  serviceName := r.serviceName
  methodName := r.methodName
  logId := r.logId
  traceId := r.trace.traceId
  traceKey := r.trace.traceKey
  spanId := r.trace.spanId
  parentSpanId := r.trace.parentSpanId
  extFields := r.extFields
  extraParam := r.extraParam

/-- A request with its trace as one value. -/
def FlatRequest.nest (r : FlatRequest) : Request where
  serviceName := r.serviceName
  methodName := r.methodName
  logId := r.logId
  trace := r.trace
  extFields := r.extFields
  extraParam := r.extraParam

/-- Metadata with a flat request. -/
def Metadata.flatten (x : Metadata) : FlatMetadata where
  request := x.request.map Request.flatten
  response := x.response
  compression := x.compression
  correlationId := x.correlationId
  attachmentSize := x.attachmentSize
  chunkInfo := x.chunkInfo
  authenticationData := x.authenticationData

/-- Metadata with a request that has its trace as one value. -/
def FlatMetadata.nest (x : FlatMetadata) : Metadata where
  request := x.request.map FlatRequest.nest
  response := x.response
  compression := x.compression
  correlationId := x.correlationId
  attachmentSize := x.attachmentSize
  chunkInfo := x.chunkInfo
  authenticationData := x.authenticationData

@[simp] theorem FlatRequest.flatten_nest (r : FlatRequest) : r.nest.flatten = r := rfl

@[simp] theorem Request.nest_flatten (r : Request) : r.flatten.nest = r := rfl

@[simp] theorem FlatMetadata.flatten_nest (x : FlatMetadata) : x.nest.flatten = x := by
  have hrequest : Request.flatten ∘ FlatRequest.nest = id := funext FlatRequest.flatten_nest
  simp [Metadata.flatten, FlatMetadata.nest, hrequest]

@[simp] theorem Metadata.nest_flatten (x : Metadata) : x.flatten.nest = x := by
  have hrequest : FlatRequest.nest ∘ Request.flatten = id := funext Request.nest_flatten
  simp [Metadata.flatten, FlatMetadata.nest, hrequest]

/-- Flat metadata is metadata laid out in another way. -/
theorem Metadata.flatten_bijective : Function.Bijective Metadata.flatten :=
  ⟨Function.LeftInverse.injective nest_flatten, fun x => ⟨x.nest, x.flatten_nest⟩⟩

/-- A request with another trace has other fields of the trace. -/
theorem Request.flatten_withTrace (r : Request) (t : Trace) :
    flatten { r with trace := t } = r.flatten.setTrace t :=
  FlatRequest.eq_setTrace_iff.2 ⟨rfl, rfl, rfl, rfl, rfl, rfl⟩

theorem Metadata.beq_flatten (x y : Metadata) : (x.flatten == y.flatten) = (x == y) := by
  rw [Bool.eq_iff_iff, beq_iff_eq, beq_iff_eq]
  exact flatten_bijective.injective.eq_iff

/-! ### Filling a message -/

/-- The added values are put in behind those that are there, in order. -/
theorem Message.Request.foldl_addExtField (fields : List RpcFraming.ExtField)
    (out : Message.Request) :
    fields.foldl addExtField out
      = { out with extFields := out.extFields ++ fields.map ExtField.toMessage } := by
  induction fields generalizing out with
  | nil => simp
  | cons f fields ih =>
    rw [List.foldl_cons, ih]
    simp [addExtField, ExtField.toMessage]

/-- A filled request part says what the request says. -/
theorem FlatRequest.fill_blank (r : FlatRequest) : r.fill .blank = r.nest.toMessage := by
  rw [fill, Message.Request.foldl_addExtField]
  by_cases hkey : r.traceKey = "" <;> by_cases hparam : r.extraParam = [] <;>
    simp [Message.Request.blank, nest, trace, Request.toMessage, textUnlessEmpty,
      bytesUnlessEmpty, hkey, hparam]

namespace FlatMetadata

/-- **A filled message** is the message of the metadata. -/
theorem toMessage_eq (x : FlatMetadata) : x.toMessage = x.nest.toMessage := by
  obtain ⟨request, response, compression, correlationId, attachmentSize, chunkInfo, data⟩ := x
  cases request <;> cases response <;> cases chunkInfo <;> cases data <;>
    simp [toMessage, Message.blank, nest, Metadata.toMessage, Response.toMessage,
      FlatRequest.fill_blank]

/-- **Different metadata makes different messages.** -/
theorem toMessage_injective : Function.Injective toMessage := by
  intro a b h
  rw [toMessage_eq, toMessage_eq] at h
  have hnest : a.nest = b.nest := by
    rw [← Metadata.toMetadata_toMessage a.nest, h, Metadata.toMetadata_toMessage]
  rw [← a.flatten_nest, hnest, b.flatten_nest]

theorem beq_iff_toMessage_eq {a b : FlatMetadata} :
    (a == b) = true ↔ a.toMessage = b.toMessage := by
  rw [beq_iff_eq, toMessage_injective.eq_iff]

/-! ### Through a codec -/

theorem encode_congr {m : Type → Type} [Monad m] (codec : Codec m) {a b : FlatMetadata}
    (h : a.toMessage = b.toMessage) : a.encode codec = b.encode codec := by
  rw [encode, encode, h]

theorem encode_flatten {m : Type → Type} [Monad m] (codec : Codec m) (x : Metadata) :
    x.flatten.encode codec = x.encode codec := by
  rw [encode, toMessage_eq, Metadata.nest_flatten]
  rfl

theorem run_encode_eq_ok_iff {codec : Codec Id} {a : FlatMetadata} {b : Bytes} :
    Id.run (a.encode codec).run = .ok b ↔ Id.run (codec.serialize a.toMessage) = some b := by
  rw [← a.flatten_nest, encode_flatten, Metadata.run_encode_eq_ok_iff, toMessage_eq,
    flatten_nest]

/-- **Under a lawful codec** the bytes of metadata are those of equal metadata only. -/
theorem run_encode_eq_ok_iff_beq {codec : Codec Id} (lawful : codec.Lawful) {a b : FlatMetadata}
    {bytes : Bytes} (ha : Id.run (a.encode codec).run = .ok bytes) :
    Id.run (b.encode codec).run = .ok bytes ↔ (a == b) = true := by
  rw [beq_iff_toMessage_eq]
  constructor
  · intro hb
    have hparse := lawful _ _ (run_encode_eq_ok_iff.1 ha)
    rw [lawful _ _ (run_encode_eq_ok_iff.1 hb)] at hparse
    exact (Option.some.inj hparse).symm
  · intro h
    rw [← encode_congr codec h, ha]

/-! ### Comparing and sending -/

/-- **Metadata is equal exactly if it is sent alike.** It is compared as equal exactly if its messages
are the same, and as different exactly if they differ. So the comparison misses no field, and is an
equivalence; a part that is absent differs from any that is there, also from one that says nothing. What
is equal is encoded alike by every codec, and if a lawful codec encodes one of two values, it encodes the
other to the same bytes only if they are equal. Metadata with its trace as one value is the same in
another layout, and is compared and sent in the same way. -/
theorem equal_iff_sentAlike :
    (∀ a b : FlatMetadata, ((a == b) = true ↔ a.toMessage = b.toMessage) ∧
      ((a != b) = true ↔ a.toMessage ≠ b.toMessage) ∧ ((a == b) = true ↔ a = b)) ∧
    Equivalence (fun a b : FlatMetadata => (a == b) = true) ∧
    (∀ a b : FlatMetadata,
      (∀ data, ({ a with authenticationData := none }
        == { b with authenticationData := some data }) = false) ∧
      (∀ r, ({ a with request := none } == { b with request := some r }) = false) ∧
      ∀ r, ({ a with response := none } == { b with response := some r }) = false) ∧
    (∀ (m : Type → Type) [Monad m] (codec : Codec m) (a b : FlatMetadata),
      (a == b) = true → a.encode codec = b.encode codec) ∧
    (∀ codec : Codec Id, codec.Lawful → ∀ (a b : FlatMetadata) (bytes : Bytes),
      Id.run (a.encode codec).run = .ok bytes →
        (Id.run (b.encode codec).run = .ok bytes ↔ (a == b) = true)) ∧
    Function.Bijective Metadata.flatten ∧
    ∀ x y : Metadata, (x.flatten == y.flatten) = (x == y) ∧
      x.flatten.toMessage = x.toMessage := by
  have hequivalence : Equivalence (fun a b : FlatMetadata => (a == b) = true) := by
    simp only [beq_iff_eq]
    exact eq_equivalence
  refine ⟨fun a b => ⟨beq_iff_toMessage_eq, ?_, beq_iff_eq⟩, hequivalence,
    fun a b => ⟨fun data => ?_, fun r => ?_, fun r => ?_⟩,
    fun m _ codec a b h => encode_congr codec (beq_iff_toMessage_eq.1 h),
    fun codec lawful a b bytes ha => run_encode_eq_ok_iff_beq lawful ha,
    Metadata.flatten_bijective, fun x y => ⟨Metadata.beq_flatten x y, ?_⟩⟩
  · rw [bne_iff_ne, Ne, ← beq_iff_eq, beq_iff_toMessage_eq]
  · simp [beq_eq]
  · simp [beq_eq]
  · simp [beq_eq]
  · rw [toMessage_eq, Metadata.nest_flatten]

/-- `equal_iff_sentAlike` on the metadata of `Packet.sample`, of which the authentication data is there
but empty. -/
theorem equal_iff_sentAlike_sample :
    Packet.sampleCodec.Lawful ∧
      Id.run (Packet.sampleMetadata.flatten.encode Packet.sampleCodec).run
        = .ok Packet.sampleBytes ∧
      ¬ Id.run (encode Packet.sampleCodec
        { Packet.sampleMetadata.flatten with authenticationData := none }).run
          = .ok Packet.sampleBytes := by
  obtain ⟨-, -, habsent, -, hcodec, -⟩ := equal_iff_sentAlike
  have hencode : Id.run (Packet.sampleMetadata.flatten.encode Packet.sampleCodec).run
      = .ok Packet.sampleBytes := rfl
  refine ⟨Packet.lawful_sampleCodec, hencode, fun h => ?_⟩
  have hequal := (hcodec _ Packet.lawful_sampleCodec _ _ _ h).1 hencode
  exact Bool.false_ne_true (((habsent Packet.sampleMetadata.flatten
    Packet.sampleMetadata.flatten).1 []).symm.trans hequal)

end FlatMetadata

end RpcFraming
