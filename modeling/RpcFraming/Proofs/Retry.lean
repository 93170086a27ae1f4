import RpcFraming.Proofs.Reencoding

/-!
# Encoding once more

Encoding writes three sizes into a packet and reads none of them. So it does not matter which sizes a
packet has when it is encoded, be they left over from the packet that it was split from or answers, or
from an attempt that failed. This module takes the sizes out (`Packet.unsized`): encoding hangs on what
is left (`result_encode_unsized`) and does not change it (`unsized_encode`).

A caller may try to encode a packet any number of times, with serializers that fail now and then, and
change the packet in between (`Packet.Step`). Since no attempt changes what the next one hangs on, those
that failed might as well not have been made.

## What is proved

* `result_encode_congr`: packets that differ in their sizes only are encoded alike.
* `unchanged_of_outcome_encode`: what a failed attempt leaves as it was.
* `unsized_afterSteps_withoutFailures`: failed attempts leave no trace.
* `encode_retry`: the three together, and that a packet that was encoded is encoded to the same frame.
-/

namespace RpcFraming

/-! ### Packets without their sizes -/

/-- A head without its sizes. -/
def Head.unsized (head : Head) : Head := { head with totalSize := 0, metadataSize := 0 }

/-- Metadata without the size of the attachment. -/
def Metadata.unsized (x : Metadata) : Metadata := { x with attachmentSize := 0 }

/-- A packet without the sizes in its head and metadata. -/
def Packet.unsized (p : Packet) : Packet :=
  { p with head := p.head.map Head.unsized, metadata := p.metadata.map Metadata.unsized }

/-- The frame with the packet that encoding leaves, or the fault. -/
def Encoded.result (e : Encoded) : Except Fault (Packet × Bytes) :=
  e.outcome.map fun frame => (e.packet, frame)

@[simp] theorem Metadata.sized_unsized (x : Metadata) (attachment : Bytes) :
    x.unsized.sized attachment = x.sized attachment := rfl

@[simp] theorem Metadata.unsized_sized (x : Metadata) (attachment : Bytes) :
    (x.sized attachment).unsized = x.unsized := rfl

@[simp] theorem Head.sized_unsized (head : Head) (serialized data attachment : Bytes) :
    head.unsized.sized serialized data attachment = head.sized serialized data attachment := rfl

@[simp] theorem Head.unsized_sized (head : Head) (serialized data attachment : Bytes) :
    (head.sized serialized data attachment).unsized = head.unsized := rfl

@[simp] theorem Head.layout_unsized (head : Head) (serialized data attachment : Bytes) :
    head.unsized.layout serialized data attachment = head.layout serialized data attachment := rfl

namespace Packet

variable {codec : Codec Id} {p q : Packet}

/-! ### One attempt -/

/-- What encoding does, spelled out. -/
theorem run_encode_eq (codec : Codec Id) (p : Packet) :
    Id.run (p.encode codec)
      = match p.head, p.metadata with
        | none, _ => ⟨p, .error .missingHead⟩
        | some _, none => ⟨p, .error .missingMetadata⟩
        | some head, some metadata =>
          if sizeLimit < p.attachment.length then ⟨p, .error .attachmentTooLarge⟩
          else
            match Id.run (codec.serialize (metadata.sized p.attachment).toMessage) with
            | none =>
              ⟨{ p with metadata := some (metadata.sized p.attachment) }, .error .unserializable⟩
            | some serialized =>
              if sizeLimit < bodyLength serialized p.data p.attachment then
                ⟨{ p with metadata := some (metadata.sized p.attachment) }, .error .bodyTooLarge⟩
              else
                ⟨{ p with
                    head := some (head.sized serialized p.data p.attachment)
                    metadata := some (metadata.sized p.attachment) },
                  .ok (head.layout serialized p.data p.attachment)⟩ := by
  cases hhead : p.head with
  | none =>
    simp only [encode, hhead]
    rfl
  | some head =>
    cases hmetadata : p.metadata with
    | none =>
      simp only [encode, hhead, hmetadata]
      rfl
    | some metadata =>
      by_cases hsize : sizeLimit < p.attachment.length
      · simp only [encode, hhead, hmetadata, if_pos hsize]
        rfl
      · have hrun := run_encode_sized codec hhead hmetadata (Nat.le_of_not_lt hsize)
        rw [hhead] at hrun
        simp only [if_neg hsize]
        exact hrun

/-- The ways in which encoding ends: before anything is written, after the size of the attachment was
written, or with a frame. -/
inductive Encodes (p : Packet) : Encoded → Prop where
  /-- Nothing was written. -/
  | untouched (fault : Fault) : Encodes p ⟨p, .error fault⟩
  /-- The size of the attachment was written, and then the metadata could not be serialized or the
  body was too large. -/
  | halfway {metadata : Metadata} (fault : Fault) (hmetadata : p.metadata = some metadata) :
      Encodes p ⟨{ p with metadata := some (metadata.sized p.attachment) }, .error fault⟩
  /-- All sizes were written. -/
  | encoded {head : Head} {metadata : Metadata} {serialized : Bytes} (hhead : p.head = some head)
      (hmetadata : p.metadata = some metadata) :
      Encodes p
        ⟨{ p with
            head := some (head.sized serialized p.data p.attachment)
            metadata := some (metadata.sized p.attachment) },
          .ok (head.layout serialized p.data p.attachment)⟩

theorem encodes (codec : Codec Id) (p : Packet) : p.Encodes (Id.run (p.encode codec)) := by
  rw [run_encode_eq]
  split
  · exact .untouched _
  · exact .untouched _
  · next head metadata hhead hmetadata =>
    split
    · exact .untouched _
    · split
      · exact .halfway _ hmetadata
      · split
        · exact .halfway _ hmetadata
        · exact .encoded hhead hmetadata

/-- **Encoding reads no size**: it comes to the same without them. -/
theorem result_encode_unsized (codec : Codec Id) (p : Packet) :
    (Id.run (p.unsized.encode codec)).result = (Id.run (p.encode codec)).result := by
  rw [run_encode_eq, run_encode_eq]
  obtain ⟨head, metadata, data, attachment, timestamp⟩ := p
  cases head with
  | none => rfl
  | some head =>
    cases metadata with
    | none => rfl
    | some metadata =>
      simp only [unsized, Option.map_some, Metadata.sized_unsized, Head.sized_unsized,
        Head.layout_unsized]
      by_cases hsize : sizeLimit < attachment.length
      · simp only [hsize, ↓reduceIte]
        rfl
      · simp only [hsize, ↓reduceIte]
        cases Id.run (codec.serialize (metadata.sized attachment).toMessage) with
        | none => rfl
        | some serialized =>
          by_cases hbody : sizeLimit < bodyLength serialized data attachment
          · simp only [hbody, ↓reduceIte]
            rfl
          · simp only [hbody, ↓reduceIte]

/-- Packets that differ in their sizes only are encoded alike. -/
theorem result_encode_congr (codec : Codec Id) (h : p.unsized = q.unsized) :
    (Id.run (p.encode codec)).result = (Id.run (q.encode codec)).result := by
  rw [← result_encode_unsized, h, result_encode_unsized]

/-- **Encoding changes nothing but sizes**, whether it fails or not. -/
theorem unsized_encode (codec : Codec Id) (p : Packet) :
    (Id.run (p.encode codec)).packet.unsized = p.unsized := by
  have hencodes := encodes codec p
  generalize Id.run (p.encode codec) = e at hencodes ⊢
  cases hencodes with
  | untouched => rfl
  | halfway fault hmetadata => simp [unsized, hmetadata]
  | encoded hhead hmetadata => simp [unsized, hhead, hmetadata]

/-- An attempt that fails has changed at most the size of the attachment in the metadata. -/
theorem unchanged_of_outcome_encode {fault : Fault}
    (h : (Id.run (p.encode codec)).outcome = .error fault) :
    (Id.run (p.encode codec)).packet.head = p.head ∧
      (Id.run (p.encode codec)).packet.metadata.map Metadata.unsized
        = p.metadata.map Metadata.unsized ∧
      (Id.run (p.encode codec)).packet.data = p.data ∧
      (Id.run (p.encode codec)).packet.attachment = p.attachment ∧
      (Id.run (p.encode codec)).packet.timestamp = p.timestamp := by
  have hencodes := encodes codec p
  generalize Id.run (p.encode codec) = e at h hencodes ⊢
  cases hencodes with
  | untouched => exact ⟨rfl, rfl, rfl, rfl, rfl⟩
  | halfway fault hmetadata => exact ⟨rfl, by simp [hmetadata], rfl, rfl, rfl⟩
  | encoded => cases h

/-! ### Many attempts -/

/-- What a caller can change in a packet. -/
inductive Edit where
  /-- The id that a response shares with its request. -/
  | correlationId (id : Int64)
  /-- The time. -/
  | timestamp (time : Int64)
  /-- More data behind what there is. -/
  | moreData (bytes : Bytes)
  /-- The attachment. -/
  | attachment (bytes : Bytes)
  /-- The packet is no chunk any more. -/
  | clearChunkInfo

/-- The packet after a change. -/
def edit (p : Packet) : Edit → Packet
  | .correlationId id => p.withCorrelationId id
  | .timestamp time => { p with timestamp := time }
  | .moreData bytes => p.appendData bytes
  | .attachment bytes => { p with attachment := bytes }
  | .clearChunkInfo => p.clearChunkInfo

/-- What is done with a packet. -/
inductive Step where
  /-- It is changed. -/
  | edit (edit : Edit)
  /-- It is encoded. The serializer may be another one each time, as it may fail now and then. -/
  | encode (codec : Codec Id)

/-- The packet after a step, whatever comes of it. -/
def step (p : Packet) : Step → Packet
  | .edit edit => p.edit edit
  | .encode codec => (Id.run (p.encode codec)).packet

/-- The step is an attempt to encode the packet that fails. -/
def fails (p : Packet) : Step → Bool
  | .edit _ => false
  | .encode codec => !(Id.run (p.encode codec)).outcome.isOk

/-- The packet after some steps. -/
def afterSteps (p : Packet) (steps : List Step) : Packet := steps.foldl step p

/-- The steps without the attempts that fail. -/
def withoutFailures : Packet → List Step → List Step
  | _, [] => []
  | p, s :: steps =>
    if p.fails s then (p.step s).withoutFailures steps else s :: (p.step s).withoutFailures steps

theorem unsized_edit (p : Packet) (edit : Edit) :
    (p.edit edit).unsized = (p.unsized.edit edit).unsized := by
  obtain ⟨head, metadata, data, attachment, timestamp⟩ := p
  cases edit <;> cases head <;> cases metadata <;> rfl

/-- No step depends on the sizes, but for the sizes that it leaves. -/
theorem unsized_step (h : p.unsized = q.unsized) (s : Step) :
    (p.step s).unsized = (q.step s).unsized := by
  cases s with
  | edit edit => rw [step, step, unsized_edit, h, ← unsized_edit]
  | encode codec => rw [step, step, unsized_encode, unsized_encode, h]

theorem unsized_step_of_fails {s : Step} (h : p.fails s = true) : (p.step s).unsized = p.unsized := by
  cases s with
  | edit edit => cases h
  | encode codec => exact unsized_encode codec p

/-- **Failed attempts leave no trace** but in the sizes. -/
theorem unsized_afterSteps_withoutFailures (h : p.unsized = q.unsized) (steps : List Step) :
    (p.afterSteps steps).unsized = (q.afterSteps (p.withoutFailures steps)).unsized := by
  -- the packets of both runs differ in their sizes only, whichever attempts the second run leaves out
  induction steps generalizing p q with
  | nil => exact h
  | cons s steps ih =>
    rw [withoutFailures]
    split
    · next hfails => exact ih ((unsized_step_of_fails hfails).trans h)
    · exact ih (unsized_step h s)

/-- **Encoding once more.** Packets that differ in their sizes only come to the same frame and the same
packet, or to the same fault. An attempt that fails leaves everything but the size of the attachment in
the metadata; so, whatever is done with a packet, it is encoded as if the attempts that failed had not
been made. A packet that was encoded is encoded to the same frame again, and stays as it is. -/
theorem encode_retry (codec : Codec Id) (p : Packet) :
    (∀ q : Packet, q.unsized = p.unsized →
      (Id.run (q.encode codec)).result = (Id.run (p.encode codec)).result) ∧
    (∀ fault, (Id.run (p.encode codec)).outcome = .error fault →
      (Id.run (p.encode codec)).packet.head = p.head ∧
        (Id.run (p.encode codec)).packet.metadata.map Metadata.unsized
          = p.metadata.map Metadata.unsized ∧
        (Id.run (p.encode codec)).packet.data = p.data ∧
        (Id.run (p.encode codec)).packet.attachment = p.attachment ∧
        (Id.run (p.encode codec)).packet.timestamp = p.timestamp) ∧
    (∀ steps : List Step,
      (Id.run ((p.afterSteps steps).encode codec)).result
        = (Id.run ((p.afterSteps (p.withoutFailures steps)).encode codec)).result) ∧
    (∀ p' frame, Id.run (p.encode codec) = ⟨p', .ok frame⟩ →
      Id.run (p'.encode codec) = ⟨p', .ok frame⟩) :=
  ⟨fun _ h => result_encode_congr codec h, fun _ h => unchanged_of_outcome_encode h,
    fun steps => result_encode_congr codec (unsized_afterSteps_withoutFailures rfl steps),
    fun p' _ h => encode_sized h p'.timestamp⟩

/-- `encode_retry` on `sample`: without the sizes left over in it, after two attempts with a serializer
that knows no metadata, and once it was encoded. -/
theorem encode_retry_sample :
    (Id.run (sample.unsized.encode sampleCodec)).result = .ok (sampleSized, sampleFrame) ∧
      (Id.run (sample.encode (.ofTable []))).outcome = .error .unserializable ∧
      (Id.run (sample.encode (.ofTable []))).packet.head = sample.head ∧
      (Id.run ((sample.afterSteps [.encode (.ofTable []), .encode (.ofTable [])]).encode
        sampleCodec)).result = .ok (sampleSized, sampleFrame) ∧
      Id.run (sampleSized.encode sampleCodec) = ⟨sampleSized, .ok sampleFrame⟩ := by
  obtain ⟨hstale, -, hsteps, hagain⟩ := encode_retry sampleCodec sample
  obtain ⟨-, hfailed, -, -⟩ := encode_retry (.ofTable []) sample
  have hresult : (Id.run (sample.encode sampleCodec)).result = .ok (sampleSized, sampleFrame) := by
    rw [run_encode_sample]
    rfl
  refine ⟨(hstale sample.unsized rfl).trans hresult, rfl, (hfailed .unserializable rfl).1, ?_,
    hagain sampleSized sampleFrame run_encode_sample⟩
  exact (hsteps [.encode (.ofTable []), .encode (.ofTable [])]).trans hresult

end Packet

end RpcFraming
