import RpcFraming.Packet.Wire

/-!
# Frames, written and read

A packet is written into a frame by `Packet.encode` and read out of it by `Packet.decode`. The
writer computes three sizes, one of which stands inside the serialized metadata; the reader cuts the
frame at the places that these sizes say. This module states what a successful writing amounts to
(`exists_of_run_encode_eq_ok`), what reading makes of a frame that is laid out like that
(`run_decode_layout`), and puts the two together.

## What is proved

* `decode_encode_append`: whatever is written is read back, whatever follows it, and the sizes that
  the writer leaves in the packet are the true ones.
* `encode_outcome_congr`: the frame does not depend on the sizes that the packet had before.

The codec is assumed to parse what it serialized (`Codec.Lawful`); nothing else is assumed of it.
-/

namespace RpcFraming

/-! ### Sizes -/

/-- A size that fits is not negative. -/
theorem not_ofNat_neg {n : Nat} (h : n ≤ sizeLimit) : ¬ Int32.ofNat n < 0 := by
  rw [Int32.lt_iff_toInt_lt, toInt_ofNat_of_le_sizeLimit h]
  simp

/-- The metadata of a packet with a given attachment. -/
def Metadata.sized (x : Metadata) (attachment : Bytes) : Metadata :=
  { x with attachmentSize := .ofNat attachment.length }

/-- The number of bytes of a frame behind its head. -/
def bodyLength (serialized data attachment : Bytes) : Nat :=
  serialized.length + data.length + attachment.length

/-- The head of a frame that carries the given parts. -/
def Head.sized (head : Head) (serialized data attachment : Bytes) : Head :=
  { head with
    metadataSize := .ofNat serialized.length
    totalSize := .ofNat (bodyLength serialized data attachment) }

/-- The bytes of a frame that carries the given parts. -/
def Head.layout (head : Head) (serialized data attachment : Bytes) : Bytes :=
  (head.sized serialized data attachment).toBytes ++ serialized ++ data ++ attachment

@[simp] theorem Metadata.sized_sized (x : Metadata) (a b : Bytes) : (x.sized a).sized b = x.sized b :=
  rfl

section Sized

variable {serialized data attachment : Bytes}
  (hbody : bodyLength serialized data attachment ≤ sizeLimit) (head : Head)

include hbody

theorem length_attachment_le : attachment.length ≤ sizeLimit := by
  unfold bodyLength at hbody
  omega

theorem length_serialized_le : serialized.length ≤ sizeLimit := by
  unfold bodyLength at hbody
  omega

theorem toInt_totalSize_sized :
    (head.sized serialized data attachment).totalSize.toInt
      = serialized.length + data.length + attachment.length := by
  rw [Head.sized, toInt_ofNat_of_le_sizeLimit hbody]
  simp [bodyLength]

theorem toInt_metadataSize_sized :
    (head.sized serialized data attachment).metadataSize.toInt = serialized.length :=
  toInt_ofNat_of_le_sizeLimit (length_serialized_le hbody)

/-- What metadata and attachment leave of the total is the data. -/
theorem dataSize_sized :
    ((head.sized serialized data attachment).dataSize (.ofNat attachment.length)).toInt
      = data.length := by
  rw [Head.toInt_dataSize, toInt_totalSize_sized hbody, toInt_metadataSize_sized hbody,
    toInt_ofNat_of_le_sizeLimit (length_attachment_le hbody)]
  omega

end Sized

namespace Packet

/-! ### Writing -/

/-- Writing a packet that has head and metadata: it hangs on the serializer and on the size of the
body, and the sizes that the packet had before are nowhere read. -/
theorem run_encode_sized (codec : Codec Id) {p : Packet} {head : Head} {metadata : Metadata}
    (hhead : p.head = some head) (hmetadata : p.metadata = some metadata)
    (hsize : p.attachment.length ≤ sizeLimit) :
    Id.run (p.encode codec)
      = match Id.run (codec.serialize (metadata.sized p.attachment).toMessage) with
        | none =>
          ⟨{ p with metadata := some (metadata.sized p.attachment) }, .error .unserializable⟩
        | some serialized =>
          if sizeLimit < bodyLength serialized p.data p.attachment then
            ⟨{ p with metadata := some (metadata.sized p.attachment) }, .error .bodyTooLarge⟩
          else
            ⟨{ p with
                head := some (head.sized serialized p.data p.attachment)
                metadata := some (metadata.sized p.attachment) },
              .ok (head.layout serialized p.data p.attachment)⟩ := by
  have hsized : { metadata with attachmentSize := .ofNat p.attachment.length }
      = metadata.sized p.attachment := rfl
  rw [run_encode codec hhead hmetadata hsize]
  simp only [hsized, Metadata.run_encode]
  cases Id.run (codec.serialize (metadata.sized p.attachment).toMessage) with
  | none => rfl
  | some serialized => rfl

/-- **What a successful writing amounts to**: the packet had a head and metadata, the metadata was
serialized with the true size of the attachment in it, the body fits, and the frame is laid out
under the true sizes. -/
theorem exists_of_run_encode_eq_ok {codec : Codec Id} {p p' : Packet} {frame : Bytes}
    (h : Id.run (p.encode codec) = ⟨p', .ok frame⟩) :
    ∃ head metadata serialized, p.head = some head ∧ p.metadata = some metadata ∧
      Id.run (codec.serialize (metadata.sized p.attachment).toMessage) = some serialized ∧
      bodyLength serialized p.data p.attachment ≤ sizeLimit ∧
      p' = { p with
        head := some (head.sized serialized p.data p.attachment)
        metadata := some (metadata.sized p.attachment) } ∧
      frame = head.layout serialized p.data p.attachment := by
  cases hhead : p.head with
  | none =>
    simp only [encode, hhead] at h
    cases h
  | some head =>
    cases hmetadata : p.metadata with
    | none =>
      simp only [encode, hhead, hmetadata] at h
      cases h
    | some metadata =>
      by_cases hsize : p.attachment.length ≤ sizeLimit
      · rw [run_encode_sized codec hhead hmetadata hsize] at h
        cases hs : Id.run (codec.serialize (metadata.sized p.attachment).toMessage) with
        | none =>
          rw [hs] at h
          cases h
        | some serialized =>
          rw [hs] at h
          simp only at h
          split at h
          · cases h
          · next hbody =>
            cases h
            exact ⟨head, metadata, serialized, rfl, rfl, hs, Nat.le_of_not_lt hbody, rfl, rfl⟩
      · simp only [encode, hhead, hmetadata, if_pos (Nat.lt_of_not_le hsize)] at h
        cases h

/-- The frame of a packet hangs only on its magic code, its data, its attachment and what its
metadata says beside the size of the attachment. -/
theorem encode_outcome_congr (codec : Codec Id) {p q : Packet} {h₁ h₂ : Head} {x₁ x₂ : Metadata}
    (hp : p.head = some h₁) (hp' : p.metadata = some x₁)
    (hq : q.head = some h₂) (hq' : q.metadata = some x₂) (hmagic : h₁.magic = h₂.magic)
    (hmetadata : x₁.sized p.attachment = x₂.sized p.attachment)
    (hdata : p.data = q.data) (hattachment : p.attachment = q.attachment) :
    (Id.run (p.encode codec)).outcome = (Id.run (q.encode codec)).outcome := by
  by_cases hsize : p.attachment.length ≤ sizeLimit
  · rw [run_encode_sized codec hp hp' hsize, run_encode_sized codec hq hq' (hattachment ▸ hsize),
      ← hattachment, ← hdata, ← hmetadata]
    cases Id.run (codec.serialize (x₁.sized p.attachment).toMessage) with
    | none => rfl
    | some serialized =>
      simp only
      split
      · rfl
      · simp only [Head.layout, Head.sized, hmagic]
  · have hsize' : sizeLimit < q.attachment.length := hattachment ▸ Nat.lt_of_not_le hsize
    simp only [encode, hp, hp', hq, hq', if_pos hsize', if_pos (Nat.lt_of_not_le hsize)]
    rfl

/-! ### Reading -/

section Layout

variable {serialized data attachment : Bytes}
  (hbody : bodyLength serialized data attachment ≤ sizeLimit) (head : Head)

include hbody

theorem takeMetadata_sized (rest : Bytes) :
    (head.sized serialized data attachment).takeMetadata (serialized ++ rest)
      = .ok (serialized, rest) := by
  have hs := length_serialized_le hbody
  rw [Head.takeMetadata, Head.sized, if_neg (not_ofNat_neg hs),
    toNatClampNeg_ofNat_of_le_sizeLimit hs, takePart_eq_ok_iff]
  exact ⟨rfl, rfl⟩

theorem takePayload_sized (rest : Bytes) :
    (head.sized serialized data attachment).takePayload (.ofNat attachment.length)
        (data ++ (attachment ++ rest))
      = .ok (data, attachment) := by
  have ha := length_attachment_le hbody
  have hd := dataSize_sized hbody head
  have hneg : ¬ (head.sized serialized data attachment).dataSize (.ofNat attachment.length) < 0 := by
    rw [Int64.lt_iff_toInt_lt, hd]
    simp
  have hlen : ((head.sized serialized data attachment).dataSize
      (.ofNat attachment.length)).toNatClampNeg = data.length := by
    rw [Int64.toNatClampNeg, hd, Int.toNat_natCast]
  have htake : takePart .data data.length (data ++ (attachment ++ rest))
      = .ok (data, attachment ++ rest) := takePart_eq_ok_iff.2 ⟨rfl, rfl⟩
  have htake' : takePart .attachment attachment.length (attachment ++ rest)
      = .ok (attachment, rest) := takePart_eq_ok_iff.2 ⟨rfl, rfl⟩
  rw [Head.takePayload, if_neg (not_ofNat_neg ha), if_neg hneg, hlen, htake,
    toNatClampNeg_ofNat_of_le_sizeLimit ha]
  show (takePart .attachment attachment.length (attachment ++ rest) >>= _) = _
  rw [htake']
  rfl

/-- **Reading a frame that is laid out under the true sizes** gives the parts that were put into
it. -/
theorem run_decode_layout {codec : Codec Id} (lawful : codec.Lawful) (now : Int64)
    {metadata : Metadata} (hmetadata : metadata.attachmentSize = .ofNat attachment.length)
    (hs : Id.run (codec.serialize metadata.toMessage) = some serialized) (rest : Bytes) :
    Id.run (decode codec now (.bytes (head.layout serialized data attachment ++ rest))).run
      = .ok {
          head := some (head.sized serialized data attachment)
          metadata := some metadata
          data
          attachment
          timestamp := now } := by
  have hencode : Id.run (metadata.encode codec).run = .ok serialized := by
    rw [Metadata.run_encode, hs]
  have hdecode := Metadata.run_decode_of_run_encode lawful (length_serialized_le hbody) hencode
  have hread : Head.read (head.layout serialized data attachment ++ rest)
      = .ok (head.sized serialized data attachment, serialized ++ (data ++ (attachment ++ rest))) := by
    rw [Head.layout, List.append_assoc, List.append_assoc, List.append_assoc, Head.read_toBytes_append]
  rw [run_decode, hread]
  show ((head.sized serialized data attachment).takeMetadata _ >>= _) = _
  rw [takeMetadata_sized hbody head]
  show (Id.run (Metadata.decode codec (.bytes serialized)).run >>= _) = _
  rw [hdecode]
  show ((head.sized serialized data attachment).takePayload metadata.attachmentSize _ >>= _) = _
  rw [hmetadata, takePayload_sized hbody head]
  rfl

end Layout

end Packet

/-! ### Codecs of finitely many messages -/

namespace Codec

/-- The codec that knows the messages of a table and no others. -/
def ofTable (table : List (Message × Bytes)) : Codec Id where
  serialize message := table.lookup message
  parse bytes := (table.find? fun entry => entry.2 = bytes).map Prod.fst

theorem snd_mem_of_lookup {table : List (Message × Bytes)} {message : Message} {bytes : Bytes}
    (h : table.lookup message = some bytes) : bytes ∈ table.map Prod.snd := by
  induction table with
  | nil => cases h
  | cons entry table ih =>
    rw [List.lookup_cons] at h
    split at h
    · cases h
      simp
    · exact List.mem_cons_of_mem _ (ih h)

/-- A table in which no byte string stands twice is a lawful codec. -/
theorem lawful_ofTable {table : List (Message × Bytes)} (h : (table.map Prod.snd).Nodup) :
    (ofTable table).Lawful := by
  intro message bytes hs
  show (table.find? fun entry => entry.2 = bytes).map Prod.fst = some message
  replace hs : table.lookup message = some bytes := hs
  induction table with
  | nil => cases hs
  | cons entry table ih =>
    rw [List.map_cons, List.nodup_cons] at h
    rw [List.lookup_cons] at hs
    split at hs
    · next heq =>
      cases hs
      rw [List.find?_cons_of_pos (by simp), Option.map_some, ← eq_of_beq heq]
    · have hne : entry.2 ≠ bytes := fun he => h.1 (he ▸ snd_mem_of_lookup hs)
      rw [List.find?_cons_of_neg (by simpa using hne)]
      exact ih h.2 hs

end Codec

/-! ### Writing, then reading -/

namespace Packet

/-- **Reading undoes writing.** A frame that was written is as long as its head says, the sizes that
the writer left in the packet are the true ones, nothing else in the packet was changed, and reading
the frame, with anything behind it, gives the packet that the writer left. -/
theorem decode_encode_append {codec : Codec Id} (lawful : codec.Lawful) {p p' : Packet}
    {head : Head} {metadata : Metadata} {frame : Bytes}
    (hhead : p.head = some head) (hmetadata : p.metadata = some metadata)
    (h : Id.run (p.encode codec) = ⟨p', .ok frame⟩) :
    ∃ (head' : Head) (metadata' : Metadata) (serialized : Bytes),
      p'.head = some head' ∧ p'.metadata = some metadata' ∧
      Id.run (codec.serialize metadata'.toMessage) = some serialized ∧
      (frame.length : Int) = 12 + head'.totalSize.toInt ∧
      head'.metadataSize.toInt = serialized.length ∧
      head'.totalSize.toInt
        = head'.metadataSize.toInt + p.data.length + p.attachment.length ∧
      metadata'.attachmentSize.toInt = p.attachment.length ∧
      p'.data = p.data ∧ p'.attachment = p.attachment ∧ p'.timestamp = p.timestamp ∧
      head'.magic = head.magic ∧
      { metadata' with attachmentSize := metadata.attachmentSize } = metadata ∧
      ∀ (now : Int64) (rest : Bytes),
        Id.run (decode codec now (.bytes (frame ++ rest))).run
          = .ok { p' with timestamp := now } := by
  obtain ⟨head₀, metadata₀, serialized, hhead₀, hmetadata₀, hs, hbody, rfl, rfl⟩ :=
    exists_of_run_encode_eq_ok h
  obtain rfl : head₀ = head := Option.some.inj (hhead₀.symm.trans hhead)
  obtain rfl : metadata₀ = metadata := Option.some.inj (hmetadata₀.symm.trans hmetadata)
  have htotal := toInt_totalSize_sized hbody head₀
  have hmeta := toInt_metadataSize_sized hbody head₀
  refine ⟨_, _, serialized, rfl, rfl, hs, ?_, hmeta, ?_,
    toInt_ofNat_of_le_sizeLimit (length_attachment_le hbody), rfl, rfl, rfl, rfl, rfl, ?_⟩
  · rw [htotal]
    simp only [Head.layout, List.length_append, Head.length_toBytes, Head.size]
    omega
  · rw [htotal, hmeta]
  · intro now rest
    exact run_decode_layout hbody head₀ lawful now rfl hs rest

/-- A request with a present but empty proof of who is calling, with an attachment of one byte, and
with sizes left over from elsewhere. -/
def sample : Packet where
  head := some { totalSize := 99, metadataSize := -1 }
  metadata := some
    { request := some { serviceName := "E", methodName := "m" }
      correlationId := 7
      attachmentSize := 5
      authenticationData := some [] }
  data := [1, 2, 3]
  attachment := [0xAA]

/-- The metadata of `sample`, as it stands when the size of its attachment is written into it. -/
def sampleMetadata : Metadata where
  request := some { serviceName := "E", methodName := "m" }
  correlationId := 7
  attachmentSize := 1
  authenticationData := some []

/-- The serialized metadata of `sample`. -/
def sampleBytes : Bytes :=
  [0x0A, 0x0E, 0x0A, 0x01, 0x45, 0x12, 0x01, 0x6D, 0x18, 0, 0x20, 0, 0x28, 0, 0x30, 0,
    0x18, 0, 0x20, 7, 0x28, 1, 0x3A, 0]

/-- A codec that knows the metadata of `sample`. -/
def sampleCodec : Codec Id := .ofTable [(sampleMetadata.toMessage, sampleBytes)]

theorem lawful_sampleCodec : sampleCodec.Lawful := Codec.lawful_ofTable (by decide)

/-- The frame of `sample`: the magic code, the sizes 28 and 24, the metadata, three bytes of data
and the attachment. -/
def sampleFrame : Bytes :=
  [0x50, 0x52, 0x50, 0x43, 0, 0, 0, 28, 0, 0, 0, 24] ++ sampleBytes ++ [1, 2, 3] ++ [0xAA]

/-- What writing leaves of `sample`. -/
def sampleSized : Packet :=
  { sample with
    head := some { totalSize := 28, metadataSize := 24 }
    metadata := some sampleMetadata }

theorem run_encode_sample : Id.run (sample.encode sampleCodec) = ⟨sampleSized, .ok sampleFrame⟩ :=
  rfl

/-- `decode_encode_append` on `sample`, with two bytes behind the frame. -/
theorem decode_sampleFrame_append :
    sampleCodec.Lawful ∧ Id.run (sample.encode sampleCodec) = ⟨sampleSized, .ok sampleFrame⟩ ∧
      Id.run (decode sampleCodec 3 (.bytes (sampleFrame ++ [7, 7]))).run
        = .ok { sampleSized with timestamp := 3 } := by
  refine ⟨lawful_sampleCodec, run_encode_sample, ?_⟩
  obtain ⟨_, _, _, -, -, -, -, -, -, -, -, -, -, -, -, hdecode⟩ :=
    decode_encode_append lawful_sampleCodec (p := sample) rfl rfl run_encode_sample
  exact hdecode 3 [7, 7]

end Packet

end RpcFraming
