import RpcFraming.Proofs.Acceptance
import RpcFraming.Proofs.Transmission

/-!
# Frames from elsewhere, written again

A frame that is received need not have been written here. Its metadata may be spelled in any way that
the codec parses, and bytes may follow it. This module decodes such a frame and encodes the packet.
What was decoded agrees with the frame in all sizes (`Frame.WellFormed.sized_front`), so encoding has
nothing to correct but the spelling of the metadata. The frame that comes of it is a normal form: it
is decoded to the same packet and encoded to itself.

## What is proved

* `Frame.WellFormed.take_size_eq_layout`: a well-formed frame is laid out as the writer lays out its
  own frames, with the metadata in the frame's own spelling.
* `Packet.encode_sized`: a packet that was written is written once more to the same frame and is
  left as it is.
* `Frame.reencoded`: encoding what was decoded normalizes the frame, and gives back the same bytes
  exactly if the metadata was spelled as the codec spells it.

The codec is assumed to parse what it serialized.
-/

namespace RpcFraming

/-! ### Writing once more -/

theorem ofNat_eq_of_toInt_eq {a : Int32} {n : Nat} (h : a.toInt = n) : Int32.ofNat n = a := by
  rw [← Int32.ofInt_eq_ofNat, ← h, Int32.ofInt_toInt]

@[simp] theorem Head.layout_sized (head : Head) (serialized data attachment : Bytes) :
    (head.sized serialized data attachment).layout serialized data attachment
      = head.layout serialized data attachment := rfl

/-- Under the same head, with the same data and attachment, frames differ by their metadata. -/
theorem Head.layout_left_inj {head : Head} {serialized serialized' data attachment : Bytes} :
    head.layout serialized data attachment = head.layout serialized' data attachment ↔
      serialized = serialized' := by
  constructor
  · intro h
    have hfront := List.append_cancel_right (List.append_cancel_right h)
    exact (List.append_inj hfront (by rw [length_toBytes, length_toBytes])).2
  · rintro rfl
    rfl

namespace Packet

variable {codec : Codec Id}

/-- A packet whose sizes are the true ones is left as it is when it is written. -/
theorem run_encode_of_sized {p : Packet} {head : Head} {metadata : Metadata} {serialized : Bytes}
    (hhead : p.head = some head) (hmetadata : p.metadata = some metadata)
    (hsized : head.sized serialized p.data p.attachment = head)
    (hsized' : metadata.sized p.attachment = metadata)
    (hs : Id.run (codec.serialize metadata.toMessage) = some serialized)
    (hbody : bodyLength serialized p.data p.attachment ≤ sizeLimit) :
    Id.run (p.encode codec) = ⟨p, .ok (head.layout serialized p.data p.attachment)⟩ := by
  rw [run_encode_sized codec hhead hmetadata (length_attachment_le hbody), hsized', hs]
  simp only [if_neg (Nat.not_lt.2 hbody), hsized, ← hhead, ← hmetadata]

/-- A packet that was written is written to the same frame, and its sizes stay as they are. -/
theorem encode_sized {p p' : Packet} {frame : Bytes}
    (h : Id.run (p.encode codec) = ⟨p', .ok frame⟩) (now : Int64) :
    Id.run ({ p' with timestamp := now }.encode codec)
      = ⟨{ p' with timestamp := now }, .ok frame⟩ := by
  obtain ⟨head, metadata, serialized, -, -, hs, hbody, rfl, rfl⟩ := exists_of_run_encode_eq_ok h
  rw [← Head.layout_sized]
  exact run_encode_of_sized rfl rfl rfl rfl hs hbody

end Packet

namespace Frame

variable {codec : Codec Id} {b : Bytes}

/-! ### The layout of a frame from elsewhere -/

/-- The metadata as it is spelled in a frame. -/
def metadataBytes (b : Bytes) : Bytes := between b 12 (12 + metadataSize b)

/-- The data of a frame. -/
def dataBytes (codec : Codec Id) (b : Bytes) : Bytes :=
  between b (12 + metadataSize b) (12 + totalSize b - attachmentSize codec b)

/-- The attachment of a frame. -/
def attachmentBytes (codec : Codec Id) (b : Bytes) : Bytes :=
  between b (12 + totalSize b - attachmentSize codec b) (12 + totalSize b)

theorem length_between {i j : Int} (hi : 0 ≤ i) (hij : i ≤ j) (hj : j ≤ b.length) :
    ((between b i j).length : Int) = j - i := by
  rw [between, List.extract_eq_take_drop, List.length_take, List.length_drop]
  omega

/-- Bytes up to one place and from there to another are the bytes up to the other. -/
theorem take_append_between {i j : Int} (hij : i ≤ j) :
    b.take i.toNat ++ between b i j = b.take j.toNat := by
  have hsum : j.toNat = i.toNat + (j.toNat - i.toNat) := by omega
  rw [between, List.extract_eq_take_drop, hsum, List.take_add, Nat.add_sub_cancel_left]

theorem toBytes_front (h : 12 ≤ b.length) : (Head.front b).toBytes = b.take 12 := by
  have hb := Head.eq_of_read_eq_ok (Head.read_of_le h)
  have htake := congrArg (List.take Head.size) hb
  rw [List.take_left' (Head.length_toBytes _)] at htake
  exact htake.symm

namespace WellFormed

variable (h : WellFormed codec b)

include h

/-- The parts lie one behind the other. -/
theorem places_le :
    12 ≤ 12 + metadataSize b ∧
      12 + metadataSize b ≤ 12 + totalSize b - attachmentSize codec b ∧
      12 + totalSize b - attachmentSize codec b ≤ 12 + totalSize b := by
  have hmetadata := h.metadataSize_nonneg
  have hattachment := h.attachmentSize_nonneg
  have hpayload := h.payload_le
  omega

theorem length_metadataBytes : ((metadataBytes b).length : Int) = metadataSize b := by
  obtain ⟨hmetadata, -, -⟩ := h.places_le
  rw [metadataBytes, length_between (by decide) hmetadata h.metadata_le]
  omega

theorem length_attachmentBytes :
    ((attachmentBytes codec b).length : Int) = attachmentSize codec b := by
  obtain ⟨hmetadata, hdata, hattachment⟩ := h.places_le
  rw [attachmentBytes, length_between (by omega) hattachment h.total_le]
  omega

/-- The three parts make up the body. -/
theorem bodyLength_eq :
    (bodyLength (metadataBytes b) (dataBytes codec b) (attachmentBytes codec b) : Int)
      = totalSize b := by
  obtain ⟨hmetadata, hdata, hattachment⟩ := h.places_le
  have hlength : ((dataBytes codec b).length : Int)
      = 12 + totalSize b - attachmentSize codec b - (12 + metadataSize b) :=
    length_between (by omega) hdata (Int.le_trans hattachment h.total_le)
  rw [bodyLength, Int.natCast_add, Int.natCast_add, h.length_metadataBytes, hlength,
    h.length_attachmentBytes]
  omega

/-- The metadata says the size of the attachment that is cut out. -/
theorem exists_metadata :
    ∃ x, metadata? codec b = some x ∧ x.sized (attachmentBytes codec b) = x := by
  obtain ⟨x, hx⟩ := Option.isSome_iff_exists.1 h.isSome_metadata
  have hsize : x.attachmentSize.toInt = (attachmentBytes codec b).length := by
    rw [h.length_attachmentBytes, attachmentSize, hx, Option.map_some, Option.getD_some]
  refine ⟨x, hx, ?_⟩
  rw [Metadata.sized, ofNat_eq_of_toInt_eq hsize]

/-- The head says the sizes of the parts that are cut out. -/
theorem sized_front :
    (Head.front b).sized (metadataBytes b) (dataBytes codec b) (attachmentBytes codec b)
      = Head.front b := by
  have htotal : (Head.front b).totalSize.toInt
      = bodyLength (metadataBytes b) (dataBytes codec b) (attachmentBytes codec b) :=
    h.bodyLength_eq.symm
  have hmetadata : (Head.front b).metadataSize.toInt = (metadataBytes b).length :=
    h.length_metadataBytes.symm
  rw [Head.sized, ofNat_eq_of_toInt_eq htotal, ofNat_eq_of_toInt_eq hmetadata]

/-- **A well-formed frame is laid out like one that is written here**, with the metadata as it is
spelled in the frame. -/
theorem take_size_eq_layout :
    b.take (size b)
      = (Head.front b).layout (metadataBytes b) (dataBytes codec b) (attachmentBytes codec b) := by
  obtain ⟨hmetadata, hdata, hattachment⟩ := h.places_le
  have hsize : size b = (12 + totalSize b).toNat := by
    rw [size]
    omega
  have hfront : (Head.front b).toBytes = b.take (12 : Int).toNat := toBytes_front h.head_le
  rw [Head.layout, h.sized_front, hfront, metadataBytes, dataBytes, attachmentBytes,
    take_append_between hmetadata, take_append_between hdata, take_append_between hattachment,
    hsize]

end WellFormed

/-! ### Writing what was read -/

/-- **Encoding a packet that was decoded normalizes its frame.** Writing leaves the metadata as it
was read, the size of the attachment included. The frame that is written is decoded, whenever this is
done, to a packet that has the same magic code, metadata, data and attachment and is encoded to this
frame again. The frame is the one that was read exactly if the metadata was spelled in it as the
codec spells it. -/
theorem reencoded (lawful : codec.Lawful) {now : Int64} {p p' : Packet} {frame : Bytes}
    (hdecoded : decoded codec now b = .ok p)
    (hencode : Id.run (p.encode codec) = ⟨p', .ok frame⟩) :
    p'.metadata = p.metadata ∧
    (∀ now', ∃ q, decoded codec now' frame = .ok q ∧
      q.head.map Head.magic = p.head.map Head.magic ∧ q.metadata = p.metadata ∧ q.data = p.data ∧
      q.attachment = p.attachment ∧ Id.run (q.encode codec) = ⟨q, .ok frame⟩) ∧
    (frame = b.take (size b) ↔ ∃ x, p.metadata = some x ∧
      Id.run (codec.serialize x.toMessage) = some (metadataBytes b)) := by
  obtain ⟨hwell, rfl⟩ := decoded_eq_ok_iff.1 hdecoded
  obtain ⟨x, hx, hsized⟩ := hwell.exists_metadata
  obtain ⟨head, metadata, serialized, hhead, hmetadata, hs, hbody, rfl, rfl⟩ :=
    Packet.exists_of_run_encode_eq_ok hencode
  obtain rfl : Head.front b = head := Option.some.inj hhead
  obtain rfl : x = metadata := Option.some.inj (hx.symm.trans hmetadata)
  replace hsized : x.sized (packet codec now b).attachment = x := hsized
  rw [hsized] at hs
  have hkept : some (x.sized (packet codec now b).attachment) = (packet codec now b).metadata := by
    rw [hsized, hmetadata]
  refine ⟨hkept, fun now' => ?_, ?_⟩
  · have hdecode := Packet.run_decode_of_run_encode lawful hencode now'
    exact ⟨_, hdecode, rfl, hkept, rfl, rfl, Packet.encode_sized hencode now'⟩
  · -- both frames have the layout of the writer, and only the metadata may be spelled otherwise
    have hsame : (Head.front b).layout serialized (dataBytes codec b) (attachmentBytes codec b)
        = b.take (size b) ↔ serialized = metadataBytes b := by
      rw [hwell.take_size_eq_layout, Head.layout_left_inj]
    refine hsame.trans ⟨?_, ?_⟩
    · rintro rfl
      exact ⟨x, hmetadata, hs⟩
    · rintro ⟨y, hy, hspelled⟩
      obtain rfl : x = y := Option.some.inj (hmetadata.symm.trans hy)
      exact Option.some.inj (hs.symm.trans hspelled)

/-- A message that says no more than the metadata of `Packet.sample`. -/
def terseMessage : Message where
  request := some
    { serviceName := "E", methodName := "m", logId := none, traceId := none, spanId := none,
      parentSpanId := none, extFields := [], traceKey := none, extraParam := none }
  response := none
  compressType := none
  correlationId := some 7
  attachmentSize := some 1
  chunkInfo := none
  authenticationData := some []

/-- The bytes of `terseMessage`. -/
def terseBytes : Bytes := [0x0A, 6, 0x0A, 1, 0x45, 0x12, 1, 0x6D, 0x20, 7, 0x28, 1, 0x3A, 0]

/-- A codec that knows the metadata of `Packet.sample` in both spellings. -/
def terseCodec : Codec Id :=
  .ofTable [(Packet.sampleMetadata.toMessage, Packet.sampleBytes), (terseMessage, terseBytes)]

/-- A frame that carries what `Packet.sampleFrame` carries, in fewer bytes. -/
def terseFrame : Bytes :=
  [0x50, 0x52, 0x50, 0x43, 0, 0, 0, 18, 0, 0, 0, 14] ++ terseBytes ++ [1, 2, 3] ++ [0xAA]

/-- `reencoded` on `terseFrame` with a byte behind it: what is written is `Packet.sampleFrame`. -/
theorem reencoded_terseFrame :
    terseCodec.Lawful ∧
      decoded terseCodec 3 (terseFrame ++ [7])
        = .ok { Packet.sampleSized with
            head := some { totalSize := 18, metadataSize := 14 }, timestamp := 3 } ∧
      Id.run ({ Packet.sampleSized with
            head := some { totalSize := 18, metadataSize := 14 }, timestamp := 3 }.encode terseCodec)
        = ⟨{ Packet.sampleSized with timestamp := 3 }, .ok Packet.sampleFrame⟩ ∧
      (∃ q, decoded terseCodec 5 Packet.sampleFrame = .ok q ∧ q.data = [1, 2, 3] ∧
        Id.run (q.encode terseCodec) = ⟨q, .ok Packet.sampleFrame⟩) ∧
      Packet.sampleFrame ≠ (terseFrame ++ [7]).take (size (terseFrame ++ [7])) := by
  have lawful : terseCodec.Lawful := Codec.lawful_ofTable (by decide)
  have hdecoded : decoded terseCodec 3 (terseFrame ++ [7])
      = .ok { Packet.sampleSized with
          head := some { totalSize := 18, metadataSize := 14 }, timestamp := 3 } := rfl
  have hencode : Id.run ({ Packet.sampleSized with
          head := some { totalSize := 18, metadataSize := 14 }, timestamp := 3 }.encode terseCodec)
      = ⟨{ Packet.sampleSized with timestamp := 3 }, .ok Packet.sampleFrame⟩ := rfl
  obtain ⟨-, hagain, hsame⟩ := reencoded lawful hdecoded hencode
  obtain ⟨q, hq, -, -, hdata, -, hstable⟩ := hagain 5
  refine ⟨lawful, hdecoded, hencode, ⟨q, hq, hdata, hstable⟩, fun h => ?_⟩
  obtain ⟨x, hx, hspelled⟩ := hsame.1 h
  cases hx
  have hbytes : some Packet.sampleBytes = some (metadataBytes (terseFrame ++ [7])) := hspelled
  exact absurd hbytes (by decide)

end Frame

end RpcFraming
