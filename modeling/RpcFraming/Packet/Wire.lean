import RpcFraming.Codec
import RpcFraming.Packet

/-!
# Packets as frames

A frame is a head followed by the serialized metadata, the data and the attachment. The head says
how long the three are together and how long the metadata is, and the metadata says how long the
attachment is; the data is what is left. Encoding writes these sizes into the packet, whatever they
were before. Decoding reads one frame from the front of a buffer and ignores what follows it.

What is proved: a part is taken exactly if enough bytes are left, and the number of data bytes is
computed without overflow.
-/

namespace RpcFraming

variable {m : Type → Type} [Monad m]

/-! ### Writing -/

/-- What comes of encoding a packet: the packet with its sizes written into it as far as encoding
got, and the frame or the fault. -/
structure Encoded where
  /-- The packet afterwards. -/
  packet : Packet
  /-- The frame, or why there is none. -/
  outcome : Except Fault Bytes

namespace Packet

/-- A packet's frame once its metadata is serialized. The head is left alone if the body is too
large for it. -/
def toFrame (p : Packet) (head : Head) (serialized : Bytes) : Encoded :=
  let total := serialized.length + p.data.length + p.attachment.length
  if sizeLimit < total then ⟨p, .error .bodyTooLarge⟩
  else
    let head := { head with metadataSize := .ofNat serialized.length, totalSize := .ofNat total }
    ⟨{ p with head := some head }, .ok (head.toBytes ++ serialized ++ p.data ++ p.attachment)⟩

/-- Encode a packet. The size of the attachment stays in the metadata even if encoding then fails;
the sizes in the head change only if there is a frame. -/
def encode (codec : Codec m) (p : Packet) : m Encoded :=
  match p.head, p.metadata with
  | none, _ => pure ⟨p, .error .missingHead⟩
  | some _, none => pure ⟨p, .error .missingMetadata⟩
  | some head, some metadata =>
    if sizeLimit < p.attachment.length then pure ⟨p, .error .attachmentTooLarge⟩
    else do
      let metadata := { metadata with attachmentSize := .ofNat p.attachment.length }
      let p := { p with metadata := some metadata }
      match ← (metadata.encode codec).run with
      | .error fault => return ⟨p, .error fault⟩
      | .ok serialized => return p.toFrame head serialized

end Packet

/-! ### Reading -/

/-- The first `n` bytes as a part of a frame, and the bytes after them. -/
def takePart (part : Part) (n : Nat) (b : Bytes) : Except Fault (Bytes × Bytes) :=
  match b.split? n with
  | some r => .ok r
  | none => .error (.incomplete part)

theorem takePart_eq_ok_iff {part : Part} {n : Nat} {b first rest : Bytes} :
    takePart part n b = .ok (first, rest) ↔ first.length = n ∧ b = first ++ rest := by
  rw [← Bytes.split?_eq_some_iff]
  unfold takePart
  cases h : b.split? n <;> simp

theorem takePart_eq_error_iff {part : Part} {n : Nat} {b : Bytes} {fault : Fault} :
    takePart part n b = .error fault ↔ b.length < n ∧ fault = .incomplete part := by
  rw [← Bytes.split?_eq_none_iff]
  unfold takePart
  cases h : b.split? n <;> simp [eq_comm]

/-- The serialized metadata at the front of a frame's body, and the bytes after it. -/
def Head.takeMetadata (head : Head) (body : Bytes) : Except Fault (Bytes × Bytes) :=
  if head.metadataSize < 0 then .error (.negative .metadata)
  else takePart .metadata head.metadataSize.toNatClampNeg body

/-- The number of data bytes: what metadata and attachment leave of the total. It may come out
negative, and has room to do so in 64 bits. -/
def Head.dataSize (head : Head) (attachmentSize : Int32) : Int64 :=
  head.totalSize.toInt64 - head.metadataSize.toInt64 - attachmentSize.toInt64

/-- Sizes of 32 bits never overflow the 64 bits in which they are subtracted. -/
theorem Head.toInt_dataSize (head : Head) (attachmentSize : Int32) :
    (head.dataSize attachmentSize).toInt
      = head.totalSize.toInt - head.metadataSize.toInt - attachmentSize.toInt := by
  have ht := head.totalSize.toInt_lt
  have ht' := head.totalSize.le_toInt
  have hm := head.metadataSize.toInt_lt
  have hm' := head.metadataSize.le_toInt
  have ha := attachmentSize.toInt_lt
  have ha' := attachmentSize.le_toInt
  have hd : (head.totalSize.toInt64 - head.metadataSize.toInt64).toInt
      = head.totalSize.toInt - head.metadataSize.toInt := by
    rw [Int64.toInt_sub, Int32.toInt_toInt64, Int32.toInt_toInt64,
      Int.bmod_eq_of_le (by omega) (by omega)]
  rw [Head.dataSize, Int64.toInt_sub, hd, Int32.toInt_toInt64,
    Int.bmod_eq_of_le (by omega) (by omega)]

/-- The data and the attachment at the front of what follows the metadata. -/
def Head.takePayload (head : Head) (attachmentSize : Int32) (rest : Bytes) :
    Except Fault (Bytes × Bytes) :=
  if attachmentSize < 0 then .error (.negative .attachment)
  else if head.dataSize attachmentSize < 0 then .error (.negative .data)
  else do
    let (data, rest) ← takePart .data (head.dataSize attachmentSize).toNatClampNeg rest
    let (attachment, _) ← takePart .attachment attachmentSize.toNatClampNeg rest
    return (data, attachment)

namespace Packet

/-- The packet at the front of a buffer, received at the time `now`. -/
def decode (codec : Codec m) (now : Int64) (buffer : Buffer) : ExceptT Fault m Packet := do
  match buffer with
  | .announced _ => throw .unsuppliedPacket
  | .bytes b =>
    let (head, body) ← Head.read b
    let (serialized, rest) ← head.takeMetadata body
    let metadata ← Metadata.decode codec (.bytes serialized)
    let (data, attachment) ← head.takePayload metadata.attachmentSize rest
    return { head := some head, metadata := some metadata, data, attachment, timestamp := now }

end Packet

/-! ### Codecs without effects -/

namespace Packet

/-- Encoding a packet that has head and metadata, under a codec without effects. -/
theorem run_encode (codec : Codec Id) {p : Packet} {head : Head} {metadata : Metadata}
    (hhead : p.head = some head) (hmetadata : p.metadata = some metadata)
    (hsize : p.attachment.length ≤ sizeLimit) :
    Id.run (p.encode codec)
      = let metadata := { metadata with attachmentSize := .ofNat p.attachment.length }
        let p := { p with metadata := some metadata }
        match Id.run (metadata.encode codec).run with
        | .error fault => ⟨p, .error fault⟩
        | .ok serialized => p.toFrame head serialized := by
  have hsize' : ¬ sizeLimit < p.attachment.length := by omega
  simp only [encode, hhead, hmetadata, if_neg hsize']
  rfl

/-- Decoding supplied bytes, under a codec without effects. -/
theorem run_decode (codec : Codec Id) (now : Int64) (b : Bytes) :
    Id.run (decode codec now (.bytes b)).run
      = do
        let (head, body) ← Head.read b
        let (serialized, rest) ← head.takeMetadata body
        let metadata ← Id.run (Metadata.decode codec (.bytes serialized)).run
        let (data, attachment) ← head.takePayload metadata.attachmentSize rest
        return { head := some head, metadata := some metadata, data, attachment,
                 timestamp := now } := by
  simp only [decode, run_bind_of_id, run_liftM_of_id]
  rfl

end Packet

end RpcFraming
