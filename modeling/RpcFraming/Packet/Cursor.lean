import RpcFraming.Packet.Wire

/-!
# Reading at an offset

The reader of a frame as a machine runs it. The buffer stays as it is and an offset moves over it;
offsets and sizes are words of 64 bits. Two things could happen here that cannot in
`Packet.decode`: a slice could lie outside the buffer, and the difference that says how many bytes
are left could wrap around. Either one has no result at all, not even a fault.
-/

namespace RpcFraming.Cursor

/-- A step of reading. It can go astray, which is to have no result, or end with a fault. -/
abbrev Reading (α : Type) := ExceptT Fault Option α

/-- The step goes astray. -/
def astray {α : Type} : Reading α := ExceptT.mk none

/-- The `n` bytes at an offset. -/
def slice (b : Bytes) (offset n : UInt64) : Reading Bytes :=
  if offset.toNat + n.toNat ≤ b.length then return (b.drop offset.toNat).take n.toNat
  else astray

/-- The number of bytes behind an offset. -/
def remaining (offset size : UInt64) : Reading UInt64 :=
  if offset ≤ size then return size - offset else astray

/-- A part of a frame needs so many bytes behind an offset. -/
def checkRemaining (part : Part) (offset needed size : UInt64) : Reading Unit := do
  if (← remaining offset size) < needed then throw (.incomplete part)

/-- The number of bytes of a buffer, as a word. -/
def sizeOf (b : Bytes) : UInt64 := .ofNat b.length

/-- A part of a frame, cut off at an offset. -/
def cut (part : Part) (b : Bytes) (offset needed : UInt64) : Reading Bytes := do
  checkRemaining part offset needed (sizeOf b)
  slice b offset needed

/-- The head. -/
def readHead (b : Bytes) : Reading Head :=
  if sizeOf b < 12 then throw (.incomplete .head)
  else do
    let front ← slice b 0 12
    let (head, _) ← Head.read front
    return head

/-- The serialized metadata behind the head, and the offset after it. -/
def readMetadata (b : Bytes) (head : Head) : Reading (Bytes × UInt64) :=
  if head.metadataSize < 0 then throw (.negative .metadata)
  else do
    let needed := head.metadataSize.toInt64.toUInt64
    let serialized ← cut .metadata b 12 needed
    return (serialized, 12 + needed)

/-- A part of the payload. Nothing is looked for where there is nothing to read. -/
def readPart (part : Part) (b : Bytes) (offset needed : UInt64) : Reading Bytes :=
  if needed = 0 then return [] else cut part b offset needed

/-- The data and the attachment, which follow the metadata. -/
def readPayload (b : Bytes) (head : Head) (attachmentSize : Int32) (offset : UInt64) :
    Reading (Bytes × Bytes) :=
  if attachmentSize < 0 then throw (.negative .attachment)
  else if head.dataSize attachmentSize < 0 then throw (.negative .data)
  else do
    let dataSize := (head.dataSize attachmentSize).toUInt64
    let data ← readPart .data b offset dataSize
    let attachment ← readPart .attachment b (offset + dataSize) attachmentSize.toInt64.toUInt64
    return (data, attachment)

/-- The packet at the front of a buffer, received at the time `now`. -/
def decode (codec : Codec Id) (now : Int64) (b : Bytes) : Reading Packet := do
  let head ← readHead b
  let (serialized, offset) ← readMetadata b head
  let metadata ← (Id.run (Metadata.decode codec (.bytes serialized)).run : Except Fault Metadata)
  let (data, attachment) ← readPayload b head metadata.attachmentSize offset
  return { head := some head, metadata := some metadata, data, attachment, timestamp := now }

end RpcFraming.Cursor
