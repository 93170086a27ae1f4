/-!
# Faults

Everything that can go wrong between a packet and its bytes, as a cause. A cause belongs to one of
three kinds: the packet is not in a state to be sent, a caller passed something unusable, or the
bytes do not form what they should. `Fault.message` is the one place where a cause becomes text.
-/

namespace RpcFraming

/-- The parts of a frame, in the order in which they are sent. -/
inductive Part where
  /-- The fixed-size head. -/
  | head
  /-- The serialized metadata. -/
  | metadata
  /-- The call's argument or result. -/
  | data
  /-- The bytes that travel beside the data. -/
  | attachment
  deriving Repr, DecidableEq

/-- The sizes by which a frame is laid out. -/
inductive Extent where
  /-- Everything after the head. -/
  | total
  /-- The metadata. -/
  | metadata
  /-- The attachment. -/
  | attachment
  /-- What the other three leave for the data. -/
  | data
  deriving Repr, DecidableEq

/-- The causes of a failure. -/
inductive Fault where
  /-- A packet without a head was to be encoded. -/
  | missingHead
  /-- A packet without metadata was to be encoded. -/
  | missingMetadata
  /-- A magic code of other than four bytes was given. -/
  | magicLength
  /-- A head was to be read from a buffer whose bytes were not supplied. -/
  | unsuppliedHead
  /-- A packet was to be read from a buffer whose bytes were not supplied. -/
  | unsuppliedPacket
  /-- The bytes end before the end of a part. -/
  | incomplete (part : Part)
  /-- A size that has to be a count is negative. -/
  | negative (extent : Extent)
  /-- A head announces a body larger than the receiver accepts. -/
  | totalAboveLimit
  /-- The attachment has more bytes than a size field can say. -/
  | attachmentTooLarge
  /-- The body has more bytes than a size field can say. -/
  | bodyTooLarge
  /-- The codec cannot serialize the metadata. -/
  | unserializable
  /-- The serialized metadata has more bytes than a size field can say. -/
  | metadataTooLarge
  /-- The codec cannot parse the metadata. -/
  | unparsable
  /-- The data of a chunk stream is larger than the receiver accepts. -/
  | streamAboveLimit
  deriving Repr, DecidableEq

namespace Fault

/-- Whose mistake a fault is. -/
inductive Kind where
  /-- The packet lacks what the operation needs. -/
  | state
  /-- The caller passed something unusable. -/
  | argument
  /-- The bytes, or what they would have to be, break the format. -/
  | format
  deriving Repr, DecidableEq

/-- The kind to which a cause belongs. -/
def kind : Fault → Kind
  | missingHead | missingMetadata => .state
  | magicLength | unsuppliedHead | unsuppliedPacket => .argument
  | _ => .format

/-- The text that tells a user about a cause. -/
def message : Fault → String
  | missingHead => "Packet head is missing"
  | missingMetadata => "Packet meta is missing"
  | magicLength => "Magic code must be exactly 4 bytes"
  | unsuppliedHead => "Head data is null"
  | unsuppliedPacket => "Packet data is null"
  | incomplete .head => "Incomplete head"
  | incomplete .metadata => "Incomplete meta"
  | incomplete .data => "Incomplete data"
  | incomplete .attachment => "Incomplete attachment"
  | negative .total => "Negative total size"
  | negative .metadata => "Negative meta size"
  | negative .attachment => "Negative attachment size"
  | negative .data => "Negative data size"
  | totalAboveLimit => "Total size exceeds maximum body size"
  | attachmentTooLarge => "Attachment too large"
  | bodyTooLarge => "Packet body too large"
  | unserializable => "Failed to serialize RpcMeta"
  | metadataTooLarge => "RpcMeta too large"
  | unparsable => "Failed to parse RpcMeta"
  | streamAboveLimit => "Chunk stream exceeds maximum body size"

end Fault

end RpcFraming
