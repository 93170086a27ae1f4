import RpcFraming.Head
import RpcFraming.Metadata

/-!
# Packets

A packet is what one frame carries: a head, metadata, data and an attachment. Head and metadata may
be missing while a packet is being put together; empty data or an empty attachment means that there
is none. The timestamp is when the packet was made or received here, and is never sent.

What is proved: chunk info that is given to a packet is there, and chunk info that is cleared is gone.
-/

namespace RpcFraming

/-- The content of one frame. -/
structure Packet where
  /-- The head, if there is one yet. -/
  head : Option Head := none
  /-- The metadata, if there is any yet. -/
  metadata : Option Metadata := none
  /-- The serialized argument or result of the call. -/
  data : Bytes := []
  /-- Bytes that travel beside the data. -/
  attachment : Bytes := []
  /-- Milliseconds by the clock of this end. -/
  timestamp : Int64 := 0
  deriving Repr, DecidableEq

namespace Packet

/-! ### Looking into a packet -/

/-- The request that the packet makes, if it is one. -/
def request? (p : Packet) : Option Request := p.metadata.bind Metadata.request

/-- The service that is called; empty if the packet is not a request. -/
def serviceName (p : Packet) : Text := (p.request?.map Request.serviceName).getD ""

/-- The method that is called; empty if the packet is not a request. -/
def methodName (p : Packet) : Text := (p.request?.map Request.methodName).getD ""

/-- The log id of the request; 0 if the packet is not a request. -/
def logId (p : Packet) : Int64 := (p.request?.map Request.logId).getD 0

/-- The id that a response shares with its request; 0 if there is no metadata. -/
def correlationId (p : Packet) : Int64 := (p.metadata.map Metadata.correlationId).getD 0

/-- The packet's place in a chunk stream, if it is a chunk. -/
def chunkInfo? (p : Packet) : Option ChunkInfo := p.metadata.bind Metadata.chunkInfo

/-- The chunk stream that the packet belongs to, if it is a chunk. -/
def streamId? (p : Packet) : Option Int64 := p.chunkInfo?.map ChunkInfo.streamId

/-- The packet is a piece of a larger one. -/
def isChunk (p : Packet) : Bool := p.chunkInfo?.isSome

/-- No piece follows this packet: it is the last chunk of a stream or no chunk at all. -/
def isFinal (p : Packet) : Bool := p.chunkInfo?.all ChunkInfo.isFinal

/-! ### Changing a packet -/

/-- The same packet under a correlation id. -/
def withCorrelationId (p : Packet) (id : Int64) : Packet :=
  { p with metadata := some { p.metadata.getD {} with correlationId := id } }

/-- The same packet with more data after its own. -/
def appendData (p : Packet) (more : Bytes) : Packet := { p with data := p.data ++ more }

/-- The same packet, no longer marked as a chunk. -/
def clearChunkInfo (p : Packet) : Packet :=
  { p with metadata := p.metadata.map fun x => { x with chunkInfo := none } }

/-- The same packet with a given place in a chunk stream. -/
def withChunkInfo (p : Packet) (info : ChunkInfo) : Packet :=
  { p with metadata := some { p.metadata.getD {} with chunkInfo := some info } }

/-- The answer that a call failed: head and metadata of the request, with a response in place of the
request, and nothing after them. -/
def errorResponse (p : Packet) (code : Int32) (text : Text) (now : Int64) : Packet where
  head := p.head
  metadata := some { p.metadata.getD {} with
    request := none
    response := some { errorCode := code, errorText := text } }
  timestamp := now

@[simp] theorem chunkInfo?_clearChunkInfo (p : Packet) : p.clearChunkInfo.chunkInfo? = none := by
  cases h : p.metadata <;> simp [chunkInfo?, clearChunkInfo, h]

@[simp] theorem chunkInfo?_withChunkInfo (p : Packet) (info : ChunkInfo) :
    (p.withChunkInfo info).chunkInfo? = some info := rfl

theorem isChunk_iff {p : Packet} : p.isChunk = true ↔ ∃ info, p.chunkInfo? = some info := by
  simp [isChunk, Option.isSome_iff_exists]

end Packet

end RpcFraming
