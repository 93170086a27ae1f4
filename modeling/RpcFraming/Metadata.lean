import RpcFraming.Text

/-!
# Call metadata

What a packet says about the call that it belongs to. A request names the method that is called and
carries what the caller sends along; a response carries the result code. Beside them stand the
compression of the data, the id by which an answer is matched to its call, the size of the
attachment and, for a piece of a packet that was split, its place in the chunk stream.

All parts are compared by value, field by field (`==`): lists in order, and an absent part differs from
an empty one.

What is proved: the comparison misses no field, so `==` is equality.
-/

namespace RpcFraming

/-! ### Requests -/

/-- Where a request stands in a distributed trace. -/
structure Trace where
  /-- The trace as a whole. -/
  traceId : Int64 := 0
  /-- A key by which the trace is found again. -/
  traceKey : Text := ""
  /-- This call within the trace. -/
  spanId : Int64 := 0
  /-- The call from which this one was made. -/
  parentSpanId : Int64 := 0
  deriving Repr, DecidableEq

/-- Traces are compared by all they say. -/
instance : BEq Trace where
  beq a b := a.traceId == b.traceId && a.traceKey == b.traceKey && a.spanId == b.spanId
    && a.parentSpanId == b.parentSpanId

theorem Trace.beq_eq (a b : Trace) :
    (a == b) = (a.traceId == b.traceId && a.traceKey == b.traceKey && a.spanId == b.spanId
      && a.parentSpanId == b.parentSpanId) := rfl

instance : LawfulBEq Trace where
  rfl {a} := by simp [Trace.beq_eq]
  eq_of_beq {a b} h := by
    cases a
    cases b
    simpa [Trace.beq_eq, and_assoc] using h

/-- A named value that the caller adds to a request. -/
structure ExtField where
  /-- The name. -/
  key : Text
  /-- The value. -/
  value : Text
  deriving Repr, DecidableEq

/-- Added values are compared by name and value. -/
instance : BEq ExtField where
  beq a b := a.key == b.key && a.value == b.value

theorem ExtField.beq_eq (a b : ExtField) : (a == b) = (a.key == b.key && a.value == b.value) := rfl

instance : LawfulBEq ExtField where
  rfl {a} := by simp [ExtField.beq_eq]
  eq_of_beq {a b} h := by
    cases a
    cases b
    simpa [ExtField.beq_eq] using h

/-- What a request says. -/
structure Request where
  /-- The service that is called. -/
  serviceName : Text := ""
  /-- The method of the service. -/
  methodName : Text := ""
  /-- The id under which both ends log the call. -/
  logId : Int64 := 0
  /-- The request's place in a trace. -/
  trace : Trace := {}
  /-- Added values, in the order in which they were added. -/
  extFields : List ExtField := []
  /-- Bytes of the caller's own. -/
  extraParam : Bytes := []
  deriving Repr, DecidableEq

/-- Requests are compared by all they say; the added values have to come in the same order. -/
instance : BEq Request where
  beq a b := a.serviceName == b.serviceName && a.methodName == b.methodName && a.logId == b.logId
    && a.trace == b.trace && a.extFields == b.extFields && a.extraParam == b.extraParam

theorem Request.beq_eq (a b : Request) :
    (a == b) = (a.serviceName == b.serviceName && a.methodName == b.methodName
      && a.logId == b.logId && a.trace == b.trace && a.extFields == b.extFields
      && a.extraParam == b.extraParam) := rfl

instance : LawfulBEq Request where
  rfl {a} := by simp [Request.beq_eq]
  eq_of_beq {a b} h := by
    cases a
    cases b
    simpa [Request.beq_eq, and_assoc] using h

/-! ### Responses -/

/-- What a response says. -/
structure Response where
  /-- 0 for success. -/
  errorCode : Int32 := 0
  /-- The error in words. -/
  errorText : Text := ""
  deriving Repr, DecidableEq

/-- Responses are compared by code and text. -/
instance : BEq Response where
  beq a b := a.errorCode == b.errorCode && a.errorText == b.errorText

theorem Response.beq_eq (a b : Response) :
    (a == b) = (a.errorCode == b.errorCode && a.errorText == b.errorText) := rfl

instance : LawfulBEq Response where
  rfl {a} := by simp [Response.beq_eq]
  eq_of_beq {a b} h := by
    cases a
    cases b
    simpa [Response.beq_eq] using h

/-! ### Chunks -/

/-- The place of a chunk in a chunk stream. -/
structure ChunkInfo where
  /-- The stream. -/
  streamId : Int64
  /-- The chunk's number, counted from 0, or `ChunkInfo.finalId`. -/
  chunkId : Int64
  deriving Repr, DecidableEq

namespace ChunkInfo

/-- The number of the last chunk of every stream. -/
def finalId : Int64 := -1

/-- This chunk ends its stream. -/
def isFinal (c : ChunkInfo) : Bool := c.chunkId = finalId

/-- Places are compared by stream and number. -/
instance : BEq ChunkInfo where
  beq a b := a.streamId == b.streamId && a.chunkId == b.chunkId

theorem beq_eq (a b : ChunkInfo) :
    (a == b) = (a.streamId == b.streamId && a.chunkId == b.chunkId) := rfl

instance : LawfulBEq ChunkInfo where
  rfl {a} := by simp [beq_eq]
  eq_of_beq {a b} h := by
    cases a
    cases b
    simpa [beq_eq] using h

end ChunkInfo

/-! ### Metadata -/

/-- How a packet's data is compressed. The number is only passed on, so it need not be one of the
known ones. -/
structure Compression where
  /-- The number by which the method is known. -/
  code : Int32
  deriving Repr, DecidableEq

namespace Compression

/-- Not compressed. -/
def none : Compression := ⟨0⟩

/-- Compressed with Snappy. -/
def snappy : Compression := ⟨1⟩

/-- Compressed with gzip. -/
def gzip : Compression := ⟨2⟩

end Compression

/-- The metadata of a packet. -/
structure Metadata where
  /-- Present if the packet is a request. -/
  request : Option Request := none
  /-- Present if the packet is a response. -/
  response : Option Response := none
  /-- The compression of the data. -/
  compression : Compression := .none
  /-- The id that a response shares with its request. -/
  correlationId : Int64 := 0
  /-- The number of bytes of the attachment. -/
  attachmentSize : Int32 := 0
  /-- Present if the packet is a chunk. -/
  chunkInfo : Option ChunkInfo := none
  /-- Present if the caller proves who it is. -/
  authenticationData : Option Bytes := none
  deriving Repr, DecidableEq

/-- Metadata is compared part by part. -/
instance : BEq Metadata where
  beq a b := a.request == b.request && a.response == b.response && a.compression == b.compression
    && a.correlationId == b.correlationId && a.attachmentSize == b.attachmentSize
    && a.chunkInfo == b.chunkInfo && a.authenticationData == b.authenticationData

theorem Metadata.beq_eq (a b : Metadata) :
    (a == b) = (a.request == b.request && a.response == b.response
      && a.compression == b.compression && a.correlationId == b.correlationId
      && a.attachmentSize == b.attachmentSize && a.chunkInfo == b.chunkInfo
      && a.authenticationData == b.authenticationData) := rfl

instance : LawfulBEq Metadata where
  rfl {a} := by simp [Metadata.beq_eq]
  eq_of_beq {a b} h := by
    cases a
    cases b
    simpa [Metadata.beq_eq, and_assoc] using h

end RpcFraming
