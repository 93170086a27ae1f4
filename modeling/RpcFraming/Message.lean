import RpcFraming.Metadata

/-!
# Wire messages

The message as which metadata is sent. Nearly every field of a message may be absent; an absent
number is read as 0 and an absent text or byte string as empty. Writing always sets the plain
numbers and names of the parts that are there, but leaves out a trace key or an extra parameter that
is empty.

What is proved: metadata is read back from its message unchanged, so different metadata never makes
the same message.
-/

namespace RpcFraming

/-! ### Messages -/

/-- An added value of a request, as it is sent. -/
structure Message.ExtField where
  /-- The name. -/
  key : Option Text
  /-- The value. -/
  value : Option Text
  deriving Repr, DecidableEq

/-- The request part of a message. -/
structure Message.Request where
  /-- The service that is called. -/
  serviceName : Text
  /-- The method of the service. -/
  methodName : Text
  /-- The id under which both ends log the call. -/
  logId : Option Int64
  /-- The trace as a whole. -/
  traceId : Option Int64
  /-- This call within the trace. -/
  spanId : Option Int64
  /-- The call from which this one was made. -/
  parentSpanId : Option Int64
  /-- Added values in order. -/
  extFields : List Message.ExtField
  /-- A key by which the trace is found again. -/
  traceKey : Option Text
  /-- Bytes of the caller's own. -/
  extraParam : Option Bytes
  deriving Repr, DecidableEq

/-- The response part of a message. -/
structure Message.Response where
  /-- 0 for success. -/
  errorCode : Option Int32
  /-- The error in words. -/
  errorText : Option Text
  deriving Repr, DecidableEq

/-- A message that carries metadata. -/
structure Message where
  /-- The request part. -/
  request : Option Message.Request
  /-- The response part. -/
  response : Option Message.Response
  /-- The number of the compression. -/
  compressType : Option Int32
  /-- The id that a response shares with its request. -/
  correlationId : Option Int64
  /-- The number of bytes of the attachment. -/
  attachmentSize : Option Int32
  /-- The place in a chunk stream. -/
  chunkInfo : Option ChunkInfo
  /-- What proves who the caller is. -/
  authenticationData : Option Bytes
  deriving Repr, DecidableEq

/-! ### Writing -/

/-- A text that is left out when it is empty. -/
def textUnlessEmpty (s : Text) : Option Text := if s = "" then none else some s

/-- A byte string that is left out when it is empty. -/
def bytesUnlessEmpty (b : Bytes) : Option Bytes := if b = [] then none else some b

@[simp] theorem getD_textUnlessEmpty (s : Text) : (textUnlessEmpty s).getD "" = s := by
  by_cases h : s = "" <;> simp [textUnlessEmpty, h]

@[simp] theorem getD_bytesUnlessEmpty (b : Bytes) : (bytesUnlessEmpty b).getD [] = b := by
  by_cases h : b = [] <;> simp [bytesUnlessEmpty, h]

/-- Both parts of an added value are always set. -/
def ExtField.toMessage (f : ExtField) : Message.ExtField where
  key := some f.key
  value := some f.value

/-- The request part that says what a request says. -/
def Request.toMessage (r : Request) : Message.Request where
  serviceName := r.serviceName
  methodName := r.methodName
  logId := some r.logId
  traceId := some r.trace.traceId
  spanId := some r.trace.spanId
  parentSpanId := some r.trace.parentSpanId
  extFields := r.extFields.map ExtField.toMessage
  traceKey := textUnlessEmpty r.trace.traceKey
  extraParam := bytesUnlessEmpty r.extraParam

/-- The response part that says what a response says. -/
def Response.toMessage (r : Response) : Message.Response where
  errorCode := some r.errorCode
  errorText := some r.errorText

/-- The message as which metadata is sent. -/
def Metadata.toMessage (x : Metadata) : Message where
  request := x.request.map Request.toMessage
  response := x.response.map Response.toMessage
  compressType := some x.compression.code
  correlationId := some x.correlationId
  attachmentSize := some x.attachmentSize
  chunkInfo := x.chunkInfo
  authenticationData := x.authenticationData

/-! ### Reading -/

/-- The added value that was sent. -/
def Message.ExtField.toExtField (f : Message.ExtField) : RpcFraming.ExtField where
  key := f.key.getD ""
  value := f.value.getD ""

/-- The request that was sent. -/
def Message.Request.toRequest (r : Message.Request) : RpcFraming.Request where
  serviceName := r.serviceName
  methodName := r.methodName
  logId := r.logId.getD 0
  trace :=
    { traceId := r.traceId.getD 0
      traceKey := r.traceKey.getD ""
      spanId := r.spanId.getD 0
      parentSpanId := r.parentSpanId.getD 0 }
  extFields := r.extFields.map Message.ExtField.toExtField
  extraParam := r.extraParam.getD []

/-- The response that was sent. -/
def Message.Response.toResponse (r : Message.Response) : RpcFraming.Response where
  errorCode := r.errorCode.getD 0
  errorText := r.errorText.getD ""

/-- The metadata that was sent. -/
def Message.toMetadata (w : Message) : Metadata where
  request := w.request.map Message.Request.toRequest
  response := w.response.map Message.Response.toResponse
  compression := ⟨w.compressType.getD 0⟩
  correlationId := w.correlationId.getD 0
  attachmentSize := w.attachmentSize.getD 0
  chunkInfo := w.chunkInfo
  authenticationData := w.authenticationData

/-! ### Writing, then reading -/

@[simp] theorem ExtField.toExtField_toMessage (f : ExtField) : f.toMessage.toExtField = f := rfl

@[simp] theorem Request.toRequest_toMessage (r : Request) : r.toMessage.toRequest = r := by
  have h : Message.ExtField.toExtField ∘ ExtField.toMessage = id := rfl
  simp [Message.Request.toRequest, Request.toMessage, h]

@[simp] theorem Response.toResponse_toMessage (r : Response) : r.toMessage.toResponse = r := rfl

/-- Metadata is read back from its message unchanged. -/
@[simp] theorem Metadata.toMetadata_toMessage (x : Metadata) : x.toMessage.toMetadata = x := by
  have hreq : Message.Request.toRequest ∘ Request.toMessage = id :=
    funext Request.toRequest_toMessage
  have hres : Message.Response.toResponse ∘ Response.toMessage = id :=
    funext Response.toResponse_toMessage
  simp [Message.toMetadata, Metadata.toMessage, hreq, hres]

end RpcFraming
