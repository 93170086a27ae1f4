import RpcFraming.Codec

/-!
# Flat metadata

Metadata as a machine keeps it. What a request says of its trace lies among the other fields of the
request; a trace is put together from them when one is asked for, and that is how two requests are
compared. A message is filled part by part: what is not set stays absent, the plain fields are always
set, a trace key or an extra parameter only if it is not empty, and the added values are put in one after
the other.

What is proved: the comparison misses no field, so `==` is equality; to overwrite the trace of a request
is to overwrite its four fields and no other.
-/

namespace RpcFraming

/-! ### Requests -/

/-- What a request says, with its trace among the other fields. -/
structure FlatRequest where
  /-- The service that is called. -/
  serviceName : Text := ""
  /-- The method of the service. -/
  methodName : Text := ""
  /-- The id under which both ends log the call. -/
  logId : Int64 := 0
  /-- The trace as a whole. -/
  traceId : Int64 := 0
  /-- A key by which the trace is found again. -/
  traceKey : Text := ""
  /-- This call within the trace. -/
  spanId : Int64 := 0
  /-- The call from which this one was made. -/
  parentSpanId : Int64 := 0
  /-- Added values, in the order in which they were added. -/
  extFields : List ExtField := []
  /-- Bytes of the caller's own. -/
  extraParam : Bytes := []
  deriving Repr, DecidableEq

namespace FlatRequest

/-- The request's place in a trace. -/
def trace (r : FlatRequest) : Trace where
  traceId := r.traceId
  traceKey := r.traceKey
  spanId := r.spanId
  parentSpanId := r.parentSpanId

/-- Overwrite the fields of the trace. -/
def setTrace (r : FlatRequest) (t : Trace) : FlatRequest :=
  { r with
    traceId := t.traceId
    traceKey := t.traceKey
    spanId := t.spanId
    parentSpanId := t.parentSpanId }

@[simp] theorem trace_setTrace (r : FlatRequest) (t : Trace) : (r.setTrace t).trace = t := rfl

/-- Overwriting the trace leaves every other field as it was. -/
theorem eq_setTrace_iff {r s : FlatRequest} {t : Trace} :
    s = r.setTrace t ↔ s.trace = t ∧ s.serviceName = r.serviceName ∧ s.methodName = r.methodName ∧
      s.logId = r.logId ∧ s.extFields = r.extFields ∧ s.extraParam = r.extraParam := by
  constructor
  · rintro rfl
    exact ⟨rfl, rfl, rfl, rfl, rfl, rfl⟩
  · rintro ⟨rfl, hservice, hmethod, hlogId, hfields, hparam⟩
    cases s
    cases r
    cases hservice
    cases hmethod
    cases hlogId
    cases hfields
    cases hparam
    rfl

/-- Requests are compared by all they say, the fields of the trace as one trace. -/
instance : BEq FlatRequest where
  beq a b := a.serviceName == b.serviceName && a.methodName == b.methodName && a.logId == b.logId
    && a.trace == b.trace && a.extFields == b.extFields && a.extraParam == b.extraParam

theorem beq_eq (a b : FlatRequest) :
    (a == b) = (a.serviceName == b.serviceName && a.methodName == b.methodName
      && a.logId == b.logId && a.trace == b.trace && a.extFields == b.extFields
      && a.extraParam == b.extraParam) := rfl

instance : LawfulBEq FlatRequest where
  rfl {a} := by simp [beq_eq]
  eq_of_beq {a b} h := by
    cases a
    cases b
    simpa [beq_eq, trace, and_assoc] using h

end FlatRequest

/-! ### Metadata -/

/-- The metadata of a packet, with a flat request. -/
structure FlatMetadata where
  /-- Present if the packet is a request. -/
  request : Option FlatRequest := none
  /-- Present if the packet is a response. -/
  response : Option Response := none
  /-- The compression of the data. -/
  compression : Compression := .none
  /-- The id that a response shares with its request. -/
  correlationId : Int64 := 0
  /-- The number of bytes of the attachment. -/
  attachmentSize : Int32 := 0
  /-- Present if the packet is a chunk. -/
  chunkInfo : Option ChunkInfo := none
  /-- Present if the caller proves who it is. -/
  authenticationData : Option Bytes := none
  deriving Repr, DecidableEq

namespace FlatMetadata

/-- Metadata is compared part by part. -/
instance : BEq FlatMetadata where
  beq a b := a.request == b.request && a.response == b.response && a.compression == b.compression
    && a.correlationId == b.correlationId && a.attachmentSize == b.attachmentSize
    && a.chunkInfo == b.chunkInfo && a.authenticationData == b.authenticationData

theorem beq_eq (a b : FlatMetadata) :
    (a == b) = (a.request == b.request && a.response == b.response
      && a.compression == b.compression && a.correlationId == b.correlationId
      && a.attachmentSize == b.attachmentSize && a.chunkInfo == b.chunkInfo
      && a.authenticationData == b.authenticationData) := rfl

instance : LawfulBEq FlatMetadata where
  rfl {a} := by simp [beq_eq]
  eq_of_beq {a b} h := by
    cases a
    cases b
    simpa [beq_eq, and_assoc] using h

end FlatMetadata

/-! ### Filling a message -/

namespace Message

/-- A request part in which nothing is set. The names are never absent, so they are empty. -/
def Request.blank : Message.Request where
  serviceName := ""
  methodName := ""
  logId := none
  traceId := none
  spanId := none
  parentSpanId := none
  extFields := []
  traceKey := none
  extraParam := none

/-- Put in one more added value, of which both parts are set. -/
def Request.addExtField (out : Message.Request) (f : RpcFraming.ExtField) : Message.Request :=
  { out with extFields := out.extFields ++ [{ key := some f.key, value := some f.value }] }

/-- A message in which nothing is set. -/
def blank : Message where
  request := none
  response := none
  compressType := none
  correlationId := none
  attachmentSize := none
  chunkInfo := none
  authenticationData := none

end Message

/-- Fill a request part with what a request says. -/
def FlatRequest.fill (r : FlatRequest) (out : Message.Request) : Message.Request :=
  let out := { out with
    serviceName := r.serviceName
    methodName := r.methodName
    logId := some r.logId
    traceId := some r.traceId
    spanId := some r.spanId
    parentSpanId := some r.parentSpanId }
  let out := if r.traceKey = "" then out else { out with traceKey := some r.traceKey }
  let out := r.extFields.foldl Message.Request.addExtField out
  if r.extraParam = [] then out else { out with extraParam := some r.extraParam }

namespace FlatMetadata

/-- The message as which metadata is sent. -/
def toMessage (x : FlatMetadata) : Message :=
  let out := Message.blank
  let out := match x.request with
    | some r => { out with request := some (r.fill .blank) }
    | none => out
  let out := match x.response with
    | some r =>
      { out with response := some { errorCode := some r.errorCode, errorText := some r.errorText } }
    | none => out
  let out := { out with
    compressType := some x.compression.code
    correlationId := some x.correlationId
    attachmentSize := some x.attachmentSize }
  let out := match x.chunkInfo with
    | some c => { out with chunkInfo := some { streamId := c.streamId, chunkId := c.chunkId } }
    | none => out
  match x.authenticationData with
  | some data => { out with authenticationData := some data }
  | none => out

/-- The bytes of metadata. -/
def encode {m : Type → Type} [Monad m] (codec : Codec m) (x : FlatMetadata) :
    ExceptT Fault m Bytes := do
  match ← codec.serialize x.toMessage with
  | some bytes => return bytes
  | none => throw .unserializable

end FlatMetadata

end RpcFraming
