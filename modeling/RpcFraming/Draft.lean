import RpcFraming.Packet

/-!
# Drafts

A packet is put together piece by piece in a draft. Each setting says one thing about the packet;
the parts that it needs are made when they are first needed, and a later setting of the same thing
replaces the earlier one, except that added values are kept in order. A draft can be built at any
time and as often as wanted.

Only a magic code can be refused. A draft that had no head has one afterwards all the same, with the
usual magic code.

What is proved: nothing but a magic code touches the head.
-/

namespace RpcFraming

/-- One thing to say about a packet. -/
inductive Setting where
  /-- The magic code of the head. -/
  | magic (code : Bytes)
  /-- The service that is called. -/
  | serviceName (name : Text)
  /-- The method that is called. -/
  | methodName (name : Text)
  /-- The log id of the request. -/
  | logId (id : Int64)
  /-- The request's place in a trace. -/
  | trace (trace : Trace)
  /-- One more added value of the request. -/
  | extField (field : ExtField)
  /-- The caller's own bytes in the request. -/
  | extraParam (bytes : Bytes)
  /-- The code of the response. -/
  | errorCode (code : Int32)
  /-- The text of the response. -/
  | errorText (text : Text)
  /-- The compression of the data. -/
  | compression (compression : Compression)
  /-- The id that a response shares with its request. -/
  | correlationId (id : Int64)
  /-- The packet's place in a chunk stream. -/
  | chunkInfo (info : ChunkInfo)
  /-- What proves who the caller is. -/
  | authenticationData (bytes : Bytes)
  /-- The data. -/
  | data (bytes : Bytes)
  /-- The attachment. -/
  | attachment (bytes : Bytes)
  /-- The time at which the packet was made. -/
  | timestamp (time : Int64)
  deriving Repr, DecidableEq

/-- A packet in the making. -/
structure Draft where
  /-- The head, once a magic code was set. -/
  head : Option Head := none
  /-- The metadata, once anything in it was set. -/
  metadata : Option Metadata := none
  /-- The data. -/
  data : Bytes := []
  /-- The attachment. -/
  attachment : Bytes := []
  /-- The time, if it was set. -/
  timestamp : Option Int64 := none
  deriving Repr, DecidableEq

namespace Draft

/-- Change the metadata, starting from empty metadata if there is none. -/
def updateMetadata (d : Draft) (f : Metadata → Metadata) : Draft :=
  { d with metadata := some (f (d.metadata.getD {})) }

/-- Change the request, starting from an empty request if there is none. -/
def updateRequest (d : Draft) (f : Request → Request) : Draft :=
  d.updateMetadata fun x => { x with request := some (f (x.request.getD {})) }

/-- Change the response, starting from an empty response if there is none. -/
def updateResponse (d : Draft) (f : Response → Response) : Draft :=
  d.updateMetadata fun x => { x with response := some (f (x.response.getD {})) }

/-- Set the magic code. If it is refused, the magic code of an existing head stays, and a draft
without a head gets one with the usual magic code. -/
def setMagic (d : Draft) (code : Bytes) : Draft × Option Fault :=
  let head := d.head.getD {}
  match head.withMagic code with
  | .ok head => ({ d with head := some head }, none)
  | .error fault => ({ d with head := some head }, some fault)

/-- Say one thing about the packet: the draft afterwards, and the fault if the setting is refused. -/
def set (d : Draft) : Setting → Draft × Option Fault
  | .magic code => d.setMagic code
  | .serviceName name => (d.updateRequest fun r => { r with serviceName := name }, none)
  | .methodName name => (d.updateRequest fun r => { r with methodName := name }, none)
  | .logId id => (d.updateRequest fun r => { r with logId := id }, none)
  | .trace trace => (d.updateRequest fun r => { r with trace := trace }, none)
  | .extField field =>
    (d.updateRequest fun r => { r with extFields := r.extFields ++ [field] }, none)
  | .extraParam bytes => (d.updateRequest fun r => { r with extraParam := bytes }, none)
  | .errorCode code => (d.updateResponse fun r => { r with errorCode := code }, none)
  | .errorText text => (d.updateResponse fun r => { r with errorText := text }, none)
  | .compression compression =>
    (d.updateMetadata fun x => { x with compression := compression }, none)
  | .correlationId id => (d.updateMetadata fun x => { x with correlationId := id }, none)
  | .chunkInfo info => (d.updateMetadata fun x => { x with chunkInfo := some info }, none)
  | .authenticationData bytes =>
    (d.updateMetadata fun x => { x with authenticationData := some bytes }, none)
  | .data bytes => ({ d with data := bytes }, none)
  | .attachment bytes => ({ d with attachment := bytes }, none)
  | .timestamp time => ({ d with timestamp := some time }, none)

/-- The draft after several settings, whether or not some of them were refused. -/
def setAll (d : Draft) (settings : List Setting) : Draft :=
  settings.foldl (fun d setting => (d.set setting).1) d

/-- The packet as it stands. -/
def build (d : Draft) : Packet where
  head := d.head
  metadata := d.metadata
  data := d.data
  attachment := d.attachment
  timestamp := d.timestamp.getD 0

/-- Nothing but a magic code touches the head. -/
theorem head_set {d : Draft} {setting : Setting} (h : ∀ code, setting ≠ .magic code) :
    (d.set setting).1.head = d.head := by
  cases setting with
  | magic code => exact absurd rfl (h code)
  | _ => rfl

theorem setAll_append (d : Draft) (first second : List Setting) :
    d.setAll (first ++ second) = (d.setAll first).setAll second :=
  List.foldl_append

end Draft

end RpcFraming
