import RpcFraming.Config
import RpcFraming.Fault
import RpcFraming.Notice
import RpcFraming.Packet

/-!
# Calls

A client knows a remote method by its names, its compression and up to four hooks, which are asked
when a call is made: how to encode the argument, which log id to use, what to attach, and how to
prove who is calling. `Method.request` makes the request packet of one call. Hooks may fail with
errors of their own; the first failure ends the making of the request and is passed on unchanged.

A journal records which hooks were asked, in order, and which notices were given, and it is kept
when the call fails.
-/

namespace RpcFraming

/-- A call as the hooks see it. -/
structure Invocation (α : Type) where
  /-- The service that is called. -/
  serviceName : Text
  /-- The method that is called. -/
  methodName : Text
  /-- The arguments of the call. -/
  arguments : List α
  deriving Repr, DecidableEq

/-- A remote method whose arguments are of type `α` and whose hooks fail with errors of type `ε`. -/
structure Method (ε α : Type) where
  /-- The service that has the method. -/
  serviceName : Text
  /-- The method. -/
  methodName : Text
  /-- The compression of the data. -/
  compression : Compression := .none
  /-- Makes data of the argument. -/
  encoder : Option (α → Except ε Bytes) := none
  /-- Chooses the log id. -/
  logIdGenerator : Option (Invocation α → Except ε Int64) := none
  /-- Chooses the attachment, if there is to be one. -/
  attachmentHandler : Option (Invocation α → Except ε (Option Bytes)) := none
  /-- Chooses the authentication data, if there is to be any. -/
  authenticationHandler : Option (Invocation α → Except ε (Option Bytes)) := none

/-- What is settled for one call alone. -/
structure CallContext where
  /-- A log id that goes before the generator's. -/
  logId : Option Int64 := none
  deriving Repr, DecidableEq

/-- The asking of one hook. -/
inductive HookCall (α : Type) where
  /-- The encoder was given the argument. -/
  | encoder (argument : α)
  /-- The log id generator was asked. -/
  | logId (invocation : Invocation α)
  /-- The attachment handler was asked. -/
  | attachment (invocation : Invocation α)
  /-- The authentication handler was asked. -/
  | authentication (invocation : Invocation α)
  deriving Repr, DecidableEq

/-- What happened while a request was made. -/
structure Journal (α : Type) where
  /-- The hooks that were asked, in order. -/
  calls : List (HookCall α) := []
  /-- The notices that were given, in order. -/
  notices : List Notice := []
  deriving Repr, DecidableEq

/-- Why there is no request. -/
inductive CallFailure (ε : Type) where
  /-- The request cannot be headed. -/
  | fault (fault : Fault)
  /-- A hook failed. -/
  | hook (error : ε)
  deriving Repr, DecidableEq

/-- The making of a request: it may fail, and keeps a journal in either case. -/
abbrev Making (ε α : Type) := ExceptT (CallFailure ε) (StateM (Journal α))

namespace Making

variable {ε α β : Type}

/-- Ask a hook, and record that it was asked. -/
def ask (call : HookCall α) (answer : Except ε β) : Making ε α β := do
  modify fun journal => { journal with calls := journal.calls ++ [call] }
  match answer with
  | .ok result => return result
  | .error error => throw (.hook error)

/-- Give a notice. -/
def notify (notice : Notice) : Making ε α Unit :=
  modify fun journal => { journal with notices := journal.notices ++ [notice] }

end Making

namespace Method

variable {ε α : Type}

/-- The call of a method with some arguments, as the hooks see it. -/
def invocation (method : Method ε α) (arguments : List α) : Invocation α :=
  { serviceName := method.serviceName, methodName := method.methodName, arguments }

/-- The head of a request under the configured magic code. -/
def callHead (config : Config) : Making ε α Head :=
  match Head.ofMagic config.magic with
  | .ok head => return head
  | .error fault => throw (.fault fault)

/-- The data of a call. Only a call with exactly one argument carries data. -/
def callData (method : Method ε α) (arguments : List α) : Making ε α Bytes :=
  match method.encoder, arguments with
  | some encode, [argument] => Making.ask (.encoder argument) (encode argument)
  | _, _ => return []

/-- The log id of a call: the context's, else the generator's, else 0. -/
def callLogId (method : Method ε α) (arguments : List α) (context : CallContext)
    (config : Config) : Making ε α Int64 :=
  match context.logId, method.logIdGenerator with
  | some logId, _ => do
    if config.logIdOverrideNotice then
      Making.notify (.logIdOverride logId method.serviceName method.methodName)
    return logId
  | none, some generate =>
    Making.ask (.logId (method.invocation arguments)) (generate (method.invocation arguments))
  | none, none => return 0

/-- The bytes that a handler chooses for a call, if it is there and chooses any. -/
def callBytes (handler : Option (Invocation α → Except ε (Option Bytes)))
    (call : Invocation α → HookCall α) (invocation : Invocation α) : Making ε α (Option Bytes) :=
  match handler with
  | some choose => Making.ask (call invocation) (choose invocation)
  | none => return none

/-- The request packet of one call. -/
def request (method : Method ε α) (arguments : List α) (context : CallContext) (config : Config) :
    Making ε α Packet := do
  let head ← callHead config
  let data ← method.callData arguments
  let logId ← method.callLogId arguments context config
  let invocation := method.invocation arguments
  let attachment ← callBytes method.attachmentHandler .attachment invocation
  let authenticationData ← callBytes method.authenticationHandler .authentication invocation
  return {
    head := some head
    metadata := some {
      request := some
        { serviceName := method.serviceName, methodName := method.methodName, logId }
      compression := method.compression
      authenticationData }
    data
    attachment := attachment.getD [] }

end Method

end RpcFraming
