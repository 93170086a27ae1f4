import RpcFraming.Assembler
import RpcFraming.Boundary
import RpcFraming.Call
import RpcFraming.Transmission

/-!
# A demonstration

One call from end to end: a request for an echo service is made, sent in chunks of eight bytes, and
received again frame by frame. The demonstration is a function of the codec, the source of stream
ids and the clock, and its result is what it would write.
-/

namespace RpcFraming.Demo

/-- What a run writes and how it ends. -/
structure Transcript where
  /-- The exit code. -/
  exitCode : UInt32 := 0
  /-- What goes to the standard output. -/
  out : String := ""
  /-- What goes to the standard error output. -/
  err : String := ""
  deriving Repr, DecidableEq

namespace Transcript

/-- The run goes on and writes a line. -/
def print (t : Transcript) (line : String) : Transcript := { t with out := t.out ++ line ++ "\n" }

/-- The run goes on and gives notices. -/
def notify (t : Transcript) (notices : List Notice) : Transcript :=
  { t with err := notices.foldl (fun err notice => err ++ notice.text) t.err }

/-- The run ends with an error line. -/
def abort (t : Transcript) (line : String) : Transcript :=
  { t with exitCode := 1, err := t.err ++ line ++ "\n" }

end Transcript

/-! ### The call -/

/-- The method that is called: its argument is a text, and a short attachment goes with it. -/
def echo : Method Empty Text where
  serviceName := "EchoService"
  methodName := "echo"
  encoder := some fun text => .ok text.bytes
  attachmentHandler := some fun _ => .ok (some (Text.bytes "att"))

/-- Both ends send chunks of eight bytes. -/
def config : Config := { chunkSize := 8 }

/-- The making of the request, and its journal. -/
def makeRequest : Except (CallFailure Empty) Packet × Journal Text :=
  (echo.request ["hello from the pbrpc example"] { logId := some 20240101 } config).run.run {}

/-! ### The receiving end -/

/-- The lines for a packet that came out of the assembler. -/
def Transcript.printPacket (t : Transcript) (p : Packet) : Transcript :=
  t.print ("Received " ++ p.serviceName ++ "." ++ p.methodName)
    |>.print ("  LogId: " ++ toString p.logId)
    |>.print ("  CorrelationId: " ++ toString p.correlationId)
    |>.print ("  Data: " ++ Text.display ⟨p.data⟩)
    |>.print ("  Attachment size: " ++ toString p.attachment.length ++ " bytes")

/-- A fault at the receiving end: a malformed frame ends the run, anything else is passed on. -/
def refuse (t : Transcript) (fault : Fault) : Except Fault Transcript :=
  if fault.kind = .format then .ok (t.abort ("Malformed frame: " ++ fault.message))
  else .error fault

variable {m : Type → Type} [Monad m]

/-- Receive frames one after the other. Each has to be exactly as long as its head says. -/
def receiveAll (codec : Codec m) (now : Int64) (a : Assembler) (t : Transcript) :
    List Bytes → ExceptT Fault m Transcript
  | [] => return t
  | frame :: frames =>
    match frameSize? config.maxBodySize (.bytes frame) with
    | .error fault => refuse t fault
    | .ok size => do
      if size ≠ some frame.length then return t.abort "Unexpected frame size"
      let fed ← (a.receive codec now frame : m Fed)
      let t := t.notify fed.notice.toList
      match fed.outcome with
      | .error fault => refuse t fault
      | .ok none => receiveAll codec now fed.assembler t frames
      | .ok (some p) => receiveAll codec now fed.assembler (t.printPacket p) frames

/-- The whole run. Only faults that are no malformed frames are left to the caller. -/
def run (codec : Codec m) (ids : StreamIds) (now : Int64) : ExceptT Fault m Transcript := do
  let (made, journal) := makeRequest
  let t := Transcript.notify {} journal.notices
  match made with
  | .error (.fault fault) => throw fault
  | .error (.hook error) => nomatch error
  | .ok request =>
    let frames ← ((request.withCorrelationId 1).transmit codec config ids).1
    let t := t.print ("Encoded " ++ toString frames.length ++ " frames")
    receiveAll codec now { config } t frames

end RpcFraming.Demo
