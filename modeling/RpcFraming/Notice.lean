import RpcFraming.Text

/-!
# Notices

What the library tells an operator while it goes on working. A notice is a value, and `Notice.line`
is the line that is written for it.
-/

namespace RpcFraming

/-- What an operator is told. -/
inductive Notice where
  /-- A chunk was dropped because the start of its stream never came. -/
  | chunkWithoutStart (chunkId streamId : Int64)
  /-- An incomplete stream was dropped because too many are incomplete. -/
  | streamEvicted (streamId : Int64)
  /-- A log id given for one call was used. -/
  | logIdOverride (logId : Int64) (serviceName methodName : Text)
  deriving Repr, DecidableEq

/-- The line that is written for a notice, with the end of line. -/
def Notice.line : Notice → Text
  | chunkWithoutStart chunkId streamId =>
    "Dropping chunk " ++ toString chunkId ++ " of chunk stream " ++ toString streamId
      ++ ": stream start was not received\n"
  | streamEvicted streamId =>
    "Dropping incomplete chunk stream " ++ toString streamId ++ ": too many pending streams\n"
  | logIdOverride logId serviceName methodName =>
    Text.ofString ("Call context carries log id " ++ toString logId ++ ", using it for ")
      ++ serviceName ++ "." ++ methodName ++ "\n"

/-- The line as it is displayed. -/
def Notice.text (notice : Notice) : String := notice.line

end RpcFraming
