import RpcFraming.Bytes
import RpcFraming.Head

/-!
# Configuration

The settings that the two ends of a connection share: how requests are headed and cut up when they
are sent, and how much a receiver is willing to accept and to hold.
-/

namespace RpcFraming

/-- The settings of one end of a connection. -/
structure Config where
  /-- The magic code of new requests; it is checked when a request is made. -/
  magic : Bytes := Magic.standard.toBytes
  /-- The number of data bytes in one chunk; data is never split when this is less than 1. -/
  chunkSize : Int64 := 0
  /-- The largest body, and the largest data of a chunk stream, that is accepted. -/
  maxBodySize : UInt32 := 512 * 1024 * 1024
  /-- How many chunk streams may be incomplete at once; 0 means any number. -/
  maxPendingStreams : UInt64 := 1024
  /-- Whether a log id given for one call is announced. -/
  logIdOverrideNotice : Bool := false
  deriving Repr, DecidableEq

end RpcFraming
