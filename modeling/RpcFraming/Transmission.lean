import RpcFraming.Config
import RpcFraming.Packet.Split
import RpcFraming.Packet.Wire

/-!
# Transmission

Sending a packet means splitting it as the configuration says and encoding the chunks one after the
other. The first chunk that cannot be encoded stops it, and then no frame is sent.
-/

namespace RpcFraming

variable {m : Type → Type} [Monad m]

/-- The frames of some packets, in order. -/
def encodeAll (codec : Codec m) : List Packet → ExceptT Fault m (List Bytes)
  | [] => return []
  | p :: ps => do
    let encoded ← (p.encode codec : m Encoded)
    let frame ← encoded.outcome
    let frames ← encodeAll codec ps
    return frame :: frames

/-- The frames in which a packet is sent, and the source of the stream ids after them. -/
def Packet.transmit (codec : Codec m) (config : Config) (ids : StreamIds) (p : Packet) :
    ExceptT Fault m (List Bytes) × StreamIds :=
  let (chunks, ids) := p.split config.chunkSize ids
  (encodeAll codec chunks, ids)

end RpcFraming
