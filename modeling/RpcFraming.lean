import RpcFraming.Bytes
import RpcFraming.Text
import RpcFraming.BigEndian
import RpcFraming.Fault
import RpcFraming.Head
import RpcFraming.Config
import RpcFraming.Boundary
import RpcFraming.Metadata
import RpcFraming.Message
import RpcFraming.Codec
import RpcFraming.Codec.Ticket
import RpcFraming.Metadata.Flat
import RpcFraming.Packet
import RpcFraming.Packet.Wire
import RpcFraming.Packet.Cursor
import RpcFraming.Head.Loose
import RpcFraming.Packet.Split
import RpcFraming.Packet.Stride
import RpcFraming.StreamId
import RpcFraming.Transmission
import RpcFraming.Draft
import RpcFraming.Notice
import RpcFraming.Call
import RpcFraming.Assembler
import RpcFraming.Assembler.Indexed
import RpcFraming.Demo
import RpcFraming.Main
import RpcFraming.Proofs.Frame
import RpcFraming.Proofs.Cursor
import RpcFraming.Proofs.Acceptance
import RpcFraming.Proofs.Head
import RpcFraming.Proofs.Stream
import RpcFraming.Proofs.Assembler.Invariant
import RpcFraming.Proofs.Assembler.Streams
import RpcFraming.Proofs.Assembler.Isolation
import RpcFraming.Proofs.Assembler.Run
import RpcFraming.Proofs.Assembler.Provenance
import RpcFraming.Proofs.Assembler.Queue
import RpcFraming.Proofs.Assembler.Eviction
import RpcFraming.Proofs.Assembler.Indexed
import RpcFraming.Proofs.Assembler.Release
import RpcFraming.Proofs.Assembler.Containment
import RpcFraming.Proofs.Transmission
import RpcFraming.Proofs.Boundary
import RpcFraming.Proofs.Delivery
import RpcFraming.Proofs.Split
import RpcFraming.Proofs.Refusal
import RpcFraming.Proofs.NormalForm
import RpcFraming.Proofs.Equality
import RpcFraming.Proofs.StreamId
import RpcFraming.Proofs.Reencoding
import RpcFraming.Proofs.Retry
import RpcFraming.Proofs.Draft.Refused
import RpcFraming.Proofs.Draft.LastSetting
import RpcFraming.Proofs.Call
import RpcFraming.Proofs.ErrorResponse
