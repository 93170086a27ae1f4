import RpcFraming.Codec.Ticket
import RpcFraming.Demo

/-!
# The demonstration program

Runs the demonstration with tickets for messages, and with stream ids that start at a random number.
Packets are stamped by a clock that only ever moves forward.
-/

open RpcFraming

/-- The source of stream ids that starts at the word of some bytes, most significant first. -/
def RpcFraming.StreamIds.ofEntropy (b : ByteArray) : StreamIds :=
  ⟨b.toList.foldl (fun w byte => w <<< 8 ||| byte.toUInt64) 0⟩

/-- Run the demonstration, write what it writes, and end as it ends. -/
def main : IO UInt32 := do
  let entropy ← IO.getRandomBytes 8
  let now ← IO.monoMsNow
  let (outcome, _) := Id.run ((Demo.run Ticket.codec (.ofEntropy entropy) (.ofNat now)).run.run #[])
  match outcome with
  | .ok transcript =>
    IO.print transcript.out
    IO.eprint transcript.err
    return transcript.exitCode
  | .error fault =>
    IO.eprintln fault.message
    return 1
