import RpcFraming.Packet.Cursor

/-!
# Heads in place

A head as a machine keeps it. Its magic code is a byte string like any other; only the check in
`LooseHead.setMagic` keeps it at four bytes, and the layout of a frame hangs on that. A head is changed
in place, so a change that fails leaves what was written before the failure. Words are put behind a
buffer byte by byte, each byte cut out of the word by a mask, and are read back at an offset; a byte
outside the buffer cannot be read, which has no result at all.
-/

namespace RpcFraming

/-- A head whose magic code may have any number of bytes. -/
structure LooseHead where
  /-- The code that opens the frame. -/
  code : Bytes := Magic.standard.toBytes
  /-- The number of bytes after the head. -/
  totalSize : Int32 := 0
  /-- The number of bytes of the serialized metadata. -/
  metadataSize : Int32 := 0
  deriving Repr, DecidableEq

/-- What is done with a head. -/
inductive Head.Action where
  /-- A new head takes its place, under a magic code. -/
  | construct (code : Bytes)
  /-- The magic code is set. -/
  | setMagic (code : Bytes)
  /-- The size of what follows the head is set. -/
  | setTotalSize (size : Int32)
  /-- The size of the metadata is set. -/
  | setMetadataSize (size : Int32)
  /-- A head that is read from a buffer takes its place. -/
  | decode (buffer : Buffer)
  deriving Repr, DecidableEq

namespace LooseHead

open Cursor (Reading slice astray)

/-! ### Writing and reading -/

/-- One of the bytes of a word, put behind a buffer. -/
def pushByte (buffer : Bytes) (w : UInt32) : Bytes := buffer ++ [(w &&& 0xFF).toUInt8]

/-- A word, put behind a buffer with the most significant byte first. -/
def writeWord (buffer : Bytes) (w : UInt32) : Bytes :=
  pushByte (pushByte (pushByte (pushByte buffer (w >>> 24)) (w >>> 16)) (w >>> 8)) w

/-- The head, put behind a buffer. -/
def encodeTo (h : LooseHead) (buffer : Bytes) : Bytes :=
  writeWord (writeWord (buffer ++ h.code) h.totalSize.toUInt32) h.metadataSize.toUInt32

/-- The bytes of the head. -/
def encode (h : LooseHead) : Bytes := h.encodeTo []

/-- The word at an offset. -/
def readWord (b : Bytes) (offset : Nat) : Reading UInt32 :=
  match b[offset]?, b[offset + 1]?, b[offset + 2]?, b[offset + 3]? with
  | some b₃, some b₂, some b₁, some b₀ => return BigEndian.join b₃ b₂ b₁ b₀
  | _, _, _, _ => astray

/-- The head at the front of a buffer. -/
def decode : Buffer → Reading LooseHead
  | .announced _ => throw .unsuppliedHead
  | .bytes b =>
    if b.length < Head.size then throw (.incomplete .head)
    else do
      let code ← slice b 0 4
      let totalSize ← readWord b 4
      let metadataSize ← readWord b 8
      return { code, totalSize := totalSize.toInt32, metadataSize := metadataSize.toInt32 }

/-! ### Handling a head -/

/-- The handling of a head: it can go astray, and what was written before a fault stays. -/
abbrev Handling (α : Type) := ExceptT Fault (StateT LooseHead Option) α

/-- Set the magic code. -/
def setMagic (code : Bytes) : Handling Unit := do
  if code.length ≠ 4 then throw .magicLength
  modify fun h => { h with code }

/-- A new head, of which the magic code is set. -/
def construct (code : Bytes) : Reading LooseHead :=
  ExceptT.mk (((setMagic code).run.run {}).map fun (result, h) => result.map fun _ => h)

/-- Put another head in place of this one, once it is there. -/
def replace (other : Reading LooseHead) : Handling Unit := do
  let h : LooseHead ← ExceptT.mk (liftM other.run)
  set h

/-- Do something with a head. -/
def handle : Head.Action → Handling Unit
  | .construct code => replace (construct code)
  | .setMagic code => setMagic code
  | .setTotalSize size => modify fun h => { h with totalSize := size }
  | .setMetadataSize size => modify fun h => { h with metadataSize := size }
  | .decode buffer => replace (decode buffer)

/-- The head after something was done with it, and the fault if that failed. -/
def act (h : LooseHead) (action : Head.Action) : Option (LooseHead × Option Fault) :=
  ((handle action).run.run h).map fun
    | (.ok _, h) => (h, none)
    | (.error fault, h) => (h, some fault)

/-- The head after several things were done with it, whether or not they failed. -/
def after (h : LooseHead) (actions : List Head.Action) : Option LooseHead :=
  actions.foldlM (fun h action => (h.act action).map Prod.fst) h

end LooseHead

end RpcFraming
