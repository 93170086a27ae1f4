import RpcFraming.Head.Loose
import RpcFraming.Proofs.Acceptance

/-!
# Heads and their bytes

Every head is twelve bytes, and every twelve bytes are a head. The magic code of a `Head` has four bytes
by its type; a machine has to see to that itself (`LooseHead`). So it is shown first that a head in place
always has the four bytes, whatever is done with it and whatever fails: it is then a `Head` that was
loosened (`Head.loosen`), and every action comes to the same for both (`LooseHead.act_loosen`). What is
read and written in place is what `Head.decode` and `Head.toBytes` say.

## What is proved

* `LooseHead.after_loosen`: a head in place is a `Head` throughout.
* `LooseHead.encodeTo_loosen`, `LooseHead.decode_eq`: it is written and read as one.
* `Head.decode_toBytes_append`, `Head.exists_decode`: writing and reading undo each other.
* `Head.toBytes_bijective`: heads are the byte strings of twelve bytes.
* `Head.codec_bijective`: all this in one place.
-/

namespace RpcFraming

namespace Head

/-! ### Handling a head -/

/-- The head as a machine keeps it. -/
def loosen (h : Head) : LooseHead where
  code := h.magic.toBytes
  totalSize := h.totalSize
  metadataSize := h.metadataSize

/-- Go on with another head, or with this one if there is a fault instead. -/
def replace (h : Head) : Except Fault Head → Head × Option Fault
  | .ok other => (other, none)
  | .error fault => (h, some fault)

/-- The head after something was done with it, and the fault if that failed. -/
def act (h : Head) : Action → Head × Option Fault
  | .construct code => h.replace (ofMagic code)
  | .setMagic code => h.replace (h.withMagic code)
  | .setTotalSize size => ({ h with totalSize := size }, none)
  | .setMetadataSize size => ({ h with metadataSize := size }, none)
  | .decode buffer => h.replace (decode buffer)

/-- The head after several things were done with it, whether or not they failed. -/
def after (h : Head) (actions : List Action) : Head :=
  actions.foldl (fun h action => (h.act action).1) h

end Head

namespace LooseHead

open Cursor (settle)

/-! ### Writing -/

theorem toUInt8_and_mask (w : UInt32) : (w &&& 0xFF).toUInt8 = w.toUInt8 := by
  rw [← UInt8.toNat_inj, UInt32.toNat_toUInt8, UInt32.toNat_toUInt8, UInt32.toNat_and]
  have hmask : w.toNat &&& UInt32.toNat 0xFF = w.toNat % 2 ^ 8 :=
    Nat.and_two_pow_sub_one_eq_mod w.toNat 8
  rw [hmask, Nat.mod_mod]

theorem writeWord_eq (buffer : Bytes) (w : UInt32) :
    writeWord buffer w = buffer ++ BigEndian.bytes w := by
  simp only [writeWord, pushByte, toUInt8_and_mask, BigEndian.bytes, List.append_assoc,
    List.cons_append, List.nil_append]

/-- **A head is put behind a buffer** as its twelve bytes, and the buffer stays as it is. -/
theorem encodeTo_loosen (h : Head) (buffer : Bytes) :
    h.loosen.encodeTo buffer = buffer ++ h.toBytes := by
  simp [encodeTo, writeWord_eq, Head.loosen, Head.toBytes, BigEndian.signedBytes]

/-! ### Reading -/

theorem readWord_eq (front rest : Bytes) (w : UInt32) :
    readWord (front ++ BigEndian.bytes w ++ rest) front.length = settle (.ok w) := by
  have hbyte : ∀ i, (front ++ BigEndian.bytes w ++ rest)[front.length + i]?
      = (BigEndian.bytes w ++ rest)[i]? := by
    intro i
    rw [List.append_assoc, List.getElem?_append_right (Nat.le_add_right _ _), Nat.add_sub_cancel_left]
  have hfirst := hbyte 0
  rw [Nat.add_zero] at hfirst
  rw [readWord, hfirst, hbyte, hbyte, hbyte]
  show (pure (BigEndian.join _ _ _ _) : Cursor.Reading UInt32) = _
  rw [BigEndian.join_bytes]
  rfl

/-- The parts of a head are found at their offsets. -/
theorem decode_toBytes_append (h : Head) (rest : Bytes) :
    decode (.bytes (h.toBytes ++ rest)) = settle (.ok h.loosen) := by
  have hlength : Head.size ≤ (h.toBytes ++ rest).length := by simp
  have hcode : Cursor.slice (h.toBytes ++ rest) 0 4 = settle (.ok h.magic.toBytes) :=
    Cursor.slice_eq (Nat.le_trans (by decide) hlength)
  have htotal : readWord (h.toBytes ++ rest) 4 = settle (.ok h.totalSize.toUInt32) := by
    rw [Head.toBytes, List.append_assoc]
    exact readWord_eq h.magic.toBytes _ _
  have hmetadata : readWord (h.toBytes ++ rest) 8 = settle (.ok h.metadataSize.toUInt32) :=
    readWord_eq (h.magic.toBytes ++ BigEndian.signedBytes h.totalSize) rest _
  rw [decode, if_neg (Nat.not_lt.2 hlength), hcode, Cursor.settle_ok_bind, htotal,
    Cursor.settle_ok_bind, hmetadata, Cursor.settle_ok_bind]
  rfl

/-- **The machine reads a head as it is read from the front of some bytes**, and does not read outside
the buffer. -/
theorem decode_eq (buffer : Buffer) :
    decode buffer = settle ((Head.decode buffer).map Head.loosen) := by
  cases buffer with
  | announced size => rfl
  | bytes b =>
    rw [Head.decode]
    cases hread : Head.read b with
    | error fault =>
      obtain ⟨hlength, rfl⟩ := Head.read_eq_error_iff.1 hread
      rw [decode, if_pos hlength]
      rfl
    | ok result =>
      obtain ⟨h, rest⟩ := result
      rw [Head.eq_of_read_eq_ok hread, decode_toBytes_append]
      rfl

/-! ### Handling a head in place -/

/-- A magic code that is refused leaves the head as it was. -/
theorem run_setMagic_loosen (h : Head) (code : Bytes) :
    (setMagic code).run.run h.loosen
      = some (match h.withMagic code with
        | .ok other => (.ok (), other.loosen)
        | .error fault => (.error fault, h.loosen)) := by
  rw [setMagic, Head.withMagic]
  cases hcode : Magic.ofBytes? code with
  | none =>
    rw [if_pos (Magic.ofBytes?_eq_none_iff.1 hcode)]
    rfl
  | some magic =>
    rw [Magic.ofBytes?_eq_some_iff.1 hcode, Magic.length_toBytes, if_neg (not_not.2 rfl)]
    rfl

theorem act_setMagic_of_length_eq (h : Head) {code : Bytes} (hcode : code.length = 4) :
    h.loosen.act (.setMagic code) = some ({ h.loosen with code }, none) := by
  rw [act, handle, setMagic, if_neg (not_not.2 hcode)]
  rfl

theorem act_setMagic_of_length_ne (h : Head) {code : Bytes} (hcode : code.length ≠ 4) :
    h.loosen.act (.setMagic code) = some (h.loosen, some .magicLength) := by
  rw [act, handle, setMagic, if_pos hcode]
  rfl

theorem construct_eq (code : Bytes) :
    construct code = settle ((Head.ofMagic code).map Head.loosen) := by
  have hnew : ({} : LooseHead) = ({} : Head).loosen := rfl
  rw [construct, hnew, run_setMagic_loosen, Head.ofMagic]
  cases Head.withMagic {} code <;> rfl

theorem run_replace_loosen (h : Head) (other : Except Fault Head) :
    (replace (settle (other.map Head.loosen))).run.run h.loosen
      = some (match other with
        | .ok other => (.ok (), other.loosen)
        | .error fault => (.error fault, h.loosen)) := by
  cases other <;> rfl

/-- **One action.** -/
theorem act_loosen (h : Head) (action : Head.Action) :
    h.loosen.act action = some ((h.act action).1.loosen, (h.act action).2) := by
  cases action with
  | construct code =>
    rw [act, handle, construct_eq, run_replace_loosen, Head.act]
    cases Head.ofMagic code <;> rfl
  | setMagic code =>
    rw [act, handle, run_setMagic_loosen, Head.act]
    cases h.withMagic code <;> rfl
  | setTotalSize size => rfl
  | setMetadataSize size => rfl
  | decode buffer =>
    rw [act, handle, decode_eq, run_replace_loosen, Head.act]
    cases Head.decode buffer <;> rfl

/-- **Many actions.** A head in place does not go astray and is a head throughout. -/
theorem after_loosen (h : Head) (actions : List Head.Action) :
    h.loosen.after actions = some (h.after actions).loosen := by
  induction actions generalizing h with
  | nil => rfl
  | cons action actions ih =>
    rw [after, List.foldlM_cons, act_loosen]
    exact ih (h.act action).1

theorem exists_after_eq_loosen (h : Head) :
    ∃ actions, ({} : LooseHead).after actions = some h.loosen := by
  have hnew : ({} : LooseHead) = ({} : Head).loosen := rfl
  refine ⟨[.setMagic h.magic.toBytes, .setTotalSize h.totalSize,
    .setMetadataSize h.metadataSize], ?_⟩
  rw [hnew, after_loosen]
  rfl

end LooseHead

/-! ### Heads and twelve bytes -/

namespace Head

open Cursor (settle)

theorem decode_toBytes_append (h : Head) (rest : Bytes) :
    decode (.bytes (h.toBytes ++ rest)) = .ok h := by
  rw [decode, read_toBytes_append]
  rfl

/-- Twelve bytes are the bytes of the head that is read from them. -/
theorem exists_decode {b : Bytes} (hb : size ≤ b.length) :
    ∃ h, decode (.bytes b) = .ok h ∧ h.toBytes = b.take size := by
  have hread := read_of_le hb
  refine ⟨front b, ?_, ?_⟩
  · rw [decode, hread]
    rfl
  · conv_rhs => rw [eq_of_read_eq_ok hread]
    rw [← length_toBytes (front b), List.take_left]

theorem decode_of_lt {b : Bytes} (hb : b.length < size) :
    decode (.bytes b) = .error (.incomplete .head) := by
  rw [decode, read_eq_error_iff.2 ⟨hb, rfl⟩]
  rfl

/-- **Heads are the byte strings of twelve bytes.** -/
theorem toBytes_bijective :
    Function.Bijective fun h : Head =>
      (⟨h.toBytes, h.length_toBytes⟩ : {b : Bytes // b.length = size}) := by
  constructor
  · intro h h' heq
    have hdecode := decode_toBytes_append h []
    rw [Subtype.mk.inj heq, decode_toBytes_append] at hdecode
    exact (Except.ok.inj hdecode).symm
  · rintro ⟨b, hb⟩
    obtain ⟨h, -, hbytes⟩ := exists_decode (Nat.le_of_eq hb.symm)
    refine ⟨h, Subtype.ext ?_⟩
    show h.toBytes = b
    rw [hbytes, ← hb, List.take_length]

/-- **Heads and their bytes.** Whatever is done with a head in place, it does not go astray, and it is
a head with a magic code of four bytes; every head comes about like this. A magic code of another length
is refused as the caller's mistake and changes nothing. A head is put behind any buffer as its twelve
bytes, and is read back from them whatever follows. From any twelve bytes a head is read that has just
these bytes, and from fewer none, which is a mistake in the format. -/
theorem codec_bijective :
    (∀ actions, ∃ h : Head, ({} : LooseHead).after actions = some h.loosen) ∧
    (∀ h : Head, ∃ actions, ({} : LooseHead).after actions = some h.loosen) ∧
    (∀ h : Head, h.loosen.code.length = 4 ∧
      (∀ code, code.length = 4 →
        h.loosen.act (.setMagic code) = some ({ h.loosen with code }, none)) ∧
      (∀ code, code.length ≠ 4 → ∃ fault, fault.kind = .argument ∧
        h.loosen.act (.setMagic code) = some (h.loosen, some fault)) ∧
      h.toBytes.length = 12 ∧
      (∀ buffer, h.loosen.encodeTo buffer = buffer ++ h.toBytes) ∧ h.loosen.encode = h.toBytes ∧
      ∀ rest, decode (.bytes (h.toBytes ++ rest)) = .ok h) ∧
    (∀ buffer, LooseHead.decode buffer = settle ((decode buffer).map loosen)) ∧
    (∀ b : Bytes, 12 ≤ b.length → ∃ h, decode (.bytes b) = .ok h ∧ h.toBytes = b.take 12) ∧
    (∀ b : Bytes, b.length < 12 → ∃ fault, fault.kind = .format ∧
      decode (.bytes b) = .error fault) ∧
    Function.Bijective fun h : Head =>
      (⟨h.toBytes, h.length_toBytes⟩ : {b : Bytes // b.length = 12}) := by
  refine ⟨fun actions => ⟨_, LooseHead.after_loosen {} actions⟩, LooseHead.exists_after_eq_loosen,
    fun h => ⟨rfl, fun code hcode => LooseHead.act_setMagic_of_length_eq h hcode,
      fun code hcode => ⟨_, rfl, LooseHead.act_setMagic_of_length_ne h hcode⟩, rfl,
      LooseHead.encodeTo_loosen h, LooseHead.encodeTo_loosen h [], decode_toBytes_append h⟩,
    LooseHead.decode_eq, fun b => exists_decode, fun b hb => ⟨_, rfl, decode_of_lt hb⟩,
    toBytes_bijective⟩

end Head

end RpcFraming
