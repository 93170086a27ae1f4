import RpcFraming.Boundary
import RpcFraming.Proofs.Cursor
import RpcFraming.Proofs.Frame
import Mathlib.Tactic.Common

/-!
# Which bytes are accepted

Three sizes decide where the parts of a frame lie: two stand in the head, the third in the metadata
that the first two lead to, and all three may be anything. A reader looks at one part after the other
and stops at the first that cannot be there. Taken together its checks are one condition on the bytes
(`Frame.WellFormed`).

A check is a `Requirement`. Each stage of decoding is shown to check a few of them and then to give a
result that is known beforehand (`Requirement.check`), and `Requirement.check_bind` puts the stages
together; so the first requirement that is not met is the one that is reported.

## What is proved

* `Frame.run_decode_eq_check`: decoding checks the eight requirements in order and then gives
  `Frame.packet`.
* `Frame.decoded_congr`, `Frame.wellFormed_take_iff`: only the frame itself is looked at, and all
  of it is needed.
* `Frame.WellFormed.frameSize?_eq`: the receiver finds the end of the same frame.
* `Frame.decoded_iff_wellFormed`: all this in one place, for the reader in 64-bit words as well.
-/

namespace RpcFraming

/-! ### The sizes that some bytes announce -/

/-- The head that the first bytes are. Bytes that are not there count as 0. -/
def Head.front (b : Bytes) : Head where
  magic := ⟨b.getD 0 0, b.getD 1 0, b.getD 2 0, b.getD 3 0⟩
  totalSize := BigEndian.joinSigned (b.getD 4 0) (b.getD 5 0) (b.getD 6 0) (b.getD 7 0)
  metadataSize := BigEndian.joinSigned (b.getD 8 0) (b.getD 9 0) (b.getD 10 0) (b.getD 11 0)

@[simp] theorem Head.front_toBytes_append (h : Head) (rest : Bytes) :
    front (h.toBytes ++ rest) = h := by
  simp [front, toBytes, Magic.toBytes, BigEndian.signedBytes, BigEndian.bytes, BigEndian.joinSigned]

/-- Twelve bytes are enough for a head. -/
theorem Head.read_of_le {b : Bytes} (h : size ≤ b.length) :
    read b = .ok (front b, b.drop size) := by
  cases hread : read b with
  | error fault =>
    obtain ⟨hlt, -⟩ := read_eq_error_iff.1 hread
    exact absurd h (Nat.not_le.2 hlt)
  | ok r =>
    obtain ⟨head, rest⟩ := r
    have hb := eq_of_read_eq_ok hread
    rw [hb, front_toBytes_append, ← length_toBytes head, List.drop_left]

namespace Frame

/-- The size of the body, as the head says. -/
def totalSize (b : Bytes) : Int := (Head.front b).totalSize.toInt

/-- The size of the serialized metadata, as the head says. -/
def metadataSize (b : Bytes) : Int := (Head.front b).metadataSize.toInt

/-- The bytes from one place to another. -/
def between (b : Bytes) (i j : Int) : Bytes := b.extract i.toNat j.toNat

/-- The metadata that is parsed from its bytes behind the head. -/
def metadata? (codec : Codec Id) (b : Bytes) : Option Metadata :=
  (Id.run (codec.parse (between b 12 (12 + metadataSize b)))).map Message.toMetadata

/-- The size of the attachment, as the metadata says. -/
def attachmentSize (codec : Codec Id) (b : Bytes) : Int :=
  ((metadata? codec b).map fun x => x.attachmentSize.toInt).getD 0

/-! ### Requirements -/

/-- What is required of some bytes for them to begin with a frame. -/
inductive Requirement where
  /-- There are enough bytes for a head. -/
  | head
  /-- The metadata does not have a negative size. -/
  | metadataSize
  /-- There are enough bytes for the metadata. -/
  | metadata
  /-- The metadata can be parsed. -/
  | message
  /-- The attachment does not have a negative size. -/
  | attachmentSize
  /-- The body has room for metadata and attachment. -/
  | dataSize
  /-- There are enough bytes for the data. -/
  | data
  /-- There are enough bytes for the attachment. -/
  | attachment
  deriving Repr, DecidableEq

namespace Requirement

/-- The requirements in the order in which a reader meets them. -/
def inOrder : List Requirement :=
  [head, metadataSize, metadata, message, attachmentSize, dataSize, data, attachment]

/-- What is wrong with bytes that do not meet a requirement. -/
def fault : Requirement → Fault
  | head => .incomplete .head
  | metadataSize => .negative .metadata
  | metadata => .incomplete .metadata
  | message => .unparsable
  | attachmentSize => .negative .attachment
  | dataSize => .negative .data
  | data => .incomplete .data
  | attachment => .incomplete .attachment

/-- The bytes meet a requirement. -/
def Holds (codec : Codec Id) (b : Bytes) : Requirement → Prop
  | head => 12 ≤ b.length
  | metadataSize => 0 ≤ Frame.metadataSize b
  | metadata => 12 + Frame.metadataSize b ≤ b.length
  | message => (metadata? codec b).isSome
  | attachmentSize => 0 ≤ Frame.attachmentSize codec b
  | dataSize => Frame.metadataSize b + Frame.attachmentSize codec b ≤ totalSize b
  | data => 12 + totalSize b - Frame.attachmentSize codec b ≤ b.length
  | attachment => 12 + totalSize b ≤ b.length

instance (codec : Codec Id) (b : Bytes) : DecidablePred (Holds codec b)
  | head => inferInstanceAs (Decidable (_ ≤ _))
  | metadataSize => inferInstanceAs (Decidable (_ ≤ _))
  | metadata => inferInstanceAs (Decidable (_ ≤ _))
  | message => inferInstanceAs (Decidable (_ = true))
  | attachmentSize => inferInstanceAs (Decidable (_ ≤ _))
  | dataSize => inferInstanceAs (Decidable (_ ≤ _))
  | data => inferInstanceAs (Decidable (_ ≤ _))
  | attachment => inferInstanceAs (Decidable (_ ≤ _))

/-- The first of some requirements that the bytes do not meet. -/
def firstBroken? (codec : Codec Id) (b : Bytes) (requirements : List Requirement) :
    Option Requirement :=
  requirements.find? fun r => ¬ r.Holds codec b

variable {codec : Codec Id} {b : Bytes} {α β : Type}

theorem firstBroken?_eq_none_iff {requirements : List Requirement} :
    firstBroken? codec b requirements = none ↔ ∀ r ∈ requirements, r.Holds codec b := by
  simp [firstBroken?]

/-- A result for bytes that meet some requirements. -/
def check (codec : Codec Id) (b : Bytes) (requirements : List Requirement) (x : α) : Except Fault α :=
  match firstBroken? codec b requirements with
  | some r => .error r.fault
  | none => .ok x

theorem check_nil (x : α) : check codec b [] x = .ok x := rfl

theorem check_cons_of_not {r : Requirement} (h : ¬ r.Holds codec b) (later : List Requirement)
    (x : α) : check codec b (r :: later) x = .error r.fault := by
  have hfirst : firstBroken? codec b (r :: later) = some r := List.find?_cons_of_pos (by simpa using h)
  rw [check, hfirst]

theorem check_cons_of_holds {r : Requirement} (h : r.Holds codec b) (later : List Requirement)
    (x : α) : check codec b (r :: later) x = check codec b later x := by
  have hfirst : firstBroken? codec b (r :: later) = firstBroken? codec b later :=
    List.find?_cons_of_neg (by simpa using h)
  rw [check, check, hfirst]

theorem check_eq_ok_iff {requirements : List Requirement} {x y : α} :
    check codec b requirements x = .ok y ↔ (∀ r ∈ requirements, r.Holds codec b) ∧ y = x := by
  rw [← firstBroken?_eq_none_iff, check]
  cases firstBroken? codec b requirements <;> simp [eq_comm]

/-- What is done once some requirements are met may go on checking others. -/
theorem check_bind {earlier later : List Requirement} {x : α} {y : β} {f : α → Except Fault β}
    (h : (∀ r ∈ earlier, r.Holds codec b) → f x = check codec b later y) :
    (check codec b earlier x >>= f) = check codec b (earlier ++ later) y := by
  induction earlier with
  | nil => exact h (by simp)
  | cons r earlier ih =>
    by_cases hr : r.Holds codec b
    · rw [List.cons_append, check_cons_of_holds hr, check_cons_of_holds hr]
      refine ih fun hearlier => h ?_
      rw [List.forall_mem_cons]
      exact ⟨hr, hearlier⟩
    · rw [List.cons_append, check_cons_of_not hr, check_cons_of_not hr]
      rfl

end Requirement

open Requirement

/-! ### Stages of decoding -/

section Stages

variable {codec : Codec Id} {b : Bytes}

theorem read_eq_check : Head.read b = check codec b [.head] (Head.front b, b.drop 12) := by
  by_cases h : Requirement.Holds codec b .head
  · rw [check_cons_of_holds h, check_nil]
    exact Head.read_of_le h
  · rw [check_cons_of_not h]
    exact Head.read_eq_error_iff.2 ⟨Nat.lt_of_not_le h, rfl⟩

theorem takePart_drop {part : Part} {i n : Nat} (hi : i ≤ b.length) :
    takePart part n (b.drop i)
      = if b.length < i + n then .error (.incomplete part)
        else .ok (b.extract i (i + n), b.drop (i + n)) := by
  split
  · next h =>
    refine takePart_eq_error_iff.2 ⟨?_, rfl⟩
    rw [List.length_drop]
    omega
  · next h =>
    refine takePart_eq_ok_iff.2 ⟨?_, ?_⟩
    · rw [List.extract_eq_take_drop, List.length_take, List.length_drop]
      omega
    · rw [List.extract_eq_take_drop, Nat.add_sub_cancel_left, ← List.drop_drop,
        List.take_append_drop]

/-- A part that lies between two places is there if the requirement says so. -/
theorem takePart_eq_check {r : Requirement} {part : Part} {n : Nat} {i j : Int} (hi : 0 ≤ i)
    (hij : i + n = j) (hb : i ≤ b.length) (hr : r.Holds codec b ↔ j ≤ b.length)
    (hfault : r.fault = .incomplete part) :
    takePart part n (b.drop i.toNat) = check codec b [r] (between b i j, b.drop j.toNat) := by
  have hend : i.toNat + n = j.toNat := by omega
  rw [takePart_drop (by omega), hend]
  by_cases h : r.Holds codec b
  · have hj := hr.1 h
    rw [check_cons_of_holds h, check_nil, if_neg (by omega), between]
  · have hj := mt hr.2 h
    rw [check_cons_of_not h, if_pos (by omega), hfault]

/-- The metadata is cut out behind the head. -/
theorem takeMetadata_eq_check (hhead : Requirement.Holds codec b .head) :
    (Head.front b).takeMetadata (b.drop 12)
      = check codec b [.metadataSize, .metadata]
          (between b 12 (12 + metadataSize b), b.drop (12 + metadataSize b).toNat) := by
  have hsign : (Head.front b).metadataSize < 0 ↔ metadataSize b < 0 := Int32.lt_iff_toInt_lt
  rw [Head.takeMetadata]
  by_cases hneg : Requirement.Holds codec b .metadataSize
  · have hnonneg : 0 ≤ (Head.front b).metadataSize.toInt := hneg
    have hcount : (12 : Int) + (Head.front b).metadataSize.toNatClampNeg = 12 + metadataSize b := by
      rw [Int32.toNatClampNeg, Int.toNat_of_nonneg hnonneg, metadataSize]
    have hlength : (12 : Int) ≤ b.length := Int.ofNat_le.2 hhead
    rw [if_neg (mt hsign.1 (Int.not_lt.2 hneg)), check_cons_of_holds hneg]
    exact takePart_eq_check (by decide) hcount hlength Iff.rfl rfl
  · rw [if_pos (hsign.2 (Int.not_le.1 hneg)), check_cons_of_not hneg]
    rfl

/-- A section of metadata is never too large to be looked at. -/
theorem length_metadata_le : (between b 12 (12 + metadataSize b)).length ≤ sizeLimit := by
  have h := (Head.front b).metadataSize.toInt_lt
  rw [between, List.extract_eq_take_drop, List.length_take, sizeLimit, metadataSize]
  omega

/-- The metadata is parsed from its own bytes. -/
theorem run_decode_metadata_eq_check :
    Id.run (Metadata.decode codec (.bytes (between b 12 (12 + metadataSize b)))).run
      = check codec b [.message] ((metadata? codec b).getD {}) := by
  rw [Metadata.run_decode codec length_metadata_le]
  cases hparse : Id.run (codec.parse (between b 12 (12 + metadataSize b))) with
  | none =>
    have hnone : metadata? codec b = none := by rw [metadata?, hparse, Option.map_none]
    have hbroken : ¬ Requirement.Holds codec b .message := by simp [Requirement.Holds, hnone]
    rw [check_cons_of_not hbroken]
    rfl
  | some message =>
    have hsome : metadata? codec b = some message.toMetadata := by
      rw [metadata?, hparse, Option.map_some]
    have hholds : Requirement.Holds codec b .message := by simp [Requirement.Holds, hsome]
    rw [check_cons_of_holds hholds, check_nil, hsome, Option.getD_some]

/-- What metadata and attachment leave of the body is computed without overflow. -/
theorem toInt_dataSize_front (a : Int32) :
    ((Head.front b).dataSize a).toInt = totalSize b - metadataSize b - a.toInt :=
  Head.toInt_dataSize _ _

theorem dataSize_front_neg_iff {a : Int32} :
    (Head.front b).dataSize a < 0 ↔ totalSize b < metadataSize b + a.toInt := by
  rw [Int64.lt_iff_toInt_lt, toInt_dataSize_front, Int64.toInt_zero]
  omega

/-- Data and attachment are cut out behind the metadata. -/
theorem takePayload_eq_check {x : Metadata} (hx : metadata? codec b = some x)
    (hneg : Requirement.Holds codec b .metadataSize) (hfits : Requirement.Holds codec b .metadata) :
    (Head.front b).takePayload x.attachmentSize (b.drop (12 + metadataSize b).toNat)
      = check codec b [.attachmentSize, .dataSize, .data, .attachment]
          (between b (12 + metadataSize b) (12 + totalSize b - attachmentSize codec b),
            between b (12 + totalSize b - attachmentSize codec b) (12 + totalSize b)) := by
  have hsize : x.attachmentSize.toInt = attachmentSize codec b := by
    rw [attachmentSize, hx, Option.map_some, Option.getD_some]
  have hsign : x.attachmentSize < 0 ↔ attachmentSize codec b < 0 := by
    rw [← hsize]
    exact Int32.lt_iff_toInt_lt
  have hroom : (Head.front b).dataSize x.attachmentSize < 0
      ↔ totalSize b < metadataSize b + attachmentSize codec b := by
    rw [dataSize_front_neg_iff, hsize]
  replace hneg : 0 ≤ metadataSize b := hneg
  replace hfits : 12 + metadataSize b ≤ b.length := hfits
  rw [Head.takePayload]
  by_cases hattachment : Requirement.Holds codec b .attachmentSize
  swap
  · rw [if_pos (hsign.2 (Int.not_le.1 hattachment)), check_cons_of_not hattachment]
    rfl
  rw [if_neg (mt hsign.1 (Int.not_lt.2 hattachment)), check_cons_of_holds hattachment]
  by_cases hdataSize : Requirement.Holds codec b .dataSize
  swap
  · rw [if_pos (hroom.2 (Int.not_le.1 hdataSize)), check_cons_of_not hdataSize]
    rfl
  rw [if_neg (mt hroom.1 (Int.not_lt.2 hdataSize)), check_cons_of_holds hdataSize]
  replace hattachment : 0 ≤ attachmentSize codec b := hattachment
  replace hdataSize : metadataSize b + attachmentSize codec b ≤ totalSize b := hdataSize
  -- where the data and the attachment end
  have hdataEnd : 12 + metadataSize b + ((Head.front b).dataSize x.attachmentSize).toNatClampNeg
      = 12 + totalSize b - attachmentSize codec b := by
    rw [Int64.toNatClampNeg, toInt_dataSize_front, hsize]
    omega
  have hattachmentEnd : 12 + totalSize b - attachmentSize codec b + x.attachmentSize.toNatClampNeg
      = 12 + totalSize b := by
    rw [Int32.toNatClampNeg, hsize]
    omega
  rw [takePart_eq_check (r := .data) (by omega) hdataEnd hfits Iff.rfl rfl]
  refine check_bind fun hdata => ?_
  replace hdata : 12 + totalSize b - attachmentSize codec b ≤ b.length := hdata .data (by simp)
  show (takePart .attachment _ (b.drop _) >>= _) = _
  rw [takePart_eq_check (r := .attachment) (by omega) hattachmentEnd hdata Iff.rfl rfl]
  exact check_bind fun _ => rfl

end Stages

/-- The packet that lies between the places that the sizes say. -/
def packet (codec : Codec Id) (now : Int64) (b : Bytes) : Packet where
  head := some (Head.front b)
  metadata := metadata? codec b
  data := between b (12 + metadataSize b) (12 + totalSize b - attachmentSize codec b)
  attachment := between b (12 + totalSize b - attachmentSize codec b) (12 + totalSize b)
  timestamp := now

/-- **Decoding, by its requirements.** -/
theorem run_decode_eq_check (codec : Codec Id) (now : Int64) (b : Bytes) :
    Id.run (Packet.decode codec now (.bytes b)).run
      = check codec b Requirement.inOrder (packet codec now b) := by
  rw [Packet.run_decode, read_eq_check]
  refine check_bind fun hhead => ?_
  show ((Head.front b).takeMetadata (b.drop 12) >>= _) = _
  rw [takeMetadata_eq_check (hhead _ (by simp))]
  refine check_bind fun hmetadata => ?_
  show (Id.run (Metadata.decode codec (.bytes _)).run >>= _) = _
  rw [run_decode_metadata_eq_check]
  refine check_bind fun hmessage => ?_
  obtain ⟨x, hx⟩ := Option.isSome_iff_exists.1 (hmessage .message (by simp))
  rw [hx, Option.getD_some]
  show ((Head.front b).takePayload x.attachmentSize _ >>= _) = _
  rw [takePayload_eq_check hx (hmetadata _ (by simp)) (hmetadata _ (by simp))]
  refine check_bind fun _ => ?_
  rw [packet, hx]
  rfl

/-! ### Well-formed frames -/

/-- The bytes begin with a well-formed frame. -/
structure WellFormed (codec : Codec Id) (b : Bytes) : Prop where
  /-- There is a head. -/
  head_le : 12 ≤ b.length
  /-- The metadata does not have a negative size. -/
  metadataSize_nonneg : 0 ≤ metadataSize b
  /-- The metadata is there. -/
  metadata_le : 12 + metadataSize b ≤ b.length
  /-- The metadata can be parsed. -/
  isSome_metadata : (metadata? codec b).isSome
  /-- The attachment does not have a negative size. -/
  attachmentSize_nonneg : 0 ≤ attachmentSize codec b
  /-- The body has room for metadata and attachment. -/
  payload_le : metadataSize b + attachmentSize codec b ≤ totalSize b
  /-- The body is there. -/
  total_le : 12 + totalSize b ≤ b.length

/-- The number of bytes of the frame that some bytes begin with. -/
def size (b : Bytes) : Nat := 12 + (totalSize b).toNat

variable {codec : Codec Id} {b : Bytes} {now : Int64}

theorem head_le_size : 12 ≤ size b := Nat.le_add_right _ _

theorem totalSize_le_size : 12 + totalSize b ≤ size b := by
  rw [size]
  omega

theorem wellFormed_iff : WellFormed codec b ↔ ∀ r ∈ Requirement.inOrder, r.Holds codec b := by
  constructor
  · intro h r _
    have hattachment := h.attachmentSize_nonneg
    have htotal := h.total_le
    cases r with
    | head => exact h.head_le
    | metadataSize => exact h.metadataSize_nonneg
    | metadata => exact h.metadata_le
    | message => exact h.isSome_metadata
    | attachmentSize => exact hattachment
    | dataSize => exact h.payload_le
    | data =>
      show 12 + totalSize b - attachmentSize codec b ≤ b.length
      omega
    | attachment => exact htotal
  · intro h
    exact ⟨h .head (by decide), h .metadataSize (by decide), h .metadata (by decide),
      h .message (by decide), h .attachmentSize (by decide), h .dataSize (by decide),
      h .attachment (by decide)⟩

/-- What comes of decoding some bytes. -/
def decoded (codec : Codec Id) (now : Int64) (b : Bytes) : Except Fault Packet :=
  Id.run (Packet.decode codec now (.bytes b)).run

theorem decoded_eq_ok_iff {p : Packet} :
    decoded codec now b = .ok p ↔ WellFormed codec b ∧ p = packet codec now b := by
  rw [decoded, run_decode_eq_check, check_eq_ok_iff, wellFormed_iff]

theorem kind_fault (r : Requirement) : r.fault.kind = .format := by
  cases r <;> rfl

theorem decoded_eq_error (now : Int64) (h : ¬ WellFormed codec b) :
    ∃ r, firstBroken? codec b Requirement.inOrder = some r ∧
      decoded codec now b = .error r.fault ∧ r.fault.kind = .format := by
  rw [wellFormed_iff, ← firstBroken?_eq_none_iff] at h
  obtain ⟨r, hr⟩ := Option.ne_none_iff_exists'.1 h
  refine ⟨r, hr, ?_, kind_fault r⟩
  rw [decoded, run_decode_eq_check, check, hr]

theorem exists_fault_of_not_wellFormed (now : Int64) (h : ¬ WellFormed codec b) :
    ∃ fault, decoded codec now b = .error fault ∧ fault.kind = .format := by
  obtain ⟨r, -, hdecoded, hkind⟩ := decoded_eq_error now h
  exact ⟨r.fault, hdecoded, hkind⟩

/-! ### Only the frame itself is looked at -/

theorem front_take {n : Nat} (h : 12 ≤ n) : Head.front (b.take n) = Head.front b := by
  simp (disch := omega) only [Head.front, List.getD_eq_getElem?_getD, List.getElem?_take_of_lt]

theorem between_take {n : Nat} {i j : Int} (h : j ≤ n) : between (b.take n) i j = between b i j := by
  rw [between, between, List.extract_eq_take_drop, List.extract_eq_take_drop, List.drop_take,
    List.take_take, Nat.min_eq_left (by omega)]

theorem totalSize_take {n : Nat} (h : 12 ≤ n) : totalSize (b.take n) = totalSize b := by
  rw [totalSize, totalSize, front_take h]

theorem metadataSize_take {n : Nat} (h : 12 ≤ n) : metadataSize (b.take n) = metadataSize b := by
  rw [metadataSize, metadataSize, front_take h]

theorem metadata?_take {n : Nat} (h : 12 ≤ n) (hn : 12 + metadataSize b ≤ n) :
    metadata? codec (b.take n) = metadata? codec b := by
  rw [metadata?, metadata?, metadataSize_take h, between_take hn]

theorem attachmentSize_take {n : Nat} (h : 12 ≤ n) (hn : 12 + metadataSize b ≤ n) :
    attachmentSize codec (b.take n) = attachmentSize codec b := by
  rw [attachmentSize, attachmentSize, metadata?_take h hn]

theorem size_take {n : Nat} (h : 12 ≤ n) : size (b.take n) = size b := by
  rw [size, size, totalSize_take h]

/-- The body of a well-formed frame is no shorter than its metadata. -/
theorem WellFormed.metadataSize_le (h : WellFormed codec b) : 12 + metadataSize b ≤ size b := by
  have hpayload := h.payload_le
  have hattachment := h.attachmentSize_nonneg
  rw [size]
  omega

/-- A well-formed frame is there as a whole. -/
theorem WellFormed.size_le (h : WellFormed codec b) : size b ≤ b.length := by
  have hhead := h.head_le
  have htotal := h.total_le
  rw [size]
  omega

/-- A prefix begins with a well-formed frame exactly if the whole does and the frame is not cut. -/
theorem wellFormed_take_iff {n : Nat} :
    WellFormed codec (b.take n) ↔ WellFormed codec b ∧ size b ≤ n := by
  have hlength : (b.take n).length = min n b.length := List.length_take
  constructor
  · intro h
    have hhead := h.head_le
    have hn : 12 ≤ n := by omega
    have hmetadata := h.metadata_le
    rw [metadataSize_take hn] at hmetadata
    have hfits : 12 + metadataSize b ≤ n := by omega
    have hneg := h.metadataSize_nonneg
    have hattachment := h.attachmentSize_nonneg
    have hpayload := h.payload_le
    have htotal := h.total_le
    have hsome := h.isSome_metadata
    rw [metadataSize_take hn] at hneg
    rw [attachmentSize_take hn hfits] at hattachment
    rw [metadataSize_take hn, attachmentSize_take hn hfits, totalSize_take hn] at hpayload
    rw [totalSize_take hn] at htotal
    rw [metadata?_take hn hfits] at hsome
    refine ⟨⟨by omega, hneg, by omega, hsome, hattachment, hpayload, by omega⟩, ?_⟩
    rw [size]
    omega
  · rintro ⟨h, hn⟩
    have hle := h.size_le
    have hfits := h.metadataSize_le
    have hneg := h.metadataSize_nonneg
    have htotal := totalSize_le_size (b := b)
    have hhead : 12 ≤ n := by omega
    have hfits' : 12 + metadataSize b ≤ n := by omega
    constructor
    · omega
    · rwa [metadataSize_take hhead]
    · rw [metadataSize_take hhead]
      omega
    · rw [metadata?_take hhead hfits']
      exact h.isSome_metadata
    · rw [attachmentSize_take hhead hfits']
      exact h.attachmentSize_nonneg
    · rw [metadataSize_take hhead, attachmentSize_take hhead hfits', totalSize_take hhead]
      exact h.payload_le
    · rw [totalSize_take hhead]
      omega

/-- The frame is all that a packet is made of. -/
theorem packet_take {n : Nat} (h : WellFormed codec b) (hn : size b ≤ n) (now : Int64) :
    packet codec now (b.take n) = packet codec now b := by
  have hfits := h.metadataSize_le
  have hneg := h.metadataSize_nonneg
  have hattachment := h.attachmentSize_nonneg
  have htotal := totalSize_le_size (b := b)
  have hhead : 12 ≤ n := by omega
  have hfits' : 12 + metadataSize b ≤ n := by omega
  rw [packet, packet, front_take hhead, metadata?_take hhead hfits',
    attachmentSize_take hhead hfits', metadataSize_take hhead, totalSize_take hhead,
    between_take (by omega), between_take (by omega)]

/-- Decoding a prefix. -/
theorem decoded_take_eq_ok_iff {n : Nat} {p : Packet} :
    decoded codec now (b.take n) = .ok p ↔ decoded codec now b = .ok p ∧ size b ≤ n := by
  rw [decoded_eq_ok_iff, decoded_eq_ok_iff, wellFormed_take_iff]
  constructor
  · rintro ⟨⟨h, hn⟩, rfl⟩
    exact ⟨⟨h, packet_take h hn now⟩, hn⟩
  · rintro ⟨⟨h, rfl⟩, hn⟩
    exact ⟨⟨h, hn⟩, (packet_take h hn now).symm⟩

/-- Bytes that begin alike as far as the frame goes are decoded to the same packets. -/
theorem decoded_congr {b' : Bytes} (h : b'.take (size b) = b.take (size b)) {p : Packet} :
    decoded codec now b' = .ok p ↔ decoded codec now b = .ok p := by
  have hsize : size b' = size b := by rw [← size_take head_le_size, h, size_take head_le_size]
  constructor
  · intro hok
    have htake := decoded_take_eq_ok_iff.2 ⟨hok, Nat.le_of_eq hsize⟩
    rw [h] at htake
    exact (decoded_take_eq_ok_iff.1 htake).1
  · intro hok
    have htake := decoded_take_eq_ok_iff.2 ⟨hok, Nat.le_refl _⟩
    rw [← h] at htake
    exact (decoded_take_eq_ok_iff.1 htake).1

/-! ### Where a frame ends -/

/-- The head says where the frame ends, as long as the body is not larger than is accepted. -/
theorem frameSize?_eq_some {limit : UInt32} (hhead : 12 ≤ b.length) (htotal : 0 ≤ totalSize b)
    (hlimit : totalSize b ≤ limit.toNat) : frameSize? limit (.bytes b) = .ok (some (size b)) := by
  have hdecode : Head.decode (.bytes b) = .ok (Head.front b) := by
    rw [Head.decode, Head.read_of_le hhead]
    rfl
  have hsize : ¬ (Buffer.bytes b).size < Head.size := Nat.not_lt.2 hhead
  have hnonneg : 0 ≤ (Head.front b).totalSize := by
    rw [Int32.le_iff_toInt_le, Int32.toInt_zero]
    exact htotal
  have hle : ¬ limit < (Head.front b).totalSize.toUInt32 := by
    rw [UInt32.lt_iff_toNat_lt, Int32.toNat_toUInt32_of_le hnonneg, Int32.toNatClampNeg, ← totalSize]
    omega
  rw [frameSize?, if_neg hsize, hdecode]
  show (if _ then _ else if _ then _ else _) = _
  rw [if_neg (Int32.not_lt.2 hnonneg), if_neg hle]
  rfl

/-- The receiver that accepts every size finds the end of every well-formed frame. -/
theorem WellFormed.frameSize?_eq (h : WellFormed codec b) {limit : UInt32}
    (hlimit : sizeLimit ≤ limit.toNat) : frameSize? limit (.bytes b) = .ok (some (size b)) := by
  have hmetadata := h.metadataSize_nonneg
  have hattachment := h.attachmentSize_nonneg
  have hpayload := h.payload_le
  have hmax := (Head.front b).totalSize.toInt_lt
  rw [← totalSize] at hmax
  rw [sizeLimit] at hlimit
  exact frameSize?_eq_some h.head_le (by omega) (by omega)

/-! ### Acceptance -/

/-- **Decoding accepts exactly the well-formed frames.** Anything else is a format fault: that of the
first requirement that is not met. The reader in 64-bit words comes to the same end and never goes
astray. What is accepted, and as which packet, hangs on the bytes of the frame alone, and a prefix that
cuts them is refused. For bytes that are refused this fixes the kind of the fault and not its message:
where the head says more metadata than body, the metadata is read and parsed beyond the end of the frame
before the sizes are compared. A receiver that accepts every size finds the frame's end inside the bytes,
and where it does not, nothing is decoded. -/
theorem decoded_iff_wellFormed (codec : Codec Id) (now : Int64) (b : Bytes) :
    (∀ p, decoded codec now b = .ok p ↔ WellFormed codec b ∧ p = packet codec now b) ∧
    (¬ WellFormed codec b → ∃ r, firstBroken? codec b Requirement.inOrder = some r ∧
      decoded codec now b = .error r.fault ∧ r.fault.kind = .format) ∧
    (b.length < UInt64.size → Cursor.decode codec now b = Cursor.settle (decoded codec now b)) ∧
    (∀ b' p, b'.take (size b) = b.take (size b) →
      (decoded codec now b' = .ok p ↔ decoded codec now b = .ok p)) ∧
    (∀ n < size b, ∃ fault, decoded codec now (b.take n) = .error fault ∧ fault.kind = .format) ∧
    ∀ limit : UInt32, sizeLimit ≤ limit.toNat →
      (WellFormed codec b → frameSize? limit (.bytes b) = .ok (some (size b)) ∧ size b ≤ b.length) ∧
      ((∀ n ≤ b.length, frameSize? limit (.bytes b) ≠ .ok (some n)) →
        ∃ fault, decoded codec now b = .error fault ∧ fault.kind = .format) := by
  refine ⟨fun p => decoded_eq_ok_iff, decoded_eq_error now, fun hb => Cursor.decode_eq codec now hb,
    fun b' p h => decoded_congr h, fun n hn => ?_, fun limit hlimit => ⟨fun h => ?_, fun hpeek => ?_⟩⟩
  · refine exists_fault_of_not_wellFormed now fun h => ?_
    exact absurd (wellFormed_take_iff.1 h).2 (Nat.not_le.2 hn)
  · exact ⟨h.frameSize?_eq hlimit, h.size_le⟩
  · refine exists_fault_of_not_wellFormed now fun h => ?_
    exact hpeek _ h.size_le (h.frameSize?_eq hlimit)

/-- `decoded_iff_wellFormed` on a frame of 40 bytes with one byte behind it. -/
theorem decoded_sampleFrame :
    (Packet.sampleFrame ++ [7]).length < UInt64.size ∧
      Cursor.decode Packet.sampleCodec 3 (Packet.sampleFrame ++ [7])
        = Cursor.settle (.ok { Packet.sampleSized with timestamp := 3 }) ∧
      WellFormed Packet.sampleCodec (Packet.sampleFrame ++ [7]) ∧
      (∃ fault, decoded Packet.sampleCodec 3 ((Packet.sampleFrame ++ [7]).take 39) = .error fault ∧
        fault.kind = .format) ∧
      sizeLimit ≤ (0x7FFFFFFF : UInt32).toNat ∧
      frameSize? 0x7FFFFFFF (.bytes (Packet.sampleFrame ++ [7])) = .ok (some 40) := by
  obtain ⟨hok, -, hcursor, -, hshort, hpeek⟩ :=
    decoded_iff_wellFormed Packet.sampleCodec 3 (Packet.sampleFrame ++ [7])
  have hdecoded : decoded Packet.sampleCodec 3 (Packet.sampleFrame ++ [7])
      = .ok { Packet.sampleSized with timestamp := 3 } := rfl
  have hwellFormed := ((hok _).1 hdecoded).1
  have hword : (Packet.sampleFrame ++ [7]).length < UInt64.size := by decide
  have hlimit : sizeLimit ≤ (0x7FFFFFFF : UInt32).toNat := by decide
  refine ⟨hword, ?_, hwellFormed, hshort 39 (by decide), hlimit, ((hpeek _ hlimit).1 hwellFormed).1⟩
  rw [hcursor hword, hdecoded]

end Frame

end RpcFraming
