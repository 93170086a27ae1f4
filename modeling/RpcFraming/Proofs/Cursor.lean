import RpcFraming.Packet.Cursor

/-!
# Reading at an offset is reading

The reader that moves an offset over the buffer never goes astray: it cuts no slice outside the
buffer, and no difference of words wraps around. So it comes to the same result as
`Packet.decode`, on every buffer whose size is a word.

Each step is shown to settle (`settle`) on what the corresponding step of `Packet.decode` gives,
under the invariant that the offset is inside the buffer; the step's own success keeps the
invariant.
-/

namespace RpcFraming.Cursor

/-! ### Settled steps -/

/-- The step that has the given result. -/
def settle {α : Type} (x : Except Fault α) : Reading α := ExceptT.mk (some x)

section Settle

variable {α β : Type}

theorem settle_ok_bind (a : α) (f : α → Reading β) : (settle (.ok a) >>= f) = f a := rfl

/-- Steps that settle one after the other are one step that settles. -/
theorem settle_bind {x : Except Fault α} {f : α → Reading β} {g : α → Except Fault β}
    (h : ∀ a, x = .ok a → f a = settle (g a)) : (settle x >>= f) = settle (x >>= g) := by
  cases x with
  | error fault => rfl
  | ok a => exact h a rfl

end Settle

/-! ### Slices -/

section Slices

variable {b : Bytes} {offset needed : UInt64} {part : Part}

theorem toNat_sizeOf (hb : b.length < UInt64.size) : (sizeOf b).toNat = b.length :=
  UInt64.toNat_ofNat_of_lt' hb

/-- Behind an offset inside the buffer, the bytes that are left are counted right. -/
theorem checkRemaining_eq (hb : b.length < UInt64.size) (hoffset : offset.toNat ≤ b.length) :
    checkRemaining part offset needed (sizeOf b)
      = settle (if b.length < offset.toNat + needed.toNat then .error (.incomplete part) else .ok ()) := by
  have hle : offset ≤ sizeOf b := by
    rw [UInt64.le_iff_toNat_le, toNat_sizeOf hb]
    exact hoffset
  have hlt : sizeOf b - offset < needed ↔ b.length < offset.toNat + needed.toNat := by
    rw [UInt64.lt_iff_toNat_lt, UInt64.toNat_sub_of_le _ _ hle, toNat_sizeOf hb]
    omega
  rw [checkRemaining, remaining, if_pos hle]
  by_cases h : b.length < offset.toNat + needed.toNat
  · rw [if_pos h]
    exact if_pos (hlt.2 h)
  · rw [if_neg h]
    exact if_neg (mt hlt.1 h)

theorem slice_eq (h : offset.toNat + needed.toNat ≤ b.length) :
    slice b offset needed = settle (.ok ((b.drop offset.toNat).take needed.toNat)) := if_pos h

/-- What is cut off at an offset is what is taken from the bytes behind it. -/
theorem cut_eq (hb : b.length < UInt64.size) (hoffset : offset.toNat ≤ b.length) :
    cut part b offset needed
      = settle ((takePart part needed.toNat (b.drop offset.toNat)).map Prod.fst) := by
  rw [cut, checkRemaining_eq hb hoffset]
  by_cases h : b.length < offset.toNat + needed.toNat
  · have htake : takePart part needed.toNat (b.drop offset.toNat) = .error (.incomplete part) := by
      refine takePart_eq_error_iff.2 ⟨?_, rfl⟩
      rw [List.length_drop]
      omega
    rw [if_pos h, htake]
    rfl
  · have htake : takePart part needed.toNat (b.drop offset.toNat)
        = .ok ((b.drop offset.toNat).take needed.toNat, (b.drop offset.toNat).drop needed.toNat) := by
      refine takePart_eq_ok_iff.2 ⟨?_, (List.take_append_drop _ _).symm⟩
      rw [List.length_take, List.length_drop]
      omega
    rw [if_neg h, htake, settle_ok_bind, slice_eq (Nat.le_of_not_lt h)]
    rfl

theorem le_length_of_takePart (hb : b.length < UInt64.size) (hoffset : offset.toNat ≤ b.length)
    {r : Bytes × Bytes} (h : takePart part needed.toNat (b.drop offset.toNat) = .ok r) :
    (offset + needed).toNat ≤ b.length ∧ r.2 = b.drop (offset + needed).toNat := by
  obtain ⟨hlength, heq⟩ := takePart_eq_ok_iff.1 h
  have hall : b.length - offset.toNat = r.1.length + r.2.length := by
    rw [← List.length_drop, heq, List.length_append]
  have hsum : (offset + needed).toNat = offset.toNat + needed.toNat := by
    rw [UInt64.toNat_add]
    exact Nat.mod_eq_of_lt (by rw [UInt64.size] at hb; omega)
  refine ⟨by omega, ?_⟩
  rw [hsum, ← List.drop_drop, heq, ← hlength, List.drop_left]

/-- Nothing is looked for where there is nothing to read, and nothing is found. -/
theorem readPart_eq (hb : b.length < UInt64.size) (hoffset : offset.toNat ≤ b.length) :
    readPart part b offset needed
      = settle ((takePart part needed.toNat (b.drop offset.toNat)).map Prod.fst) := by
  by_cases h : needed = 0
  · have htake : takePart part needed.toNat (b.drop offset.toNat) = .ok ([], b.drop offset.toNat) := by
      rw [h]
      exact takePart_eq_ok_iff.2 ⟨rfl, rfl⟩
    rw [htake, readPart, if_pos h]
    rfl
  · rw [readPart, if_neg h]
    exact cut_eq hb hoffset

end Slices

/-! ### Stages -/

section Stages

variable {b : Bytes} {head : Head}

theorem readHead_eq (hb : b.length < UInt64.size) :
    readHead b = settle ((Head.read b).map Prod.fst) := by
  have hsmall : sizeOf b < 12 ↔ b.length < 12 := by
    rw [UInt64.lt_iff_toNat_lt, toNat_sizeOf hb]
    rfl
  rw [readHead]
  cases hread : Head.read b with
  | error fault =>
    obtain ⟨hlt, rfl⟩ := Head.read_eq_error_iff.1 hread
    rw [if_pos (hsmall.2 hlt)]
    rfl
  | ok r =>
    obtain ⟨head, rest⟩ := r
    obtain rfl := Head.eq_of_read_eq_ok hread
    have hroom : (0 : UInt64).toNat + (12 : UInt64).toNat ≤ (head.toBytes ++ rest).length := by
      rw [List.length_append, Head.length_toBytes]
      exact Nat.le_add_right _ _
    have hfront : ((head.toBytes ++ rest).drop 0).take 12 = head.toBytes ++ [] := by
      rw [List.drop_zero, List.append_nil, ← Head.size, ← Head.length_toBytes head, List.take_left]
    rw [if_neg (mt hsmall.1 (Nat.not_lt.2 hroom)), slice_eq hroom, settle_ok_bind]
    show (settle (Head.read (((head.toBytes ++ rest).drop 0).take 12)) >>= _) = _
    rw [hfront, Head.read_toBytes_append]
    rfl

theorem toNat_toUInt64 {i : Int32} (h : ¬ i < 0) : i.toInt64.toUInt64.toNat = i.toNatClampNeg := by
  have hnonneg : 0 ≤ i.toInt64 := by
    rw [Int32.lt_iff_toInt_lt, Int32.toInt_zero] at h
    rw [Int64.le_iff_toInt_le, Int64.toInt_zero, Int32.toInt_toInt64]
    omega
  rw [Int64.toNat_toUInt64_of_le hnonneg, Int32.toNatClampNeg_toInt64]

/-- The metadata is found behind the head, and the offset after it is inside the buffer. -/
theorem readMetadata_eq (hb : b.length < UInt64.size) (hhead : 12 ≤ b.length) (head : Head) :
    ∃ offset : UInt64,
      readMetadata b head = settle ((head.takeMetadata (b.drop 12)).map fun r => (r.1, offset)) ∧
      ∀ r, head.takeMetadata (b.drop 12) = .ok r →
        offset.toNat ≤ b.length ∧ r.2 = b.drop offset.toNat := by
  refine ⟨12 + head.metadataSize.toInt64.toUInt64, ?_⟩
  rw [readMetadata, Head.takeMetadata]
  by_cases hneg : head.metadataSize < 0
  · rw [if_pos hneg, if_pos hneg]
    refine ⟨rfl, fun r hr => ?_⟩
    cases hr
  · rw [if_neg hneg, if_neg hneg, ← toNat_toUInt64 hneg]
    generalize head.metadataSize.toInt64.toUInt64 = needed
    have hstart : (12 : UInt64).toNat ≤ b.length := hhead
    have hcut : cut .metadata b 12 needed
        = settle ((takePart .metadata needed.toNat (b.drop 12)).map Prod.fst) := cut_eq hb hstart
    constructor
    · simp only [hcut]
      cases takePart .metadata needed.toNat (b.drop 12) <;> rfl
    · intro r hr
      exact le_length_of_takePart hb hstart hr

theorem readPayload_eq (hb : b.length < UInt64.size) {offset : UInt64}
    (hoffset : offset.toNat ≤ b.length) (attachmentSize : Int32) :
    readPayload b head attachmentSize offset
      = settle (head.takePayload attachmentSize (b.drop offset.toNat)) := by
  rw [readPayload, Head.takePayload]
  by_cases hattachment : attachmentSize < 0
  · rw [if_pos hattachment, if_pos hattachment]
    rfl
  by_cases hdata : head.dataSize attachmentSize < 0
  · rw [if_neg hattachment, if_neg hattachment, if_pos hdata, if_pos hdata]
    rfl
  have hnonneg : 0 ≤ head.dataSize attachmentSize := by
    rw [Int64.lt_iff_toInt_lt, Int64.toInt_zero] at hdata
    rw [Int64.le_iff_toInt_le, Int64.toInt_zero]
    omega
  rw [if_neg hattachment, if_neg hattachment, if_neg hdata, if_neg hdata,
    ← Int64.toNat_toUInt64_of_le hnonneg, ← toNat_toUInt64 hattachment]
  generalize (head.dataSize attachmentSize).toUInt64 = needed
  simp only [readPart_eq hb hoffset]
  cases htake : takePart .data needed.toNat (b.drop offset.toNat) with
  | error fault => rfl
  | ok r =>
    obtain ⟨hoffset', hrest⟩ := le_length_of_takePart hb hoffset htake
    show (readPart .attachment b (offset + needed) _ >>= _) = settle (takePart _ _ r.2 >>= _)
    rw [readPart_eq hb hoffset', ← hrest]
    cases takePart .attachment attachmentSize.toInt64.toUInt64.toNat r.2 <;> rfl

end Stages

/-- **Reading at an offset** is decoding, on every buffer whose size is a word. -/
theorem decode_eq (codec : Codec Id) (now : Int64) {b : Bytes} (hb : b.length < UInt64.size) :
    decode codec now b = settle (Id.run (Packet.decode codec now (.bytes b)).run) := by
  rw [decode, readHead_eq hb, Packet.run_decode]
  cases hread : Head.read b with
  | error fault => rfl
  | ok r =>
    obtain ⟨head, body⟩ := r
    have hb' := Head.eq_of_read_eq_ok hread
    have hhead : 12 ≤ b.length := by
      rw [hb', List.length_append, Head.length_toBytes]
      exact Nat.le_add_right _ _
    have hbody : body = b.drop 12 := by
      rw [hb', ← Head.size, ← Head.length_toBytes head, List.drop_left]
    obtain ⟨offset, hmetadata, hoffset⟩ := readMetadata_eq hb hhead head
    show (readMetadata b head >>= _) = settle (head.takeMetadata body >>= _)
    rw [hmetadata, hbody]
    cases htake : head.takeMetadata (b.drop 12) with
    | error fault => rfl
    | ok r =>
      obtain ⟨hle, hrest⟩ := hoffset r htake
      show (settle (Id.run (Metadata.decode codec (.bytes r.1)).run) >>= _) = settle (_ >>= _)
      refine settle_bind fun metadata _ => ?_
      show (readPayload b head metadata.attachmentSize offset >>= _) = _
      rw [readPayload_eq hb hle, ← hrest]
      exact settle_bind fun _ _ => rfl

end RpcFraming.Cursor
