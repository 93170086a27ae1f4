import RpcFraming.Proofs.Split
import RpcFraming.Proofs.Transmission

/-!
# Which packets are refused

A packet without a head or without metadata is in no state to be encoded. This module says when that
keeps a packet from being sent. A packet that stays whole is refused exactly if encoding refuses it.
The chunks of a packet that is split have its head, but always metadata of their own; so of such a
packet only a missing head is noticed, and without metadata it is sent as if it had the usual one.

## What is proved

* `outcome_encode_eq_error_iff`: which state fault encoding raises.
* `run_transmit_eq_error_iff`: which state fault sending raises, and that it depends on the
  chunk size for packets without metadata only.
* `transmit_unmarked`: two frames of a packet that encoding refuses.
-/

namespace RpcFraming

namespace Packet

/-- The packet lacks the part that a fault names. If both parts are missing it is the head. -/
def Lacks (p : Packet) (fault : Fault) : Prop :=
  (p.head = none ∧ fault = .missingHead) ∨
    (p.head ≠ none ∧ p.metadata = none ∧ fault = .missingMetadata)

theorem kind_of_outcome_encode {codec : Codec Id} {p : Packet} {head : Head} {metadata : Metadata}
    {fault : Fault} (hhead : p.head = some head) (hmetadata : p.metadata = some metadata)
    (h : (Id.run (p.encode codec)).outcome = .error fault) : fault.kind ≠ .state := by
  by_cases hsize : p.attachment.length ≤ sizeLimit
  · rw [run_encode_sized codec hhead hmetadata hsize] at h
    cases hs : Id.run (codec.serialize (metadata.sized p.attachment).toMessage) with
    | none =>
      rw [hs] at h
      cases h
      decide
    | some serialized =>
      rw [hs] at h
      simp only at h
      split at h
      · cases h
        decide
      · cases h
  · simp only [encode, hhead, hmetadata, if_pos (Nat.lt_of_not_le hsize)] at h
    cases h
    decide

/-- **When encoding refuses a packet**: a part is missing. -/
theorem outcome_encode_eq_error_iff {codec : Codec Id} {p : Packet} {fault : Fault}
    (hkind : fault.kind = .state) :
    (Id.run (p.encode codec)).outcome = .error fault ↔ p.Lacks fault := by
  cases hhead : p.head with
  | none =>
    have hrun : (Id.run (p.encode codec)).outcome = .error .missingHead := by
      simp only [encode, hhead]
      rfl
    rw [hrun, Except.error.injEq, Lacks, hhead]
    simp [eq_comm]
  | some head =>
    cases hmetadata : p.metadata with
    | none =>
      have hrun : (Id.run (p.encode codec)).outcome = .error .missingMetadata := by
        simp only [encode, hhead, hmetadata]
        rfl
      rw [hrun, Except.error.injEq, Lacks, hhead, hmetadata]
      simp [eq_comm]
    | some metadata =>
      have hlacks : ¬ p.Lacks fault := by simp [Lacks, hhead, hmetadata]
      constructor
      · intro h
        exact absurd hkind (kind_of_outcome_encode hhead hmetadata h)
      · intro h
        exact absurd h hlacks

/-! ### Chunks -/

theorem mem_chunks {p c : Packet} {streamId : Int64} {pieces : List Bytes}
    (h : c ∈ p.chunks streamId pieces) : c.head = p.head ∧ c.metadata ≠ none := by
  obtain ⟨i, hi, rfl⟩ := List.mem_mapIdx.1 h
  exact ⟨rfl, Option.some_ne_none _⟩

/-- Each part of a packet that is split, or the packet itself if it stays whole, lacks the same. -/
theorem lacks_iff_of_mem_split {p q : Packet} {size : Int64} {ids : StreamIds} {fault : Fault}
    (h : q ∈ (p.split size ids).1) :
    q.Lacks fault ↔ p.Lacks fault ∧ (p.StaysWhole size ∨ p.head = none) := by
  by_cases hwhole : p.StaysWhole size
  · rw [split_of_staysWhole hwhole, List.mem_singleton] at h
    rw [h]
    exact (and_iff_left (.inl hwhole)).symm
  · rw [split_of_not_staysWhole hwhole] at h
    obtain ⟨hhead, hmetadata⟩ := mem_chunks h
    simp only [Lacks, hhead, hmetadata, hwhole]
    by_cases hp : p.head = none <;> simp [hp]

theorem chunks_of_metadata_eq_none {p : Packet} (h : p.metadata = none) (streamId : Int64)
    (pieces : List Bytes) :
    p.chunks streamId pieces = { p with metadata := some {} }.chunks streamId pieces := by
  have hchunk : p.chunk streamId pieces.length
      = { p with metadata := some {} }.chunk streamId pieces.length := by
    funext i piece
    simp [chunk, withChunkInfo, h]
  rw [chunks, chunks, hchunk]

end Packet

/-! ### Sending -/

section Sending

variable {codec : Codec Id} {packets : List Packet} {fault : Fault}

theorem exists_mem_of_run_encodeAll_eq_error
    (h : Id.run (encodeAll codec packets).run = .error fault) :
    ∃ p ∈ packets, (Id.run (p.encode codec)).outcome = .error fault := by
  induction packets with
  | nil => cases h
  | cons p packets ih =>
    rw [run_encodeAll_cons] at h
    cases hp : (Id.run (p.encode codec)).outcome with
    | error fault₁ =>
      rw [hp] at h
      cases h
      exact ⟨p, List.mem_cons_self, hp⟩
    | ok frame =>
      cases hrest : Id.run (encodeAll codec packets).run with
      | error fault₁ =>
        rw [hp, hrest] at h
        cases h
        obtain ⟨q, hq, hfault⟩ := ih hrest
        exact ⟨q, List.mem_cons_of_mem p hq, hfault⟩
      | ok frames =>
        rw [hp, hrest] at h
        cases h

/-- Packets that all lack the same cannot be sent for this reason. -/
theorem run_encodeAll_eq_error_iff (hkind : fault.kind = .state) (hne : packets ≠ []) {lacks : Prop}
    (h : ∀ p ∈ packets, (p.Lacks fault ↔ lacks)) :
    Id.run (encodeAll codec packets).run = .error fault ↔ lacks := by
  constructor
  · intro herror
    obtain ⟨p, hp, houtcome⟩ := exists_mem_of_run_encodeAll_eq_error herror
    exact (h p hp).1 ((Packet.outcome_encode_eq_error_iff hkind).1 houtcome)
  · intro hlacks
    obtain ⟨p, rest, rfl⟩ := List.exists_cons_of_ne_nil hne
    have hp := (h p List.mem_cons_self).2 hlacks
    rw [run_encodeAll_cons, (Packet.outcome_encode_eq_error_iff hkind).2 hp]
    rfl

end Sending

namespace Packet

/-- **When sending refuses a packet.** Encoding raises a state fault exactly if the head or else the
metadata is missing. Sending raises the same, unless the packet has a head and is split. A packet
that is split although it has no metadata is sent as if it had the usual one. -/
theorem run_transmit_eq_error_iff (codec : Codec Id) (config : Config) (ids : StreamIds)
    (p : Packet) :
    (∀ fault : Fault, fault.kind = .state →
      ((Id.run (p.encode codec)).outcome = .error fault ↔
        (p.head = none ∧ fault = .missingHead) ∨
          (p.head ≠ none ∧ p.metadata = none ∧ fault = .missingMetadata)) ∧
      (Id.run (p.transmit codec config ids).1.run = .error fault ↔
        (Id.run (p.encode codec)).outcome = .error fault ∧
          (p.StaysWhole config.chunkSize ∨ p.head = none))) ∧
    (p.metadata = none → ¬ p.StaysWhole config.chunkSize →
      p.transmit codec config ids = { p with metadata := some {} }.transmit codec config ids) := by
  refine ⟨fun fault hkind => ⟨outcome_encode_eq_error_iff hkind, ?_⟩, fun hmetadata hwhole => ?_⟩
  · rw [outcome_encode_eq_error_iff hkind]
    exact run_encodeAll_eq_error_iff hkind (split_ne_nil p config.chunkSize ids)
      fun q hq => lacks_iff_of_mem_split hq
  · have hwhole' : ¬ { p with metadata := some {} }.StaysWhole config.chunkSize := hwhole
    rw [transmit, transmit, split_of_not_staysWhole hwhole, split_of_not_staysWhole hwhole',
      chunks_of_metadata_eq_none hmetadata]

/-- A packet with a head, two bytes of data and no metadata. -/
def unmarked : Packet where
  head := some {}
  data := [1, 2]

/-- A codec that knows the usual metadata, marked as the first and as the last chunk of stream 5. -/
def unmarkedCodec : Codec Id := .ofTable
  [({ chunkInfo := some ⟨5, 0⟩ : Metadata }.toMessage,
      [0x18, 0, 0x20, 0, 0x28, 0, 0x32, 4, 8, 5, 0x10, 0]),
    ({ chunkInfo := some ⟨5, -1⟩ : Metadata }.toMessage,
      [0x18, 0, 0x20, 0, 0x28, 0, 0x32, 13, 8, 5, 0x10,
        0xFF, 0xFF, 0xFF, 0xFF, 0xFF, 0xFF, 0xFF, 0xFF, 0xFF, 1])]

/-- A packet that encoding refuses for its missing metadata is sent nevertheless, byte by byte. -/
theorem transmit_unmarked :
    (Id.run (unmarked.encode unmarkedCodec)).outcome = .error .missingMetadata ∧
      Id.run (unmarked.transmit unmarkedCodec { chunkSize := 1 } ⟨0x83C953D1D0EE9FB1⟩).1.run
        = .ok
          [[0x50, 0x52, 0x50, 0x43, 0, 0, 0, 13, 0, 0, 0, 12,
              0x18, 0, 0x20, 0, 0x28, 0, 0x32, 4, 8, 5, 0x10, 0, 1],
            [0x50, 0x52, 0x50, 0x43, 0, 0, 0, 22, 0, 0, 0, 21,
              0x18, 0, 0x20, 0, 0x28, 0, 0x32, 13, 8, 5, 0x10,
              0xFF, 0xFF, 0xFF, 0xFF, 0xFF, 0xFF, 0xFF, 0xFF, 0xFF, 1, 2]] := by
  have hwhole : ¬ unmarked.StaysWhole 1 := by decide
  have hpieces : unmarked.data.pieces (1 : Int64).toNatClampNeg = [[1], [2]] := by
    show Bytes.pieces 1 [1, 2] = _
    rw [Bytes.pieces_of_lt_length (by decide) (by decide), Bytes.pieces_of_length_le (by decide)]
    rfl
  have hid : (StreamIds.mk 0x83C953D1D0EE9FB1).next.1 = 5 := by decide
  refine ⟨rfl, ?_⟩
  rw [transmit, split_of_not_staysWhole hwhole, hpieces, hid]
  rfl

end Packet

end RpcFraming
