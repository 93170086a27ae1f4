import RpcFraming.Assembler
import Mathlib.Data.List.Nodup

/-!
# The assembler's invariant

An assembler remembers incomplete streams and dropped ones. `Assembler.Valid` says how the two stand
to each other and to the bounds of the configuration. Every move on one stream keeps it, under the
condition that the move needs; so feeding any packet keeps it, whether the packet comes out, is held
back, dropped or refused.
-/

namespace RpcFraming.Assembler

/-- The ids of the incomplete streams, the one started first in front. -/
def pendingIds (a : Assembler) : List Int64 := a.pending.map Prod.fst

/-- What holds of an assembler at all times. -/
structure Valid (a : Assembler) : Prop where
  /-- No stream is incomplete twice. -/
  nodup_pending : a.pendingIds.Nodup
  /-- No stream is dropped twice. -/
  nodup_discarded : a.discarded.Nodup
  /-- No stream is both incomplete and dropped. -/
  disjoint : ∀ s ∈ a.pendingIds, s ∉ a.discarded
  /-- There are no more incomplete streams than may be. -/
  pending_le : a.config.maxPendingStreams ≠ 0 →
    a.pending.length ≤ a.config.maxPendingStreams.toNat
  /-- There are no more dropped streams than are remembered. -/
  discarded_le : a.discarded.length ≤ a.memory
  /-- An incomplete stream is kept as its chunk 0. -/
  chunkInfo_pending : ∀ e ∈ a.pending, e.2.chunkInfo? = some ⟨e.1, 0⟩
  /-- No incomplete stream has more data than may be. -/
  data_le : ∀ e ∈ a.pending, e.2.data.length ≤ a.config.maxBodySize.toNat

variable {a : Assembler} {s : Int64} {p : Packet}

/-- A new assembler knows no stream. -/
theorem valid_new (config : Config) : Valid { config } where
  nodup_pending := List.nodup_nil
  nodup_discarded := List.nodup_nil
  disjoint := by simp [pendingIds]
  pending_le := by simp
  discarded_le := Nat.zero_le _
  chunkInfo_pending := by simp
  data_le := by simp

@[simp] theorem length_pendingIds : a.pendingIds.length = a.pending.length := List.length_map _

/-! ### Moves on the dropped streams -/

@[simp] theorem memory_discard : (a.discard s).memory = a.memory := by
  simp [memory]

@[simp] theorem pendingIds_discard : (a.discard s).pendingIds = a.pendingIds := by
  simp [pendingIds]

/-- A dropped stream was dropped before, or it is the one that is dropped now. -/
theorem mem_of_mem_discarded_discard {t : Int64} (h : t ∈ (a.discard s).discarded) :
    t ∈ a.discarded ∨ t = s := by
  rw [discard] at h
  split at h
  · exact .inl h
  · simpa using List.mem_of_mem_drop h

/-- As long as the memory is not full, dropping one more stream forgets none. -/
theorem discarded_discard_of_lt (hs : s ∉ a.discarded) (h : a.discarded.length < a.memory) :
    (a.discard s).discarded = a.discarded ++ [s] := by
  rw [discard, if_neg hs]
  simp only [List.length_append, List.length_singleton]
  rw [Nat.sub_eq_zero_of_le h, List.drop_zero]

theorem Valid.discard (h : a.Valid) (hs : s ∉ a.pendingIds) : (a.discard s).Valid where
  nodup_pending := by simpa using h.nodup_pending
  nodup_discarded := by
    rw [Assembler.discard]
    split
    · exact h.nodup_discarded
    · next hnew =>
      rw [← List.concat_eq_append]
      exact ((List.nodup_concat _ _).2 ⟨hnew, h.nodup_discarded⟩).sublist (List.drop_sublist _ _)
  disjoint := by
    intro t ht ht'
    rw [pendingIds_discard] at ht
    rcases mem_of_mem_discarded_discard ht' with hold | rfl
    · exact h.disjoint t ht hold
    · exact hs ht
  pending_le := by simpa using h.pending_le
  discarded_le := by
    rw [memory_discard, Assembler.discard]
    split
    · exact h.discarded_le
    · simp only [List.length_drop, List.length_append, List.length_singleton]
      omega
  chunkInfo_pending := by simpa using h.chunkInfo_pending
  data_le := by simpa using h.data_le

theorem Valid.discardRest {info : ChunkInfo} (h : a.Valid) (hs : info.streamId ∉ a.pendingIds) :
    (a.discardRest info).Valid := by
  rw [Assembler.discardRest]
  split
  · exact h
  · exact h.discard hs

theorem Valid.forget (h : a.Valid) : (a.forget s).Valid where
  nodup_pending := h.nodup_pending
  nodup_discarded := h.nodup_discarded.sublist List.filter_sublist
  disjoint := fun t ht ht' => h.disjoint t ht (List.filter_subset_self _ ht')
  pending_le := h.pending_le
  discarded_le := Nat.le_trans (List.length_filter_le _ _) h.discarded_le
  chunkInfo_pending := h.chunkInfo_pending
  data_le := h.data_le

/-! ### Moves on the incomplete streams -/

theorem lt_of_not_isFull (h : a.isFull = false) (hmax : a.config.maxPendingStreams ≠ 0) :
    a.pending.length < a.config.maxPendingStreams.toNat := by
  simpa [isFull, hmax] using h

@[simp] theorem pendingIds_start : (a.start s p).pendingIds = a.pendingIds ++ [s] := by
  simp [pendingIds, start]

theorem Valid.start (h : a.Valid) (hpending : s ∉ a.pendingIds) (hdiscarded : s ∉ a.discarded)
    (hfull : a.isFull = false) (hinfo : p.chunkInfo? = some ⟨s, 0⟩)
    (hdata : p.data.length ≤ a.config.maxBodySize.toNat) : (a.start s p).Valid where
  nodup_pending := by
    rw [pendingIds_start, ← List.concat_eq_append, List.nodup_concat]
    exact ⟨hpending, h.nodup_pending⟩
  nodup_discarded := h.nodup_discarded
  disjoint := by
    intro t ht
    rw [pendingIds_start] at ht
    rcases List.mem_append.1 ht with ht | ht
    · exact h.disjoint t ht
    · rwa [List.mem_singleton.1 ht]
  pending_le := by
    intro hmax
    have hlt := lt_of_not_isFull hfull hmax
    show (a.pending ++ [(s, p)]).length ≤ a.config.maxPendingStreams.toNat
    simp only [List.length_append, List.length_singleton]
    omega
  discarded_le := h.discarded_le
  chunkInfo_pending := by
    intro e he
    rcases List.mem_append.1 he with he | he
    · exact h.chunkInfo_pending e he
    · rw [List.mem_singleton.1 he]
      exact hinfo
  data_le := by
    intro e he
    rcases List.mem_append.1 he with he | he
    · exact h.data_le e he
    · rw [List.mem_singleton.1 he]
      exact hdata

@[simp] theorem pendingIds_update : (a.update s p).pendingIds = a.pendingIds :=
  map_fst_pending_update a s p

theorem mem_pending_update {e : Int64 × Packet} (h : e ∈ (a.update s p).pending) :
    e ∈ a.pending ∨ e = (s, p) := by
  obtain ⟨e', he', rfl⟩ := List.mem_map.1 h
  by_cases hs : e'.1 = s
  · exact .inr (if_pos hs)
  · rw [if_neg hs]
    exact .inl he'

theorem Valid.update (h : a.Valid) (hinfo : p.chunkInfo? = some ⟨s, 0⟩)
    (hdata : p.data.length ≤ a.config.maxBodySize.toNat) : (a.update s p).Valid where
  nodup_pending := by
    rw [pendingIds_update]
    exact h.nodup_pending
  nodup_discarded := h.nodup_discarded
  disjoint := by
    rw [pendingIds_update]
    exact h.disjoint
  pending_le := by
    intro hmax
    rw [← length_pendingIds, pendingIds_update, length_pendingIds]
    exact h.pending_le hmax
  discarded_le := h.discarded_le
  chunkInfo_pending := by
    intro e he
    rcases mem_pending_update he with he | rfl
    · exact h.chunkInfo_pending e he
    · exact hinfo
  data_le := by
    intro e he
    rcases mem_pending_update he with he | rfl
    · exact h.data_le e he
    · exact hdata

/-- Whatever leaves a valid assembler with fewer incomplete streams leaves it valid. -/
theorem Valid.sublist {pending : List (Int64 × Packet)} (h : a.Valid)
    (hsub : pending.Sublist a.pending) : Valid { a with pending } where
  nodup_pending := h.nodup_pending.sublist (hsub.map Prod.fst)
  nodup_discarded := h.nodup_discarded
  disjoint := fun t ht => h.disjoint t ((hsub.map Prod.fst).subset ht)
  pending_le := fun hmax => Nat.le_trans hsub.length_le (h.pending_le hmax)
  discarded_le := h.discarded_le
  chunkInfo_pending := fun e he => h.chunkInfo_pending e (hsub.subset he)
  data_le := fun e he => h.data_le e (hsub.subset he)

theorem Valid.release (h : a.Valid) : (a.release s).Valid := h.sublist List.filter_sublist

theorem not_mem_pendingIds_release : s ∉ (a.release s).pendingIds := by
  simp [pendingIds, Assembler.release]

/-! ### Making room -/

/-- Drop the incomplete stream that was started first, if one more would be one too many. -/
def makeRoom (a : Assembler) : Assembler × Option Notice :=
  if a.isFull then a.evictOldest else (a, none)

theorem makeRoom_of_not_isFull (h : a.isFull = false) : a.makeRoom = (a, none) := by
  simp [makeRoom, h]

/-- Where there is no room, there is a stream that was started first. -/
theorem exists_makeRoom_of_isFull (h : a.isFull = true) :
    ∃ oldest q rest, a.pending = (oldest, q) :: rest ∧
      a.makeRoom = ({ a with pending := rest }.discard oldest, some (.streamEvicted oldest)) := by
  have hfull : a.config.maxPendingStreams ≠ 0 ∧
      a.config.maxPendingStreams.toNat ≤ a.pending.length := by
    simpa [isFull] using h
  have hmax : 0 < a.config.maxPendingStreams.toNat :=
    Nat.pos_of_ne_zero fun h0 => hfull.1 (UInt64.toNat_inj.1 h0)
  cases hp : a.pending with
  | nil =>
    rw [hp, List.length_nil] at hfull
    omega
  | cons e rest =>
    refine ⟨e.1, e.2, rest, rfl, ?_⟩
    rw [makeRoom, if_pos h, evictOldest, hp]

theorem pending_makeRoom_sublist : a.makeRoom.1.pending.Sublist a.pending := by
  cases hfull : a.isFull with
  | false => rw [makeRoom_of_not_isFull hfull]
  | true =>
    obtain ⟨oldest, q, rest, hp, hroom⟩ := exists_makeRoom_of_isFull hfull
    rw [hroom, pending_discard, hp]
    exact List.sublist_cons_self _ _

@[simp] theorem config_makeRoom : a.makeRoom.1.config = a.config := by
  cases hfull : a.isFull with
  | false => rw [makeRoom_of_not_isFull hfull]
  | true =>
    obtain ⟨oldest, q, rest, hp, hroom⟩ := exists_makeRoom_of_isFull hfull
    rw [hroom, config_discard]

theorem Valid.makeRoom (h : a.Valid) : a.makeRoom.1.Valid := by
  cases hfull : a.isFull with
  | false =>
    rw [makeRoom_of_not_isFull hfull]
    exact h
  | true =>
    obtain ⟨oldest, q, rest, hp, hroom⟩ := exists_makeRoom_of_isFull hfull
    rw [hroom]
    have hnodup : (oldest :: rest.map Prod.fst).Nodup := by
      simpa [pendingIds, hp] using h.nodup_pending
    have hvalid : Valid { a with pending := rest } :=
      h.sublist (by rw [hp]; exact List.sublist_cons_self _ _)
    exact hvalid.discard (List.nodup_cons.1 hnodup).1

/-- There is room afterwards. -/
theorem Valid.isFull_makeRoom (h : a.Valid) : a.makeRoom.1.isFull = false := by
  cases hfull : a.isFull with
  | false =>
    rw [makeRoom_of_not_isFull hfull]
    exact hfull
  | true =>
    obtain ⟨oldest, q, rest, hp, hroom⟩ := exists_makeRoom_of_isFull hfull
    rw [hroom]
    by_cases hmax : a.config.maxPendingStreams = 0
    · simp [isFull, hmax]
    · have hle := h.pending_le hmax
      rw [hp, List.length_cons] at hle
      simp [isFull]
      omega

theorem not_mem_pendingIds_makeRoom (hs : s ∉ a.pendingIds) : s ∉ a.makeRoom.1.pendingIds :=
  fun h => hs ((pending_makeRoom_sublist.map Prod.fst).subset h)

/-- Only an incomplete stream has to make room. -/
theorem not_mem_discarded_makeRoom (hs : s ∉ a.pendingIds) (hs' : s ∉ a.discarded) :
    s ∉ a.makeRoom.1.discarded := by
  cases hfull : a.isFull with
  | false =>
    rw [makeRoom_of_not_isFull hfull]
    exact hs'
  | true =>
    obtain ⟨oldest, q, rest, hp, hroom⟩ := exists_makeRoom_of_isFull hfull
    rw [hroom]
    intro h
    rcases mem_of_mem_discarded_discard h with h | rfl
    · exact hs' h
    · exact hs (by simp [pendingIds, hp])

/-! ### Feeding -/

theorem lookup_eq_none_iff : a.pending.lookup s = none ↔ s ∉ a.pendingIds := by
  rw [List.lookup_eq_none_iff, pendingIds]
  simp only [List.mem_map, bne_iff_ne, ne_eq, not_exists, not_and]
  exact ⟨fun h e he hs => h e he hs.symm, fun h e he hs => h e he hs.symm⟩

theorem mem_pending_of_lookup {q : Packet} (h : a.pending.lookup s = some q) :
    (s, q) ∈ a.pending := by
  obtain ⟨l₁, l₂, hl, -⟩ := List.lookup_eq_some_iff.1 h
  rw [hl]
  simp

theorem Valid.feedDiscarded {info : ChunkInfo} (h : a.Valid) :
    (a.feedDiscarded info).assembler.Valid := by
  rw [Assembler.feedDiscarded]
  split
  · exact h.forget
  · exact h

theorem Valid.feedNew {info : ChunkInfo} (h : a.Valid) (hinfo : p.chunkInfo? = some info)
    (hpending : info.streamId ∉ a.pendingIds) (hdiscarded : info.streamId ∉ a.discarded) :
    (a.feedNew info p).assembler.Valid := by
  rw [Assembler.feedNew]
  split
  · exact h.discardRest hpending
  · next hzero =>
    split
    · exact h.discard hpending
    · next hlimit =>
      have hinfo' : p.chunkInfo? = some ⟨info.streamId, 0⟩ := by
        rw [hinfo, ← Decidable.not_not.1 hzero]
      have hdata : p.data.length ≤ a.makeRoom.1.config.maxBodySize.toNat := by
        simpa [exceedsLimit] using hlimit
      exact h.makeRoom.start (not_mem_pendingIds_makeRoom hpending)
        (not_mem_discarded_makeRoom hpending hdiscarded) h.isFull_makeRoom hinfo' hdata

theorem Valid.feedPending {info : ChunkInfo} {q : Packet} (h : a.Valid)
    (hq : (info.streamId, q) ∈ a.pending) : (a.feedPending info q p).assembler.Valid := by
  rw [Assembler.feedPending]
  split
  · exact h.release.discardRest not_mem_pendingIds_release
  · next hlimit =>
    split
    · exact h.release
    · have hdata : (merge q p).data.length ≤ a.config.maxBodySize.toNat := by
        simpa [exceedsLimit, merge, Packet.appendData] using hlimit
      exact h.update (h.chunkInfo_pending _ hq) hdata

/-- **Every packet leaves a valid assembler valid**, whatever becomes of the packet. -/
theorem Valid.feed (h : a.Valid) (p : Packet) : (a.feed p).assembler.Valid := by
  rw [Assembler.feed]
  split
  · exact h
  · next info hinfo =>
    split
    · exact h.feedDiscarded
    · next hdiscarded =>
      split
      · next hq => exact h.feedNew hinfo (lookup_eq_none_iff.1 hq) hdiscarded
      · next q hq => exact h.feedPending (mem_pending_of_lookup hq)

theorem Valid.clear (_ : a.Valid) : a.clear.Valid := valid_new a.config

end RpcFraming.Assembler
