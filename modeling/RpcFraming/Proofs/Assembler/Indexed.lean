import RpcFraming.Assembler.Indexed
import RpcFraming.Proofs.Assembler.Queue

/-!
# Containers and queues agree

`IndexedAssembler` keeps a map with its queue and a set with its queue. That each container and its
queue hold the same ids is not checked anywhere; it is a matter of every move touching both.

The argument is a simulation by `Assembler`, whose two lists cannot disagree with themselves. Each move
of the one is matched by a move of the other (`Represents`), under what `Assembler.Valid` says of the
state in which the move is made. This is also what rules the early returns out: a stream that makes
room is in the queue, and a stream that is dropped was not dropped before.

## What is proved

* `Represents.feed`: every packet is taken alike, with the same answer.
* `coherent_after`: after every run containers and queues agree, the bounds are kept, the incomplete
  streams stand in start order, and no move has returned early.
-/

namespace RpcFraming

namespace Assembler

variable {a : Assembler} {s : Int64} {p q : Packet}

/-- To take out the stream that was started first leaves the others. -/
theorem release_of_oldest {rest : List (Int64 × Packet)} (h : a.Valid)
    (hp : a.pending = (s, q) :: rest) : a.release s = { a with pending := rest } := by
  have hnodup := h.nodup_pending
  rw [pendingIds, hp, List.map_cons, List.nodup_cons] at hnodup
  rw [release, hp, List.filter_cons_of_neg (by simp), List.filter_eq_self.2]
  intro e he
  refine decide_eq_true fun heq => hnodup.1 ?_
  rw [← heq]
  exact List.mem_map.2 ⟨e, he, rfl⟩

/-- A stream that is taken out may have been changed before. -/
theorem release_update : (a.update s p).release s = a.release s := by
  have hpending : (a.pending.map fun e => if e.1 = s then (s, p) else e).filter (·.1 ≠ s)
      = a.pending.filter (·.1 ≠ s) := by
    induction a.pending with
    | nil => rfl
    | cons e pending ih =>
      by_cases he : e.1 = s
      · rw [List.map_cons, if_pos he, List.filter_cons_of_neg (by simp),
          List.filter_cons_of_neg (by simpa using he), ih]
      · rw [List.map_cons, if_neg he, List.filter_cons_of_pos (by simpa using he),
          List.filter_cons_of_pos (by simpa using he), ih]
  rw [update, release, release, hpending]

end Assembler

namespace IndexedAssembler

/-- The containers and queues of `x` hold what `a` holds, and no move has returned early. -/
structure Represents (x : IndexedAssembler) (a : Assembler) : Prop where
  /-- The bounds are the same. -/
  config_eq : x.config = a.config
  /-- The queue of the incomplete streams is the same. -/
  order_eq : x.order = a.pendingIds
  /-- The same came of each incomplete stream. -/
  lookup_eq : ∀ s, x.pending.lookup s = a.pending.lookup s
  /-- The queue of the dropped streams is the same. -/
  discardedOrder_eq : x.discardedOrder = a.discarded
  /-- The same streams are dropped. -/
  mem_discarded : ∀ s, s ∈ x.discarded ↔ s ∈ a.discarded
  /-- No move has returned early. -/
  skipped_eq : x.skipped = []

variable {x : IndexedAssembler} {a : Assembler} {s t : Int64} {p q : Packet} {info : ChunkInfo}

theorem represents_new (config : Config) : Represents { config } { config } where
  config_eq := rfl
  order_eq := rfl
  lookup_eq := fun s => Finmap.lookup_empty s
  discardedOrder_eq := rfl
  mem_discarded := by simp
  skipped_eq := rfl

/-- Trimming drops from the front of the queue, and the set follows. -/
theorem trim_eq (limit : Nat) {discarded : Finset Int64} {order : List Int64} (hnodup : order.Nodup)
    (hmem : ∀ s, s ∈ discarded ↔ s ∈ order) :
    (trim limit discarded order).2 = order.drop (order.length - limit) ∧
      ∀ s, s ∈ (trim limit discarded order).1 ↔ s ∈ order.drop (order.length - limit) := by
  induction order generalizing discarded with
  | nil => exact ⟨by simp [trim], by simpa [trim] using hmem⟩
  | cons oldest rest ih =>
    obtain ⟨holdest, hrest⟩ := List.nodup_cons.1 hnodup
    by_cases hlt : limit < (oldest :: rest).length
    · have hmem' : ∀ s, s ∈ discarded.erase oldest ↔ s ∈ rest := by
        intro s
        rw [Finset.mem_erase, hmem, List.mem_cons]
        constructor
        · rintro ⟨hne, rfl | hs⟩
          · exact absurd rfl hne
          · exact hs
        · intro hs
          exact ⟨fun heq => holdest (heq ▸ hs), .inr hs⟩
      rw [List.length_cons] at hlt
      have hdrop : (oldest :: rest).drop ((oldest :: rest).length - limit)
          = rest.drop (rest.length - limit) := by
        rw [List.length_cons, Nat.sub_add_comm (Nat.le_of_lt_succ hlt), List.drop_succ_cons]
      rw [hdrop, trim, if_pos (by rwa [List.length_cons])]
      exact ih hrest hmem'
    · rw [trim, if_neg hlt, Nat.sub_eq_zero_of_le (Nat.not_lt.1 hlt), List.drop_zero]
      exact ⟨rfl, hmem⟩

namespace Represents

variable (h : x.Represents a)

include h

theorem memory_eq : x.memory = a.memory := by
  rw [memory, Assembler.memory, h.config_eq]

theorem mem_pending_iff : s ∈ x.pending ↔ s ∈ a.pendingIds := by
  rw [← not_iff_not, ← Finmap.lookup_eq_none, h.lookup_eq, Assembler.lookup_eq_none_iff]

theorem clear : x.clear.Represents a.clear where
  config_eq := h.config_eq
  order_eq := rfl
  lookup_eq := fun s => Finmap.lookup_empty s
  discardedOrder_eq := rfl
  mem_discarded := by simp [IndexedAssembler.clear, Assembler.clear]
  skipped_eq := h.skipped_eq

theorem discard (hnodup : a.discarded.Nodup) (hs : s ∉ a.discarded) :
    (x.discard s).Represents (a.discard s) := by
  have hmem : ∀ t, t ∈ insert s x.discarded ↔ t ∈ a.discarded ++ [s] := by
    intro t
    rw [Finset.mem_insert, h.mem_discarded, List.mem_append, List.mem_singleton, or_comm]
  have hnodup' : (a.discarded ++ [s]).Nodup := by
    rw [← List.concat_eq_append]
    exact (List.nodup_concat _ _).2 ⟨hs, hnodup⟩
  obtain ⟨htrim, htrim'⟩ := trim_eq a.memory hnodup' hmem
  rw [IndexedAssembler.discard, if_neg (mt (h.mem_discarded s).1 hs), h.memory_eq,
    h.discardedOrder_eq, Assembler.discard, if_neg hs]
  exact ⟨h.config_eq, h.order_eq, h.lookup_eq, htrim, htrim', h.skipped_eq⟩

theorem discardRest (hnodup : a.discarded.Nodup) (hs : info.streamId ∉ a.discarded) :
    (x.discardRest info).Represents (a.discardRest info) := by
  rw [IndexedAssembler.discardRest, Assembler.discardRest]
  split
  · exact h
  · exact h.discard hnodup hs

theorem forget : (x.forgetDiscarded s).Represents (a.forget s) where
  config_eq := h.config_eq
  order_eq := h.order_eq
  lookup_eq := h.lookup_eq
  discardedOrder_eq := by
    rw [forgetDiscarded, h.discardedOrder_eq, Assembler.forget]
  mem_discarded := by
    intro t
    simp [forgetDiscarded, Assembler.forget, h.mem_discarded, and_comm]
  skipped_eq := h.skipped_eq

theorem start (hs : s ∉ a.pendingIds) : (x.emplace s p).Represents (a.start s p) where
  config_eq := h.config_eq
  order_eq := by
    rw [emplace, h.order_eq, Assembler.pendingIds_start]
  lookup_eq := by
    intro t
    rw [emplace, if_neg (mt h.mem_pending_iff.1 hs)]
    simp only [Assembler.start, List.lookup_append]
    by_cases ht : t = s
    · rw [ht, Finmap.lookup_insert, Assembler.lookup_eq_none_iff.2 hs]
      simp
    · rw [Finmap.lookup_insert_of_ne _ ht, h.lookup_eq]
      simp [List.lookup_cons, beq_false_of_ne ht]
  discardedOrder_eq := h.discardedOrder_eq
  mem_discarded := h.mem_discarded
  skipped_eq := h.skipped_eq

theorem update (hs : a.pending.lookup s = some q) : (x.update s p).Represents (a.update s p) where
  config_eq := h.config_eq
  order_eq := by
    rw [Assembler.pendingIds_update]
    exact h.order_eq
  lookup_eq := by
    intro t
    rw [Assembler.update, Assembler.lookup_update]
    by_cases ht : t = s
    · rw [if_pos ht, ht, hs, IndexedAssembler.update, Finmap.lookup_insert, Option.map_some]
    · rw [if_neg ht, IndexedAssembler.update, Finmap.lookup_insert_of_ne _ ht, h.lookup_eq]
  discardedOrder_eq := h.discardedOrder_eq
  mem_discarded := h.mem_discarded
  skipped_eq := h.skipped_eq

theorem release : (x.erase s).Represents (a.release s) where
  config_eq := h.config_eq
  order_eq := by
    rw [erase, h.order_eq, Assembler.pendingIds, Assembler.pendingIds, Assembler.release,
      List.filter_map]
    rfl
  lookup_eq := by
    intro t
    by_cases ht : t = s
    · rw [ht, Assembler.lookup_eq_none_iff.2 Assembler.not_mem_pendingIds_release]
      exact Finmap.lookup_erase _ _
    · rw [Assembler.lookup_release_of_ne ht, ← h.lookup_eq]
      exact Finmap.lookup_erase_ne ht
  discardedOrder_eq := h.discardedOrder_eq
  mem_discarded := h.mem_discarded
  skipped_eq := h.skipped_eq

/-- The map has as many entries as there are incomplete streams. -/
theorem card_keys (hv : a.Valid) : x.pending.keys.card = a.pending.length := by
  have hkeys : x.pending.keys = a.pendingIds.toFinset := by
    ext s
    rw [Finmap.mem_keys, h.mem_pending_iff, List.mem_toFinset]
  rw [hkeys, List.toFinset_card_of_nodup hv.nodup_pending, Assembler.length_pendingIds]

/-- The set has as many elements as there are dropped streams. -/
theorem card_discarded (hv : a.Valid) : x.discarded.card = a.discarded.length := by
  have hset : x.discarded = a.discarded.toFinset := by
    ext s
    rw [h.mem_discarded, List.mem_toFinset]
  rw [hset, List.toFinset_card_of_nodup hv.nodup_discarded]

theorem isFull_eq (hv : a.Valid) : x.isFull = a.isFull := by
  rw [IndexedAssembler.isFull, Assembler.isFull, h.config_eq, h.card_keys hv]

/-- Where there is no room, there is a stream to make it, and it was not dropped before. -/
theorem evictOldest (hv : a.Valid) (hfull : a.isFull = true) :
    x.evictOldest.1.Represents a.makeRoom.1 ∧ x.evictOldest.2 = a.makeRoom.2 := by
  obtain ⟨oldest, q, rest, hp, hroom⟩ := Assembler.exists_makeRoom_of_isFull hfull
  have horder : x.order = oldest :: rest.map Prod.fst := by
    rw [h.order_eq, Assembler.pendingIds, hp, List.map_cons]
  have hfresh : oldest ∉ a.discarded := hv.disjoint _ (by simp [Assembler.pendingIds, hp])
  -- As no stream is in the queue twice, taking the first one out leaves the rest.
  have hrest := h.release (s := oldest)
  rw [Assembler.release_of_oldest hv hp] at hrest
  have hpop : { x with order := rest.map Prod.fst, pending := x.pending.erase oldest }
      = x.erase oldest := by
    rw [show rest.map Prod.fst = (x.erase oldest).order from hrest.order_eq.symm]
    rfl
  rw [IndexedAssembler.evictOldest, horder, hroom]
  refine ⟨?_, rfl⟩
  simp only [hpop]
  exact hrest.discard hv.nodup_discarded hfresh

end Represents

end IndexedAssembler

/-- The two answers are the same, and so are the assemblers afterwards. -/
structure IndexedFed.Represents (fed : IndexedFed) (fed' : Fed) : Prop where
  /-- The assembler afterwards holds the same. -/
  assembler : fed.assembler.Represents fed'.assembler
  /-- The same comes out. -/
  outcome_eq : fed.outcome = fed'.outcome
  /-- The operator is told the same. -/
  notice_eq : fed.notice = fed'.notice

namespace IndexedAssembler

variable {x : IndexedAssembler} {a : Assembler} {s : Int64} {p q : Packet} {info : ChunkInfo}

namespace Represents

variable (h : x.Represents a) (hv : a.Valid)

include h hv

theorem feedNew (hpending : info.streamId ∉ a.pendingIds) (hdiscarded : info.streamId ∉ a.discarded) :
    (x.feedNew info p).Represents (a.feedNew info p) := by
  rw [IndexedAssembler.feedNew, Assembler.feedNew, Assembler.exceedsLimit, h.config_eq]
  by_cases hid : info.chunkId ≠ 0
  · rw [if_pos hid, if_pos hid]
    exact ⟨h.discardRest hv.nodup_discarded hdiscarded, rfl, rfl⟩
  · rw [if_neg hid, if_neg hid]
    simp only [decide_eq_true_eq]
    split
    · exact ⟨h.discard hv.nodup_discarded hdiscarded, rfl, rfl⟩
    · rw [h.isFull_eq hv]
      have hnew := Assembler.not_mem_pendingIds_makeRoom hpending
      cases hfull : a.isFull with
      | false => exact ⟨h.start hpending, rfl, rfl⟩
      | true =>
        obtain ⟨hroom, hnotice⟩ := h.evictOldest hv hfull
        rw [Assembler.makeRoom, if_pos hfull] at hroom hnotice hnew
        exact ⟨hroom.start hnew, rfl, hnotice⟩

theorem feedPending (hdiscarded : info.streamId ∉ a.discarded)
    (hlookup : a.pending.lookup info.streamId = some q) :
    (x.feedPending info q p).Represents (a.feedPending info q p) := by
  rw [IndexedAssembler.feedPending, Assembler.feedPending, Assembler.exceedsLimit, h.config_eq]
  simp only [decide_eq_true_eq]
  split
  · exact ⟨h.release.discardRest hv.nodup_discarded hdiscarded, rfl, rfl⟩
  · have hupdate := h.update (p := Assembler.merge q p) hlookup
    split
    · refine ⟨?_, rfl, rfl⟩
      rw [← Assembler.release_update (p := Assembler.merge q p)]
      exact hupdate.release
    · exact ⟨hupdate, rfl, rfl⟩

/-- **Both assemblers take a packet alike**, and no move returns early. -/
theorem feed (p : Packet) : (x.feed p).Represents (a.feed p) := by
  rw [IndexedAssembler.feed, Assembler.feed]
  cases p.chunkInfo? with
  | none => exact ⟨h, rfl, rfl⟩
  | some info =>
    by_cases hdiscarded : info.streamId ∈ a.discarded
    · simp only [if_pos hdiscarded, if_pos ((h.mem_discarded _).2 hdiscarded), Assembler.feedDiscarded]
      split
      · exact ⟨h.forget, rfl, rfl⟩
      · exact ⟨h, rfl, rfl⟩
    · simp only [if_neg hdiscarded, if_neg (mt (h.mem_discarded _).1 hdiscarded), h.lookup_eq]
      cases hlookup : a.pending.lookup info.streamId with
      | none => exact h.feedNew hv (Assembler.lookup_eq_none_iff.1 hlookup) hdiscarded
      | some q => exact h.feedPending hv hdiscarded hlookup

end Represents

/-! ### After every run -/

open Assembler (Event InStartOrder)

/-- The assembler after one event, whatever was answered. -/
def next (x : IndexedAssembler) : Event → IndexedAssembler
  | .feed p => (x.feed p).assembler
  | .clear => x.clear

/-- The assembler after some events. -/
def after (x : IndexedAssembler) (events : List Event) : IndexedAssembler := events.foldl next x

theorem Represents.next (h : x.Represents a) (hv : a.Valid) (e : Event) :
    (x.next e).Represents (a.next e) := by
  cases e with
  | feed p => exact (h.feed hv p).assembler
  | clear => exact h.clear

theorem Represents.after (h : x.Represents a) (hv : a.Valid) (events : List Event) :
    (x.after events).Represents (a.after events) := by
  induction events generalizing x a with
  | nil => exact h
  | cons e events ih => exact ih (h.next hv e) (hv.next e)

/-- The containers agree with their queues, and the bounds are kept. -/
structure Coherent (x : IndexedAssembler) : Prop where
  /-- No stream is in the queue of the incomplete ones twice. -/
  nodup_order : x.order.Nodup
  /-- The queue holds the incomplete streams and nothing else. -/
  mem_order : ∀ s, s ∈ x.order ↔ s ∈ x.pending
  /-- No stream is in the queue of the dropped ones twice. -/
  nodup_discardedOrder : x.discardedOrder.Nodup
  /-- The queue holds the dropped streams and nothing else. -/
  mem_discardedOrder : ∀ s, s ∈ x.discardedOrder ↔ s ∈ x.discarded
  /-- No stream is both incomplete and dropped. -/
  disjoint : ∀ s ∈ x.pending, s ∉ x.discarded
  /-- There are no more streams of either kind than may be incomplete, if that is bounded. -/
  card_le : x.config.maxPendingStreams ≠ 0 →
    x.pending.keys.card ≤ x.config.maxPendingStreams.toNat ∧
      x.discarded.card ≤ x.config.maxPendingStreams.toNat
  /-- Dropped streams are bounded even so. -/
  card_discarded_le : x.config.maxPendingStreams = 0 → x.discarded.card ≤ 1024
  /-- An incomplete stream is kept as its chunk 0, and has no more data than may be. -/
  chunkInfo_pending : ∀ s q, x.pending.lookup s = some q →
    q.chunkInfo? = some ⟨s, 0⟩ ∧ q.data.length ≤ x.config.maxBodySize.toNat
  /-- No move has returned early. -/
  skipped_eq : x.skipped = []

theorem Represents.coherent (h : x.Represents a) (hv : a.Valid) : x.Coherent where
  nodup_order := by
    rw [h.order_eq]
    exact hv.nodup_pending
  mem_order := by
    intro s
    rw [h.order_eq, h.mem_pending_iff]
  nodup_discardedOrder := by
    rw [h.discardedOrder_eq]
    exact hv.nodup_discarded
  mem_discardedOrder := by
    intro s
    rw [h.discardedOrder_eq, h.mem_discarded]
  disjoint := by
    intro s hs
    rw [h.mem_discarded]
    exact hv.disjoint s (h.mem_pending_iff.1 hs)
  card_le := by
    intro hmax
    rw [h.config_eq] at hmax
    have hle := hv.discarded_le
    rw [Assembler.memory, if_neg hmax] at hle
    rw [h.card_keys hv, h.card_discarded hv, h.config_eq]
    exact ⟨hv.pending_le hmax, hle⟩
  card_discarded_le := by
    intro hmax
    rw [h.config_eq] at hmax
    have hle := hv.discarded_le
    rw [Assembler.memory, if_pos hmax] at hle
    rw [h.card_discarded hv]
    exact hle
  chunkInfo_pending := by
    intro s q hq
    rw [h.lookup_eq] at hq
    have hmem := Assembler.mem_pending_of_lookup hq
    rw [h.config_eq]
    exact ⟨hv.chunkInfo_pending _ hmem, hv.data_le _ hmem⟩
  skipped_eq := h.skipped_eq

/-- The streams that are incomplete after some events. -/
def Incomplete (config : Config) (events : List Event) (s : Int64) : Prop :=
  s ∈ (after { config } events).pending

/-- After every run the containers and queues hold what `Assembler` holds. -/
theorem represents_after (config : Config) (events : List Event) :
    (after { config } events).Represents (Assembler.after { config } events) :=
  (represents_new config).after (Assembler.valid_new config) events

theorem incomplete_eq (config : Config) : Incomplete config = Assembler.Incomplete config := by
  funext events s
  exact propext (represents_after config events).mem_pending_iff

/-- **Containers and queues agree** after every run from a new assembler, the queue of the incomplete
streams is in start order, and no move has returned early. The state is that of `Assembler`, and
whatever is fed next is answered alike. -/
theorem coherent_after (config : Config) (events : List Event) :
    (after { config } events).Coherent ∧
      InStartOrder (Incomplete config) events (after { config } events).order ∧
      (after { config } events).Represents (Assembler.after { config } events) ∧
      ∀ p, ((after { config } events).feed p).Represents
        ((Assembler.after { config } events).feed p) := by
  have hvalid := (Assembler.valid_new config).after events
  have hrepresents := represents_after config events
  rw [incomplete_eq, hrepresents.order_eq]
  exact ⟨hrepresents.coherent hvalid, Assembler.inStartOrder_pendingIds config events, hrepresents,
    hrepresents.feed hvalid⟩

end IndexedAssembler

end RpcFraming
