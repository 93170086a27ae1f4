import RpcFraming.Metadata
import RpcFraming.StreamId
import Mathlib.Data.FinEnum
import Mathlib.Data.LawfulXor.Basic
import Mathlib.Data.List.Nodup

/-!
# How often a stream id is drawn

A stream id is a scrambled counter without its highest bit. Scrambling loses nothing: what two words
differ in cannot be folded away, and an odd number can be divided by. So ids repeat only through the
bit that is cleared. Each id is made from just two of the counters (`StreamIds.Twins`), and a run that
takes the counter around at most once draws it as often as it comes past one of the two.

## What is proved

* `StreamIds.mix_bijective`: no two words are scrambled alike, and every word is a scrambled one.
* `StreamIds.idOf_eq_iff`: which counters make the same id.
* `StreamIds.exists_twins`: every number that is not negative is made from two counters.
* `StreamIds.count_draw`: how often a run draws an id.
* `StreamIds.collisions`: all this in one place.
-/

namespace RpcFraming.StreamIds

/-! ### Scrambling can be undone -/

/-- Fold the high bits of a word down by some places. -/
def foldDown (k w : UInt64) : UInt64 := w ^^^ (w >>> k)

theorem mix_eq :
    mix = foldDown 31 ∘ (· * 0x94D049BB133111EB) ∘ foldDown 27 ∘ (· * 0xBF58476D1CE4E5B9) ∘
      foldDown 30 ∘ (· + 0x9E3779B97F4A7C15) := rfl

theorem eq_zero_of_shiftRight_eq {k w : UInt64} (hk : 0 < k.toNat % 64) (h : w >>> k = w) :
    w = 0 := by
  have hdiv : w.toNat / 2 ^ (k.toNat % 64) = w.toNat := by
    rw [← Nat.shiftRight_eq_div_pow, ← UInt64.toNat_shiftRight, h]
  rw [← UInt64.toNat_inj]
  by_contra hne
  have hlt : w.toNat / 2 ^ (k.toNat % 64) < w.toNat :=
    Nat.div_lt_self (Nat.pos_of_ne_zero hne) (Nat.one_lt_two_pow (Nat.ne_of_gt hk))
  omega

/-- Folding down by at least one place can be undone. -/
theorem foldDown_injective {k : UInt64} (hk : 0 < k.toNat % 64) :
    Function.Injective (foldDown k) := by
  intro v w h
  have hfold : v ^^^ (v >>> k) = w ^^^ (w >>> k) := h
  -- What the two words differ in stays the same when it is shifted.
  have hshift : (v ^^^ w) >>> k = v ^^^ w :=
    calc (v ^^^ w) >>> k
      _ = (v >>> k) ^^^ (w >>> k) := UInt64.shiftRight_xor
      _ = (v ^^^ (v ^^^ (v >>> k))) ^^^ (w >>> k) := by rw [xor_cancel_left]
      _ = v ^^^ ((w ^^^ (w >>> k)) ^^^ (w >>> k)) := by rw [hfold, UInt64.xor_assoc]
      _ = v ^^^ w := by rw [xor_cancel_right]
  exact UInt64.xor_eq_zero_iff.1 (eq_zero_of_shiftRight_eq hk hshift)

theorem mul_injective (m inverse : UInt64) (h : m * inverse = 1) :
    Function.Injective (· * m) := by
  have hdivide : Function.LeftInverse (· * inverse) (· * m) := by
    intro w
    show w * m * inverse = w
    rw [UInt64.mul_assoc, h, UInt64.mul_one]
  exact hdivide.injective

/-- **Scrambling loses nothing.** -/
theorem mix_injective : Function.Injective mix := by
  have hfirst := mul_injective 0xBF58476D1CE4E5B9 0x96DE1B173F119089 (by decide)
  have hsecond := mul_injective 0x94D049BB133111EB 0x319642B2D24D8EC3 (by decide)
  have hadd : Function.Injective (· + 0x9E3779B97F4A7C15 : UInt64 → UInt64) :=
    fun v w h => (UInt64.add_left_inj _).1 h
  rw [mix_eq]
  exact (foldDown_injective (by decide)).comp <| hsecond.comp <|
    (foldDown_injective (by decide)).comp <| hfirst.comp <|
    (foldDown_injective (by decide)).comp hadd

/-- **Every word is a scrambled word,** and of one word only. -/
theorem mix_bijective : Function.Bijective mix := Finite.injective_iff_bijective.1 mix_injective

/-! ### The bit that is cleared -/

theorem eq_of_getLsbD_eq {v w : UInt64}
    (h : ∀ i < 64, v.toBitVec.getLsbD i = w.toBitVec.getLsbD i) : v = w :=
  UInt64.toBitVec_inj.1 (BitVec.eq_of_getLsbD_eq h)

theorem eq_of_agree {v w : UInt64}
    (hlow : ∀ i < 63, v.toBitVec.getLsbD i = w.toBitVec.getLsbD i)
    (htop : v.toBitVec.getLsbD 63 = w.toBitVec.getLsbD 63) : v = w := by
  refine eq_of_getLsbD_eq fun i hi => ?_
  rcases Nat.lt_or_eq_of_le (Nat.le_of_lt_succ hi) with hi | rfl
  · exact hlow i hi
  · exact htop

/-- Two words differ in one of their bits, and in no other. -/
def DifferOnlyAt (k : Nat) (v w : UInt64) : Prop :=
  ∀ i < 64, v.toBitVec.getLsbD i ≠ w.toBitVec.getLsbD i ↔ i = k

/-- A word with its highest bit turned over. -/
def flipTop (w : UInt64) : UInt64 := w ^^^ 0x8000000000000000

theorem getLsbD_flipTop (w : UInt64) (i : Nat) :
    (flipTop w).toBitVec.getLsbD i = (w.toBitVec.getLsbD i ^^ decide (i = 63)) := by
  have htop : (0x8000000000000000 : UInt64).toBitVec = BitVec.twoPow 64 63 := by decide
  rw [flipTop, UInt64.toBitVec_xor, BitVec.getLsbD_xor, htop, BitVec.getLsbD_twoPow]
  simp [eq_comm]

theorem differOnlyAt_iff {v w : UInt64} : DifferOnlyAt 63 v w ↔ v = flipTop w := by
  constructor
  · intro h
    refine eq_of_getLsbD_eq fun i hi => ?_
    have hbit := h i hi
    rw [getLsbD_flipTop]
    by_cases htop : i = 63
    · rw [decide_eq_true htop, Bool.xor_true]
      exact Bool.eq_not.2 (hbit.2 htop)
    · rw [decide_eq_false htop, Bool.xor_false]
      exact not_not.1 (mt hbit.1 htop)
  · rintro rfl i -
    rw [getLsbD_flipTop]
    by_cases htop : i = 63 <;> simp [htop]

theorem flipTop_ne (w : UInt64) : flipTop w ≠ w := by
  intro h
  have hbit := getLsbD_flipTop w 63
  rw [h] at hbit
  simp at hbit

theorem getLsbD_and_mask (w : UInt64) (i : Nat) :
    (w &&& 0x7FFFFFFFFFFFFFFF).toBitVec.getLsbD i = (w.toBitVec.getLsbD i && decide (i < 63)) := by
  have hmask : (0x7FFFFFFFFFFFFFFF : UInt64).toBitVec.getLsbD i = decide (i < 63) :=
    Nat.testBit_two_pow_sub_one 63 i
  rw [UInt64.toBitVec_and, BitVec.getLsbD_and, hmask]

/-- Counters make the same id if their scrambled words agree in the bits that are kept. -/
theorem idOf_eq_iff_agree {c d : UInt64} :
    idOf c = idOf d ↔
      ∀ i < 63, (mix c).toBitVec.getLsbD i = (mix d).toBitVec.getLsbD i := by
  constructor
  · intro h i hi
    have hword : mix c &&& 0x7FFFFFFFFFFFFFFF = mix d &&& 0x7FFFFFFFFFFFFFFF := by
      rw [← UInt64.toUInt64_toInt64 (mix c &&& _), ← UInt64.toUInt64_toInt64 (mix d &&& _)]
      exact congrArg Int64.toUInt64 h
    have hc := getLsbD_and_mask (mix c) i
    have hd := getLsbD_and_mask (mix d) i
    rw [decide_eq_true hi, Bool.and_true] at hc hd
    rw [← hc, ← hd, hword]
  · intro h
    refine congrArg UInt64.toInt64 (eq_of_getLsbD_eq fun i _ => ?_)
    rw [getLsbD_and_mask, getLsbD_and_mask]
    by_cases hi : i < 63
    · rw [h i hi]
    · rw [decide_eq_false hi, Bool.and_false, Bool.and_false]

/-- **Which counters make the same id.** -/
theorem idOf_eq_iff {c d : UInt64} :
    idOf c = idOf d ↔ mix c = mix d ∨ DifferOnlyAt 63 (mix c) (mix d) := by
  rw [idOf_eq_iff_agree]
  constructor
  · intro h
    by_cases htop : (mix c).toBitVec.getLsbD 63 = (mix d).toBitVec.getLsbD 63
    · exact .inl (eq_of_agree h htop)
    · refine .inr fun i hi => ⟨fun hne => ?_, ?_⟩
      · by_contra hi63
        exact hne (h i (by omega))
      · rintro rfl
        exact htop
  · rintro (h | h) i hi
    · rw [h]
    · by_contra hne
      exact Nat.ne_of_lt hi ((h i (by omega)).1 hne)

theorem toInt64_and_mask {id : Int64} (h : 0 ≤ id) :
    (id.toUInt64 &&& 0x7FFFFFFFFFFFFFFF).toInt64 = id := by
  have htop : id.toUInt64.toBitVec.getLsbD 63 = false := by
    have hmsb : id.toBitVec.msb = false := by
      rw [BitVec.msb_eq_toInt]
      exact decide_eq_false (Int.not_lt.2 (Int64.le_iff_toInt_le.1 h))
    rwa [BitVec.msb_eq_getLsbD_last] at hmsb
  have hword : id.toUInt64 &&& 0x7FFFFFFFFFFFFFFF = id.toUInt64 := by
    refine eq_of_agree (fun i hi => ?_) ?_
    · rw [getLsbD_and_mask, decide_eq_true hi, Bool.and_true]
    · rw [getLsbD_and_mask, htop, Bool.false_and]
  rw [hword, Int64.toInt64_toUInt64]

/-! ### Twins -/

/-- The two counters from which an id is made. -/
structure Twins (c d : UInt64) (id : Int64) : Prop where
  /-- There are two. -/
  ne : c ≠ d
  /-- The id is made from them, and from no other. -/
  idOf_eq_iff : ∀ e, idOf e = id ↔ e = c ∨ e = d

/-- **Every number that is not negative is an id,** made from two counters. -/
theorem exists_twins {id : Int64} (h : 0 ≤ id) : ∃ c d, Twins c d id := by
  obtain ⟨c, hc⟩ := mix_bijective.surjective id.toUInt64
  obtain ⟨d, hd⟩ := mix_bijective.surjective (flipTop id.toUInt64)
  have hid : idOf c = id := by
    rw [idOf, hc]
    exact toInt64_and_mask h
  refine ⟨c, d, ?_, fun e => ?_⟩
  · rintro rfl
    exact flipTop_ne _ (hd.symm.trans hc)
  · rw [← hid, idOf_eq_iff, differOnlyAt_iff, hc, ← hd, ← hc, mix_injective.eq_iff,
      mix_injective.eq_iff]

/-! ### A run -/

/-- The ids that are drawn one after the other. -/
def draw : StreamIds → Nat → List Int64
  | _, 0 => []
  | ids, n + 1 => ids.next.1 :: draw ids.next.2 n

/-- The counters from one on, each one more than the one before. -/
def counters : UInt64 → Nat → List UInt64
  | _, 0 => []
  | c, n + 1 => c :: counters (c + 1) n

theorem draw_eq_map (ids : StreamIds) (n : Nat) :
    ids.draw n = (counters ids.counter n).map idOf := by
  induction n generalizing ids with
  | zero => rfl
  | succ n ih =>
    rw [draw, ih, counters, List.map_cons]
    rfl

/-- A run comes past a counter if that is not too far ahead, where the largest is followed by 0. -/
theorem mem_counters {e c : UInt64} {n : Nat} : e ∈ counters c n ↔ (e - c).toNat < n := by
  induction n generalizing c with
  | zero => simp [counters]
  | succ n ih =>
    have he := e.toNat_lt
    have hc := c.toNat_lt
    have hone : (1 : UInt64).toNat = 1 := rfl
    rw [counters, List.mem_cons, ih, ← UInt64.toNat_inj, UInt64.toNat_sub, UInt64.toNat_sub,
      UInt64.toNat_add, hone]
    omega

theorem nodup_counters {n : Nat} (hn : n ≤ UInt64.size) (c : UInt64) : (counters c n).Nodup := by
  induction n generalizing c with
  | zero => exact List.nodup_nil
  | succ n ih =>
    refine List.nodup_cons.2 ⟨fun hmem => ?_, ih (Nat.le_of_succ_le hn) (c + 1)⟩
    have hc := c.toNat_lt
    have hone : (1 : UInt64).toNat = 1 := rfl
    have hsize : UInt64.size = 2 ^ 64 := rfl
    rw [mem_counters, UInt64.toNat_sub, UInt64.toNat_add, hone] at hmem
    omega

/-- **How often a run draws an id:** once for each of its two counters that the run comes past. -/
theorem count_draw {n : Nat} (hn : n ≤ UInt64.size) {c d : UInt64} {id : Int64} (h : Twins c d id)
    (ids : StreamIds) :
    (ids.draw n).count id = [c, d].countP fun e => (e - ids.counter).toNat < n := by
  have hnodup : [c, d].Nodup := List.pairwise_pair.2 h.ne
  -- The counters come past that make the id, and the twins that the run comes past.
  have hperm : ((counters ids.counter n).filter fun e => idOf e == id).Perm
      ([c, d].filter fun e => (e - ids.counter).toNat < n) := by
    refine (List.perm_ext_iff_of_nodup ((nodup_counters hn _).filter _) (hnodup.filter _)).2
      fun e => ?_
    rw [List.mem_filter, List.mem_filter, mem_counters, beq_iff_eq, h.idOf_eq_iff, List.mem_pair,
      decide_eq_true_iff, and_comm]
  rw [draw_eq_map, List.count, List.countP_map, List.countP_eq_length_filter,
    List.countP_eq_length_filter]
  exact hperm.length_eq

theorem count_draw_of_neg {id : Int64} (h : ¬ 0 ≤ id) (ids : StreamIds) (n : Nat) :
    (ids.draw n).count id = 0 := by
  refine List.count_eq_zero.2 fun hmem => ?_
  rw [draw_eq_map] at hmem
  obtain ⟨e, -, rfl⟩ := List.mem_map.1 hmem
  exact h (idOf_nonneg e)

theorem count_draw_le_two {n : Nat} (hn : n ≤ UInt64.size) (ids : StreamIds) (id : Int64) :
    (ids.draw n).count id ≤ 2 := by
  by_cases h : 0 ≤ id
  · obtain ⟨c, d, htwins⟩ := exists_twins h
    rw [count_draw hn htwins]
    exact List.countP_le_length
  · rw [count_draw_of_neg h]
    exact Nat.zero_le 2

theorem count_draw_size {id : Int64} (h : 0 ≤ id) (ids : StreamIds) :
    (ids.draw UInt64.size).count id = 2 := by
  obtain ⟨c, d, htwins⟩ := exists_twins h
  rw [count_draw (Nat.le_refl _) htwins]
  exact List.countP_eq_length.2 fun e _ => decide_eq_true (e - ids.counter).toNat_lt

/-- **Stream ids collide in pairs.** Scrambling maps the words one to one onto themselves. No id is
negative, so none is the number that marks the last chunk. Two counters make the same id exactly if their
scrambled words are the same, or differ in the highest bit and in no other; each number that is not
negative is made from two of the counters. So a run from any counter on, if it does not take the counter
around more than once, draws no id more than twice; and if it takes the counter around once, it draws
each number that is not negative twice. -/
theorem collisions :
    Function.Bijective mix ∧
    (∀ ids : StreamIds, 0 ≤ ids.next.1 ∧ ids.next.1 ≠ ChunkInfo.finalId) ∧
    (∀ c d, idOf c = idOf d ↔ mix c = mix d ∨ DifferOnlyAt 63 (mix c) (mix d)) ∧
    (∀ id : Int64, 0 ≤ id → ∃ c d, c ≠ d ∧ ∀ e, idOf e = id ↔ e = c ∨ e = d) ∧
    (∀ (ids : StreamIds) (n : Nat), n ≤ UInt64.size → ∀ id, (ids.draw n).count id ≤ 2) ∧
    ∀ (ids : StreamIds) (id : Int64), 0 ≤ id → (ids.draw UInt64.size).count id = 2 := by
  refine ⟨mix_bijective, fun ids => ⟨idOf_nonneg ids.counter, fun h => ?_⟩,
    fun c d => idOf_eq_iff, fun id h => ?_, fun ids n hn id => count_draw_le_two hn ids id,
    fun ids id h => count_draw_size h ids⟩
  · have hneg : ¬ 0 ≤ ChunkInfo.finalId := by decide
    exact hneg (h ▸ idOf_nonneg ids.counter)
  · obtain ⟨c, d, htwins⟩ := exists_twins h
    exact ⟨c, d, htwins.ne, htwins.idOf_eq_iff⟩

/-- `collisions` for the two counters that make the id 5. -/
theorem collisions_five :
    idOf 0x83C953D1D0EE9FB1 = 5 ∧ idOf 0x851E329CC0854B8B = 5 ∧
      DifferOnlyAt 63 (mix 0x83C953D1D0EE9FB1) (mix 0x851E329CC0854B8B) ∧
      (∀ e, idOf e = 5 → e = 0x83C953D1D0EE9FB1 ∨ e = 0x851E329CC0854B8B) ∧
      3 ≤ UInt64.size ∧ ((StreamIds.mk 0x83C953D1D0EE9FB0).draw 3).count 5 ≤ 2 ∧
      ((StreamIds.mk 0x83C953D1D0EE9FB0).draw UInt64.size).count 5 = 2 := by
  obtain ⟨-, -, hsame, hpair, hrun, haround⟩ := collisions
  have hfirst : idOf 0x83C953D1D0EE9FB1 = 5 := by decide
  have hsecond : idOf 0x851E329CC0854B8B = 5 := by decide
  have hdiffer := (hsame _ _).1 (hfirst.trans hsecond.symm)
  obtain ⟨c, d, -, hmade⟩ := hpair 5 (by decide)
  refine ⟨hfirst, hsecond, hdiffer.resolve_left (by decide), fun e he => ?_, by decide,
    hrun _ 3 (by decide) 5, haround _ 5 (by decide)⟩
  have hne : (0x83C953D1D0EE9FB1 : UInt64) ≠ 0x851E329CC0854B8B := by decide
  rcases (hmade _).1 hfirst with rfl | rfl
  · rcases (hmade _).1 hsecond with h | rfl
    · exact absurd h.symm hne
    · exact (hmade e).1 he
  · rcases (hmade _).1 hsecond with rfl | h
    · exact ((hmade e).1 he).symm
    · exact absurd h.symm hne

end RpcFraming.StreamIds
