import RpcFraming.Draft
import RpcFraming.Proofs.Refusal

/-!
# Drafts that go on after a refused setting

A magic code that does not have four bytes is refused, and the caller may go on with the draft. Apart
from the head, the draft is then as if the refused code had not been tried. Its head is made before the
code is looked at. So a draft without a head has the usual one from then on, and a packet built from it
can be sent under the usual magic code although no magic code was ever accepted.

## What is proved

* `set_snd`: which settings are refused does not depend on the draft.
* `set_fst_of_isRefused`: a refused setting makes sure that there is a head (`Draft.withHead`), and does
  nothing else.
* `setAll_eq_accepted`: so do many of them, wherever they stand among the settings.
* `built_settings`: what is built despite refused settings, when it is what the accepted ones build alone,
  and when encoding finds no head.
-/

namespace RpcFraming

namespace Setting

/-- The setting is a magic code. -/
def isMagic : Setting → Bool
  | .magic _ => true
  | _ => false

/-- The setting is refused: it is a magic code that does not have four bytes. -/
def isRefused : Setting → Bool
  | .magic code => code.length ≠ 4
  | _ => false

/-- The settings that are not refused. -/
def accepted (settings : List Setting) : List Setting := settings.filter fun s => !s.isRefused

theorem isMagic_of_isRefused {s : Setting} (h : s.isRefused = true) : s.isMagic = true := by
  cases s with
  | magic code => rfl
  | _ => cases h

/-- There is a magic code among the settings if one was accepted or refused. -/
theorem any_isMagic_eq (settings : List Setting) :
    settings.any isMagic = ((accepted settings).any isMagic || settings.any isRefused) := by
  induction settings with
  | nil => rfl
  | cons s settings ih =>
    cases hs : s.isRefused with
    | true => simp [accepted, hs, isMagic_of_isRefused hs]
    | false =>
      rw [accepted] at ih ⊢
      simp [hs, ih, Bool.or_assoc]

end Setting

open Setting

namespace Draft

/-! ### One setting -/

/-- The draft with a head, the usual one if it has none. -/
def withHead (d : Draft) : Draft := { d with head := some (d.head.getD {}) }

/-- **What is refused**: it depends on the setting alone. -/
theorem set_snd (d : Draft) (s : Setting) :
    (d.set s).2 = if s.isRefused then some .magicLength else none := by
  cases s with
  | magic code =>
    cases hcode : Magic.ofBytes? code with
    | none =>
      have hlength := Magic.ofBytes?_eq_none_iff.1 hcode
      simp [set, setMagic, Head.withMagic, hcode, isRefused, hlength]
    | some magic =>
      rw [Magic.ofBytes?_eq_some_iff] at hcode
      simp [set, setMagic, Head.withMagic, hcode, isRefused]
  | _ => rfl

/-- A refused setting leaves a head and nothing else. -/
theorem set_fst_of_isRefused (d : Draft) {s : Setting} (h : s.isRefused = true) :
    (d.set s).1 = d.withHead := by
  cases s with
  | magic code =>
    have hcode : Magic.ofBytes? code = none :=
      Magic.ofBytes?_eq_none_iff.2 (by simpa [isRefused] using h)
    simp [set, setMagic, Head.withMagic, hcode, withHead]
  | _ => cases h

/-- It makes no difference whether a head is there before a setting or is made after it. -/
theorem set_withHead (d : Draft) (s : Setting) : (d.withHead.set s).1 = (d.set s).1.withHead := by
  cases s with
  | magic code =>
    cases hcode : Magic.ofBytes? code <;> simp [set, setMagic, Head.withMagic, hcode, withHead]
  | _ => rfl

theorem isSome_head_set (d : Draft) (s : Setting) :
    (d.set s).1.head.isSome = (d.head.isSome || s.isMagic) := by
  cases s with
  | magic code =>
    cases hcode : Magic.ofBytes? code <;> simp [set, setMagic, Head.withMagic, hcode, isMagic]
  | _ => simp [isMagic, head_set]

/-! ### Many settings -/

theorem setAll_withHead (d : Draft) (settings : List Setting) :
    d.withHead.setAll settings = (d.setAll settings).withHead := by
  induction settings generalizing d with
  | nil => rfl
  | cons s settings ih =>
    simp only [setAll, List.foldl_cons, set_withHead] at ih ⊢
    exact ih _

/-- **Refused settings leave a head at most**, wherever they stand. -/
theorem setAll_eq_accepted (d : Draft) (settings : List Setting) :
    d.setAll settings
      = if settings.any isRefused then (d.setAll (accepted settings)).withHead
        else d.setAll (accepted settings) := by
  induction settings generalizing d with
  | nil => rfl
  | cons s settings ih =>
    have hcons : d.setAll (s :: settings) = (d.set s).1.setAll settings := rfl
    cases hs : s.isRefused with
    | true =>
      have haccepted : accepted (s :: settings) = accepted settings := by simp [accepted, hs]
      -- the head that is made here can as well be made at the end, where one may have to be made anyway
      rw [hcons, set_fst_of_isRefused d hs, setAll_withHead, ih d, haccepted, List.any_cons, hs,
        Bool.true_or, if_pos rfl]
      split <;> rfl
    | false =>
      have haccepted : accepted (s :: settings) = s :: accepted settings := by simp [accepted, hs]
      rw [hcons, ih, haccepted, List.any_cons, hs, Bool.false_or]
      rfl

theorem isSome_head_setAll (d : Draft) (settings : List Setting) :
    (d.setAll settings).head.isSome = (d.head.isSome || settings.any isMagic) := by
  induction settings generalizing d with
  | nil => simp [setAll]
  | cons s settings ih =>
    have hcons : d.setAll (s :: settings) = (d.set s).1.setAll settings := rfl
    rw [hcons, ih, isSome_head_set, List.any_cons, Bool.or_assoc]

/-! ### Packets built from settings -/

/-- The packet that is built from a fresh draft after some settings, whether or not some of them were
refused. -/
def built (settings : List Setting) : Packet := (({} : Draft).setAll settings).build

theorem isSome_head_built (settings : List Setting) :
    (built settings).head.isSome = settings.any isMagic := by
  have h := isSome_head_setAll {} settings
  rwa [Option.isSome_none, Bool.false_or] at h

theorem built_of_any_isRefused {settings : List Setting} (h : settings.any isRefused = true) :
    built settings
      = { built (accepted settings) with head := some ((built (accepted settings)).head.getD {}) } := by
  rw [built, setAll_eq_accepted, if_pos h]
  rfl

theorem built_of_not_any_isRefused {settings : List Setting} (h : settings.any isRefused = false) :
    built settings = built (accepted settings) := by
  rw [built, setAll_eq_accepted, h]
  rfl

/-- Refused settings change what is built if they put in a head where none was accepted. -/
theorem built_eq_accepted_iff (settings : List Setting) :
    built settings = built (accepted settings) ↔
      (settings.any isRefused = true → (accepted settings).any isMagic = true) := by
  cases h : settings.any isRefused with
  | false => simp [built_of_not_any_isRefused h]
  | true =>
    have hhead := isSome_head_built settings
    have hhead' := isSome_head_built (accepted settings)
    constructor
    · intro heq _
      rw [← hhead', ← heq, hhead, any_isMagic_eq, h, Bool.or_true]
    · intro hmagic
      rw [hmagic rfl, Option.isSome_iff_exists] at hhead'
      obtain ⟨head, hhead'⟩ := hhead'
      rw [built_of_any_isRefused h, hhead', Option.getD_some, ← hhead']

/-- **Going on after refused settings.** A setting is refused for what it says, not for what was said
before. With refused settings among them, some settings build the packet that the accepted ones build,
but that it has a head as soon as any magic code was tried, the usual one if none was accepted. So it is
another packet exactly if a code was refused and none accepted; and encoding finds no head only if no
code was even tried. -/
theorem built_settings (settings : List Setting) :
    (∀ (d : Draft) (s : Setting),
      (d.set s).2 = if s.isRefused then some .magicLength else none) ∧
    built settings
      = { built (accepted settings) with
          head :=
            if settings.any isMagic then some ((built (accepted settings)).head.getD {}) else none } ∧
    (built settings = built (accepted settings) ↔
      (settings.any isRefused = true → (accepted settings).any isMagic = true)) ∧
    ∀ codec : Codec Id,
      (Id.run ((built settings).encode codec)).outcome = .error .missingHead ↔
        settings.any isMagic = false := by
  have hhead := isSome_head_built settings
  refine ⟨set_snd, ?_, built_eq_accepted_iff settings, fun codec => ?_⟩
  · cases hrefused : settings.any isRefused with
    | true =>
      rw [if_pos (by rw [any_isMagic_eq, hrefused, Bool.or_true])]
      exact built_of_any_isRefused hrefused
    | false =>
      rw [← built_of_not_any_isRefused hrefused, ← hhead]
      generalize built settings = p
      obtain ⟨_ | head, metadata, data, attachment, timestamp⟩ := p <;> rfl
  · rw [Packet.outcome_encode_eq_error_iff rfl, ← hhead]
    simp [Packet.Lacks]

/-- A magic code of one byte, and then the name of a service. -/
def refusedThenNamed : List Setting := [.magic [0x58], .serviceName "s"]

/-- The serialized metadata that names the service. -/
def namedBytes : Bytes :=
  [0x0A, 13, 0x0A, 1, 0x73, 0x12, 0, 0x18, 0, 0x20, 0, 0x28, 0, 0x30, 0, 0x18, 0, 0x20, 0, 0x28, 0]

/-- A codec that knows the metadata that names the service. -/
def namedCodec : Codec Id :=
  .ofTable [(({ request := some { serviceName := "s" } } : Metadata).toMessage, namedBytes)]

/-- Of `refusedThenNamed` the magic code is refused, and a packet with the usual head is built and
encoded. Without the magic code the packet has no head and is not encoded. -/
theorem built_refusedThenNamed :
    (set {} (.magic [0x58])).2 = some .magicLength ∧
      accepted refusedThenNamed = [.serviceName "s"] ∧
      (built refusedThenNamed).head = some {} ∧
      (built (accepted refusedThenNamed)).head = none ∧
      built refusedThenNamed ≠ built (accepted refusedThenNamed) ∧
      (Id.run ((built refusedThenNamed).encode namedCodec)).outcome
        = .ok ([0x50, 0x52, 0x50, 0x43, 0, 0, 0, 21, 0, 0, 0, 21] ++ namedBytes) ∧
      (Id.run ((built (accepted refusedThenNamed)).encode namedCodec)).outcome
        = .error .missingHead := by
  refine ⟨rfl, rfl, rfl, rfl, ?_, rfl, rfl⟩
  intro heq
  exact Option.some_ne_none _ (congrArg Packet.head heq)

end Draft

end RpcFraming
