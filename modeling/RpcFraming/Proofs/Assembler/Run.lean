import RpcFraming.Proofs.Assembler.Streams
import Mathlib.Data.List.Induction

/-!
# Runs of an assembler

Packets are fed to an assembler one after the other, and from time to time it is cleared. What holds
of a new assembler and is kept by both holds after every run.
-/

namespace RpcFraming.Assembler

/-- What is done with an assembler. -/
inductive Event where
  /-- A packet is fed to it. -/
  | feed (packet : Packet)
  /-- It is cleared. -/
  | clear
  deriving DecidableEq

/-- The assembler after one event, whatever was answered. -/
def next (a : Assembler) : Event → Assembler
  | .feed p => (a.feed p).assembler
  | .clear => a.clear

/-- The assembler after some events. -/
def after (a : Assembler) (events : List Event) : Assembler := events.foldl next a

variable {a : Assembler}

@[simp] theorem after_concat (events : List Event) (e : Event) :
    a.after (events ++ [e]) = (a.after events).next e := by
  simp [after]

theorem Valid.next (h : a.Valid) (e : Event) : (a.next e).Valid := by
  cases e with
  | feed p => exact h.feed p
  | clear => exact h.clear

/-- **Every run leaves a valid assembler valid.** -/
theorem Valid.after (h : a.Valid) (events : List Event) : (a.after events).Valid := by
  induction events using List.reverseRecOn with
  | nil => exact h
  | append_singleton events e ih =>
    rw [after_concat]
    exact ih.next e

@[simp] theorem config_next (e : Event) : (a.next e).config = a.config := by
  cases e with
  | feed p => exact config_feed
  | clear => rfl

@[simp] theorem config_after (events : List Event) : (a.after events).config = a.config := by
  induction events using List.reverseRecOn with
  | nil => rfl
  | append_singleton events e ih => rw [after_concat, config_next, ih]

end RpcFraming.Assembler
