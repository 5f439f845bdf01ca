/-
# Theory.Channel -- a first-in first-out channel with one receiver

Senders append until the channel is closed; the receiver takes from the front, and is told that the
channel has ended only when it is closed and empty. `taken` and `sent` are the channel's history:
what was sent is what was taken followed by what still waits (`Sound`), whatever the order of calls.
-/
import Mathlib.Tactic.Common

namespace MassaIndexer.Theory

set_option autoImplicit false

structure Channel (ε : Type) where
  queue : List ε := []
  closed : Bool := false
  taken : List ε := []
  sent : List ε := []

/-- What one call of `recv` finds. -/
inductive Received (ε : Type) where
  | pending
  | event (e : ε)
  | ended

namespace Channel

variable {ε : Type}

/-- A closed channel has no sender left. -/
def send (c : Channel ε) (e : ε) : Channel ε :=
  if c.closed then c else { c with queue := c.queue ++ [e], sent := c.sent ++ [e] }

def close (c : Channel ε) : Channel ε := { c with closed := true }

def recv (c : Channel ε) : Received ε :=
  match c.queue with
  | e :: _ => .event e
  | [] => if c.closed then .ended else .pending

/-- The channel after its first event has been taken. -/
def drop (c : Channel ε) : Channel ε :=
  match c.queue with
  | e :: rest => { c with queue := rest, taken := c.taken ++ [e] }
  | [] => c

/-- Closed, with nothing left to take. -/
def Ended (c : Channel ε) : Prop := c.closed = true ∧ c.queue = []

def Sound (c : Channel ε) : Prop := c.taken ++ c.queue = c.sent

theorem sound_empty : Sound ({} : Channel ε) := rfl

theorem sound_send {c : Channel ε} (sound : c.Sound) (e : ε) : (c.send e).Sound := by
  unfold send
  split
  · exact sound
  · rw [Sound, ← List.append_assoc, sound]

theorem sound_drop {c : Channel ε} (sound : c.Sound) : c.drop.Sound := by
  unfold drop
  split
  · next e rest waits =>
      rw [Sound, waits] at sound
      rw [Sound, ← sound, List.append_assoc]
      rfl
  · exact sound

@[simp] theorem taken_send (c : Channel ε) (e : ε) : (c.send e).taken = c.taken := by
  unfold send
  split <;> rfl

@[simp] theorem taken_close (c : Channel ε) : c.close.taken = c.taken := rfl

@[simp] theorem sent_drop (c : Channel ε) : c.drop.sent = c.sent := by
  unfold drop
  split <;> rfl

@[simp] theorem closed_drop (c : Channel ε) : c.drop.closed = c.closed := by
  unfold drop
  split <;> rfl

theorem send_open {c : Channel ε} (open_ : c.closed = false) (e : ε) :
    (c.send e).sent = c.sent ++ [e] ∧ (c.send e).closed = false := by
  unfold send
  rw [if_neg (by simp [open_])]
  exact ⟨rfl, open_⟩

/-- Nothing is sent on an ended channel. -/
theorem ended_send {c : Channel ε} (ended : c.Ended) (e : ε) : (c.send e).Ended := by
  rw [send, if_pos ended.1]
  exact ended

theorem ended_close {c : Channel ε} (ended : c.Ended) : c.close.Ended := ⟨rfl, ended.2⟩

theorem ended_of_recv {c : Channel ε} (told : c.recv = .ended) : c.Ended := by
  unfold recv at told
  split at told
  · cases told
  · next empty =>
      split at told
      · next closed => exact ⟨closed, empty⟩
      · cases told

theorem empty_of_recv_pending {c : Channel ε} (told : c.recv = .pending) : c.queue = [] := by
  unfold recv at told
  split at told
  · cases told
  · assumption

theorem taken_drop_of_recv {c : Channel ε} {e : ε} (told : c.recv = .event e) :
    c.drop.taken = c.taken ++ [e] := by
  unfold recv at told
  split at told
  · next first rest waits =>
      rw [drop, waits]
      exact congrArg (fun x => c.taken ++ [x]) (Received.event.inj told)
  · next empty =>
      split at told <;> cases told

end Channel

end MassaIndexer.Theory
