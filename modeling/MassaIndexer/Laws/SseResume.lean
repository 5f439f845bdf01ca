/-
# Laws.SseResume -- what a reconnecting stream client receives

A client that comes back with `Last-Event-ID: since` is meant to receive every frame past `since` that
its route lets through, once, in id order. The request reads the ring first and subscribes second,
and a broadcast pushes first and sends second, so a frame has two chances to be taken or missed.

`resume_exact_iff` names the schedules that are clean, for broadcasts that follow one another: the
replay and the subscription came after the same frames past `since`, and no frame at or before
`since` was still to be sent. `resume_loses_and_repeats` runs the two schedules that are not.
-/
import MassaIndexer.Rest.SseHub

namespace MassaIndexer.Laws.SseResume

open MassaIndexer.Theory.Runs MassaIndexer.Theory.Resume MassaIndexer.Rest.SseHub

set_option autoImplicit false

/-- A schedule in which broadcasts follow one another, the ring still holds what the client is
missing, and at whose end the client has subscribed and no broadcast is under way. -/
structure Resumed (capacity since : Nat) (keep : String → Bool) where
  steps : List Step
  good : Along (step capacity since keep) (fun w e => Serial w e ∧ Kept since w e) {} steps
  quiet : (run (step capacity since keep) {} steps).quiet
  replay : List SseFrame
  live : List SseFrame
  subscribed : (run (step capacity since keep) {} steps).reader = .streaming replay live

namespace Resumed

variable {capacity since : Nat} {keep : String → Bool}

def last (r : Resumed capacity since keep) : World := run (step capacity since keep) {} r.steps

theorem sound (r : Resumed capacity since keep) : Sound since keep r.last := sound_run r.good

/-- With no broadcast under way every frame with an id was pushed and sent. -/
theorem sent_eq (r : Resumed capacity since keep) :
    r.last.sent = r.last.assigned ∧ r.last.pushed = r.last.assigned := by
  have noPush : r.last.toPush = [] := r.quiet.1
  have noSend : r.last.toSend = [] := r.quiet.2
  have order := r.sound.order
  have pushed := r.sound.pushed
  rw [noSend, noPush, List.append_nil, List.append_nil] at order
  rw [noSend, List.append_nil] at pushed
  exact ⟨order.symm, by rw [pushed, order]⟩

end Resumed

/-- Every frame the route lets through was seen by the replay exactly when it was sent before the
subscription, or is at or before the cursor and was sent before the subscription. -/
def Clean (since : Nat) (keep : String → Bool) (w : World) : Prop :=
  ∀ frame ∈ w.assigned, keep frame.data = true →
    (newer since frame = true → (frame ∈ w.pushedBefore ↔ frame ∈ w.sentBefore)) ∧
      (newer since frame = false → frame ∈ w.sentBefore)

/-- **The client is handed exactly the frames past its cursor, each once and in id order, if and only
if the schedule is clean.** -/
theorem resume_exact_iff {capacity since : Nat} {keep : String → Bool}
    (r : Resumed capacity since keep) :
    (r.last.delivered keep = r.last.wanted since keep ∧
      (r.last.wanted since keep).Pairwise fun f g => f.id < g.id) ↔ Clean since keep r.last := by
  have increasing : (r.last.wanted since keep).Pairwise fun f g => f.id < g.id :=
    (r.sound.ids.filter _).filter _
  have phase : r.last.reader = .streaming r.replay r.live := r.subscribed
  have reader := r.sound.reader
  rw [ReaderSound, phase] at reader
  obtain ⟨read, late, split, holds⟩ := reader
  obtain ⟨allSent, allPushed⟩ := r.sent_eq
  rw [allPushed] at read
  rw [allSent] at split
  rw [and_iff_left increasing, World.delivered, phase, World.wanted, Clean]
  show r.last.received ++ (r.replay ++ r.live).filter (fun f => keep f.data) = _ ↔ _
  rw [holds]
  exact replay_then_live_iff (nodup_assigned r.sound) read split

/-! ## Two schedules that are not clean -/

/-- A whole broadcast falls between the replay and the subscription: its frame is in neither. -/
def lossyResume : Resumed 16 0 fun _ => true where
  steps := [.replaySince, .fetchAdd "a", .push ⟨1, "a"⟩, .send ⟨1, "a"⟩, .subscribe]
  good := by simp [Along, Serial, Kept, World.quiet, step]
  quiet := ⟨by decide, by decide⟩
  replay := []
  live := []
  subscribed := by decide

/-- The replay and the subscription fall between a push and its send: the frame is in both. -/
def repeatingResume : Resumed 16 0 fun _ => true where
  steps := [.fetchAdd "a", .push ⟨1, "a"⟩, .replaySince, .subscribe, .send ⟨1, "a"⟩]
  good := by simp [Along, Serial, Kept, World.quiet, step, pushRing]
  quiet := ⟨by decide, by decide⟩
  replay := [⟨1, "a"⟩]
  live := [⟨1, "a"⟩]
  subscribed := by decide

/-- **A resumed stream loses a frame in one schedule and repeats one in another**, with the ring never
full and the receiver never behind. -/
theorem resume_loses_and_repeats :
    (lossyResume.last.wanted 0 (fun _ => true) = [⟨1, "a"⟩] ∧
        lossyResume.last.delivered (fun _ => true) = []) ∧
      repeatingResume.last.wanted 0 (fun _ => true) = [⟨1, "a"⟩] ∧
        repeatingResume.last.delivered (fun _ => true) = [⟨1, "a"⟩, ⟨1, "a"⟩] :=
  ⟨⟨by decide, by decide⟩, by decide, by decide⟩

end MassaIndexer.Laws.SseResume
