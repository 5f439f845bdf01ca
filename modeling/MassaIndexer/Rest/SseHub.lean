/-
# Rest.SseHub -- the broadcast hub and one client that comes back

`SseHub::broadcast` is three steps, taken by whoever calls it: an id is assigned, the frame is pushed
to the ring, the frame is sent on the channel. A client that reconnects with `Last-Event-ID: since`
takes three kinds of steps of its own: it reads the ring (`replay_since`), it subscribes, and it
drains the replay and then its receiver. All these steps interleave freely.

The receiver holds exactly what is sent after it subscribed, in order, and never lags. Beside the hub
and the client a `World` carries what happened so far: the frames assigned, pushed and sent, and how
much of that the replay and the subscription came after.
-/
import MassaIndexer.Theory.Resume
import MassaIndexer.Theory.Runs

namespace MassaIndexer.Rest.SseHub

open MassaIndexer.Theory.Runs

set_option autoImplicit false

structure SseFrame where
  id : Nat
  data : String
deriving DecidableEq

/-- How far the reconnecting request has come in `sse_response`. -/
inductive Reader where
  | waiting
  | replayed (replay : List SseFrame)
  | streaming (replay live : List SseFrame)
deriving DecidableEq

structure World where
  nextId : Nat := 1
  ring : List SseFrame := []
  /-- Frames of broadcasts that have an id and no place in the ring yet. -/
  toPush : List SseFrame := []
  /-- Frames of broadcasts that are in the ring and not on the channel yet. -/
  toSend : List SseFrame := []
  reader : Reader := .waiting
  received : List SseFrame := []
  assigned : List SseFrame := []
  pushed : List SseFrame := []
  sent : List SseFrame := []
  /-- What had been pushed when the replay was taken. -/
  pushedBefore : List SseFrame := []
  /-- What had been sent when the client subscribed. -/
  sentBefore : List SseFrame := []

inductive Step where
  | fetchAdd (data : String)
  | push (frame : SseFrame)
  | send (frame : SseFrame)
  | replaySince
  | subscribe
  | next

/-- The ring drops its oldest frame when it is full. -/
def pushRing (capacity : Nat) (ring : List SseFrame) (frame : SseFrame) : List SseFrame :=
  (if ring.length = capacity then ring.tail else ring) ++ [frame]

/-- `since` is the client's `Last-Event-ID`. -/
def newer (since : Nat) (frame : SseFrame) : Bool := decide (since < frame.id)

/-- The receiver of a subscribed client takes the frame. -/
def Reader.take (reader : Reader) (frame : SseFrame) : Reader :=
  match reader with
  | .streaming replay live => .streaming replay (live ++ [frame])
  | reader => reader

section Steps
variable (capacity since : Nat) (keep : String → Bool)

/-- What a frame leaves with the client: nothing when the route's filter drops it. -/
def handOver (frame : SseFrame) : List SseFrame := [frame].filter fun f => keep f.data

/-- One step; a step that is not possible changes nothing. -/
def step (w : World) : Step → World
  | .fetchAdd data =>
      let frame : SseFrame := { id := w.nextId, data := data }
      { w with
        nextId := w.nextId + 1
        assigned := w.assigned ++ [frame]
        toPush := w.toPush ++ [frame] }
  | .push frame =>
      if frame ∈ w.toPush then
        { w with
          ring := pushRing capacity w.ring frame
          toPush := w.toPush.erase frame
          toSend := w.toSend ++ [frame]
          pushed := w.pushed ++ [frame] }
      else w
  | .send frame =>
      if frame ∈ w.toSend then
        { w with
          toSend := w.toSend.erase frame
          sent := w.sent ++ [frame]
          reader := w.reader.take frame }
      else w
  | .replaySince =>
      match w.reader with
      | .waiting =>
          { w with reader := .replayed (w.ring.filter (newer since)), pushedBefore := w.pushed }
      | _ => w
  | .subscribe =>
      match w.reader with
      | .replayed replay => { w with reader := .streaming replay [], sentBefore := w.sent }
      | _ => w
  | .next =>
      match w.reader with
      | .streaming (frame :: replay) live =>
          { w with reader := .streaming replay live, received := w.received ++ handOver keep frame }
      | .streaming [] (frame :: live) =>
          { w with reader := .streaming [] live, received := w.received ++ handOver keep frame }
      | _ => w

/-! ## Conditions on a run -/

/-- No broadcast is under way. -/
def World.quiet (w : World) : Prop := w.toPush = [] ∧ w.toSend = []

/-- A broadcast starts when the one before it has ended, as the ingest task makes them. -/
def Serial (w : World) : Step → Prop
  | .fetchAdd _ => w.quiet
  | _ => True

/-- When the replay is taken, the ring still has every frame past the cursor. -/
def Kept (w : World) : Step → Prop
  | .replaySince => ∀ frame ∈ w.pushed, newer since frame = true → frame ∈ w.ring
  | _ => True

/-- What the client has been handed and what waits for it. -/
def World.delivered (w : World) : List SseFrame :=
  match w.reader with
  | .streaming replay live => w.received ++ (replay ++ live).filter fun f => keep f.data
  | _ => w.received

/-- The frames past the cursor that pass the filter, in the order of their ids. -/
def World.wanted (w : World) : List SseFrame :=
  (w.assigned.filter (newer since)).filter fun f => keep f.data

/-! ## What holds in every state -/

/-- What the client holds, by how far it has come. -/
def ReaderSound (w : World) : Prop :=
  match w.reader with
  | .waiting => w.received = []
  | .replayed replay =>
      w.received = [] ∧ w.pushedBefore <+: w.pushed ∧ replay = w.pushedBefore.filter (newer since)
  | .streaming replay live =>
      w.pushedBefore <+: w.pushed ∧ ∃ late, w.sent = w.sentBefore ++ late ∧
        w.received ++ (replay ++ live).filter (fun f => keep f.data) =
          (w.pushedBefore.filter (newer since)).filter (fun f => keep f.data) ++
            late.filter fun f => keep f.data

structure Sound (w : World) : Prop where
  ids : w.assigned.Pairwise fun f g => f.id < g.id
  fresh : ∀ frame ∈ w.assigned, frame.id < w.nextId
  order : w.assigned = w.sent ++ w.toSend ++ w.toPush
  pushed : w.pushed = w.sent ++ w.toSend
  single : w.toSend.length + w.toPush.length ≤ 1
  ring : w.ring <:+ w.pushed
  reader : ReaderSound since keep w

theorem sound_init : Sound since keep {} where
  ids := List.Pairwise.nil
  fresh := by simp
  order := rfl
  pushed := rfl
  single := by simp
  ring := List.suffix_rfl
  reader := rfl

variable {capacity since keep} {w : World}

theorem nodup_assigned (sound : Sound since keep w) : w.assigned.Nodup :=
  sound.ids.imp fun less same => by
    subst same
    exact absurd less (Nat.lt_irrefl _)

/-- With one broadcast at a time the frame to push is the only one under way. -/
theorem toPush_eq (sound : Sound since keep w) {frame : SseFrame} (found : frame ∈ w.toPush) :
    w.toPush = [frame] ∧ w.toSend = [] := by
  have few := sound.single
  cases pushing : w.toPush with
  | nil => rw [pushing] at found; cases found
  | cons first rest =>
      rw [pushing, List.length_cons] at few
      have noRest : rest = [] := List.eq_nil_of_length_eq_zero (by omega)
      have noSend : w.toSend = [] := List.eq_nil_of_length_eq_zero (by omega)
      rw [pushing, noRest, List.mem_singleton] at found
      exact ⟨by rw [noRest, found], noSend⟩

theorem toSend_eq (sound : Sound since keep w) {frame : SseFrame} (found : frame ∈ w.toSend) :
    w.toSend = [frame] ∧ w.toPush = [] := by
  have few := sound.single
  cases sending : w.toSend with
  | nil => rw [sending] at found; cases found
  | cons first rest =>
      rw [sending, List.length_cons] at few
      have noRest : rest = [] := List.eq_nil_of_length_eq_zero (by omega)
      have noPush : w.toPush = [] := List.eq_nil_of_length_eq_zero (by omega)
      rw [sending, noRest, List.mem_singleton] at found
      exact ⟨by rw [noRest, found], noPush⟩

theorem pushRing_suffix {ring pushed : List SseFrame} (frame : SseFrame) (suffix : ring <:+ pushed) :
    pushRing capacity ring frame <:+ pushed ++ [frame] := by
  have kept : (if ring.length = capacity then ring.tail else ring) <:+ pushed := by
    split
    · exact (List.tail_suffix ring).trans suffix
    · exact suffix
  obtain ⟨front, split⟩ := kept
  exact ⟨front, by rw [pushRing, ← List.append_assoc, split]⟩

/-- A ring that lost nothing past the cursor replays all of it. -/
theorem replay_eq (sound : Sound since keep w)
    (kept : ∀ frame ∈ w.pushed, newer since frame = true → frame ∈ w.ring) :
    w.ring.filter (newer since) = w.pushed.filter (newer since) := by
  obtain ⟨dropped, split⟩ := sound.ring
  have distinct : w.pushed.Nodup := by
    have whole := nodup_assigned sound
    rw [sound.order, ← sound.pushed] at whole
    exact (List.nodup_append.mp whole).1
  have old : dropped.filter (newer since) = [] := by
    rw [List.filter_eq_nil_iff]
    intro frame found isNew
    rw [← split] at distinct
    have inRing := kept frame (by rw [← split]; exact List.mem_append_left _ found) isNew
    exact List.disjoint_of_nodup_append distinct found inRing
  rw [← split, List.filter_append, old, List.nil_append]

/-! ### One lemma for each step -/

theorem sound_fetchAdd (sound : Sound since keep w) (data : String) (quiet : w.quiet) :
    Sound since keep (step capacity since keep w (.fetchAdd data)) where
  ids := by
    refine List.pairwise_append.mpr ⟨sound.ids, List.pairwise_singleton _ _, ?_⟩
    intro f found g isNext
    rw [List.mem_singleton.mp isNext]
    exact sound.fresh f found
  fresh := by
    intro frame found
    rcases List.mem_append.mp found with old | isNext
    · exact Nat.lt_succ_of_lt (sound.fresh frame old)
    · rw [List.mem_singleton.mp isNext]
      exact Nat.lt_succ_self _
  order := by
    have order := sound.order
    simp only [step, quiet.1, quiet.2, List.append_nil] at order ⊢
    rw [order, List.nil_append]
  pushed := sound.pushed
  single := by simp [step, quiet.1, quiet.2]
  ring := sound.ring
  reader := sound.reader

theorem sound_push (sound : Sound since keep w) (frame : SseFrame) :
    Sound since keep (step capacity since keep w (.push frame)) := by
  simp only [step]
  split
  · next found =>
      obtain ⟨pushing, noSend⟩ := toPush_eq sound found
      have order := sound.order
      have pushed := sound.pushed
      simp only [pushing, noSend, List.append_nil] at order pushed
      have grown : w.pushed <+: w.pushed ++ [frame] := List.prefix_append _ _
      exact {
        ids := sound.ids
        fresh := sound.fresh
        order := by simp [order, pushing, noSend]
        pushed := by simp [pushed, noSend]
        single := by simp [pushing, noSend]
        ring := pushRing_suffix frame sound.ring
        reader := by
          have reader := sound.reader
          simp only [ReaderSound] at reader ⊢
          cases phase : w.reader with
          | waiting => rw [phase] at reader; exact reader
          | replayed replay =>
              rw [phase] at reader
              exact ⟨reader.1, reader.2.1.trans grown, reader.2.2⟩
          | streaming replay live =>
              rw [phase] at reader
              exact ⟨reader.1.trans grown, reader.2⟩ }
  · exact sound

theorem sound_send (sound : Sound since keep w) (frame : SseFrame) :
    Sound since keep (step capacity since keep w (.send frame)) := by
  simp only [step]
  split
  · next found =>
      obtain ⟨sending, noPush⟩ := toSend_eq sound found
      have order := sound.order
      have pushed := sound.pushed
      simp only [sending, noPush, List.append_nil] at order pushed
      exact {
        ids := sound.ids
        fresh := sound.fresh
        order := by simp [order, sending, noPush]
        pushed := by simp [pushed, sending]
        single := by simp [sending, noPush]
        ring := sound.ring
        reader := by
          have reader := sound.reader
          simp only [ReaderSound] at reader ⊢
          cases phase : w.reader with
          | waiting => rw [phase] at reader; exact reader
          | replayed replay => rw [phase] at reader; exact reader
          | streaming replay live =>
              rw [phase] at reader
              obtain ⟨grown, late, split, holds⟩ := reader
              refine ⟨grown, late ++ [frame], by rw [split, List.append_assoc], ?_⟩
              rw [← List.append_assoc, List.filter_append, ← List.append_assoc, holds,
                List.append_assoc, ← List.filter_append] }
  · exact sound

theorem sound_replaySince (sound : Sound since keep w)
    (kept : ∀ frame ∈ w.pushed, newer since frame = true → frame ∈ w.ring) :
    Sound since keep (step capacity since keep w .replaySince) := by
  simp only [step]
  split
  · next waiting =>
      have nothing : w.received = [] := by
        have reader := sound.reader
        rw [ReaderSound, waiting] at reader
        exact reader
      exact { sound with
        reader := ⟨nothing, List.prefix_rfl, replay_eq sound kept⟩ }
  · exact sound

theorem sound_subscribe (sound : Sound since keep w) :
    Sound since keep (step capacity since keep w .subscribe) := by
  simp only [step]
  split
  · next replay phase =>
      have reader := sound.reader
      rw [ReaderSound, phase] at reader
      obtain ⟨nothing, grown, taken⟩ := reader
      exact { sound with
        reader := ⟨grown, [], (List.append_nil _).symm, by simp [nothing, taken]⟩ }
  · exact sound

theorem sound_next (sound : Sound since keep w) :
    Sound since keep (step capacity since keep w .next) := by
  have reader := sound.reader
  simp only [step]
  split
  · next frame replay live phase =>
      rw [ReaderSound, phase] at reader
      obtain ⟨grown, late, split, holds⟩ := reader
      refine { sound with reader := ⟨grown, late, split, ?_⟩ }
      rw [← holds, handOver, List.append_assoc, ← List.filter_append]
      rfl
  · next frame live phase =>
      rw [ReaderSound, phase] at reader
      obtain ⟨grown, late, split, holds⟩ := reader
      refine { sound with reader := ⟨grown, late, split, ?_⟩ }
      rw [← holds, handOver, List.append_assoc, ← List.filter_append]
      rfl
  · exact sound

/-- Every serial step keeps the accounts. -/
theorem sound_step {e : Step} (sound : Sound since keep w) (serial : Serial w e)
    (kept : Kept since w e) : Sound since keep (step capacity since keep w e) := by
  cases e with
  | fetchAdd data => exact sound_fetchAdd sound data serial
  | push frame => exact sound_push sound frame
  | send frame => exact sound_send sound frame
  | replaySince => exact sound_replaySince sound kept
  | subscribe => exact sound_subscribe sound
  | next => exact sound_next sound

/-- **The accounts hold after every run of serial broadcasts.** -/
theorem sound_run {steps : List Step}
    (good : Along (step capacity since keep) (fun w e => Serial w e ∧ Kept since w e) {} steps) :
    Sound since keep (run (step capacity since keep) {} steps) :=
  invariant_of_along (fun _ _ sound both => sound_step sound both.1 both.2)
    (sound_init since keep) good

end Steps

end MassaIndexer.Rest.SseHub
