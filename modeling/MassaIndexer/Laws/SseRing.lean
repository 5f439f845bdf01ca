/-
# Laws.SseRing -- the ring keeps the latest frames

The ring is what a reconnecting client catches up from. The server gives it room for at least sixteen
frames. `ring_latest` says what it holds after any run of broadcasts that follow one another, with the
steps of a client between them: the latest frames, as many as there were or as fit, numbered without a gap;
a replay returns those behind the client's id.
-/
import Mathlib.Data.List.DropRight
import MassaIndexer.Rest.SseHub

namespace MassaIndexer.Laws.SseRing

open MassaIndexer.Theory.Runs MassaIndexer.Rest.SseHub

set_option autoImplicit false

/-- `sse_ring_buffer_size.max(16)`. -/
def ringCapacity (ringBufferSize : Nat) : Nat := max ringBufferSize 16

variable {capacity since : Nat} {keep : String → Bool} {w : World}

/-- A push makes the ring of what was pushed out of the ring of what was pushed before. -/
theorem pushRing_rtake (room : 0 < capacity) (pushed : List SseFrame) (frame : SseFrame) :
    pushRing capacity (pushed.rtake capacity) frame = (pushed ++ [frame]).rtake capacity := by
  have held : (pushed.rtake capacity).length = min pushed.length capacity := by
    rw [List.rtake, List.length_drop]
    omega
  rw [pushRing, held, List.rtake, List.rtake, List.length_append, List.length_singleton]
  by_cases full : capacity ≤ pushed.length
  · rw [if_pos (by omega), List.tail_drop, List.drop_append_of_le_length (by omega),
      show pushed.length + 1 - capacity = pushed.length - capacity + 1 by omega]
  · rw [if_neg (by omega), show pushed.length - capacity = 0 by omega,
      show pushed.length + 1 - capacity = 0 by omega, List.drop_zero, List.drop_zero]

/-- What holds in every state, with one broadcast at a time. -/
structure Latest (capacity : Nat) (w : World) : Prop where
  numbered : w.assigned.map (·.id) = List.range' 1 w.assigned.length
  next : w.nextId = w.assigned.length + 1
  order : w.assigned = w.pushed ++ w.toPush
  single : w.toSend.length + w.toPush.length ≤ 1
  ring : w.ring = w.pushed.rtake capacity

theorem latest_init : Latest capacity {} where
  numbered := rfl
  next := rfl
  order := rfl
  single := Nat.zero_le _
  ring := (List.rtake_nil _).symm

theorem latest_fetchAdd (latest : Latest capacity w) (quiet : w.quiet) (data : String) :
    Latest capacity (step capacity since keep w (.fetchAdd data)) where
  numbered := by
    show (w.assigned ++ [SseFrame.mk w.nextId data]).map SseFrame.id =
      List.range' 1 (w.assigned ++ [SseFrame.mk w.nextId data]).length
    rw [List.map_append, latest.numbered, List.length_append, List.length_singleton, List.range'_1_concat,
      latest.next, Nat.add_comm 1]
    rfl
  next := by
    show w.nextId + 1 = (w.assigned ++ [_]).length + 1
    rw [latest.next, List.length_append, List.length_singleton]
  order := by
    show w.assigned ++ [_] = w.pushed ++ (w.toPush ++ [_])
    rw [latest.order, List.append_assoc]
  single := by
    show w.toSend.length + (w.toPush ++ [_]).length ≤ 1
    rw [quiet.1, quiet.2]
    exact Nat.le_refl 1
  ring := latest.ring

theorem latest_push (room : 0 < capacity) (latest : Latest capacity w) (frame : SseFrame) :
    Latest capacity (step capacity since keep w (.push frame)) := by
  simp only [step]
  split
  · next found =>
      have few := latest.single
      obtain ⟨one, noSend⟩ : w.toPush = [frame] ∧ w.toSend = [] := by
        have some := List.length_pos_of_mem found
        obtain ⟨only, one⟩ := List.length_eq_one_iff.mp (show w.toPush.length = 1 by omega)
        rw [one, List.mem_singleton] at found
        exact ⟨by rw [one, found], List.eq_nil_of_length_eq_zero (by omega)⟩
      have order := latest.order
      rw [one] at order
      exact {
        numbered := latest.numbered
        next := latest.next
        order := by
          show w.assigned = (w.pushed ++ [frame]) ++ w.toPush.erase frame
          rw [order, one, List.erase_cons_head, List.append_nil]
        single := by
          show (w.toSend ++ [frame]).length + (w.toPush.erase frame).length ≤ 1
          rw [one, noSend, List.erase_cons_head]
          exact Nat.le_refl 1
        ring := by
          show pushRing capacity w.ring frame = (w.pushed ++ [frame]).rtake capacity
          rw [latest.ring, pushRing_rtake room] }
  · exact latest

theorem latest_send (latest : Latest capacity w) (frame : SseFrame) :
    Latest capacity (step capacity since keep w (.send frame)) := by
  simp only [step]
  split
  · exact { latest with
      single := by
        have fewer := List.length_erase_le (a := frame) (l := w.toSend)
        have few := latest.single
        show (w.toSend.erase frame).length + w.toPush.length ≤ 1
        omega }
  · exact latest

/-- The steps of a client leave the hub as it is. -/
theorem latest_client (latest : Latest capacity w) {e : Step}
    (client : e = .replaySince ∨ e = .subscribe ∨ e = .next) :
    Latest capacity (step capacity since keep w e) := by
  rcases client with rfl | rfl | rfl
  all_goals
    simp only [step]
    split
    all_goals exact { latest with }

theorem latest_step (room : 0 < capacity) (latest : Latest capacity w) {e : Step} (serial : Serial w e) :
    Latest capacity (step capacity since keep w e) := by
  cases e with
  | fetchAdd data => exact latest_fetchAdd latest serial data
  | push frame => exact latest_push room latest frame
  | send frame => exact latest_send latest frame
  | replaySince => exact latest_client latest (.inl rfl)
  | subscribe => exact latest_client latest (.inr (.inl rfl))
  | next => exact latest_client latest (.inr (.inr rfl))

theorem latest_run (room : 0 < capacity) {steps : List Step}
    (serial : Along (step capacity since keep) Serial {} steps) :
    Latest capacity (run (step capacity since keep) {} steps) :=
  invariant_of_along (C := Serial) (fun _ _ latest serial => latest_step room latest serial) latest_init
    serial

/-! ## Numbers -/

theorem filter_lt_range' (id a n : Nat) :
    (List.range' a n).filter (fun k => decide (id < k)) =
      List.range' (max a (id + 1)) (a + n - max a (id + 1)) := by
  induction n generalizing a with
  | zero =>
      rw [show a + 0 - max a (id + 1) = 0 by omega]
      rfl
  | succ n ih =>
      rw [List.range'_succ, List.filter_cons, ih]
      by_cases later : id < a
      · rw [if_pos (decide_eq_true later), show max a (id + 1) = a by omega,
          show max (a + 1) (id + 1) = a + 1 by omega, show a + 1 + n - (a + 1) = n by omega,
          show a + (n + 1) - a = n + 1 by omega, List.range'_succ]
      · rw [if_neg (by simpa using later), show max (a + 1) (id + 1) = max a (id + 1) by omega,
          show a + 1 + n = a + (n + 1) by omega]

/-- Of frames numbered from `a` on, those that follow an id are the rest behind it. -/
theorem newer_of_numbered {frames : List SseFrame} {a n : Nat} (id : Nat)
    (numbered : frames.map SseFrame.id = List.range' a n) :
    (frames.filter (newer id)).map SseFrame.id =
      List.range' (max a (id + 1)) (a + n - max a (id + 1)) := by
  rw [← filter_lt_range', ← numbered, List.filter_map]
  rfl

theorem numbered_ring (latest : Latest capacity w) :
    w.ring.map SseFrame.id = List.range' (w.pushed.length - min w.pushed.length capacity + 1)
      (min w.pushed.length capacity) := by
  have numbered := latest.numbered
  rw [latest.order, List.map_append, List.length_append, ← List.range'_append_1] at numbered
  have pushed := (List.append_inj numbered (by rw [List.length_map, List.length_range'])).1
  rw [latest.ring, List.rtake, List.map_drop, pushed, List.drop_range']
  congr 1 <;> omega

/-- **In every run whose broadcasts follow one another, as those of the ingest task do, the ring holds
the latest `min n capacity` of the `n` frames pushed so far, numbered without a gap up to `n`; and a replay
since an id returns the frames of the ring numbered above it, in their order.** -/
theorem ring_latest (ringBufferSize since : Nat) (keep : String → Bool) (steps : List Step)
    (serial : Along (step (ringCapacity ringBufferSize) since keep) Serial {} steps) :
    let w := run (step (ringCapacity ringBufferSize) since keep) {} steps
    let n := w.pushed.length
    let held := min n (ringCapacity ringBufferSize)
    w.pushed <+: w.assigned ∧ (w.quiet → w.pushed = w.assigned) ∧
      w.ring = w.pushed.drop (n - held) ∧ w.ring.length = held ∧
      w.ring.map SseFrame.id = List.range' (n - held + 1) held ∧
      ∀ id, (w.ring.filter (newer id)).map SseFrame.id =
        List.range' (max (n - held) id + 1) (n - max (n - held) id) := by
  intro w n held
  have room : 0 < ringCapacity ringBufferSize := by
    rw [ringCapacity]
    omega
  have latest : Latest (ringCapacity ringBufferSize) w := latest_run room serial
  have numbered := numbered_ring latest
  have drops : n - held = n - ringCapacity ringBufferSize := by omega
  refine ⟨⟨w.toPush, latest.order.symm⟩, ?_, ?_, ?_, numbered, ?_⟩
  · intro quiet
    rw [latest.order, quiet.1, List.append_nil]
  · rw [drops]
    exact latest.ring
  · have count := congrArg List.length numbered
    rwa [List.length_map, List.length_range'] at count
  · intro id
    rw [newer_of_numbered id numbered]
    congr 1 <;> omega

/-- Two broadcasts, one behind the other, and what is behind the first. -/
theorem ring_latest_two :
    let steps : List Step := [.fetchAdd "a", .push ⟨1, "a"⟩, .send ⟨1, "a"⟩, .fetchAdd "b", .push ⟨2, "b"⟩]
    let w := run (step 16 0 fun _ => true) {} steps
    w.ring.map SseFrame.id = [1, 2] ∧ (w.ring.filter (newer 1)).map SseFrame.id = [2] := by
  have whole := ring_latest 0 0 (fun _ => true)
    [.fetchAdd "a", .push ⟨1, "a"⟩, .send ⟨1, "a"⟩, .fetchAdd "b", .push ⟨2, "b"⟩]
    (by simp [Along, Serial, World.quiet, step, pushRing])
  exact ⟨whole.2.2.2.2.1, whole.2.2.2.2.2 1⟩

end MassaIndexer.Laws.SseRing
