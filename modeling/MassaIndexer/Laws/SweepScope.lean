/-
# Laws.SweepScope -- a sweep ships what it asked for

A range stream's messages are compared with the slots still needed; the answer to a request for one
slot is not, however it comes. `sweep_ships_selected_iff` says that this is the whole difference: what a
sweep ships is for slots it selected, exactly when the FINAL answers to its single requests are.
`foreign_answer_shipped` is a peer that answers for another slot.
-/
import MassaIndexer.Peer.Backfill

namespace MassaIndexer.Laws.SweepScope

open MassaIndexer.Data.Ids MassaIndexer.Data.Model MassaIndexer.Data.Proto
open MassaIndexer.Peer.Patch MassaIndexer.Writer.Step MassaIndexer.Peer.Backfill

set_option autoImplicit false

section Scope

variable (cfg : BackfillConfig) (sweep : SweepCtx) (env : SweepEnv)

/-- A slot that `needs_fetch` selects when the sweep reads its row. -/
def SelectedInSweep (s : Slot) : Prop := s ∈ sweepVisits cfg sweep ∧ selected cfg sweep env s = true

/-- The slot a response is for was selected. -/
def ForSelected (resp : FinalSlotResponse) : Prop :=
  ∃ s, slotOf resp = some s ∧ SelectedInSweep cfg sweep env s

variable {cfg sweep env}

theorem selected_of_scanned {w : Nat × Nat} {s : Slot} (window : w ∈ sweepWindows cfg sweep)
    (scanned : s ∈ scanWindow cfg sweep env w.1 w.2) : SelectedInSweep cfg sweep env s :=
  ⟨mem_sweepVisits_of_scanned window scanned, (mem_scanWindow.mp scanned).2⟩

/-- What a sweep ships came from a range stream, or answered a request for one slot. -/
theorem mem_sweepShipped {resp : FinalSlotResponse} : resp ∈ sweepShipped cfg sweep env ↔
    (∃ w ∈ sweepWindows cfg sweep, resp ∈ (windowFilled cfg sweep env w.1 w.2).taken) ∨
      ∃ s ∈ sweepAsked cfg sweep env, visitSlot cfg sweep env s = some resp := by
  simp only [sweepShipped, sweepAsked, windowShipped, List.mem_flatMap, List.mem_append,
    List.mem_filterMap]
  constructor
  · rintro ⟨w, window, streamed | ⟨s, asked, answered⟩⟩
    · exact .inl ⟨w, window, streamed⟩
    · exact .inr ⟨s, ⟨w, window, asked⟩, answered⟩
  · rintro (⟨w, window, streamed⟩ | ⟨s, ⟨w, window, asked⟩, answered⟩)
    · exact ⟨w, window, .inl streamed⟩
    · exact ⟨w, window, .inr ⟨s, asked, answered⟩⟩

theorem mem_sweepEvents {resp : FinalSlotResponse} {room : Option Nat}
    (sent : Event.peerPatch resp ∈ sweepEvents cfg sweep env room) :
    resp ∈ sweepShipped cfg sweep env := by
  obtain ⟨r, shipped, same⟩ := List.mem_map.mp sent
  obtain rfl := Event.peerPatch.inj same
  cases room with
  | none => exact shipped
  | some n => exact List.mem_of_mem_take shipped

/-- **Whatever the peers answer and whenever the channel closes, each event that a sweep sends is for a
slot it selected, if and only if the FINAL answer to each of its single requests is.** -/
theorem sweep_ships_selected_iff (cfg : BackfillConfig) (sweep : SweepCtx) (env : SweepEnv) :
    (∀ room resp, Event.peerPatch resp ∈ sweepEvents cfg sweep env room →
        ForSelected cfg sweep env resp) ↔
      ∀ s ∈ sweepAsked cfg sweep env, ∀ resp, visitSlot cfg sweep env s = some resp →
        ForSelected cfg sweep env resp := by
  constructor
  · intro inScope s asked resp answered
    have shipped : resp ∈ sweepShipped cfg sweep env :=
      mem_sweepShipped.mpr (.inr ⟨s, asked, answered⟩)
    exact inScope none resp (List.mem_map.mpr ⟨resp, shipped, rfl⟩)
  · intro answers room resp sent
    rcases mem_sweepShipped.mp (mem_sweepEvents sent) with ⟨w, window, streamed⟩ | ⟨s, asked, answered⟩
    · obtain ⟨s, scanned, about⟩ := scanned_of_taken streamed
      exact ⟨s, about, selected_of_scanned window scanned⟩
    · exact answers s asked resp answered

end Scope

/-! ## An answer for another slot -/

/-- Only slot (0, 0) is missing, and the peer answers the request for it with slot (999, 5). -/
def foreignAnswer : SweepEnv where
  scan _ := .ok none
  visit _ := .ok none
  streams _ := []
  replies _ _ := [.routes [.ok { period := 999, thread := 5, finalKnown := true }]]

/-- A chain of one thread, with its head at period 0. -/
def oneThread : BackfillConfig := { threadCount := 1 }

theorem shipped_foreignAnswer :
    sweepShipped oneThread { head := 0 } foreignAnswer =
      [{ period := 999, thread := 5, finalKnown := true }] := by
  have window : sweepWindows oneThread { head := 0 } = [(0, 0)] := by
    rw [sweepWindows, Theory.Sweep.windows]
    rfl
  rw [sweepShipped, window]
  rfl

/-- **A peer can have a slot shipped that nobody asked for.** -/
theorem foreign_answer_shipped : ¬ ∀ (cfg : BackfillConfig) (sweep : SweepCtx) (env : SweepEnv) room resp,
    Event.peerPatch resp ∈ sweepEvents cfg sweep env room → ForSelected cfg sweep env resp := by
  intro inScope
  obtain ⟨s, about, visited, -⟩ := inScope oneThread { head := 0 } foreignAnswer none
    { period := 999, thread := 5, finalKnown := true }
    (List.mem_map.mpr ⟨_, by rw [shipped_foreignAnswer]; exact List.mem_singleton.mpr rfl, rfl⟩)
  have slot : s = ⟨999, 5⟩ := (Option.some.inj about).symm
  rw [mem_sweepVisits, slot] at visited
  exact absurd visited.1 (by decide)

end MassaIndexer.Laws.SweepScope
