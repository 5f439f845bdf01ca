/-
# Laws.CheckpointSafety -- what the progress of a repair pass says

A pass that reports COMPLETE is to have repaired its range: every slot that needed work when it came by,
and for which the source had an answer, has had its patch applied, through any crashes and errors. The
passes record their progress when a patch is on the bulk lane, or was given up. So that is only true of
the runs in which no crash loses a patch that the checkpoint has left behind, and COMPLETE is reported
when the writer has caught up and nothing was missed (`checkpoints_safe`). Otherwise the slot is not
visited again (`lost_behind_checkpoint`).
-/
import MassaIndexer.Repair.Checkpoints
import MassaIndexer.Laws.RepairAdditive

namespace MassaIndexer.Laws.CheckpointSafety

open MassaIndexer.Theory.Runs MassaIndexer.Theory.Checkpoint
open MassaIndexer.Data.Ids MassaIndexer.Data.Model MassaIndexer.Data.Proto
open MassaIndexer.Store.ColumnFamilies MassaIndexer.Writer.Shared
open MassaIndexer.Repair.Producers MassaIndexer.Repair.Checkpoints
open MassaIndexer.Laws.RepairAdditive

set_option autoImplicit false

section Safety

variable {Target Answer Place : Type}

/-- A pass that is through came by every slot of its range, and each that needed work when it last came
by, and that the source had an answer for, has had a patch applied. -/
def Restored (covers : Slot → Bool) (w : World Db Slot Target FinalSlotResponse Place String) : Prop :=
  w.stage = .finished → ∀ s, covers s = true → s ∈ w.reached ∧ (s ∈ w.due → s ∈ w.done)

/-- A run of a pass over its range, from a store without a checkpoint, all of whose steps are sound. -/
structure SafeRun (pass : Pass Db Slot Target Answer FinalSlotResponse Place String) where
  db : Db
  acts : List (Act Db Answer)
  sound : Along pass.step pass.Sound { store := db } acts

/-- The state after the first `n` steps. -/
def SafeRun.after {pass : Pass Db Slot Target Answer FinalSlotResponse Place String}
    (r : SafeRun pass) (n : Nat) : World Db Slot Target FinalSlotResponse Place String :=
  run pass.step { store := r.db } (r.acts.take n)

theorem restored_of_sound {pass : Pass Db Slot Target Answer FinalSlotResponse Place String}
    {covers : Slot → Bool} (whole : ∀ s, covers s = true → pass.Covers s) (r : SafeRun pass) (n : Nat) :
    Restored covers (r.after n) := by
  intro through s covered
  have visited : Visits pass.step { store := r.db } r.acts (r.after n) :=
    ⟨r.acts.take n, r.acts.drop n, (List.take_append_drop n r.acts).symm, rfl⟩
  exact repaired_of_along r.sound visited through s (whole s covered)

variable [Bs58Check] [DenunciationDigest]

/-- **A pass that is through has repaired its range, in every run in which no crash loses a patch that
its checkpoint has left behind and the end is reported in quiet.** -/
theorem checkpoints_safe :
    (∀ cfg (r : SafeRun (runReconstructTransfers cfg)) n, Restored cfg.covers (r.after n)) ∧
    (∀ cfg (r : SafeRun (runPullParts cfg)) n, Restored cfg.covers (r.after n)) ∧
    (∀ cfg (r : SafeRun (runLegacySubTransfers cfg)) n, Restored cfg.timing.covers (r.after n)) :=
  ⟨fun _ => restored_of_sound fun _ => covers_reconstructTransfers,
    fun _ => restored_of_sound fun _ => covers_pullParts,
    fun _ => restored_of_sound fun _ => covers_legacySubTransfers⟩

end Safety

/-! ## One slot -/

section OneSlot

variable {Target Answer Place : Type}

/-- The range of the pass is one slot, which needs work and for which the source has an answer. -/
structure OneSlot (pass : Pass Db Slot Target Answer FinalSlotResponse Place String)
    (covers : Slot → Bool) (db : Db) (s : Slot) (answer : Answer) where
  place : Place
  text : String
  target : Target
  resp : FinalSlotResponse
  covered : covers s = true
  begins : pass.resume none = some place
  groups : pass.groups place = [[s]]
  ends : pass.next place = none
  sealed : pass.sealed = some text
  through : pass.resume (some text) = none
  selected : pass.look db s = some target
  answered : pass.reply s target answer = some resp

/-- The patch is shipped and the pass goes on to its end; the process crashes and starts again. -/
def crashAtTheEnd (answer : Answer) : List (Act Db Answer) :=
  [.start true, .proceed true, .look .clean answer, .fetch 0 answer true, .proceed true, .proceed true,
    .crash, .start true]

/-- The fetch fails, and the pass goes on to its end. -/
def failedFetch (answer : Answer) : List (Act Db Answer) :=
  [.start true, .proceed true, .look .clean answer, .fetch 0 answer false, .proceed true, .proceed true]

/-- The patch is applied before the pass goes on. -/
def drained (answer : Answer) : List (Act Db Answer) :=
  [.start true, .proceed true, .look .clean answer, .fetch 0 answer true, .apply 0, .proceed true,
    .proceed true]

variable {pass : Pass Db Slot Target Answer FinalSlotResponse Place String} {covers : Slot → Bool}
  {db : Db} {s : Slot} {answer : Answer}

theorem OneSlot.not_restored (one : OneSlot pass covers db s answer)
    {w : World Db Slot Target FinalSlotResponse Place String} (through : w.stage = .finished)
    (due : s ∈ w.due) (undone : w.done = []) : ¬ Restored covers w := by
  intro restored
  have done := (restored through s one.covered).2 due
  rw [undone] at done
  exact absurd done List.not_mem_nil

/-- What a crash at the end loses is due, and not done when the pass is through again. -/
theorem not_restored_crashAtTheEnd (one : OneSlot pass covers db s answer) :
    ¬ Restored covers (run pass.step { store := db } (crashAtTheEnd answer)) := by
  have reached : run pass.step { store := db } (crashAtTheEnd answer) =
      { store := db, mark := some one.text, stage := .finished, reached := [s], due := [s] } := by
    simp [crashAtTheEnd, Pass.step, Pass.arrive, Pass.seen, Pass.owes, remark, noted, one.begins,
      one.groups, one.ends, one.sealed, one.through, one.selected, one.answered]
  refine one.not_restored ?_ ?_ ?_ <;> rw [reached]
  exact List.mem_singleton.mpr rfl

/-- What a failed fetch leaves is due, and not done when the pass is through. -/
theorem not_restored_failedFetch (one : OneSlot pass covers db s answer) :
    ¬ Restored covers (run pass.step { store := db } (failedFetch answer)) := by
  have reached : run pass.step { store := db } (failedFetch answer) =
      { store := db, mark := some one.text, stage := .finished, reached := [s], due := [s],
        missed := [s] } := by
    simp [failedFetch, Pass.step, Pass.arrive, Pass.seen, Pass.owes, remark, noted, one.begins,
      one.groups, one.ends, one.sealed, one.selected, one.answered]
  refine one.not_restored ?_ ?_ ?_ <;> rw [reached]
  exact List.mem_singleton.mpr rfl

/-- A pass whose writer keeps up takes sound steps, and is through with the slot done. -/
theorem sound_drained (one : OneSlot pass covers db s answer) :
    Along pass.step pass.Sound { store := db } (drained answer) ∧
      (run pass.step { store := db } (drained answer)).stage = .finished ∧
      (run pass.step { store := db } (drained answer)).done = [s] := by
  refine ⟨?_, ?_, ?_⟩ <;>
    simp [drained, Along, Pass.Sound, Quiet, Pass.step, Pass.arrive, Pass.seen, Pass.owes, remark, noted,
      one.begins, one.groups, one.ends, one.sealed, one.selected, one.answered]

variable [Bs58Check] [DenunciationDigest]

/-- Reconstruction over one settled slot with a transfer. -/
theorem oneSlot_twoOps : Nonempty (OneSlot (runReconstructTransfers slotTen.reconstruct)
    slotTen.reconstruct.covers twoOps ⟨10, 0⟩ ()) := by
  obtain ⟨transaction, rebuilt, -⟩ := reconstructSlot_twoOps
  exact ⟨{
    place := 10
    text := (11 : UInt64).toNat.repr
    target := transfersPatch ⟨10, 0⟩ (Chain.blockNo 1) [transaction]
    resp := transfersPatch ⟨10, 0⟩ (Chain.blockNo 1) [transaction]
    covered := rfl
    begins := rfl
    groups := rfl
    ends := rfl
    sealed := rfl
    through := rfl
    selected := rebuilt
    answered := rfl }⟩

end OneSlot

/-! ## A transfer that is not rebuilt -/

section Lost

attribute [local instance] Bs58Check.doubleSha Chain.noDenunciations

/-- The patch is lost with the lane, and the pass says COMPLETE. -/
theorem lost_behind_checkpoint : ¬ Restored slotTen.reconstruct.covers
    (run (runReconstructTransfers slotTen.reconstruct).step { store := twoOps } (crashAtTheEnd ())) := by
  obtain ⟨one⟩ := oneSlot_twoOps
  exact not_restored_crashAtTheEnd one

/-- The same work is sound when the writer keeps up. -/
theorem drained_twoOps : ∃ r : SafeRun (runReconstructTransfers slotTen.reconstruct),
    (r.after 7).stage = .finished ∧ (r.after 7).done = [⟨10, 0⟩] := by
  obtain ⟨one⟩ := oneSlot_twoOps
  obtain ⟨sound, through, done⟩ := sound_drained one
  exact ⟨⟨twoOps, drained (), sound⟩, through, done⟩

end Lost

end MassaIndexer.Laws.CheckpointSafety
