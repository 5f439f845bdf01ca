/-
# Laws.PeriodOverflow -- patch application near the largest period

The period of a patch comes from the wire and may be any 64-bit number. The parent stub is guarded and
the backward lookaround saturates, but the forward lookarounds of the arbiter add 1 and 512 to the period
as it is. They are reached only in a dispute: the slot is FINAL here with another verdict, and no block
of the two is dead by its parents. Both patches keep within the 64 bits exactly when no such dispute is
about one of the last 512 periods (`patches_checked_iff`).

Two answers of one peer are such a dispute (`dispute_leaves_the_word`).
-/
import MassaIndexer.Peer.CheckedPeriods
import MassaIndexer.Chain.Snapshot

namespace MassaIndexer.Laws.PeriodOverflow

open MassaIndexer.Theory.Runs
open MassaIndexer.Data.Ids MassaIndexer.Data.Model MassaIndexer.Data.Proto MassaIndexer.Chain
open MassaIndexer.Store.ColumnFamilies MassaIndexer.Writer.Shared MassaIndexer.Writer.Step
open MassaIndexer.Peer.Arbiter MassaIndexer.Peer.Patch MassaIndexer.Peer.CheckedPeriods

set_option autoImplicit false

section Patches

variable [Bs58Check]

/-! ## Disputes -/

/-- The slot is FINAL with a verdict, the answer has another, and the arbiter has to ask the links. -/
structure Disputed (db : Db) (resp : FinalSlotResponse) (slot : Slot) : Prop where
  about : slotOf resp = some slot
  known : resp.finalKnown = true
  asks : ∃ row localV peer, db.readSlot slot = some row ∧ row.status = .final ∧
    Verdict.ofLocal row = some localV ∧ Verdict.ofPeer resp (parseFinalBlockId resp) = some peer ∧
    AsksLinks db localV peer (shippedBlock resp)

/-- The same from the row in hand. -/
def DisputedRow (db : Db) (state : SlotState) (resp : FinalSlotResponse) : Prop :=
  state.status = .final ∧ ∃ localV peer, Verdict.ofLocal state = some localV ∧
    Verdict.ofPeer resp (parseFinalBlockId resp) = some peer ∧
    AsksLinks db localV peer (shippedBlock resp)

theorem disputedRow_iff {db : Db} {resp : FinalSlotResponse} {slot : Slot}
    (about : slotOf resp = some slot) (known : resp.finalKnown = true) (nowMs : Int) :
    DisputedRow db ((db.readSlot slot).getD (SlotState.fresh slot nowMs)) resp ↔
      Disputed db resp slot := by
  constructor
  · rintro ⟨final, localV, peer, ours, theirs, asks⟩
    cases found : db.readSlot slot with
    | none =>
        rw [found] at final
        cases final
    | some row =>
        rw [found] at final ours
        exact ⟨about, known, row, localV, peer, found, final, ours, theirs, asks⟩
  · rintro ⟨-, -, row, localV, peer, found, final, ours, theirs, asks⟩
    rw [found]
    exact ⟨final, localV, peer, ours, theirs, asks⟩

/-! ## The two readings of a reconciliation -/

theorem checkedReconcile_eq {db : Db} {slot : Slot} {state : SlotState} {resp : FinalSlotResponse}
    (safe : DisputedRow db state resp → Fits slot.period) :
    checkedReconcile db slot state resp = some (reconcileVerdict db slot state resp) := by
  unfold checkedReconcile reconcileVerdict
  split
  · rfl
  · next settled =>
      have final : state.status = .final := of_not_not settled
      dsimp only
      cases ours : Verdict.ofLocal state with
      | none => rfl
      | some localV =>
          cases theirs : Verdict.ofPeer resp (parseFinalBlockId resp) with
          | none => rfl
          | some peer =>
              have arbitrated : checkedArbitrate db slot localV peer (shippedBlock resp) =
                  some (arbitrateVerdicts db slot localV peer (shippedBlock resp)) := by
                by_cases asks : AsksLinks db localV peer (shippedBlock resp)
                · exact checkedArbitrate_of_fits
                    (safe ⟨final, localV, peer, ours, theirs, asks⟩) db localV peer _
                · exact checkedArbitrate_of_settled asks slot
              dsimp only
              rw [arbitrated, Option.map_some]
              split
              · rfl
              · rfl

theorem checkedReconcile_eq_none {db : Db} {slot : Slot} {state : SlotState}
    {resp : FinalSlotResponse} (disputed : DisputedRow db state resp)
    (leaves : ¬ Fits slot.period) : checkedReconcile db slot state resp = none := by
  obtain ⟨final, localV, peer, ours, theirs, asks⟩ := disputed
  unfold checkedReconcile
  rw [if_neg (not_not_intro final), ours, theirs]
  dsimp only
  rw [if_pos asks.1, checkedArbitrate_eq_none asks leaves, Option.map_none]

variable [DenunciationDigest]

/-! ## The claim -/

theorem checkedLegacyPatch_eq (db : Db) (resp : FinalSlotResponse) (nowMs : Int) :
    checkedLegacyPatch db resp nowMs = some (applyLegacyPatch db resp nowMs) := by
  unfold checkedLegacyPatch applyLegacyPatch
  cases slotOf resp with
  | none => rfl
  | some slot =>
      dsimp only
      split
      · rfl
      · rw [checkedParentStub_eq, Option.map_some]

theorem checkedPeerPatch_eq {db : Db} {resp : FinalSlotResponse}
    (safe : ∀ slot, Disputed db resp slot → Fits slot.period) (nowMs : Int) :
    checkedPeerPatch db resp nowMs = some (applyPeerPatch db resp nowMs) := by
  unfold checkedPeerPatch applyPeerPatch
  cases about : slotOf resp with
  | none => rfl
  | some slot =>
      dsimp only
      split
      · rfl
      · next known =>
          have known : resp.finalKnown = true := by simpa using known
          have row : DisputedRow db _ resp ↔ Disputed db resp slot :=
            disputedRow_iff about known nowMs
          rw [checkedReconcile_eq fun disputed => safe slot (row.mp disputed), Option.bind_some]
          cases reconcileVerdict db slot ((db.readSlot slot).getD (SlotState.fresh slot nowMs)) resp with
          | turnedAway out => rfl
          | proceed p =>
              dsimp only
              rw [checkedParentStub_eq, Option.map_some]

theorem checkedPeerPatch_eq_none {db : Db} {resp : FinalSlotResponse} {slot : Slot}
    (disputed : Disputed db resp slot) (leaves : ¬ Fits slot.period) (nowMs : Int) :
    checkedPeerPatch db resp nowMs = none := by
  have row := (disputedRow_iff disputed.about disputed.known nowMs).mpr disputed
  unfold checkedPeerPatch
  rw [disputed.about]
  dsimp only
  rw [disputed.known, checkedReconcile_eq_none row leaves]
  rfl

/-- For every database and every answer, both patches do without leaving the 64 bits what the release
build does, exactly when no dispute that is left to the links is about one of the last periods. -/
theorem patches_checked_iff (db : Db) (resp : FinalSlotResponse) (nowMs : Int) :
    (checkedPeerPatch db resp nowMs = some (applyPeerPatch db resp nowMs) ∧
      checkedLegacyPatch db resp nowMs = some (applyLegacyPatch db resp nowMs)) ↔
      ∀ slot, Disputed db resp slot → slot.period.toNat + 512 < 2 ^ 64 := by
  constructor
  · rintro ⟨agrees, -⟩ slot disputed
    by_contra leaves
    have stops := checkedPeerPatch_eq_none disputed leaves nowMs
    exact absurd (stops.symm.trans agrees) (by simp)
  · intro safe
    exact ⟨checkedPeerPatch_eq safe nowMs, checkedLegacyPatch_eq db resp nowMs⟩

end Patches

/-! ## At the largest period -/

section Largest

attribute [local instance] Bs58Check.doubleSha noDenunciations

/-- Thread 0 of the period `u64::MAX`. -/
def lastSlot : Slot := ⟨UInt64.ofNat (2 ^ 64 - 1), 0⟩

/-- An empty database that was told that the last slot is a miss. -/
def toldMiss : Db := run step Db.empty [⟨.peerPatch (answerOf lastSlot .miss none), 0⟩]

theorem settled_toldMiss : ∃ row, toldMiss.readSlot lastSlot = some row ∧ row.status = .final ∧
    Verdict.ofLocal row = some .miss := by
  have told : ledgerOf toldMiss = Ledger.blank.peerOffer (answerOffer lastSlot .miss none) := by
    rw [toldMiss, run_cons, run_nil, ledgerOf_step_peerPatch, ledgerOf_empty]
  rw [exists_row_with_verdict_iff, told]
  simp [Ledger.peerOffer, Ledger.reconcile, answerOffer, Ledger.blank, Register.blank,
    Register.promoted, Register.settleParts, Register.verdict]

/-- It is told next that a block is final there. -/
theorem dispute_leaves_the_word : ¬ ∀ (events : List Timed) (resp : FinalSlotResponse) (nowMs : Int),
    checkedPeerPatch (run step Db.empty events) resp nowMs =
      some (applyPeerPatch (run step Db.empty events) resp nowMs) := by
  intro within
  obtain ⟨row, found, final, verdict⟩ := settled_toldMiss
  have disputed : Disputed toldMiss (answerOf lastSlot (.block (blockNo 1)) none) lastSlot := {
    about := slotOf_answerOf _ _ _
    known := rfl
    asks := by
      refine ⟨row, .miss, .block (blockNo 1), found, final, verdict, ofPeer_answerOf _ _ _, ?_, ?_, ?_⟩
      · exact Verdict.noConfusion
      · rw [shippedBlock_answerOf]
        rfl
      · rfl }
  have stops : checkedPeerPatch toldMiss (answerOf lastSlot (.block (blockNo 1)) none) 0 = none :=
    checkedPeerPatch_eq_none disputed (by decide) 0
  exact absurd (stops.symm.trans (within _ _ 0)) (by simp)

end Largest

end MassaIndexer.Laws.PeriodOverflow
