/-
# Laws.DefiniteVerdict -- a settled slot is a miss or has a block

A FINAL slot should carry exactly one verdict, else the arbiter has nothing to compare an offer with.
Frames and patches set the status before they look at the block id, and an id that does not parse
counts as none; only the operator's verdict is turned down without one. `NamesVerdict` is that guard
put to every act that settles an open slot.
-/
import MassaIndexer.Chain.Snapshot

namespace MassaIndexer.Laws.DefiniteVerdict

open MassaIndexer.Theory.Runs
open MassaIndexer.Data.Ids MassaIndexer.Data.Model MassaIndexer.Data.Proto MassaIndexer.Chain
open MassaIndexer.Store.ColumnFamilies MassaIndexer.Writer.Shared MassaIndexer.Writer.Step
open MassaIndexer.Peer.Arbiter MassaIndexer.Peer.Patch

set_option autoImplicit false

/-! ## On the ledger -/

/-- A FINAL register has a verdict. -/
def Definite (r : Register) : Prop := r.status = .final → r.verdict ≠ none

/-- An act that settles an open slot comes with a verdict. -/
def NamesVerdict (L : Ledger) : Act → Prop
  | .final s isMiss block _ => (L.reg s).status ≠ .final → isMiss = true ∨ block ≠ none
  | .peer o => (L.reg o.slot).status ≠ .final → o.verdict ≠ none
  | .legacy o => (L.reg o.slot).status ≠ .final → o.verdict ≠ none
  | _ => True

theorem verdict_settleParts (r : Register) (body exec transfers : Bool) :
    (r.settleParts body exec transfers).verdict = r.verdict := rfl

/-- A well-formed open register has no block of its own to fall back on. -/
theorem verdict_promoted {r : Register} (wf : r.WellFormed) (open_ : r.status ≠ .final)
    (o : Offer) : (r.promoted o.isMiss o.block).verdict = o.verdict := by
  have unsettled := (wf.unsettled open_).2
  unfold Register.promoted Register.verdict Offer.verdict
  cases o.isMiss with
  | true => rfl
  | false => simp [unsettled]

theorem definite_sawFinal_iff {r : Register} (wf : r.WellFormed) (definite : Definite r)
    (isMiss : Bool) (block : Option BlockId) (trail : Option String) :
    Definite (r.sawFinal isMiss block trail) ↔
      (r.status ≠ .final → isMiss = true ∨ block ≠ none) := by
  unfold Register.sawFinal
  by_cases settled : r.status = .final
  · rw [if_pos settled]
    refine iff_of_true ?_ fun open_ => absurd settled open_
    split <;> exact definite
  · have unsettled := (wf.unsettled settled).2
    rw [if_neg settled]
    unfold Definite Register.verdict
    cases isMiss <;> cases block <;> simp [settled, unsettled]

theorem definite_forcedTo (v : Verdict) (trail : Option String) :
    Definite (.forcedTo v trail) := by
  intro _
  cases v <;> simp [Register.forcedTo, Register.replaced, Register.verdict]

section Step

variable {L : Ledger}

theorem definite_peerOffer_iff {o : Offer} (wf : (L.reg o.slot).WellFormed)
    (definite : Definite (L.reg o.slot)) :
    Definite ((L.peerOffer o).reg o.slot) ↔
      ((L.reg o.slot).status ≠ .final → o.verdict ≠ none) := by
  unfold Ledger.peerOffer
  by_cases settled : (L.reg o.slot).status = .final
  · refine iff_of_true ?_ fun open_ => absurd settled open_
    cases reconciled : L.reconcile o with
    | none => exact definite
    | some r =>
        dsimp only
        rw [Ledger.reg_setReg, if_pos rfl]
        intro final
        rw [verdict_settleParts]
        cases reconciles_of_reconcile reconciled with
        | promoted open_ => exact absurd settled open_
        | agreed _ _ _ => exact definite settled
        | adopted _ l p _ offered _ =>
            have adopted := (L.verdict_adopted o).2
            rw [Ledger.adopted, Ledger.reg_setReg, if_pos rfl, verdict_settleParts, offered] at adopted
            rw [adopted]
            simp
  · rw [reconcile_of_open settled]
    dsimp only
    rw [Ledger.reg_setReg, if_pos rfl, Definite, verdict_settleParts]
    have verdict := verdict_promoted wf settled o
    exact ⟨fun named _ => verdict ▸ named rfl, fun named _ => verdict.symm ▸ named settled⟩

theorem definite_legacyOffer_iff {o : Offer} (wf : (L.reg o.slot).WellFormed)
    (definite : Definite (L.reg o.slot)) :
    Definite ((L.legacyOffer o).reg o.slot) ↔
      ((L.reg o.slot).status ≠ .final → o.verdict ≠ none) := by
  unfold Ledger.legacyOffer
  dsimp only
  rw [Ledger.reg_setReg, if_pos rfl, Definite, verdict_settleParts]
  by_cases settled : (L.reg o.slot).status = .final
  · rw [if_pos settled]
    exact iff_of_true (fun _ => definite settled) fun open_ => absurd settled open_
  · rw [if_neg settled, verdict_promoted wf settled]
    exact ⟨fun named _ => named rfl, fun named _ => named settled⟩

/-- The slot a frame or a patch is about. -/
def subject : Act → Option Slot
  | .final s _ _ _ => some s
  | .peer o => some o.slot
  | .legacy o => some o.slot
  | _ => none

/-- No other act can take a verdict away from a FINAL slot, or leave one FINAL without. -/
theorem definite_of_regMove {a : Act} {t : Slot} {r : Register} (moved : RegMove L t a r)
    (definite : Definite (L.reg t)) (elsewhere : subject a ≠ some t) : Definite r := by
  cases moved with
  | same => exact definite
  | body shipped here =>
      intro final
      refine definite ?_
      unfold Register.sawBody at final
      dsimp only at final
      split at final
      · exact absurd final (by decide)
      · exact final
  | candidate trail =>
      unfold Register.sawCandidate
      split
      · exact definite
      · exact fun final => absurd final (by simp)
  | final isMiss block trail => exact absurd rfl elsewhere
  | transfers => exact definite
  | peer o r here _ => exact absurd (congrArg some here) elsewhere
  | legacy o here => exact absurd (congrArg some here) elsewhere
  | forced v trail _ => exact definite_forcedTo v trail

/-- **One act leaves a slot without a verdict exactly when it settles one without naming any.** -/
theorem definite_step_iff {a : Act} (wf : L.WellFormed) (definite : ∀ s, Definite (L.reg s)) :
    (∀ s, Definite ((L.step a).reg s)) ↔ NamesVerdict L a := by
  have others : ∀ t, subject a ≠ some t → Definite ((L.step a).reg t) :=
    fun t elsewhere => definite_of_regMove (regMove_step L a t) (definite t) elsewhere
  have focus : ∀ {s : Slot} {P : Prop}, subject a = some s →
      (Definite ((L.step a).reg s) ↔ P) → ((∀ t, Definite ((L.step a).reg t)) ↔ P) := by
    intro s P about here
    refine ⟨fun all => here.mp (all s), fun holds t => ?_⟩
    by_cases same : s = t
    · rw [← same]
      exact here.mpr holds
    · exact others t (by rw [about]; exact fun eq => same (Option.some.inj eq))
  cases a with
  | final s isMiss block trail =>
      refine focus rfl ?_
      rw [Ledger.step, Ledger.reg_setReg, if_pos rfl]
      exact definite_sawFinal_iff (wf s) (definite s) isMiss block trail
  | peer o => exact focus rfl (definite_peerOffer_iff (wf o.slot) (definite o.slot))
  | legacy o => exact focus rfl (definite_legacyOffer_iff (wf o.slot) (definite o.slot))
  | _ => exact iff_of_true (fun t => others t (by simp [subject])) trivial

end Step

/-! ## On the store -/

/-- Every FINAL row is either a miss or has a block. -/
def VerdictsDefinite (db : Db) : Prop :=
  ∀ s row, db.readSlot s = some row → row.status = .final →
    Xor (row.isMiss = true) (row.finalBlockId ≠ none)

theorem xor_iff_definite {r : Register} (wf : r.WellFormed) :
    Xor (r.isMiss = true) (r.finalBlockId ≠ none) ↔ r.verdict ≠ none := by
  have noBlock := wf.miss
  unfold Register.verdict
  cases isMiss : r.isMiss with
  | true => simp [noBlock isMiss, Xor]
  | false => simp [Xor]

theorem verdictsDefinite_iff {db : Db} (wf : (ledgerOf db).WellFormed) :
    VerdictsDefinite db ↔ ∀ s, Definite ((ledgerOf db).reg s) := by
  constructor
  · intro definite s final
    obtain ⟨row, found, here⟩ := exists_row_of_final final
    refine (xor_iff_definite (wf s)).mp ?_
    rw [← here] at final ⊢
    exact definite s row found final
  · intro definite s row found final
    have here := registerOf_of_readSlot found
    have verdict := (xor_iff_definite (wf s)).mpr (definite s (by rw [← here]; exact final))
    rw [← here] at verdict
    exact verdict

/-- The verdict the arbiter compares an offer with. -/
theorem ofLocal_ne_none_of_definite {db : Db} (definite : VerdictsDefinite db) {s : Slot}
    {row : SlotState} (found : db.readSlot s = some row) (final : row.status = .final) :
    Verdict.ofLocal row ≠ none := by
  have verdict := definite s row found final
  unfold Verdict.ofLocal
  cases isMiss : row.isMiss with
  | true => simp
  | false => simpa [isMiss, Xor] using verdict

section Writers

variable [Bs58Check] [DenunciationDigest]

/-- **When the verdicts of a run are definite.** In every state the run passes through each FINAL slot
is either a miss or has a block -- and so has a verdict for the arbiter -- exactly when every event
that settles an open slot names its verdict. -/
theorem verdicts_definite_iff (events : List Timed) :
    (∀ db, Visits step Db.empty events db → VerdictsDefinite db ∧
      ∀ s row, db.readSlot s = some row → row.status = .final → Verdict.ofLocal row ≠ none) ↔
      Along step (fun db e => NamesVerdict (ledgerOf db) (actOf db e)) Db.empty events := by
  rw [← throughout_iff_along (P := fun L => ∀ s, Definite (L.reg s))
    (fun _ _ wf definite => definite_step_iff wf definite)
    (fun s final => absurd final (by simp [Ledger.blank, Register.blank])) events]
  refine forall_congr' fun db => imp_congr_right fun visited => ?_
  obtain ⟨before, after, -, rfl⟩ := visited
  have here := verdictsDefinite_iff (wellFormed_ingest before)
  rw [ingest] at here
  rw [← here]
  exact ⟨And.left, fun definite => ⟨definite, fun _ _ => ofLocal_ne_none_of_definite definite⟩⟩

end Writers

/-! ## A verdict without a block -/

section Nameless

attribute [local instance] Bs58Check.doubleSha noDenunciations

/-- A peer says the slot is FINAL, is not a miss, and names no block. -/
def nameless : FinalSlotResponse := { answerOf ⟨10, 0⟩ .miss none with isMiss := false }

/-- **A slot is FINAL with neither.** -/
theorem verdicts_not_definite : ¬ ∀ events, VerdictsDefinite (ingest events) := by
  intro definite
  have settled := (verdictsDefinite_iff (wellFormed_ingest _)).mp
    (definite [⟨.peerPatch nameless, 0⟩]) ⟨10, 0⟩
  have slot : slotOf nameless = some ⟨10, 0⟩ := slotOf_answerOf ⟨10, 0⟩ .miss none
  have about : actOf Db.empty ⟨.peerPatch nameless, 0⟩ = .peer (offerAt ⟨10, 0⟩ nameless) := by
    simp only [actOf, offerOf, slot]
    rfl
  rw [ingest, run_cons, run_nil, ledgerOf_step, ledgerOf_empty, about] at settled
  have named := (definite_peerOffer_iff (L := Ledger.blank) .blank
    (fun final => by cases final)).mp settled (fun final => by cases final)
  exact named (by simp [offerAt, nameless, answerOf, parseFinalBlockId, Offer.verdict])

end Nameless

end MassaIndexer.Laws.DefiniteVerdict
