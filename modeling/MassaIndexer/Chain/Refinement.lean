/-
# Chain.Refinement -- the writer refines the ledger machine

`ledgerOf_step`: one event of the writer is one act of the ledger machine, the act being what the
event decodes to (`actOf`). Everything the handlers do besides, they do outside the ledger. A law of
the ledger machine is therefore a law of the writer, event by event and over whole runs.
-/
import MassaIndexer.Chain.Patches
import MassaIndexer.Writer.Step

namespace MassaIndexer.Chain

open MassaIndexer.Data.Ids MassaIndexer.Data.Model MassaIndexer.Data.Proto
open MassaIndexer.Store.ColumnFamilies MassaIndexer.Theory.Runs
open MassaIndexer.Peer.Arbiter MassaIndexer.Peer.Patch
open MassaIndexer.Writer.Shared MassaIndexer.Writer.Handlers MassaIndexer.Writer.Step

set_option autoImplicit false

variable [Bs58Check] [DenunciationDigest]

/-- What an event amounts to. Only a block needs the store: to tell whether it is taken. -/
def actOf (db : Db) (e : Timed) : Act :=
  match e.event with
  | .block fb =>
      match decodeHead fb, (handleBlock db fb e.nowMs).result with
      | .ok head, .ok () => .body ⟨head.id, ⟨head.slot, head.parents⟩⟩
      | _, _ => .idle
  | .exec out => execAct out
  | .transfers resp => transfersAct resp
  | .peerPatch resp => (offerOf resp).elim .idle .peer
  | .legacyPatch resp => (offerOf resp).elim .idle .legacy
  | .forcedVerdict resp => forcedAct resp
  | .tick => .idle

/-- **One event of the writer is one act of the ledger machine.** -/
theorem ledgerOf_step (db : Db) (e : Timed) :
    ledgerOf (step db e) = (ledgerOf db).step (actOf db e) := by
  obtain ⟨event, nowMs⟩ := e
  cases event with
  | block fb =>
      obtain ⟨⟨e, failed⟩, quiet⟩ | ⟨head, decoded, taken, entered⟩ := ledgerOf_handleBlock db fb nowMs
      · simp only [step, actOf, failed]
        cases decodeHead fb <;> exact quiet
      · simp only [step, actOf, decoded, taken]
        exact entered
  | exec out => exact ledgerOf_handleExec db out nowMs
  | transfers resp => exact ledgerOf_handleTransfers db resp nowMs
  | peerPatch resp =>
      simp only [step, actOf, offerOf]
      cases known : resp.finalKnown with
      | false =>
          have same : (applyPeerPatch db resp nowMs).1 = db := by
            unfold applyPeerPatch
            cases slotOf resp <;> simp [known]
          simp [same, Ledger.step]
      | true =>
          cases about : slotOf resp with
          | none => simp [applyPeerPatch, about, Ledger.step]
          | some s => simpa using ledgerOf_applyPeerPatch about known db nowMs
  | legacyPatch resp =>
      simp only [step, actOf, offerOf]
      cases known : resp.finalKnown with
      | false =>
          have same : (applyLegacyPatch db resp nowMs).1 = db := by
            unfold applyLegacyPatch
            cases slotOf resp <;> simp [known]
          simp [same, Ledger.step]
      | true =>
          cases about : slotOf resp with
          | none => simp [applyLegacyPatch, about, Ledger.step]
          | some s => simpa using ledgerOf_applyLegacyPatch about known db nowMs
  | forcedVerdict resp => exact ledgerOf_applyForcedVerdict db resp nowMs
  | tick => rfl

/-- Decoding gives normal acts. -/
theorem normal_actOf (db : Db) (e : Timed) : (actOf db e).Normal := by
  obtain ⟨event, nowMs⟩ := e
  cases event with
  | block fb =>
      simp only [actOf]
      split <;> trivial
  | exec out =>
      simp only [actOf, execAct]
      split
      · trivial
      · split
        · trivial
        · intro miss
          simp [frameBlock, Option.isNone_iff_eq_none.mp miss]
        · trivial
  | transfers resp =>
      simp only [actOf, transfersAct]
      split <;> trivial
  | peerPatch resp =>
      simp only [actOf, offerOf]
      split
      · cases slotOf resp with
        | none => trivial
        | some s => exact readBackTrail_peerTrail resp
      · trivial
  | legacyPatch resp =>
      simp only [actOf, offerOf]
      split
      · cases slotOf resp <;> trivial
      · trivial
  | forcedVerdict resp =>
      simp only [actOf, forcedAct]
      split
      · exact readBackTrail_peerTrail resp
      · trivial
  | tick => trivial

/-- **Every reachable ledger is well formed.** -/
theorem wellFormed_ingest (events : List Timed) : (ledgerOf (ingest events)).WellFormed := by
  refine invariant_of_step (P := fun db => (ledgerOf db).WellFormed) (fun db e wf => ?_) events ?_
  · rw [ledgerOf_step]
    exact wf.step (normal_actOf db e)
  · rw [ledgerOf_empty]
    exact fun _ => .blank

/-- **Laws of the ledger machine are laws of the writer.** When `C` is exactly what keeps `P` in one
act on a well-formed ledger, a run of the writer has `P` throughout exactly when all its events meet
`C`. -/
theorem throughout_iff_along {P : Ledger → Prop} {C : Ledger → Act → Prop}
    (exact_step : ∀ L a, L.WellFormed → P L → (P (L.step a) ↔ C L a)) (init : P Ledger.blank)
    (events : List Timed) :
    (∀ db, Visits step Db.empty events db → P (ledgerOf db)) ↔
      Along step (fun db e => C (ledgerOf db) (actOf db e)) Db.empty events := by
  have wf : ∀ db, Visits step Db.empty events db → (ledgerOf db).WellFormed := by
    rintro db ⟨before, after, rfl, rfl⟩
    exact wellFormed_ingest before
  have both : (∀ db, Visits step Db.empty events db → (ledgerOf db).WellFormed ∧ P (ledgerOf db)) ↔
      Along step (fun db e => C (ledgerOf db) (actOf db e)) Db.empty events :=
    forall_visits_iff_along (P := fun db => (ledgerOf db).WellFormed ∧ P (ledgerOf db))
    (C := fun db e => C (ledgerOf db) (actOf db e))
    (fun db e holds => by
      rw [ledgerOf_step, exact_step _ _ holds.1 holds.2]
      exact and_iff_right (holds.1.step (normal_actOf db e)))
    ⟨wellFormed_ingest [], by rw [ledgerOf_empty]; exact init⟩
  rw [← both]
  exact forall_congr' fun db => forall_congr' fun visited => (and_iff_right (wf db visited)).symm

end MassaIndexer.Chain
