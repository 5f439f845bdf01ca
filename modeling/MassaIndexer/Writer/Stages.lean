/-
# Writer.Stages -- an event as the stages it takes

Every event is a list of procedures, each confined to one column family (`step_eq_stages`). The list
goes by the slot rows, by what the endorsement and operation families hold already, and, where a peer
disputes a settled verdict, by the chain the rows and bodies record. Two stores alike in these take
the same stages (`eventStages_eq`), so each further family they agree on they agree on afterwards
(`contents_step_eq`): the status of a block plays no part.
-/
import MassaIndexer.Writer.BlockMoves

namespace MassaIndexer.Writer.Stages

open MassaIndexer.Theory.Footprint
open MassaIndexer.Data.Ids MassaIndexer.Data.Model MassaIndexer.Data.Proto
open MassaIndexer.Store.ColumnFamilies MassaIndexer.Store.Footprint
open MassaIndexer.Writer.NodeProto MassaIndexer.Writer.NodeDecode
open MassaIndexer.Writer.Shared MassaIndexer.Writer.Handlers MassaIndexer.Writer.Step
open MassaIndexer.Writer.Families MassaIndexer.Writer.Patches MassaIndexer.Writer.RowMoves
open MassaIndexer.Peer.Patch MassaIndexer.Peer.Arbiter

set_option autoImplicit false

variable [Bs58Check]

/-! ## Stages of the patches -/

/-- What a response's verdict does before its parts: the head advances, or the old verdict's data go. -/
def openingStages (s : Slot) (row : SlotState) (out : PatchOutcome) : List FamilyStage :=
  if out.becameFinal then [stage (confined_advanceHead s)]
  else if out.divergenceRepaired then adoptStages row
  else []

theorem opening_of_proceeds {db : Db} {s : Slot} {row : SlotState} {resp : FinalSlotResponse}
    {p : Patching} (proceeds : Proceeds db s row resp p) :
    p.db = Stage.runAll (openingStages s row p.out) db := by
  cases proceeds with
  | promoted open_ => rfl
  | agreed settled agree trails => rfl
  | adopted settled l q held offered differ adopts =>
      rw [adoptPeerVerdict_db]
      rfl

def legacyStages (s : Slot) (row : SlotState) (resp : FinalSlotResponse) [DenunciationDigest]
    (nowMs : Int) : List FamilyStage :=
  let state := legacyPromoted resp row
  let left := legacyRow resp state
  (if row.status ≠ .final then [stage (confined_advanceHead s)] else []) ++
    legacyPartStages resp nowMs state ++
    (if left.completeness.execOutputFinal && left.completeness.blockBodyStored then
      [stage (confined_applyFinalityToBlocks left.finalBlockId left.candidateBlockIds)] else []) ++
    [stage (confinedTo_apply (.slot { left with lastUpdatedTsMs := nowMs })),
      stage (confined_ensureParentStub s nowMs)]

def forcedStages (row : SlotState) (resp : FinalSlotResponse) (nowMs : Int) : List FamilyStage :=
  adoptStages row ++
    [stage (confined_applyFinalityToBlocks (forcedRow row resp).finalBlockId
        (forcedRow row resp).candidateBlockIds),
      stage (confinedTo_apply (.slot { forcedRow row resp with lastUpdatedTsMs := nowMs }))]

variable [DenunciationDigest]

def peerStages (s : Slot) (row : SlotState) (resp : FinalSlotResponse) (nowMs : Int) :
    Reconciled → List FamilyStage
  | .turnedAway _ => [stage (confined_touchSlot row nowMs)]
  | .proceed p =>
      openingStages s row p.out ++ (peerPartStages s resp nowMs p.state ++
        closingStages s (peerRow resp p.state) nowMs)

/-! ## Stages of an event -/

def eventStages (db : Db) (e : Timed) : List FamilyStage :=
  match e.event with
  | .block fb =>
      match decodeHead fb with
      | .error _ => []
      | .ok head => handleBlockStages db head fb.operations e.nowMs
  | .exec out =>
      (readFrame out).elim [] fun (s, frame, exec) =>
        let row := rowAt db s e.nowMs
        if row.status = .final then
          if Completes row frame exec then completeStages row exec e.nowMs else []
        else recordStages s row frame exec e.nowMs
  | .transfers resp =>
      resp.slot.elim [] fun pb =>
        let s := NodeDecode.slotFromPb pb
        handleTransfersStages s (decodeTransfers resp s e.nowMs) e.nowMs
  | .peerPatch resp =>
      if resp.finalKnown then
        (slotOf resp).elim [] fun s => peerStages s (rowAt db s e.nowMs) resp e.nowMs
          (reconcileVerdict db s (rowAt db s e.nowMs) resp)
      else []
  | .legacyPatch resp =>
      if resp.finalKnown then
        (slotOf resp).elim [] fun s => legacyStages s (rowAt db s e.nowMs) resp e.nowMs
      else []
  | .forcedVerdict resp =>
      match slotOf resp, forcedTarget resp with
      | some s, .ok v =>
          if (rowAt db s e.nowMs).status = .final ∧ Verdict.ofLocal (rowAt db s e.nowMs) = some v then
            []
          else forcedStages (rowAt db s e.nowMs) resp e.nowMs
      | _, _ => []
  | .tick => []

theorem block_eq_stages (db : Db) (fb : FilledBlock) (nowMs : Int) :
    step db ⟨.block fb, nowMs⟩ = Stage.runAll (eventStages db ⟨.block fb, nowMs⟩) db := by
  change (handleBlock db fb nowMs).db = _
  dsimp only [eventStages]
  cases decoded : decodeHead fb with
  | error err => rw [handleBlock, decoded]; rfl
  | ok head => exact handleBlock_db decoded db nowMs

theorem exec_eq_stages (db : Db) (out : SlotExecutionOutput) (nowMs : Int) :
    step db ⟨.exec out, nowMs⟩ = Stage.runAll (eventStages db ⟨.exec out, nowMs⟩) db := by
  change (handleExec db out nowMs).db = _
  rw [handleExec_db]
  dsimp only [eventStages]
  rcases readFrame out with - | ⟨s, frame, exec⟩
  · rfl
  · rw [Option.elim_some]
    dsimp only
    split
    · rw [confirmFrame_eq]
      split <;> rfl
    · exact recordFrame_eq db s (rowAt db s nowMs) frame exec nowMs

theorem transfers_eq_stages (db : Db) (resp : NewTransfersInfoServerResponse) (nowMs : Int) :
    step db ⟨.transfers resp, nowMs⟩ =
      Stage.runAll (eventStages db ⟨.transfers resp, nowMs⟩) db := by
  change (handleTransfers db resp nowMs).db = _
  rw [handleTransfers_db]
  dsimp only [eventStages]
  cases resp.slot <;> rfl

theorem peer_eq_stages (db : Db) (resp : FinalSlotResponse) (nowMs : Int) :
    step db ⟨.peerPatch resp, nowMs⟩ =
      Stage.runAll (eventStages db ⟨.peerPatch resp, nowMs⟩) db := by
  change (applyPeerPatch db resp nowMs).1 = _
  dsimp only [eventStages]
  cases about : slotOf resp with
  | none =>
      rw [applyPeerPatch, about]
      cases resp.finalKnown <;> rfl
  | some s =>
      cases known : resp.finalKnown with
      | false => rw [applyPeerPatch, about, known]; rfl
      | true =>
          rw [applyPeerPatch_eq about known, if_pos rfl, Option.elim_some]
          cases taken : reconcileVerdict db s (rowAt db s nowMs) resp with
          | turnedAway out => rfl
          | proceed p =>
              rw [peerStages, Stage.runAll_append _ _ db,
                ← opening_of_proceeds (proceeds_of_reconcileVerdict taken)]

theorem legacy_eq_stages (db : Db) (resp : FinalSlotResponse) (nowMs : Int) :
    step db ⟨.legacyPatch resp, nowMs⟩ =
      Stage.runAll (eventStages db ⟨.legacyPatch resp, nowMs⟩) db := by
  change (applyLegacyPatch db resp nowMs).1 = _
  dsimp only [eventStages]
  cases about : slotOf resp with
  | none =>
      rw [applyLegacyPatch, about]
      cases resp.finalKnown <;> rfl
  | some s =>
      cases known : resp.finalKnown with
      | false => rw [applyLegacyPatch, about, known]; rfl
      | true =>
          rw [applyLegacyPatch_eq about known]
          rfl

theorem forced_eq_stages (db : Db) (resp : FinalSlotResponse) (nowMs : Int) :
    step db ⟨.forcedVerdict resp, nowMs⟩ =
      Stage.runAll (eventStages db ⟨.forcedVerdict resp, nowMs⟩) db := by
  unfold step
  dsimp only [eventStages]
  cases about : slotOf resp with
  | none => rw [applyForcedVerdict, about]; rfl
  | some s =>
      cases target : forcedTarget resp with
      | error err => rw [applyForcedVerdict, about, target]; rfl
      | ok v =>
          rw [applyForcedVerdict_eq about target]
          dsimp only
          split <;> rfl

/-- **An event is its stages.** -/
theorem step_eq_stages (db : Db) (e : Timed) : step db e = Stage.runAll (eventStages db e) db := by
  obtain ⟨event, nowMs⟩ := e
  cases event with
  | block fb => exact block_eq_stages db fb nowMs
  | exec out => exact exec_eq_stages db out nowMs
  | transfers resp => exact transfers_eq_stages db resp nowMs
  | peerPatch resp => exact peer_eq_stages db resp nowMs
  | legacyPatch resp => exact legacy_eq_stages db resp nowMs
  | forcedVerdict resp => exact forced_eq_stages db resp nowMs
  | tick => rfl

/-! ## What the stages go by -/

/-- Two stores an event treats alike. -/
structure Alike (db db' : Db) : Prop where
  slots : contents db .slots = contents db' .slots
  endorsements : contents db .endorsements = contents db' .endorsements
  ops : contents db .ops = contents db' .ops
  chain : SameChain db db'

omit [Bs58Check] [DenunciationDigest] in
theorem rowAt_eq {db db' : Db} (same : contents db .slots = contents db' .slots) (s : Slot)
    (nowMs : Int) : rowAt db s nowMs = rowAt db' s nowMs := by
  unfold rowAt
  rw [sameReadSlot same]

/-- The same end, up to the store a patch goes on from. -/
def SameEnd : Reconciled → Reconciled → Prop
  | .turnedAway out, .turnedAway out' => out = out'
  | .proceed p, .proceed p' => p.state = p'.state ∧ p.out = p'.out
  | _, _ => False

omit [DenunciationDigest] in
theorem sameEnd_reconcileVerdict {db db' : Db} (chain : SameChain db db') (s : Slot)
    (row : SlotState) (resp : FinalSlotResponse) :
    SameEnd (reconcileVerdict db s row resp) (reconcileVerdict db' s row resp) := by
  have trail : SameEnd (reconcileTrail db row (peerTrail resp))
      (reconcileTrail db' row (peerTrail resp)) := by
    unfold reconcileTrail
    split
    · split
      · rfl
      · exact ⟨rfl, rfl⟩
    · exact ⟨rfl, rfl⟩
    · exact ⟨rfl, rfl⟩
  unfold reconcileVerdict
  dsimp only
  split
  · exact ⟨rfl, rfl⟩
  · split
    · next l p held offered =>
        split
        · rw [chain.arbitrateVerdicts_eq]
          split
          · refine ⟨?_, rfl⟩
            rw [adoptPeerVerdict_row, adoptPeerVerdict_row]
          · rfl
        · exact trail
    · exact trail

theorem peerStages_eq (s : Slot) (row : SlotState) (resp : FinalSlotResponse) (nowMs : Int)
    {left right : Reconciled} (same : SameEnd left right) :
    peerStages s row resp nowMs left = peerStages s row resp nowMs right := by
  cases left with
  | turnedAway out =>
      cases right with
      | turnedAway out' => rfl
      | proceed p' => exact same.elim
  | proceed p =>
      cases right with
      | turnedAway out' => exact same.elim
      | proceed p' =>
          obtain ⟨states, outs⟩ := same
          rw [peerStages, peerStages, states, outs]

theorem handleBlockStages_eq {db db' : Db} (alike : Alike db db') (head : BlockHead)
    (ops : List FilledOperation) (nowMs : Int) :
    handleBlockStages db head ops nowMs = handleBlockStages db' head ops nowMs := by
  unfold handleBlockStages
  rw [(handledIn_persistEndorsements (head.endorsements nowMs)).result db db' alike.endorsements,
    (handledIn_ingestOperations head nowMs ops).result db db' alike.ops, rowAt_eq alike.slots]

/-- **Stores alike take the same stages.** -/
theorem eventStages_eq {db db' : Db} (alike : Alike db db') (e : Timed) :
    eventStages db e = eventStages db' e := by
  obtain ⟨event, nowMs⟩ := e
  unfold eventStages
  cases event with
  | block fb =>
      dsimp only
      split
      · rfl
      · exact handleBlockStages_eq alike _ _ _
  | exec out => simp only [rowAt_eq alike.slots]
  | transfers resp => rfl
  | peerPatch resp =>
      have stages (s : Slot) : peerStages s (rowAt db s nowMs) resp nowMs
            (reconcileVerdict db s (rowAt db s nowMs) resp) =
          peerStages s (rowAt db' s nowMs) resp nowMs
            (reconcileVerdict db' s (rowAt db' s nowMs) resp) := by
        rw [rowAt_eq alike.slots]
        exact peerStages_eq _ _ _ _ (sameEnd_reconcileVerdict alike.chain _ _ _)
      simp only [stages]
  | legacyPatch resp => simp only [rowAt_eq alike.slots]
  | forcedVerdict resp => simp only [rowAt_eq alike.slots]
  | tick => rfl

/-- **A family two such stores agree on, they agree on after the event.** -/
theorem contents_step_eq {db db' : Db} (alike : Alike db db') (e : Timed) {f : Family}
    (same : contents db f = contents db' f) : contents (step db e) f = contents (step db' e) f := by
  rw [step_eq_stages, step_eq_stages, eventStages_eq alike]
  exact (Stage.view_runAll_congr _ same).trans (Stage.view_runAll _ _ _).symm

end MassaIndexer.Writer.Stages
