/-
# Laws.RepairResidue -- what a replaced verdict leaves behind

A peer's answer that the arbiter adopts replaces the verdict of a settled slot, and everything derived
from the old one is to go. `Bare` is the store as it would be without the exec output and the transfers
of the old verdict; after the answer the two stores agree on the slot except for what the old exec
output wrote elsewhere: the final status of an operation, which the answer's own status cannot
overwrite, and index entries that no row of the slot accounts for (`repaired_alike_iff`).
-/
import MassaIndexer.Writer.BlockMoves
import MassaIndexer.Chain.Snapshot

namespace MassaIndexer.Laws.RepairResidue

open MassaIndexer.Theory.Runs MassaIndexer.Theory.KeyedTable MassaIndexer.Theory.Footprint
open MassaIndexer.Data.Ids MassaIndexer.Data.Model MassaIndexer.Data.Proto MassaIndexer.Data.Codec
open MassaIndexer.Data.RowCodec
open MassaIndexer.Store.ColumnFamilies MassaIndexer.Store.Footprint MassaIndexer.Store.SlotRows
open MassaIndexer.Writer MassaIndexer.Writer.NodeProto MassaIndexer.Writer.NodeDecode
open MassaIndexer.Writer.Shared MassaIndexer.Writer.Handlers MassaIndexer.Writer.Step
open MassaIndexer.Writer.Families MassaIndexer.Writer.Patches MassaIndexer.Writer.Moves
open MassaIndexer.Writer.RowMoves MassaIndexer.Writer.BlockMoves
open MassaIndexer.Peer.Patch MassaIndexer.Peer.Arbiter MassaIndexer.Chain

set_option autoImplicit false

/-! ## Operation statuses -/

/-- The final status an operation has. -/
def finalStatusOf (db : Db) (id : OperationId) : Option ExecStatus :=
  (db.readOp id).bind (·.finalExecStatus)

section Writers

variable [Bs58Check]

/-- The first final status an answer ships for an operation. -/
def shippedStatus (resp : FinalSlotResponse) (id : OperationId) : Option ExecStatus :=
  resp.operations.findSome? fun pb =>
    (operationFromPeerPb pb).toOption.bind fun op => if op.id = id then op.finalExecStatus else none

theorem finalStatusOf_applyOperation (db : Db) (pb : StoredOperationPb) (id : OperationId) :
    finalStatusOf (applyOperation db pb) id = (finalStatusOf db id).or
      ((operationFromPeerPb pb).toOption.bind fun op =>
        if op.id = id then op.finalExecStatus else none) := by
  unfold applyOperation
  cases decoded : operationFromPeerPb pb with
  | error err => simp [Except.toOption]
  | ok op =>
      simp only [Except.toOption, Option.bind_some]
      have written : ∀ row : StoredOperation, row.id = op.id → finalStatusOf (db.writeOp row) id =
          if op.id = id then row.finalExecStatus else finalStatusOf db id := by
        intro row same
        unfold finalStatusOf
        rw [Db.readOp_writeOp, same]
        split <;> rfl
      cases found : db.readOp op.id with
      | none =>
          dsimp only
          rw [written op rfl]
          split
          · next here => rw [← here, finalStatusOf, found]; rfl
          · simp
      | some row =>
          dsimp only
          have own : row.id = op.id := Db.id_of_readOp found
          have merged : (mergeOperation row op).id = op.id := by rw [mergeOperation_eq, own]
          have status : (mergeOperation row op).finalExecStatus =
              row.finalExecStatus.or op.finalExecStatus := by rw [mergeOperation_eq]
          have held : op.id = id → finalStatusOf db id = row.finalExecStatus := by
            rintro rfl
            rw [finalStatusOf, found]
            rfl
          split
          · rw [written _ merged, status]
            split
            · next here => rw [held here]
            · simp
          · next same =>
              split
              · next here =>
                  rw [held here, ← status, not_not.mp same]
              · simp

theorem finalStatusOf_operations (resp : FinalSlotResponse) (db : Db) (id : OperationId) :
    finalStatusOf (resp.operations.foldl applyOperation db) id =
      (finalStatusOf db id).or (shippedStatus resp id) := by
  unfold shippedStatus
  induction resp.operations generalizing db with
  | nil => simp
  | cons pb pbs ih =>
      rw [List.foldl_cons, ih, finalStatusOf_applyOperation, List.findSome?_cons, Option.or_assoc]
      cases (operationFromPeerPb pb).toOption.bind fun op =>
        if op.id = id then op.finalExecStatus else none <;> rfl

/-! ## Repairs -/

/-- A settled slot, and an answer whose other verdict the arbiter adopts. -/
structure Repair (s : Slot) where
  db : Db
  row : SlotState
  held : Verdict
  offered : Verdict
  resp : FinalSlotResponse
  nowMs : Int
  found : db.readSlot s = some row
  settled : row.status = .final
  holds : Verdict.ofLocal row = some held
  about : slotOf resp = some s
  known : resp.finalKnown = true
  offers : Verdict.ofPeer resp (parseFinalBlockId resp) = some offered
  differ : held ≠ offered
  adopts : arbitrateVerdicts db s held offered (shippedBlock resp) = .adoptPeer

namespace Repair

variable {s : Slot} (r : Repair s)

def event : Timed := ⟨.peerPatch r.resp, r.nowMs⟩

theorem rowAt_db : rowAt r.db s r.nowMs = r.row := by rw [rowAt, r.found, Option.getD_some]

theorem slot_row : r.row.slot = s := Db.slot_of_readSlot r.found

def patching : Patching :=
  ⟨(adoptPeerVerdict r.db r.row r.resp (parseFinalBlockId r.resp) (peerTrail r.resp)).1,
    adoptedRow r.row r.resp (parseFinalBlockId r.resp) (peerTrail r.resp),
    { divergenceRepaired := true }⟩

theorem reconciled : reconcileVerdict r.db s r.row r.resp = .proceed r.patching := by
  unfold reconcileVerdict
  rw [if_neg (not_not.mpr r.settled), r.holds, r.offers]
  dsimp only
  rw [if_pos r.differ, r.adopts]
  dsimp only
  rw [patching, ← adoptPeerVerdict_row r.db]

/-- The row the answer leaves. -/
def left : SlotState := { peerRow r.resp r.patching.state with lastUpdatedTsMs := r.nowMs }

theorem slot_left : r.left.slot = s := by
  refine (slot_peerRow _ _).trans ?_
  exact (slot_adoptedRow _ _ _ _).trans r.slot_row

theorem rowMove_event : rowMove r.db r.event = some ⟨r.left, true⟩ := by
  simp [rowMove, event, r.about, r.known, r.rowAt_db, r.reconciled, peerMove, left]

theorem blockMove_event : blockMove r.db r.event =
    { discard := r.row.finalBlockId
      store := deliveredBlock r.resp
      settle := some (r.left.finalBlockId, r.left.candidateBlockIds) } := by
  simp [blockMove, event, r.about, r.known, r.rowAt_db, r.reconciled, peerBlockMove, left, patching]

/-- The events the answer files. -/
def events : List StoredScEvent :=
  if execPartPresent r.resp || execAsserted r.resp then decodedEvents r.resp else []

/-- The transfers the answer files. -/
def transfers : List StoredTransfer :=
  if transfersPartPresent r.resp || transfersAsserted r.resp then decodedTransfers r.resp else []

theorem eventMove_event : eventMove r.db r.event = ⟨some s, r.events⟩ := by
  have takes : takesExec r.resp r.patching.state =
      (execPartPresent r.resp || execAsserted r.resp) := by
    rw [takesExec, patching, adoptedRow_eq]
    simp
  simp only [eventMove, event, r.about, r.known, r.rowAt_db, r.reconciled, peerEventMove, takes,
    if_true, Option.elim_some, events]
  split <;> rfl

theorem transferMove_event : transferMove r.db r.event = ⟨some s, r.transfers⟩ := by
  have takes : takesTransfers r.resp r.patching.state =
      (transfersPartPresent r.resp || transfersAsserted r.resp) := by
    rw [takesTransfers, patching, adoptedRow_eq]
    simp
  simp only [transferMove, event, r.about, r.known, r.rowAt_db, r.reconciled, peerTransferMove, takes,
    if_true, Option.elim_some, transfers]
  split <;> rfl

variable [DenunciationDigest]

theorem readSlot_step : (step r.db r.event).readSlot s = some (readBackSlotState r.left) := by
  have after := RowMoves.readSlot_step r.db r.event s
  rw [r.rowMove_event] at after
  dsimp only at after
  rwa [if_pos r.slot_left] at after

/-- Operations of a delivered block: the answer's statuses come second. -/
theorem finalStatusOf_step {block : StoredBlock} (delivered : deliveredBlock r.resp = some block)
    (id : OperationId) : finalStatusOf (step r.db r.event) id =
      (finalStatusOf r.db id).or (shippedStatus r.resp id) := by
  have ops : contents (step r.db r.event) .ops =
      contents (r.resp.operations.foldl applyOperation r.db) .ops := by
    change contents (applyPeerPatch r.db r.resp r.nowMs).1 .ops = _
    rw [applyPeerPatch_eq r.about r.known, r.rowAt_db, r.reconciled]
    dsimp only
    have start : contents r.patching.db .ops = contents r.db .ops := by
      exact (proceeds_of_reconcileVerdict r.reconciled).frame (by decide)
    have stages : contents (Stage.runAll (peerPartStages s r.resp r.nowMs r.patching.state ++
        closingStages s (peerRow r.resp r.patching.state) r.nowMs) r.patching.db) .ops =
        contents (r.resp.operations.foldl applyOperation r.patching.db) .ops := by
      rw [contents_runAll, peerPartStages, delivered]
      cases takesExec r.resp r.patching.state <;>
        cases takesTransfers r.resp r.patching.state <;> rfl
    refine stages.trans ?_
    exact (Confined.foldl fun pb (_ : pb ∈ r.resp.operations) => confined_applyOperation pb).own _ _
      start
  rw [finalStatusOf, sameReadOp ops]
  exact finalStatusOf_operations r.resp r.db id

end Repair

/-! ## The store without the old exec output -/

/-- The store as it would be had the exec output and the transfers of the slot's verdict never been
applied: the slot is settled with that verdict and has neither part, no event, no transfer and no index
entry; its blocks may lack their statuses, and operations their final status. -/
structure Bare {s : Slot} (r : Repair s) where
  db : Db
  row : SlotState
  found : db.readSlot s = some row
  same : row = { r.row with
    executionTrailHash := row.executionTrailHash
    executedOpIds := row.executedOpIds
    scEventCount := row.scEventCount
    completeness := row.completeness
    lastUpdatedTsMs := row.lastUpdatedTsMs }
  noExec : row.completeness.execOutputFinal = false
  noTransfers : row.completeness.transfersStored = false
  elsewhere : ∀ t, t ≠ s → db.readSlot t = r.db.readSlot t
  bodies : ∀ b, (r.db.readBlock b).map (settledTo (some .discarded)) =
    (db.readBlock b).map (settledTo (some .discarded))
  blocks : ∀ b, r.row.finalBlockId ≠ some b → b ∉ r.row.candidateBlockIds →
    r.db.readBlock b = db.readBlock b
  statuses : ∀ id status, finalStatusOf db id = some status → finalStatusOf r.db id = some status
  events : Without eventFiling (filedEvents db) s
  transfers : Without transferFiling (filedTransfers db) s

namespace Bare

variable {s : Slot} {r : Repair s} (bare : Bare r)

theorem verdictFields : bare.row.status = r.row.status ∧ bare.row.isMiss = r.row.isMiss ∧
    bare.row.finalBlockId = r.row.finalBlockId := by
  rw [bare.same]
  exact ⟨rfl, rfl, rfl⟩

/-- The arbiter sees no difference. -/
theorem sameChain : SameChain r.db bare.db where
  rows t := by
    by_cases here : t = s
    · subst here
      obtain ⟨status, isMiss, block⟩ := bare.verdictFields
      rw [r.found, bare.found, Option.map_some, Option.map_some, status, isMiss, block]
    · rw [bare.elsewhere t here]
  bodies b := by
    have same := congrArg (Option.map fun block : StoredBlock => (block.slot, block.parents))
      (bare.bodies b)
    rw [Option.map_map, Option.map_map] at same
    exact same

/-- The same answer is adopted there. -/
def repair : Repair s where
  db := bare.db
  row := bare.row
  held := r.held
  offered := r.offered
  resp := r.resp
  nowMs := r.nowMs
  found := bare.found
  settled := bare.verdictFields.1.trans r.settled
  holds := by
    obtain ⟨-, isMiss, block⟩ := bare.verdictFields
    rw [Verdict.ofLocal, isMiss, block]
    exact r.holds
  about := r.about
  known := r.known
  offers := r.offers
  differ := r.differ
  adopts := (bare.sameChain.arbitrateVerdicts_eq s _ _ _).symm.trans r.adopts

theorem left_repair : bare.repair.left = r.left := by
  have adopted : ∀ row row' : SlotState, row' = { row with
        executionTrailHash := row'.executionTrailHash
        executedOpIds := row'.executedOpIds
        scEventCount := row'.scEventCount
        completeness := row'.completeness
        lastUpdatedTsMs := row'.lastUpdatedTsMs } →
      adoptedRow row' r.resp (parseFinalBlockId r.resp) (peerTrail r.resp) =
        { adoptedRow row r.resp (parseFinalBlockId r.resp) (peerTrail r.resp) with
          lastUpdatedTsMs := row'.lastUpdatedTsMs } := by
    rintro ⟨slot, status, isMiss, final, candidates, trail, ops, count, parts, first, last⟩
      ⟨slot', status', isMiss', final', candidates', trail', ops', count', parts', first', last'⟩ same
    obtain ⟨rfl, rfl, rfl, rfl, rfl, -, -, -, -, rfl, -⟩ := SlotState.mk.inj same
    rw [adoptedRow_eq, adoptedRow_eq]
    cases parseFinalBlockId r.resp with
    | none => rfl
    | some b => simp [SlotState.addCandidate_eq]
  have state : bare.repair.patching.state =
      { r.patching.state with lastUpdatedTsMs := bare.row.lastUpdatedTsMs } :=
    adopted r.row bare.row bare.same
  unfold Repair.left
  rw [state]
  exact congrArg (fun row : SlotState => { row with lastUpdatedTsMs := r.nowMs })
    (peerRow_touched r.resp r.patching.state _)

end Bare

/-! ## After the answer -/

/-- What the claim compares: the slot's row, its events and transfers with their index entries, the
block rows, and the final statuses of the operations of the answer's block. -/
structure SameRepair {s : Slot} (r : Repair s) (db db' : Db) : Prop where
  row : db'.readSlot s = db.readSlot s
  events : SameAt eventFiling (filedEvents db) (filedEvents db') s
  transfers : SameAt transferFiling (filedTransfers db) (filedTransfers db') s
  blocks : ∀ b, db.readBlock b = db'.readBlock b
  statuses : ∀ block, deliveredBlock r.resp = some block →
    ∀ id ∈ block.operationIds, finalStatusOf db id = finalStatusOf db' id

/-- The old exec output left no final status on an operation of the answer's block that the answer
does not ship itself, and no index entry that neither a row of the slot nor a row of the answer
accounts for. -/
structure LeavesNothing {s : Slot} (r : Repair s) (bare : Bare r) : Prop where
  statuses : ∀ block, deliveredBlock r.resp = some block → ∀ id ∈ block.operationIds,
    finalStatusOf r.db id = finalStatusOf bare.db id ∨ finalStatusOf r.db id = shippedStatus r.resp id
  events : ∀ j k, Stale eventFiling (filedEvents r.db) s j k →
    ∃ ev ∈ r.events, k ∈ eventFiling.keys j ev
  transfers : ∀ j k, Stale transferFiling (filedTransfers r.db) s j k →
    ∃ t ∈ r.transfers, k ∈ transferFiling.keys j t

section Repaired

variable [DenunciationDigest] {s : Slot} {r : Repair s} (bare : Bare r)

include bare

theorem row_repaired :
    (step bare.db r.event).readSlot s = (step r.db r.event).readSlot s := by
  have after : (step bare.db r.event).readSlot s = some (readBackSlotState bare.repair.left) :=
    bare.repair.readSlot_step
  rw [after, r.readSlot_step, bare.left_repair]

theorem blocks_repaired (b : BlockId) :
    (step r.db r.event).readBlock b = (step bare.db r.event).readBlock b := by
  have move := r.blockMove_event
  have move' : blockMove bare.db r.event = blockMove r.db r.event := by
    have other : blockMove bare.db r.event = _ := bare.repair.blockMove_event
    rw [other, bare.left_repair, move]
    change BlockMove.mk bare.row.finalBlockId _ _ _ = _
    rw [bare.verdictFields.2.2]
    rfl
  rw [readBlock_step, readBlock_step, move']
  by_cases named : r.row.finalBlockId = some b ∨ b ∈ r.row.candidateBlockIds
  · refine BlockMove.rowOf_congr (bare.bodies b) ?_
    rw [move]
    refine named.imp_right fun listed => ⟨_, rfl, ?_⟩
    have kept : ∀ (row : SlotState) (c : BlockId), b ∈ row.candidateBlockIds →
        b ∈ (row.addCandidate c).candidateBlockIds :=
      fun row c member => (SlotState.mem_addCandidate row c).mpr (.inr member)
    have adopted : b ∈ r.patching.state.candidateBlockIds := by
      rw [Repair.patching, adoptedRow_eq]
      dsimp only
      split
      · exact listed
      · cases parseFinalBlockId r.resp with
        | none => exact listed
        | some c => exact kept _ c listed
    unfold Repair.left
    rw [peerRow_eq]
    dsimp only
    cases deliveredBlock r.resp with
    | none => exact adopted
    | some block => exact kept _ _ adopted
  · rw [bare.blocks b (fun held => named (.inl held)) fun listed => named (.inr listed)]

theorem statuses_repaired_iff {block : StoredBlock} (delivered : deliveredBlock r.resp = some block)
    (id : OperationId) :
    finalStatusOf (step r.db r.event) id = finalStatusOf (step bare.db r.event) id ↔
      finalStatusOf r.db id = finalStatusOf bare.db id ∨
        finalStatusOf r.db id = shippedStatus r.resp id := by
  have own := r.finalStatusOf_step delivered id
  have other : finalStatusOf (step bare.db r.event) id =
      (finalStatusOf bare.db id).or (shippedStatus r.resp id) :=
    bare.repair.finalStatusOf_step delivered id
  have kept := bare.statuses id
  rw [own, other]
  cases held : finalStatusOf bare.db id with
  | some status =>
      rw [kept status held]
      simp
  | none => cases finalStatusOf r.db id <;> simp [eq_comm]

/-- **When the repaired slot is as if the old exec output and transfers had never been applied.** -/
theorem repaired_alike_iff :
    SameRepair r (step r.db r.event) (step bare.db r.event) ↔ LeavesNothing r bare := by
  have events : SameAt eventFiling (filedEvents (step r.db r.event))
      (filedEvents (step bare.db r.event)) s ↔ ∀ j k, Stale eventFiling (filedEvents r.db) s j k →
        ∃ ev ∈ r.events, k ∈ eventFiling.keys j ev := by
    have move : eventMove bare.db r.event = ⟨some s, r.events⟩ := bare.repair.eventMove_event
    rw [filedEvents_step, filedEvents_step, r.eventMove_event, move]
    exact sameAt_cleared_iff bare.events rfl
  have transfers : SameAt transferFiling (filedTransfers (step r.db r.event))
      (filedTransfers (step bare.db r.event)) s ↔
        ∀ j k, Stale transferFiling (filedTransfers r.db) s j k →
          ∃ t ∈ r.transfers, k ∈ transferFiling.keys j t := by
    have move : transferMove bare.db r.event = ⟨some s, r.transfers⟩ := bare.repair.transferMove_event
    rw [filedTransfers_step, filedTransfers_step, r.transferMove_event, move]
    exact sameAt_cleared_iff bare.transfers rfl
  constructor
  · intro same
    refine ⟨fun block delivered id member => ?_, events.mp same.events, transfers.mp same.transfers⟩
    exact (statuses_repaired_iff bare delivered id).mp (same.statuses block delivered id member)
  · intro nothing
    refine ⟨row_repaired bare, events.mpr nothing.events, transfers.mpr nothing.transfers,
      blocks_repaired bare, fun block delivered id member => ?_⟩
    exact (statuses_repaired_iff bare delivered id).mpr (nothing.statuses block delivered id member)

end Repaired

/-! ## Stores that a frame of the node completes -/

/-- First final wins. -/
theorem finalStatusOf_applyExecutedOps {db : Db} {id : OperationId} {status : ExecStatus}
    (held : finalStatusOf db id = some status) (exec : ExecutionOutput) :
    finalStatusOf (applyExecutedOpsChanges .final db exec) id = some status := by
  have one : ∀ (db : Db) (entry : ExecutedOpsChangeEntry), finalStatusOf db id = some status →
      finalStatusOf (applyExecutedOp .final db entry) id = some status := by
    intro db entry held
    unfold applyExecutedOp
    cases (OperationId.parse entry.operationId).toOption with
    | none => exact held
    | some op =>
        dsimp only
        cases execStatusOf (entry.status.getD 0) with
        | none => exact held
        | some given =>
            cases found : db.readOp op with
            | none => exact held
            | some row =>
                dsimp only
                split
                · next unset =>
                    have own : row.id = op := Db.id_of_readOp found
                    have other : op ≠ id := by
                      rintro rfl
                      rw [finalStatusOf, found, Option.bind_some] at held
                      simp [held] at unset
                    rw [finalStatusOf, Db.readOp_writeOp, if_neg fun same => other (own.symm.trans same)]
                    exact held
                · exact held
  unfold applyExecutedOpsChanges
  cases exec.stateChanges with
  | none => exact held
  | some sc =>
      dsimp only
      induction sc.executedOpsChanges generalizing db with
      | nil => exact held
      | cons entry entries ih => exact ih (one db entry held)

/-- A FINAL frame of the node that completes a settled slot. -/
structure Completing (s : Slot) where
  db : Db
  row : SlotState
  out : SlotExecutionOutput
  exec : ExecutionOutput
  nowMs : Int
  reads : readFrame out = some (s, .final, exec)
  found : db.readSlot s = some row
  settled : row.status = .final
  completes : Completes row .final exec
  noTransfers : row.completeness.transfersStored = false
  events : Without eventFiling (filedEvents db) s
  transfers : Without transferFiling (filedTransfers db) s

namespace Completing

variable [DenunciationDigest] {s : Slot} (c : Completing s)

def after : Db := step c.db ⟨.exec c.out, c.nowMs⟩

omit [DenunciationDigest] in
theorem rowAt_db : rowAt c.db s c.nowMs = c.row := by rw [rowAt, c.found, Option.getD_some]

theorem readSlot_after (t : Slot) : c.after.readSlot t =
    if s = t then some (readBackSlotState (completedRow c.row c.exec c.nowMs))
    else c.db.readSlot t := by
  have moved : rowMove c.db ⟨.exec c.out, c.nowMs⟩ =
      some ⟨completedRow c.row c.exec c.nowMs, false⟩ := by
    simp [rowMove, c.reads, c.rowAt_db, frameMove, c.settled, c.completes]
  have own : c.row.slot = s := Db.slot_of_readSlot c.found
  have here : (completedRow c.row c.exec c.nowMs).slot = s := own
  rw [after, RowMoves.readSlot_step, moved]
  dsimp only
  rw [here]
  refine if_congr Iff.rfl rfl (if_neg fun stubs => ?_)
  exact Bool.false_ne_true stubs.1

theorem readBlock_after (b : BlockId) : c.after.readBlock b =
    (c.db.readBlock b).map (settledTo (statusBy c.row.finalBlockId c.row.candidateBlockIds b)) := by
  have move : blockMove c.db ⟨.exec c.out, c.nowMs⟩ =
      { settle := some (c.row.finalBlockId, c.row.candidateBlockIds) } := by
    simp [blockMove, c.reads, c.rowAt_db, frameBlockMove, c.settled, c.completes]
  rw [after, readBlock_step, move]
  simp [BlockMove.rowOf]

/-- The arbiter sees no difference. -/
theorem sameChain : SameChain c.after c.db where
  rows t := by
    rw [c.readSlot_after]
    by_cases here : s = t
    · subst here
      rw [if_pos rfl, c.found]
      rfl
    · rw [if_neg here]
  bodies b := by
    rw [c.readBlock_after, Option.map_map]
    congr 1
    funext block
    cases statusBy c.row.finalBlockId c.row.candidateBlockIds b <;> rfl

theorem finalStatusOf_after (id : OperationId) :
    finalStatusOf c.after id = finalStatusOf (applyExecutedOpsChanges .final c.db c.exec) id := by
  have ops : contents c.after .ops = contents (applyExecutedOpsChanges .final c.db c.exec) .ops := by
    change contents (handleExec c.db c.out c.nowMs).db .ops = _
    rw [handleExec_db, c.reads]
    dsimp only
    rw [c.rowAt_db, if_pos c.settled, confirmFrame_eq, if_pos c.completes,
      completeFinalExecFromNode_eq, contents_runAll]
    rfl
  rw [finalStatusOf, sameReadOp ops]
  rfl

/-- **The store before the frame is the later one without the exec output.** -/
def bare (r : Repair s) (same : r.db = c.after) : Bare r where
  db := c.db
  row := c.row
  found := c.found
  same := by
    have row := r.found
    rw [same, c.readSlot_after, if_pos rfl] at row
    rw [← Option.some.inj row]
    rfl
  noExec := c.completes.2.2.2
  noTransfers := c.noTransfers
  elsewhere t other := by
    rw [same, c.readSlot_after, if_neg fun here => other here.symm]
  bodies b := by
    rw [same, c.readBlock_after, Option.map_map]
    congr 1
    funext block
    rw [Function.comp_apply, settledTo_settledTo]
    rfl
  blocks b other unlisted := by
    have row := r.found
    rw [same, c.readSlot_after, if_pos rfl] at row
    rw [← Option.some.inj row] at other unlisted
    have untouched : statusBy c.row.finalBlockId c.row.candidateBlockIds b = none := by
      unfold statusBy
      exact (if_neg other).trans (if_neg unlisted)
    rw [same, c.readBlock_after, untouched, settledTo_none, Option.map_id_fun, id_eq]
  statuses id status held := by
    rw [same, c.finalStatusOf_after]
    exact finalStatusOf_applyExecutedOps held c.exec
  events := c.events
  transfers := c.transfers

end Completing

/-! ## An operation that both forks executed -/

section Forks

/-- An answer with its operations. -/
def answerWith (s : Slot) (v : Verdict) (body : StoredBlock) (ops : List StoredOperation) :
    FinalSlotResponse :=
  { answerOf s v (some body) with operations := ops.map operationToPeerPb }

theorem shippedBlock_answerWith (s : Slot) (v : Verdict) (body : StoredBlock)
    (ops : List StoredOperation) : shippedBlock (answerWith s v body ops) = some body :=
  shippedBlock_answerOf s v (some body)

theorem deliveredBlock_answerWith (s : Slot) (b : BlockId) (body : StoredBlock)
    (ops : List StoredOperation) : deliveredBlock (answerWith s (.block b) body ops) = some body :=
  shippedBlock_answerWith s (.block b) body ops

theorem slotOf_answerWith (s : Slot) (v : Verdict) (body : StoredBlock) (ops : List StoredOperation) :
    slotOf (answerWith s v body ops) = some s := slotOf_answerOf s v (some body)

theorem ofPeer_answerWith (s : Slot) (v : Verdict) (body : StoredBlock) (ops : List StoredOperation) :
    Verdict.ofPeer (answerWith s v body ops) (parseFinalBlockId (answerWith s v body ops)) = some v :=
  ofPeer_answerOf s v (some body)

theorem shippedStatus_answerWith (s : Slot) (v : Verdict) (body : StoredBlock) (op : StoredOperation) :
    shippedStatus (answerWith s v body [op]) op.id = op.finalExecStatus := by
  simp only [shippedStatus, answerWith, List.map_cons, List.map_nil, List.findSome?_cons,
    operationFromPeerPb_toPeerPb, Except.toOption, Option.bind_some, if_pos, List.findSome?_nil]
  cases op.finalExecStatus <;> rfl

/-- The node's FINAL output for a block that executed one operation. -/
def executedOutput (s : Slot) (b : BlockId) (op : OperationId) (status : Int) : ExecutionOutput where
  slot := some ⟨s.period, s.thread.toUInt32⟩
  blockId := some b.text
  stateChanges := some { executedOpsChanges := [{ operationId := op.text, status := some status }] }

theorem completes_executedOutput (s t : Slot) (b : BlockId) (op : OperationId) (status : Int) :
    Completes (settledRow s (.block b)) .final (executedOutput t b op status) := by
  refine ⟨rfl, rfl, ?_, rfl⟩
  simp [sameVerdict, settledRow, SlotState.fresh, executedOutput, frameBlock, BlockId.parse,
    Except.toOption]

theorem finalStatusOf_executedOutput {db : Db} {op : StoredOperation} (s : Slot) (b : BlockId)
    (found : db.readOp op.id = some op) (unset : op.finalExecStatus = none) :
    finalStatusOf (applyExecutedOpsChanges .final db (executedOutput s b op.id 2)) op.id =
      some .failed := by
  simp [applyExecutedOpsChanges, executedOutput, applyExecutedOp, OperationId.parse, Except.toOption,
    execStatusOf, found, unset, finalStatusOf, Db.readOp_writeOp]

end Forks

end Writers

/-! ## The dead fork's status -/

section Closed

attribute [local instance] Bs58Check.doubleSha noDenunciations

/-- An operation that blocks 1 and 2 of slot (10, 0) both contain. -/
def sharedOp : StoredOperation where
  id := ⟨List.replicate idKeyLen 9, by simp⟩
  creator := ⟨List.replicate addrKeyLen 0, Address.width_zeros⟩
  target := none
  kind := .transaction
  expirePeriod := 20
  feeNmas := 0
  thread := 0
  inclusions := []
  candidateExecStatus := none
  finalExecStatus := none
  details := {}
  signature := ""
  contentCreatorPubKey := ""
  serializedSize := 0
  rawSignedOp := []
  firstSeenTsMs := 0

/-- Slot (10, 0) is settled with block 1, slot (11, 0) with block 3 on top of block 2. -/
def forkedStore : Db :=
  ((((Db.empty.writeSlot (settledRow ⟨10, 0⟩ (.block (blockNo 1)))).writeSlot
    (settledRow ⟨11, 0⟩ (.block (blockNo 3)))).writeBlock
      (bareBlock (blockNo 3) ⟨11, 0⟩ [blockNo 2])).writeOp sharedOp)

/-- The node's output for block 1, in which the operation fails, completes the slot. -/
def forkCompleted : Completing ⟨10, 0⟩ where
  db := forkedStore
  row := settledRow ⟨10, 0⟩ (.block (blockNo 1))
  out := { status := 2, executionOutput := some (executedOutput ⟨10, 0⟩ (blockNo 1) sharedOp.id 2) }
  exec := executedOutput ⟨10, 0⟩ (blockNo 1) sharedOp.id 2
  nowMs := 0
  reads := rfl
  found := by decide +kernel
  settled := rfl
  completes := completes_executedOutput _ _ _ _ _
  noTransfers := rfl
  events := without_of_empty rfl fun
    | 0 => rfl
    | 1 => rfl
    | 2 => rfl
  transfers := without_of_empty rfl fun
    | 0 => rfl
    | 1 => rfl
    | 2 => rfl

/-- The other fork's body, with the operation. -/
def otherBody : StoredBlock :=
  { bareBlock (blockNo 2) ⟨10, 0⟩ [] with operationIds := [sharedOp.id] }

/-- The answer for block 2, in which the operation succeeds. -/
def otherAnswer : FinalSlotResponse :=
  answerWith ⟨10, 0⟩ (.block (blockNo 2)) otherBody [{ sharedOp with finalExecStatus := some .ok }]

/-- Slot (11, 0) names block 2 as its parent, so the arbiter adopts the answer. -/
def forkRepair : Repair ⟨10, 0⟩ where
  db := forkCompleted.after
  row := readBackSlotState
    (completedRow forkCompleted.row forkCompleted.exec forkCompleted.nowMs)
  held := .block (blockNo 1)
  offered := .block (blockNo 2)
  resp := otherAnswer
  nowMs := 0
  found := by rw [forkCompleted.readSlot_after, if_pos rfl]
  settled := rfl
  holds := rfl
  about := slotOf_answerWith _ _ _ _
  known := rfl
  offers := ofPeer_answerWith _ _ _ _
  differ := by decide
  adopts := by
    rw [forkCompleted.sameChain.arbitrateVerdicts_eq, otherAnswer, shippedBlock_answerWith]
    decide +kernel

theorem db_forkRepair : forkRepair.db = forkCompleted.after := by simp only [forkRepair]

theorem db_forkCompleted : forkCompleted.db = forkedStore := by simp only [forkCompleted]

def forkBare : Bare forkRepair := forkCompleted.bare forkRepair db_forkRepair

theorem db_forkBare : forkBare.db = forkedStore := by
  simp only [forkBare, Completing.bare, db_forkCompleted]

/-- **The operation keeps the status that the dead fork gave it.** -/
theorem dead_fork_status_kept :
    ¬ SameRepair forkRepair (step forkRepair.db forkRepair.event)
      (step forkBare.db forkRepair.event) := by
  intro same
  have delivered : deliveredBlock forkRepair.resp = some otherBody :=
    deliveredBlock_answerWith _ _ _ _
  have stored : forkedStore.readOp sharedOp.id = some sharedOp := by decide +kernel
  have dead : finalStatusOf forkRepair.db sharedOp.id = some .failed := by
    rw [db_forkRepair, forkCompleted.finalStatusOf_after, db_forkCompleted]
    exact finalStatusOf_executedOutput _ _ stored rfl
  have before : finalStatusOf forkBare.db sharedOp.id = none := by
    rw [db_forkBare, finalStatusOf, stored]
    rfl
  have shipped : shippedStatus forkRepair.resp sharedOp.id = some .ok := shippedStatus_answerWith _ _ _ _
  have left := (statuses_repaired_iff forkBare delivered sharedOp.id).mp
    (same.statuses otherBody delivered sharedOp.id (List.mem_singleton.mpr rfl))
  rw [dead, before, shipped] at left
  rcases left with kept | given
  · cases kept
  · exact absurd given (by decide)

end Closed

end MassaIndexer.Laws.RepairResidue
