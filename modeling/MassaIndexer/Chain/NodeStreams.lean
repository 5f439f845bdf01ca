/-
# Chain.NodeStreams -- the node's handlers on the ledger

Each of the three stream handlers is one act of the ledger machine: a block that is taken enters its
body, a frame settles or completes its slot, a transfer list sets its flag. Everything else they
write lies outside the ledger.
-/
import MassaIndexer.Chain.View
import MassaIndexer.Chain.Machine
import MassaIndexer.Writer.RowMoves

namespace MassaIndexer.Chain

open MassaIndexer.Data.Ids MassaIndexer.Data.Model MassaIndexer.Data.Codec
open MassaIndexer.Store.ColumnFamilies MassaIndexer.Peer.Arbiter
open MassaIndexer.Writer.Shared MassaIndexer.Writer.NodeProto MassaIndexer.Writer.NodeDecode
open MassaIndexer.Writer.Handlers MassaIndexer.Writer.RowMoves

set_option autoImplicit false

theorem registerOf_readBack (row : SlotState) :
    registerOf (readBackSlotState row) =
      { registerOf row with trail := readBackTrail row.executionTrailHash } := rfl

@[simp] theorem registerOf_addCandidate (row : SlotState) (b : BlockId) :
    registerOf (row.addCandidate b) = registerOf row := by
  unfold SlotState.addCandidate
  split <;> rfl

/-- How a handler ends: the row in hand is written back with register `r`. -/
theorem ledgerOf_writeSlot_at {db : Db} (row : SlotState) {s : Slot} {r : Register}
    (here : row.slot = s) (left : registerOf (readBackSlotState row) = r) :
    ledgerOf (db.writeSlot row) = (ledgerOf db).setReg s r := by
  rw [ledgerOf_writeSlot, here, left]

/-- A register whose trail hash comes back from the store as it went in. -/
theorem registerOf_readBack_of {row : SlotState} {r : Register} (left : registerOf row = r)
    (normal : readBackTrail r.trail = r.trail) : registerOf (readBackSlotState row) = r := by
  subst left
  rw [registerOf_readBack]
  exact Register.ext rfl rfl rfl normal rfl

/-- The same for a row that is only touched. -/
theorem ledgerOf_touch {db : Db} (row : SlotState) {s : Slot} {r : Register} (here : row.slot = s)
    (left : registerOf row = r) (normal : readBackTrail r.trail = r.trail) (nowMs : Int) :
    ledgerOf (db.writeSlot { row with lastUpdatedTsMs := nowMs }) = (ledgerOf db).setReg s r :=
  ledgerOf_writeSlot_at { row with lastUpdatedTsMs := nowMs } here
    (registerOf_readBack_of left normal)

theorem registerOf_bodySeen (row : SlotState) (id : BlockId) (nowMs : Int) :
    registerOf (bodySeen row id nowMs) = (registerOf row).sawBody := by
  unfold bodySeen SlotState.addCandidate
  split <;> rfl

theorem trailsDiffer_iff (a b : Option String) : trailsDiffer a b = true ↔ Register.Clash a b := by
  cases a <;> cases b <;> simp [trailsDiffer, Register.Clash]

variable [Bs58Check]

/-! ## Blocks -/

@[simp] theorem ledgerOf_persistEndorsements (db : Db) (l : List SeenEndorsement) :
    ledgerOf (persistEndorsements db l).db = ledgerOf db := by
  induction l generalizing db with
  | nil => rfl
  | cons e es ih =>
      unfold persistEndorsements
      cases written : db.writeSeenEndorsement e with
      | error err => rfl
      | ok next => exact (ih next).trans (ledgerOf_writeSeenEndorsement written)

@[simp] theorem ledgerOf_ingestOperation (db : Db) (head : BlockHead) (nowMs : Int)
    (filled : FilledOperation) : ledgerOf (ingestOperation db head nowMs filled).db = ledgerOf db := by
  unfold ingestOperation
  split
  · rfl
  · split
    · rfl
    · split
      · rfl
      · split <;> rfl

@[simp] theorem ledgerOf_ingestOperations (db : Db) (head : BlockHead) (nowMs : Int)
    (ops : List FilledOperation) : ledgerOf (ingestOperations db head nowMs ops).db = ledgerOf db := by
  induction ops generalizing db with
  | nil => rfl
  | cons filled rest ih =>
      have first := ledgerOf_ingestOperation db head nowMs filled
      unfold ingestOperations
      rcases taken : ingestOperation db head nowMs filled with ⟨next, result⟩
      rw [taken] at first
      cases result with
      | error e => exact first
      | ok id => exact (ih next).trans first

theorem bodyOf_seenBlock (db : Db) (head : BlockHead) (endorsements : List StoredEndorsement)
    (operationIds : List OperationId) (initial : BlockStatus) (nowMs : Int) :
    (seenBlock db head endorsements operationIds initial nowMs).id = head.id ∧
      bodyOf (seenBlock db head endorsements operationIds initial nowMs) =
        ((ledgerOf db).body head.id).getD ⟨head.slot, head.parents⟩ := by
  cases found : db.readBlock head.id with
  | none => simp [seenBlock, ledgerOf, found, bodyOf]
  | some old => simp [seenBlock, ledgerOf, found, bodyOf, Db.id_of_readBlock found]

/-- Storing the row of a seen block enters its body. -/
theorem ledgerOf_writeBlock_seen (db : Db) (head : BlockHead)
    (endorsements : List StoredEndorsement) (operationIds : List OperationId)
    (initial : BlockStatus) (nowMs : Int) :
    ledgerOf (db.writeBlock (seenBlock db head endorsements operationIds initial nowMs)) =
      (ledgerOf db).addBody ⟨head.id, ⟨head.slot, head.parents⟩⟩ := by
  obtain ⟨sameId, body⟩ := bodyOf_seenBlock db head endorsements operationIds initial nowMs
  cases found : db.readBlock head.id with
  | none =>
      rw [ledgerOf_writeBlock_new (by rw [sameId, found]), shipmentOf, sameId, body]
      simp [ledgerOf, found]
  | some old =>
      have held : (ledgerOf db).holds head.id := by simp [holds_ledgerOf, found]
      have again : db.readBlock (seenBlock db head endorsements operationIds initial nowMs).id =
          some old := by rw [sameId, found]
      rw [ledgerOf_writeBlock_again _ again (by rw [body, body_ledgerOf found]; rfl),
        Ledger.addBody_held held]

section Blocks

variable [DenunciationDigest]

/-- A block that is turned away leaves the ledger alone, and one that is taken enters its body. -/
theorem ledgerOf_handleBlock (db : Db) (fb : FilledBlock) (nowMs : Int) :
    ((∃ e, (handleBlock db fb nowMs).result = .error e) ∧
      ledgerOf (handleBlock db fb nowMs).db = ledgerOf db) ∨
    ∃ head, decodeHead fb = .ok head ∧ (handleBlock db fb nowMs).result = .ok () ∧
      ledgerOf (handleBlock db fb nowMs).db =
        (ledgerOf db).step (.body ⟨head.id, ⟨head.slot, head.parents⟩⟩) := by
  unfold handleBlock
  cases decoded : decodeHead fb with
  | error e => exact .inl ⟨⟨e, rfl⟩, rfl⟩
  | ok head =>
      have endorsed := ledgerOf_persistEndorsements db (head.endorsements nowMs)
      dsimp only
      rcases taken : persistEndorsements db (head.endorsements nowMs) with ⟨db₁, ended⟩
      rw [taken] at endorsed
      cases ended with
      | error e => exact .inl ⟨⟨e, rfl⟩, endorsed⟩
      | ok _ =>
          dsimp only
          have denounced := ledgerOf_foldl
            (fun db d => ledgerOf_writeDenunciation db (denunciationEntry head.id nowMs d)) db₁
            head.denunciations
          generalize head.denunciations.foldl _ db₁ = db₂ at denounced ⊢
          have operated := ledgerOf_ingestOperations db₂ head nowMs fb.operations
          rcases taken : ingestOperations db₂ head nowMs fb.operations with ⟨db₃, ended⟩
          rw [taken] at operated
          have quiet : ledgerOf db₃ = ledgerOf db := operated.trans (denounced.trans endorsed)
          cases ended with
          | error e => exact .inl ⟨⟨e, rfl⟩, quiet⟩
          | ok operationIds =>
              dsimp only
              cases resolved : (head.endorsements nowMs).mapM resolveEndorsement with
              | error e => exact .inl ⟨⟨e, rfl⟩, quiet⟩
              | ok endorsements =>
                  refine .inr ⟨head, rfl, rfl, ?_⟩
                  have row : registerOf ((db₃.readSlot head.slot).getD
                      (SlotState.fresh head.slot nowMs)) = (ledgerOf db).reg head.slot := by
                    rw [registerOf_getD, quiet]
                  rw [ledgerOf_ensureParentStub, ledgerOf_writeSlot_at _
                      (r := ((ledgerOf db).reg head.slot).sawBody)
                      ((slot_bodySeen _ _ _).trans (slot_getD _ _ _))
                      (registerOf_readBack_of ((registerOf_bodySeen _ _ _).trans (by rw [row]))
                        (readBackTrail_reg db head.slot)),
                    ledgerOf_writeBlock_seen, quiet]
                  rfl

end Blocks

/-! ## Execution outputs -/

@[simp] theorem ledgerOf_writeFrameEvents (db : Db) (s : Slot) (status : SlotStatus)
    (exec : ExecutionOutput) : ledgerOf (writeFrameEvents db s status exec) = ledgerOf db :=
  (ledgerOf_foldl ledgerOf_writeScEvent _ _).trans (ledgerOf_clearScEventsForSlot db s)

@[simp] theorem ledgerOf_applyExecutedOpsChanges (frame : ExecFrame) (db : Db)
    (exec : ExecutionOutput) : ledgerOf (applyExecutedOpsChanges frame db exec) = ledgerOf db := by
  unfold applyExecutedOpsChanges
  split
  · rfl
  · refine ledgerOf_foldl (fun db entry => ?_) db _
    unfold applyExecutedOp
    split
    · rfl
    · split
      · split <;> split <;> rfl
      · rfl

@[simp] theorem ledgerOf_applyAsyncPoolChanges (db : Db) (s : Slot) (exec : ExecutionOutput)
    (nowMs : Int) : ledgerOf (applyAsyncPoolChanges db s exec nowMs) = ledgerOf db := by
  unfold applyAsyncPoolChanges
  split
  · rfl
  · refine ledgerOf_foldl (fun db entry => ?_) db _
    unfold applyAsyncPoolChange
    dsimp only
    split
    · rfl
    · split
      · rfl
      · split <;> rfl

theorem sameVerdict_iff (row : SlotState) (exec : ExecutionOutput) :
    sameVerdict row exec = true ↔
      (registerOf row).agreesWith exec.blockId.isNone (frameBlock exec) := by
  simp [sameVerdict, Register.agreesWith, registerOf]

/-- What a frame amounts to. -/
def execAct (out : SlotExecutionOutput) : Act :=
  match out.executionOutput with
  | none => .idle
  | some exec =>
      match exec.slot, execFrame out.status with
      | some s, some .candidate => .candidate (slotFromPb s) (frameTrail exec)
      | some s, some .final =>
          .final (slotFromPb s) exec.blockId.isNone (frameBlock exec) (frameTrail exec)
      | _, _ => .idle

theorem registerOf_frameRow_candidate {row : SlotState} (unsettled : row.status ≠ .final)
    (exec : ExecutionOutput) (nowMs : Int) :
    registerOf (readBackSlotState (frameRow row .candidate exec nowMs)) =
      (registerOf row).sawCandidate (frameTrail exec) :=
  (if_neg unsettled).symm

theorem registerOf_frameRow_final {row : SlotState} (unsettled : row.status ≠ .final)
    (exec : ExecutionOutput) (nowMs : Int) :
    registerOf (readBackSlotState (frameRow row .final exec nowMs)) =
      (registerOf row).sawFinal exec.blockId.isNone (frameBlock exec) (frameTrail exec) :=
  (if_neg unsettled).symm

theorem ledgerOf_recordFrame_candidate {db : Db} {s : Slot} {row : SlotState} (here : row.slot = s)
    (held : registerOf row = (ledgerOf db).reg s) (unsettled : row.status ≠ .final)
    (exec : ExecutionOutput) (nowMs : Int) :
    ledgerOf (recordFrame db s row .candidate exec nowMs) =
      (ledgerOf db).step (.candidate s (frameTrail exec)) := by
  rw [recordFrame, ledgerOf_writeSlot_at _ ((slot_frameRow _ _ _ _).trans here)
    ((registerOf_frameRow_candidate unsettled exec nowMs).trans (by rw [held]))]
  simp [Ledger.step]

theorem ledgerOf_recordFrame_final {db : Db} {s : Slot} {row : SlotState} (here : row.slot = s)
    (held : registerOf row = (ledgerOf db).reg s) (unsettled : row.status ≠ .final)
    (exec : ExecutionOutput) (nowMs : Int) :
    ledgerOf (recordFrame db s row .final exec nowMs) =
      (ledgerOf db).step
        (.final s exec.blockId.isNone (frameBlock exec) (frameTrail exec)) := by
  have open_ : ((ledgerOf db).reg s).status ≠ .final := by rw [← held]; exact unsettled
  rw [recordFrame, ledgerOf_ensureParentStub,
    ledgerOf_writeSlot_at _ ((slot_frameRow _ _ _ _).trans here)
      ((registerOf_frameRow_final unsettled exec nowMs).trans (by rw [held]))]
  simp [Ledger.step, open_]

theorem ledgerOf_confirmFrame {db : Db} {s : Slot} {row : SlotState} (here : row.slot = s)
    (held : registerOf row = (ledgerOf db).reg s) (settled : row.status = .final)
    (exec : ExecutionOutput) (nowMs : Int) :
    ledgerOf (confirmFrame db row .final exec nowMs) =
      (ledgerOf db).step
        (.final s exec.blockId.isNone (frameBlock exec) (frameTrail exec)) := by
  have final : ((ledgerOf db).reg s).status = .final := by rw [← held]; exact settled
  have agrees : (ExecFrame.final = .final ∧
      trailsDiffer row.executionTrailHash (frameTrail exec) = false ∧ sameVerdict row exec = true ∧
        row.completeness.execOutputFinal = false) ↔
      ¬ Register.Clash ((ledgerOf db).reg s).trail (frameTrail exec) ∧
        ((ledgerOf db).reg s).agreesWith exec.blockId.isNone (frameBlock exec) ∧
          ((ledgerOf db).reg s).completeness.execOutputFinal = false := by
    rw [← trailsDiffer_iff, ← held, sameVerdict_iff]
    simp [registerOf]
  simp only [Ledger.step, if_pos final, Register.sawFinal, ← agrees, confirmFrame]
  split
  · rw [completeFinalExecFromNode, ledgerOf_writeSlot_at (completedRow row exec nowMs) here rfl]
    simp [← held]
    rfl
  · rw [Ledger.setReg_self]

/-- A frame is the act it amounts to. -/
theorem ledgerOf_handleExec (db : Db) (out : SlotExecutionOutput) (nowMs : Int) :
    ledgerOf (handleExec db out nowMs).db = (ledgerOf db).step (execAct out) := by
  unfold handleExec execAct
  cases out.executionOutput with
  | none => rfl
  | some exec =>
      dsimp only
      cases exec.slot with
      | none => rfl
      | some slotPb =>
          dsimp only
          cases execFrame out.status with
          | none => rfl
          | some frame =>
              have here := slot_getD db (slotFromPb slotPb) nowMs
              have held := registerOf_getD db (slotFromPb slotPb) nowMs
              dsimp only
              generalize (db.readSlot (slotFromPb slotPb)).getD _ = row at here held ⊢
              by_cases settled : row.status = .final
              · rw [if_pos settled]
                cases frame with
                | final => exact ledgerOf_confirmFrame here held settled exec nowMs
                | candidate =>
                    have final : ((ledgerOf db).reg (slotFromPb slotPb)).status = .final := by
                      rw [← held]; exact settled
                    simp [confirmFrame, Ledger.step, Register.sawCandidate, final,
                      Ledger.setReg_self]
              · rw [if_neg settled]
                cases frame with
                | final => exact ledgerOf_recordFrame_final here held settled exec nowMs
                | candidate => exact ledgerOf_recordFrame_candidate here held settled exec nowMs

/-! ## Transfers -/

def transfersAct (resp : NewTransfersInfoServerResponse) : Act :=
  match resp.slot with
  | none => .idle
  | some s => .transfers (slotFromPb s)

omit [Bs58Check] in
theorem ledgerOf_settleTransfers (db : Db) (s : Slot) (nowMs : Int) :
    ledgerOf (settleTransfers db s nowMs) = (ledgerOf db).step (.transfers s) := by
  unfold settleTransfers
  simp only [Ledger.step]
  have normal := readBackTrail_reg db s
  cases found : db.readSlot s with
  | none =>
      dsimp only
      have blank : (ledgerOf db).reg s = .blank := by simp [ledgerOf, found]
      rw [blank, ledgerOf_writeSlot_at _ (s := s) (r := Register.blank.sawTransfers) rfl rfl]
  | some row =>
      have held := registerOf_of_readSlot found
      dsimp only
      split
      · next flagged =>
          have same : ((ledgerOf db).reg s).sawTransfers = (ledgerOf db).reg s := by
            rw [← held]
            exact Register.ext rfl rfl rfl rfl (by simp [Register.sawTransfers, registerOf, ← flagged])
          rw [same, Ledger.setReg_self]
      · have here := Db.slot_of_readSlot found
        exact ledgerOf_writeSlot_at _ here (registerOf_readBack_of (by rw [← held]; rfl) normal)

theorem ledgerOf_handleTransfers (db : Db) (resp : NewTransfersInfoServerResponse) (nowMs : Int) :
    ledgerOf (handleTransfers db resp nowMs).db = (ledgerOf db).step (transfersAct resp) := by
  unfold handleTransfers transfersAct
  cases resp.slot with
  | none => rfl
  | some slotPb =>
      dsimp only
      rw [ledgerOf_settleTransfers, ledgerOf_reconcileDeferredFromTransfers,
        ledgerOf_reconcileAsyncFromTransfers, ledgerOf_foldl ledgerOf_writeTransfer,
        ledgerOf_clearTransfersForSlot]

end MassaIndexer.Chain
