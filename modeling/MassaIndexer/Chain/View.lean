/-
# Chain.View -- the ledger of a store

`ledgerOf` reads a ledger off the store. What a write does to it is said once for each operation, in
rewriting form; most writes leave it alone. `arbitrateVerdicts_eq_adoptPeer_iff` is the link to the
arbiter: it adopts the peer's verdict exactly when the chain of the ledger speaks for it.
-/
import MassaIndexer.Chain.Linkage
import MassaIndexer.Writer.Handlers
import MassaIndexer.Peer.Patch
import MassaIndexer.Theory.Runs

namespace MassaIndexer.Chain

open MassaIndexer.Data.Ids MassaIndexer.Data.Model MassaIndexer.Data.Codec
open MassaIndexer.Store.ColumnFamilies MassaIndexer.Peer.Arbiter
open MassaIndexer.Theory.LinkWalk MassaIndexer.Theory.Runs
open MassaIndexer.Writer.Shared

set_option autoImplicit false

def registerOf (row : SlotState) : Register where
  status := row.status
  isMiss := row.isMiss
  finalBlockId := row.finalBlockId
  trail := row.executionTrailHash
  completeness := row.completeness

def bodyOf (b : StoredBlock) : Body := ⟨b.slot, b.parents⟩

def shipmentOf (b : StoredBlock) : Shipment := ⟨b.id, bodyOf b⟩

def ledgerOf (db : Db) : Ledger where
  reg s := ((db.readSlot s).map registerOf).getD .blank
  body b := (db.readBlock b).map bodyOf
  head := db.lastFinalSlot

/-! ## Reading -/

theorem ledgerOf_empty : ledgerOf Db.empty = Ledger.blank := by
  refine Ledger.ext (funext fun s => ?_) (funext fun b => ?_) rfl
  · simp [ledgerOf, Ledger.blank, Db.empty, Db.readSlot]
  · simp [ledgerOf, Ledger.blank, Db.empty, Db.readBlock]

@[simp] theorem registerOf_fresh (s : Slot) (nowMs : Int) :
    registerOf (SlotState.fresh s nowMs) = .blank := rfl

theorem registerOf_of_readSlot {db : Db} {s : Slot} {row : SlotState}
    (found : db.readSlot s = some row) : registerOf row = (ledgerOf db).reg s := by
  simp [ledgerOf, found]

theorem exists_row_of_final {db : Db} {s : Slot} (settled : ((ledgerOf db).reg s).status = .final) :
    ∃ row, db.readSlot s = some row ∧ registerOf row = (ledgerOf db).reg s := by
  cases found : db.readSlot s with
  | none => simp [ledgerOf, found, Register.blank] at settled
  | some row => exact ⟨row, rfl, registerOf_of_readSlot found⟩

/-- A settled row with its verdict, as the ledger sees it. -/
theorem exists_row_with_verdict_iff {db : Db} {s : Slot} {v : Verdict} :
    (∃ row, db.readSlot s = some row ∧ row.status = .final ∧ Verdict.ofLocal row = some v) ↔
      ((ledgerOf db).reg s).status = .final ∧ ((ledgerOf db).reg s).verdict = some v := by
  constructor
  · rintro ⟨row, found, final, verdict⟩
    rw [← registerOf_of_readSlot found]
    exact ⟨final, verdict⟩
  · rintro ⟨final, verdict⟩
    obtain ⟨row, found, here⟩ := exists_row_of_final final
    rw [← here] at final verdict
    exact ⟨row, found, final, verdict⟩

/-- The row every handler starts from. -/
theorem registerOf_getD (db : Db) (s : Slot) (nowMs : Int) :
    registerOf ((db.readSlot s).getD (SlotState.fresh s nowMs)) = (ledgerOf db).reg s := by
  cases found : db.readSlot s with
  | none => simp [ledgerOf, found]
  | some row => simp [ledgerOf, found]

theorem slot_getD (db : Db) (s : Slot) (nowMs : Int) :
    ((db.readSlot s).getD (SlotState.fresh s nowMs)).slot = s := by
  cases found : db.readSlot s with
  | none => rfl
  | some row => exact Db.slot_of_readSlot found

/-- The trail hash of a register is never the empty text. -/
theorem readBackTrail_reg (db : Db) (s : Slot) :
    readBackTrail ((ledgerOf db).reg s).trail = ((ledgerOf db).reg s).trail := by
  cases found : db.readSlot s with
  | none => simp [ledgerOf, found, Register.blank, readBackTrail]
  | some row =>
      simp only [ledgerOf, found, Option.map_some, Option.getD_some, registerOf]
      exact Db.trail_of_readSlot found

theorem body_ledgerOf {db : Db} {b : BlockId} {block : StoredBlock}
    (found : db.readBlock b = some block) : (ledgerOf db).body b = some (bodyOf block) := by
  simp [ledgerOf, found]

theorem holds_ledgerOf (db : Db) (b : BlockId) :
    (ledgerOf db).holds b ↔ (db.readBlock b).isSome := by
  simp [Ledger.holds, ledgerOf]

/-! ## Writing -/

theorem ledgerOf_writeSlot (db : Db) (row : SlotState) :
    ledgerOf (db.writeSlot row) =
      (ledgerOf db).setReg row.slot (registerOf (readBackSlotState row)) := by
  refine Ledger.ext ?_ rfl rfl
  funext s
  rw [Ledger.reg_setReg]
  simp only [ledgerOf, Db.readSlot_writeSlot, @eq_comm _ s]
  split <;> rfl

/-- A block written over a row with the same body. -/
theorem ledgerOf_writeBlock_again {db : Db} {old : StoredBlock} (new : StoredBlock)
    (found : db.readBlock new.id = some old) (same : bodyOf new = bodyOf old) :
    ledgerOf (db.writeBlock new) = ledgerOf db := by
  have body : (ledgerOf (db.writeBlock new)).body = (ledgerOf db).body := by
    funext b
    simp only [ledgerOf, Db.readBlock_writeBlock]
    split
    · next here => simp [← here, found, same]
    · rfl
  exact Ledger.ext rfl body rfl

theorem ledgerOf_writeBlock_new {db : Db} {block : StoredBlock}
    (absent : db.readBlock block.id = none) :
    ledgerOf (db.writeBlock block) = (ledgerOf db).addBody (shipmentOf block) := by
  have body : (ledgerOf (db.writeBlock block)).body =
      ((ledgerOf db).addBody (shipmentOf block)).body := by
    funext b
    simp only [ledgerOf, Db.readBlock_writeBlock, Ledger.body_addBody, shipmentOf, @eq_comm _ b]
    split
    · next here => simp [← here, absent]
    · rfl
  exact Ledger.ext rfl body rfl

/-- A body we hold already. -/
theorem Ledger.addBody_held {L : Ledger} {s : Shipment} (held : L.holds s.id) : L.addBody s = L := by
  obtain ⟨body, found⟩ := Option.isSome_iff_exists.mp held
  refine Ledger.ext rfl ?_ rfl
  funext b
  rw [Ledger.body_addBody]
  split
  · next here => simp [here, found]
  · rfl

@[simp] theorem ledgerOf_updateLastFinalSlot (db : Db) (s : Slot) :
    ledgerOf (db.updateLastFinalSlot s) = (ledgerOf db).moveHead s := rfl

@[simp] theorem ledgerOf_updateLastCandidateSlot (db : Db) (s : Slot) :
    ledgerOf (db.updateLastCandidateSlot s) = ledgerOf db := rfl

@[simp] theorem ledgerOf_writeOp (db : Db) (op : StoredOperation) :
    ledgerOf (db.writeOp op) = ledgerOf db := rfl

@[simp] theorem ledgerOf_writeScEvent (db : Db) (ev : StoredScEvent) :
    ledgerOf (db.writeScEvent ev) = ledgerOf db := rfl

@[simp] theorem ledgerOf_clearScEventsForSlot (db : Db) (s : Slot) :
    ledgerOf (db.clearScEventsForSlot s) = ledgerOf db := rfl

@[simp] theorem ledgerOf_writeAsyncMsg (db : Db) (m : StoredAsyncMsg) :
    ledgerOf (db.writeAsyncMsg m) = ledgerOf db := rfl

@[simp] theorem ledgerOf_writeDeferredCall (db : Db) (d : StoredDeferredCall) :
    ledgerOf (db.writeDeferredCall d) = ledgerOf db := rfl

@[simp] theorem ledgerOf_writeEndorsement (db : Db) (e : StoredEndorsement) :
    ledgerOf (db.writeEndorsement e) = ledgerOf db := by
  unfold Db.writeEndorsement
  split <;> rfl

@[simp] theorem ledgerOf_writeDenunciation (db : Db) (d : StoredDenunciationEntry) :
    ledgerOf (db.writeDenunciation d) = ledgerOf db := by
  unfold Db.writeDenunciation
  split
  · split <;> rfl
  · rfl

/-- A fold of writes that leave the ledger alone. -/
theorem ledgerOf_foldl {α : Type} {write : Db → α → Db} (quiet : ∀ db a, ledgerOf (write db a) = ledgerOf db)
    (db : Db) (l : List α) : ledgerOf (l.foldl write db) = ledgerOf db :=
  foldl_view ledgerOf (fun db a _ => quiet db a) db

@[simp] theorem ledgerOf_settleBlock (db : Db) (b : BlockId) (status : BlockStatus) :
    ledgerOf (settleBlock db b status) = ledgerOf db := by
  unfold settleBlock
  split
  · rfl
  · next block found =>
      split
      · have held : db.readBlock block.id = some block := by rw [Db.id_of_readBlock found, found]
        exact ledgerOf_writeBlock_again { block with status := status } held rfl
      · rfl

@[simp] theorem ledgerOf_applyFinalityToBlocks (db : Db) (final : Option BlockId)
    (candidates : List BlockId) :
    ledgerOf (applyFinalityToBlocks db final candidates) = ledgerOf db := by
  unfold applyFinalityToBlocks
  have settled := ledgerOf_foldl (fun db bid => ledgerOf_settleBlock db bid
    (if some bid = final then .final else .discarded)) db candidates
  split
  · exact settled
  · split
    · exact settled
    · rw [ledgerOf_settleBlock, settled]

/-- A stub cannot be told from an absent row. -/
@[simp] theorem ledgerOf_ensureParentStub (db : Db) (s : Slot) (nowMs : Int) :
    ledgerOf (ensureParentStub db s nowMs) = ledgerOf db := by
  unfold ensureParentStub
  split
  · rfl
  · dsimp only
    split
    · rfl
    · next absent =>
        rw [ledgerOf_writeSlot]
        refine Ledger.ext ?_ rfl rfl
        funext t
        rw [Ledger.reg_setReg]
        split
        · next here =>
            have none_ : db.readSlot t = none := by
              rw [here]
              exact Option.not_isSome_iff_eq_none.mp absent
            simp only [ledgerOf, none_, Option.map_none, Option.getD_none]
            rfl
        · rfl

section

variable [Bs58Check]

@[simp] theorem ledgerOf_writeTransfer (db : Db) (t : StoredTransfer) :
    ledgerOf (db.writeTransfer t) = ledgerOf db := rfl

@[simp] theorem ledgerOf_clearTransfersForSlot (db : Db) (s : Slot) :
    ledgerOf (db.clearTransfersForSlot s) = ledgerOf db := rfl

@[simp] theorem ledgerOf_reconcileAsyncFromTransfers (db : Db) (s : Slot)
    (rows : List StoredTransfer) (nowMs : Int) :
    ledgerOf (reconcileAsyncFromTransfers db s rows nowMs) = ledgerOf db := by
  refine ledgerOf_foldl (fun db r => ?_) db rows
  unfold reconcileAsyncRow
  split
  · rfl
  · dsimp only
    split <;> rfl

@[simp] theorem ledgerOf_reconcileDeferredFromTransfers (db : Db) (s : Slot)
    (rows : List StoredTransfer) (nowMs : Int) :
    ledgerOf (reconcileDeferredFromTransfers db s rows nowMs) = ledgerOf db := by
  refine ledgerOf_foldl (fun db r => ?_) db rows
  unfold reconcileDeferredRow
  split
  · rfl
  · dsimp only
    split <;> rfl

theorem ledgerOf_writeSeenEndorsement {db next : Db} {e : SeenEndorsement}
    (written : db.writeSeenEndorsement e = .ok next) : ledgerOf next = ledgerOf db := by
  unfold Db.writeSeenEndorsement at written
  cases parsed : EndorsementId.parse e.id with
  | error err => simp [parsed, bind, Except.bind] at written
  | ok id =>
      by_cases known : (db.readEndorsement id).isSome
      · obtain rfl : db = next := by
          simpa [parsed, known, bind, Except.bind, pure, Except.pure] using written
        rfl
      · cases resolved : resolveEndorsement e with
        | error err =>
            simp [parsed, known, resolved, bind, Except.bind] at written
        | ok row =>
            obtain rfl : db.writeEndorsement row = next := by
              simpa [parsed, known, resolved, bind, Except.bind, pure, Except.pure] using written
            exact ledgerOf_writeEndorsement db row

end

/-! ## The arbiter -/

theorem finalBlockAt_eq (db : Db) (s : Slot) : finalBlockAt db s = (ledgerOf db).finalAt s := by
  unfold finalBlockAt Ledger.finalAt
  cases found : db.readSlot s with
  | none => simp [ledgerOf, found, Register.blank]
  | some row =>
      simp only [ledgerOf, found, Option.bind_some, Option.map_some, Option.getD_some, registerOf]
      by_cases settled : row.status = .final ∧ row.isMiss = false
      · rw [if_neg (by simp [settled]), if_pos settled]
      · rw [if_pos (by simpa [or_iff_not_imp_left] using settled), if_neg settled]

theorem parentLink_eq (db : Db) (thread : UInt8) :
    parentLink db thread = (ledgerOf db).link thread := by
  funext b
  cases found : db.readBlock b <;> simp [parentLink, Ledger.link, ledgerOf, found, bodyOf]

theorem prevFinalBlock_eq (db : Db) (s : Slot) :
    prevFinalBlock db s = (ledgerOf db).prevFinal s := by
  simp only [prevFinalBlock, Ledger.prevFinal, finalBlockAt_eq]

theorem nextParentLink_eq (db : Db) (s : Slot) :
    nextParentLink db s = (ledgerOf db).nextLink s := by
  unfold nextParentLink Ledger.nextLink Ledger.nextHeld Ledger.ahead
  simp only [finalBlockAt_eq]
  induction aheadPeriods s.period with
  | nil => rfl
  | cons p ps ih =>
      rw [List.findSome?_cons, List.filterMap_cons]
      cases final : (ledgerOf db).finalAt ⟨p, s.thread⟩ with
      | none => simpa using ih
      | some b =>
          cases found : db.readBlock b with
          | none => simpa [found, ledgerOf] using ih
          | some block => simp [found, ledgerOf, Ledger.link, bodyOf]

theorem anchorWalk_eq (db : Db) (thread : UInt8) (prev : Option BlockId) (ps : List UInt64) :
    anchorWalk db thread prev ps =
      firstBreak ((ledgerOf db).link thread) prev
        (ps.filterMap fun p => (ledgerOf db).finalAt ⟨p, thread⟩) := by
  induction ps generalizing prev with
  | nil => rfl
  | cons p ps ih =>
      rw [anchorWalk, List.filterMap_cons, finalBlockAt_eq]
      cases final : (ledgerOf db).finalAt ⟨p, thread⟩ with
      | none => exact ih prev
      | some b =>
          simp only [firstBreak, parentLink_eq]
          cases named : (ledgerOf db).link thread b with
          | none => exact ih (some b)
          | some z =>
              by_cases same : some z = prev
              · simp [same, ih]
              · simp [same]

theorem deadForkAnchor_eq (db : Db) (s : Slot) (localV : Verdict) :
    deadForkAnchor db s localV = (ledgerOf db).anchor s localV := by
  cases localV <;>
    simp only [deadForkAnchor, Ledger.anchor, Ledger.standing, Ledger.ahead, anchorWalk_eq,
      prevFinalBlock_eq]

theorem deadParent_iff (db : Db) (q : BlockId) :
    deadParent db q = true ↔
      ∃ b, (ledgerOf db).body q = some b ∧ ((ledgerOf db).reg b.slot).settledAgainst q := by
  unfold deadParent
  cases found : db.readBlock q with
  | none => simp [ledgerOf, found]
  | some block =>
      rw [body_ledgerOf found]
      cases row : db.readSlot block.slot with
      | none =>
          simp [ledgerOf, row, bodyOf, Register.settledAgainst, Register.blank]
      | some state =>
          simp [ledgerOf, row, bodyOf, Register.settledAgainst, registerOf]

theorem blockHasDeadParent_iff (db : Db) (block : StoredBlock) :
    blockHasDeadParent db block = true ↔ (ledgerOf db).Dead (bodyOf block) := by
  simp only [blockHasDeadParent, List.any_eq_true, deadParent_iff, Ledger.Dead]
  rfl

theorem peerBlockDead_iff (db : Db) (peer : Verdict) (peerBlock : Option StoredBlock) :
    peerBlockDead db peer peerBlock = true ↔
      (ledgerOf db).DeadShipment peer (peerBlock.map shipmentOf) := by
  cases peer <;> cases peerBlock <;>
    simp [peerBlockDead, Ledger.DeadShipment, blockHasDeadParent_iff, shipmentOf]

theorem localBlockDead_iff (db : Db) (localV : Verdict) :
    localBlockDead db localV = true ↔ (ledgerOf db).DeadVerdict localV := by
  cases localV with
  | miss => simp [localBlockDead, Ledger.DeadVerdict]
  | block x =>
      cases found : db.readBlock x with
      | none => simp [localBlockDead, Ledger.DeadVerdict, ledgerOf, found]
      | some block =>
          simp [localBlockDead, Ledger.DeadVerdict, found, body_ledgerOf found, blockHasDeadParent_iff]

/-- Inside a dead fork a miss always wins, and a block wins when the anchor builds on it. -/
theorem arbitrateInDeadFork_iff (db : Db) (s : Slot) (localV peer : Verdict) (a : BlockId)
    (differ : localV ≠ peer) :
    arbitrateInDeadFork db s localV peer a = .adoptPeer ↔ (ledgerOf db).Rejoins s a peer := by
  cases peer with
  | miss =>
      cases localV with
      | miss => exact absurd rfl differ
      | block x => simp [arbitrateInDeadFork, Ledger.Rejoins]
  | block y =>
      have here : y = a → (ledgerOf db).Reaches s.thread a y := fun same =>
        same ▸ reaches_self 63 y
      have decided : (decide (y = a) || reachableViaParents db a y s.thread) = true ↔
          (ledgerOf db).Reaches s.thread a y := by
        rw [Bool.or_eq_true, decide_eq_true_eq, reachableViaParents, parentLink_eq]
        exact ⟨fun either => either.elim here id, Or.inr⟩
      change _ ↔ (ledgerOf db).Reaches s.thread a y
      rw [← decided]
      cases localV <;> simp only [arbitrateInDeadFork] <;> split <;> simp_all

/-- Both ways of asking the walk ahead, whatever it answers when it finds no break. -/
theorem anchored_iff (db : Db) (s : Slot) (localV peer : Verdict) (differ : localV ≠ peer)
    (otherwise : Arbitration) (keeps : otherwise ≠ .adoptPeer) :
    (match deadForkAnchor db s localV with
      | some a => arbitrateInDeadFork db s localV peer a
      | none => otherwise) = .adoptPeer ↔
      ∃ a, (ledgerOf db).anchor s localV = some a ∧ (ledgerOf db).Rejoins s a peer := by
  rw [deadForkAnchor_eq]
  cases (ledgerOf db).anchor s localV with
  | none => simp [keeps]
  | some a => simp only [arbitrateInDeadFork_iff db s localV peer a differ, Option.some.injEq,
      exists_eq_left']

/-- **The arbiter adopts the peer's verdict exactly when the ledger's chain speaks for it.** -/
theorem arbitrateVerdicts_eq_adoptPeer_iff (db : Db) (s : Slot) (localV peer : Verdict)
    (peerBlock : Option StoredBlock) :
    arbitrateVerdicts db s localV peer peerBlock = .adoptPeer ↔
      (ledgerOf db).Adopts s localV peer (peerBlock.map shipmentOf) := by
  unfold arbitrateVerdicts Ledger.Adopts
  by_cases differ : localV = peer
  · simp [differ]
  rw [if_neg differ, ← peerBlockDead_iff, ← localBlockDead_iff]
  by_cases peerDead : peerBlockDead db peer peerBlock = true
  · simp [peerDead]
  rw [if_neg peerDead]
  by_cases localDead : localBlockDead db localV = true
  · simp [differ, peerDead, localDead]
  rw [if_neg localDead]
  simp only [ne_eq, differ, peerDead, localDead, not_false_eq_true, true_and, false_or,
    nextParentLink_eq, Bool.false_eq_true]
  cases (ledgerOf db).nextLink s with
  | none => simp
  | some n =>
      simp only [Option.some.injEq, exists_eq_left']
      have kept := anchored_iff db s localV peer differ .keepLocal (by decide)
      have unsettled := anchored_iff db s localV peer differ .inconclusive (by decide)
      cases localV with
      | miss =>
          cases peer with
          | miss => exact absurd rfl differ
          | block y =>
              by_cases named : n = y
              · simp [immediateVerdict, Ledger.NextSpeaks, named]
              · simp only [immediateVerdict, Ledger.NextSpeaks, named, false_or]
                exact unsettled
      | block x =>
          cases peer with
          | miss =>
              simp only [immediateVerdict, Ledger.NextSpeaks, prevFinalBlock_eq]
              by_cases ours : n = x
              · rw [if_pos ours]
                simp only [ours, ne_eq, not_true_eq_false, false_and, false_or]
                exact kept
              · by_cases skips : (ledgerOf db).prevFinal s = some n
                · simp [ours, skips]
                · rw [if_neg ours, if_neg skips]
                  simp only [skips, and_false, false_or]
                  exact unsettled
          | block y =>
              simp only [immediateVerdict, Ledger.NextSpeaks]
              by_cases named : n = y
              · simp [named]
              · simp only [named, false_or]
                by_cases ours : n = x
                · rw [if_pos ours]
                  exact kept
                · rw [if_neg ours]
                  exact unsettled

end MassaIndexer.Chain
