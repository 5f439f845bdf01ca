/-
# Laws.Reconstruction -- a rebuilt slot has one row for each payment

`reconstructSlot` makes the rows of a slot from the operations it executed. The patch is exact
(`reconstruct_exact`): one row for each successful transaction of a non-zero amount to someone, in
executed order, numbered from 0, beside the verdict that is on disk and nothing else; and there is
no patch where the slot is not eligible or no operation pays.

To someone: an operation row may lack its recipient, as a peer can ship it so, and such a transaction
gets no row whatever its amount (`unaddressed_has_no_row`).
-/
import MassaIndexer.Laws.RepairAdditive

namespace MassaIndexer.Laws.Reconstruction

open MassaIndexer.Theory.KeyedTable
open MassaIndexer.Data.Ids MassaIndexer.Data.Model MassaIndexer.Data.Proto
open MassaIndexer.Data.RowCodec MassaIndexer.Data.Codec MassaIndexer.Store.ColumnFamilies
open MassaIndexer.Repair.Producers MassaIndexer.Repair.Numbering

set_option autoImplicit false

/-! ## What a patch is to hold -/

/-- A slot that may be rebuilt: settled on a block, and without the node's own list. -/
structure Eligible (row : SlotState) (blockId : BlockId) : Prop where
  settled : row.status = .final
  filled : row.isMiss = false
  unlisted : row.completeness.transfersStored = false
  verdict : row.finalBlockId = some blockId

/-- A successful transaction of a non-zero amount. -/
def movesAmount (op : StoredOperation) : Bool :=
  op.kind = .transaction && op.finalExecStatus = some .ok && op.details.amountNmas.any (· ≠ 0)

/-- The same, with someone to receive it. -/
def pays (op : StoredOperation) : Bool := movesAmount op && op.details.recipientAddress.isSome

/-- The executed operations that count, in executed order. -/
def executedThat (counts : StoredOperation → Bool) (db : Db) (row : SlotState) :
    List StoredOperation :=
  (row.executedOpIds.filterMap db.readOp).filter counts

section Exactness

variable [Bs58Check]

/-- The movement of `op`, as the row with the number `i`. -/
def movementRow (slot : Slot) (blockId : BlockId) (ts : Int) (op : StoredOperation) (i : Nat) :
    StoredTransfer where
  slot := slot
  indexInSlot := UInt32.ofNat i
  id := transactionTransferId op.id (UInt32.ofNat i)
  blockId := some blockId.text
  blockTimestampMs := ts
  fromAddr := some op.creator.text
  toAddr := op.details.recipientAddress
  value := .coins (op.details.amountNmas.getD 0)
  origin := .opTransactionCoins
  operationId := some op.id.text
  asyncMsgId := none
  deferredCallId := none
  denunciationIndex := none
  isFinal := true
  firstSeenTsMs := ts

/-- The local verdict and one row for each of `ops`; every other field at its default. -/
def verdictWith (cfg : ReconstructConfig) (slot : Slot) (blockId : BlockId)
    (ops : List StoredOperation) : FinalSlotResponse where
  period := slot.period
  thread := slot.thread.toUInt32
  finalKnown := true
  isMiss := false
  finalBlockId := blockId.text
  transfers := (ops.mapIdx fun i op =>
    movementRow slot blockId (slotTimestampMs cfg slot) op i).map transferToPeerPb

/-- The patch of a slot, if there is one, is its verdict with a row for each operation that
counts; there is one exactly when the slot is eligible and some operation counts. -/
def ExactFor (counts : StoredOperation → Bool) (db : Db) (cfg : ReconstructConfig) (slot : Slot) :
    Prop :=
  ∀ resp, reconstructSlot db cfg slot = some resp ↔
    ∃ row blockId, db.readSlot slot = some row ∧ Eligible row blockId ∧
      executedThat counts db row ≠ [] ∧
      resp = verdictWith cfg slot blockId (executedThat counts db row)

/-! ## The rows -/

omit [Bs58Check] in
theorem pays_eq (op : StoredOperation) :
    (movesCoins op && op.finalExecStatus = some .ok) = pays op := by
  simp only [pays, movesAmount, movesCoins]
  cases (decide (op.kind = .transaction)) <;> cases op.details.amountNmas.any (· ≠ 0) <;>
    cases op.details.recipientAddress.isSome <;> simp

theorem legacyOpToTransfer_of_pays {op : StoredOperation} (paying : pays op = true) (slot : Slot)
    (blockId : BlockId) (ts : Int) (i : Nat) :
    legacyOpToTransfer op slot blockId.text (UInt32.ofNat i) ts =
      some (movementRow slot blockId ts op i) := by
  simp only [pays, movesAmount, Bool.and_eq_true, decide_eq_true_eq] at paying
  obtain ⟨⟨⟨kind, -⟩, positive⟩, addressed⟩ := paying
  obtain ⟨amount, holds, nonzero⟩ : ∃ amount, op.details.amountNmas = some amount ∧
      decide (amount ≠ 0) = true := by
    simpa [Option.any_eq_true] using positive
  obtain ⟨recipient, present⟩ := Option.isSome_iff_exists.mp addressed
  have nonzero : amount ≠ 0 := of_decide_eq_true nonzero
  simp [legacyOpToTransfer, movementRow, kind, holds, present, nonzero]

theorem transactionRows_numberFrom (slot : Slot) (blockId : BlockId) (ts : Int)
    {ops : List StoredOperation} (paying : ∀ op ∈ ops, pays op = true) (k : Nat) :
    transactionRows slot blockId.text ts (numberFrom (UInt32.ofNat k) ops) =
      ops.mapIdx fun i op => movementRow slot blockId ts op (i + k) := by
  induction ops generalizing k with
  | nil => rfl
  | cons op ops ih =>
      have next : UInt32.ofNat k + 1 = UInt32.ofNat (k + 1) := by
        rw [UInt32.ofNat_add]
        rfl
      rw [numberFrom, transactionRows_cons, next,
        ih (fun op' later => paying op' (List.mem_cons_of_mem op later)),
        legacyOpToTransfer_of_pays (paying op List.mem_cons_self), List.mapIdx_cons, Nat.zero_add]
      simp only [Option.toList_some, List.singleton_append, Nat.add_assoc, Nat.add_comm k 1]

theorem reconstructed_eq (db : Db) (cfg : ReconstructConfig) (slot : Slot) (blockId : BlockId)
    (row : SlotState) :
    reconstructed db cfg slot blockId row.executedOpIds =
      (executedThat pays db row).mapIdx fun i op =>
        movementRow slot blockId (slotTimestampMs cfg slot) op i := by
  have counted : reconstructionNumbers db row.executedOpIds =
      numberFrom (UInt32.ofNat 0) (executedThat pays db row) := by
    simp only [reconstructionNumbers, executedThat, pays_eq]
    rfl
  rw [reconstructed, counted, transactionRows_numberFrom]
  · rfl
  · intro op member
    exact (List.mem_filter.mp member).2

theorem transfersPatch_reconstructed (db : Db) (cfg : ReconstructConfig) (slot : Slot)
    (blockId : BlockId) (row : SlotState) :
    transfersPatch slot blockId (reconstructed db cfg slot blockId row.executedOpIds) =
      verdictWith cfg slot blockId (executedThat pays db row) := by
  rw [reconstructed_eq, transfersPatch, verdictWith]

/-! ## The slots -/

omit [Bs58Check] in
theorem executedThat_ne_nil {counts : StoredOperation → Bool} {db : Db} {row : SlotState}
    (some : executedThat counts db row ≠ []) : row.executedOpIds ≠ [] := by
  intro none
  apply some
  rw [executedThat, none]
  rfl

omit [Bs58Check] in
theorem eligible_eq_some {row : SlotState} {blockId : BlockId} {opIds : List OperationId} :
    eligible row = some (blockId, opIds) ↔
      Eligible row blockId ∧ row.executedOpIds ≠ [] ∧ opIds = row.executedOpIds := by
  unfold eligible
  constructor
  · intro offers
    split at offers
    · exact absurd offers (by simp)
    · next may =>
        obtain ⟨settled, filled, unlisted, executed⟩ : row.status = .final ∧ row.isMiss = false ∧
            row.completeness.transfersStored = false ∧ row.executedOpIds ≠ [] := by
          simpa [not_or] using may
        obtain ⟨found, verdict, same⟩ := Option.map_eq_some_iff.mp offers
        obtain ⟨rfl, rfl⟩ := Prod.mk.inj same
        exact ⟨⟨settled, filled, unlisted, verdict⟩, executed, rfl⟩
  · rintro ⟨may, executed, rfl⟩
    rw [if_neg (by simp [may.settled, may.filled, may.unlisted, executed]), may.verdict]
    rfl

/-- For every database and slot the patch is exact in the operations that pay. -/
theorem reconstruct_exact (db : Db) (cfg : ReconstructConfig) (slot : Slot) :
    ExactFor pays db cfg slot := by
  intro resp
  rw [reconstructSlot_eq, Option.bind_eq_some_iff]
  constructor
  · rintro ⟨⟨blockId, opIds⟩, offers, made⟩
    obtain ⟨row, found, offered⟩ := Option.bind_eq_some_iff.mp offers
    obtain ⟨may, -, rfl⟩ := eligible_eq_some.mp offered
    dsimp only at made
    split at made
    · exact absurd made (by simp)
    · next rows =>
        refine ⟨row, blockId, found, may, ?_, ?_⟩
        · intro none
          apply rows
          rw [reconstructed_eq, none]
          rfl
        · rw [← transfersPatch_reconstructed]
          exact (Option.some.inj made).symm
  · rintro ⟨row, blockId, found, may, pay, rfl⟩
    refine ⟨(blockId, row.executedOpIds), ?_, ?_⟩
    · rw [eligibleAt, found]
      exact eligible_eq_some.mpr ⟨may, executedThat_ne_nil pay, rfl⟩
    · have rows : reconstructed db cfg slot blockId row.executedOpIds ≠ [] := by
        rw [reconstructed_eq]
        intro none
        exact pay (List.mapIdx_eq_nil_iff.mp none)
      dsimp only
      rw [if_neg rows, transfersPatch_reconstructed]

end Exactness

/-! ## A transaction to no one -/

section Unaddressed

/-- A successful transaction of an amount whose row names no recipient. -/
def unaddressed : StoredOperation :=
  RepairAdditive.executedOp RepairAdditive.transferId .transaction { amountNmas := some 42 }

def onlyUnaddressed : Db :=
  (Db.empty.writeOp unaddressed).writeSlot
    { RepairAdditive.settledSlot with executedOpIds := [RepairAdditive.transferId] }

theorem eligibleAt_onlyUnaddressed : eligibleAt onlyUnaddressed ⟨10, 0⟩ =
    some (Chain.blockNo 1, [RepairAdditive.transferId]) := by
  have row : onlyUnaddressed.readSlot ⟨10, 0⟩ = some (readBackSlotState
      { RepairAdditive.settledSlot with executedOpIds := [RepairAdditive.transferId] }) := by
    rw [onlyUnaddressed, Db.readSlot_writeSlot]
    exact if_pos rfl
  rw [eligibleAt, row]
  rfl

attribute [local instance] Bs58Check.doubleSha

/-- Counted by kind, status and amount alone, the patch is not exact: the row of an operation that
names no recipient is not rebuilt, here from the only operation of an eligible slot. -/
theorem unaddressed_has_no_row : ¬ ∀ (db : Db) (cfg : ReconstructConfig) (slot : Slot),
    ExactFor movesAmount db cfg slot := by
  intro exact
  have stored : onlyUnaddressed.readOp RepairAdditive.transferId = some unaddressed := by
    change (Db.empty.writeOp unaddressed).readOp RepairAdditive.transferId = _
    rw [Db.readOp_writeOp]
    exact if_pos rfl
  have none : reconstructSlot onlyUnaddressed ⟨10, 10, 1, 0, 16000⟩ ⟨10, 0⟩ = none := by
    have uncounted : reconstructionNumbers onlyUnaddressed [RepairAdditive.transferId] = [] := by
      simp [reconstructionNumbers, stored, numberFrom, movesCoins, unaddressed,
        RepairAdditive.executedOp]
    rw [reconstructSlot_eq, eligibleAt_onlyUnaddressed, Option.bind_some]
    dsimp only
    rw [reconstructed, uncounted]
    rfl
  obtain ⟨row, found, offered⟩ := Option.bind_eq_some_iff.mp eligibleAt_onlyUnaddressed
  obtain ⟨may, -, executed⟩ := eligible_eq_some.mp offered
  have counted : executedThat movesAmount onlyUnaddressed row = [unaddressed] := by
    simp [executedThat, ← executed, stored, movesAmount, unaddressed, RepairAdditive.executedOp]
  have made := (exact onlyUnaddressed ⟨10, 10, 1, 0, 16000⟩ ⟨10, 0⟩ _).mpr
    ⟨row, Chain.blockNo 1, found, may, by rw [counted]; exact List.cons_ne_nil _ _, rfl⟩
  exact absurd (none.symm.trans made) (by simp)

end Unaddressed

end MassaIndexer.Laws.Reconstruction
