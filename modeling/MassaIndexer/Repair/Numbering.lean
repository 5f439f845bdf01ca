/-
# Repair.Numbering -- the numbers and ids the producers give

What each producer ships, by number: transactions with the number of their movement (`Numbered`),
counted among the rebuildable ones by the reconstruction and by position in the archive's list by the
importer; the archive's sub-transfer rows one after the other from a first number, less those whose
ids are there (`ids_subTransferRows`, `index_subTransferRows`).
-/
import MassaIndexer.Repair.Producers

namespace MassaIndexer.Repair.Numbering

open MassaIndexer.Data.Ids MassaIndexer.Data.Model MassaIndexer.Data.Proto MassaIndexer.Data.RowCodec
open MassaIndexer.Data.Codec MassaIndexer.Store.ColumnFamilies MassaIndexer.Repair.Producers

set_option autoImplicit false

/-! ## Transactions -/

/-- A transaction of a positive amount to someone. -/
def movesCoins (op : StoredOperation) : Bool :=
  op.kind = .transaction && op.details.amountNmas.any (· ≠ 0) && op.details.recipientAddress.isSome

/-- Operations, each with the number its movement takes. -/
abbrev Numbered := List (UInt32 × StoredOperation)

def numberFrom : UInt32 → List StoredOperation → Numbered
  | _, [] => []
  | n, op :: ops => (n, op) :: numberFrom (n + 1) ops

/-- The reconstruction counts the successful transactions among the executed operations on disk. -/
def reconstructionNumbers (db : Db) (opIds : List OperationId) : Numbered :=
  numberFrom 0 ((opIds.filterMap db.readOp).filter fun op =>
    movesCoins op && op.finalExecStatus = some .ok)

theorem mem_of_mem_numberFrom {n m : UInt32} {op : StoredOperation} {ops : List StoredOperation}
    (member : (m, op) ∈ numberFrom n ops) : op ∈ ops := by
  induction ops generalizing n with
  | nil => exact absurd member (by simp [numberFrom])
  | cons first ops ih =>
      rw [numberFrom, List.mem_cons] at member
      rcases member with same | later
      · exact (Prod.mk.inj same).2 ▸ List.mem_cons_self
      · exact List.mem_cons_of_mem _ (ih later)

theorem readOp_of_mem_reconstructionNumbers {db : Db} {opIds : List OperationId} {n : UInt32}
    {op : StoredOperation} (member : (n, op) ∈ reconstructionNumbers db opIds) :
    db.readOp op.id = some op ∧ movesCoins op = true := by
  have rebuilt := List.mem_filter.mp (mem_of_mem_numberFrom member)
  obtain ⟨id, -, found⟩ := List.mem_filterMap.mp rebuilt.1
  refine ⟨Db.id_of_readOp found ▸ found, ?_⟩
  exact (Bool.and_eq_true _ _ ▸ rebuilt.2).1

/-! ## The first free number -/

theorem toNat_max (n m : UInt32) : (max n m).toNat = max n.toNat m.toNat := by
  change (if n ≤ m then m else n).toNat = _
  split
  · next le => rw [max_eq_right (UInt32.le_iff_toNat_le.mp le)]
  · next lt =>
      rw [UInt32.le_iff_toNat_le] at lt
      rw [max_eq_left (by omega)]

theorem le_foldl_max (numbers : List UInt32) (n : UInt32) :
    n.toNat ≤ (numbers.foldl max n).toNat ∧
      ∀ m ∈ numbers, m.toNat ≤ (numbers.foldl max n).toNat := by
  induction numbers generalizing n with
  | nil => exact ⟨Nat.le_refl _, by simp⟩
  | cons m numbers ih =>
      obtain ⟨start, rest⟩ := ih (max n m)
      rw [toNat_max] at start
      obtain ⟨left, right⟩ := max_le_iff.mp start
      exact ⟨left, List.forall_mem_cons.mpr ⟨right, rest⟩⟩

theorem foldl_max_le {numbers : List UInt32} {n : UInt32} {bound : Nat} (start : n.toNat ≤ bound)
    (below : ∀ m ∈ numbers, m.toNat ≤ bound) : (numbers.foldl max n).toNat ≤ bound := by
  induction numbers generalizing n with
  | nil => exact start
  | cons m numbers ih =>
      obtain ⟨head, tail⟩ := List.forall_mem_cons.mp below
      refine ih ?_ tail
      rw [toNat_max]
      exact max_le start head

/-- The number after all that are there, as the sub-transfer pass computes it. -/
def nextIndex (existing : List StoredTransfer) : UInt32 :=
  (existing.map fun t => t.indexInSlot + 1).foldl max 0

theorem toNat_indexInSlot_succ {t : StoredTransfer} (room : t.indexInSlot.toNat + 1 < 2 ^ 32) :
    (t.indexInSlot + 1).toNat = t.indexInSlot.toNat + 1 := by
  rw [UInt32.toNat_add, UInt32.toNat_one, Nat.mod_eq_of_lt room]

/-- While the numbers do not run out, the next one is above all there are. -/
theorem nextIndex_spec (existing : List StoredTransfer) (bound : Nat) (width : bound < 2 ^ 32)
    (room : ∀ t ∈ existing, t.indexInSlot.toNat + 1 ≤ bound) :
    (∀ t ∈ existing, t.indexInSlot.toNat < (nextIndex existing).toNat) ∧
      (nextIndex existing).toNat ≤ bound := by
  constructor
  · intro t member
    have above := (le_foldl_max (existing.map fun t => t.indexInSlot + 1) 0).2 _
      (List.mem_map_of_mem (f := fun t : StoredTransfer => t.indexInSlot + 1) member)
    rw [toNat_indexInSlot_succ (by have := room t member; omega)] at above
    exact above
  · refine foldl_max_le (by simp) fun m member => ?_
    obtain ⟨t, listed, rfl⟩ := List.mem_map.mp member
    rw [toNat_indexInSlot_succ (by have := room t listed; omega)]
    exact room t listed

section Rows

variable [Bs58Check]

/-- The importer numbers an operation by its position in the archive's list. -/
def importNumbers (a : ArchivedSlot) : Numbered :=
  a.ops.zipIdx.filterMap fun (d, i) =>
    if synthesises (coveredOpIdsFromRows a.items) d && movesCoins d.stored then
      some (UInt32.ofNat i, d.stored)
    else none

theorem movesCoins_of_mem_importNumbers {a : ArchivedSlot} {n : UInt32} {op : StoredOperation}
    (member : (n, op) ∈ importNumbers a) : movesCoins op = true := by
  obtain ⟨⟨d, i⟩, -, made⟩ := List.mem_filterMap.mp member
  dsimp only at made
  split at made
  · next both =>
      obtain ⟨-, rfl⟩ := Prod.mk.inj (Option.some.inj made)
      exact (Bool.and_eq_true _ _ ▸ both).2
  · exact absurd made (by simp)

def transactionRows (slot : Slot) (blockId : String) (ts : Int) (numbered : Numbered) :
    List StoredTransfer :=
  numbered.filterMap fun (n, op) => legacyOpToTransfer op slot blockId n ts

theorem transactionRows_cons (slot : Slot) (blockId : String) (ts : Int) (n : UInt32)
    (op : StoredOperation) (numbered : Numbered) :
    transactionRows slot blockId ts ((n, op) :: numbered) =
      (legacyOpToTransfer op slot blockId n ts).toList ++
        transactionRows slot blockId ts numbered := by
  unfold transactionRows
  rw [List.filterMap_cons]
  dsimp only
  cases legacyOpToTransfer op slot blockId n ts <;> rfl

theorem isSome_legacyOpToTransfer (op : StoredOperation) (slot : Slot) (blockId : String)
    (n : UInt32) (ts : Int) : (legacyOpToTransfer op slot blockId n ts).isSome = movesCoins op := by
  unfold legacyOpToTransfer movesCoins
  by_cases kind : op.kind = .transaction
  · cases op.details.amountNmas <;> cases op.details.recipientAddress <;> simp [kind]
    split <;> simp [*]
  · simp [kind]

/-- A transaction's movement, as far as the passes meet it. -/
structure MovementOf (slot : Slot) (n : UInt32) (op : StoredOperation) (t : StoredTransfer) :
    Prop where
  slot : t.slot = slot
  number : t.indexInSlot = n
  id : t.id = transactionTransferId op.id n
  origin : t.origin = .opTransactionCoins
  operation : t.operationId = some op.id.text

theorem movementOf_of_made {op : StoredOperation} {slot : Slot} {blockId : String} {n : UInt32}
    {ts : Int} {t : StoredTransfer} (made : legacyOpToTransfer op slot blockId n ts = some t) :
    MovementOf slot n op t := by
  unfold legacyOpToTransfer at made
  split at made
  · exact absurd made (by simp)
  · split at made
    · split at made
      · exact absurd made (by simp)
      · obtain rfl := Option.some.inj made
        exact ⟨rfl, rfl, rfl, rfl, rfl⟩
    · exact absurd made (by simp)

theorem mem_transactionRows {slot : Slot} {blockId : String} {ts : Int} {numbered : Numbered}
    {t : StoredTransfer} (member : t ∈ transactionRows slot blockId ts numbered) :
    ∃ n op, (n, op) ∈ numbered ∧ legacyOpToTransfer op slot blockId n ts = some t := by
  obtain ⟨⟨n, op⟩, listed, made⟩ := List.mem_filterMap.mp member
  exact ⟨n, op, listed, made⟩

theorem length_transactionRows (slot : Slot) (blockId : String) (ts : Int) {numbered : Numbered}
    (moves : ∀ n op, (n, op) ∈ numbered → movesCoins op = true) :
    (transactionRows slot blockId ts numbered).length = numbered.length := by
  unfold transactionRows
  rw [List.length_filterMap_eq_countP, List.countP_eq_length]
  rintro ⟨n, op⟩ listed
  rw [isSome_legacyOpToTransfer]
  exact moves n op listed

theorem reconstructRows_eq (db : Db) (slot : Slot) (blockId : String) (ts : Int)
    (opIds : List OperationId) (n : UInt32) :
    reconstructRows db slot blockId ts opIds n = transactionRows slot blockId ts
      (numberFrom n ((opIds.filterMap db.readOp).filter fun op =>
        movesCoins op && op.finalExecStatus = some .ok)) := by
  induction opIds generalizing n with
  | nil => rfl
  | cons opId rest ih =>
      unfold reconstructRows
      cases found : db.readOp opId with
      | none =>
          rw [List.filterMap_cons_none found]
          exact ih n
      | some op =>
          rw [List.filterMap_cons_some found]
          dsimp only
          have made := isSome_legacyOpToTransfer op slot blockId n ts
          split
          · next other =>
              rw [List.filter_cons_of_neg]
              · exact ih n
              · rcases other with kind | status
                · simp [movesCoins, kind]
                · simp [status]
          · next successful =>
              have ok : op.finalExecStatus = some .ok := by
                by_contra other
                exact successful (.inr other)
              cases moved : legacyOpToTransfer op slot blockId n ts with
              | none =>
                  rw [moved] at made
                  rw [List.filter_cons_of_neg (by simp [← made])]
                  exact ih n
              | some t =>
                  rw [moved] at made
                  rw [List.filter_cons_of_pos (by simp [← made, ok]), numberFrom,
                    transactionRows_cons, moved]
                  exact congrArg _ (ih (n + 1))

theorem synthesisedRows_eq (slot : Slot) (a : ArchivedSlot) (nowMs : Int) :
    synthesisedRows slot a.blockHash.text nowMs (coveredOpIdsFromRows a.items) a.ops =
      transactionRows slot a.blockHash.text nowMs (importNumbers a) := by
  unfold synthesisedRows transactionRows importNumbers
  rw [List.filterMap_filterMap]
  congr 1
  funext numbered
  obtain ⟨d, i⟩ := numbered
  have made := isSome_legacyOpToTransfer d.stored slot a.blockHash.text (UInt32.ofNat i) nowMs
  dsimp only
  cases synthesises (coveredOpIdsFromRows a.items) d with
  | false => rfl
  | true =>
      cases moves : movesCoins d.stored with
      | true => rfl
      | false =>
          rw [moves, Option.isSome_eq_false_iff, Option.isNone_iff_eq_none] at made
          rw [made]
          rfl

/-! ## Sub-transfers -/

/-- The hash of a sub-transfer row that moved coins. -/
def movedHash (item : OperationsItem) : Option String :=
  item.hash.filter fun hash =>
    isSubTransferHash hash && (item.status.getD 0 = 1 && item.amount.getD 0 ≠ 0)

def movedHashes (items : List OperationsItem) : List String := items.filterMap movedHash

/-- A sub-transfer row is filed as its hash says, always as an ABI transfer. -/
theorem subTransfer_cases (item : OperationsItem) {hash : String} (here : item.hash = some hash)
    (sub : isSubTransferHash hash = true) (slot : Slot) (blockId : Option String) (n : UInt32)
    (ts : Int) :
    (movedHash item = none ∧ legacySubTransferToTransfer (item.view hash) slot blockId n ts = none) ∨
      (movedHash item = some hash ∧
        ∃ t, legacySubTransferToTransfer (item.view hash) slot blockId n ts = some t ∧
          t.id = hash ∧ t.slot = slot ∧ t.indexInSlot = n ∧ t.origin = .abiTransferCoins) := by
  unfold legacySubTransferToTransfer movedHash OperationsItem.view
  rw [here]
  by_cases status : item.status.getD 0 = 1
  · by_cases amount : item.amount.getD 0 = 0
    · exact .inl ⟨by simp [amount], by simp [status, amount]⟩
    · refine .inr ⟨by simp [Option.filter, sub, status, amount], ?_⟩
      simp only [status, amount, ne_eq, not_true_eq_false, if_false, Option.some.injEq,
        exists_eq_left', true_and]
      simp [subTransferOrigin, parentOpFromHash, sub]
  · exact .inl ⟨by simp [status], by simp [status]⟩

variable {slot : Slot} {blockId : Option String} {ts : Int} {skipIds : List String}

theorem ids_subTransferRows (items : List OperationsItem) (n : UInt32) :
    (subTransferRows slot blockId ts skipIds items n).map (·.id) =
      (movedHashes items).filter fun hash => !skipIds.contains hash := by
  induction items generalizing n with
  | nil => rfl
  | cons item rest ih =>
      unfold subTransferRows movedHashes
      cases here : item.hash with
      | none =>
          rw [List.filterMap_cons_none (by rw [movedHash, here]; rfl)]
          exact ih n
      | some hash =>
          dsimp only
          cases sub : isSubTransferHash hash with
          | false =>
              rw [List.filterMap_cons_none (by simp [movedHash, here, Option.filter, sub])]
              exact ih n
          | true =>
              rcases subTransfer_cases item here sub slot blockId n ts with
                ⟨still, none⟩ | ⟨moved, t, made, id, -⟩
              · rw [List.filterMap_cons_none still, none, ite_self]
                exact ih n
              · rw [List.filterMap_cons_some moved, made]
                cases skipped : skipIds.contains hash with
                | true =>
                    rw [List.filter_cons_of_neg (by rw [skipped]; decide)]
                    exact ih n
                | false =>
                    rw [List.filter_cons_of_pos (by rw [skipped]; decide)]
                    simp only [Bool.not_true, Bool.or_self, Bool.false_eq_true, if_false,
                      List.map_cons, id]
                    exact congrArg _ (ih (saturatingSucc n))

omit [Bs58Check] in
theorem toNat_saturatingSucc {n : UInt32} (room : n.toNat + 1 < 2 ^ 32) :
    (saturatingSucc n).toNat = n.toNat + 1 := by
  unfold saturatingSucc
  rw [if_neg]
  · rw [UInt32.toNat_add, UInt32.toNat_one, Nat.mod_eq_of_lt room]
  · rintro rfl
    exact absurd room (by decide)

/-- A sub-transfer row as the passes meet it. -/
structure SubTransferOf (slot : Slot) (t : StoredTransfer) : Prop where
  slot : t.slot = slot
  origin : t.origin = .abiTransferCoins

/-- The rows are those of the slot, numbered one after the other while there is room. -/
theorem subTransferOf_of_getElem {items : List OperationsItem} {n : UInt32} {i : Nat}
    {t : StoredTransfer} (found : (subTransferRows slot blockId ts skipIds items n)[i]? = some t) :
    SubTransferOf slot t ∧ (n.toNat + i < 2 ^ 32 → t.indexInSlot.toNat = n.toNat + i) := by
  induction items generalizing n i with
  | nil => exact absurd found (by simp [subTransferRows])
  | cons item rest ih =>
      unfold subTransferRows at found
      cases here : item.hash with
      | none =>
          rw [here] at found
          exact ih found
      | some hash =>
          rw [here] at found
          dsimp only at found
          split at found
          · exact ih found
          · next kept =>
              have sub : isSubTransferHash hash = true := by
                by_contra other
                exact kept (by simp [Bool.not_eq_true _ ▸ other])
              rcases subTransfer_cases item here sub slot blockId n ts with
                ⟨-, none⟩ | ⟨-, first, made, -, own, number, origin⟩
              · rw [none] at found
                exact ih found
              · rw [made] at found
                cases i with
                | zero =>
                    obtain rfl := Option.some.inj found
                    exact ⟨⟨own, origin⟩, fun _ => by rw [number, Nat.add_zero]⟩
                | succ i =>
                    obtain ⟨row, numbered⟩ := ih (List.getElem?_cons_succ.symm.trans found)
                    refine ⟨row, fun room => ?_⟩
                    have next := toNat_saturatingSucc (n := n) (by omega)
                    rw [numbered (by omega), next]
                    omega

theorem subTransferOf_of_mem {items : List OperationsItem} {n : UInt32} {t : StoredTransfer}
    (member : t ∈ subTransferRows slot blockId ts skipIds items n) : SubTransferOf slot t := by
  obtain ⟨i, found⟩ := List.mem_iff_getElem?.mp member
  exact (subTransferOf_of_getElem found).1

theorem length_subTransferRows_le (items : List OperationsItem) (n : UInt32) :
    (subTransferRows slot blockId ts skipIds items n).length ≤ (movedHashes items).length := by
  have counted : ((subTransferRows slot blockId ts skipIds items n).map (·.id)).length = _ :=
    congrArg List.length (ids_subTransferRows items n)
  rw [List.length_map] at counted
  rw [counted]
  exact List.length_filter_le _ _

/-! ## What a slot's row offers -/

/-- The block and the executed operations of a settled slot that lacks the node's list. -/
def eligible (row : SlotState) : Option (BlockId × List OperationId) :=
  if row.status ≠ .final ∨ row.isMiss ∨ row.completeness.transfersStored ∨ row.executedOpIds = [] then
    none
  else row.finalBlockId.map (·, row.executedOpIds)

def eligibleAt (db : Db) (slot : Slot) : Option (BlockId × List OperationId) :=
  (db.readSlot slot).bind eligible

/-- The rows a reconstruction ships. -/
def reconstructed (db : Db) (cfg : ReconstructConfig) (slot : Slot) (blockId : BlockId)
    (opIds : List OperationId) : List StoredTransfer :=
  transactionRows slot blockId.text (slotTimestampMs cfg slot) (reconstructionNumbers db opIds)

theorem reconstructSlot_eq (db : Db) (cfg : ReconstructConfig) (slot : Slot) :
    reconstructSlot db cfg slot = (eligibleAt db slot).bind fun (blockId, opIds) =>
      if reconstructed db cfg slot blockId opIds = [] then none
      else some (transfersPatch slot blockId (reconstructed db cfg slot blockId opIds)) := by
  unfold reconstructSlot eligibleAt eligible reconstructed
  cases db.readSlot slot with
  | none => rfl
  | some row =>
      rw [Option.bind_some]
      dsimp only
      split
      · rfl
      · cases row.finalBlockId with
        | none => rfl
        | some blockId =>
            dsimp only
            simp only [reconstructRows_eq]
            rfl

def successfulScOp (op : StoredOperation) : Bool :=
  (op.kind = .callSc || op.kind = .executeSc) && op.finalExecStatus = some .ok

theorem subTransfersTarget_eq (db : Db) (slot : Slot) :
    subTransfersTarget db slot = (eligibleAt db slot).bind fun (blockId, opIds) =>
      if (opIds.any fun opId => (db.readOp opId).any successfulScOp) then
        some ⟨blockId, (db.transfersForSlot slot).map (·.id), nextIndex (db.transfersForSlot slot)⟩
      else none := by
  unfold subTransfersTarget eligibleAt eligible slotHasSuccessfulScOp
  cases db.readSlot slot with
  | none => rfl
  | some row =>
      rw [Option.bind_some]
      dsimp only
      split
      · rfl
      · cases row.finalBlockId <;> rfl

end Rows

end MassaIndexer.Repair.Numbering
