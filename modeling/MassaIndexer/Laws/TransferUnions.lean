/-
# Laws.TransferUnions -- the capped unions against the head of the whole list

The view of a block is to show the newest of the transfers that are the block's or belong to one of its
operations; the view of a slot likewise. Newest is the later slot, and in one slot the higher index. The
lists that are put together are capped before they are merged, and they run by rising index inside a slot,
so the cap keeps of one slot the rows that come last in the view.

The views are right exactly when, of the stored transfers that the head of the whole list reaches
down to, those that belong are those that a capped list reached (`unions_exact_iff`). The other side
of it is that an index can also lead to a transfer that no longer belongs.
-/
import MassaIndexer.Chain.Snapshot
import MassaIndexer.Laws.IndexExactness
import MassaIndexer.Rest.TransferUnions

namespace MassaIndexer.Laws.TransferUnions

open MassaIndexer.Theory MassaIndexer.Theory.KeyedTable
open MassaIndexer.Data.Ids MassaIndexer.Data.Model MassaIndexer.Data.Keys MassaIndexer.Data.KeyOrder
open MassaIndexer.Store.ColumnFamilies MassaIndexer.Store.Scans MassaIndexer.Store.TransferScan
open MassaIndexer.Store.TransferLists
open MassaIndexer.Rest.BlockPages MassaIndexer.Rest.TransferUnions

set_option autoImplicit false

section Views

variable [Bs58Check]

/-! ## What belongs -/

def OfBlock (b : BlockId) (t : StoredTransfer) : Prop :=
  (t.blockId.bind fun s => (BlockId.parse s).toOption) = some b

def OfOp (o : OperationId) (t : StoredTransfer) : Prop :=
  (t.operationId.bind fun s => (OperationId.parse s).toOption) = some o

instance (b : BlockId) (t : StoredTransfer) : Decidable (OfBlock b t) :=
  inferInstanceAs (Decidable (_ = _))

instance (o : OperationId) (t : StoredTransfer) : Decidable (OfOp o t) :=
  inferInstanceAs (Decidable (_ = _))

/-- A transfer of the slot, or of an operation of one of its blocks. -/
def InSlotView (db : Db) (s : Slot) (t : StoredTransfer) : Prop :=
  t.slot = s ∨ ∃ o ∈ slotOpIds db s, OfOp o t

def blockOpIds (db : Db) (b : BlockId) : List OperationId :=
  ((db.readBlock b).map (·.operationIds)).getD []

/-- A transfer of the block, or of one of its operations. -/
def InBlockView (db : Db) (b : BlockId) (t : StoredTransfer) : Prop :=
  OfBlock b t ∨ ∃ o ∈ blockOpIds db b, OfOp o t

instance (db : Db) (s : Slot) (t : StoredTransfer) : Decidable (InSlotView db s t) :=
  inferInstanceAs (Decidable (_ ∨ _))

instance (db : Db) (b : BlockId) (t : StoredTransfer) : Decidable (InBlockView db b t) :=
  inferInstanceAs (Decidable (_ ∨ _))

/-- The whole list of a view, newest first. -/
def wholeView (db : Db) (view : StoredTransfer → Prop) [DecidablePred view] : List StoredTransfer :=
  (transfersDesc db).filter view

/-! ## What is reached -/

/-- An index leads to the transfer, with fewer than `limit` rows before it. -/
def Reached (db : Db) (idx : Index) (pre : Bytes) (limit : Nat) (t : StoredTransfer) : Prop :=
  t ∈ listed db idx pre ∧ (listed db idx pre).countP (fun u => newer u t) < limit

/-- Down to `limit` rows of the view, what belongs to it is what was reached. -/
def HeadReached (db : Db) (view : StoredTransfer → Prop) [DecidablePred view]
    (reached : StoredTransfer → Prop) (limit : Nat) : Prop :=
  ∀ t ∈ transfersDesc db, (wholeView db view).countP (fun u => Above u t) < limit → (view t ↔ reached t)

def ReachedFromSlot (db : Db) (s : Slot) (limit : Nat) (t : StoredTransfer) : Prop :=
  t.slot = s ∨ ∃ o ∈ slotOpIds db s, Reached db db.transferByOp o.bytes limit t

def ReachedFromBlock (db : Db) (b : BlockId) (limit : Nat) (t : StoredTransfer) : Prop :=
  Reached db db.transferByBlock b.bytes limit t ∨
    ∃ o ∈ blockOpIds db b, Reached db db.transferByOp o.bytes limit t

section Lists

omit [Bs58Check]

variable {db : Db} {t : StoredTransfer} {limit : Nat}

theorem mem_iterTransfersViaIdx {idx : Index} {pre : Bytes} (width : pre.length = idKeyLen) :
    t ∈ (iterTransfersViaIdx db idx pre none limit).items ↔ Reached db idx pre limit t := by
  rw [items_iterTransfersViaIdx]
  exact Heads.mem_take_iff newer_not_newer (ordered_listed db idx width) limit

theorem stored_of_reached {idx : Index} {pre : Bytes} (width : pre.length = idKeyLen)
    (reached : Reached db idx pre limit t) : t ∈ transfersDesc db :=
  ((mem_listed width).mp reached.1).1

theorem mem_extras {opIds : List OperationId} :
    t ∈ extras db opIds limit ↔ ∃ o ∈ opIds, Reached db db.transferByOp o.bytes limit t := by
  rw [extras, List.mem_flatMap]
  exact exists_congr fun o => and_congr_right fun _ => mem_iterTransfersViaIdx o.width

theorem mem_transfersForSlot {s : Slot} :
    t ∈ db.transfersForSlot s ↔ t ∈ transfersDesc db ∧ t.slot = s := by
  rw [Db.transfersForSlot, Table.mem_under_iff, mem_transfersDesc]
  refine and_congr_right fun _ => ?_
  show slotKey s <+: slotKey t.slot ++ indexBytes t.indexInSlot ↔ _
  rw [isPrefix_append_iff (by simp)]
  constructor
  · intro same
    exact (slotKey_injective same).symm
  · rintro rfl
    rfl

end Lists

theorem slot_union_iff (db : Db) (cfg : RestConfig) (q : PageQ) (s : Slot) :
    slotTransfers db cfg q s = (wholeView db (InSlotView db s)).take (q.limitOf cfg) ↔
      HeadReached db (InSlotView db s) (ReachedFromSlot db s (q.limitOf cfg)) (q.limitOf cfg) := by
  refine (union_eq_take_iff ?_ ?_ _ _).trans ?_
  · intro t member
    exact (mem_transfersForSlot.mp member).1
  · intro t member
    obtain ⟨o, -, reached⟩ := mem_extras.mp member
    exact stored_of_reached o.width reached
  · refine forall₂_congr fun t stored => imp_congr_right fun _ => ?_
    rw [decide_eq_true_iff, mem_transfersForSlot, mem_extras]
    exact iff_congr Iff.rfl (or_congr_left (and_iff_right stored))

theorem block_union_iff (db : Db) (cfg : RestConfig) (q : PageQ) (b : BlockId) :
    blockTransfers db cfg q b.text = .ok ((wholeView db (InBlockView db b)).take (q.limitOf cfg)) ↔
      (db.readBlock b).isSome ∧
        HeadReached db (InBlockView db b) (ReachedFromBlock db b (q.limitOf cfg)) (q.limitOf cfg) := by
  have parsed : BlockId.parse b.text = .ok b := FamilyId.parse_text b
  cases body : db.readBlock b with
  | none =>
      have refused : blockTransfers db cfg q b.text = .error (.notFound "block") := by
        simp only [blockTransfers, parsed, body]
      rw [refused]
      simp
  | some block =>
      have ops : blockOpIds db b = block.operationIds := by rw [blockOpIds, body]; rfl
      have answered : blockTransfers db cfg q b.text = .ok (paginateTransfersUnion
          (iterTransfersByBlock db b none (q.limitOf cfg)).items
          (extras db (blockOpIds db b) (q.limitOf cfg)) (q.limitOf cfg)) := by
        simp only [blockTransfers, parsed, body, ops]
      rw [answered, Except.ok.injEq, Option.isSome_some, and_iff_right rfl]
      refine (union_eq_take_iff ?_ ?_ _ _).trans ?_
      · intro t member
        exact stored_of_reached b.width ((mem_iterTransfersViaIdx b.width).mp member)
      · intro t member
        obtain ⟨o, -, reached⟩ := mem_extras.mp member
        exact stored_of_reached o.width reached
      · refine forall₂_congr fun t stored => imp_congr_right fun _ => ?_
        rw [decide_eq_true_iff, mem_extras]
        exact iff_congr Iff.rfl (or_congr_left (mem_iterTransfersViaIdx b.width))

/-- **A view is the head of its whole list** exactly when the capped lists reached what belongs there; and
the view of a block, when its body is stored. -/
theorem unions_exact_iff (db : Db) (cfg : RestConfig) (q : PageQ) :
    (∀ s, slotTransfers db cfg q s = (wholeView db (InSlotView db s)).take (q.limitOf cfg) ↔
      HeadReached db (InSlotView db s) (ReachedFromSlot db s (q.limitOf cfg)) (q.limitOf cfg)) ∧
    ∀ b, blockTransfers db cfg q b.text = .ok ((wholeView db (InBlockView db b)).take (q.limitOf cfg)) ↔
      (db.readBlock b).isSome ∧
        HeadReached db (InBlockView db b) (ReachedFromBlock db b (q.limitOf cfg)) (q.limitOf cfg) :=
  ⟨slot_union_iff db cfg q, block_union_iff db cfg q⟩

end Views

/-! ## Two transfers of one slot -/

section TwoTransfers

attribute [local instance] Bs58Check.doubleSha

/-- A transfer of the first block. -/
def numbered (i : UInt32) : StoredTransfer :=
  { IndexExactness.bareTransfer none none with
    indexInSlot := i
    blockId := some (Chain.blockNo 1).text }

/-- A block without operations, with two transfers. -/
def twoTransfers : Db :=
  ((Db.empty.writeBlock (Chain.bareBlock (Chain.blockNo 1) ⟨1, 0⟩ [])).writeTransfer
    (numbered 0)).writeTransfer (numbered 1)

theorem mem_twoTransfers {t : StoredTransfer} :
    t ∈ transfersDesc twoTransfers ↔ t = numbered 0 ∨ t = numbered 1 := by
  have read : ∀ s i, twoTransfers.readTransfer s i = if ⟨1, 0⟩ = s ∧ 1 = i then some (numbered 1) else
      if ⟨1, 0⟩ = s ∧ 0 = i then some (numbered 0) else none := by
    intro s i
    rw [twoTransfers, Db.readTransfer_writeTransfer, Db.readTransfer_writeTransfer]
    rfl
  rw [mem_transfersDesc]
  show twoTransfers.readTransfer t.slot t.indexInSlot = some t ↔ _
  rw [read]
  constructor
  · intro found
    split at found
    · exact .inr (Option.some.inj found).symm
    · split at found
      · exact .inl (Option.some.inj found).symm
      · cases found
  · rintro (rfl | rfl)
    · rfl
    · rfl

theorem indexed_numbered (i : UInt32) : Db.transferBlockKeys (numbered i) =
    [idxIdSlotIndex (Chain.blockNo 1).bytes ⟨1, 0⟩ i] := by
  have parsed : BlockId.parse (Chain.blockNo 1).text = .ok (Chain.blockNo 1) := FamilyId.parse_text _
  have named : (numbered i).blockId = some (Chain.blockNo 1).text := rfl
  rw [Db.transferBlockKeys, named, Option.bind_some, parsed]
  rfl

theorem mem_listed_numbered : numbered 0 ∈ listed twoTransfers twoTransfers.transferByBlock
    (Chain.blockNo 1).bytes := by
  refine (mem_listed (Chain.blockNo 1).width).mpr ⟨mem_twoTransfers.mpr (.inl rfl), ?_⟩
  have index : ∀ (db : Db) (t : StoredTransfer), (db.writeTransfer t).transferByBlock =
      Index.insertAll db.transferByBlock (Db.transferBlockKeys t) := fun _ _ => rfl
  rw [twoTransfers, index, index, indexed_numbered, indexed_numbered, Index.mem_insertAll,
      Index.mem_insertAll]
  exact .inr (.inl List.mem_cons_self)

theorem newest_transfer_capped :
    blockTransfers twoTransfers ⟨20, 100⟩ ⟨some 1, none⟩ (Chain.blockNo 1).text ≠
      .ok ((wholeView twoTransfers (InBlockView twoTransfers (Chain.blockNo 1))).take 1) := by
  intro equal
  obtain ⟨-, head⟩ := (block_union_iff twoTransfers ⟨20, 100⟩ ⟨some 1, none⟩ (Chain.blockNo 1)).mp equal
  have parsed : BlockId.parse (Chain.blockNo 1).text = .ok (Chain.blockNo 1) := FamilyId.parse_text _
  have belongs : OfBlock (Chain.blockNo 1) (numbered 1) := by
    show ((some (Chain.blockNo 1).text).bind fun s => (BlockId.parse s).toOption) = _
    rw [Option.bind_some, parsed]
    rfl
  have top : (wholeView twoTransfers (InBlockView twoTransfers (Chain.blockNo 1))).countP
      (fun u => Above u (numbered 1)) = 0 := by
    rw [List.countP_eq_zero]
    intro u member
    rcases mem_twoTransfers.mp (List.mem_filter.mp member).1 with rfl | rfl
    · decide
    · decide
  have body : blockOpIds twoTransfers (Chain.blockNo 1) = [] := by
    have read : twoTransfers.readBlock (Chain.blockNo 1) =
        some (Chain.bareBlock (Chain.blockNo 1) ⟨1, 0⟩ []) := by
      show (Db.empty.writeBlock _).readBlock _ = _
      rw [Db.readBlock_writeBlock]
      exact if_pos rfl
    rw [blockOpIds, read]
    rfl
  rcases (head (numbered 1) (mem_twoTransfers.mpr (.inr rfl)) (by rw [top]; exact Nat.one_pos)).mp
    (.inl belongs) with ⟨-, few⟩ | ⟨o, member, -⟩
  · have before : 0 < (listed twoTransfers twoTransfers.transferByBlock (Chain.blockNo 1).bytes).countP
        fun u => newer u (numbered 1) :=
      List.countP_pos_iff.mpr ⟨numbered 0, mem_listed_numbered, by decide⟩
    have one : PageQ.limitOf ⟨some 1, none⟩ ⟨20, 100⟩ = 1 := rfl
    omega
  · rw [body] at member
    cases member

end TwoTransfers

end MassaIndexer.Laws.TransferUnions
