/-
# Store.TransferLists -- the transfers in the orders they are listed in

All stored transfers, newest slot first and by falling index (`transfersDesc`, `Above`), and those that an
index leads to under an operation or a block (`listed`): newest slot first as well, but by rising index
(`newer`), since only the slot is reversed in a key. `readingOrder` is all of them in that order.
-/
import MassaIndexer.Data.KeyParsing
import MassaIndexer.Store.TransferScan
import MassaIndexer.Theory.Heads

namespace MassaIndexer.Store.TransferLists

open MassaIndexer.Theory MassaIndexer.Theory.KeyedTable MassaIndexer.Theory.Cursor
open MassaIndexer.Theory.Heads
open MassaIndexer.Data.Ids MassaIndexer.Data.Model MassaIndexer.Data.Keys MassaIndexer.Data.KeyOrder
open MassaIndexer.Data.KeyParsing
open MassaIndexer.Store.ColumnFamilies MassaIndexer.Store.Scans MassaIndexer.Store.TransferScan
open MassaIndexer.Store.Listings

set_option autoImplicit false

/-! ## All transfers -/

/-- A later slot, or a higher index in the same one. -/
def Above (t u : StoredTransfer) : Prop := compare (Row.key t) (Row.key u) = .gt

instance : DecidableRel Above := fun t u =>
  inferInstanceAs (Decidable (compare (Row.key t) (Row.key u) = .gt))

/-- Every stored transfer, newest slot first and by falling index. -/
def transfersDesc (db : Db) : List StoredTransfer := db.transfers.toList.reverse

theorem above_asymm (t u : StoredTransfer) (above : Above t u) : ¬ Above u t := by
  intro back
  have below := Std.OrientedCmp.gt_iff_lt.mp above
  rw [Above, below] at back
  cases back

theorem above_trans {t u v : StoredTransfer} (first : Above t u) (second : Above u v) : Above t v :=
  Std.TransCmp.gt_trans first second

theorem mem_transfersDesc {db : Db} {t : StoredTransfer} :
    t ∈ transfersDesc db ↔ db.transfers.get (Row.key t) = some t := by
  simp only [transfersDesc, Table.toList, List.mem_reverse, List.mem_map]
  constructor
  · rintro ⟨r, stored, rfl⟩
    have found : db.transfers.get r.1 = some r.2 :=
        Std.ExtTreeMap.mem_toList_iff_getElem?_eq_some.mp stored
    rw [Table.key_of_get found, found]
  · intro found
    exact ⟨(Row.key t, t), Std.ExtTreeMap.mem_toList_iff_getElem?_eq_some.mpr found, rfl⟩

theorem ordered_transfersDesc (db : Db) : (transfersDesc db).Pairwise Above := by
  refine List.pairwise_reverse.mpr (List.pairwise_map.mpr ?_)
  refine Std.ExtTreeMap.ordered_keys_toList.imp_of_mem ?_
  intro x y memberX memberY less
  have foundX : db.transfers.get x.1 = some x.2 :=
    Std.ExtTreeMap.mem_toList_iff_getElem?_eq_some.mp memberX
  have foundY : db.transfers.get y.1 = some y.2 :=
    Std.ExtTreeMap.mem_toList_iff_getElem?_eq_some.mp memberY
  rw [Above, Table.key_of_get foundX, Table.key_of_get foundY]
  exact Std.OrientedCmp.gt_of_lt less

/-- A place holds one transfer. -/
theorem eq_of_placeOf {db : Db} {t u : StoredTransfer} (storedT : t ∈ transfersDesc db)
    (storedU : u ∈ transfersDesc db) (same : placeOf t = placeOf u) : t = u := by
  obtain ⟨slot, index⟩ := Prod.mk.inj same
  have key : Row.key t = Row.key u := by
    show transferKey t.slot t.indexInSlot = transferKey u.slot u.indexInSlot
    rw [slot, index]
  have here := mem_transfersDesc.mp storedT
  rw [key, mem_transfersDesc.mp storedU] at here
  exact (Option.some.inj here).symm

/-- Of two stored transfers one is above the other. -/
theorem above_total {db : Db} {t u : StoredTransfer} (storedT : t ∈ transfersDesc db)
    (storedU : u ∈ transfersDesc db) : t = u ∨ Above t u ∨ Above u t := by
  cases order : compare (Row.key t) (Row.key u) with
  | gt => exact .inr (.inl order)
  | lt => exact .inr (.inr (Std.OrientedCmp.gt_of_lt order))
  | eq =>
      have key : transferKey t.slot t.indexInSlot = transferKey u.slot u.indexInSlot :=
        Std.LawfulEqOrd.eq_of_compare order
      obtain ⟨slot, index⟩ := scEventKey_injective key
      exact .inl (eq_of_placeOf storedT storedU (Prod.ext slot index))

/-! ## Transfers under an operation or a block -/

/-- What the entries of an index under a prefix lead to. -/
def listed (db : Db) (idx : Index) (pre : Bytes) : List StoredTransfer :=
  (entriesUnder idx pre).filterMap (transferOfKey db)

theorem items_iterTransfersViaIdx (db : Db) (idx : Index) (pre : Bytes) (limit : Nat) :
    (iterTransfersViaIdx db idx pre none limit).items = (listed db idx pre).take limit := by
  have first : (iterTransfersViaIdx db idx pre none limit).items = _ :=
    Pager.items_page (S := indexPager pre (transferOfKey db)) fun _ _ clash => by cases clash
  rw [Option.none_or, hits_index] at first
  exact first

theorem transferOfKey_eq_some {db : Db} {k : Bytes} {t : StoredTransfer} :
    transferOfKey db k = some t ↔ t ∈ transfersDesc db ∧
      ∃ id : Bytes, id.length = idKeyLen ∧ k = idxIdSlotIndex id t.slot t.indexInSlot := by
  rw [transferOfKey, Option.bind_eq_some_iff, mem_transfersDesc]
  constructor
  · rintro ⟨⟨s, i⟩, parsed, found⟩
    obtain ⟨id, width, shape⟩ := parseIdxIdSlotIndex_eq_some.mp parsed
    have key : Row.key t = transferKey s i := Table.key_of_get found
    obtain ⟨rfl, rfl⟩ := scEventKey_injective key
    exact ⟨found, id, width, shape⟩
  · rintro ⟨found, id, width, shape⟩
    exact ⟨_, parseIdxIdSlotIndex_eq_some.mpr ⟨id, width, shape⟩, found⟩

theorem mem_listed {db : Db} {idx : Index} {pre : Bytes} (width : pre.length = idKeyLen)
    {t : StoredTransfer} : t ∈ listed db idx pre ↔
      t ∈ transfersDesc db ∧ idxIdSlotIndex pre t.slot t.indexInSlot ∈ idx := by
  simp only [listed, entriesUnder, List.mem_filterMap, List.mem_filter, Std.ExtTreeSet.mem_toList,
    List.isPrefixOf_iff_prefix, transferOfKey_eq_some]
  constructor
  · rintro ⟨k, ⟨entry, under⟩, stored, id, width', rfl⟩
    rw [idxIdSlotIndex, List.append_assoc, isPrefix_append_iff (width.trans width'.symm)] at under
    subst under
    exact ⟨stored, entry⟩
  · rintro ⟨stored, entry⟩
    refine ⟨_, ⟨entry, ?_⟩, stored, pre, width, rfl⟩
    rw [idxIdSlotIndex, List.append_assoc]
    exact List.prefix_append _ _

theorem newer_not_newer (t u : StoredTransfer) (before : newer t u) : ¬ newer u t := by
  intro back
  exact placeLess_irrefl _ (placeLess_trans before back)

theorem ordered_listed (db : Db) (idx : Index) {pre : Bytes} (width : pre.length = idKeyLen) :
    (listed db idx pre).Pairwise newer := by
  rw [listed, List.pairwise_filterMap]
  have sorted : (entriesUnder idx pre).Pairwise fun x y => compare x y = .lt :=
    Std.ExtTreeSet.ordered_toList.filter _
  refine sorted.imp_of_mem ?_
  intro x y memberX memberY less t foundT u foundU
  obtain ⟨-, id, widthX, rfl⟩ := transferOfKey_eq_some.mp foundT
  obtain ⟨-, id', widthY, rfl⟩ := transferOfKey_eq_some.mp foundU
  have underX := List.isPrefixOf_iff_prefix.mp (List.mem_filter.mp memberX).2
  have underY := List.isPrefixOf_iff_prefix.mp (List.mem_filter.mp memberY).2
  rw [idxIdSlotIndex, List.append_assoc, isPrefix_append_iff (width.trans widthX.symm)] at underX
  rw [idxIdSlotIndex, List.append_assoc, isPrefix_append_iff (width.trans widthY.symm)] at underY
  subst underX
  subst underY
  exact placeLess_iff.mpr ((compare_idx_eq_lt pre).mp less)

/-! ## In reading order -/

/-- What the order of the entries of an index goes by. -/
def readingKey (t : StoredTransfer) : Bytes := rslotKey t.slot ++ indexBytes t.indexInSlot

/-- Every stored transfer in the order in which an index lists them. -/
def readingOrder (db : Db) : List StoredTransfer :=
  db.transfers.toList.mergeSort fun t u => (compare (readingKey t) (readingKey u)).isLE

theorem mem_readingOrder {db : Db} {t : StoredTransfer} : t ∈ readingOrder db ↔ t ∈ transfersDesc db := by
  rw [readingOrder, List.mem_mergeSort, transfersDesc, List.mem_reverse]

/-- Of two stored transfers one is read first. -/
theorem reading_total {db : Db} {t u : StoredTransfer} (storedT : t ∈ transfersDesc db)
    (storedU : u ∈ transfersDesc db) : t = u ∨ newer t u ∨ newer u t := by
  cases order : compare (readingKey t) (readingKey u) with
  | lt => exact .inr (.inl order)
  | gt => exact .inr (.inr (Std.OrientedCmp.gt_iff_lt.mp order))
  | eq =>
      have key : readingKey t = readingKey u := Std.LawfulEqOrd.eq_of_compare order
      obtain ⟨slots, indices⟩ := List.append_inj key (by simp)
      exact .inl (eq_of_placeOf storedT storedU
        (Prod.ext (rslotKey_injective slots) (indexBytes_injective indices)))

theorem ordered_readingOrder (db : Db) : (readingOrder db).Pairwise newer := by
  have sorted : (readingOrder db).Pairwise
      fun t u => (compare (readingKey t) (readingKey u)).isLE = true := by
    refine List.pairwise_mergeSort ?_ ?_ _
    · intro t u v first second
      exact Std.TransCmp.isLE_trans first second
    · intro t u
      have swap : compare (readingKey u) (readingKey t) = (compare (readingKey t) (readingKey u)).swap :=
        Std.OrientedCmp.eq_swap
      rw [swap]
      cases compare (readingKey t) (readingKey u) <;> rfl
  have perm := List.mergeSort_perm db.transfers.toList
    fun t u => (compare (readingKey t) (readingKey u)).isLE
  refine (sorted.and (perm.nodup_iff.mpr (nodup_toList db.transfers))).imp_of_mem ?_
  rintro t u memberT memberU ⟨le, differ⟩
  rcases reading_total (mem_readingOrder.mp memberT) (mem_readingOrder.mp memberU) with same |
      first | last
  · exact absurd same differ
  · exact first
  · rw [show compare (readingKey t) (readingKey u) = .gt from Std.OrientedCmp.gt_iff_lt.mpr last] at le
    cases le

end MassaIndexer.Store.TransferLists
