/-
# Rest.TransferUnions -- the transfers around a block and around a slot

Both views put together a list of their own, the transfers of the block or of the slot, and the
transfers of every operation that is included there. Every list but the slot's own is read up to the
page size; the rows are merged by place, sorted newest first, and cut to the page size
(`paginateTransfersUnion`).
-/
import MassaIndexer.Rest.RecentFeeds
import MassaIndexer.Store.TransferLists

namespace MassaIndexer.Rest.TransferUnions

open MassaIndexer.Theory MassaIndexer.Theory.KeyedTable
open MassaIndexer.Data.Ids MassaIndexer.Data.Model MassaIndexer.Data.Keys MassaIndexer.Data.KeyOrder
open MassaIndexer.Store.ColumnFamilies MassaIndexer.Store.Scans MassaIndexer.Store.TransferScan
open MassaIndexer.Store.TransferLists
open MassaIndexer.Rest.BlockPages MassaIndexer.Rest.RecentFeeds

set_option autoImplicit false

/-! ## The union -/

/-- `map.entry(place).or_insert(t)`; the order of the map does not outlive the sort. -/
def orInsert (map : List StoredTransfer) (t : StoredTransfer) : List StoredTransfer :=
  if map.any fun u => placeOf u = placeOf t then map else map ++ [t]

/-- What `sort_by` compares. -/
def newestFirst (x y : StoredTransfer) : Ordering :=
  ((compare y.slot.period x.slot.period).then (compare y.slot.thread x.slot.thread)).then
    (compare y.indexInSlot x.indexInSlot)

def paginateTransfersUnion (a b : List StoredTransfer) (limit : Nat) : List StoredTransfer :=
  let map := (a ++ b).foldl orInsert []
  (map.mergeSort fun x y => (newestFirst x y).isLE).take limit

/-! ## Handlers -/

/-- The operations of the blocks that a slot row names. -/
def slotOpIds (db : Db) (s : Slot) : List OperationId :=
  match db.readSlot s with
  | none => []
  | some state => (blockIdsOf state).flatMap fun bid =>
      match db.readBlock bid with
      | none => []
      | some b => b.operationIds

def extras (db : Db) (opIds : List OperationId) (limit : Nat) : List StoredTransfer :=
  opIds.flatMap fun opId => (iterTransfersByOp db opId none limit).items

def slotTransfers (db : Db) (cfg : RestConfig) (q : PageQ) (s : Slot) : List StoredTransfer :=
  let limit := q.limitOf cfg
  let inSlot := db.transfersForSlot s
  paginateTransfersUnion inSlot (extras db (slotOpIds db s) limit) limit

def blockTransfers [Bs58Check] (db : Db) (cfg : RestConfig) (q : PageQ) (id : String) :
    Except ApiErr (List StoredTransfer) :=
  let limit := q.limitOf cfg
  match BlockId.parse id with
  | .error e => .error (.bad e)
  | .ok blockId =>
      let inBlock := (iterTransfersByBlock db blockId none limit).items
      match db.readBlock blockId with
      | none => .error (.notFound "block")
      | some block =>
          .ok (paginateTransfersUnion inBlock (extras db block.operationIds limit) limit)

/-! ## What a union lists -/

/-- `sort_by` compares as the keys of the rows do. -/
theorem newestFirst_eq (x y : StoredTransfer) : newestFirst x y = compare (Row.key y) (Row.key x) := by
  have period : ∀ a b : UInt64, compare a b = compare a.toNat b.toNat := by
    intro a b
    show compareOfLessAndEq a b = compareOfLessAndEq a.toNat b.toNat
    simp only [compareOfLessAndEq, UInt64.lt_iff_toNat_lt, UInt64.toNat_inj]
  have index : ∀ a b : UInt32, compare a b = compare a.toNat b.toNat := by
    intro a b
    show compareOfLessAndEq a b = compareOfLessAndEq a.toNat b.toNat
    simp only [compareOfLessAndEq, UInt32.lt_iff_toNat_lt, UInt32.toNat_inj]
  have done : compare ([] : Bytes) [] = .eq := rfl
  show _ = compare (slotKey y.slot ++ indexBytes y.indexInSlot)
      (slotKey x.slot ++ indexBytes x.indexInSlot)
  rw [compare_append (by simp), slotKey, slotKey, compare_append (by simp), compare_cons, done,
    BigEndian.compare_bytes y.slot.period.toNat_lt x.slot.period.toNat_lt, indexBytes, indexBytes,
    BigEndian.compare_bytes y.indexInSlot.toNat_lt x.indexInSlot.toNat_lt, newestFirst, period, index]
  cases compare y.slot.thread x.slot.thread <;> rfl

section Rows

variable {db : Db}

/-- A transfer of the store is merged in unless it is there. -/
theorem orInsert_cases {map : List StoredTransfer} {t : StoredTransfer}
    (stored : t ∈ transfersDesc db) (here : ∀ u ∈ map, u ∈ transfersDesc db) :
    t ∈ map ∧ orInsert map t = map ∨ t ∉ map ∧ orInsert map t = map ++ [t] := by
  unfold orInsert
  by_cases listed : t ∈ map
  · refine .inl ⟨listed, if_pos ?_⟩
    exact List.any_eq_true.mpr ⟨t, listed, decide_eq_true rfl⟩
  · refine .inr ⟨listed, if_neg ?_⟩
    intro found
    obtain ⟨u, member, same⟩ := List.any_eq_true.mp found
    rw [eq_of_placeOf (here u member) stored (of_decide_eq_true same)] at member
    exact listed member

/-- The merged rows are the rows of the store that were listed, each once. -/
theorem foldl_orInsert {rows map : List StoredTransfer} (stored : ∀ t ∈ rows, t ∈ transfersDesc db)
    (here : ∀ t ∈ map, t ∈ transfersDesc db) (nodup : map.Nodup) :
    (rows.foldl orInsert map).Nodup ∧ ∀ t, t ∈ rows.foldl orInsert map ↔ t ∈ map ∨ t ∈ rows := by
  induction rows generalizing map with
  | nil => exact ⟨nodup, by simp⟩
  | cons r rows ih =>
      obtain ⟨first, rest⟩ := List.forall_mem_cons.mp stored
      rw [List.foldl_cons]
      rcases orInsert_cases first here with ⟨listed, same⟩ | ⟨fresh, added⟩
      · rw [same]
        obtain ⟨once, members⟩ := ih rest here nodup
        refine ⟨once, fun t => ?_⟩
        rw [members, List.mem_cons]
        constructor
        · rintro (inMap | inRows)
          · exact .inl inMap
          · exact .inr (.inr inRows)
        · rintro (inMap | rfl | inRows)
          · exact .inl inMap
          · exact .inl listed
          · exact .inr inRows
      · rw [added]
        have here' : ∀ t ∈ map ++ [r], t ∈ transfersDesc db := by
          intro t member
          rcases List.mem_append.mp member with old | new
          · exact here t old
          · rw [List.mem_singleton.mp new]
            exact first
        have nodup' : (map ++ [r]).Nodup := by
          rw [List.nodup_append]
          refine ⟨nodup, List.nodup_singleton r, ?_⟩
          rintro t old u new rfl
          rw [List.mem_singleton] at new
          exact fresh (new ▸ old)
        obtain ⟨once, members⟩ := ih rest here' nodup'
        refine ⟨once, fun t => ?_⟩
        rw [members, List.mem_append, List.mem_singleton, List.mem_cons, or_assoc]

/-- The merged rows in the order of the store's keys, whatever order the map has them in. -/
theorem ordered_mergeSort {map : List StoredTransfer} (here : ∀ t ∈ map, t ∈ transfersDesc db)
    (nodup : map.Nodup) : (map.mergeSort fun x y => (newestFirst x y).isLE).Pairwise Above := by
  have sorted : (map.mergeSort fun x y => (newestFirst x y).isLE).Pairwise
      fun x y => (newestFirst x y).isLE = true := by
    refine List.pairwise_mergeSort ?_ ?_ map
    · intro x y z first second
      rw [newestFirst_eq] at first second ⊢
      exact Std.TransCmp.isLE_trans second first
    · intro x y
      have swap : compare (Row.key y) (Row.key x) = (compare (Row.key x) (Row.key y)).swap :=
        Std.OrientedCmp.eq_swap
      rw [newestFirst_eq, newestFirst_eq, swap]
      cases compare (Row.key x) (Row.key y) <;> rfl
  have perm := List.mergeSort_perm map fun x y => (newestFirst x y).isLE
  refine (sorted.and (perm.nodup_iff.mpr nodup)).imp_of_mem ?_
  rintro x y memberX memberY ⟨le, differ⟩
  rcases above_total (here x (perm.mem_iff.mp memberX)) (here y (perm.mem_iff.mp memberY)) with
    same | above | below
  · exact absurd same differ
  · exact above
  · rw [newestFirst_eq, show compare (Row.key y) (Row.key x) = .gt from below] at le
    cases le

/-- **A union is the head of a list** exactly when the rows it was given are those of the list, as far as
these reach up to its length. -/
theorem union_eq_take_iff {a b : List StoredTransfer} (storedA : ∀ t ∈ a, t ∈ transfersDesc db)
    (storedB : ∀ t ∈ b, t ∈ transfersDesc db) (belongs : StoredTransfer → Bool) (limit : Nat) :
    paginateTransfersUnion a b limit = ((transfersDesc db).filter belongs).take limit ↔
      ∀ t ∈ transfersDesc db, ((transfersDesc db).filter belongs).countP (fun u => Above u t) < limit →
        (belongs t = true ↔ t ∈ a ∨ t ∈ b) := by
  have stored : ∀ t ∈ a ++ b, t ∈ transfersDesc db := by
    intro t member
    exact (List.mem_append.mp member).elim (storedA t) (storedB t)
  have fresh : ∀ t ∈ ([] : List StoredTransfer), t ∈ transfersDesc db := by simp
  obtain ⟨once, members⟩ := foldl_orInsert stored fresh List.nodup_nil
  have here : ∀ t ∈ (a ++ b).foldl orInsert [], t ∈ transfersDesc db := by
    intro t member
    exact stored t (((members t).mp member).resolve_left List.not_mem_nil)
  have inUnion : ∀ t, t ∈ ((a ++ b).foldl orInsert []).mergeSort (fun x y => (newestFirst x y).isLE) ↔
      t ∈ a ∨ t ∈ b := by
    intro t
    rw [List.mem_mergeSort, members, List.mem_append]
    simp
  show (((a ++ b).foldl orInsert []).mergeSort fun x y => (newestFirst x y).isLE).take limit = _ ↔ _
  rw [Heads.take_eq_take_iff above_asymm above_trans (ordered_mergeSort here once)
    ((ordered_transfersDesc db).filter belongs)]
  · constructor
    · intro agree t member few
      rw [← inUnion, agree t few, List.mem_filter]
      exact ⟨fun belongs => ⟨member, belongs⟩, fun both => both.2⟩
    · intro agree t few
      rw [inUnion, List.mem_filter]
      constructor
      · intro listed
        have member := stored t (List.mem_append.mpr listed)
        exact ⟨member, (agree t member few).mpr listed⟩
      · rintro ⟨member, belongs⟩
        exact (agree t member few).mp belongs
  · intro x memberX y memberY
    exact above_total (here x (List.mem_mergeSort.mp memberX)) (List.mem_filter.mp memberY).1

end Rows

end MassaIndexer.Rest.TransferUnions
