/-
# Store.NewestSlots -- the slot rows, newest first

All stored slot rows in the order they are read back (`slotsDesc`), and what one bounded read from the
top gives of them: it begins at the slot `(u64::MAX, 31)`, so the rows above are not seen
(`iterSlotsDesc_none`).
-/
import MassaIndexer.Store.Scans
import MassaIndexer.Theory.Heads

namespace MassaIndexer.Store.NewestSlots

open MassaIndexer.Theory.KeyedTable MassaIndexer.Theory.Heads
open MassaIndexer.Data.Ids MassaIndexer.Data.Model MassaIndexer.Data.Keys MassaIndexer.Data.KeyOrder
open MassaIndexer.Store.ColumnFamilies MassaIndexer.Store.Scans

set_option autoImplicit false

/-- Every stored slot row, newest first. -/
def slotsDesc (db : Db) : List SlotState := db.slots.rows.toList.reverse.map Prod.snd

/-- The first row is of a later slot. -/
def Newer (row row' : SlotState) : Prop := row'.slot.lt row.slot = true

instance : DecidableRel Newer := fun row row' => inferInstanceAs
    (Decidable (row'.slot.lt row.slot = true))

/-- A read from the top begins at the slot `(u64::MAX, 31)`. -/
def visible (row : SlotState) : Bool := !maxSlot.lt row.slot

/-- The rows that a read sees above a slot. -/
def rowsAbove (db : Db) (row : SlotState) : Nat :=
  ((slotsDesc db).filter visible).countP fun other => Newer other row

theorem newer_asymm (row row' : SlotState) (newer : Newer row row') : ¬ Newer row' row := by
  intro back
  have before := compare_slotKey_eq_lt.mpr newer
  have after := compare_slotKey_eq_lt.mpr back
  rw [Std.OrientedCmp.gt_iff_lt.mpr before] at after
  cases after

theorem mem_slotsDesc {db : Db} {row : SlotState} :
    row ∈ slotsDesc db ↔ db.readSlot row.slot = some row := by
  simp only [slotsDesc, List.mem_map, List.mem_reverse]
  constructor
  · rintro ⟨r, stored, rfl⟩
    exact (readSlot_of_mem stored).2
  · intro found
    exact ⟨(slotKey row.slot, row), Std.ExtTreeMap.mem_toList_iff_getElem?_eq_some.mpr found, rfl⟩

theorem newer_trans {row row' row'' : SlotState} (first : Newer row row') (second : Newer row' row'') :
    Newer row row'' := by
  have later := compare_slotKey_eq_lt.mpr first
  have earlier := compare_slotKey_eq_lt.mpr second
  exact compare_slotKey_eq_lt.mp (Std.TransCmp.lt_trans earlier later)

/-- Of two stored rows one is of a later slot. -/
theorem newer_total {db : Db} {row row' : SlotState} (stored : row ∈ slotsDesc db)
    (stored' : row' ∈ slotsDesc db) : row = row' ∨ Newer row row' ∨ Newer row' row := by
  cases order : compare (slotKey row.slot) (slotKey row'.slot) with
  | lt => exact .inr (.inr (compare_slotKey_eq_lt.mp order))
  | gt => exact .inr (.inl (compare_slotKey_eq_lt.mp (Std.OrientedCmp.gt_iff_lt.mp order)))
  | eq =>
      have here := mem_slotsDesc.mp stored
      rw [slotKey_injective (Std.LawfulEqOrd.eq_of_compare order), mem_slotsDesc.mp stored'] at here
      exact .inl (Option.some.inj here).symm

theorem slotsFrom_slotKey (db : Db) (s : Slot) :
    slotsFrom db (slotKey s) = (slotsDesc db).filter fun row => !s.lt row.slot := by
  rw [slotsFrom, slotsDesc, List.filter_map]
  congr 1
  refine List.filter_congr fun r member => ?_
  have filed := (readSlot_of_mem (List.mem_reverse.mp member)).1
  rw [← filed, Function.comp]
  have later : compare (slotKey r.2.slot) (slotKey s) = .gt ↔ s.lt r.2.slot = true :=
    Std.OrientedCmp.gt_iff_lt.trans compare_slotKey_eq_lt
  cases position : s.lt r.2.slot with
  | true => simp [later.mpr position]
  | false =>
      have other : compare (slotKey r.2.slot) (slotKey s) ≠ .gt := fun gt => by
        rw [later.mp gt] at position
        cases position
      simp [other]

theorem ordered_slotsDesc (db : Db) : (slotsDesc db).Pairwise Newer := by
  refine List.pairwise_map.mpr ?_
  have ordered := (ordered_table_reverse db.slots fun _ => true).sorted
  refine ordered.imp_of_mem ?_
  intro x y memberX memberY newer
  have later : compare x.1 y.1 = .gt := by simpa [tablePager, reverse] using newer
  rw [← (readSlot_of_mem (List.mem_reverse.mp memberX)).1,
    ← (readSlot_of_mem (List.mem_reverse.mp memberY)).1] at later
  exact compare_slotKey_eq_lt.mp (Std.OrientedCmp.gt_iff_lt.mp later)

theorem nodup_slotsDesc (db : Db) : (slotsDesc db).Nodup :=
  nodup_of_ordered newer_asymm (ordered_slotsDesc db)

/-- One read from the top gives the newest rows that it sees. -/
theorem iterSlotsDesc_none (db : Db) (limit : Nat) :
    (iterSlotsDesc db none limit).items = ((slotsDesc db).filter visible).take limit := by
  rw [items_iterSlotsDesc db (fun _ clash => by cases clash), Option.getD_none, slotsFrom_slotKey]
  rfl

end MassaIndexer.Store.NewestSlots
