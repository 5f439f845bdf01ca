/-
# Store.SlotRows -- rows filed under slots, with their index entries

Events and transfers are stored alike: a row sits at its slot and its index in the slot, and enters
three indexes under keys that name both. What an event does to such a family is a `Move`: it clears
the rows of a slot, or not, and then files a list of rows, each where the row itself says. Of the rows
for one place the last one stays (`row_run`); another slot is left as it was exactly when all that came
in for it was there (`sameAt_run_iff`).
-/
import MassaIndexer.Store.Footprint
import Mathlib.Tactic.FinCases

namespace MassaIndexer.Store.SlotRows

open MassaIndexer.Theory.KeyedTable
open MassaIndexer.Data.Ids MassaIndexer.Data.Model MassaIndexer.Data.Keys MassaIndexer.Data.RowCodec
open MassaIndexer.Store.ColumnFamilies MassaIndexer.Store.Footprint

set_option autoImplicit false

/-- Where a row is filed, the keys it enters in each index, and which keys an index has for a slot. -/
structure Filing (V : Type) [Row V] where
  slot : V → Slot
  place : V → UInt32
  keys : Fin 3 → V → List Bytes
  entry : Fin 3 → Slot → Bytes → Prop
  filed : ∀ v, Row.key v = scEventKey (slot v) (place v)
  own : ∀ j v u, ∀ k ∈ keys j v, entry j u k ↔ slot v = u

structure Filed (V : Type) [Row V] where
  rows : Table V
  entries : Fin 3 → Index

/-- A slot that is cleared first, and the rows then filed. -/
structure Move (V : Type) where
  cleared : Option Slot := none
  rows : List V := []

section Moves

variable {V : Type} [Row V]

namespace Filed

def row (f : Filed V) (s : Slot) (i : UInt32) : Option V := f.rows.get (scEventKey s i)

def put (F : Filing V) (f : Filed V) (v : V) : Filed V :=
  ⟨f.rows.put v, fun j => Index.insertAll (f.entries j) (F.keys j v)⟩

def clear (F : Filing V) (f : Filed V) (s : Slot) : Filed V :=
  ⟨f.rows.eraseUnder (slotKey s),
    fun j => Index.eraseAll (f.entries j) ((f.rows.under (slotKey s)).flatMap (F.keys j))⟩

end Filed

def Move.run (F : Filing V) (m : Move V) (f : Filed V) : Filed V :=
  m.rows.foldl (Filed.put F) (m.cleared.elim f (f.clear F))

/-- The last row of a list for a place. -/
def last (F : Filing V) (rows : List V) (s : Slot) (i : UInt32) : Option V :=
  (rows.filter fun v => F.slot v = s ∧ F.place v = i).getLast?

variable {F : Filing V} {f : Filed V} {m : Move V} {u : Slot}

theorem mem_of_last {rows : List V} {s : Slot} {i : UInt32} {v : V} (found : last F rows s i = some v) :
    v ∈ rows ∧ F.slot v = s ∧ F.place v = i := by
  simpa [List.mem_filter] using List.mem_of_getLast? found

theorem foldl_put (rows : List V) (f : Filed V) :
    rows.foldl (Filed.put F) f = ⟨rows.foldl Table.put f.rows,
      fun j => rows.foldl (fun idx v => Index.insertAll idx (F.keys j v)) (f.entries j)⟩ := by
  induction rows generalizing f with
  | nil => rfl
  | cons v rows ih => exact ih (f.put F v)

theorem row_clear (F : Filing V) (f : Filed V) (s : Slot) (i : UInt32) :
    (f.clear F s).row u i = if s = u then none else f.row u i := by
  unfold Filed.row Filed.clear
  rw [Table.get_eraseUnder]
  exact if_congr slotKey_isPrefix_iff rfl rfl

theorem row_run (F : Filing V) (m : Move V) (f : Filed V) (u : Slot) (i : UInt32) :
    (m.run F f).row u i =
      ((last F m.rows u i).map Row.stored).or (if m.cleared = some u then none else f.row u i) := by
  have start : (m.cleared.elim f (f.clear F)).row u i =
      if m.cleared = some u then none else f.row u i := by
    cases m.cleared with
    | none => rfl
    | some s =>
        rw [Option.elim_some, row_clear]
        simp only [Option.some.injEq]
  rw [Move.run, foldl_put, ← start]
  unfold Filed.row last
  rw [Table.get_foldl_put]
  simp only [F.filed, scEventKey_inj]

/-! ## Slots an event does not clear -/

/-- The rows and index entries of a slot are the same. -/
structure SameAt (F : Filing V) (f f' : Filed V) (u : Slot) : Prop where
  rows : ∀ i, f'.row u i = f.row u i
  entries : ∀ j k, F.entry j u k → (k ∈ f'.entries j ↔ k ∈ f.entries j)

/-- What a list holds for a slot is there already. -/
structure Known (F : Filing V) (f : Filed V) (list : List V) (u : Slot) : Prop where
  rows : ∀ i v, last F list u i = some v → f.row u i = some (Row.stored v)
  entries : ∀ j, ∀ v ∈ list, F.slot v = u → ∀ k ∈ F.keys j v, k ∈ f.entries j

/-- **A slot that is not cleared stays as it was exactly when nothing new came in for it.** -/
theorem sameAt_run_iff (kept : m.cleared ≠ some u) :
    SameAt F f (m.run F f) u ↔ Known F f m.rows u := by
  have rows : (∀ i, (m.run F f).row u i = f.row u i) ↔
      ∀ i v, last F m.rows u i = some v → f.row u i = some (Row.stored v) := by
    refine forall_congr' fun i => ?_
    rw [row_run, if_neg kept]
    cases last F m.rows u i with
    | none => simp
    | some v => simp [eq_comm]
  have entries : ∀ j, (∀ k, F.entry j u k → (k ∈ (m.run F f).entries j ↔ k ∈ f.entries j)) ↔
      ∀ v ∈ m.rows, F.slot v = u → ∀ k ∈ F.keys j v, k ∈ f.entries j := by
    intro j
    have gone : ∃ dropped : List V, (∀ v ∈ dropped, F.slot v ≠ u) ∧
        (m.cleared.elim f (f.clear F)).entries j =
          Index.eraseAll (f.entries j) (dropped.flatMap (F.keys j)) := by
      cases cleared : m.cleared with
      | none => exact ⟨[], by simp, rfl⟩
      | some s =>
          refine ⟨f.rows.under (slotKey s), fun v member => ?_, rfl⟩
          have below := (Table.mem_under_iff.mp member).2
          rw [F.filed, slotKey_isPrefix_iff] at below
          rw [← below]
          rintro rfl
          exact kept cleared
    obtain ⟨dropped, others, start⟩ := gone
    rw [Move.run, foldl_put]
    dsimp only
    rw [start]
    exact Index.entries_kept_iff (F.own j · u) others
  exact ⟨fun same => ⟨rows.mp same.rows, fun j => (entries j).mp (same.entries j)⟩,
    fun known => ⟨rows.mpr known.rows, fun j => (entries j).mpr (known.entries j)⟩⟩

/-! ## Slots an event clears -/

/-- The family without a slot: no row of it and no index entry. -/
structure Without (F : Filing V) (f : Filed V) (s : Slot) : Prop where
  rows : ∀ i, f.row s i = none
  entries : ∀ j k, F.entry j s k → k ∉ f.entries j

theorem without_of_empty {s : Slot} (rows : f.rows = Table.empty) (entries : ∀ j, f.entries j = ∅) :
    Without F f s where
  rows i := by rw [Filed.row, rows, Table.get_empty]
  entries j k _ := by rw [entries j]; exact Std.ExtTreeSet.not_mem_empty

/-- An index entry of a slot that no row there accounts for. -/
structure Stale (F : Filing V) (f : Filed V) (s : Slot) (j : Fin 3) (k : Bytes) : Prop where
  entry : F.entry j s k
  entered : k ∈ f.entries j
  orphan : ∀ i v, f.row s i = some v → k ∉ F.keys j v

theorem entries_run (F : Filing V) (m : Move V) (f : Filed V) (j : Fin 3) (k : Bytes) :
    k ∈ (m.run F f).entries j ↔ (∃ v ∈ m.rows, k ∈ F.keys j v) ∨
      k ∈ f.entries j ∧ ∀ s, m.cleared = some s → ∀ i v, f.row s i = some v → k ∉ F.keys j v := by
  have start : k ∈ (m.cleared.elim f (f.clear F)).entries j ↔ k ∈ f.entries j ∧
      ∀ s, m.cleared = some s → ∀ i v, f.row s i = some v → k ∉ F.keys j v := by
    cases m.cleared with
    | none => simp
    | some s =>
        change k ∈ Index.eraseAll (f.entries j) ((f.rows.under (slotKey s)).flatMap (F.keys j)) ↔ _
        rw [Index.mem_eraseAll, List.mem_flatMap]
        refine and_congr_right fun _ => ⟨?_, ?_⟩
        · rintro absent _ ⟨⟩ i v found entered
          have filed := Table.key_of_get found
          refine absent ⟨v, Table.mem_under_iff.mpr ⟨?_, ?_⟩, entered⟩
          · rw [filed]
            exact found
          · rw [filed]
            exact slotKey_isPrefix_iff.mpr rfl
        · rintro orphan ⟨v, member, entered⟩
          obtain ⟨found, below⟩ := Table.mem_under_iff.mp member
          rw [F.filed] at found below
          rw [← slotKey_isPrefix_iff.mp below] at found
          exact orphan s rfl _ v found entered
  rw [Move.run, foldl_put]
  dsimp only
  rw [Index.mem_foldl_insertAll, start]

/-- **A slot that is cleared ends as if it had never had rows exactly when the rows that come in
account for its stale index entries.** -/
theorem sameAt_cleared_iff {f' : Filed V} (without : Without F f' u) (cleared : m.cleared = some u) :
    SameAt F (m.run F f) (m.run F f') u ↔
      ∀ j k, Stale F f u j k → ∃ v ∈ m.rows, k ∈ F.keys j v := by
  constructor
  · intro same j k stale
    have back := (same.entries j k stale.entry).mpr
    rw [entries_run, entries_run] at back
    have kept : k ∈ f.entries j ∧
        ∀ s, m.cleared = some s → ∀ i v, f.row s i = some v → k ∉ F.keys j v := by
      refine ⟨stale.entered, fun s at_ => ?_⟩
      rw [cleared] at at_
      rw [← Option.some.inj at_]
      exact stale.orphan
    rcases back (.inr kept) with filed | ⟨there, -⟩
    · exact filed
    · exact absurd there (without.entries j k stale.entry)
  · intro accounted
    refine ⟨fun i => ?_, fun j k entry => ?_⟩
    · rw [row_run, row_run, if_pos cleared, if_pos cleared]
    · rw [entries_run, entries_run]
      refine or_congr_right' fun fresh => ?_
      constructor
      · rintro ⟨there, -⟩
        exact absurd there (without.entries j k entry)
      · rintro ⟨entered, orphan⟩
        exact absurd (accounted j k ⟨entry, entered, orphan u cleared⟩) fresh

end Moves

/-! ## The two families -/

def eventFiling : Filing StoredScEvent where
  slot := (·.slot)
  place := (·.indexInSlot)
  keys
    | 0 => Db.eventEmitterKeys
    | 1 => Db.eventCallerKeys
    | 2 => Db.eventOpKeys
  entry _ u k := ∃ id i, k = idxIdSlotIndex id u i
  filed _ := rfl
  own := by
    have named : ∀ (v : StoredScEvent) (u : Slot) (id k : Bytes),
        k = idxIdSlotIndex id v.slot v.indexInSlot →
          ((∃ id i, k = idxIdSlotIndex id u i) ↔ v.slot = u) := by
      rintro v u id _ rfl
      exact ⟨fun ⟨_, _, same⟩ => slot_of_idxIdSlotIndex same, fun same => ⟨id, _, by rw [same]⟩⟩
    intro j v u k member
    match j with
    | 0 =>
        obtain ⟨a, -, rfl⟩ := List.mem_map.mp member
        exact named v u a.bytes _ rfl
    | 1 =>
        obtain ⟨a, -, rfl⟩ := List.mem_map.mp member
        exact named v u a.bytes _ rfl
    | 2 =>
        obtain ⟨op, -, rfl⟩ := Option.map_eq_some_iff.mp (Option.mem_toList.mp member)
        exact named v u op.bytes _ rfl

def transferFiling [Bs58Check] : Filing StoredTransfer where
  slot := (·.slot)
  place := (·.indexInSlot)
  keys
    | 0 => Db.transferAddrKeys
    | 1 => Db.transferOpKeys
    | 2 => Db.transferBlockKeys
  entry
    | 0, u, k => ∃ addr i tag, k = idxTransferByAddr addr u i tag
    | _, u, k => ∃ id i, k = idxIdSlotIndex id u i
  filed _ := rfl
  own := by
    have named : ∀ (v : StoredTransfer) (u : Slot) (id k : Bytes),
        k = idxIdSlotIndex id v.slot v.indexInSlot →
          ((∃ id i, k = idxIdSlotIndex id u i) ↔ v.slot = u) := by
      rintro v u id _ rfl
      exact ⟨fun ⟨_, _, same⟩ => slot_of_idxIdSlotIndex same, fun same => ⟨id, _, by rw [same]⟩⟩
    intro j v u k member
    match j with
    | 0 =>
        have shape : ∃ addr tag, k = idxTransferByAddr addr v.slot v.indexInSlot tag := by
          rcases List.mem_append.mp member with sender | recipient
          · obtain ⟨a, -, rfl⟩ := Option.map_eq_some_iff.mp (Option.mem_toList.mp sender)
            exact ⟨a.bytes, 1, rfl⟩
          · obtain ⟨a, -, rfl⟩ := Option.map_eq_some_iff.mp (Option.mem_toList.mp recipient)
            exact ⟨a.bytes, 2, rfl⟩
        obtain ⟨addr, tag, rfl⟩ := shape
        exact ⟨fun ⟨_, _, _, same⟩ => slot_of_idxTransferByAddr same,
          fun same => ⟨addr, _, tag, by rw [same]⟩⟩
    | 1 =>
        obtain ⟨op, -, rfl⟩ := Option.map_eq_some_iff.mp (Option.mem_toList.mp member)
        exact named v u op.bytes _ rfl
    | 2 =>
        obtain ⟨b, -, rfl⟩ := Option.map_eq_some_iff.mp (Option.mem_toList.mp member)
        exact named v u b.bytes _ rfl

/-- The events of a store, with their indexes. -/
def filedEvents (db : Db) : Filed StoredScEvent where
  rows := db.scEvents
  entries
    | 0 => db.scEventByEmitter
    | 1 => db.scEventByCaller
    | 2 => db.scEventByOp

/-- The transfers of a store, with their indexes. -/
def filedTransfers (db : Db) : Filed StoredTransfer where
  rows := db.transfers
  entries
    | 0 => db.transferByAddr
    | 1 => db.transferByOp
    | 2 => db.transferByBlock

theorem sameFiledEvents {db db' : Db} (same : contents db .scEvents = contents db' .scEvents) :
    filedEvents db = filedEvents db' :=
  congrArg (fun t : Contents .scEvents => (⟨t.1, fun
    | 0 => t.2.1
    | 1 => t.2.2.1
    | 2 => t.2.2.2⟩ : Filed StoredScEvent)) same

theorem sameFiledTransfers {db db' : Db} (same : contents db .transfers = contents db' .transfers) :
    filedTransfers db = filedTransfers db' :=
  congrArg (fun t : Contents .transfers => (⟨t.1, fun
    | 0 => t.2.1
    | 1 => t.2.2.1
    | 2 => t.2.2.2⟩ : Filed StoredTransfer)) same

theorem filedEvents_write (db : Db) (ev : StoredScEvent) :
    filedEvents (db.writeScEvent ev) = (filedEvents db).put eventFiling ev := by
  unfold filedEvents Filed.put
  congr 1
  funext j
  fin_cases j <;> rfl

theorem filedEvents_clear (db : Db) (s : Slot) :
    filedEvents (db.clearScEventsForSlot s) = (filedEvents db).clear eventFiling s := by
  unfold filedEvents Filed.clear
  congr 1
  funext j
  fin_cases j <;> rfl

section Transfers

variable [Bs58Check]

theorem filedTransfers_write (db : Db) (t : StoredTransfer) :
    filedTransfers (db.writeTransfer t) = (filedTransfers db).put transferFiling t := by
  unfold filedTransfers Filed.put
  congr 1
  funext j
  fin_cases j <;> rfl

theorem filedTransfers_clear (db : Db) (s : Slot) :
    filedTransfers (db.clearTransfersForSlot s) = (filedTransfers db).clear transferFiling s := by
  unfold filedTransfers Filed.clear
  congr 1
  funext j
  fin_cases j <;> rfl

end Transfers

end MassaIndexer.Store.SlotRows
