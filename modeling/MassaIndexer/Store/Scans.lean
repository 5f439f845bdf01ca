/-
# Store.Scans -- the cursor scans of the store

Every list the store serves is read by a `Pager`: a forward walk of an index under a key prefix that
resolves each entry to an id or a primary row, a forward walk of a whole family, or the backward
walk of the slots. They differ in the family, the prefix and the way an entry resolves; an entry
whose key does not parse, or whose row is gone, resolves to nothing.

`iter_transfers_by_addr` is not here: it meets a transfer at two entries (`Store.TransferScan`).
-/
import MassaIndexer.Theory.Cursor
import MassaIndexer.Data.KeyOrder
import MassaIndexer.Store.ColumnFamilies

namespace MassaIndexer.Store.Scans

open MassaIndexer.Theory.KeyedTable MassaIndexer.Theory.Cursor
open MassaIndexer.Data.Ids MassaIndexer.Data.Model MassaIndexer.Data.Keys MassaIndexer.Data.KeyOrder
open MassaIndexer.Store.ColumnFamilies

set_option autoImplicit false

/-! ## Directions -/

/-- What a seek in forward direction passes over. -/
def forward (k start : Bytes) : Bool := compare k start == .lt

/-- What a seek in reverse direction passes over. -/
def reverse (k start : Bytes) : Bool := compare k start == .gt

/-- An index, walked forward under a prefix. -/
def indexPager {α : Type} (pre : Bytes) (hit : Bytes → Option α) : Pager Bytes Bytes α where
  key := id
  before := forward
  within := pre.isPrefixOf
  hit := hit

/-- A family, walked in one direction as far as `within` goes. -/
def tablePager {V : Type} (before : Bytes → Bytes → Bool) (within : Bytes → Bool) :
    Pager Bytes (Bytes × V) V where
  key := Prod.fst
  before := before
  within := within
  hit r := some r.2

def scanIndex {α : Type} (idx : Index) (pre : Bytes) (hit : Bytes → Option α) (after : Option Bytes)
    (limit : Nat) : Page Bytes α := (indexPager pre hit).page (some pre) idx.toList after limit

/-- A whole index or family, from its first key. -/
def scanAllIndex {α : Type} (idx : Index) (hit : Bytes → Option α) (after : Option Bytes)
    (limit : Nat) : Page Bytes α := (indexPager [] hit).page none idx.toList after limit

def scanAll {V : Type} [Row V] (t : Table V) (after : Option Bytes) (limit : Nat) : Page Bytes V :=
  (tablePager forward fun _ => true).page none t.rows.toList after limit

/-! ## Slots -/

def maxSlot : Slot := ⟨UInt64.ofNat (2 ^ 64 - 1), 31⟩

/-- Slots newest to oldest. -/
def iterSlotsDesc (db : Db) (after : Option Bytes) (limit : Nat) : Page Bytes SlotState :=
  (tablePager reverse fun _ => true).page (some (slotKey maxSlot)) db.slots.rows.toList.reverse
    after limit

/-! ## Ids under an address -/

/-- What an entry of an `addr ‖ rslot ‖ id` index resolves to. -/
def idOfKey {α : Type} (fromKeyBytes : Bytes → Option α) (k : Bytes) : Option α :=
  (parseIdxAddrSlotId k).bind fun parsed => fromKeyBytes parsed.2

def scanPrefixForwardIds {α : Type} (fromKeyBytes : Bytes → Option α) (idx : Index) (pre : Bytes)
    (after : Option Bytes) (limit : Nat) : Page Bytes α :=
  scanIndex idx pre (idOfKey fromKeyBytes) after limit

def iterBlocksByCreator (db : Db) (creator : Address) : Option Bytes → Nat → Page Bytes BlockId :=
  scanPrefixForwardIds FamilyId.fromKeyBytes db.blockByCreator creator.bytes

def iterOpsByCreator (db : Db) (creator : Address) : Option Bytes → Nat → Page Bytes OperationId :=
  scanPrefixForwardIds FamilyId.fromKeyBytes db.opByCreator creator.bytes

def iterOpsByTarget (db : Db) (target : Address) : Option Bytes → Nat → Page Bytes OperationId :=
  scanPrefixForwardIds FamilyId.fromKeyBytes db.opByTarget target.bytes

/-- Endorsements are listed by their display form. -/
def iterEndorsementsByCreator [Bs58Check] (db : Db) (creator : Address) (after : Option Bytes)
    (limit : Nat) : Page Bytes String :=
  let page : Page Bytes EndorsementId :=
    scanPrefixForwardIds FamilyId.fromKeyBytes db.endorsementByCreator creator.bytes after limit
  { items := page.items.map (·.text), nextCursor := page.nextCursor }

/-! ## Smart-contract events -/

def eventOfKey (db : Db) (k : Bytes) : Option StoredScEvent :=
  (parseIdxEvent k).bind fun parsed => db.scEvents.get (scEventKey parsed.1 parsed.2)

def iterScEventsWithPrefix (db : Db) (idx : Index) (pre : Bytes) :
    Option Bytes → Nat → Page Bytes StoredScEvent := scanIndex idx pre (eventOfKey db)

def iterScEventsByOp (db : Db) (opId : OperationId) : Option Bytes → Nat → Page Bytes StoredScEvent :=
  iterScEventsWithPrefix db db.scEventByOp opId.bytes

def iterScEventsByEmitter (db : Db) (addr : Address) :
    Option Bytes → Nat → Page Bytes StoredScEvent :=
  iterScEventsWithPrefix db db.scEventByEmitter addr.bytes

def iterScEventsByCaller (db : Db) (addr : Address) :
    Option Bytes → Nat → Page Bytes StoredScEvent :=
  iterScEventsWithPrefix db db.scEventByCaller addr.bytes

/-- The events of a slot, from the family itself. -/
def iterScEventsForSlot (db : Db) (s : Slot) (after : Option Bytes) (limit : Nat) :
    Page Bytes StoredScEvent :=
  (tablePager forward (slotKey s).isPrefixOf).page (some (slotKey s)) db.scEvents.rows.toList after limit

/-! ## Denunciations -/

def iterDenunciationsByAddr (db : Db) (addr : Address) :
    Option Bytes → Nat → Page Bytes StoredDenunciationEntry :=
  scanIndex db.denunciationByAddr addr.bytes fun k =>
    (parseIdxDenunciationByAddr k).bind fun parsed => db.denunciations.get parsed.2

/-- Newest first, through an index of its own. -/
def iterDenunciationsRecent (db : Db) : Option Bytes → Nat → Page Bytes StoredDenunciationEntry :=
  scanAllIndex db.denunciationRecent fun k =>
    (parseIdxDenunciationRecent k).bind fun parsed => db.denunciations.get parsed.2

/-! ## Transfers under an operation or a block -/

def transferOfKey (db : Db) (k : Bytes) : Option StoredTransfer :=
  (parseIdxIdSlotIndex k).bind fun parsed => db.transfers.get (transferKey parsed.1 parsed.2)

def iterTransfersViaIdx (db : Db) (idx : Index) (pre : Bytes) :
    Option Bytes → Nat → Page Bytes StoredTransfer := scanIndex idx pre (transferOfKey db)

def iterTransfersByOp (db : Db) (opId : OperationId) : Option Bytes → Nat → Page Bytes StoredTransfer :=
  iterTransfersViaIdx db db.transferByOp opId.bytes

def iterTransfersByBlock (db : Db) (blockId : BlockId) :
    Option Bytes → Nat → Page Bytes StoredTransfer :=
  iterTransfersViaIdx db db.transferByBlock blockId.bytes

/-! ## Async messages and deferred calls -/

inductive AsyncByAddr where
  | sender
  | destination

inductive DeferredByAddr where
  | sender
  | target

/-- `addr ‖ 0x00`; what follows is the id. -/
def addrPrefix (addr : Address) : Bytes := addr.bytes ++ [0]

def rowOfKey {V : Type} [Row V] (t : Table V) (pre : Bytes) (k : Bytes) : Option V :=
  t.get (k.drop pre.length)

def iterAsyncByAddr (db : Db) (addr : Address) (role : AsyncByAddr) :
    Option Bytes → Nat → Page Bytes StoredAsyncMsg :=
  let idx := match role with
    | .sender => db.asyncBySender
    | .destination => db.asyncByDest
  scanIndex idx (addrPrefix addr) (rowOfKey db.asyncMsgs (addrPrefix addr))

def iterAllAsync (db : Db) : Option Bytes → Nat → Page Bytes StoredAsyncMsg := scanAll db.asyncMsgs

def iterDeferredByAddr (db : Db) (addr : Address) (role : DeferredByAddr) :
    Option Bytes → Nat → Page Bytes StoredDeferredCall :=
  let idx := match role with
    | .sender => db.deferredBySender
    | .target => db.deferredByTarget
  scanIndex idx (addrPrefix addr) (rowOfKey db.deferredCalls (addrPrefix addr))

def iterAllDeferred (db : Db) : Option Bytes → Nat → Page Bytes StoredDeferredCall :=
  scanAll db.deferredCalls

/-! ## What the scans read -/

/-- From a cursor on, a scan reads a list: by one call that is not cut short, and by following its cursors
at any page size. -/
structure Reads {α : Type} (scan : Option Bytes → Nat → Page Bytes α) (after : Option Bytes)
    (rows : Nat) (whole : List α) : Prop where
  unlimited : ∀ limit, rows < limit → scan after limit = { items := whole }
  paged : ∀ limit, 0 < limit → Follows (scan · limit) after whole

section Readings

variable {α : Type}

/-- A pager from a start that is no row of its own. -/
theorem reads_page {ρ : Type} {S : Pager Bytes ρ α} {rows : List ρ} (first after : Option Bytes)
    (ordered : S.Ordered rows)
    (fresh : ∀ r ∈ S.seek rows (after.or first), after ≠ some (S.key r)) :
    Reads (S.page first rows) after rows.length (S.hits (S.seek rows (after.or first))) where
  unlimited limit above := Pager.page_unlimited (by omega) (by omega) fresh
  paged limit positive := Pager.follows_from ordered positive fresh

theorem Reads.unique {scan : Option Bytes → Nat → Page Bytes α} {after : Option Bytes} {rows rows' : Nat}
    {whole whole' : List α} (reads : Reads scan after rows whole)
        (reads' : Reads scan after rows' whole') :
    whole = whole' := by
  have here := reads.unlimited (rows + rows' + 1) (by omega)
  have there := reads'.unlimited (rows + rows' + 1) (by omega)
  exact congrArg Page.items (here.symm.trans there)

theorem Reads.map {β : Type} {scan : Option Bytes → Nat → Page Bytes α} {after : Option Bytes}
    {rows : Nat}
    {whole : List α} (reads : Reads scan after rows whole) (f : α → β) :
    Reads (fun c limit => ⟨(scan c limit).items.map f, (scan c limit).nextCursor⟩) after rows
      (whole.map f) where
  unlimited limit above := by rw [reads.unlimited limit above]
  paged limit positive := (reads.paged limit positive).map f

theorem ordered_index (idx : Index) (pre : Bytes) (hit : Bytes → Option α) :
    (indexPager pre hit).Ordered idx.toList where
  irrefl k := by
    have same : compare k k = .eq := Std.ReflCmp.compare_self
    simp [indexPager, forward, same]
  sorted := Std.ExtTreeSet.ordered_toList.imp fun {x y} less => by
    have before : compare x y = .lt := less
    simp [indexPager, forward, before]

theorem ordered_table {V : Type} [Row V] (t : Table V) (within : Bytes → Bool) :
    (tablePager forward within).Ordered t.rows.toList where
  irrefl k := by
    have same : compare k k = .eq := Std.ReflCmp.compare_self
    simp [tablePager, forward, same]
  sorted := Std.ExtTreeMap.ordered_keys_toList.imp fun {x y} less => by
    have before : compare x.1 y.1 = .lt := less
    simp [tablePager, forward, before]

theorem ordered_table_reverse {V : Type} [Row V] (t : Table V) (within : Bytes → Bool) :
    (tablePager reverse within).Ordered t.rows.toList.reverse where
  irrefl k := by
    have same : compare k k = .eq := Std.ReflCmp.compare_self
    simp [tablePager, reverse, same]
  sorted := List.pairwise_reverse.mpr (Std.ExtTreeMap.ordered_keys_toList.imp fun {x y} less => by
    have after : compare y.1 x.1 = .gt := Std.OrientedCmp.gt_of_lt less
    simp [tablePager, reverse, after])

/-- The entries of an index under a prefix, in key order. -/
def entriesUnder (idx : Index) (pre : Bytes) : List Bytes := idx.toList.filter pre.isPrefixOf

/-- Seeking to a prefix and reading while it lasts meets them all. -/
theorem walk_eq_entriesUnder (idx : Index) (pre : Bytes) :
    (idx.toList.dropWhile fun k => compare k pre == .lt).takeWhile pre.isPrefixOf =
      entriesUnder idx pre := by
  refine takeWhile_dropWhile_eq_filter (fun k inside => ?_) ?_
  · simpa using not_lt_of_isPrefix (List.isPrefixOf_iff_prefix.mp inside)
  · refine Std.ExtTreeSet.ordered_toList.imp fun {x y} ordered reached => ⟨?_, fun left => ?_⟩
    · simp only [beq_eq_false_iff_ne, ne_eq] at reached ⊢
      exact fun back => reached (Std.TransCmp.lt_trans ordered back)
    · simp only [beq_eq_false_iff_ne, ne_eq] at reached
      rw [← Bool.not_eq_true, List.isPrefixOf_iff_prefix] at left ⊢
      exact not_isPrefix_of_lt reached left ordered

theorem hits_index (idx : Index) (pre : Bytes) (hit : Bytes → Option α) :
    (indexPager pre hit).hits ((indexPager pre hit).seek idx.toList (some pre)) =
      (entriesUnder idx pre).filterMap hit :=
  congrArg (List.filterMap hit) (walk_eq_entriesUnder idx pre)

/-- **An index scan reads the entries under its prefix.** -/
theorem reads_scanIndex (idx : Index) (pre : Bytes) (hit : Bytes → Option α) :
    Reads (scanIndex idx pre hit) none idx.toList.length ((entriesUnder idx pre).filterMap hit) := by
  rw [← hits_index]
  exact reads_page (some pre) none (ordered_index idx pre hit) fun _ _ clash => by cases clash

theorem reads_scanAllIndex (idx : Index) (hit : Bytes → Option α) :
    Reads (scanAllIndex idx hit) none idx.toList.length (idx.toList.filterMap hit) := by
  have whole : (indexPager [] hit).range idx.toList = idx.toList :=
    List.takeWhile_eq_self_iff.mpr fun k _ => rfl
  have read := reads_page none none (ordered_index idx [] hit) fun _ _ clash => by cases clash
  have same : (indexPager [] hit).hits idx.toList = idx.toList.filterMap hit := by
    rw [Pager.hits, whole]
    rfl
  rw [← same]
  exact read

/-- A family's walk resolves every row to itself. -/
theorem hits_table {V : Type} (before : Bytes → Bytes → Bool) (within : Bytes → Bool)
    (rows : List (Bytes × V)) :
    (tablePager before within).hits rows = (rows.takeWhile fun r => within r.1).map Prod.snd :=
  congrFun (List.filterMap_eq_map' (f := Prod.snd)) (rows.takeWhile fun r => within r.1)

theorem reads_scanAll {V : Type} [Row V] (t : Table V) :
    Reads (scanAll t) none t.rows.toList.length t.toList := by
  have read := reads_page none none (ordered_table t fun _ => true) fun _ _ clash => by cases clash
  have whole : (tablePager forward fun _ => true).hits t.rows.toList = t.toList := by
    rw [hits_table, List.takeWhile_eq_self_iff.mpr fun _ _ => rfl]
    rfl
  rw [← whole]
  exact read

end Readings

/-- The events of a slot are read as `Table.under` reads them. -/
theorem reads_iterScEventsForSlot (db : Db) (s : Slot) :
    Reads (iterScEventsForSlot db s) none db.scEvents.rows.toList.length (db.scEventsOfSlot s) := by
  have read := reads_page (some (slotKey s)) none (ordered_table db.scEvents (slotKey s).isPrefixOf)
    fun _ _ clash => by cases clash
  rw [Option.none_or, hits_table] at read
  exact read

/-! ## The slots at or before one -/

/-- The slot rows whose keys do not come after a start, newest first. -/
def slotsFrom (db : Db) (start : Bytes) : List SlotState :=
  ((db.slots.rows.toList.reverse.filter fun r => compare r.1 start != .gt)).map Prod.snd

theorem hits_slots (db : Db) (start : Bytes) :
    (tablePager reverse fun _ => true).hits
      ((tablePager reverse fun _ => true).seek db.slots.rows.toList.reverse (some start)) =
        slotsFrom db start := by
  rw [hits_table, List.takeWhile_eq_self_iff.mpr fun _ _ => rfl]
  show (db.slots.rows.toList.reverse.dropWhile fun r => compare r.1 start == .gt).map Prod.snd = _
  rw [dropWhile_eq_filter]
  · rfl
  · refine (ordered_table_reverse db.slots fun _ => true).sorted.imp fun {x y} ordered reached => ?_
    have later : compare x.1 y.1 = .gt := by simpa [tablePager, reverse] using ordered
    simp only [beq_eq_false_iff_ne, ne_eq] at reached ⊢
    exact fun back => reached (Std.TransCmp.gt_trans later back)

theorem readSlot_of_mem {db : Db} {r : Bytes × SlotState} (stored : r ∈ db.slots.rows.toList) :
    slotKey r.2.slot = r.1 ∧ db.readSlot r.2.slot = some r.2 := by
  have found : db.slots.get r.1 = some r.2 :=
    Std.ExtTreeMap.mem_toList_iff_getElem?_eq_some.mp stored
  have filed : slotKey r.2.slot = r.1 := Table.key_of_get found
  refine ⟨filed, ?_⟩
  show db.slots.get (slotKey r.2.slot) = some r.2
  rw [filed, found]

/-- **The slots are read newest first, from a start that is no slot's key.** -/
theorem reads_iterSlotsDesc (db : Db) {after : Option Bytes}
    (synthetic : ∀ s : Slot, after ≠ some (slotKey s)) :
    Reads (iterSlotsDesc db) after db.slots.rows.toList.length
      (slotsFrom db (after.getD (slotKey maxSlot))) := by
  have read := reads_page (some (slotKey maxSlot)) after (ordered_table_reverse db.slots fun _ => true)
    fun r sought => by
      have stored : r ∈ db.slots.rows.toList :=
        List.mem_reverse.mp ((Pager.seek_suffix _ _).subset sought)
      show after ≠ some r.1
      rw [← (readSlot_of_mem stored).1]
      exact synthetic r.2.slot
  rw [Option.or_some, hits_slots, List.length_reverse] at read
  exact read

/-- One call reads the first of them. -/
theorem items_iterSlotsDesc (db : Db) {after : Option Bytes}
    (synthetic : ∀ s : Slot, after ≠ some (slotKey s)) (limit : Nat) :
    (iterSlotsDesc db after limit).items = (slotsFrom db (after.getD (slotKey maxSlot))).take limit := by
  have first : (iterSlotsDesc db after limit).items = _ :=
    Pager.items_page fun r sought => by
      have stored : r ∈ db.slots.rows.toList :=
        List.mem_reverse.mp ((Pager.seek_suffix _ _).subset sought)
      show after ≠ some r.1
      rw [← (readSlot_of_mem stored).1]
      exact synthetic r.2.slot
  rw [Option.or_some, hits_slots] at first
  exact first

/-- What is read from behind a slot is the slots at or before it. -/
theorem mem_slotsFrom {db : Db} {s : Slot} {row : SlotState} :
    row ∈ slotsFrom db (slotKey s ++ [0]) ↔ db.readSlot row.slot = some row ∧ ¬ s.lt row.slot = true := by
  have position : ∀ t : Slot, compare (slotKey t) (slotKey s ++ [0]) ≠ .gt ↔ ¬ s.lt t = true := by
    intro t
    have ends : compare ([] : Bytes) [0] = .lt := rfl
    have whole : compare (slotKey t) (slotKey s ++ [0]) = (compare (slotKey t) (slotKey s)).then .lt := by
      rw [← ends, ← compare_append (by simp), List.append_nil]
    rw [whole, ← compare_slotKey_eq_lt, ← Std.OrientedCmp.gt_iff_lt]
    cases compare (slotKey t) (slotKey s) <;> simp
  simp only [slotsFrom, List.mem_map, List.mem_filter, List.mem_reverse, bne_iff_ne]
  constructor
  · rintro ⟨r, ⟨stored, before⟩, rfl⟩
    obtain ⟨filed, found⟩ := readSlot_of_mem stored
    rw [← filed] at before
    exact ⟨found, (position _).mp before⟩
  · rintro ⟨found, before⟩
    refine ⟨(slotKey row.slot, row), ⟨?_, (position _).mpr before⟩, rfl⟩
    exact Std.ExtTreeMap.mem_toList_iff_getElem?_eq_some.mpr found

/-- Newest first, and no slot twice. -/
theorem pairwise_slotsFrom (db : Db) (start : Bytes) :
    (slotsFrom db start).Pairwise fun row later => later.slot.lt row.slot = true := by
  refine List.pairwise_map.mpr ?_
  have ordered := (ordered_table_reverse db.slots fun _ => true).sorted
  refine (ordered.imp_of_mem ?_).filter _
  intro x y memberX memberY newer
  have later : compare x.1 y.1 = .gt := by simpa [tablePager, reverse] using newer
  rw [← (readSlot_of_mem (List.mem_reverse.mp memberX)).1,
    ← (readSlot_of_mem (List.mem_reverse.mp memberY)).1] at later
  exact compare_slotKey_eq_lt.mp (Std.OrientedCmp.gt_iff_lt.mp later)

end MassaIndexer.Store.Scans
