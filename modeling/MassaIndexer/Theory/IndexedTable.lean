/-
# Theory.IndexedTable -- indexes derived from the rows of a table

An index is exact when its entries are those that the rows of its table have, and no others. Each entry names
the row it belongs to (`Entries.own`), so that rows of different keys share none, and a write has to look after
the entries of the one row it replaces:

* `exact_put_iff` -- entering a row's entries is enough exactly when the replaced row had no further ones.
* `exact_refresh` -- retiring what the new row lacks is enough in any case.
* `exact_new`, `exact_erase`, `exact_eraseUnder` -- a first write, a deletion, a cleared prefix.
* `exact_rebuild`, `Exact.unique` -- replaying the rows from an empty index gives the one exact index.
-/
import MassaIndexer.Theory.KeyedTable

namespace MassaIndexer.Theory.KeyedTable

set_option autoImplicit false

variable {V : Type} [Row V]

namespace Table

/-- A row as it is stored. -/
def Holds (t : Table V) (v : V) : Prop := t.get (Row.key v) = some v

theorem holds_of_get {t : Table V} {k : Bytes} {v : V} (found : t.get k = some v) : t.Holds v := by
  rw [Holds, key_of_get found]
  exact found

theorem holds_iff_mem {t : Table V} {v : V} : t.Holds v ↔ v ∈ t.toList := by
  simp only [toList, List.mem_map, Prod.exists, exists_eq_right]
  constructor
  · exact fun held => ⟨Row.key v, Std.ExtTreeMap.mem_toList_iff_getElem?_eq_some.mpr held⟩
  · rintro ⟨k, member⟩
    exact holds_of_get (Std.ExtTreeMap.mem_toList_iff_getElem?_eq_some.mp member)

theorem stored_of_holds {t : Table V} {v : V} (held : t.Holds v) : Row.stored v = v :=
  stored_of_get held

theorem holds_put {t : Table V} {v w : V} :
    (t.put v).Holds w ↔ w = Row.stored v ∨ Row.key w ≠ Row.key v ∧ t.Holds w := by
  rw [Holds, get_put]
  by_cases same : Row.key v = Row.key w
  · rw [if_pos same]
    constructor
    · exact fun here => .inl (Option.some.inj here).symm
    · rintro (rfl | ⟨differ, -⟩)
      · rfl
      · exact absurd same.symm differ
  · rw [if_neg same]
    constructor
    · exact fun held => .inr ⟨Ne.symm same, held⟩
    · rintro (rfl | ⟨-, held⟩)
      · exact absurd (Row.key_stored v).symm same
      · exact held

theorem holds_erase {t : Table V} {k : Bytes} {w : V} :
    (t.erase k).Holds w ↔ Row.key w ≠ k ∧ t.Holds w := by
  rw [Holds, get_erase]
  by_cases same : k = Row.key w
  · simp [same]
  · simp [same, Ne.symm same, Holds]

theorem holds_eraseUnder {t : Table V} {p : Bytes} {w : V} :
    (t.eraseUnder p).Holds w ↔ ¬ p <+: Row.key w ∧ t.Holds w := by
  rw [Holds, get_eraseUnder]
  by_cases below : p <+: Row.key w
  · simp [below]
  · simp [below, Holds]

end Table

/-- The entries of a row in an index: kept by the codec, and naming the row. -/
structure Entries (keys : V → List Bytes) : Prop where
  stored : ∀ v, keys (Row.stored v) = keys v
  own : ∀ v w, ∀ k ∈ keys v, k ∈ keys w → Row.key v = Row.key w

/-- Entries from which the key of their row can be read. -/
theorem Entries.of_read {keys : V → List Bytes} (read : Bytes → Option Bytes)
    (stored : ∀ v, keys (Row.stored v) = keys v)
    (reads : ∀ v, ∀ k ∈ keys v, read k = some (Row.key v)) : Entries keys where
  stored := stored
  own v w k ofV ofW := Option.some.inj ((reads v k ofV).symm.trans (reads w k ofW))

/-- **The entries of an index are those of the rows.** -/
def Exact (keys : V → List Bytes) (t : Table V) (idx : Index) : Prop :=
  ∀ k, k ∈ idx ↔ ∃ v, t.Holds v ∧ k ∈ keys v

/-- Every row has its entries. -/
def Covers (keys : V → List Bytes) (t : Table V) (idx : Index) : Prop :=
  ∀ v, t.Holds v → ∀ k ∈ keys v, k ∈ idx

variable {keys : V → List Bytes} {t : Table V} {idx idx' : Index} {v : V}

theorem Exact.covers (exact_ : Exact keys t idx) : Covers keys t idx :=
  fun v held k entered => (exact_ k).mpr ⟨v, held, entered⟩

theorem Exact.unique (here : Exact keys t idx) (there : Exact keys t idx') : idx = idx' :=
  Std.ExtTreeSet.ext_mem fun k => (here k).trans (there k).symm

theorem exact_empty (keys : V → List Bytes) : Exact keys Table.empty ∅ := by
  intro k
  simp [Table.Holds, Std.ExtTreeSet.not_mem_empty]

/-- **A write that only enters is right exactly when the replaced row had no further entries.** -/
theorem exact_put_iff (entries : Entries keys) (exact_ : Exact keys t idx) (v : V) :
    Exact keys (t.put v) (Index.insertAll idx (keys v)) ↔
      ∀ old, t.get (Row.key v) = some old → ∀ k ∈ keys old, k ∈ keys v := by
  constructor
  · intro after old found k entered
    obtain ⟨w, held, has⟩ := (after k).mp
      (Index.mem_insertAll.mpr (.inr ((exact_ k).mpr ⟨old, Table.holds_of_get found, entered⟩)))
    have here : Row.key w = Row.key v :=
      (entries.own w old k has entered).trans (Table.key_of_get found)
    rcases Table.holds_put.mp held with rfl | ⟨differ, -⟩
    · rwa [entries.stored] at has
    · exact absurd here differ
  · intro kept k
    rw [Index.mem_insertAll, exact_ k]
    constructor
    · rintro (new | ⟨w, held, has⟩)
      · exact ⟨Row.stored v, Table.holds_put.mpr (.inl rfl), by rwa [entries.stored]⟩
      · by_cases here : Row.key w = Row.key v
        · have old : t.get (Row.key v) = some w := by rw [← here]; exact held
          exact ⟨Row.stored v, Table.holds_put.mpr (.inl rfl), by
            rw [entries.stored]
            exact kept w old k has⟩
        · exact ⟨w, Table.holds_put.mpr (.inr ⟨here, held⟩), has⟩
    · rintro ⟨w, held, has⟩
      rcases Table.holds_put.mp held with rfl | ⟨-, held⟩
      · exact .inl (by rwa [entries.stored] at has)
      · exact .inr ⟨w, held, has⟩

/-- A first write. -/
theorem exact_new (entries : Entries keys) (exact_ : Exact keys t idx)
    (absent : t.get (Row.key v) = none) :
    Exact keys (t.put v) (Index.insertAll idx (keys v)) :=
  (exact_put_iff entries exact_ v).mpr fun old found => by
    rw [absent] at found
    cases found

/-- A row replaced by one with the same entries, which are not entered again. -/
theorem exact_put_same (entries : Entries keys) (exact_ : Exact keys t idx) {old : V}
    (found : t.get (Row.key v) = some old) (same : keys old = keys v) : Exact keys (t.put v) idx := by
  have known : Index.insertAll idx (keys v) = idx := Index.insertAll_eq_self_iff.mpr fun k entered =>
    exact_.covers old (Table.holds_of_get found) k (same ▸ entered)
  rw [← known]
  refine (exact_put_iff entries exact_ v).mpr fun old' found' k entered => ?_
  rw [found] at found'
  rw [← same, Option.some.inj found']
  exact entered

/-- **A write that retires entries of the replaced row, all that the new row lacks among them.** -/
theorem exact_refresh (entries : Entries keys) (exact_ : Exact keys t idx) {retired : List Bytes}
    (ours : ∀ k ∈ retired, ∃ old, t.get (Row.key v) = some old ∧ k ∈ keys old)
    (enough : ∀ old, t.get (Row.key v) = some old → ∀ k ∈ keys old, k ∈ keys v ∨ k ∈ retired) :
    Exact keys (t.put v) (Index.insertAll (Index.eraseAll idx retired) (keys v)) := by
  intro k
  rw [Index.mem_insertAll, Index.mem_eraseAll, exact_ k]
  constructor
  · rintro (new | ⟨⟨w, held, has⟩, stays⟩)
    · exact ⟨Row.stored v, Table.holds_put.mpr (.inl rfl), by rwa [entries.stored]⟩
    · by_cases here : Row.key w = Row.key v
      · have old : t.get (Row.key v) = some w := by rw [← here]; exact held
        exact ⟨Row.stored v, Table.holds_put.mpr (.inl rfl), by
          rw [entries.stored]
          exact (enough w old k has).resolve_right stays⟩
      · exact ⟨w, Table.holds_put.mpr (.inr ⟨here, held⟩), has⟩
  · rintro ⟨w, held, has⟩
    rcases Table.holds_put.mp held with rfl | ⟨differ, held⟩
    · exact .inl (by rwa [entries.stored] at has)
    · refine .inr ⟨⟨w, held, has⟩, fun gone => ?_⟩
      obtain ⟨old, found, entered⟩ := ours k gone
      exact differ ((entries.own w old k has entered).trans (Table.key_of_get found))

/-- A deletion takes the entries of the row along. -/
theorem exact_erase (entries : Entries keys) (exact_ : Exact keys t idx)
    (found : t.get (Row.key v) = some v) :
    Exact keys (t.erase (Row.key v)) (Index.eraseAll idx (keys v)) := by
  intro k
  rw [Index.mem_eraseAll, exact_ k]
  constructor
  · rintro ⟨⟨w, held, has⟩, stays⟩
    refine ⟨w, Table.holds_erase.mpr ⟨fun here => ?_, held⟩, has⟩
    have same : t.get (Row.key v) = some w := by rw [← here]; exact held
    rw [found] at same
    exact stays (Option.some.inj same ▸ has)
  · rintro ⟨w, held, has⟩
    obtain ⟨differ, held⟩ := Table.holds_erase.mp held
    exact ⟨⟨w, held, has⟩, fun gone => differ (entries.own w v k has gone)⟩

/-- A cleared prefix takes the entries of its rows along. -/
theorem exact_eraseUnder (entries : Entries keys) (exact_ : Exact keys t idx) (p : Bytes) :
    Exact keys (t.eraseUnder p) (Index.eraseAll idx ((t.under p).flatMap keys)) := by
  intro k
  rw [Index.mem_eraseAll, exact_ k, List.mem_flatMap]
  constructor
  · rintro ⟨⟨w, held, has⟩, stays⟩
    refine ⟨w, Table.holds_eraseUnder.mpr ⟨fun below => ?_, held⟩, has⟩
    exact stays ⟨w, Table.mem_under_iff.mpr ⟨held, below⟩, has⟩
  · rintro ⟨w, held, has⟩
    obtain ⟨outside, held⟩ := Table.holds_eraseUnder.mp held
    refine ⟨⟨w, held, has⟩, ?_⟩
    rintro ⟨u, cleared, entered⟩
    obtain ⟨-, below⟩ := Table.mem_under_iff.mp cleared
    exact outside ((entries.own w u k has entered) ▸ below)

/-- The entries of a list of rows, entered one row after the other. -/
def enterAll {α : Type} (keys : α → List Bytes) (rows : List α) (idx : Index) : Index :=
  rows.foldl (fun idx v => Index.insertAll idx (keys v)) idx

/-- **Replaying the rows gives the exact index.** -/
theorem exact_rebuild (keys : V → List Bytes) (t : Table V) : Exact keys t (enterAll keys t.toList ∅) := by
  intro k
  rw [enterAll, Index.mem_foldl_insertAll]
  simp only [Std.ExtTreeSet.not_mem_empty, or_false, Table.holds_iff_mem]

/-- Entering rows again changes nothing. -/
theorem enterAll_enterAll {α : Type} (keys : α → List Bytes) (rows : List α) (idx : Index) :
    enterAll keys rows (enterAll keys rows idx) = enterAll keys rows idx := by
  refine Std.ExtTreeSet.ext_mem fun k => ?_
  simp only [enterAll, Index.mem_foldl_insertAll]
  exact or_self_left

/-! ## Rows that keep their entries whatever is written

A table that only grows stale entries still covers its rows. -/

theorem covers_put (entries : Entries keys) (covered : Covers keys t idx) (v : V) :
    Covers keys (t.put v) (Index.insertAll idx (keys v)) := by
  intro w held k entered
  rcases Table.holds_put.mp held with rfl | ⟨-, held⟩
  · exact Index.mem_insertAll.mpr (.inl (by rwa [entries.stored] at entered))
  · exact Index.mem_insertAll.mpr (.inr (covered w held k entered))

theorem covers_eraseUnder (entries : Entries keys) (covered : Covers keys t idx) (p : Bytes) :
    Covers keys (t.eraseUnder p) (Index.eraseAll idx ((t.under p).flatMap keys)) := by
  intro w held k entered
  obtain ⟨outside, held⟩ := Table.holds_eraseUnder.mp held
  refine Index.mem_eraseAll.mpr ⟨covered w held k entered, fun gone => ?_⟩
  obtain ⟨u, cleared, has⟩ := List.mem_flatMap.mp gone
  obtain ⟨-, below⟩ := Table.mem_under_iff.mp cleared
  exact outside ((entries.own w u k entered has) ▸ below)

end MassaIndexer.Theory.KeyedTable
