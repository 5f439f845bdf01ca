/-
# Store.Listings -- what a scan of an exact index lists

Where an index is the image of its rows, the entries under a prefix are those of the rows that have
one there. Read in key order they are these rows, each once, in the order their entries stand in
(`lists_of_exact`), and a scan lists what it shows of each row (`reads_listing`).
-/
import MassaIndexer.Theory.IndexedTable
import MassaIndexer.Store.Scans

namespace MassaIndexer.Store.Listings

open MassaIndexer.Theory.KeyedTable MassaIndexer.Theory.Cursor
open MassaIndexer.Store.Scans

set_option autoImplicit false

variable {V α : Type} [Row V]

/-- A list of the rows of a table that have a property, in a strict order. -/
structure Lists (t : Table V) (P : V → Prop) (before : V → V → Prop) (rows : List V) : Prop where
  mem : ∀ v, v ∈ rows ↔ t.Holds v ∧ P v
  sorted : rows.Pairwise before
  strict : ∀ v, ¬ before v v

variable {t : Table V} {P : V → Prop} {before : V → V → Prop} {rows : List V}

theorem Lists.nodup (lists : Lists t P before rows) : rows.Nodup :=
  lists.sorted.imp fun {v w} (earlier : before v w) (same : v = w) => lists.strict v (same ▸ earlier)

/-- Two lists of the same rows in two orders, of which one row comes first in each. -/
theorem Lists.agree {before' : V → V → Prop} {v w : V} (lists : Lists t P before rows)
    (lists' : Lists t P before' rows) (inV : v ∈ rows) (inW : w ∈ rows) (apart : v ≠ w) :
    before v w ∧ before' v w ∨ before w v ∧ before' w v := by
  have sorted : rows.Pairwise fun x y => before x y ∧ before' x y :=
    List.pairwise_and_iff.mpr ⟨lists.sorted, lists'.sorted⟩
  have either : rows.Pairwise fun x y => before x y ∧ before' x y ∨ before y x ∧ before' y x :=
    sorted.imp .inl
  have symmetric : Std.Symm fun x y => before x y ∧ before' x y ∨ before y x ∧ before' y x :=
    ⟨fun _ _ => Or.symm⟩
  exact either.forall inV inW apart

theorem nodup_toList (t : Table V) : t.toList.Nodup := by
  refine List.Nodup.map_on ?_ ?_
  · rintro ⟨k, v⟩ inK ⟨k', v'⟩ inK' (values : v = v')
    have keyV := Table.key_of_get (t := t) (Std.ExtTreeMap.mem_toList_iff_getElem?_eq_some.mp inK)
    have keyV' := Table.key_of_get (t := t) (Std.ExtTreeMap.mem_toList_iff_getElem?_eq_some.mp inK')
    rw [← keyV, ← keyV', values]
  · refine Std.ExtTreeMap.ordered_keys_toList.imp fun {x y} (less : compare x.1 y.1 = .lt)
      (equal : x = y) => ?_
    have again : compare x.1 y.1 = .eq := equal ▸ Std.ReflCmp.compare_self
    rw [again] at less
    cases less

section Rank

variable [DecidablePred P] [DecidableRel before]

/-- How many rows of a list come before one. -/
def rankIn (t : Table V) (P : V → Prop) (before : V → V → Prop) [DecidablePred P] [DecidableRel before]
    (v : V) : Nat := (t.toList.filter fun u => P u ∧ before u v).length

/-- In a list a row stands behind those that come before it. -/
theorem Lists.rank (lists : Lists t P before rows)
    (trans : ∀ {u v w}, before u v → before v w → before u w) {front back : List V} {v : V}
    (split : rows = front ++ v :: back) : rankIn t P before v = front.length := by
  have sorted := lists.sorted
  rw [split] at sorted
  obtain ⟨-, behind, across⟩ := List.pairwise_append.mp sorted
  have same : (t.toList.filter fun u => P u ∧ before u v).Perm front := by
    refine (List.perm_ext_iff_of_nodup ((nodup_toList t).filter _) ?_).mpr fun u => ?_
    · have whole := lists.nodup
      rw [split] at whole
      exact (List.nodup_append.mp whole).1
    · have listed := lists.mem u
      rw [split, List.mem_append, List.mem_cons] at listed
      simp only [List.mem_filter, decide_eq_true_eq, ← Table.holds_iff_mem]
      constructor
      · rintro ⟨held, has, earlier⟩
        rcases listed.mpr ⟨held, has⟩ with inFront | rfl | inBack
        · exact inFront
        · exact absurd earlier (lists.strict _)
        · exact absurd (trans earlier ((List.pairwise_cons.mp behind).1 u inBack)) (lists.strict _)
      · intro inFront
        obtain ⟨held, has⟩ := listed.mp (.inl inFront)
        exact ⟨held, has, across u inFront v List.mem_cons_self⟩
  exact same.length_eq

/-- The first rows of a list are those with few before them. -/
theorem Lists.mem_take_iff (lists : Lists t P before rows)
    (trans : ∀ {u v w}, before u v → before v w → before u w) {v : V} {n : Nat} (listed : v ∈ rows) :
    v ∈ rows.take n ↔ rankIn t P before v < n := by
  obtain ⟨front, back, split⟩ := List.append_of_mem listed
  have single := lists.nodup
  rw [split, List.nodup_append] at single
  rw [lists.rank trans split, split, List.take_append]
  constructor
  · intro member
    rcases List.mem_append.mp member with inFront | inRest
    · exact absurd rfl (single.2.2 v (List.mem_of_mem_take inFront) v List.mem_cons_self)
    · by_contra far
      have nothing : n - front.length = 0 := by omega
      rw [nothing, List.take_zero] at inRest
      cases inRest
  · intro near
    have room : n - front.length = (n - front.length - 1) + 1 := by omega
    rw [room, List.take_succ_cons]
    exact List.mem_append_right _ List.mem_cons_self

end Rank

/-- Two lists of the same rows are equally long. -/
theorem Lists.length_eq {rows' : List V} {before' : V → V → Prop} (lists : Lists t P before rows)
    (lists' : Lists t P before' rows') : rows.length = rows'.length := by
  refine ((List.perm_ext_iff_of_nodup lists.nodup lists'.nodup).mpr fun v => ?_).length_eq
  rw [lists.mem, lists'.mem]

/-- The rows whose entries lie under a prefix, in the order of the entries. -/
def rowsUnder (idx : Index) (pre : Bytes) (read : Bytes → Option Bytes) (t : Table V) : List V :=
  (entriesUnder idx pre).filterMap fun k => (read k).bind t.get

section Exact

variable {keys : V → List Bytes} {idx : Index} {pre : Bytes} {read : Bytes → Option Bytes}

theorem mem_entriesUnder {k : Bytes} : k ∈ entriesUnder idx pre ↔ k ∈ idx ∧ pre <+: k := by
  simp [entriesUnder, List.mem_filter]

theorem sorted_entriesUnder : (entriesUnder idx pre).Pairwise fun k k' => compare k k' = .lt :=
  Std.ExtTreeSet.ordered_toList.sublist List.filter_sublist

/-- **An exact index lists the rows that have an entry under the prefix.** -/
theorem lists_of_exact (exact_ : Exact keys t idx)
    (reads : ∀ v, ∀ k ∈ keys v, read k = some (Row.key v)) (strict : ∀ v, ¬ before v v)
    (under : ∀ v, P v ↔ ∃ k ∈ keys v, pre <+: k)
    (order : ∀ v w, ∀ k ∈ keys v, ∀ k' ∈ keys w, pre <+: k → pre <+: k' →
      compare k k' = .lt → before v w) :
    Lists t P before (rowsUnder idx pre read t) where
  mem v := by
    simp only [rowsUnder, List.mem_filterMap, mem_entriesUnder]
    constructor
    · rintro ⟨k, ⟨entered, below⟩, row⟩
      obtain ⟨w, held, has⟩ := (exact_ k).mp entered
      rw [reads w k has, Option.bind_some] at row
      obtain rfl : w = v := Option.some.inj (held.symm.trans row)
      exact ⟨held, (under w).mpr ⟨k, has, below⟩⟩
    · rintro ⟨held, has⟩
      obtain ⟨k, entered, below⟩ := (under v).mp has
      refine ⟨k, ⟨(exact_ k).mpr ⟨v, held, entered⟩, below⟩, ?_⟩
      rw [reads v k entered]
      exact held
  sorted := by
    refine List.pairwise_filterMap.mpr ?_
    refine sorted_entriesUnder.imp_of_mem ?_
    intro k k' inK inK' less v rowV w rowW
    obtain ⟨v', heldV, hasV⟩ := (exact_ k).mp (mem_entriesUnder.mp inK).1
    obtain ⟨w', heldW, hasW⟩ := (exact_ k').mp (mem_entriesUnder.mp inK').1
    rw [reads v' k hasV, Option.bind_some] at rowV
    rw [reads w' k' hasW, Option.bind_some] at rowW
    obtain rfl : v' = v := Option.some.inj (heldV.symm.trans rowV)
    obtain rfl : w' = w := Option.some.inj (heldW.symm.trans rowW)
    exact order v' w' k hasV k' hasW (mem_entriesUnder.mp inK).2 (mem_entriesUnder.mp inK').2 less
  strict := strict

/-- What a scan shows of each row. -/
theorem hits_of_exact (exact_ : Exact keys t idx)
    (reads : ∀ v, ∀ k ∈ keys v, read k = some (Row.key v)) {hit : Bytes → Option α} {image : V → α}
    (resolves : ∀ v, t.Holds v → ∀ k ∈ keys v, hit k = some (image v)) :
    (entriesUnder idx pre).filterMap hit = (rowsUnder idx pre read t).map image := by
  rw [rowsUnder, List.map_filterMap]
  refine List.filterMap_congr fun k member => ?_
  obtain ⟨v, held, has⟩ := (exact_ k).mp (mem_entriesUnder.mp member).1
  have row : (read k).bind t.get = some v := by
    rw [reads v k has]
    exact held
  rw [row, resolves v held k has]
  rfl

/-- **A scan of an exact index lists what it shows of the rows under its prefix.** -/
theorem reads_of_exact (exact_ : Exact keys t idx)
    (reads : ∀ v, ∀ k ∈ keys v, read k = some (Row.key v)) {hit : Bytes → Option α} {image : V → α}
    (resolves : ∀ v, t.Holds v → ∀ k ∈ keys v, hit k = some (image v)) :
    Reads (scanIndex idx pre hit) none idx.toList.length ((rowsUnder idx pre read t).map image) := by
  rw [← hits_of_exact exact_ reads resolves]
  exact reads_scanIndex idx pre hit

end Exact

end MassaIndexer.Store.Listings
