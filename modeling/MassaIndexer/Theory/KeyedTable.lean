/-
# Theory.KeyedTable -- ordered tables of self-keyed rows behind a codec

A column family maps byte keys to encoded rows, and every row is filed under a key computed from
the row itself. `Row` names that key and the form in which a written row is read back; `Table`
carries the law that what is stored under a key is a row of that key in its read-back form, so no
reader has to consider a row that does not decode or sits at a foreign key.

* `get_put`, `get_erase`, `ext_get` -- point reads determine a table.
* `under_eq_filter` -- a scan that seeks to a key prefix and stops at the first foreign key returns
  all the rows under that prefix, in key order, and no other (`mem_under_iff`).
* `get_eraseUnder` -- erasing what such a scan returns empties the prefix and touches nothing else;
  filing there what another table has makes the scans agree (`under_replace`).

An index family (`Index`) holds keys alone.
-/
import Mathlib.Tactic.Common

namespace MassaIndexer.Theory.KeyedTable

set_option autoImplicit false

/-- Byte strings in lexicographic order: the keys of a store. -/
abbrev Bytes := List UInt8

/-! ## Prefixes in the byte order -/

theorem compare_cons (a b : UInt8) (as bs : Bytes) :
    compare (a :: as) (b :: bs) = (compare a b).then (compare as bs) :=
  List.compareLex_cons_cons

theorem compare_append {a a' b b' : Bytes} (width : a.length = a'.length) :
    compare (a ++ b) (a' ++ b') = (compare a a').then (compare b b') := by
  induction a generalizing a' with
  | nil =>
      obtain rfl : a' = [] := List.length_eq_zero_iff.mp width.symm
      simp
  | cons x a ih =>
      cases a' with
      | nil => cases width
      | cons y a' =>
          rw [List.cons_append, List.cons_append, compare_cons, compare_cons, ih (Nat.succ.inj width),
            Ordering.then_assoc]

theorem not_lt_of_isPrefix {p k : Bytes} (below : p <+: k) : compare k p ≠ .lt := by
  induction p generalizing k with
  | nil => cases k <;> simp
  | cons a p ih =>
      obtain ⟨rest, rfl⟩ := below
      simpa [compare_cons] using ih (List.prefix_append p rest)

/-- Past the first key that leaves a prefix, no later key returns to it. -/
theorem not_isPrefix_of_lt {p k k' : Bytes} (reached : compare k p ≠ .lt) (left : ¬ p <+: k)
    (later : compare k k' = .lt) : ¬ p <+: k' := by
  induction p generalizing k k' with
  | nil => exact absurd List.nil_prefix left
  | cons a p ih =>
      cases k with
      | nil => exact absurd rfl reached
      | cons b k =>
          cases k' with
          | nil => simp at later
          | cons c k' =>
              rw [compare_cons] at reached later
              rintro ⟨rest, same⟩
              obtain ⟨rfl, rfl⟩ := List.cons.inj same
              cases first : compare b a with
              | lt => simp [first] at reached
              | gt => simp [first] at later
              | eq =>
                  obtain rfl : b = a := Std.LawfulEqOrd.eq_of_compare first
                  have inner : ¬ p <+: k := fun within => left (List.cons_prefix_cons.mpr ⟨rfl, within⟩)
                  simp only [first] at reached later
                  exact ih reached inner later (List.prefix_append p rest)

/-! ## Scans of a sorted list -/

/-- Seeking past the early elements and stopping at the first one outside `q` is filtering by `q`,
when leaving `q` is permanent. -/
theorem takeWhile_dropWhile_eq_filter {α : Type} {d q : α → Bool} {l : List α}
    (reached : ∀ x, q x = true → d x = false)
    (sorted : l.Pairwise fun x y => d x = false → d y = false ∧ (q x = false → q y = false)) :
    (l.dropWhile d).takeWhile q = l.filter q := by
  induction l with
  | nil => rfl
  | cons x l ih =>
      obtain ⟨fromX, rest⟩ := List.pairwise_cons.mp sorted
      cases early : d x with
      | true =>
          have outside : q x = false := by
            cases inside : q x with
            | false => rfl
            | true => rw [reached x inside] at early; exact absurd early (by decide)
          rw [List.dropWhile_cons_of_pos early, List.filter_cons_of_neg (by simp [outside]), ih rest]
      | false =>
          rw [List.dropWhile_cons_of_neg (by simp [early])]
          cases inside : q x with
          | false =>
              have none_later : l.filter q = [] := List.filter_eq_nil_iff.mpr fun y member => by
                simp [(fromX y member early).2 inside]
              rw [List.takeWhile_cons_of_neg (by simp [inside]),
                List.filter_cons_of_neg (by simp [inside]), none_later]
          | true =>
              have skipNone : l.dropWhile d = l := by
                cases l with
                | nil => rfl
                | cons y l =>
                    exact List.dropWhile_cons_of_neg (by simp [(fromX y (by simp) early).1])
              rw [List.takeWhile_cons_of_pos inside, List.filter_cons_of_pos inside, ← ih rest,
                skipNone]

/-- Seeking past the early elements is dropping them, when none comes later. -/
theorem dropWhile_eq_filter {α : Type} {d : α → Bool} {l : List α}
    (sorted : l.Pairwise fun x y => d x = false → d y = false) :
    l.dropWhile d = l.filter fun x => !d x := by
  induction l with
  | nil => rfl
  | cons x l ih =>
      obtain ⟨fromX, rest⟩ := List.pairwise_cons.mp sorted
      cases early : d x with
      | true =>
          rw [List.dropWhile_cons_of_pos early, List.filter_cons_of_neg (by simp [early]), ih rest]
      | false =>
          rw [List.dropWhile_cons_of_neg (by simp [early]), List.filter_eq_self.mpr]
          intro y member
          rcases List.mem_cons.mp member with rfl | later
          · simp [early]
          · simp [fromX y later early]

/-! ## Tables -/

/-- A row type: the key it is filed under, and the form it is read back in. -/
class Row (V : Type) where
  key : V → Bytes
  stored : V → V
  stored_stored : ∀ v, stored (stored v) = stored v
  key_stored : ∀ v, key (stored v) = key v

/-- A column family: every row sits at its own key, in its read-back form. -/
structure Table (V : Type) [Row V] where
  rows : Std.ExtTreeMap Bytes V
  filed : ∀ k v, rows[k]? = some v → Row.key v = k ∧ Row.stored v = v

namespace Table

variable {V : Type} [Row V]

def empty : Table V := ⟨∅, by simp⟩

def get (t : Table V) (k : Bytes) : Option V := t.rows[k]?

/-- File a row under its own key, replacing what is there. -/
def put (t : Table V) (v : V) : Table V where
  rows := t.rows.insert (Row.key v) (Row.stored v)
  filed := by
    intro k w found
    rw [Std.ExtTreeMap.getElem?_insert] at found
    split at found
    · next same =>
        obtain rfl := Option.some.inj found
        exact ⟨(Row.key_stored v).trans (Std.LawfulEqOrd.eq_of_compare same), Row.stored_stored v⟩
    · exact t.filed k w found

def erase (t : Table V) (k : Bytes) : Table V where
  rows := t.rows.erase k
  filed := by
    intro k' w found
    rw [Std.ExtTreeMap.getElem?_erase] at found
    split at found
    · exact absurd found (by simp)
    · exact t.filed k' w found

/-- Rows in key order. -/
def toList (t : Table V) : List V := t.rows.toList.map Prod.snd

/-- Seek to `p`, then read rows until the first key without that prefix. -/
def under (t : Table V) (p : Bytes) : List V :=
  ((t.rows.toList.dropWhile fun kv => compare kv.1 p == .lt).takeWhile
    fun kv => p.isPrefixOf kv.1).map Prod.snd

/-- Delete every row a scan of the prefix returns. -/
def eraseUnder (t : Table V) (p : Bytes) : Table V :=
  (t.under p).foldl (fun t v => t.erase (Row.key v)) t

@[simp] theorem get_empty (k : Bytes) : (empty : Table V).get k = none := by simp [empty, get]

theorem get_put (t : Table V) (v : V) (k : Bytes) :
    (t.put v).get k = if Row.key v = k then some (Row.stored v) else t.get k := by
  simp [get, put, Std.ExtTreeMap.getElem?_insert]

@[simp] theorem get_put_self (t : Table V) (v : V) :
    (t.put v).get (Row.key v) = some (Row.stored v) := by simp [get_put]

theorem get_erase (t : Table V) (k k' : Bytes) :
    (t.erase k).get k' = if k = k' then none else t.get k' := by
  simp [get, erase, Std.ExtTreeMap.getElem?_erase]

theorem key_of_get {t : Table V} {k : Bytes} {v : V} (found : t.get k = some v) :
    Row.key v = k := (t.filed k v found).1

theorem stored_of_get {t : Table V} {k : Bytes} {v : V} (found : t.get k = some v) :
    Row.stored v = v := (t.filed k v found).2

/-- Point reads determine a table. -/
theorem ext_get {t u : Table V} (same : ∀ k, t.get k = u.get k) : t = u := by
  cases t
  cases u
  congr
  exact Std.ExtTreeMap.ext_getElem? same

/-- Writing back a row just read changes nothing. -/
theorem put_of_get {t : Table V} {k : Bytes} {v : V} (found : t.get k = some v) : t.put v = t := by
  refine ext_get fun k' => ?_
  rw [get_put, key_of_get found, stored_of_get found]
  split
  · next same => rw [← same, found]
  · rfl

theorem under_eq_filter (t : Table V) (p : Bytes) :
    t.under p = (t.rows.toList.filter fun kv => p.isPrefixOf kv.1).map Prod.snd := by
  unfold under
  rw [takeWhile_dropWhile_eq_filter]
  · intro kv inside
    simpa using not_lt_of_isPrefix (List.isPrefixOf_iff_prefix.mp inside)
  · refine Std.ExtTreeMap.ordered_keys_toList.imp fun {x y} ordered reached => ⟨?_, fun left => ?_⟩
    · simp only [beq_eq_false_iff_ne, ne_eq] at reached ⊢
      exact fun back => reached (Std.TransCmp.lt_trans ordered back)
    · simp only [beq_eq_false_iff_ne, ne_eq] at reached
      rw [← Bool.not_eq_true, List.isPrefixOf_iff_prefix] at left ⊢
      exact not_isPrefix_of_lt reached left ordered

theorem mem_under_iff {t : Table V} {p : Bytes} {v : V} :
    v ∈ t.under p ↔ t.get (Row.key v) = some v ∧ p <+: Row.key v := by
  simp only [under_eq_filter, List.mem_map, List.mem_filter, Prod.exists, exists_eq_right,
    Std.ExtTreeMap.mem_toList_iff_getElem?_eq_some, List.isPrefixOf_iff_prefix]
  constructor
  · rintro ⟨k, found, below⟩
    obtain rfl : Row.key v = k := key_of_get (t := t) found
    exact ⟨found, below⟩
  · rintro ⟨found, below⟩
    exact ⟨_, found, below⟩

theorem get_foldl_erase (vs : List V) (t : Table V) (k : Bytes) :
    (vs.foldl (fun t v => t.erase (Row.key v)) t).get k =
      if ∃ v ∈ vs, Row.key v = k then none else t.get k := by
  induction vs generalizing t with
  | nil => simp
  | cons v vs ih =>
      rw [List.foldl_cons, ih, get_erase]
      by_cases later : ∃ w ∈ vs, Row.key w = k <;> by_cases here : Row.key v = k <;>
        simp_all

/-- Of the rows filed under a key the last one stays. -/
theorem get_foldl_put (vs : List V) (t : Table V) (k : Bytes) :
    (vs.foldl put t).get k =
      ((vs.filter fun v => Row.key v = k).getLast?.map Row.stored).or (t.get k) := by
  induction vs generalizing t with
  | nil => rfl
  | cons v vs ih =>
      rw [List.foldl_cons, ih, get_put]
      by_cases here : Row.key v = k
      · rw [List.filter_cons_of_pos (by simpa using here), if_pos here, List.getLast?_cons]
        cases (vs.filter fun v => Row.key v = k).getLast? <;> rfl
      · rw [List.filter_cons_of_neg (by simpa using here), if_neg here]

theorem get_eraseUnder (t : Table V) (p k : Bytes) :
    (t.eraseUnder p).get k = if p <+: k then none else t.get k := by
  rw [eraseUnder, get_foldl_erase]
  by_cases below : p <+: k
  · rw [if_pos below]
    split
    · rfl
    · next absent =>
        cases found : t.get k with
        | none => rfl
        | some v =>
            have filed : Row.key v = k := key_of_get found
            exact absurd ⟨v, mem_under_iff.mpr (by rw [filed]; exact ⟨found, below⟩), filed⟩ absent
  · rw [if_neg below, if_neg]
    rintro ⟨v, member, rfl⟩
    exact below (mem_under_iff.mp member).2

/-- A scan of a prefix goes by the rows below it. -/
theorem under_congr {t u : Table V} {p : Bytes} (same : ∀ k, p <+: k → t.get k = u.get k) :
    t.under p = u.under p := by
  have below : t.rows.filter (fun k _ => p.isPrefixOf k) = u.rows.filter fun k _ => p.isPrefixOf k := by
    refine Std.ExtTreeMap.ext_getElem? fun k => ?_
    rw [Std.ExtTreeMap.getElem?_filter', Std.ExtTreeMap.getElem?_filter']
    by_cases within : p <+: k
    · have here : t.rows[k]? = u.rows[k]? := same k within
      rw [here]
    · have outside : p.isPrefixOf k = false := by
        rw [← Bool.not_eq_true, List.isPrefixOf_iff_prefix]
        exact within
      simp [outside]
  have rows := congrArg Std.ExtTreeMap.toList below
  rw [Std.ExtTreeMap.toList_filter, Std.ExtTreeMap.toList_filter] at rows
  rw [under_eq_filter, under_eq_filter]
  exact congrArg (List.map Prod.snd) rows

/-- Replacing the rows below a prefix by those another table has there makes the scans agree. -/
theorem under_replace (t u : Table V) (p : Bytes) :
    ((u.under p).foldl put (t.eraseUnder p)).under p = u.under p := by
  refine under_congr fun k below => ?_
  rw [get_foldl_put, get_eraseUnder, if_pos below, Option.or_none]
  cases found : u.get k with
  | none =>
      have absent : (u.under p).filter (fun v => Row.key v = k) = [] := by
        refine List.filter_eq_nil_iff.mpr fun v member here => ?_
        obtain rfl : Row.key v = k := by simpa using here
        cases found.symm.trans (mem_under_iff.mp member).1
      rw [absent]
      rfl
  | some v =>
      have filed : Row.key v = k := key_of_get found
      have member : v ∈ (u.under p).filter fun v => Row.key v = k := by
        refine List.mem_filter.mpr ⟨mem_under_iff.mpr ?_, by simpa using filed⟩
        rw [filed]
        exact ⟨found, below⟩
      have only : ∀ w ∈ (u.under p).filter (fun v => Row.key v = k), w = v := by
        intro w listed
        obtain ⟨scanned, here⟩ := List.mem_filter.mp listed
        obtain rfl : Row.key w = k := by simpa using here
        exact Option.some.inj ((mem_under_iff.mp scanned).1.symm.trans found)
      rw [List.getLast?_eq_some_getLast (List.ne_nil_of_mem member), Option.map_some,
        only _ (List.getLast_mem _), stored_of_get found]

end Table

/-! ## Index families: keys without values -/

abbrev Index := Std.ExtTreeSet Bytes

namespace Index

def insertAll (idx : Index) (keys : List Bytes) : Index := keys.foldl (fun idx k => idx.insert k) idx

def eraseAll (idx : Index) (keys : List Bytes) : Index := keys.foldl (fun idx k => idx.erase k) idx

theorem mem_insertAll {idx : Index} {keys : List Bytes} {k : Bytes} :
    k ∈ insertAll idx keys ↔ k ∈ keys ∨ k ∈ idx := by
  induction keys generalizing idx with
  | nil => simp [insertAll]
  | cons key keys ih =>
      change k ∈ insertAll (idx.insert key) keys ↔ _
      rw [ih, Std.ExtTreeSet.mem_insert, Std.LawfulEqOrd.compare_eq_iff_eq, List.mem_cons]
      tauto

theorem mem_eraseAll {idx : Index} {keys : List Bytes} {k : Bytes} :
    k ∈ eraseAll idx keys ↔ k ∈ idx ∧ k ∉ keys := by
  induction keys generalizing idx with
  | nil => simp [eraseAll]
  | cons key keys ih =>
      change k ∈ eraseAll (idx.erase key) keys ↔ _
      rw [ih, Std.ExtTreeSet.mem_erase, ne_eq, Std.LawfulEqOrd.compare_eq_iff_eq, List.mem_cons]
      grind

/-- The entries of a list of rows, entered row by row. -/
theorem mem_foldl_insertAll {α : Type} {keys : α → List Bytes} {rows : List α} {idx : Index}
    {k : Bytes} : k ∈ rows.foldl (fun idx v => insertAll idx (keys v)) idx ↔
      (∃ v ∈ rows, k ∈ keys v) ∨ k ∈ idx := by
  induction rows generalizing idx with
  | nil => simp
  | cons v rows ih =>
      rw [List.foldl_cons, ih, mem_insertAll]
      simp only [List.mem_cons, exists_eq_or_imp]
      exact or_left_comm.trans or_assoc.symm

/-- Some entries are those of the rows in question. Where the entries dropped are others, the rows
that come in change none of them exactly when all of theirs are there. -/
theorem entries_kept_iff {α : Type} {keys : α → List Bytes} {rows dropped : List α} {idx : Index}
    {about : α → Prop} {entry : Bytes → Prop} (own : ∀ v, ∀ k ∈ keys v, entry k ↔ about v)
    (others : ∀ v ∈ dropped, ¬ about v) :
    (∀ k, entry k → (k ∈ rows.foldl (fun idx v => insertAll idx (keys v))
        (eraseAll idx (dropped.flatMap keys)) ↔ k ∈ idx)) ↔
      ∀ v ∈ rows, about v → ∀ k ∈ keys v, k ∈ idx := by
  simp only [mem_foldl_insertAll, mem_eraseAll, List.mem_flatMap, not_exists, not_and]
  constructor
  · intro same v member ours k entered
    exact (same k ((own v k entered).mpr ours)).mp (.inl ⟨v, member, entered⟩)
  · intro known k entry
    constructor
    · rintro (⟨v, member, entered⟩ | ⟨there, -⟩)
      · exact known v member ((own v k entered).mp entry) k entered
      · exact there
    · refine fun there => .inr ⟨there, fun v gone entered => ?_⟩
      exact others v gone ((own v k entered).mp entry)

/-- Inserting keys changes an index exactly when one of them is new. -/
theorem insertAll_eq_self_iff {idx : Index} {keys : List Bytes} :
    insertAll idx keys = idx ↔ ∀ k ∈ keys, k ∈ idx := by
  constructor
  · intro same k member
    rw [← same]
    exact mem_insertAll.mpr (.inl member)
  · intro known
    refine Std.ExtTreeSet.ext_mem fun k => ?_
    rw [mem_insertAll]
    exact ⟨fun h => h.elim (known k) id, .inr⟩

end Index

end MassaIndexer.Theory.KeyedTable
