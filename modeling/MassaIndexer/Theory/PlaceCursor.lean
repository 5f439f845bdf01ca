/-
# Theory.PlaceCursor -- paging through rows that share places

A row stands for a place, and what it resolves to is the value at its place; rows of one place stand next to
each other. A page keeps the value of each place once, but what it has seen is forgotten with the page. The
next page starts behind the last kept row, and so meets again a place whose further rows lie there.

* `loop_cases` -- a page ends with its range, or at the first row of a kept place.
* `follows_hits_iff` -- following the cursors reads each value once exactly when no page ends at a value
  that has a second row.
* `exists_follows` -- it ends in any case.
-/
import MassaIndexer.Theory.Cursor
import Mathlib.Order.Defs.Unbundled

namespace MassaIndexer.Theory.Cursor

set_option autoImplicit false

/-- A scan whose rows stand for places. -/
structure PlacePager (κ ρ π α : Type) where
  key : ρ → κ
  before : κ → κ → Bool
  within : κ → Bool
  place : ρ → Option π
  row : π → Option α

namespace PlacePager

variable {κ ρ π α : Type} [DecidableEq π]

/-- The same walk, row by row. -/
def plain (P : PlacePager κ ρ π α) : Pager κ ρ α where
  key := P.key
  before := P.before
  within := P.within
  hit r := (P.place r).bind P.row

def loop [DecidableEq κ] (P : PlacePager κ ρ π α) (after : Option κ) (limit : Nat) :
    List ρ → List α → Option κ → List π → Page κ α
  | [], items, _, _ => { items }
  | r :: rest, items, lastKey, seen =>
      if !P.within (P.key r) then { items }
      else if after = some (P.key r) then P.loop after limit rest items lastKey seen
      else if limit ≤ items.length then { items, nextCursor := lastKey }
      else
        match P.place r with
        | none => P.loop after limit rest items lastKey seen
        | some p =>
            if p ∈ seen then P.loop after limit rest items (some (P.key r)) seen
            else
              match P.row p with
              | some v => P.loop after limit rest (items ++ [v]) (some (P.key r)) (p :: seen)
              | none => P.loop after limit rest items lastKey (p :: seen)

def page [DecidableEq κ] (P : PlacePager κ ρ π α) (first : Option κ) (rows : List ρ)
    (after : Option κ) (limit : Nat) : Page κ α :=
  if limit = 0 then {} else P.loop after limit (P.plain.seek rows (after.or first)) [] none []

/-- The values of the places, each once. -/
def hits (P : PlacePager κ ρ π α) : List ρ → List π → List α
  | [], _ => []
  | r :: rest, seen =>
      match P.place r with
      | none => P.hits rest seen
      | some p =>
          if p ∈ seen then P.hits rest seen
          else (P.row p).toList ++ P.hits rest (p :: seen)

/-- How many rows stand for a place. -/
def count (P : PlacePager κ ρ π α) (p : π) (rows : List ρ) : Nat :=
  rows.countP fun r => P.place r = some p

variable {P : PlacePager κ ρ π α}

/-! ## Values of the places -/

theorem hits_skip {r : ρ} {rest : List ρ} {seen : List π} (nowhere : P.place r = none) :
    P.hits (r :: rest) seen = P.hits rest seen := by
  simp [hits, nowhere]

theorem hits_seen {r : ρ} {rest : List ρ} {seen : List π} {p : π} (here : P.place r = some p)
    (known : p ∈ seen) : P.hits (r :: rest) seen = P.hits rest seen := by
  simp [hits, here, known]

theorem hits_new {r : ρ} {rest : List ρ} {seen : List π} {p : π} (here : P.place r = some p)
    (new : p ∉ seen) : P.hits (r :: rest) seen = (P.row p).toList ++ P.hits rest (p :: seen) := by
  simp [hits, here, new]

/-- What was seen matters at the places of the rows alone, and there only if they have a value. -/
theorem hits_congr {rows : List ρ} {seen seen' : List π}
    (alike : ∀ r ∈ rows, ∀ p, P.place r = some p → (P.row p).isSome = true →
      (p ∈ seen ↔ p ∈ seen')) :
    P.hits rows seen = P.hits rows seen' := by
  induction rows generalizing seen seen' with
  | nil => rfl
  | cons r rest ih =>
      have later : ∀ x ∈ rest, ∀ p, P.place x = some p → (P.row p).isSome = true →
          (p ∈ seen ↔ p ∈ seen') := fun x member => alike x (List.mem_cons_of_mem r member)
      cases here : P.place r with
      | none => rw [hits_skip here, hits_skip here, ih later]
      | some p =>
          have same := alike r List.mem_cons_self p here
          have tail : P.hits rest (p :: seen) = P.hits rest (p :: seen') :=
            ih fun x member q at_ shown => by simp [later x member q at_ shown]
          cases value : P.row p with
          | some v =>
              rw [value] at same
              by_cases known : p ∈ seen
              · rw [hits_seen here known, hits_seen here ((same rfl).mp known), ih later]
              · rw [hits_new here known, hits_new here (fun there => known ((same rfl).mpr there)), tail]
          | none =>
              -- a place without a value shows nothing, seen or not
              have mute : ∀ seen : List π, P.hits (r :: rest) seen = P.hits rest (p :: seen) := by
                intro seen
                by_cases known : p ∈ seen
                · rw [hits_seen here known]
                  refine ih fun x _ q _ _ => ?_
                  rw [List.mem_cons]
                  exact ⟨.inr, fun either => either.elim (fun same => same ▸ known) id⟩
                · rw [hits_new here known, value]
                  rfl
              rw [mute, mute, tail]

theorem hits_append (pre post : List ρ) (seen : List π) :
    P.hits (pre ++ post) seen = P.hits pre seen ++ P.hits post (pre.filterMap P.place ++ seen) := by
  induction pre generalizing seen with
  | nil => rfl
  | cons r pre ih =>
      rw [List.cons_append]
      cases here : P.place r with
      | none => rw [hits_skip here, hits_skip here, ih, List.filterMap_cons_none here]
      | some p =>
          rw [List.filterMap_cons_some here]
          by_cases known : p ∈ seen
          · rw [hits_seen here known, hits_seen here known, ih]
            congr 1
            refine hits_congr fun x _ q _ _ => ?_
            simp only [List.cons_append, List.mem_cons, List.mem_append]
            refine ⟨.inr, fun either => either.elim (fun same => .inr (same ▸ known)) id⟩
          · rw [hits_new here known, hits_new here known, ih, List.append_assoc]
            congr 2
            refine hits_congr fun x _ q _ _ => ?_
            simp only [List.cons_append, List.mem_cons, List.mem_append]
            exact or_left_comm

theorem mem_hits {rows : List ρ} {seen : List π} {v : α} :
    v ∈ P.hits rows seen ↔ ∃ r ∈ rows, ∃ p, P.place r = some p ∧ p ∉ seen ∧ P.row p = some v := by
  induction rows generalizing seen with
  | nil => simp [hits]
  | cons r rest ih =>
      simp only [List.mem_cons, exists_eq_or_imp]
      cases here : P.place r with
      | none => simp [hits_skip here, ih]
      | some p =>
          by_cases known : p ∈ seen
          · simp [hits_seen here known, ih, known]
          · rw [hits_new here known, List.mem_append, Option.mem_toList, ih]
            simp only [Option.some.injEq, exists_eq_left', known, not_false_iff, true_and, List.mem_cons,
              not_or]
            constructor
            · rintro (value | ⟨x, member, q, at_, ⟨-, new⟩, value⟩)
              · exact .inl value
              · exact .inr ⟨x, member, q, at_, new, value⟩
            · rintro (value | ⟨x, member, q, at_, new, value⟩)
              · exact .inl value
              · by_cases same : q = p
                · exact .inl (same ▸ value)
                · exact .inr ⟨x, member, q, at_, ⟨same, new⟩, value⟩

theorem length_hits_le (rows : List ρ) (seen : List π) : (P.hits rows seen).length ≤ rows.length := by
  induction rows generalizing seen with
  | nil => exact Nat.le_refl 0
  | cons r rest ih =>
      cases here : P.place r with
      | none =>
          rw [hits_skip here]
          exact Nat.le_succ_of_le (ih seen)
      | some p =>
          by_cases known : p ∈ seen
          · rw [hits_seen here known]
            exact Nat.le_succ_of_le (ih seen)
          · have later := ih (p :: seen)
            rw [hits_new here known, List.length_append, List.length_cons]
            cases P.row p with
            | none => simpa using Nat.le_succ_of_le later
            | some v =>
                simp only [Option.toList_some, List.length_singleton]
                omega

/-- The value of a place tells the place. -/
structure Owned (P : PlacePager κ ρ π α) (placeOf : α → π) : Prop where
  own : ∀ p v, P.row p = some v → placeOf v = p

theorem nodup_hits {placeOf : α → π} (owned : P.Owned placeOf) (rows : List ρ) (seen : List π) :
    (P.hits rows seen).Nodup := by
  induction rows generalizing seen with
  | nil => exact List.nodup_nil
  | cons r rest ih =>
      cases here : P.place r with
      | none =>
          rw [hits_skip here]
          exact ih seen
      | some p =>
          by_cases known : p ∈ seen
          · rw [hits_seen here known]
            exact ih seen
          · rw [hits_new here known]
            cases value : P.row p with
            | none => exact ih (p :: seen)
            | some v =>
                refine List.nodup_cons.mpr ⟨fun again => ?_, ih (p :: seen)⟩
                obtain ⟨x, -, q, -, new, value'⟩ := mem_hits.mp again
                have same : q = p := (owned.own q v value').symm.trans (owned.own p v value)
                exact new (same ▸ List.mem_cons_self)

theorem count_append (p : π) (pre post : List ρ) :
    P.count p (pre ++ post) = P.count p pre + P.count p post := List.countP_append

theorem count_eq_zero {p : π} {rows : List ρ} :
    P.count p rows = 0 ↔ ∀ r ∈ rows, P.place r ≠ some p := by
  simp [count, List.countP_eq_zero]

theorem count_singleton {p : π} {r : ρ} (here : P.place r = some p) : P.count p [r] = 1 := by
  simp [count, here]

/-! ## Rows in the order of their places -/

/-- Rows follow the order of their places, so that those of one place stand together. -/
structure Placed (P : PlacePager κ ρ π α) (less : π → π → Prop) (rows : List ρ) : Prop where
  irrefl : ∀ p, ¬ less p p
  trans : ∀ p q o, less p q → less q o → less p o
  sorted : rows.Pairwise fun r r' =>
    ∀ p q, P.place r = some p → P.place r' = some q → p = q ∨ less p q

variable {less : π → π → Prop}

omit [DecidableEq π] in
theorem Placed.sublist {rows rows' : List ρ} (placed : P.Placed less rows) (part : rows'.Sublist rows) :
    P.Placed less rows' where
  irrefl := placed.irrefl
  trans := placed.trans
  sorted := placed.sorted.sublist part

omit [DecidableEq π] in
theorem Placed.right {pre post : List ρ} (placed : P.Placed less (pre ++ post)) :
    P.Placed less post := placed.sublist (List.sublist_append_right pre post)

omit [DecidableEq π] in
/-- A place that rows both before and behind a row stand for is the place of that row. -/
theorem Placed.between {pre post : List ρ} {r : ρ} {p q : π}
    (placed : P.Placed less (pre ++ r :: post)) (here : P.place r = some p)
    (before : q ∈ pre.filterMap P.place) {x : ρ} (behind : x ∈ post) (at_ : P.place x = some q) :
    q = p := by
  obtain ⟨y, inPre, atY⟩ := List.mem_filterMap.mp before
  have parts := List.pairwise_append.mp placed.sorted
  rcases parts.2.2 y inPre r List.mem_cons_self q p atY here with same | down
  · exact same
  · rcases (List.pairwise_cons.mp parts.2.1).1 x behind p q here at_ with same | up
    · exact same.symm
    · exact absurd (placed.trans q p q down up) (placed.irrefl q)

/-- The values are in the order of their places. -/
theorem pairwise_hits {rows : List ρ} {placeOf : α → π} (owned : P.Owned placeOf)
    (placed : P.Placed less rows) (seen : List π) :
    (P.hits rows seen).Pairwise fun v w => less (placeOf v) (placeOf w) := by
  induction rows generalizing seen with
  | nil => exact List.Pairwise.nil
  | cons r rest ih =>
      have placedRest : P.Placed less rest := placed.sublist (List.sublist_cons_self r rest)
      cases here : P.place r with
      | none =>
          rw [hits_skip here]
          exact ih placedRest seen
      | some p =>
          by_cases known : p ∈ seen
          · rw [hits_seen here known]
            exact ih placedRest seen
          · rw [hits_new here known]
            cases value : P.row p with
            | none => exact ih placedRest (p :: seen)
            | some v =>
                refine List.pairwise_cons.mpr ⟨fun w later => ?_, ih placedRest (p :: seen)⟩
                obtain ⟨x, member, q, atX, new, value'⟩ := mem_hits.mp later
                rw [owned.own p v value, owned.own q w value']
                rcases (List.pairwise_cons.mp placed.sorted).1 x member p q here atX with same | less
                · exact absurd (same ▸ List.mem_cons_self) new
                · exact less

/-- When a place has rows and none of an earlier place comes first, its value is read first. -/
theorem hits_first {rows : List ρ} {p : π} {v : α} (placed : P.Placed less rows)
    (value : P.row p = some v) (there : 0 < P.count p rows)
    (later : ∀ r ∈ rows, ∀ q, P.place r = some q → p = q ∨ less p q) :
    P.hits rows [] = v :: P.hits rows [p] := by
  induction rows with
  | nil => cases there
  | cons r rest ih =>
      have laterRest : ∀ x ∈ rest, ∀ q, P.place x = some q → p = q ∨ less p q := fun x member =>
        later x (List.mem_cons_of_mem r member)
      have placedRest : P.Placed less rest := placed.sublist (List.sublist_cons_self r rest)
      cases here : P.place r with
      | none =>
          rw [hits_skip here, hits_skip here]
          refine ih placedRest ?_ laterRest
          simpa [count, List.countP_cons, here] using there
      | some q =>
          rcases later r List.mem_cons_self q here with rfl | less
          · rw [hits_new here List.not_mem_nil, hits_seen here List.mem_cons_self, value]
            rfl
          · exfalso
            have differ : q ≠ p := by
              rintro rfl
              exact placed.irrefl q less
            have inRest : 0 < P.count p rest := by
              simpa [count, List.countP_cons, here, differ] using there
            obtain ⟨x, member, at_⟩ := List.countP_pos_iff.mp inRest
            rcases (List.pairwise_cons.mp placed.sorted).1 x member q p here (by simpa using at_) with
              same | back
            · exact differ same
            · exact placed.irrefl p (placed.trans p q p less back)

theorem head_hits {rows : List ρ} {p : π} {v : α} (placed : P.Placed less rows)
    (value : P.row p = some v) (there : 0 < P.count p rows)
    (later : ∀ r ∈ rows, ∀ q, P.place r = some q → p = q ∨ less p q) :
    (P.hits rows []).head? = some v := by
  rw [hits_first placed value there later]
  rfl

/-! ## Pages that repeat nothing -/

/-- No value at the end of a page has a second row. -/
def Clear (P : PlacePager κ ρ π α) (placeOf : α → π) (limit : Nat) (rows : List ρ) : Prop :=
  ∀ front v back, P.hits rows [] = front ++ v :: back → limit ∣ front.length + 1 →
    P.count (placeOf v) rows ≤ 1

theorem clear_of_short {placeOf : α → π} {limit : Nat} {rows : List ρ}
    (short : (P.hits rows []).length < limit) : P.Clear placeOf limit rows := by
  intro front v back whole multiple
  have bound := Nat.le_of_dvd (Nat.succ_pos _) multiple
  rw [whole, List.length_append, List.length_cons] at short
  omega

/-- **What a full page adds.** Behind it the walk reads `read`; together they are right exactly when no
page ends at a value with a second row. -/
theorem full_page {placeOf : α → π} (owned : P.Owned placeOf) {limit : Nat} {pre post : List ρ} {r : ρ}
    {p : π} {v : α} (placed : P.Placed less (pre ++ r :: post)) (here : P.place r = some p)
    (value : P.row p = some v) (new : p ∉ pre.filterMap P.place)
    (full : (P.hits pre []).length + 1 = limit) {read : List α}
    (head : read.head? = (P.hits post []).head?)
    (right : read = P.hits post [] ↔ P.Clear placeOf limit post) :
    (P.hits pre [] ++ v :: read).head? = (P.hits (pre ++ r :: post) []).head? ∧
      (P.hits pre [] ++ v :: read = P.hits (pre ++ r :: post) [] ↔
        P.Clear placeOf limit (pre ++ r :: post)) := by
  have whole : P.hits (pre ++ r :: post) [] =
      P.hits pre [] ++ v :: P.hits post (p :: pre.filterMap P.place) := by
    rw [hits_append, List.append_nil, hits_new here new, value]
    rfl
  have inPre : P.count p pre = 0 := count_eq_zero.mpr fun x member at_ =>
    new (List.mem_filterMap.mpr ⟨x, member, at_⟩)
  have counted : ∀ q, P.count q (pre ++ r :: post) = P.count q pre + P.count q [r] + P.count q post := by
    intro q
    have cons : P.count q (r :: post) = P.count q [r] + P.count q post := count_append q [r] post
    rw [count_append, cons, Nat.add_assoc]
  refine ⟨?_, ?_⟩
  · rw [whole]
    cases P.hits pre [] <;> rfl
  · by_cases again : 0 < P.count p post
    · -- the next page starts with the value this one ended with
      have laterPost : ∀ x ∈ post, ∀ q, P.place x = some q → p = q ∨ less p q := fun x member q at_ =>
        (List.pairwise_cons.mp placed.right.sorted).1 x member p q here at_
      have first := head.trans (head_hits (placed.right.sublist (List.sublist_cons_self r post)) value again laterPost)
      refine iff_of_false (fun same => ?_) fun clear => ?_
      · have once := nodup_hits owned (pre ++ r :: post) []
        rw [← same] at once
        obtain ⟨rest, rfl⟩ : ∃ rest, read = v :: rest := by
          cases read with
          | nil => cases first
          | cons x rest => exact ⟨rest, by rw [Option.some.inj first]⟩
        have twice := (List.nodup_append.mp once).2.1
        exact (List.nodup_cons.mp twice).1 List.mem_cons_self
      · have few := clear (P.hits pre []) v _ whole ⟨1, by omega⟩
        rw [owned.own p v value, counted, count_singleton here] at few
        omega
    · have notThere : P.count p post = 0 := by omega
      have fresh : P.hits post (p :: pre.filterMap P.place) = P.hits post [] := by
        refine hits_congr fun x member q at_ _ => iff_of_false (fun known => ?_) List.not_mem_nil
        have same : q = p := by
          rcases List.mem_cons.mp known with same | before
          · exact same
          · exact placed.between here before member at_
        exact count_eq_zero.mp notThere x member (same ▸ at_)
      rw [whole, fresh, List.append_cancel_left_eq, List.cons.injEq, eq_self, true_and, right]
      have elsewhere : ∀ w ∈ P.hits post [], P.count (placeOf w) (pre ++ r :: post) =
          P.count (placeOf w) post := by
        intro w member
        obtain ⟨x, inPost, q, at_, -, value'⟩ := mem_hits.mp member
        have other : q ≠ p := by
          rintro rfl
          exact count_eq_zero.mp notThere x inPost at_
        have before : P.count q pre = 0 := count_eq_zero.mpr fun y inPre' atY =>
          other (placed.between here (List.mem_filterMap.mpr ⟨y, inPre', atY⟩) inPost at_)
        have atR : P.count q [r] = 0 := count_eq_zero.mpr fun y atHead atY => by
          rw [List.mem_singleton.mp atHead, here] at atY
          exact other (Option.some.inj atY).symm
        rw [owned.own q w value', counted, before, atR]
        omega
      constructor
      · intro clear front w back split multiple
        rw [whole, fresh] at split
        have bound := Nat.le_of_dvd (Nat.succ_pos _) multiple
        rcases List.append_eq_append_iff.mp split with ⟨more, rfl, tail⟩ | ⟨more, short, tail⟩
        · cases more with
          | nil =>
              obtain ⟨rfl, -⟩ := List.cons.inj tail
              rw [owned.own p v value, counted, count_singleton here]
              omega
          | cons y more =>
              obtain ⟨rfl, rest⟩ := List.cons.inj tail
              have inPost : w ∈ P.hits post [] := by
                rw [rest]
                exact List.mem_append_right _ List.mem_cons_self
              rw [elsewhere w inPost]
              refine clear more w back rest ?_
              have size : (P.hits pre [] ++ v :: more).length + 1 = limit + (more.length + 1) := by
                rw [List.length_append, List.length_cons]
                omega
              rw [size] at multiple
              exact (Nat.dvd_add_right (Nat.dvd_refl limit)).mp multiple
        · -- the front is a page's length, so nothing of the page is left behind it
          have size : (P.hits pre []).length = front.length + more.length := by
            rw [short, List.length_append]
          obtain rfl : more = [] := List.length_eq_zero_iff.mp (by omega)
          obtain ⟨rfl, -⟩ := List.cons.inj tail
          rw [owned.own p w value, counted, count_singleton here]
          omega
      · intro clear front w back split multiple
        have inPost : w ∈ P.hits post [] := by
          rw [split]
          exact List.mem_append_right _ List.mem_cons_self
        rw [← elsewhere w inPost]
        refine clear (P.hits pre [] ++ v :: front) w back ?_ ?_
        · rw [whole, fresh, split, List.append_assoc]
          rfl
        · have size : (P.hits pre [] ++ v :: front).length + 1 = limit + (front.length + 1) := by
            rw [List.length_append, List.length_cons]
            omega
          rw [size]
          exact Nat.dvd_add (Nat.dvd_refl limit) multiple

/-! ## The loop -/

section Loop

variable [DecidableEq κ] {after : Option κ} {limit : Nat}

/-- A full page only looks whether the range goes on. -/
theorem loop_full {rows : List ρ} (items : List α) (lastKey : Option κ) (seen : List π)
    (fresh : ∀ r ∈ rows, after ≠ some (P.key r)) (full : limit ≤ items.length) :
    P.loop after limit rows items lastKey seen =
      { items, nextCursor := if P.plain.range rows = [] then none else lastKey } := by
  cases rows with
  | nil => rfl
  | cons r rest =>
      have other : after ≠ some (P.key r) := fresh r List.mem_cons_self
      cases inside : P.within (P.key r) with
      | false =>
          have ends : P.plain.range (r :: rest) = [] := Pager.range_cons_of_not_within inside
          simp [loop, inside, ends]
      | true =>
          have goesOn : P.plain.range (r :: rest) = r :: P.plain.range rest :=
            Pager.range_cons_of_within inside
          simp [loop, inside, other, full, goesOn]

/-- **A page ends with its range, or at the first row of a kept place.** -/
theorem loop_cases {rows : List ρ} (items : List α) (lastKey : Option κ) (seen : List π)
    (fresh : ∀ r ∈ rows, after ≠ some (P.key r)) (room : items.length < limit) :
    (P.loop after limit rows items lastKey seen =
        { items := items ++ P.hits (P.plain.range rows) seen } ∧
      (items ++ P.hits (P.plain.range rows) seen).length < limit) ∨
    ∃ pre r post p v, rows = pre ++ r :: post ∧ (∀ x ∈ pre ++ [r], P.within (P.key x) = true) ∧
      P.place r = some p ∧ P.row p = some v ∧ p ∉ pre.filterMap P.place ++ seen ∧
      (items ++ P.hits pre seen).length + 1 = limit ∧
      P.loop after limit rows items lastKey seen =
        { items := items ++ (P.hits pre seen ++ [v])
          nextCursor := if P.plain.range post = [] then none else some (P.key r) } := by
  induction rows generalizing items lastKey seen with
  | nil => exact .inl (by simpa [loop, hits] using room)
  | cons r rest ih =>
      have other : after ≠ some (P.key r) := fresh r List.mem_cons_self
      have freshRest : ∀ x ∈ rest, after ≠ some (P.key x) := fun x member =>
        fresh x (List.mem_cons_of_mem r member)
      cases inside : P.within (P.key r) with
      | false =>
          have ends : P.plain.range (r :: rest) = [] := Pager.range_cons_of_not_within inside
          exact .inl (by simpa [loop, inside, ends, hits] using room)
      | true =>
          have goesOn : P.plain.range (r :: rest) = r :: P.plain.range rest :=
            Pager.range_cons_of_within inside
          have within_cons : ∀ {pre : List ρ} {x : ρ}, (∀ y ∈ pre ++ [x], P.within (P.key y) = true) →
              ∀ y ∈ r :: pre ++ [x], P.within (P.key y) = true := by
            intro pre x within y member
            rcases List.mem_cons.mp member with rfl | later
            · exact inside
            · exact within y later
          rw [goesOn]
          cases here : P.place r with
          | none =>
              have skips : P.loop after limit (r :: rest) items lastKey seen =
                  P.loop after limit rest items lastKey seen := by
                simp [loop, inside, other, here, Nat.not_le.mpr room]
              rw [skips, hits_skip here]
              rcases ih items lastKey seen freshRest room with
                ends | ⟨pre, x, post, p, v, rfl, within, atX, value, new, full, stops⟩
              · exact .inl ends
              · refine .inr ⟨r :: pre, x, post, p, v, rfl, within_cons within, atX, value, ?_, ?_, ?_⟩
                · rwa [List.filterMap_cons_none here]
                · rwa [hits_skip here]
                · rwa [hits_skip here]
          | some q =>
              by_cases known : q ∈ seen
              · have skips : P.loop after limit (r :: rest) items lastKey seen =
                    P.loop after limit rest items (some (P.key r)) seen := by
                  simp [loop, inside, other, here, known, Nat.not_le.mpr room]
                rw [skips, hits_seen here known]
                rcases ih items (some (P.key r)) seen freshRest room with
                  ends | ⟨pre, x, post, p, v, rfl, within, atX, value, new, full, stops⟩
                · exact .inl ends
                · refine .inr ⟨r :: pre, x, post, p, v, rfl, within_cons within, atX, value, ?_, ?_, ?_⟩
                  · rw [List.filterMap_cons_some here, List.cons_append, List.mem_cons, not_or]
                    refine ⟨?_, new⟩
                    rintro rfl
                    exact new (List.mem_append_right _ known)
                  · rwa [hits_seen here known]
                  · rwa [hits_seen here known]
              · rw [hits_new here known]
                have newPlace : ∀ {pre : List ρ} {p : π}, p ∉ pre.filterMap P.place ++ q :: seen →
                    p ∉ (r :: pre).filterMap P.place ++ seen := by
                  intro pre p new
                  rw [List.filterMap_cons_some here]
                  simp only [List.mem_append, List.mem_cons, not_or, List.cons_append] at new ⊢
                  exact ⟨new.2.1, new.1, new.2.2⟩
                cases value : P.row q with
                | none =>
                    have skips : P.loop after limit (r :: rest) items lastKey seen =
                        P.loop after limit rest items lastKey (q :: seen) := by
                      simp [loop, inside, other, here, known, value, Nat.not_le.mpr room]
                    rw [skips]
                    rcases ih items lastKey (q :: seen) freshRest room with
                      ends | ⟨pre, x, post, p, v, rfl, within, atX, value', new, full, stops⟩
                    · exact .inl ends
                    · refine .inr ⟨r :: pre, x, post, p, v, rfl, within_cons within, atX, value',
                        newPlace new, ?_, ?_⟩
                      · rw [hits_new here known, value]
                        exact full
                      · rw [hits_new here known, value]
                        exact stops
                | some w =>
                    have keeps : P.loop after limit (r :: rest) items lastKey seen =
                        P.loop after limit rest (items ++ [w]) (some (P.key r)) (q :: seen) := by
                      simp [loop, inside, other, here, known, value, Nat.not_le.mpr room]
                    rw [keeps]
                    by_cases last : limit ≤ (items ++ [w]).length
                    · rw [loop_full (items ++ [w]) _ _ freshRest last]
                      refine .inr ⟨[], r, rest, q, w, rfl, ?_, here, value, known, ?_, ?_⟩
                      · simpa using inside
                      · rw [List.length_append, List.length_singleton] at last
                        simp only [hits, List.append_nil]
                        omega
                      · rfl
                    · rcases ih (items ++ [w]) (some (P.key r)) (q :: seen) freshRest
                        (Nat.not_le.mp last) with
                        ends | ⟨pre, x, post, p, v, rfl, within, atX, value', new, full, stops⟩
                      · left
                        simpa using ends
                      · refine .inr ⟨r :: pre, x, post, p, v, rfl, within_cons within, atX, value',
                          newPlace new, ?_, ?_⟩
                        · rw [hits_new here known, value]
                          simpa using full
                        · rw [hits_new here known, value]
                          simpa using stops

end Loop

/-! ## Following the cursors -/

section Pages

variable [DecidableEq κ] {first : Option κ} {rows : List ρ} {limit : Nat} {placeOf : α → π}

/-- The rows a scan may read. -/
def inside (P : PlacePager κ ρ π α) (rows : List ρ) : List ρ := rows.filter fun r => P.within (P.key r)

omit [DecidableEq π] [DecidableEq κ] in
theorem range_sublist_inside {part : List ρ} (sub : part.Sublist rows) :
    (P.plain.range part).Sublist (P.inside rows) := by
  have kept : P.inside (P.plain.range part) = P.plain.range part :=
    List.filter_eq_self.mpr fun r member =>
      List.mem_takeWhile_imp (p := fun r => P.within (P.key r)) member
  rw [← kept]
  exact ((List.takeWhile_sublist _).trans sub).filter _

/-- What a walk from a cursor reads of the rows behind it. -/
def ReadsOn (P : PlacePager κ ρ π α) (placeOf : α → π) (first : Option κ) (rows : List ρ)
    (limit : Nat) (c : Option κ) (behind : List ρ) : Prop :=
  ∃ read, Follows (P.page first rows · limit) c read ∧
    read.head? = (P.hits (P.plain.range behind) []).head? ∧
    (read = P.hits (P.plain.range behind) [] ↔ P.Clear placeOf limit (P.plain.range behind))

/-- One call, and what the walk reads from the rows it stops at. -/
theorem readsOn_call (owned : P.Owned placeOf) (placed : P.Placed less (P.inside rows)) (positive : 0 < limit)
    {c : Option κ} {behind : List ρ} (tail : behind <:+ rows)
    (call : P.page first rows c limit = P.loop c limit behind [] none [])
    (fresh : ∀ x ∈ behind, c ≠ some (P.key x))
    (later : ∀ pre x post, rows = pre ++ x :: post → P.within (P.key x) = true →
      post.length < behind.length → P.ReadsOn placeOf first rows limit (some (P.key x)) post) :
    P.ReadsOn placeOf first rows limit c behind := by
  rcases loop_cases [] none [] fresh positive with
    ⟨ends, short⟩ | ⟨pre, x, post, p, v, rfl, within, here, value, new, full, stops⟩
  · rw [← call] at ends
    have walk : Follows (P.page first rows · limit) c _ := .done (by rw [ends])
    rw [ends] at walk
    exact ⟨_, walk, rfl, iff_of_true rfl (clear_of_short short)⟩
  · rw [← call] at stops
    obtain ⟨skipped, whole⟩ := tail
    have range : P.plain.range (pre ++ x :: post) = pre ++ x :: P.plain.range post := by
      have split : pre ++ x :: post = (pre ++ [x]) ++ post := by simp
      rw [split, Pager.range_append within, List.append_assoc]
      rfl
    have placedRange : P.Placed less (pre ++ x :: P.plain.range post) := by
      rw [← range]
      refine placed.sublist (range_sublist_inside ?_)
      rw [← whole]
      exact List.sublist_append_right skipped _
    rw [List.append_nil] at new
    have position : rows = (skipped ++ pre) ++ x :: post := by rw [← whole, List.append_assoc]
    unfold ReadsOn
    rw [range]
    by_cases ends : P.plain.range post = []
    · have walk : Follows (P.page first rows · limit) c _ := .done (by rw [stops, if_pos ends])
      rw [stops] at walk
      have nothing : ([] : List α) = P.hits (P.plain.range post) [] := by rw [ends]; rfl
      have clear : P.Clear placeOf limit (P.plain.range post) := by
        rw [ends]
        exact clear_of_short positive
      have parts := full_page owned placedRange here value new full (congrArg List.head? nothing)
        (iff_of_true nothing clear)
      exact ⟨_, walk, parts⟩
    · obtain ⟨read, walkOn, head, right⟩ := later (skipped ++ pre) x post position
        (within x (by simp)) (by simp; omega)
      have walk : Follows (P.page first rows · limit) c _ :=
        .more (by rw [stops, if_neg ends]) walkOn
      rw [stops] at walk
      have parts := full_page owned placedRange here value new full head right
      refine ⟨_, walk, ?_⟩
      simpa using parts

/-- A call at a row's key reads what stands behind it. -/
theorem call_row (ordered : P.plain.Ordered rows) {pre post : List ρ} {x : ρ}
    (whole : rows = pre ++ x :: post) (inside : P.within (P.key x) = true) (positive : 0 < limit) :
    P.page first rows (some (P.key x)) limit = P.loop (some (P.key x)) limit post [] none [] := by
  have lands : P.plain.seek rows ((some (P.key x)).or first) = x :: post := by
    rw [whole] at ordered ⊢
    exact Pager.seek_key ordered
  rw [page, if_neg (Nat.pos_iff_ne_zero.mp positive), lands]
  simp [loop, inside]

omit [DecidableEq π] [DecidableEq κ] in
theorem fresh_row (ordered : P.plain.Ordered rows) {pre post : List ρ} {x : ρ}
    (whole : rows = pre ++ x :: post) : ∀ y ∈ post, some (P.key x) ≠ some (P.key y) := by
  intro y member same
  have sorted := ordered.sorted
  rw [whole] at sorted
  have later : P.before (P.key x) (P.key y) = true :=
    (List.pairwise_cons.mp (List.pairwise_append.mp sorted).2.1).1 y member
  have never : P.before (P.key x) (P.key x) = false := ordered.irrefl _
  rw [← Option.some.inj same, never] at later
  cases later

theorem readsOn_row (owned : P.Owned placeOf) (ordered : P.plain.Ordered rows)
    (placed : P.Placed less (P.inside rows)) (positive : 0 < limit) {pre post : List ρ} {x : ρ}
    (whole : rows = pre ++ x :: post) (inside : P.within (P.key x) = true) :
    P.ReadsOn placeOf first rows limit (some (P.key x)) post := by
  induction size : post.length using Nat.strong_induction_on generalizing pre x post with
  | _ n ih =>
      have tail : post <:+ rows := ⟨pre ++ [x], by rw [whole]; simp⟩
      refine readsOn_call owned placed positive tail (call_row ordered whole inside positive)
        (fresh_row ordered whole) ?_
      intro pre' y post' split inside' shorter
      exact ih post'.length (size ▸ shorter) split inside' rfl

/-- **From the first page on.** -/
theorem readsOn_first (first : Option κ) (owned : P.Owned placeOf) (ordered : P.plain.Ordered rows)
    (placed : P.Placed less (P.inside rows)) (positive : 0 < limit) :
    P.ReadsOn placeOf first rows limit none (P.plain.seek rows first) := by
  have call : P.page first rows none limit = P.loop none limit (P.plain.seek rows first) [] none [] := by
    rw [page, if_neg (Nat.pos_iff_ne_zero.mp positive)]
    rfl
  refine readsOn_call owned placed positive (Pager.seek_suffix _ _) call ?_ ?_
  · intro x member clash
    cases clash
  · intro pre x post split inside _
    exact readsOn_row owned ordered placed positive split inside

/-- **Following the cursors reads each value once exactly when no page ends at a value that has a second
row.** -/
theorem follows_hits_iff (owned : P.Owned placeOf) (ordered : P.plain.Ordered rows)
    (placed : P.Placed less (P.inside rows)) (positive : 0 < limit) :
    Follows (P.page first rows · limit) none (P.hits (P.plain.range (P.plain.seek rows first)) []) ↔
      P.Clear placeOf limit (P.plain.range (P.plain.seek rows first)) := by
  obtain ⟨read, walk, -, right⟩ := readsOn_first first owned ordered placed positive
  rw [← right]
  constructor
  · exact fun whole => walk.unique whole
  · rintro rfl
    exact walk

/-- Following the cursors ends. -/
theorem exists_follows (owned : P.Owned placeOf) (ordered : P.plain.Ordered rows)
    (placed : P.Placed less (P.inside rows)) (positive : 0 < limit) :
    ∃ read, Follows (P.page first rows · limit) none read := by
  obtain ⟨read, walk, -⟩ := readsOn_first first owned ordered placed positive
  exact ⟨read, walk⟩

/-- One call that no limit cuts short reads each value once. -/
theorem page_unlimited (roomy : rows.length < limit) :
    P.page first rows none limit =
      { items := P.hits (P.plain.range (P.plain.seek rows first)) [] } := by
  have short := (Pager.seek_suffix (S := P.plain) rows first).length_le
  have lands : P.plain.seek rows ((none : Option κ).or first) = P.plain.seek rows first := rfl
  rw [page, if_neg (by omega), lands]
  generalize P.plain.seek rows first = sought at short ⊢
  have fresh : ∀ r ∈ sought, (none : Option κ) ≠ some (P.key r) := fun _ _ clash => by cases clash
  rcases loop_cases [] none [] fresh (Nat.zero_lt_of_lt roomy) with
    ⟨ends, -⟩ | ⟨pre, x, post, p, v, rfl, -, -, -, -, full, -⟩
  · simpa using ends
  · exfalso
    have few := length_hits_le (P := P) pre []
    simp only [List.nil_append, List.length_append, List.length_cons] at full short
    omega

end Pages

end PlacePager

end MassaIndexer.Theory.Cursor
