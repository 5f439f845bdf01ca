/-
# Theory.OffsetPages -- a list read in windows of one length

A call names an offset into a list and gets what the window there shows, with the next offset while the
list goes on. Calls can fail; a chain of calls goes through only where none does.

* `Chained.unique` -- a chain has one outcome.
* `Windowed.chained` -- from the start, the calls read the windows of the list one after another.
* `windows_of_append` -- what shows entry by entry shows the same in windows of any length.
* `windows_hits_iff` -- rows that stand for places show each value once exactly when those of a place with
  a value share a window.
-/
import MassaIndexer.Theory.PlaceCursor

namespace MassaIndexer.Theory.OffsetPages

open MassaIndexer.Theory.Cursor

set_option autoImplicit false

/-! ## Chains of calls that may fail -/

section Chains

variable {κ α ε : Type}

/-- A call that panics answers nothing, one that is refused answers an error. -/
inductive Chained (call : Option κ → Option (Except ε (Page κ α))) : Option κ → List α → Prop where
  | done {c : Option κ} {items : List α} (answered : call c = some (.ok ⟨items, none⟩)) :
      Chained call c items
  | more {c : Option κ} {items rest : List α} {next : κ}
      (answered : call c = some (.ok ⟨items, some next⟩)) (later : Chained call (some next) rest) :
      Chained call c (items ++ rest)

theorem Chained.unique {call : Option κ → Option (Except ε (Page κ α))} {c : Option κ}
    {read read' : List α} (walk : Chained call c read) (walk' : Chained call c read') :
    read = read' := by
  induction walk generalizing read' with
  | done answered =>
      cases walk' with
      | done answered' => cases answered.symm.trans answered'; rfl
      | more answered' later' => cases answered.symm.trans answered'
  | more answered later ih =>
      cases walk' with
      | done answered' => cases answered.symm.trans answered'
      | more answered' later' =>
          cases answered.symm.trans answered'
          rw [ih later']

end Chains

/-! ## Windows -/

section Windows

variable {ρ α : Type} {limit : Nat}

/-- What the windows of a list show, one after another. -/
def windows (limit : Nat) (shown : List ρ → List α) (l : List ρ) : List α :=
  if _short : l.length ≤ limit ∨ limit = 0 then shown l
  else shown (l.take limit) ++ windows limit shown (l.drop limit)
termination_by l.length
decreasing_by
  rw [List.length_drop]
  omega

theorem windows_short {shown : List ρ → List α} {l : List ρ} (short : l.length ≤ limit) :
    windows limit shown l = shown l := by
  rw [windows, dif_pos (.inl short)]

theorem windows_long {shown : List ρ → List α} {l : List ρ} (positive : 0 < limit)
    (long : limit < l.length) :
    windows limit shown l = shown (l.take limit) ++ windows limit shown (l.drop limit) := by
  rw [windows, dif_neg (by omega)]

/-- Induction on the windows of a list. -/
theorem windows_induction {P : List ρ → Prop} (positive : 0 < limit)
    (short : ∀ l, l.length ≤ limit → P l)
    (long : ∀ first rest, first.length = limit → rest ≠ [] → P rest → P (first ++ rest))
    (l : List ρ) : P l := by
  induction size : l.length using Nat.strong_induction_on generalizing l with
  | _ n ih =>
      by_cases fits : l.length ≤ limit
      · exact short l fits
      · rw [← List.take_append_drop limit l]
        refine long _ _ (List.length_take_of_le (by omega)) (fun none => ?_)
          (ih (l.drop limit).length ?_ _ rfl)
        · rw [List.drop_eq_nil_iff] at none
          omega
        · rw [List.length_drop]
          omega

theorem windows_append {shown : List ρ → List α} {first rest : List ρ} (positive : 0 < limit)
    (full : first.length = limit) (more : rest ≠ []) :
    windows limit shown (first ++ rest) = shown first ++ windows limit shown rest := by
  have size : 0 < rest.length := List.length_pos_iff.mpr more
  rw [windows_long positive (by rw [List.length_append]; omega), ← full, List.take_left, List.drop_left]

theorem windows_of_append {shown : List ρ → List α}
    (split : ∀ l m, shown (l ++ m) = shown l ++ shown m) (positive : 0 < limit) (l : List ρ) :
    windows limit shown l = shown l := by
  induction l using windows_induction positive with
  | short l fits => exact windows_short fits
  | long first rest full more ih => rw [windows_append positive full more, ih, split]

end Windows

/-! ## Calls by offset -/

section Calls

variable {κ ρ α ε : Type} {call : Option κ → Option (Except ε (Page κ α))} {encode : Nat → κ}
  {limit : Nat} {shown : List ρ → List α} {l : List ρ}

/-- The cursor of an offset; the start has none. -/
def offset (encode : Nat → κ) (start : Nat) : Option κ := if start = 0 then none else some (encode start)

/-- A call at an offset within the list shows the window there. -/
def Windowed (call : Option κ → Option (Except ε (Page κ α))) (encode : Nat → κ) (limit : Nat)
    (shown : List ρ → List α) (l : List ρ) : Prop :=
  ∀ start, start = 0 ∨ start < l.length →
    call (offset encode start) = some (.ok ⟨shown ((l.drop start).take limit),
      if start + limit < l.length then some (encode (start + limit)) else none⟩)

theorem Windowed.chained_from (windowed : Windowed call encode limit shown l) (positive : 0 < limit)
    {start : Nat} (inside : start = 0 ∨ start < l.length) :
    Chained call (offset encode start) (windows limit shown (l.drop start)) := by
  induction left : l.length - start using Nat.strong_induction_on generalizing start with
  | _ n ih =>
      have here := windowed start inside
      by_cases more : start + limit < l.length
      · rw [if_pos more] at here
        rw [windows_long positive (by rw [List.length_drop]; omega), List.drop_drop]
        apply Chained.more here
        have later := ih (l.length - (start + limit)) (by omega) (.inr more) rfl
        rwa [offset, if_neg (by omega)] at later
      · rw [if_neg more] at here
        rw [windows_short (by rw [List.length_drop]; omega)]
        rw [List.take_of_length_le (by rw [List.length_drop]; omega)] at here
        exact .done here

/-- **A chain from the start reads all windows.** -/
theorem Windowed.chained (windowed : Windowed call encode limit shown l) (positive : 0 < limit) :
    Chained call none (windows limit shown l) := by
  have whole : Chained call none (windows limit shown (l.drop 0)) :=
    windowed.chained_from positive (.inl rfl)
  rwa [List.drop_zero] at whole

end Calls

/-! ## Values shown once in each window -/

section Places

variable {κ ρ π α : Type} [DecidableEq π] {P : PlacePager κ ρ π α} {limit : Nat}

/-- Rows of one place that has a value share a window. -/
def OneWindow (P : PlacePager κ ρ π α) (limit : Nat) (l : List ρ) : Prop :=
  ∀ i j x y p, l[i]? = some x → l[j]? = some y → P.place x = some p → P.place y = some p →
    (P.row p).isSome = true → i / limit = j / limit

omit [DecidableEq π] in
theorem oneWindow_short {l : List ρ} (fits : l.length ≤ limit) : OneWindow P limit l := by
  intro i j x y p atI atJ _ _ _
  obtain ⟨insideI, -⟩ := List.getElem?_eq_some_iff.mp atI
  obtain ⟨insideJ, -⟩ := List.getElem?_eq_some_iff.mp atJ
  rw [Nat.div_eq_of_lt (by omega), Nat.div_eq_of_lt (by omega)]

/-- No place with a value lies on both sides. -/
def Apart (P : PlacePager κ ρ π α) (first rest : List ρ) : Prop :=
  ∀ x ∈ first, ∀ y ∈ rest, ∀ p, P.place x = some p → P.place y = some p → P.row p = none

omit [DecidableEq π] in
theorem oneWindow_append {first rest : List ρ} (positive : 0 < limit) (full : first.length = limit) :
    OneWindow P limit (first ++ rest) ↔ Apart P first rest ∧ OneWindow P limit rest := by
  have later : ∀ {i : Nat}, limit ≤ i → (first ++ rest)[i]? = rest[i - limit]? := fun {i} past => by
    rw [List.getElem?_append_right (by omega), full]
  have shift : ∀ {i : Nat}, limit ≤ i → i / limit = (i - limit) / limit + 1 := fun {i} past => by
    rw [← Nat.add_div_right _ positive, Nat.sub_add_cancel past]
  constructor
  · intro one
    constructor
    · intro x memberX y memberY p placeX placeY
      by_contra shown
      obtain ⟨i, atI⟩ := List.mem_iff_getElem?.mp memberX
      obtain ⟨j, atJ⟩ := List.mem_iff_getElem?.mp memberY
      obtain ⟨inside, -⟩ := List.getElem?_eq_some_iff.mp atI
      have left : (first ++ rest)[i]? = some x := by rw [List.getElem?_append_left inside, atI]
      have right : (first ++ rest)[j + limit]? = some y := by
        rw [later (by omega), Nat.add_sub_cancel, atJ]
      have same := one i (j + limit) x y p left right placeX placeY (Option.isSome_iff_ne_none.mpr shown)
      rw [Nat.div_eq_of_lt (by omega), Nat.add_div_right _ positive] at same
      exact absurd same (Nat.succ_ne_zero _).symm
    · intro i j x y p atI atJ placeX placeY shown
      have same := one (i + limit) (j + limit) x y p (by rw [later (by omega), Nat.add_sub_cancel, atI])
        (by rw [later (by omega), Nat.add_sub_cancel, atJ]) placeX placeY shown
      rw [Nat.add_div_right _ positive, Nat.add_div_right _ positive] at same
      exact Nat.add_right_cancel same
  · rintro ⟨apart, one⟩ i j x y p atI atJ placeX placeY shown
    have across : ∀ {i j : Nat} {x y : ρ}, i < limit → limit ≤ j → (first ++ rest)[i]? = some x →
        (first ++ rest)[j]? = some y → P.place x = some p → P.place y = some p → False := by
      intro i j x y low high atI atJ placeX placeY
      rw [List.getElem?_append_left (by omega)] at atI
      rw [later high] at atJ
      rw [apart x (List.mem_of_getElem? atI) y (List.mem_of_getElem? atJ) p placeX placeY] at shown
      cases shown
    by_cases lowI : i < limit
    · by_cases lowJ : j < limit
      · rw [Nat.div_eq_of_lt lowI, Nat.div_eq_of_lt lowJ]
      · exact (across lowI (by omega) atI atJ placeX placeY).elim
    · by_cases lowJ : j < limit
      · exact (across lowJ (by omega) atJ atI placeY placeX).elim
      · rw [later (by omega)] at atI atJ
        rw [shift (by omega), shift (i := j) (by omega), one _ _ x y p atI atJ placeX placeY shown]

theorem mem_windows {l : List ρ} (positive : 0 < limit) {v : α} :
    v ∈ windows limit (P.hits · []) l ↔ ∃ r ∈ l, ∃ p, P.place r = some p ∧ P.row p = some v := by
  have shown : ∀ l : List ρ, v ∈ P.hits l [] ↔ ∃ r ∈ l, ∃ p, P.place r = some p ∧ P.row p = some v :=
    fun l => by rw [PlacePager.mem_hits]; simp
  induction l using windows_induction positive with
  | short l fits => rw [windows_short fits, shown]
  | long first rest full more ih =>
      rw [windows_append positive full more, List.mem_append, shown]
      refine (or_congr_right ih).trans ?_
      simp only [List.mem_append, or_and_right, exists_or]

/-- **Windows show each value once exactly when equal places share a window.** -/
theorem windows_hits_iff {placeOf : α → π} (owned : P.Owned placeOf) (positive : 0 < limit)
    (l : List ρ) : windows limit (P.hits · []) l = P.hits l [] ↔ OneWindow P limit l := by
  induction l using windows_induction positive with
  | short l fits => exact iff_of_true (windows_short fits) (oneWindow_short fits)
  | long first rest full more ih =>
      rw [windows_append positive full more, PlacePager.hits_append, List.append_nil,
        List.append_cancel_left_eq, oneWindow_append positive full, ← ih]
      have fresh : Apart P first rest → P.hits rest (first.filterMap P.place) = P.hits rest [] := by
        intro apart
        refine PlacePager.hits_congr fun y member p place shown => iff_of_false (fun seen => ?_)
          List.not_mem_nil
        obtain ⟨x, inside, same⟩ := List.mem_filterMap.mp seen
        rw [apart x inside y member p same place] at shown
        cases shown
      constructor
      · intro same
        have apart : Apart P first rest := by
          intro x inside y member p placeX placeY
          by_contra shown
          obtain ⟨v, value⟩ := Option.ne_none_iff_exists'.mp shown
          have there := (mem_windows positive).mpr ⟨y, member, p, placeY, value⟩
          rw [same, PlacePager.mem_hits] at there
          obtain ⟨-, -, q, -, new, again⟩ := there
          obtain rfl : p = q := (owned.own p v value).symm.trans (owned.own q v again)
          exact new (List.mem_filterMap.mpr ⟨x, inside, placeX⟩)
        exact ⟨apart, same.trans (fresh apart)⟩
      · rintro ⟨apart, same⟩
        rw [same, fresh apart]

end Places

end MassaIndexer.Theory.OffsetPages
