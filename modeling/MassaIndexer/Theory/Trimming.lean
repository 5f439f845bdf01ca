/-
# Theory.Trimming -- cutting a text at its ends and at a separator

`trim` cuts the blanks off both ends of a list, whatever counts as blank: what it leaves is the one
middle that no blank begins or ends (`trim_pad`). `splitOnce` cuts at the first separator
(`splitOnce_eq_some`), and `stripSuffix` takes a suffix off that is there.
-/
import Mathlib.Data.List.DropRight

namespace MassaIndexer.Theory.Trimming

set_option autoImplicit false

variable {α : Type}

/-! ## Both ends -/

section Ends

variable (blank : α → Bool)

def trim (l : List α) : List α := (l.dropWhile blank).rdropWhile blank

/-- Neither end of the list is blank. -/
structure Bare (l : List α) : Prop where
  head : ∀ c ∈ l.head?, blank c = false
  last : ∀ c ∈ l.getLast?, blank c = false

variable {blank}

theorem Bare.of_none {l : List α} (none_ : ∀ c ∈ l, blank c = false) : Bare blank l :=
  ⟨fun c first => none_ c (List.mem_of_mem_head? first),
    fun c last => none_ c (List.mem_of_mem_getLast? last)⟩

theorem dropWhile_of_head {l : List α} (head : ∀ c ∈ l.head?, blank c = false) :
    l.dropWhile blank = l := by
  cases l with
  | nil => rfl
  | cons c l => exact List.dropWhile_cons_of_neg (by simp [head c rfl])

/-- A list is its middle, padded with blanks. -/
theorem exists_pad (blank : α → Bool) (l : List α) : ∃ pre post,
    l = pre ++ trim blank l ++ post ∧ (∀ c ∈ pre, blank c = true) ∧ ∀ c ∈ post, blank c = true := by
  refine ⟨l.takeWhile blank, (l.dropWhile blank).rtakeWhile blank, ?_, ?_, ?_⟩
  · rw [trim, List.append_assoc, List.rdropWhile_append_rtakeWhile, List.takeWhile_append_dropWhile]
  · exact fun c member => List.mem_takeWhile_imp member
  · exact fun c member => List.mem_rtakeWhile_imp member

/-- **Trimming finds the middle of a padded list.** -/
theorem trim_pad {pre m post : List α} (before : ∀ c ∈ pre, blank c = true)
    (after : ∀ c ∈ post, blank c = true) (bare : Bare blank m) :
    trim blank (pre ++ m ++ post) = m := by
  have front : (pre ++ m ++ post).dropWhile blank = (m ++ post).dropWhile blank := by
    rw [List.append_assoc, List.dropWhile_append_of_pos before]
  have back : (m ++ post).rdropWhile blank = m := by
    have reversed : (post.reverse ++ m.reverse).dropWhile blank = m.reverse := by
      rw [List.dropWhile_append_of_pos (by simpa using after)]
      exact dropWhile_of_head (by simpa using bare.last)
    rw [List.rdropWhile, List.reverse_append, reversed, List.reverse_reverse]
  cases m with
  | nil =>
      have gone : post.dropWhile blank = [] := List.dropWhile_eq_nil_iff.mpr after
      rw [trim, front, List.nil_append, gone, List.rdropWhile_nil]
  | cons c m =>
      have kept : ((c :: m) ++ post).dropWhile blank = (c :: m) ++ post :=
        dropWhile_of_head (by simpa using bare.head)
      rw [trim, front, kept, back]

theorem trim_of_bare {l : List α} (bare : Bare blank l) : trim blank l = l := by
  have padded : trim blank ([] ++ l ++ []) = l := trim_pad (by simp) (by simp) bare
  simpa using padded

/-- Nothing blank begins what trimming leaves. -/
theorem head_trim {l : List α} : ∀ c ∈ (trim blank l).head?, blank c = false := by
  intro c first
  obtain ⟨rest, whole⟩ := List.rdropWhile_prefix blank (l.dropWhile blank)
  have cut : ((l.dropWhile blank).rdropWhile blank).head? = some c := first
  have begins : (l.dropWhile blank).head? = some c := by
    rw [← whole, List.head?_append, cut]
    rfl
  have stops := List.head?_dropWhile_not blank l
  rw [begins] at stops
  exact stops

end Ends

/-! ## Separators and suffixes -/

section Cuts

variable [DecidableEq α]

/-- Cut at the first separator. -/
def splitOnce (sep : α) : List α → Option (List α × List α)
  | [] => none
  | c :: rest => if c = sep then some ([], rest) else (splitOnce sep rest).map (Prod.map (c :: ·) id)

theorem splitOnce_eq_some {sep : α} {l a b : List α} :
    splitOnce sep l = some (a, b) ↔ l = a ++ sep :: b ∧ sep ∉ a := by
  induction l generalizing a with
  | nil => simp [splitOnce]
  | cons c l ih =>
      by_cases here : c = sep
      · subst here
        rw [splitOnce, if_pos rfl]
        cases a with
        | nil => simp [eq_comm]
        | cons d a =>
            constructor
            · rintro ⟨⟩
            · rintro ⟨whole, absent⟩
              obtain ⟨rfl, -⟩ := List.cons.inj whole
              exact absurd List.mem_cons_self absent
      · rw [splitOnce, if_neg here]
        cases a with
        | nil => simp [here]
        | cons d a =>
            constructor
            · intro cut
              obtain ⟨⟨a', b'⟩, found, same⟩ := Option.map_eq_some_iff.mp cut
              cases same
              obtain ⟨rfl, absent⟩ := ih.mp found
              exact ⟨rfl, by simp [Ne.symm here, absent]⟩
            · rintro ⟨whole, absent⟩
              obtain ⟨rfl, rfl⟩ := List.cons.inj whole
              rw [ih.mpr ⟨rfl, fun member => absent (List.mem_cons_of_mem _ member)⟩]
              rfl

/-- Take a suffix off, if it is there. -/
def stripSuffix (suffix l : List α) : Option (List α) :=
  if suffix <:+ l then some (l.take (l.length - suffix.length)) else none

theorem stripSuffix_eq_some {suffix l m : List α} :
    stripSuffix suffix l = some m ↔ l = m ++ suffix := by
  unfold stripSuffix
  constructor
  · intro cut
    split at cut
    · next ends =>
        obtain ⟨front, rfl⟩ := ends
        obtain rfl : front = m := by simpa using cut
        rfl
    · cases cut
  · rintro rfl
    simp

theorem stripSuffix_of_not_mem {suffix l : List α} {c : α} (within : c ∈ suffix) (absent : c ∉ l) :
    stripSuffix suffix l = none :=
  if_neg fun ends => absent (ends.subset within)

end Cuts

end MassaIndexer.Theory.Trimming
