/-
# Theory.LinkWalk -- walks along back links

Items that each name at most one predecessor, seen in two ways: a list in forward order, which is
unbroken when every item that names a predecessor names the item listed before it, and the backward
climb from one item through the links.

* `firstBreak_eq_none_iff`, `firstBreak_eq_some_iff` -- the forward scan stops at the first item
  whose link is not the item it last passed, and reports that link.
* `firstBreak_eq_some_iff_firstUnknown` -- the same by what is known rather than by what was passed.
* `reaches_closed` -- a bounded climb never leaves a set that is closed under the links.
-/
import Mathlib.Tactic.Common

namespace MassaIndexer.Theory.LinkWalk

set_option autoImplicit false

variable {α : Type}

/-- The item last passed after walking over `before`, starting behind `prev`. -/
def lastPassed (prev : Option α) (before : List α) : Option α := before.getLast?.or prev

@[simp] theorem lastPassed_nil (prev : Option α) : lastPassed prev [] = prev := rfl

@[simp] theorem lastPassed_cons (prev : Option α) (b : α) (before : List α) :
    lastPassed prev (b :: before) = lastPassed (some b) before := by
  cases before with
  | nil => simp [lastPassed]
  | cons c before =>
      have last : ∃ x, (c :: before).getLast? = some x :=
        ⟨_, List.getLast?_eq_some_getLast (List.cons_ne_nil c before)⟩
      obtain ⟨x, found⟩ := last
      simp [lastPassed, List.getLast?_cons_cons, found]

section Walk

variable (link : α → Option α)

/-- Every item that names a predecessor names the one passed before it. -/
def Unbroken (prev : Option α) (l : List α) : Prop :=
  ∀ before b after, l = before ++ b :: after → ∀ z, link b = some z → lastPassed prev before = some z

theorem unbroken_nil (prev : Option α) : Unbroken link prev [] := by
  intro before b after split
  simp at split

variable [DecidableEq α]

/-- Walk forward from behind `prev`; the link of the first item that names another predecessor. -/
def firstBreak : Option α → List α → Option α
  | _, [] => none
  | prev, b :: rest =>
      match link b with
      | some z => if some z = prev then firstBreak (some b) rest else some z
      | none => firstBreak (some b) rest

variable {link}

omit [DecidableEq α] in
theorem unbroken_cons {prev : Option α} {b : α} {rest : List α} :
    Unbroken link prev (b :: rest) ↔
      (∀ z, link b = some z → prev = some z) ∧ Unbroken link (some b) rest := by
  constructor
  · intro whole
    refine ⟨fun z named => whole [] b rest rfl z named, fun before c after split z named => ?_⟩
    simpa using whole (b :: before) c after (by rw [split]; rfl) z named
  · rintro ⟨first, later⟩ before c after split z named
    cases before with
    | nil =>
        obtain ⟨rfl, rfl⟩ := List.cons.inj split
        exact first z named
    | cons d before =>
        obtain ⟨rfl, rfl⟩ := List.cons.inj split
        simpa using later before c after rfl z named

theorem firstBreak_eq_none_iff {prev : Option α} {l : List α} :
    firstBreak link prev l = none ↔ Unbroken link prev l := by
  induction l generalizing prev with
  | nil => simp [firstBreak, unbroken_nil link]
  | cons b rest ih =>
      rw [unbroken_cons, firstBreak]
      cases named : link b with
      | none => simp [ih]
      | some z =>
          by_cases same : some z = prev
          · simp [same, ih]
          · have differ : prev ≠ some z := fun h => same h.symm
            simp [same, differ]

theorem firstBreak_eq_some_iff {prev : Option α} {l : List α} {z : α} :
    firstBreak link prev l = some z ↔
      ∃ before b after, l = before ++ b :: after ∧ Unbroken link prev before ∧
        link b = some z ∧ lastPassed prev before ≠ some z := by
  induction l generalizing prev with
  | nil => simp [firstBreak]
  | cons b rest ih =>
      constructor
      · intro broken
        rw [firstBreak] at broken
        split at broken
        · next w named =>
            split at broken
            · next same =>
                obtain ⟨before, c, after, split, clean, cut, away⟩ := ih.mp broken
                refine ⟨b :: before, c, after, by rw [split]; rfl, ?_, cut, by simpa using away⟩
                exact unbroken_cons.mpr ⟨fun v v_named => by rw [← same, ← named, v_named], clean⟩
            · next differ =>
                obtain rfl := Option.some.inj broken
                exact ⟨[], b, rest, rfl, unbroken_nil link prev, named, fun same => differ same.symm⟩
        · next unnamed =>
            obtain ⟨before, c, after, split, clean, cut, away⟩ := ih.mp broken
            refine ⟨b :: before, c, after, by rw [split]; rfl, ?_, cut, by simpa using away⟩
            exact unbroken_cons.mpr ⟨fun v v_named => by simp [unnamed] at v_named, clean⟩
      · rintro ⟨before, c, after, split, clean, cut, away⟩
        rw [firstBreak]
        cases before with
        | nil =>
            obtain ⟨rfl, rfl⟩ := List.cons.inj split
            have differ : some z ≠ prev := fun same => away same.symm
            simp [cut, differ]
        | cons d before =>
            obtain ⟨rfl, rfl⟩ := List.cons.inj split
            obtain ⟨first, later⟩ := unbroken_cons.mp clean
            have onward : firstBreak link (some b) (before ++ c :: after) = some z :=
              ih.mpr ⟨before, c, after, rfl, later, cut, by simpa using away⟩
            cases named : link b with
            | none => simpa using onward
            | some w => simpa [first w named] using onward

/-- `z` is named by the first item whose predecessor is not `known`. -/
def FirstUnknown (link : α → Option α) (known : α → Prop) (l : List α) (z : α) : Prop :=
  ∃ before b after, l = before ++ b :: after ∧
    (∀ a ∈ before, ∀ w, link a = some w → known w) ∧ link b = some z ∧ ¬ known z

omit [DecidableEq α] in
theorem exists_firstUnknown_iff {known : α → Prop} {l : List α} :
    (∃ z, FirstUnknown link known l z) ↔ ∃ b ∈ l, ∃ z, link b = some z ∧ ¬ known z := by
  constructor
  · rintro ⟨z, before, b, after, rfl, -, named, unknown⟩
    exact ⟨b, by simp, z, named, unknown⟩
  · rintro ⟨b, member, z, named, unknown⟩
    induction l with
    | nil => simp at member
    | cons a l ih =>
        by_cases first : ∃ w, link a = some w ∧ ¬ known w
        · obtain ⟨w, hit, miss⟩ := first
          exact ⟨w, [], a, l, rfl, by simp, hit, miss⟩
        · have knownFirst : ∀ w, link a = some w → known w := fun w hit => by
            by_contra miss
            exact first ⟨w, hit, miss⟩
          rcases List.mem_cons.mp member with rfl | later
          · exact absurd (knownFirst z named) unknown
          · obtain ⟨v, before, c, after, rfl, clean, hit, miss⟩ := ih later
            refine ⟨v, a :: before, c, after, rfl, fun x inside w link => ?_, hit, miss⟩
            rcases List.mem_cons.mp inside with rfl | inside
            · exact knownFirst w link
            · exact clean x inside w link

/-- When a predecessor was passed last exactly if it is known, the walk breaks at the first unknown
one. -/
theorem firstBreak_eq_some_iff_firstUnknown {known : α → Prop} {prev : Option α} {l : List α}
    (passed : ∀ before b after z, l = before ++ b :: after → link b = some z →
      (lastPassed prev before = some z ↔ known z)) {z : α} :
    firstBreak link prev l = some z ↔ FirstUnknown link known l z := by
  rw [firstBreak_eq_some_iff]
  constructor
  · rintro ⟨before, q, after, split, clean, named, cut⟩
    refine ⟨before, q, after, split, fun r member w hit => ?_, named, fun known => ?_⟩
    · obtain ⟨first, rest, rfl⟩ := List.append_of_mem member
      have here : l = first ++ r :: (rest ++ q :: after) := by rw [split]; simp
      exact (passed first r _ w here hit).mp (clean first r rest rfl w hit)
    · exact cut ((passed before q after z split named).mpr known)
  · rintro ⟨before, q, after, split, near, named, away⟩
    refine ⟨before, q, after, split, ?_, named, fun last => ?_⟩
    · rintro first r rest rfl w hit
      have here : l = first ++ r :: (rest ++ q :: after) := by rw [split]; simp
      exact (passed first r _ w here hit).mpr (near r (by simp) w hit)
    · exact away ((passed before q after z split named).mp last)

end Walk

/-! ## The climb -/

section Climb

variable [DecidableEq α]

/-- Follow links from `cur`, looking at `fuel` items at most, until `target` is met. -/
def reaches (link : α → Option α) (target : α) : Nat → α → Bool
  | 0, _ => false
  | fuel + 1, cur =>
      if cur = target then true
      else match link cur with
        | none => false
        | some par => reaches link target fuel par

theorem reaches_closed {link : α → Option α} {P : α → Prop}
    (closed : ∀ b z, P b → link b = some z → P z) {target : α} {fuel : Nat} {cur : α} (start : P cur)
    (reached : reaches link target fuel cur = true) : P target := by
  induction fuel generalizing cur with
  | zero => simp [reaches] at reached
  | succ fuel ih =>
      rw [reaches] at reached
      split at reached
      · next here => exact here ▸ start
      · split at reached
        · simp at reached
        · next par named => exact ih (closed cur par start named) reached

theorem reaches_self {link : α → Option α} (fuel : Nat) (b : α) :
    reaches link b (fuel + 1) b = true := by simp [reaches]

end Climb

end MassaIndexer.Theory.LinkWalk
