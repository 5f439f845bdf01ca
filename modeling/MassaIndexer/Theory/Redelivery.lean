/-
# Theory.Redelivery -- lists of writes delivered again

A list of items is written to a state, and then written again, perhaps by a clock that has moved on.
Where a write settles its item, later writes leave it settled, and writing a settled item changes
nothing that counts (`Settles`), the second round changes nothing that counts either
(`foldl_again`). What counts is a relation on states; being settled may not look at the rest.

Where each item writes the row of one key, all this is asked of one row (`Refiles`).
-/
import Mathlib.Tactic.Common

namespace MassaIndexer.Theory.Redelivery

set_option autoImplicit false

variable {α σ : Type}

/-- What it takes to deliver items again: `again` is how the second round writes them. -/
structure Settles (write again : α → σ → σ) (Settled : α → σ → Prop) (Alike : σ → σ → Prop) :
    Prop where
  done : ∀ a s, Settled a (write a s)
  stays : ∀ a b s, Settled a s → Settled a (write b s)
  idle : ∀ a s, Settled a s → Alike (again a s) s
  blind : ∀ a s t, Alike s t → Settled a t → Settled a s
  refl : ∀ s, Alike s s
  trans : ∀ s t u, Alike s t → Alike t u → Alike s u

namespace Settles

variable {write again : α → σ → σ} {Settled : α → σ → Prop} {Alike : σ → σ → Prop}
  (laws : Settles write again Settled Alike)

include laws

theorem stays_all {a : α} (items : List α) {s : σ} (settled : Settled a s) :
    Settled a (items.foldl (fun s b => write b s) s) := by
  induction items generalizing s with
  | nil => exact settled
  | cons b rest ih => exact ih (laws.stays a b s settled)

/-- After the first round every item is settled. -/
theorem settled_all (items : List α) (s : σ) :
    ∀ a ∈ items, Settled a (items.foldl (fun s b => write b s) s) := by
  induction items generalizing s with
  | nil => simp
  | cons b rest ih =>
      intro a member
      rcases List.mem_cons.mp member with rfl | later
      · exact laws.stays_all rest (laws.done a s)
      · exact ih (write b s) a later

/-- Settled items are written without effect. -/
theorem idle_all (items : List α) {s : σ} (settled : ∀ a ∈ items, Settled a s) :
    Alike (items.foldl (fun s b => again b s) s) s := by
  induction items generalizing s with
  | nil => exact laws.refl s
  | cons b rest ih =>
      have here := laws.idle b s (settled b (by simp))
      have left : ∀ a ∈ rest, Settled a (again b s) := fun a member =>
        laws.blind a _ _ here (settled a (by simp [member]))
      exact laws.trans _ _ _ (ih left) here

/-- **The second round changes nothing that counts.** -/
theorem foldl_again (items : List α) (s : σ) :
    Alike (items.foldl (fun s a => again a s) (items.foldl (fun s a => write a s) s))
      (items.foldl (fun s a => write a s) s) :=
  laws.idle_all items (laws.settled_all items s)

end Settles

/-! ## Items that write one row -/

section Rows

variable {κ ρ : Type} [DecidableEq κ]

/-- Items that name a key write its row and no other. Rows count by what `clear` leaves of them. The row
an item leaves is settled for it, and for every item the row before was settled for; where it is settled
already, writing the item again leaves what counts. -/
structure Refiles (read : σ → κ → Option ρ) (clear : ρ → ρ) (key : α → Option κ)
    (write again : α → σ → σ) (Settled : α → ρ → Prop) : Prop where
  mute : ∀ a s, key a = none → write a s = s ∧ again a s = s
  writes : ∀ a s k, key a = some k → ∃ r, Settled a r ∧
    (∀ b old, read s k = some old → Settled b old → Settled b r) ∧
    ∀ k', read (write a s) k' = if k = k' then some r else read s k'
  idle : ∀ a s k old, key a = some k → read s k = some old → Settled a old → ∃ r, clear r = clear old ∧
    ∀ k', read (again a s) k' = if k = k' then some r else read s k'
  blind : ∀ a r r', clear r = clear r' → Settled a r' → Settled a r

namespace Refiles

variable {read : σ → κ → Option ρ} {clear : ρ → ρ} {key : α → Option κ} {write again : α → σ → σ}
  {Settled : α → ρ → Prop} (laws : Refiles read clear key write again Settled)

include laws

theorem settles : Settles write again (fun a s => ∀ k, key a = some k → ∃ r, read s k = some r ∧ Settled a r)
    fun s t => ∀ k, (read s k).map clear = (read t k).map clear where
  done a s k named := by
    obtain ⟨r, done, -, reads⟩ := laws.writes a s k named
    exact ⟨r, (reads k).trans (if_pos rfl), done⟩
  stays a b s settled k named := by
    obtain ⟨old, found, done⟩ := settled k named
    cases other : key b with
    | none => exact ⟨old, (congrArg (read · k) (laws.mute b s other).1).trans found, done⟩
    | some k' =>
        obtain ⟨r, -, keeps, reads⟩ := laws.writes b s k' other
        by_cases same : k' = k
        · subst same
          exact ⟨r, (reads k').trans (if_pos rfl), keeps a old found done⟩
        · exact ⟨old, (reads k).trans ((if_neg same).trans found), done⟩
  idle a s settled k := by
    cases named : key a with
    | none => rw [(laws.mute a s named).2]
    | some k' =>
        obtain ⟨old, found, done⟩ := settled k' named
        obtain ⟨r, same, reads⟩ := laws.idle a s k' old named found done
        rw [reads k]
        split
        · next here =>
            rw [← here, found]
            exact congrArg some same
        · rfl
  blind a s t alike settled k named := by
    obtain ⟨r, found, done⟩ := settled k named
    have there := alike k
    rw [found] at there
    obtain ⟨r', held, same⟩ := Option.map_eq_some_iff.mp there
    exact ⟨r', held, laws.blind a r' r same done⟩
  refl _ _ := rfl
  trans _ _ _ first second k := (first k).trans (second k)

/-- **The second round leaves every row as it was, by what counts.** -/
theorem read_again (items : List α) (s : σ) (k : κ) :
    (read (items.foldl (fun s a => again a s) (items.foldl (fun s a => write a s) s)) k).map clear =
      (read (items.foldl (fun s a => write a s) s) k).map clear :=
  laws.settles.foldl_again items s k

end Refiles

end Rows

end MassaIndexer.Theory.Redelivery
