/-
# Theory.Decoding -- decoders that keep what they reported before a throw

A reading consumes a front part of its input and returns a value, or throws. A decoding does the same over
a state, and what it did to the state stands when it throws: this is how code behaves that appends to a
report while it parses and leaves the catching to its caller.

`Reads` and `Decodes` say that exactly the given code is consumed, whatever follows it; they compose along
concatenation of codes. `Keeps` says that a part of the state is never touched, thrown or not. A counted loop
is `each`, over a sequence of coded items `Coded`.
-/
import Mathlib.Tactic.Common

namespace MassaIndexer.Theory.Decoding

set_option autoImplicit false

variable {ι ε σ τ α β : Type}

/-! ## Readings -/

/-- `r` reads exactly `code` as `a`. -/
def Reads (r : StateT (List ι) (Except ε) α) (code : List ι) (a : α) : Prop :=
  ∀ rest, r (code ++ rest) = .ok (a, rest)

theorem Reads.pure (a : α) : Reads (ε := ε) (Pure.pure a) ([] : List ι) a := fun _ => rfl

theorem Reads.bind {first : StateT (List ι) (Except ε) α} {next : α → StateT (List ι) (Except ε) β}
    {code code' : List ι} {a : α} {b : β} (reads : Reads first code a) (reads' : Reads (next a) code' b) :
    Reads (first >>= next) (code ++ code') b := by
  intro rest
  show (first (code ++ code' ++ rest) >>= fun p => next p.1 p.2) = _
  rw [List.append_assoc, reads (code' ++ rest)]
  exact reads' rest

theorem Reads.map {r : StateT (List ι) (Except ε) α} {code : List ι} {a : α} (reads : Reads r code a)
    (f : α → β) : Reads (do let a ← r; Pure.pure (f a)) code (f a) := by
  have result : Reads (Pure.pure (f a) : StateT (List ι) (Except ε) β) [] (f a) := Reads.pure (f a)
  have both : Reads (r >>= fun a => Pure.pure (f a)) (code ++ []) (f a) := reads.bind result
  rwa [List.append_nil] at both

/-- A whole input is a code that nothing follows. -/
theorem Reads.all {r : StateT (List ι) (Except ε) α} {code : List ι} {a : α} (reads : Reads r code a) :
    r code = .ok (a, []) := by
  have whole := reads []
  rwa [List.append_nil] at whole

/-! ## Sequences of coded items -/

/-- The codes of the items, one behind another. -/
inductive Coded (P : List ι → α → Prop) : List ι → List α → Prop
  | nil : Coded P [] []
  | cons {code codes : List ι} {a : α} {as : List α} (head : P code a) (tail : Coded P codes as) :
      Coded P (code ++ codes) (a :: as)

def readMany (item : StateT (List ι) (Except ε) α) : Nat → StateT (List ι) (Except ε) (List α)
  | 0 => pure []
  | n + 1 => do
      let a ← item
      let as ← readMany item n
      pure (a :: as)

theorem reads_readMany {P : List ι → α → Prop} {f : α → β} {item : StateT (List ι) (Except ε) β}
    (reads : ∀ code a, P code a → Reads item code (f a)) {code : List ι} {as : List α}
    (coded : Coded P code as) : Reads (readMany item as.length) code (as.map f) := by
  induction coded with
  | nil => exact Reads.pure []
  | cons head tail ih =>
      refine (reads _ _ head).bind ?_
      exact ih.map (List.cons _)

/-! ## Decodings -/

abbrev Decoder (ι ε σ α : Type) := StateT (List ι) (ExceptT ε (StateM σ)) α

namespace Decoder

/-- A reading leaves the state alone. -/
def of (r : StateT (List ι) (Except ε) α) : Decoder ι ε σ α := fun input s => (r input, s)

def update (f : σ → σ) : Decoder ι ε σ Unit := fun input s => (.ok ((), input), f s)

def fail (e : ε) : Decoder ι ε σ α := fun _ s => (.error e, s)

/-- `for (let j = i; j < i + n; j++) item(j)`. -/
def each (item : Nat → Decoder ι ε σ Unit) : Nat → Nat → Decoder ι ε σ Unit
  | 0, _ => pure ()
  | n + 1, i => do
      item i
      each item n (i + 1)

variable {first : Decoder ι ε σ α} {next : α → Decoder ι ε σ β} {input rest : List ι} {s s' : σ}

theorem bind_of_ok {a : α} (read : first input s = (.ok (a, rest), s')) :
    (first >>= next) input s = next a rest s' := by
  simp only [bind, StateT.bind, ExceptT.bind, ExceptT.mk, read, ExceptT.bindCont]

theorem bind_of_error {e : ε} (threw : first input s = (.error e, s')) :
    (first >>= next) input s = (.error e, s') := by
  simp only [bind, StateT.bind, ExceptT.bind, ExceptT.mk, threw, ExceptT.bindCont]
  rfl

end Decoder

/-- `d` reads exactly `code` as `a` and takes the state from `s` to `s'`. -/
def Decodes (d : Decoder ι ε σ α) (code : List ι) (s : σ) (a : α) (s' : σ) : Prop :=
  ∀ rest, d (code ++ rest) s = (.ok (a, rest), s')

namespace Decodes

theorem pure (a : α) (s : σ) : Decodes (ε := ε) (Pure.pure a) ([] : List ι) s a s := fun _ => rfl

theorem of {r : StateT (List ι) (Except ε) α} {code : List ι} {a : α} (reads : Reads r code a) (s : σ) :
    Decodes (.of r) code s a s := by
  intro rest
  show (r (code ++ rest), s) = _
  rw [reads rest]

theorem update (f : σ → σ) (s : σ) : Decodes (ι := ι) (ε := ε) (.update f) [] s () (f s) := fun _ => rfl

theorem bind {first : Decoder ι ε σ α} {next : α → Decoder ι ε σ β} {code code' : List ι} {s s' s'' : σ}
    {a : α} {b : β} (decodes : Decodes first code s a s') (decodes' : Decodes (next a) code' s' b s'') :
    Decodes (first >>= next) (code ++ code') s b s'' := by
  intro rest
  have one := decodes (code' ++ rest)
  have two := decodes' rest
  rw [← List.append_assoc] at one
  exact (Decoder.bind_of_ok one).trans two

/-- Reading an item and putting it into the state. -/
theorem put {r : StateT (List ι) (Except ε) α} {code : List ι} {a : α} (reads : Reads r code a)
    (f : α → σ → σ) (s : σ) :
    Decodes (do let a ← Decoder.of r; Decoder.update (f a)) code s () (f a s) := by
  have change : Decodes (Decoder.update (f a) : Decoder ι ε σ Unit) [] s () (f a s) := update (f a) s
  have both : Decodes (Decoder.of r >>= fun a => Decoder.update (f a)) (code ++ []) s () (f a s) :=
    (of reads s).bind change
  rwa [List.append_nil] at both

theorem all {d : Decoder ι ε σ α} {code : List ι} {s s' : σ} {a : α} (decodes : Decodes d code s a s') :
    d code s = (.ok (a, []), s') := by
  have whole := decodes []
  rwa [List.append_nil] at whole

/-- What the loop does to the state, item by item. -/
def eachPut (put : Nat → α → σ → σ) : Nat → List α → σ → σ
  | _, [], s => s
  | i, a :: as, s => eachPut put (i + 1) as (put i a s)

theorem each {P : List ι → α → Prop} {item : Nat → Decoder ι ε σ Unit} {put : Nat → α → σ → σ}
    (decodes : ∀ i code a s, P code a → Decodes (item i) code s () (put i a s)) {code : List ι}
    {as : List α} (coded : Coded P code as) (i : Nat) (s : σ) :
    Decodes (.each item as.length i) code s () (eachPut put i as s) := by
  induction coded generalizing i s with
  | nil => exact pure () s
  | cons head tail ih => exact (decodes i _ _ s head).bind (ih (i + 1) _)

end Decodes

/-! ## What a decoding leaves alone -/

/-- `view` of the state is the same before and after, also where `d` throws. -/
def Keeps (view : σ → τ) (d : Decoder ι ε σ α) : Prop :=
  ∀ input s, view (d input s).2 = view s

namespace Keeps

variable {view : σ → τ}

theorem pure (a : α) : Keeps view (Pure.pure a : Decoder ι ε σ α) := fun _ _ => rfl

theorem of (r : StateT (List ι) (Except ε) α) : Keeps view (.of r) := fun _ _ => rfl

theorem update {f : σ → σ} (same : ∀ s, view (f s) = view s) :
    Keeps (ι := ι) (ε := ε) view (.update f) := fun _ s => same s

theorem fail (e : ε) : Keeps view (.fail e : Decoder ι ε σ α) := fun _ _ => rfl

theorem bind {first : Decoder ι ε σ α} {next : α → Decoder ι ε σ β} (keeps : Keeps view first)
    (keeps' : ∀ a, Keeps view (next a)) : Keeps view (first >>= next) := by
  intro input s
  have before := keeps input s
  rcases read : first input s with ⟨outcome, t⟩
  rw [read] at before
  cases outcome with
  | error e =>
      rw [Decoder.bind_of_error read]
      exact before
  | ok p =>
      rw [Decoder.bind_of_ok read]
      exact (keeps' p.1 p.2 t).trans before

theorem each {item : Nat → Decoder ι ε σ Unit} (keeps : ∀ i, Keeps view (item i)) (n i : Nat) :
    Keeps view (.each item n i) := by
  induction n generalizing i with
  | zero => exact pure ()
  | succ n ih => exact (keeps i).bind fun _ => ih (i + 1)

end Keeps

end MassaIndexer.Theory.Decoding
