/-
# Theory.Network -- machines that answer each other

Any number of machines of one kind. Each takes events of its own, and answers a request with a
message read off its state; a message in flight can be delivered to any machine, late, again, or
never. `owed_of_along` is the rule for facts that are handed on: when a message carries a fact only
from a machine that has it, and a delivery gives a fact only when the message carries it, then every
machine that has the fact owes it to a machine that gained it by an event of its own.
`spread_of_asking` is the rule for facts that spread: where machines only ask and answer, exactly those
that were told have the fact, and the others are as they were.
-/
import MassaIndexer.Theory.Runs
import Mathlib.Data.List.Induction
import Mathlib.Logic.Function.Basic

namespace MassaIndexer.Theory.Network

open MassaIndexer.Theory.Runs

set_option autoImplicit false

variable {ι σ ε ρ μ δ : Type}

/-- What one machine does: with an event of its own, with a request, and with a message. -/
structure Machine (σ ε ρ μ δ : Type) where
  act : σ → ε → σ
  answer : σ → ρ → μ
  accept : σ → μ → δ → σ

/-- The machines and the messages sent so far. -/
structure Net (ι σ μ : Type) where
  node : ι → σ
  sent : List μ

inductive Event (ι ε ρ δ : Type) where
  | own (i : ι) (e : ε)
  | send (i : ι) (request : ρ)
  /-- The `n`-th message reaches `i`. -/
  | deliver (i : ι) (n : Nat) (how : δ)

/-- Every machine in the same state, and nothing sent. -/
def Net.start (s : σ) : Net ι σ μ := ⟨fun _ => s, []⟩

variable [DecidableEq ι] (m : Machine σ ε ρ μ δ)

def Net.step (net : Net ι σ μ) : Event ι ε ρ δ → Net ι σ μ
  | .own i e => { net with node := Function.update net.node i (m.act (net.node i) e) }
  | .send i r => { net with sent := net.sent ++ [m.answer (net.node i) r] }
  | .deliver i n d =>
      match net.sent[n]? with
      | none => net
      | some x => { net with node := Function.update net.node i (m.accept (net.node i) x d) }

/-- Every delivery meets a condition on the machine it reaches and the message. -/
def Deliveries (C : σ → μ → Prop) (net : Net ι σ μ) : Event ι ε ρ δ → Prop
  | .deliver i n _ => ∀ x, net.sent[n]? = some x → C (net.node i) x
  | _ => True

section Origin

variable (Has : σ → Prop) (Carries : μ → Prop)

/-- Some machine gained the fact by an event of its own. -/
def Originated (start : Net ι σ μ) (events : List (Event ι ε ρ δ)) : Prop :=
  ∃ before k e after, events = before ++ .own k e :: after ∧
    ¬ Has ((run (Net.step m) start before).node k) ∧
    Has (m.act ((run (Net.step m) start before).node k) e)

variable {m Has Carries} {start : Net ι σ μ} {events : List (Event ι ε ρ δ)}

theorem Originated.concat (origin : Originated m Has start events) (e : Event ι ε ρ δ) :
    Originated m Has start (events ++ [e]) := by
  obtain ⟨before, k, d, after, rfl, gained⟩ := origin
  exact ⟨before, k, d, after ++ [e], by simp, gained⟩

/-- Whoever has the fact, and whatever carries it, owes it to an origin. -/
structure Owed (m : Machine σ ε ρ μ δ) (Has : σ → Prop) (Carries : μ → Prop) (start : Net ι σ μ)
    (events : List (Event ι ε ρ δ)) : Prop where
  nodes : ∀ i, Has ((run (Net.step m) start events).node i) → Originated m Has start events
  sent : ∀ x ∈ (run (Net.step m) start events).sent, Carries x → Originated m Has start events

variable {C : σ → μ → Prop}

theorem Owed.concat (carried : ∀ s r, Carries (m.answer s r) → Has s)
    (learned : ∀ s x d, C s x → Has (m.accept s x d) → Has s ∨ Carries x)
    (owed : Owed m Has Carries start events) {e : Event ι ε ρ δ}
    (good : Deliveries C (run (Net.step m) start events) e) :
    Owed m Has Carries start (events ++ [e]) := by
  have whole : run (Net.step m) start (events ++ [e]) =
      (run (Net.step m) start events).step m e := by simp
  generalize now : run (Net.step m) start events = net at whole good
  have nodes : ∀ i, Has (net.node i) → Originated m Has start (events ++ [e]) := fun i has =>
    (owed.nodes i (by rw [now]; exact has)).concat e
  have sent : ∀ x ∈ net.sent, Carries x → Originated m Has start (events ++ [e]) :=
    fun x flying carries => (owed.sent x (by rw [now]; exact flying) carries).concat e
  cases e with
  | own k e =>
      refine ⟨fun i has => ?_, by rw [whole]; exact sent⟩
      rw [whole] at has
      by_cases here : i = k
      · subst here
        by_cases before : Has (net.node i)
        · exact nodes i before
        · refine ⟨events, i, e, [], rfl, by rw [now]; exact before, ?_⟩
          rw [now]
          simpa [Net.step] using has
      · exact nodes i (by simpa [Net.step, here] using has)
  | send k r =>
      refine ⟨by rw [whole]; exact nodes, fun x flying carries => ?_⟩
      rw [whole] at flying
      rcases List.mem_append.mp flying with earlier | last
      · exact sent x earlier carries
      · obtain rfl := List.mem_singleton.mp last
        exact nodes k (carried _ _ carries)
  | deliver k n d =>
      cases found : net.sent[n]? with
      | none =>
          have same : net.step m (.deliver k n d) = net := by simp [Net.step, found]
          rw [same] at whole
          exact ⟨by rw [whole]; exact nodes, by rw [whole]; exact sent⟩
      | some x =>
          have reached : net.step m (.deliver k n d) =
              { net with node := Function.update net.node k (m.accept (net.node k) x d) } := by
            simp [Net.step, found]
          rw [reached] at whole
          refine ⟨fun i has => ?_, by rw [whole]; exact sent⟩
          rw [whole] at has
          by_cases here : i = k
          · subst here
            rcases learned _ x d (good x found) (by simpa using has) with before | carries
            · exact nodes i before
            · exact sent x (List.mem_of_getElem? found) carries
          · exact nodes i (by simpa [here] using has)

/-- **Facts that are handed on have an origin.** -/
theorem owed_of_along (carried : ∀ s r, Carries (m.answer s r) → Has s)
    (learned : ∀ s x d, C s x → Has (m.accept s x d) → Has s ∨ Carries x) {s : σ}
    (unknown : ¬ Has s) (good : Along (Net.step m) (Deliveries C) (Net.start s) events) :
    Owed m Has Carries (Net.start (ι := ι) s) events := by
  rw [along_iff_forall_split] at good
  induction events using List.reverseRecOn with
  | nil => exact ⟨fun _ has => absurd has unknown, by simp [Net.start]⟩
  | append_singleton events e ih =>
      have before : Owed m Has Carries (Net.start s) events :=
        ih fun b d a whole => good b d (a ++ [e]) (by simp [whole])
      exact before.concat carried learned (good events e [] rfl)

end Origin

section Spreading

/-- How a fact spreads: a machine is open to it or has it, and answers accordingly. It takes with an
open machine that is told, and stays with one that has it. -/
structure Spreads (m : Machine σ ε ρ μ δ) (Asked : ρ → Prop) (Open Has : σ → Prop)
    (Silent Carries : μ → Prop) : Prop where
  answer_open : ∀ s r, Asked r → Open s → Silent (m.answer s r)
  answer_has : ∀ s r, Asked r → Has s → Carries (m.answer s r)
  silent : ∀ s x d, Silent x → m.accept s x d = s
  told : ∀ s x d, Open s → Carries x → Has (m.accept s x d)
  again : ∀ s x d, Has s → Carries x → Has (m.accept s x d)

/-- The machines ask each other, and do nothing of their own. -/
def Asking (Asked : ρ → Prop) : Event ι ε ρ δ → Prop
  | .own _ _ => False
  | .send _ r => Asked r
  | .deliver _ _ _ => True

/-- A message that carries the fact has reached the machine. -/
def Told (m : Machine σ ε ρ μ δ) (Carries : μ → Prop) (start : Net ι σ μ)
    (events : List (Event ι ε ρ δ)) (i : ι) : Prop :=
  ∃ before n d after x, events = before ++ .deliver i n d :: after ∧
    (run (Net.step m) start before).sent[n]? = some x ∧ Carries x

variable {m} {Asked : ρ → Prop} {Open Has : σ → Prop} {Silent Carries : μ → Prop}
  {start : Net ι σ μ} {events : List (Event ι ε ρ δ)}

theorem told_concat {e : Event ι ε ρ δ} {i : ι} : Told m Carries start (events ++ [e]) i ↔
    Told m Carries start events i ∨ ∃ n d x, e = .deliver i n d ∧
      (run (Net.step m) start events).sent[n]? = some x ∧ Carries x := by
  constructor
  · rintro ⟨before, n, d, after, x, whole, found, carries⟩
    rcases List.eq_nil_or_concat after with rfl | ⟨after, last, rfl⟩
    · obtain ⟨rfl, tail⟩ := List.append_inj' whole rfl
      exact .inr ⟨n, d, x, List.head_eq_of_cons_eq tail, found, carries⟩
    · rw [List.concat_eq_append, ← List.cons_append, ← List.append_assoc] at whole
      obtain ⟨rfl, -⟩ := List.append_inj' whole rfl
      exact .inl ⟨before, n, d, after, x, rfl, found, carries⟩
  · rintro (⟨before, n, d, after, x, rfl, found, carries⟩ | ⟨n, d, x, rfl, found, carries⟩)
    · exact ⟨before, n, d, after ++ [e], x, by simp, found, carries⟩
    · exact ⟨events, n, d, [], x, rfl, found, carries⟩

/-- How far the fact has come. -/
structure Spread (m : Machine σ ε ρ μ δ) (Open Has : σ → Prop) (Silent Carries : μ → Prop)
    (start : Net ι σ μ) (events : List (Event ι ε ρ δ)) : Prop where
  nodes : ∀ i, Has ((run (Net.step m) start events).node i) ∧
      (Has (start.node i) ∨ Told m Carries start events i) ∨
    (run (Net.step m) start events).node i = start.node i ∧ Open (start.node i) ∧
      ¬ Told m Carries start events i
  sent : ∀ x ∈ (run (Net.step m) start events).sent, Silent x ∨ Carries x

theorem Spread.concat (spreads : Spreads m Asked Open Has Silent Carries)
    (spread : Spread m Open Has Silent Carries start events) {e : Event ι ε ρ δ}
    (asking : Asking Asked e) : Spread m Open Has Silent Carries start (events ++ [e]) := by
  have whole : run (Net.step m) start (events ++ [e]) =
      (run (Net.step m) start events).step m e := by simp
  have sent := spread.sent
  have nodes := spread.nodes
  have told := @told_concat ι σ ε ρ μ δ _ m Carries start events e
  generalize run (Net.step m) start events = net at whole sent nodes told
  cases e with
  | own k e => exact absurd asking id
  | send k r =>
      refine ⟨fun i => ?_, fun x flying => ?_⟩
      · rw [whole, told]
        simpa [Net.step] using nodes i
      · rw [whole] at flying
        rcases List.mem_append.mp flying with earlier | last
        · exact sent x earlier
        · obtain rfl := List.mem_singleton.mp last
          rcases nodes k with ⟨has, -⟩ | ⟨same, open_, -⟩
          · exact .inr (spreads.answer_has _ r asking has)
          · exact .inl (spreads.answer_open _ r asking (by rw [same]; exact open_))
  | deliver k n d =>
      cases found : net.sent[n]? with
      | none =>
          have same : net.step m (.deliver k n d) = net := by simp [Net.step, found]
          rw [same] at whole
          refine ⟨fun i => ?_, by rw [whole]; exact sent⟩
          rw [whole, told]
          simpa [found] using nodes i
      | some x =>
          have reached : net.step m (.deliver k n d) =
              { net with node := Function.update net.node k (m.accept (net.node k) x d) } := by
            simp [Net.step, found]
          rw [reached] at whole
          refine ⟨fun i => ?_, by rw [whole]; exact sent⟩
          rw [whole, told]
          dsimp only
          by_cases here : k = i
          · subst here
            by_cases carries : Carries x
            · refine .inl ⟨?_, .inr (.inr ⟨n, d, x, rfl, found, carries⟩)⟩
              rw [Function.update_self]
              rcases nodes k with ⟨has, -⟩ | ⟨same, open_, -⟩
              · exact spreads.again _ x d has carries
              · exact spreads.told _ x d (by rw [same]; exact open_) carries
            · have silent := (sent x (List.mem_of_getElem? found)).resolve_right carries
              have deaf : ¬ ∃ n' d' x', Event.deliver (ε := ε) (ρ := ρ) k n d = .deliver k n' d' ∧
                  net.sent[n']? = some x' ∧ Carries x' := by
                rintro ⟨n', d', x', same, found', carries'⟩
                obtain ⟨-, rfl, -⟩ := Event.deliver.inj same
                rw [Option.some.inj (found.symm.trans found')] at carries
                exact carries carries'
              rw [or_iff_left deaf, Function.update_self, spreads.silent _ x d silent]
              exact nodes k
          · have elsewhere : ¬ ∃ n' d' x', Event.deliver (ε := ε) (ρ := ρ) k n d = .deliver i n' d' ∧
                net.sent[n']? = some x' ∧ Carries x' := by
              rintro ⟨n', d', x', same, -, -⟩
              exact here (Event.deliver.inj same).1
            rw [or_iff_left elsewhere, Function.update_of_ne (Ne.symm here)]
            exact nodes i

/-- **Who was told has the fact, and everyone else is as before.** -/
theorem spread_of_asking (spreads : Spreads m Asked Open Has Silent Carries) (quiet : start.sent = [])
    (each : ∀ i, Open (start.node i) ∨ Has (start.node i)) (asking : ∀ e ∈ events, Asking Asked e) :
    Spread m Open Has Silent Carries start events := by
  induction events using List.reverseRecOn with
  | nil =>
      have untold : ∀ i, ¬ Told m Carries start [] i := by
        rintro i ⟨before, n, d, after, x, whole, -⟩
        simp at whole
      refine ⟨fun i => ?_, by simp [quiet]⟩
      by_cases has : Has (start.node i)
      · exact .inl ⟨has, .inl has⟩
      · exact .inr ⟨rfl, (each i).resolve_right has, untold i⟩
  | append_singleton events e ih =>
      refine (ih fun d member => asking d ?_).concat spreads (asking e ?_)
      · exact List.mem_append_left _ member
      · exact List.mem_append_right _ (List.mem_singleton_self e)

end Spreading

end MassaIndexer.Theory.Network
