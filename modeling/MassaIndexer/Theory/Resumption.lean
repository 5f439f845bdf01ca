/-
# Theory.Resumption -- interrupted walks skip no place, finished ones rest

What a pass of `Theory.Checkpoint` scans, by place. When a mark resumes exactly at the place after the one
it was written behind (`Aligned`), then in every run, whatever fails and wherever it is interrupted, each
place of the route was scanned whole or lies on the way from the mark (`Traced`).

A rerun after the end scans nothing when the mark behind a last place resumes nowhere (`rests`); where
that mark resumes somewhere, it scans again (`not_resting`), for there is a run that comes to its end
(`exists_completed`).
-/
import MassaIndexer.Theory.Checkpoint
import Mathlib.Logic.Relation

namespace MassaIndexer.Theory.Resumption

open MassaIndexer.Theory.Runs MassaIndexer.Theory.Checkpoint

set_option autoImplicit false

variable {Store Item Target Answer Patch Place Mark : Type}

/-! ## Places -/

/-- From one place on to another. -/
def OnWay (walk : Walk Item Place Mark) : Place → Place → Prop :=
  Relation.ReflTransGen fun place later => walk.next place = some later

/-- The places that a walk from this mark comes to. -/
def Route (walk : Walk Item Place Mark) (mark : Option Mark) (place : Place) : Prop :=
  ∃ start, walk.resume mark = some start ∧ OnWay walk start place

/-- Each item of the place is among these. -/
def Scanned (walk : Walk Item Place Mark) (reached : List Item) (place : Place) : Prop :=
  ∀ item ∈ (walk.groups place).flatten, item ∈ reached

/-- Among the places of `Within`, the mark behind a place resumes at the next. -/
structure Aligned (walk : Walk Item Place Mark) (Within : Place → Prop) : Prop where
  begins : ∀ mark start, walk.resume mark = some start → Within start
  onward : ∀ place later, Within place → walk.next place = some later → Within later
  resumes : ∀ place later written, Within place → walk.next place = some later →
    walk.mark place = some written → walk.resume (some written) = some later

theorem Scanned.mono {walk : Walk Item Place Mark} {reached reached' : List Item} {place : Place}
    (scanned : Scanned walk reached place) (more : ∀ item ∈ reached, item ∈ reached') :
    Scanned walk reached' place := by
  intro item member
  exact more item (scanned item member)

/-- From a place the way leads nowhere, or over the next one. -/
theorem onWay_iff {walk : Walk Item Place Mark} {here place : Place} :
    OnWay walk here place ↔
      place = here ∨ ∃ later, walk.next here = some later ∧ OnWay walk later place := by
  constructor
  · intro way
    rcases Relation.ReflTransGen.cases_head way with same | ⟨later, next, way⟩
    · exact .inl same.symm
    · exact .inr ⟨later, next, way⟩
  · rintro (rfl | ⟨later, next, way⟩)
    · exact .refl
    · exact .head next way

/-! ## Where an interrupted walk goes on -/

section Interruption

variable [DecidableEq Item] {pass : Pass Store Item Target Answer Patch Place Mark}
  {Within : Place → Prop}

/-- Of the route, what is not scanned lies on the way from here; of this place, what is not looked at
is still to come. -/
def Front (pass : Pass Store Item Target Answer Patch Place Mark) (Within : Place → Prop)
    (reached : List Item) : Stage Item Target Place → Prop
  | .stopped => True
  | .running here groups todo _ =>
      Within here ∧
      (∀ item ∈ (pass.groups here).flatten,
        item ∈ reached ∨ item ∈ todo ∨ item ∈ groups.flatten) ∧
      ∀ place, Route pass.toWalk none place →
        Scanned pass.toWalk reached place ∨ OnWay pass.toWalk here place
  | .ended => ∀ place, Route pass.toWalk none place → Scanned pass.toWalk reached place
  | .finished => ∀ place, Route pass.toWalk none place → Scanned pass.toWalk reached place

structure Traced (pass : Pass Store Item Target Answer Patch Place Mark) (Within : Place → Prop)
    (w : World Store Item Target Patch Place Mark) : Prop where
  front : Front pass Within w.reached w.stage
  back : ∀ place, Route pass.toWalk none place →
    Scanned pass.toWalk w.reached place ∨ Route pass.toWalk w.mark place

theorem traced_start (aligned : Aligned pass.toWalk Within)
    {w : World Store Item Target Patch Place Mark} (traced : Traced pass Within w)
    (readable : Bool) : Traced pass Within (pass.step w (.start readable)) := by
  cases stage : w.stage with
  | running here groups todo hand => simpa [Pass.step, stage] using traced
  | ended => simpa [Pass.step, stage] using traced
  | finished => simpa [Pass.step, stage] using traced
  | stopped =>
      have resumed : ∀ place, Route pass.toWalk none place →
          Scanned pass.toWalk w.reached place ∨
            Route pass.toWalk (if readable then w.mark else none) place := by
        intro place route
        cases readable with
        | true => exact traced.back place route
        | false => exact .inr route
      simp only [Pass.step, stage]
      cases begin_ : pass.resume (if readable then w.mark else none) with
      | none =>
          refine ⟨fun place route => ?_, traced.back⟩
          rcases resumed place route with scanned | ⟨start, found, -⟩
          · exact scanned
          · cases begin_.symm.trans found
      | some here =>
          refine ⟨⟨aligned.begins _ _ begin_, ?_, ?_⟩, traced.back⟩
          · intro item member
            exact .inr (.inr member)
          · intro place route
            rcases resumed place route with scanned | ⟨start, found, way⟩
            · exact .inl scanned
            · obtain rfl := Option.some.inj (begin_.symm.trans found)
              exact .inr way

theorem traced_look {w : World Store Item Target Patch Place Mark} (traced : Traced pass Within w)
    (reading : Reading) (answer : Answer) :
    Traced pass Within (pass.step w (.look reading answer)) := by
  cases stage : w.stage with
  | stopped => simpa [Pass.step, stage] using traced
  | ended => simpa [Pass.step, stage] using traced
  | finished => simpa [Pass.step, stage] using traced
  | running here groups todo hand =>
      cases todo with
      | nil => simpa [Pass.step, stage] using traced
      | cons item todo =>
          simp only [Pass.step, stage]
          have front := traced.front
          rw [stage] at front
          obtain ⟨within, items, places⟩ := front
          have more : ∀ other ∈ w.reached, other ∈ item :: w.reached := fun other reached =>
            List.mem_cons_of_mem item reached
          refine ⟨⟨within, ?_, ?_⟩, ?_⟩
          · intro other member
            rcases items other member with reached | listed | later
            · exact .inl (more other reached)
            · rcases List.mem_cons.mp listed with rfl | listed
              · exact .inl List.mem_cons_self
              · exact .inr (.inl listed)
            · exact .inr (.inr later)
          · intro place route
            exact (places place route).imp (·.mono more) id
          · intro place route
            exact (traced.back place route).imp (·.mono more) id

theorem traced_fetch {w : World Store Item Target Patch Place Mark} (traced : Traced pass Within w)
    (i : Nat) (answer : Answer) (through : Bool) :
    Traced pass Within (pass.step w (.fetch i answer through)) := by
  cases stage : w.stage with
  | stopped => simpa [Pass.step, stage] using traced
  | ended => simpa [Pass.step, stage] using traced
  | finished => simpa [Pass.step, stage] using traced
  | running here groups todo hand =>
      cases todo with
      | cons item todo => simpa [Pass.step, stage] using traced
      | nil =>
          cases picked : hand[i]? with
          | none => simpa [Pass.step, stage, picked] using traced
          | some entry =>
              simp only [Pass.step, stage, picked]
              have front := traced.front
              rw [stage] at front
              exact ⟨front, traced.back⟩

omit [DecidableEq Item] in
/-- Past a place whose items were all looked at. -/
theorem traced_leave (aligned : Aligned pass.toWalk Within)
    {w : World Store Item Target Patch Place Mark} (traced : Traced pass Within w) {here : Place}
    (stage : w.stage = .running here [] [] []) (written : Bool) :
    Traced pass Within { w with
      stage := pass.arrive (pass.next here)
      mark := remark written (pass.mark here) w.mark } := by
  have front := traced.front
  rw [stage] at front
  obtain ⟨within, items, places⟩ := front
  have scanned : Scanned pass.toWalk w.reached here := by
    intro item member
    rcases items item member with reached | listed | later
    · exact reached
    · exact absurd listed List.not_mem_nil
    · exact absurd later List.not_mem_nil
  have onward : ∀ place, Route pass.toWalk none place → Scanned pass.toWalk w.reached place ∨
      ∃ later, pass.next here = some later ∧ OnWay pass.toWalk later place := by
    intro place route
    rcases places place route with scanned | way
    · exact .inl scanned
    · rcases onWay_iff.mp way with rfl | later
      · exact .inl scanned
      · exact .inr later
  refine ⟨?_, ?_⟩
  · cases next : pass.next here with
    | none =>
        intro place route
        rcases onward place route with scanned | ⟨later, found, -⟩
        · exact scanned
        · cases next.symm.trans found
    | some later =>
        refine ⟨aligned.onward here later within next, ?_, ?_⟩
        · intro item member
          exact .inr (.inr member)
        · intro place route
          rcases onward place route with scanned | ⟨later', found, way⟩
          · exact .inl scanned
          · obtain rfl := Option.some.inj (next.symm.trans found)
            exact .inr way
  · intro place route
    show _ ∨ Route pass.toWalk (remark written (pass.mark here) w.mark) place
    cases written with
    | false => exact traced.back place route
    | true =>
        cases marked : pass.mark here with
        | none => exact traced.back place route
        | some mark =>
            rcases onward place route with scanned | ⟨later, next, way⟩
            · exact .inl scanned
            · exact .inr ⟨later, aligned.resumes here later mark within next marked, way⟩

theorem traced_proceed (aligned : Aligned pass.toWalk Within)
    {w : World Store Item Target Patch Place Mark} (traced : Traced pass Within w)
    (written : Bool) : Traced pass Within (pass.step w (.proceed written)) := by
  cases stage : w.stage with
  | stopped => simpa [Pass.step, stage] using traced
  | finished => simpa [Pass.step, stage] using traced
  | ended =>
      simp only [Pass.step, stage]
      have front := traced.front
      rw [stage] at front
      exact ⟨front, fun place route => .inl (front place route)⟩
  | running here groups todo hand =>
      cases todo with
      | cons item todo => cases groups <;> simpa [Pass.step, stage] using traced
      | nil =>
          cases hand with
          | cons entry hand => cases groups <;> simpa [Pass.step, stage] using traced
          | nil =>
              cases groups with
              | nil =>
                  have left := traced_leave aligned traced stage written
                  simpa only [Pass.step, stage] using left
              | cons group groups =>
                  simp only [Pass.step, stage]
                  have front := traced.front
                  rw [stage] at front
                  obtain ⟨within, items, places⟩ := front
                  refine ⟨⟨within, ?_, places⟩, traced.back⟩
                  intro item member
                  rcases items item member with reached | listed | later
                  · exact .inl reached
                  · exact absurd listed List.not_mem_nil
                  · rw [List.flatten_cons, List.mem_append] at later
                    exact .inr later

/-- Every step keeps the trace, one that fails and one that interrupts the pass as well. -/
theorem traced_step (aligned : Aligned pass.toWalk Within)
    {w : World Store Item Target Patch Place Mark} (act : Act Store Answer)
    (traced : Traced pass Within w) : Traced pass Within (pass.step w act) := by
  cases act with
  | start readable => exact traced_start aligned traced readable
  | look reading answer => exact traced_look traced reading answer
  | fetch i answer through => exact traced_fetch traced i answer through
  | proceed written => exact traced_proceed aligned traced written
  | apply nowMs =>
      cases lane : w.lane with
      | nil => simpa [Pass.step, lane] using traced
      | cons entry lane' =>
          obtain ⟨item, patch⟩ := entry
          simp only [Pass.step, lane]
          exact ⟨traced.front, traced.back⟩
  | elsewhere store => exact ⟨traced.front, traced.back⟩
  | crash => exact ⟨trivial, traced.back⟩

variable (pass) in
theorem traced_run (aligned : Aligned pass.toWalk Within) (store : Store)
    (acts : List (Act Store Answer)) : Traced pass Within (run pass.step { store := store } acts) :=
  invariant_of_step (fun _ act => traced_step aligned act) acts
    ⟨trivial, fun _ route => .inr route⟩

end Interruption

/-! ## What a rerun does -/

section Rerun

/-- Marks are read and written. -/
def Kept : Act Store Answer → Prop
  | .start readable => readable = true
  | .proceed written => written = true
  | _ => True

/-- The pass has its last place behind it. -/
def Completed (w : World Store Item Target Patch Place Mark) : Prop :=
  w.stage = .ended ∨ w.stage = .finished

/-- The pass is at no place. -/
def Idle (w : World Store Item Target Patch Place Mark) : Prop :=
  ∀ here groups todo hand, w.stage ≠ .running here groups todo hand

variable [DecidableEq Item] {pass : Pass Store Item Target Answer Patch Place Mark}

/-- What the steps with kept marks preserve holds after a run of them. -/
theorem invariant_of_kept {P : World Store Item Target Patch Place Mark → Prop}
    (keep : ∀ w act, Kept act → P w → P (pass.step w act))
    {w : World Store Item Target Patch Place Mark} {acts : List (Act Store Answer)}
    (kept : ∀ act ∈ acts, Kept act) (init : P w) : P (run pass.step w acts) := by
  induction acts generalizing w with
  | nil => exact init
  | cons act acts ih =>
      obtain ⟨first, rest⟩ := List.forall_mem_cons.mp kept
      exact ih rest (keep w act first init)

/-- The mark of a completed pass resumes nowhere. -/
theorem closed_step (unsealed : pass.sealed = none)
    (closes : ∀ place, pass.next place = none →
      ∃ written, pass.mark place = some written ∧ pass.resume (some written) = none)
    {w : World Store Item Target Patch Place Mark} {act : Act Store Answer} (kept : Kept act)
    (closed : Completed w → pass.resume w.mark = none) :
    Completed (pass.step w act) → pass.resume (pass.step w act).mark = none := by
  cases act with
  | start readable =>
      obtain rfl : readable = true := kept
      cases stage : w.stage with
      | running here groups todo hand => simpa [Pass.step, stage] using closed
      | ended => simpa [Pass.step, stage] using closed
      | finished => simpa [Pass.step, stage] using closed
      | stopped =>
          simp only [Pass.step, stage, if_true]
          cases begin_ : pass.resume w.mark with
          | none => exact fun _ => begin_
          | some here =>
              rintro (ended | finished)
              · exact absurd ended (by simp [Pass.arrive])
              · exact absurd finished (by simp [Pass.arrive])
  | look reading answer =>
      cases stage : w.stage with
      | running here groups todo hand =>
          cases todo <;> simp [Pass.step, stage, Completed]
      | stopped => simpa [Pass.step, stage] using closed
      | ended => simpa [Pass.step, stage] using closed
      | finished => simpa [Pass.step, stage] using closed
  | fetch i answer through =>
      cases stage : w.stage with
      | running here groups todo hand =>
          cases todo with
          | cons item todo => simp [Pass.step, stage, Completed]
          | nil => cases picked : hand[i]? <;> simp [Pass.step, stage, picked, Completed]
      | stopped => simpa [Pass.step, stage] using closed
      | ended => simpa [Pass.step, stage] using closed
      | finished => simpa [Pass.step, stage] using closed
  | proceed written =>
      obtain rfl : written = true := kept
      cases stage : w.stage with
      | stopped => simpa [Pass.step, stage] using closed
      | finished => simpa [Pass.step, stage] using closed
      | ended =>
          intro _
          have same : (pass.step w (.proceed true)).mark = w.mark := by
            simp only [Pass.step, stage, remark, unsealed, if_true, Option.none_or]
          rw [same]
          exact closed (.inl stage)
      | running here groups todo hand =>
          cases todo with
          | cons item todo => cases groups <;> simp [Pass.step, stage, Completed]
          | nil =>
              cases hand with
              | cons entry hand => cases groups <;> simp [Pass.step, stage, Completed]
              | nil =>
                  cases groups with
                  | cons group groups => simp [Pass.step, stage, Completed]
                  | nil =>
                      simp only [Pass.step, stage]
                      cases next : pass.next here with
                      | some later => simp [Pass.arrive, Completed]
                      | none =>
                          obtain ⟨written, marked, nowhere⟩ := closes here next
                          intro _
                          show pass.resume (remark true (pass.mark here) w.mark) = none
                          rw [marked]
                          exact nowhere
  | apply nowMs => cases lane : w.lane <;> simpa [Pass.step, lane, Completed] using closed
  | elsewhere store => exact closed
  | crash =>
      rintro (ended | finished)
      · cases ended
      · cases finished

/-- Where the mark resumes nowhere, no step begins a scan. -/
theorem resting_step (unsealed : pass.sealed = none) {w : World Store Item Target Patch Place Mark}
    {act : Act Store Answer} (kept : Kept act) (rests : Idle w ∧ pass.resume w.mark = none) :
    Idle (pass.step w act) ∧ pass.resume (pass.step w act).mark = none := by
  obtain ⟨idle, nowhere⟩ := rests
  cases stage : w.stage with
  | running here groups todo hand => exact absurd stage (idle here groups todo hand)
  | stopped =>
      cases act with
      | start readable =>
          obtain rfl : readable = true := kept
          have finished : pass.step w (.start true) = { w with stage := .finished } := by
            simp only [Pass.step, stage, if_true, nowhere]
          rw [finished]
          exact ⟨fun _ _ _ _ running => (by cases running), nowhere⟩
      | apply nowMs => cases lane : w.lane <;> simpa [Pass.step, lane, Idle, stage] using nowhere
      | _ => simpa [Pass.step, stage, Idle] using nowhere
  | ended =>
      cases act with
      | proceed written => cases written <;>
          simpa [Pass.step, stage, Idle, remark, unsealed] using nowhere
      | apply nowMs => cases lane : w.lane <;> simpa [Pass.step, lane, Idle, stage] using nowhere
      | _ => simpa [Pass.step, stage, Idle] using nowhere
  | finished =>
      cases act with
      | apply nowMs => cases lane : w.lane <;> simpa [Pass.step, lane, Idle, stage] using nowhere
      | _ => simpa [Pass.step, stage, Idle] using nowhere

variable (pass) in
/-- After a run that came to its end, a rerun looks at nothing. -/
theorem rests (unsealed : pass.sealed = none)
    (closes : ∀ place, pass.next place = none →
      ∃ written, pass.mark place = some written ∧ pass.resume (some written) = none)
    (store : Store) {acts rerun : List (Act Store Answer)} (kept : ∀ act ∈ acts, Kept act)
    (kept' : ∀ act ∈ rerun, Kept act)
    (completed : Completed (run pass.step ({ store := store } : World _ _ _ _ _ _) acts)) :
    Idle (run pass.step (pass.step (run pass.step { store := store } acts) .crash) rerun) := by
  have closed := invariant_of_kept (P := fun w => Completed w → pass.resume w.mark = none)
    (fun w act => closed_step unsealed closes) kept (w := { store := store })
    (by rintro (ended | finished) <;> contradiction)
  exact (invariant_of_kept (P := fun w => Idle w ∧ pass.resume w.mark = none)
    (fun w act => resting_step unsealed) (w := pass.step (run pass.step { store := store } acts) .crash)
    kept' ⟨fun _ _ _ _ running => (by cases running), closed completed⟩).1

/-- A run of kept steps from `w` leads to such a stage. -/
def Leads (pass : Pass Store Item Target Answer Patch Place Mark)
    (w : World Store Item Target Patch Place Mark) (goal : Stage Item Target Place → Prop) : Prop :=
  ∃ acts, (∀ act ∈ acts, Kept act) ∧ goal (run pass.step w acts).stage

theorem Leads.after {w : World Store Item Target Patch Place Mark}
    {goal : Stage Item Target Place → Prop} (act : Act Store Answer) (kept : Kept act)
    (later : Leads pass (pass.step w act) goal) : Leads pass w goal := by
  obtain ⟨acts, all, arrives⟩ := later
  exact ⟨act :: acts, List.forall_mem_cons.mpr ⟨kept, all⟩, arrives⟩

/-- What is to look at and in hand can be worked off. -/
theorem leads_emptied (answer : Answer) {here : Place} {groups : List (List Item)}
    {goal : Stage Item Target Place → Prop}
    (emptied : ∀ w : World Store Item Target Patch Place Mark,
      w.stage = .running here groups [] [] → Leads pass w goal)
    (todo : List Item) (hand : List (Item × Target)) (w : World Store Item Target Patch Place Mark)
    (stage : w.stage = .running here groups todo hand) : Leads pass w goal := by
  induction todo generalizing w hand with
  | nil =>
      induction hand generalizing w with
      | nil => exact emptied w stage
      | cons entry hand ih =>
          refine .after (.fetch 0 answer true) trivial (ih _ ?_)
          obtain ⟨item, target⟩ := entry
          simp [Pass.step, stage]
  | cons item todo ih =>
      obtain ⟨hand', looked⟩ : ∃ hand', (pass.step w (.look .clean answer)).stage =
          .running here groups todo hand' := ⟨_, by simp only [Pass.step, stage]; rfl⟩
      exact .after (.look .clean answer) trivial (ih hand' _ looked)

/-- Whatever is left of a place, the pass can leave it. -/
theorem leads_leave (answer : Answer) {here : Place} {goal : Stage Item Target Place → Prop}
    (leave : ∀ w : World Store Item Target Patch Place Mark, w.stage = .running here [] [] [] →
      Leads pass w goal)
    (groups : List (List Item)) (todo : List Item) (hand : List (Item × Target))
    (w : World Store Item Target Patch Place Mark)
    (stage : w.stage = .running here groups todo hand) : Leads pass w goal := by
  induction groups generalizing w todo hand with
  | nil => exact leads_emptied answer leave todo hand w stage
  | cons group groups ih =>
      refine leads_emptied answer (fun w' emptied => ?_) todo hand w stage
      refine .after (.proceed true) rfl (ih group [] _ ?_)
      simp only [Pass.step, emptied]

/-- A walk whose places get smaller comes to its end. -/
theorem exists_completed (answer : Answer) (size : Place → Nat)
    (shrinks : ∀ place later, pass.next place = some later → size later < size place)
    (store : Store) : ∃ acts : List (Act Store Answer), (∀ act ∈ acts, Kept act) ∧
      Completed (run pass.step ({ store := store } : World _ _ _ _ _ _) acts) := by
  have walks : ∀ n here (w : World Store Item Target Patch Place Mark) groups todo hand,
      size here ≤ n → w.stage = .running here groups todo hand →
      Leads pass w fun stage => stage = .ended ∨ stage = .finished := by
    intro n
    induction n with
    | zero =>
        intro here w groups todo hand bound stage
        refine leads_leave answer (fun w' place => ?_) groups todo hand w stage
        refine ⟨[.proceed true], by simp [Kept], ?_⟩
        cases next : pass.next here with
        | none => exact .inl (by simp [run, Pass.step, place, next, Pass.arrive])
        | some later => exact absurd (shrinks here later next) (by omega)
    | succ n ih =>
        intro here w groups todo hand bound stage
        refine leads_leave answer (fun w' place => ?_) groups todo hand w stage
        cases next : pass.next here with
        | none =>
            refine ⟨[.proceed true], by simp [Kept], .inl ?_⟩
            simp [run, Pass.step, place, next, Pass.arrive]
        | some later =>
            have smaller := shrinks here later next
            refine .after (.proceed true) rfl (ih later _ (pass.groups later) [] [] (by omega) ?_)
            simp only [Pass.step, place, next, Pass.arrive]
  have begins : Leads pass (pass.step ({ store := store } : World _ _ _ _ _ _) (.start true))
      fun stage => stage = .ended ∨ stage = .finished := by
    cases begin_ : pass.resume none with
    | none => exact ⟨[], by simp, .inr (by simp [Pass.step, begin_])⟩
    | some here =>
        refine walks _ here _ (pass.groups here) [] [] (Nat.le_refl _) ?_
        simp [Pass.step, begin_, Pass.arrive]
  exact begins.after (.start true) rfl

variable (pass) in
/-- Where every mark resumes somewhere, a completed walk scans again. -/
theorem not_resting (answer : Answer) (size : Place → Nat)
    (shrinks : ∀ place later, pass.next place = some later → size later < size place)
    (reopens : ∀ mark, pass.resume mark ≠ none) (store : Store) :
    ∃ acts rerun : List (Act Store Answer), (∀ act ∈ acts, Kept act) ∧ (∀ act ∈ rerun, Kept act) ∧
      Completed (run pass.step ({ store := store } : World _ _ _ _ _ _) acts) ∧
      ¬ Idle (run pass.step (pass.step (run pass.step { store := store } acts) .crash) rerun) := by
  obtain ⟨acts, kept, completed⟩ := exists_completed answer size shrinks store
  refine ⟨acts, [.start true], kept, by simp [Kept], completed, ?_⟩
  intro idle
  obtain ⟨here, again⟩ := Option.ne_none_iff_exists'.mp
    (reopens (run pass.step ({ store := store } : World _ _ _ _ _ _) acts).mark)
  refine idle here (pass.groups here) [] [] ?_
  simp [run, Pass.step, Pass.arrive] at again ⊢
  simp [again]

end Rerun

end MassaIndexer.Theory.Resumption
