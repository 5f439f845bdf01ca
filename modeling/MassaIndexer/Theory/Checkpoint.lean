/-
# Theory.Checkpoint -- a pass that records its progress before its work is applied

A pass walks the places of a range. At each it looks at the items, in groups: it selects those that need
work, asks a source for what they need, and puts the patches that come back on a lane. A writer beside it
applies the lane in order. Between two places the pass may write a durable mark to resume from, and at
the end one that says that nothing is left. A crash loses the lane and what the pass has in hand; the
mark and the store stay.

`due` are the items that needed work, and that the source had an answer for, when the pass last came by;
`missed` those of them it stepped over because a read or a fetch failed; `done` those for which a patch
was applied. A pass that reports that it is through has repaired its range when it came by every item and
all that is due is done (`Repaired`). That is so in every run in which no crash loses a patch whose item
the mark has left behind, and the end is reported only when the lane is empty and nothing was missed
(`repaired_of_along`).
-/
import MassaIndexer.Theory.Runs

namespace MassaIndexer.Theory.Checkpoint

open MassaIndexer.Theory.Runs

set_option autoImplicit false

/-! ## Walks -/

/-- Where a mark resumes (`none`: nothing is left), the items of a place in the groups that are looked at
together, the place after it, the mark written between the two, and the one written at the end. `ahead`
are the items a walk from a place comes by: no item is lost between two places, nor between a place and
the mark written before it. -/
structure Walk (Item Place Mark : Type) where
  resume : Option Mark → Option Place
  groups : Place → List (List Item)
  next : Place → Option Place
  mark : Place → Option Mark
  sealed : Option Mark
  ahead : Place → Item → Prop
  visits : ∀ place item, ahead place item →
    item ∈ (groups place).flatten ∨ ∃ later, next place = some later ∧ ahead later item
  resumes : ∀ place later written item, next place = some later → mark place = some written →
    ahead later item → ∃ again, resume (some written) = some again ∧ ahead again item

/-- The items that a walk from this mark comes by. -/
def Walk.AheadOf {Item Place Mark : Type} (walk : Walk Item Place Mark) (mark : Option Mark)
    (item : Item) : Prop :=
  ∃ place, walk.resume mark = some place ∧ walk.ahead place item

/-- The items of the range. -/
def Walk.Covers {Item Place Mark : Type} (walk : Walk Item Place Mark) : Item → Prop :=
  walk.AheadOf none

/-! ## Passes -/

/-- How the reads of a look went: all well, or those that only refine what is kept failed, or those that
select did. -/
inductive Reading where
  | clean
  | blurred
  | failed
deriving DecidableEq

/-- What is kept of an item that needs work, what a blurred look makes of that, the patch that an answer
of the source leads to, and the writer. -/
structure Pass (Store Item Target Answer Patch Place Mark : Type) extends Walk Item Place Mark where
  look : Store → Item → Option Target
  blur : Target → Target
  reply : Item → Target → Answer → Option Patch
  absorb : Store → Patch → Int → Store

/-- Stopped, at a place with the groups, the items of this group and the targets that are left there, past
the last place, or through. -/
inductive Stage (Item Target Place : Type) where
  | stopped
  | running (place : Place) (groups : List (List Item)) (todo : List Item)
      (hand : List (Item × Target))
  | ended
  | finished

structure World (Store Item Target Patch Place Mark : Type) where
  store : Store
  mark : Option Mark := none
  stage : Stage Item Target Place := .stopped
  lane : List (Item × Patch) := []
  reached : List Item := []
  due : List Item := []
  missed : List Item := []
  done : List Item := []

/-- `answer` is what the source holds for the item at that time; `through` says that it came through,
`readable` and `written` that the mark was read and written. -/
inductive Act (Store Answer : Type) where
  | start (readable : Bool)
  | look (reading : Reading) (answer : Answer)
  | fetch (i : Nat) (answer : Answer) (through : Bool)
  | proceed (written : Bool)
  | apply (nowMs : Int)
  | elsewhere (store : Store)
  | crash

variable {Store Item Target Answer Patch Place Mark : Type}

/-- The targets a pass has selected and not asked for. -/
def Stage.hand : Stage Item Target Place → List (Item × Target)
  | .running _ _ _ hand => hand
  | _ => []

section Steps

variable [DecidableEq Item]

/-- A set of items after an item was found in it or not. -/
def noted (found : Bool) (item : Item) (items : List Item) : List Item :=
  (if found then [item] else []) ++ items.filter (· ≠ item)

@[simp] theorem mem_noted {found : Bool} {item other : Item} {items : List Item} :
    other ∈ noted found item items ↔ other = item ∧ found = true ∨ other ≠ item ∧ other ∈ items := by
  by_cases same : other = item
  · cases found <;> simp [noted, same]
  · cases found <;> simp [noted, same]

variable (pass : Pass Store Item Target Answer Patch Place Mark)

/-- What a look keeps of an item. -/
def Pass.seen (store : Store) (item : Item) : Reading → Option Target
  | .clean => pass.look store item
  | .blurred => (pass.look store item).map pass.blur
  | .failed => none

/-- The item needs work and the source has an answer for it. -/
def Pass.owes (store : Store) (item : Item) (answer : Answer) : Bool :=
  ((pass.look store item).bind fun target => pass.reply item target answer).isSome

/-- The pass is at a place. -/
def Pass.arrive : Option Place → Stage Item Target Place
  | some place => .running place (pass.groups place) [] []
  | none => .ended

/-- A write that fails leaves the mark as it was. -/
def remark (written : Bool) (mark old : Option Mark) : Option Mark :=
  if written then mark.or old else old

def Pass.step (w : World Store Item Target Patch Place Mark) :
    Act Store Answer → World Store Item Target Patch Place Mark
  | .start readable =>
      match w.stage with
      | .stopped =>
          match pass.resume (if readable then w.mark else none) with
          | none => { w with stage := .finished }
          | some place => { w with stage := pass.arrive (some place) }
      | _ => w
  | .look reading answer =>
      match w.stage with
      | .running place groups (item :: todo) hand =>
          let owed := pass.owes w.store item answer
          let target := pass.seen w.store item reading
          { w with
            stage := .running place groups todo (hand ++ (target.map (item, ·)).toList)
            reached := item :: w.reached
            due := noted owed item w.due
            missed := noted (owed && target.isNone) item w.missed }
      | _ => w
  | .fetch i answer through =>
      match w.stage with
      | .running place groups [] hand =>
          match hand[i]? with
          | none => w
          | some (item, target) =>
              let patch := pass.reply item target answer
              { w with
                stage := .running place groups [] (hand.eraseIdx i)
                lane := w.lane ++ (if through then (patch.map (item, ·)).toList else [])
                due := noted patch.isSome item w.due
                missed := noted (patch.isSome && !through) item w.missed }
      | _ => w
  | .proceed written =>
      match w.stage with
      | .running place (group :: groups) [] [] => { w with stage := .running place groups group [] }
      | .running place [] [] [] =>
          { w with
            stage := pass.arrive (pass.next place)
            mark := remark written (pass.mark place) w.mark }
      | .ended => { w with stage := .finished, mark := remark written pass.sealed w.mark }
      | _ => w
  | .apply nowMs =>
      match w.lane with
      | [] => w
      | (item, patch) :: lane =>
          { w with
            store := pass.absorb w.store patch nowMs
            lane := lane
            done := item :: w.done }
  | .elsewhere store => { w with store := store }
  | .crash => { w with stage := .stopped, lane := [] }

/-! ## The condition -/

/-- The patches are applied, and nothing that was missed is still to be done. -/
def Quiet (w : World Store Item Target Patch Place Mark) : Prop :=
  w.lane = [] ∧ ∀ item ∈ w.missed, item ∈ w.done

/-- A crash loses no patch whose item the mark has left behind, and the end is reported in quiet. -/
def Pass.Sound (w : World Store Item Target Patch Place Mark) : Act Store Answer → Prop
  | .start readable =>
      w.stage = .stopped → pass.resume (if readable then w.mark else none) = none → Quiet w
  | .proceed _ => w.stage = .ended → Quiet w
  | .crash => ∀ item ∈ w.stage.hand.map Prod.fst ++ w.lane.map Prod.fst,
      item ∈ w.done ∨ pass.AheadOf w.mark item
  | _ => True

/-- A pass that is through came by every item of its range, and what was due is done. -/
def Pass.Repaired (w : World Store Item Target Patch Place Mark) : Prop :=
  w.stage = .finished → ∀ item, pass.Covers item →
    item ∈ w.reached ∧ (item ∈ w.due → item ∈ w.done)

/-! ## The invariant -/

variable {pass}

/-- What the pass still comes by, from where it is. -/
def Pass.Remaining (pass : Pass Store Item Target Answer Patch Place Mark)
    (w : World Store Item Target Patch Place Mark) (item : Item) : Prop :=
  match w.stage with
  | .stopped => pass.AheadOf w.mark item
  | .running place groups todo _ =>
      item ∈ todo ∨ item ∈ groups.flatten ∨
        ∃ later, pass.next place = some later ∧ pass.ahead later item
  | .ended => False
  | .finished => False

/-- A patch for the item is applied or on its way, or it was missed. -/
def Held (w : World Store Item Target Patch Place Mark) (item : Item) : Prop :=
  item ∈ w.done ∨ item ∈ w.missed ∨ item ∈ w.stage.hand.map Prod.fst ∨ item ∈ w.lane.map Prod.fst

def Accounted (w : World Store Item Target Patch Place Mark) (item : Item) : Prop :=
  item ∈ w.reached ∧ (item ∈ w.due → Held w item)

/-- The walk loses no item, neither from where the pass is nor from where it would resume. -/
structure Inv (pass : Pass Store Item Target Answer Patch Place Mark)
    (w : World Store Item Target Patch Place Mark) : Prop where
  front : ∀ item, pass.Covers item → pass.Remaining w item ∨ Accounted w item
  back : ∀ item, pass.Covers item → pass.AheadOf w.mark item ∨ Accounted w item
  quiet : w.stage = .finished → Quiet w

omit [DecidableEq Item] in
theorem Accounted.mono {w w' : World Store Item Target Patch Place Mark} {item : Item}
    (accounted : Accounted w item) (reached : item ∈ w.reached → item ∈ w'.reached)
    (due : item ∈ w'.due → item ∈ w.due) (held : Held w item → Held w' item) :
    Accounted w' item :=
  ⟨reached accounted.1, fun owed => held (accounted.2 (due owed))⟩

omit [DecidableEq Item] in
/-- What moves the store, the mark and the stage alone, with nothing in hand, keeps what is accounted
for. -/
theorem Accounted.frame {w : World Store Item Target Patch Place Mark} {item : Item}
    (accounted : Accounted w item) (hand : w.stage.hand = []) (store : Store) (mark : Option Mark)
    (stage : Stage Item Target Place) :
    Accounted { w with store := store, mark := mark, stage := stage } item :=
  accounted.mono id id fun held => by
    rcases held with done | missed | inHand | lane
    · exact .inl done
    · exact .inr (.inl missed)
    · rw [hand] at inHand
      exact absurd inHand List.not_mem_nil
    · exact .inr (.inr (.inr lane))

omit [DecidableEq Item] in
/-- The items of a place are in its groups, or a walk comes by them later. -/
theorem remaining_arrive {w : World Store Item Target Patch Place Mark} {place : Place} {item : Item}
    (here : w.stage = pass.arrive (some place)) (ahead : pass.ahead place item) :
    pass.Remaining w item := by
  unfold Pass.Remaining
  rw [here]
  exact .inr (pass.visits place item ahead)

/-! ## One step -/

theorem inv_start {w : World Store Item Target Patch Place Mark} (inv : Inv pass w) (readable : Bool)
    (sound : pass.Sound w (.start readable)) : Inv pass (pass.step w (.start readable)) := by
  cases stage : w.stage with
  | running place groups todo hand => simpa [Pass.step, stage] using inv
  | ended => simpa [Pass.step, stage] using inv
  | finished => simpa [Pass.step, stage] using inv
  | stopped =>
      have idle : w.stage.hand = [] := by rw [stage]; rfl
      have kept : ∀ item, Accounted w item → ∀ s, Accounted { w with stage := s } item :=
        fun item accounted s => accounted.frame idle w.store w.mark s
      have resumed : ∀ item, pass.Covers item →
          pass.AheadOf (if readable then w.mark else none) item ∨ Accounted w item := by
        intro item covered
        cases readable with
        | true => exact inv.back item covered
        | false => exact .inl covered
      simp only [Pass.step, stage]
      cases from_ : pass.resume (if readable then w.mark else none) with
      | none =>
          refine ⟨fun item covered => .inr ?_, fun item covered => (inv.back item covered).imp id
            (kept item · _), fun _ => sound stage from_⟩
          rcases resumed item covered with ⟨place, found, -⟩ | accounted
          · cases from_.symm.trans found
          · exact kept item accounted _
      | some place =>
          refine ⟨fun item covered => ?_, fun item covered => (inv.back item covered).imp id
            (kept item · _), fun through => by cases through⟩
          rcases resumed item covered with ⟨place', found, ahead⟩ | accounted
          · obtain rfl := Option.some.inj (from_.symm.trans found)
            exact .inl (remaining_arrive rfl ahead)
          · exact .inr (kept item accounted _)

theorem inv_look {w : World Store Item Target Patch Place Mark} (inv : Inv pass w)
    (reading : Reading) (answer : Answer) : Inv pass (pass.step w (.look reading answer)) := by
  cases stage : w.stage with
  | stopped => simpa [Pass.step, stage] using inv
  | ended => simpa [Pass.step, stage] using inv
  | finished => simpa [Pass.step, stage] using inv
  | running place groups todo hand =>
      cases todo with
      | nil => simpa [Pass.step, stage] using inv
      | cons item todo =>
          simp only [Pass.step, stage]
          generalize next : World.mk w.store w.mark _ w.lane _ _ _ w.done = w'
          have now : Accounted w' item := by
            refine ⟨by rw [← next]; exact List.mem_cons_self, fun owed => ?_⟩
            rw [← next] at owed ⊢
            have owed : pass.owes w.store item answer = true := by simpa using owed
            cases seen : pass.seen w.store item reading with
            | some target => exact .inr (.inr (.inl (by simp [Stage.hand])))
            | none => exact .inr (.inl (by simp [owed]))
          have others : ∀ other, Accounted w other → Accounted w' other := by
            intro other accounted
            by_cases same : other = item
            · rw [same]
              exact now
            · refine accounted.mono (fun reached => ?_) (fun owed => ?_) fun held => ?_
              · rw [← next]
                exact List.mem_cons_of_mem _ reached
              · rw [← next] at owed
                simpa [same] using owed
              · rw [← next]
                rcases held with done | missed | inHand | lane
                · exact .inl done
                · exact .inr (.inl (by simp [same, missed]))
                · refine .inr (.inr (.inl ?_))
                  rw [stage] at inHand
                  change other ∈ (hand ++ _).map Prod.fst
                  rw [List.map_append]
                  exact List.mem_append_left _ inHand
                · exact .inr (.inr (.inr lane))
          refine ⟨fun other covered => ?_, fun other covered => ?_, fun through => ?_⟩
          · rcases inv.front other covered with remains | accounted
            · unfold Pass.Remaining at remains
              rw [stage] at remains
              rcases remains with listed | later
              · rcases List.mem_cons.mp listed with rfl | listed
                · exact .inr now
                · refine .inl ?_
                  rw [← next]
                  exact .inl listed
              · refine .inl ?_
                rw [← next]
                exact .inr later
            · exact .inr (others other accounted)
          · rw [← next]
            rw [← next] at others
            exact (inv.back other covered).imp id (others other)
          · rw [← next] at through
            cases through

theorem inv_fetch {w : World Store Item Target Patch Place Mark} (inv : Inv pass w) (i : Nat)
    (answer : Answer) (through : Bool) : Inv pass (pass.step w (.fetch i answer through)) := by
  cases stage : w.stage with
  | stopped => simpa [Pass.step, stage] using inv
  | ended => simpa [Pass.step, stage] using inv
  | finished => simpa [Pass.step, stage] using inv
  | running place groups todo hand =>
      cases todo with
      | cons item todo => simpa [Pass.step, stage] using inv
      | nil =>
          cases picked : hand[i]? with
          | none => simpa [Pass.step, stage, picked] using inv
          | some entry =>
              obtain ⟨item, target⟩ := entry
              simp only [Pass.step, stage, picked]
              generalize next : World.mk w.store w.mark _ _ w.reached _ _ w.done = w'
              have others : ∀ other, Accounted w other → Accounted w' other := by
                intro other accounted
                by_cases same : other = item
                · refine ⟨by rw [← next]; exact accounted.1, fun owed => ?_⟩
                  rw [← next] at owed ⊢
                  subst same
                  have answered : (pass.reply other target answer).isSome = true := by
                    simpa using owed
                  obtain ⟨patch, replied⟩ := Option.isSome_iff_exists.mp answered
                  cases through with
                  | true => exact .inr (.inr (.inr (by simp [replied])))
                  | false => exact .inr (.inl (by simp [replied]))
                · refine accounted.mono (fun reached => ?_) (fun owed => ?_) fun held => ?_
                  · rw [← next]
                    exact reached
                  · rw [← next] at owed
                    simpa [same] using owed
                  · rw [← next]
                    rcases held with done | missed | inHand | lane
                    · exact .inl done
                    · exact .inr (.inl (by simp [same, missed]))
                    · refine .inr (.inr (.inl ?_))
                      rw [stage] at inHand
                      obtain ⟨entry, member, about⟩ := List.mem_map.mp inHand
                      obtain ⟨j, found⟩ := List.mem_iff_getElem?.mp member
                      refine List.mem_map.mpr ⟨entry, ?_, about⟩
                      refine List.mem_eraseIdx_iff_getElem?.mpr ⟨j, ?_, found⟩
                      rintro rfl
                      rw [← Option.some.inj (picked.symm.trans found)] at about
                      exact same about.symm
                    · refine .inr (.inr (.inr ?_))
                      rw [List.map_append]
                      exact List.mem_append_left _ lane
              refine ⟨fun other covered => ?_, fun other covered => ?_, fun through => ?_⟩
              · refine (inv.front other covered).imp (fun remains => ?_) (others other)
                unfold Pass.Remaining at remains
                rw [stage] at remains
                rw [← next]
                exact remains
              · rw [← next]
                rw [← next] at others
                exact (inv.back other covered).imp id (others other)
              · rw [← next] at through
                cases through

/-- Past the last group of a place: the mark comes behind what was looked at. -/
theorem inv_leave {w : World Store Item Target Patch Place Mark} (inv : Inv pass w) {place : Place}
    (stage : w.stage = .running place [] [] []) (written : Bool) :
    Inv pass (pass.step w (.proceed written)) := by
  have idle : w.stage.hand = [] := by rw [stage]; rfl
  have past : ∀ item, pass.Covers item →
      (∃ later, pass.next place = some later ∧ pass.ahead later item) ∨ Accounted w item := by
    intro item covered
    refine (inv.front item covered).imp_left fun remains => ?_
    unfold Pass.Remaining at remains
    rw [stage] at remains
    rcases remains with none | none | later
    · exact absurd none List.not_mem_nil
    · exact absurd none List.not_mem_nil
    · exact later
  simp only [Pass.step, stage]
  refine ⟨fun item covered => ?_, fun item covered => ?_, fun through => ?_⟩
  · rcases past item covered with ⟨later, next, ahead⟩ | accounted
    · exact .inl (remaining_arrive (congrArg pass.arrive next) ahead)
    · exact .inr (accounted.frame idle w.store _ _)
  · have marked : pass.AheadOf (remark written (pass.mark place) w.mark) item ∨ Accounted w item := by
      unfold remark
      cases written with
      | false => exact inv.back item covered
      | true =>
          cases mark : pass.mark place with
          | none => exact inv.back item covered
          | some mark' =>
              refine (past item covered).imp_left fun coming => ?_
              obtain ⟨later, next, ahead⟩ := coming
              exact pass.resumes place later mark' item next mark ahead
    exact marked.imp_right (·.frame idle w.store _ _)
  · cases next : pass.next place with
    | none =>
        rw [next] at through
        cases through
    | some later =>
        rw [next] at through
        cases through

theorem inv_proceed {w : World Store Item Target Patch Place Mark} (inv : Inv pass w) (written : Bool)
    (sound : pass.Sound w (.proceed written)) : Inv pass (pass.step w (.proceed written)) := by
  cases stage : w.stage with
  | stopped => simpa [Pass.step, stage] using inv
  | finished => simpa [Pass.step, stage] using inv
  | ended =>
      have idle : w.stage.hand = [] := by rw [stage]; rfl
      have all : ∀ item, pass.Covers item → Accounted w item := by
        intro item covered
        refine (inv.front item covered).resolve_left ?_
        unfold Pass.Remaining
        rw [stage]
        exact id
      simp only [Pass.step, stage]
      exact ⟨fun item covered => .inr ((all item covered).frame idle w.store _ .finished),
        fun item covered => .inr ((all item covered).frame idle w.store _ .finished),
        fun _ => sound stage⟩
  | running place groups todo hand =>
      cases todo with
      | cons item todo => simpa [Pass.step, stage] using inv
      | nil =>
          cases hand with
          | cons entry hand => cases groups <;> simpa [Pass.step, stage] using inv
          | nil =>
              have idle : w.stage.hand = [] := by rw [stage]; rfl
              cases groups with
              | cons group groups =>
                  simp only [Pass.step, stage]
                  refine ⟨fun item covered => ?_, fun item covered => ?_, fun through => by cases through⟩
                  · rcases inv.front item covered with remains | accounted
                    · unfold Pass.Remaining at remains
                      rw [stage] at remains
                      rcases remains with none | listed | later
                      · exact absurd none List.not_mem_nil
                      · rw [List.flatten_cons, List.mem_append] at listed
                        rcases listed with now | listed
                        · exact .inl (.inl now)
                        · exact .inl (.inr (.inl listed))
                      · exact .inl (.inr (.inr later))
                    · exact .inr (accounted.frame idle w.store w.mark _)
                  · exact (inv.back item covered).imp id (·.frame idle w.store w.mark _)
              | nil => exact inv_leave inv stage written

theorem inv_apply {w : World Store Item Target Patch Place Mark} (inv : Inv pass w) (nowMs : Int) :
    Inv pass (pass.step w (.apply nowMs)) := by
  cases queued : w.lane with
  | nil => simpa [Pass.step, queued] using inv
  | cons entry lane =>
      obtain ⟨item, patch⟩ := entry
      simp only [Pass.step, queued]
      generalize next : World.mk _ w.mark w.stage lane w.reached w.due w.missed _ = w'
      have kept : ∀ other, Accounted w other → Accounted w' other := by
        intro other accounted
        rw [← next]
        refine accounted.mono id id fun held => ?_
        rcases held with done | missed | inHand | onLane
        · exact .inl (List.mem_cons_of_mem _ done)
        · exact .inr (.inl missed)
        · exact .inr (.inr (.inl inHand))
        · rw [queued, List.map_cons] at onLane
          rcases List.mem_cons.mp onLane with rfl | later
          · exact .inl List.mem_cons_self
          · exact .inr (.inr (.inr later))
      refine ⟨fun other covered => ?_, fun other covered => ?_, fun through => ?_⟩
      · refine (inv.front other covered).imp (fun remains => ?_) (kept other)
        rw [← next]
        exact remains
      · rw [← next]
        rw [← next] at kept
        exact (inv.back other covered).imp_right (kept other)
      · rw [← next] at through
        cases queued.symm.trans (inv.quiet through).1

/-- What is lost in a crash, the walk comes by again. -/
theorem inv_crash {w : World Store Item Target Patch Place Mark} (inv : Inv pass w)
    (sound : pass.Sound w .crash) : Inv pass (pass.step w .crash) := by
  have survives : ∀ item, Accounted w item →
      pass.AheadOf w.mark item ∨ Accounted (pass.step w .crash) item := by
    intro item accounted
    by_cases owed : item ∈ w.due
    · have held : item ∈ w.done ∨ item ∈ w.missed ∨ pass.AheadOf w.mark item := by
        rcases accounted.2 owed with done | missed | inHand | lane
        · exact .inl done
        · exact .inr (.inl missed)
        · exact (sound item (List.mem_append_left _ inHand)).imp_right .inr
        · exact (sound item (List.mem_append_right _ lane)).imp_right .inr
      rcases held with done | missed | ahead
      · exact .inr ⟨accounted.1, fun _ => .inl done⟩
      · exact .inr ⟨accounted.1, fun _ => .inr (.inl missed)⟩
      · exact .inl ahead
    · exact .inr ⟨accounted.1, fun owed' => absurd owed' owed⟩
  have resumes : ∀ item, pass.Covers item →
      pass.AheadOf w.mark item ∨ Accounted (pass.step w .crash) item :=
    fun item covered => (inv.back item covered).elim .inl (survives item)
  exact ⟨resumes, resumes, fun through => by cases through⟩

theorem inv_step {w : World Store Item Target Patch Place Mark} (inv : Inv pass w)
    (act : Act Store Answer) (sound : pass.Sound w act) : Inv pass (pass.step w act) := by
  cases act with
  | start readable => exact inv_start inv readable sound
  | look reading answer => exact inv_look inv reading answer
  | fetch i answer through => exact inv_fetch inv i answer through
  | proceed written => exact inv_proceed inv written sound
  | apply nowMs => exact inv_apply inv nowMs
  | elsewhere store => exact ⟨inv.front, inv.back, inv.quiet⟩
  | crash => exact inv_crash inv sound

/-! ## Runs -/

omit [DecidableEq Item] in
/-- Before the first start. -/
theorem inv_init (store : Store) : Inv pass ({ store := store } : World Store Item Target Patch Place Mark) :=
  ⟨fun _ covered => .inl covered, fun _ covered => .inl covered, fun through => by cases through⟩

omit [DecidableEq Item] in
theorem repaired_of_inv {w : World Store Item Target Patch Place Mark} (inv : Inv pass w) :
    pass.Repaired w := by
  intro through item covered
  obtain ⟨empty, undone⟩ := inv.quiet through
  have accounted : Accounted w item := by
    refine (inv.front item covered).resolve_left ?_
    unfold Pass.Remaining
    rw [through]
    exact id
  refine ⟨accounted.1, fun owed => ?_⟩
  rcases accounted.2 owed with done | missed | inHand | lane
  · exact done
  · exact undone item missed
  · rw [through] at inHand
    exact absurd inHand List.not_mem_nil
  · rw [empty] at lane
    exact absurd lane List.not_mem_nil

/-- **A pass whose steps are all sound has repaired its range whenever it is through.** -/
theorem repaired_of_along {store : Store} {acts : List (Act Store Answer)}
    (sound : Along pass.step pass.Sound { store := store } acts)
    {w : World Store Item Target Patch Place Mark}
    (visited : Visits pass.step { store := store } acts w) : pass.Repaired w :=
  repaired_of_inv (sound.visits (P := Inv pass) (fun _ act inv good => inv_step inv act good)
    (inv_init store) visited)

end Steps

end MassaIndexer.Theory.Checkpoint
