/-
# Laws.ImportExactness -- the one-shot import ships what the archive answered

A pass loses no slot and takes none twice: the slots taken, in flight and waiting are those of the range
(`PassInv.slots`), whatever order the lookups finish in. The attempts of a lookup are failures up to one
answer (`Lookup.Sane`), so an outcome says which answer it was (`outcome_cases`): only a clean `Ok(None)`
becomes a miss, and that only while the row has no block of its own. `import_exact` puts this together for
every run of the importer.
-/
import MassaIndexer.Repair.Importer
import Mathlib.Data.List.Perm.Basic

namespace MassaIndexer.Laws.ImportExactness

open MassaIndexer.Data.Ids MassaIndexer.Data.Model MassaIndexer.Data.Proto
open MassaIndexer.Store.ColumnFamilies MassaIndexer.Peer.Backfill
open MassaIndexer.Repair.Producers MassaIndexer.Repair.Checkpoints MassaIndexer.Repair.Importer

set_option autoImplicit false

/-! ## What a lookup came to -/

/-- The row was read and is good enough. -/
def Covered (l : Lookup) : Prop := ∃ row, l.row = some row ∧ row.any slotAlreadyCovered = true

/-- The row was read and the archive is asked. -/
def Asked (l : Lookup) : Prop := ∃ row, l.row = some row ∧ row.any slotAlreadyCovered = false

/-- The archive answered, after failures that leave an attempt. -/
def Answered (l : Lookup) (a : Option FinalSlotResponse) : Prop :=
  Asked l ∧ ∃ failed : List String, failed.length < fetchAttempts ∧
    l.answers = failed.map Except.error ++ [.ok a]

/-- Every attempt failed. -/
def Failed (l : Lookup) : Prop :=
  Asked l ∧ ∃ failed : List String, failed.length = fetchAttempts ∧ l.answers = failed.map Except.error

/-- Attempts are left, and none was answered. -/
def Trying (l : Lookup) : Prop :=
  Asked l ∧ ∃ failed : List String, failed.length < fetchAttempts ∧ l.answers = failed.map Except.error

/-- The states a lookup goes through. -/
inductive Sane (l : Lookup) : Prop where
  | unread (row : l.row = none) (answers : l.answers = [])
  | covered (covered : Covered l) (answers : l.answers = [])
  | trying (trying : Trying l)
  | answered (a : Option FinalSlotResponse) (answered : Answered l a)
  | failed (failed : Failed l)

theorem read_asked {l : Lookup} (asked : Asked l) : l.row ≠ none := by
  obtain ⟨row, read, -⟩ := asked
  simp [read]

theorem fetchSlotResilient_failed (failed : List String) (left : Nat) (lastErr : String)
    (rest : List Answer) :
    fetchSlotResilient (failed.length + left) lastErr (failed.map Except.error ++ rest) =
      fetchSlotResilient left (failed.getLastD lastErr) rest := by
  induction failed generalizing lastErr with
  | nil => rw [List.length_nil, Nat.zero_add]; rfl
  | cons e failed ih =>
      rw [List.length_cons, Nat.add_right_comm, List.map_cons, List.cons_append, fetchSlotResilient, ih,
        List.getLastD_cons]

theorem outcome_asked {l : Lookup} (asked : Asked l) :
    l.outcome = fetchSlotResilient fetchAttempts "" l.answers := by
  obtain ⟨row, read, open_⟩ := asked
  rw [Lookup.outcome, read]
  simp [open_]

theorem outcome_covered {l : Lookup} (covered : Covered l) : l.outcome = some .skipped := by
  obtain ⟨row, read, closed⟩ := covered
  rw [Lookup.outcome, read]
  simp [closed]

theorem outcome_trying {l : Lookup} (trying : Trying l) : l.outcome = none := by
  obtain ⟨asked, failed, few, answers⟩ := trying
  obtain ⟨left, total⟩ := Nat.exists_eq_add_of_lt few
  rw [outcome_asked asked, answers, total, Nat.add_assoc, ← List.append_nil (failed.map _),
    fetchSlotResilient_failed]
  rfl

theorem outcome_failed {l : Lookup} (failed : Failed l) : ∃ message, l.outcome = some (.error message) := by
  obtain ⟨asked, failed, all, answers⟩ := failed
  refine ⟨failed.getLastD "", ?_⟩
  rw [outcome_asked asked, answers, ← all, ← List.append_nil (failed.map _)]
  exact fetchSlotResilient_failed failed 0 "" []

theorem outcome_answered {l : Lookup} {a : Option FinalSlotResponse} (answered : Answered l a) :
    l.outcome = some (a.elim .empty .filled) := by
  obtain ⟨asked, failed, few, answers⟩ := answered
  obtain ⟨left, total⟩ := Nat.exists_eq_add_of_lt few
  rw [outcome_asked asked, answers, total, Nat.add_assoc, fetchSlotResilient_failed]
  cases a <;> rfl

/-- Reading the row. -/
theorem sane_check {l : Lookup} (sane : Sane l) (db : Db) : Sane (l.check db) := by
  unfold Lookup.check
  split
  · next unread =>
      have row := Option.isNone_iff_eq_none.mp unread
      have answers : l.answers = [] := by
        cases sane with
        | unread _ answers => exact answers
        | covered _ answers => exact answers
        | trying trying => exact absurd row (read_asked trying.1)
        | answered a answered => exact absurd row (read_asked answered.1)
        | failed failed => exact absurd row (read_asked failed.1)
      cases read : (db.readSlot l.slot).any slotAlreadyCovered with
      | true => exact .covered ⟨_, rfl, read⟩ answers
      | false => exact .trying ⟨⟨_, rfl, read⟩, [], by decide, answers⟩
  · exact sane

/-- An answer to a lookup that is not done. -/
theorem sane_answer {l : Lookup} (sane : Sane l) (going : l.outcome = none) (a : Answer) :
    Sane (l.answer a) := by
  unfold Lookup.answer
  split
  · next read =>
      cases sane with
      | unread row _ => simp [row] at read
      | covered covered _ => simp [outcome_covered covered] at going
      | answered a answered => simp [outcome_answered answered] at going
      | failed failed =>
          obtain ⟨message, done⟩ := outcome_failed failed
          simp [done] at going
      | trying trying =>
          obtain ⟨asked, failed, few, answers⟩ := trying
          cases a with
          | ok a => exact .answered a ⟨asked, failed, few, by rw [answers]⟩
          | error e =>
              have answers' : l.answers ++ [.error e] = (failed ++ [e]).map Except.error := by
                rw [answers, List.map_append]
                rfl
              have size : (failed ++ [e]).length = failed.length + 1 := by simp
              rcases Nat.lt_or_ge (failed.length + 1) fetchAttempts with less | all
              · exact .trying ⟨asked, failed ++ [e], by omega, answers'⟩
              · exact .failed ⟨asked, failed ++ [e], by omega, answers'⟩
  · exact sane

/-! ## What was taken -/

/-- One outcome for each way a lookup ends, and what is shipped for it. -/
inductive Settled (h : Handled) : Prop where
  | covered (covered : Covered h.lookup) (sent : h.sent = none)
  | filled (resp : FinalSlotResponse) (answered : Answered h.lookup (some resp))
      (sent : h.sent = some resp)
  | kept (answered : Answered h.lookup none) (keeps : h.row.any keepsBlock = true) (sent : h.sent = none)
  | missed (answered : Answered h.lookup none) (free : h.row.any keepsBlock = false)
      (sent : h.sent = some (missPatch h.lookup.slot))
  | failed (failed : Failed h.lookup) (sent : h.sent = none)

theorem settled_of_outcome {h : Handled} (sane : Sane h.lookup)
    (done : h.lookup.outcome = some h.kind) : Settled h := by
  cases sane with
  | unread row _ => simp [Lookup.outcome, row] at done
  | trying trying => simp [outcome_trying trying] at done
  | covered covered _ =>
      rw [outcome_covered covered] at done
      exact .covered covered (by rw [Handled.sent, ← Option.some.inj done])
  | failed failed =>
      obtain ⟨message, errs⟩ := outcome_failed failed
      rw [errs] at done
      exact .failed failed (by rw [Handled.sent, ← Option.some.inj done])
  | answered a answered =>
      rw [outcome_answered answered] at done
      cases a with
      | some resp =>
          exact .filled resp answered (by rw [Handled.sent, ← Option.some.inj done]; rfl)
      | none =>
          have sent : h.sent = if h.row.any keepsBlock then none else some (missPatch h.lookup.slot) := by
            rw [Handled.sent, ← Option.some.inj done]
            rfl
          cases keeps : h.row.any keepsBlock with
          | true => exact .kept answered keeps (by rw [sent, keeps]; rfl)
          | false => exact .missed answered keeps (by rw [sent, keeps]; rfl)

/-- Only a lookup whose attempts all failed counts as an error. -/
theorem isError_iff {h : Handled} (sane : Sane h.lookup) (done : h.lookup.outcome = some h.kind) :
    h.kind.isError = true ↔ Failed h.lookup := by
  constructor
  · intro errs
    cases sane with
    | unread row _ => simp [Lookup.outcome, row] at done
    | trying trying => simp [outcome_trying trying] at done
    | covered covered _ =>
        rw [outcome_covered covered] at done
        rw [← Option.some.inj done] at errs
        cases errs
    | answered a answered =>
        rw [outcome_answered answered] at done
        rw [← Option.some.inj done] at errs
        cases a <;> cases errs
    | failed failed => exact failed
  · intro failed
    obtain ⟨message, errs⟩ := outcome_failed failed
    rw [errs] at done
    rw [← Option.some.inj done]
    rfl

/-! ## Passes -/

/-- What holds of a pass at any moment. -/
structure PassInv (cfg : OneShotConfig) (head : UInt64) (pass : Pass) : Prop where
  slots : (pass.handled.map (·.lookup.slot) ++ (pass.inFlight.map (·.slot) ++ pass.waiting)).Perm
    (slotSeq cfg head)
  going : ∀ l ∈ pass.inFlight, Sane l
  taken : ∀ h ∈ pass.handled, Sane h.lookup ∧ h.lookup.outcome = some h.kind
  errors : pass.errored = pass.handled.countP (·.kind.isError)

variable {cfg : OneShotConfig} {head : UInt64} {pass : Pass}

theorem PassInv.start (cfg : OneShotConfig) (head : UInt64) : PassInv cfg head (.start cfg head) where
  slots := .refl _
  going l member := by cases member
  taken h member := by cases member
  errors := rfl

theorem PassInv.pull (inv : PassInv cfg head pass) : PassInv cfg head (pass.pull cfg) := by
  unfold Pass.pull
  cases waiting : pass.waiting with
  | nil => exact inv
  | cons slot rest =>
      dsimp only
      split
      · refine { inv with slots := ?_, going := ?_ }
        · have same := inv.slots
          rw [waiting] at same
          simpa [List.append_assoc] using same
        · intro l member
          rcases List.mem_append.mp member with old | new
          · exact inv.going l old
          · obtain rfl := List.mem_singleton.mp new
            exact .unread rfl rfl
      · exact inv

/-- A lookup that goes on keeps its slot. -/
theorem PassInv.advance (inv : PassInv cfg head pass) (i : Nat) {go : Lookup → Lookup}
    (slot : ∀ l, (go l).slot = l.slot)
    (sane : ∀ l, Sane l → l.outcome = none → Sane (go l)) : PassInv cfg head (pass.advance i go) := by
  unfold Pass.advance
  cases here : pass.inFlight[i]? with
  | none => exact inv
  | some l =>
      dsimp only
      split
      · exact inv
      · next going =>
          have going : l.outcome = none := by simpa using going
          have member : l ∈ pass.inFlight := List.mem_of_getElem? here
          refine { inv with slots := ?_, going := ?_ }
          · have same : (pass.inFlight.set i (go l)).map (·.slot) = pass.inFlight.map (·.slot) := by
              obtain ⟨inside, rfl⟩ := List.getElem?_eq_some_iff.mp here
              have inside' : i < (pass.inFlight.map (·.slot)).length := by rwa [List.length_map]
              have whole := List.set_getElem_self inside'
              rw [List.getElem_map] at whole
              rw [List.map_set, slot]
              exact whole
            rw [same]
            exact inv.slots
          · intro l' member'
            rcases List.mem_or_eq_of_mem_set member' with old | rfl
            · exact inv.going l' old
            · exact sane l (inv.going l member) going

theorem PassInv.take (inv : PassInv cfg head pass) {i : Nat} {l : Lookup} {kind : FetchKind}
    (here : pass.inFlight[i]? = some l) (done : l.outcome = some kind) (row : Option SlotState) :
    PassInv cfg head (pass.took i ⟨l, kind, row⟩) where
  slots := by
    obtain ⟨inside, rfl⟩ := List.getElem?_eq_some_iff.mp here
    have out := (List.getElem_cons_eraseIdx_perm inside).map (·.slot)
    refine .trans ?_ inv.slots
    rw [Pass.took, List.map_append, List.append_assoc]
    exact ((out.append_right pass.waiting).append_left (pass.handled.map (·.lookup.slot)))
  going l' member := inv.going l' (List.mem_of_mem_eraseIdx member)
  taken h member := by
    rcases List.mem_append.mp member with old | new
    · exact inv.taken h old
    · obtain rfl := List.mem_singleton.mp new
      exact ⟨inv.going l (List.mem_of_getElem? here), done⟩
  errors := by
    rw [Pass.took, List.countP_append, ← inv.errors, List.countP_singleton]

theorem slot_check (db : Db) (l : Lookup) : (l.check db).slot = l.slot := by
  unfold Lookup.check
  split <;> rfl

theorem slot_answer (a : Answer) (l : Lookup) : (l.answer a).slot = l.slot := by
  unfold Lookup.answer
  split <;> rfl

/-! ## Runs -/

/-- The pass a stage is about. -/
def passOf : Stage → Option (UInt64 × Pass)
  | .waitingForHead => none
  | .sweeping head pass => some (head, pass)
  | .pausing head pass => some (head, pass)
  | .complete head pass => some (head, pass)
  | .stopped => none

/-- The last pass took every slot of its range. -/
def sweptOf : Stage → Bool
  | .pausing _ _ => true
  | .complete _ _ => true
  | _ => false

structure Inv (cfg : OneShotConfig) (w : World) : Prop where
  pass : ∀ head pass, passOf w.stage = some (head, pass) → PassInv cfg head pass ∧
    ∃ before, w.lane = before ++ pass.handled.filterMap Handled.sent
  broken : ∀ head pass, w.stage = .sweeping head pass → pass.broken = true → w.closed = true
  swept : sweptOf w.stage = true → ∀ head pass, passOf w.stage = some (head, pass) →
    pass.drained = true
  complete : ∀ head pass, w.stage = .complete head pass → pass.errored = 0

/-- Before the first pass and after a shutdown nothing is asked. -/
theorem Inv.idle {w : World} (off : passOf w.stage = none) : Inv cfg w where
  pass head pass at_ := by
    rw [off] at at_
    cases at_
  broken head pass at_ := by
    rw [at_] at off
    cases off
  swept _ head pass at_ := by
    rw [off] at at_
    cases at_
  complete head pass at_ := by
    rw [at_] at off
    cases off

/-- In the middle of a pass. -/
theorem Inv.midway {w : World} (stage : w.stage = .sweeping head pass) (sound : PassInv cfg head pass)
    (lane : ∃ before, w.lane = before ++ pass.handled.filterMap Handled.sent)
    (broken : pass.broken = true → w.closed = true) : Inv cfg w where
  pass head' pass' at_ := by
    rw [stage] at at_
    obtain ⟨rfl, rfl⟩ := Prod.mk.injEq .. ▸ Option.some.inj at_
    exact ⟨sound, lane⟩
  broken head' pass' at_ cut := by
    rw [stage] at at_
    obtain ⟨rfl, rfl⟩ := Stage.sweeping.inj at_
    exact broken cut
  swept at_ := by
    rw [stage] at at_
    cases at_
  complete head' pass' at_ := by
    rw [stage] at at_
    cases at_

theorem Inv.sweep {w : World} (head : UInt64) : Inv cfg (w.sweep cfg head) := by
  cases closed : w.closed with
  | true => exact .idle (by rw [World.sweep, closed]; rfl)
  | false =>
      have stage : (w.sweep cfg head).stage = .sweeping head (.start cfg head) := by
        rw [World.sweep, closed]
        rfl
      exact .midway stage (.start cfg head) ⟨w.lane, (List.append_nil _).symm⟩ (fun cut => by cases cut)

/-- A pass over, the channel open. -/
theorem Inv.ended {w : World} {stage : Stage} (sound : PassInv cfg head pass)
    (lane : ∃ before, w.lane = before ++ pass.handled.filterMap Handled.sent)
    (drained : pass.drained = true)
    (over_ : stage = .pausing head pass ∨ stage = .complete head pass ∧ pass.errored = 0) :
    Inv cfg { w with stage } := by
  have at_ : passOf stage = some (head, pass) := by
    rcases over_ with rfl | ⟨rfl, -⟩ <;> rfl
  constructor
  · intro head' pass' at'
    obtain ⟨rfl, rfl⟩ := Prod.mk.injEq .. ▸ Option.some.inj (at_.symm.trans at')
    exact ⟨sound, lane⟩
  · rintro head' pass' rfl
    rcases over_ with off | ⟨off, -⟩ <;> cases off
  · intro _ head' pass' at'
    obtain ⟨rfl, rfl⟩ := Prod.mk.injEq .. ▸ Option.some.inj (at_.symm.trans at')
    exact drained
  · rintro head' pass' rfl
    rcases over_ with off | ⟨off, clean⟩
    · cases off
    · obtain ⟨rfl, rfl⟩ := Stage.complete.inj off
      exact clean

/-- The consumer takes a lookup. -/
theorem Inv.consume {w : World} (inv : Inv cfg w) (sweeping : w.stage = .sweeping head pass)
    (unbroken : pass.broken = false) (i : Nat) (accepted : Bool) :
    Inv cfg (w.consume head pass i accepted) := by
  obtain ⟨sound, before, lane⟩ := inv.pass head pass (by rw [sweeping]; rfl)
  have cut : PassInv cfg head { pass with broken := true } := ⟨sound.1, sound.2, sound.3, sound.4⟩
  unfold World.consume
  cases here : pass.inFlight[i]? with
  | none => exact inv
  | some l =>
      cases done : l.outcome with
      | none =>
          simp only [done]
          exact inv
      | some kind =>
          simp only [done]
          split
          · next closed => exact .midway rfl cut ⟨before, lane⟩ fun _ => closed
          · split
            · exact .midway rfl cut ⟨before, lane⟩ fun _ => rfl
            · refine .midway rfl (sound.take here done _) ⟨before, ?_⟩ fun broken => ?_
              · rw [Pass.took, lane, List.filterMap_append, List.append_assoc]
                congr 2
              · exact absurd (unbroken.symm.trans broken) (by simp)

/-- One step, whatever it is. -/
theorem Inv.next {w : World} (inv : Inv cfg w) (act : Act) : Inv cfg (w.next cfg act) := by
  have midway : ∀ go : UInt64 → Pass → World, (∀ head pass, w.stage = .sweeping head pass →
      pass.broken = false → Inv cfg (go head pass)) → Inv cfg (w.inPass go) := by
    intro go each
    unfold World.inPass
    split
    · next head pass sweeping =>
        split
        · exact inv
        · next unbroken => exact each head pass sweeping (by simpa using unbroken)
    · exact inv
  have moved : ∀ move : Pass → Pass, (∀ head pass, PassInv cfg head pass → PassInv cfg head (move pass)) →
      (∀ pass, (move pass).handled = pass.handled ∧ (move pass).broken = pass.broken) →
      Inv cfg (w.inPass fun head pass => { w with stage := .sweeping head (move pass) }) := by
    intro move keeps same
    refine midway _ fun head pass sweeping unbroken => ?_
    obtain ⟨sound, lane⟩ := inv.pass head pass (by rw [sweeping]; rfl)
    refine .midway rfl (keeps head pass sound) ?_ fun cut => ?_
    · rw [(same pass).1]
      exact lane
    · rw [(same pass).2, unbroken] at cut
      cases cut
  have advanced : ∀ (i : Nat) (go : Lookup → Lookup) (pass : Pass),
      (pass.advance i go).handled = pass.handled ∧ (pass.advance i go).broken = pass.broken := by
    intro i go pass
    unfold Pass.advance
    split
    · exact ⟨rfl, rfl⟩
    · split <;> exact ⟨rfl, rfl⟩
  cases act with
  | begin_ =>
      rw [World.next]
      split
      · split
        · exact .idle rfl
        · split
          · exact inv
          · exact .sweep _
      · exact inv
  | pull =>
      refine moved _ (fun head pass sound => sound.pull) fun pass => ?_
      unfold Pass.pull
      split
      · exact ⟨rfl, rfl⟩
      · split <;> exact ⟨rfl, rfl⟩
  | check i =>
      exact moved _ (fun head pass sound => sound.advance i (slot_check w.db)
        fun l sane _ => sane_check sane w.db) (advanced i _)
  | answer i a =>
      exact moved _ (fun head pass sound => sound.advance i (slot_answer a)
        fun l sane going => sane_answer sane going a) (advanced i _)
  | take i accepted =>
      exact midway _ fun head pass sweeping unbroken => inv.consume sweeping unbroken i accepted
  | endPass =>
      rw [World.next]
      split
      · next head pass sweeping =>
          split
          · next over_ =>
              split
              · exact .idle rfl
              · next open_ =>
                  obtain ⟨sound, lane⟩ := inv.pass head pass (by rw [sweeping]; rfl)
                  have drained : pass.drained = true := by
                    refine (Bool.or_eq_true_iff.mp over_).resolve_left fun cut => ?_
                    exact open_ (inv.broken head pass sweeping cut)
                  split
                  · next clean => exact .ended sound lane drained (.inr ⟨rfl, clean⟩)
                  · exact .ended sound lane drained (.inl rfl)
          · exact inv
      · exact inv
  | resume =>
      rw [World.next]
      split
      · exact .sweep _
      · exact inv
  | write db => exact ⟨inv.pass, inv.broken, inv.swept, inv.complete⟩
  | close =>
      exact ⟨inv.pass, fun _ _ _ _ => rfl, inv.swept, inv.complete⟩

theorem Inv.run (cfg : OneShotConfig) (db : Db) (acts : List Act) :
    Inv cfg (World.run cfg { db } acts) := by
  have steps : ∀ (acts : List Act) (w : World), Inv cfg w → Inv cfg (w.run cfg acts) := by
    intro acts
    induction acts with
    | nil => exact fun w inv => inv
    | cons act rest ih => exact fun w inv => ih (w.next cfg act) (inv.next act)
  exact steps acts _ (.idle rfl)

/-! ## The range -/

theorem slotSeq_eq (cfg : OneShotConfig) (head : UInt64) : slotSeq cfg head =
    slotsOf { threadCount := cfg.threadCount } (cfg.minPeriod.getD 0).toNat head.toNat := rfl

theorem nodup_slotSeq (cfg : OneShotConfig) (head : UInt64) : (slotSeq cfg head).Nodup := by
  rw [slotSeq_eq]
  exact nodup_slotsOf _ head.toNat_lt

theorem mem_slotSeq {s : Slot} : s ∈ slotSeq cfg head ↔
    cfg.minPeriod.getD 0 ≤ s.period ∧ s.period ≤ head ∧ s.thread < cfg.threadCount := by
  rw [slotSeq_eq, mem_slotsOf head.toNat_lt, UInt64.le_iff_toNat_le, UInt64.le_iff_toNat_le]

/-! ## Going on -/

/-- What a lookup still needs, at most. -/
def lookupWork (l : Lookup) : Nat :=
  if l.outcome.isSome then 1 else if l.row.isNone then 10 else 9 - l.answers.length

def passWork (pass : Pass) : Nat :=
  11 * pass.waiting.length + (pass.inFlight.map lookupWork).sum

theorem lookupWork_done {l : Lookup} (done : l.outcome.isSome = true) : lookupWork l = 1 := if_pos done

theorem lookupWork_trying {l : Lookup} (trying : Trying l) :
    lookupWork l = 9 - l.answers.length ∧ 1 < lookupWork l := by
  obtain ⟨⟨row, read, -⟩, failed, few, answers⟩ := id trying
  have work : lookupWork l = 9 - l.answers.length := by
    rw [lookupWork, outcome_trying trying, read]
    rfl
  refine ⟨work, ?_⟩
  rw [work, answers, List.length_map]
  simp only [fetchAttempts] at few
  omega

/-- A lookup that is not done has something to wait for, and gets nearer its end by it. -/
theorem lookup_goes_on {l : Lookup} (sane : Sane l) (going : l.outcome = none) (db : Db) (a : Answer) :
    lookupWork (l.check db) < lookupWork l ∨ lookupWork (l.answer a) < lookupWork l := by
  have ended : ∀ l' : Lookup, Sane l' → l'.answers.length = l.answers.length + 1 →
      Trying l → lookupWork l' < lookupWork l := by
    intro l' sane' more trying
    obtain ⟨work, some_⟩ := lookupWork_trying trying
    cases done : l'.outcome with
    | some kind =>
        rw [lookupWork_done (by rw [done]; rfl)]
        exact some_
    | none =>
        have trying' : Trying l' := by
          cases sane' with
          | unread _ answers => simp [answers] at more
          | covered covered _ => simp [outcome_covered covered] at done
          | trying trying' => exact trying'
          | answered a answered => simp [outcome_answered answered] at done
          | failed failed =>
              obtain ⟨message, errs⟩ := outcome_failed failed
              simp [errs] at done
        have work' := (lookupWork_trying trying').1
        omega
  cases sane with
  | covered covered _ => simp [outcome_covered covered] at going
  | answered a answered => simp [outcome_answered answered] at going
  | failed failed =>
      obtain ⟨message, errs⟩ := outcome_failed failed
      simp [errs] at going
  | unread row answers =>
      refine .inl ?_
      have here : lookupWork l = 10 := by
        rw [lookupWork, going, row]
        rfl
      have read : (l.check db).row.isNone = false := by
        rw [Lookup.check, row]
        rfl
      rw [here, lookupWork, read]
      split
      · decide
      · simp only [Bool.false_eq_true, if_false]
        omega
  | trying trying =>
      refine .inr (ended _ (sane_answer (.trying trying) going a) ?_ trying)
      obtain ⟨row, read, -⟩ := trying.1
      rw [Lookup.answer, read]
      simp

theorem work_pull {slot : Slot} {rest : List Slot} (waiting : pass.waiting = slot :: rest)
    (room : pass.inFlight.length < max cfg.concurrency 1) :
    passWork (pass.pull cfg) < passWork pass := by
  have fresh : lookupWork { slot } = 10 := rfl
  rw [Pass.pull, waiting]
  simp only [room, if_true, passWork, List.map_append, List.map_cons, List.map_nil, List.sum_append,
    List.sum_cons, List.sum_nil, fresh, waiting, List.length_cons]
  omega

theorem work_advance {l : Lookup} {rest : List Lookup} (first : pass.inFlight = l :: rest)
    (going : l.outcome = none) (go : Lookup → Lookup) (nearer : lookupWork (go l) < lookupWork l) :
    passWork (pass.advance 0 go) < passWork pass := by
  have here : pass.inFlight[0]? = some l := by rw [first]; rfl
  rw [Pass.advance, here]
  simp only [going, Option.isSome_none, Bool.false_eq_true, if_false, passWork, first, List.set_cons_zero,
    List.map_cons, List.sum_cons]
  omega

/-- A pass that is not at its end can go on, whatever the archive answers, and comes nearer its end. -/
theorem goes_on {w : World} (inv : Inv cfg w) (sweeping : w.stage = .sweeping head pass)
    (unbroken : pass.broken = false) (open_ : w.closed = false) (more : pass.drained = false)
    (a : Answer) : ∃ act ∈ [Act.pull, .check 0, .answer 0 a, .take 0 true], ∃ pass',
      (w.next cfg act).stage = .sweeping head pass' ∧ passWork pass' < passWork pass := by
  obtain ⟨sound, -⟩ := inv.pass head pass (by rw [sweeping]; rfl)
  have step : ∀ go, w.inPass go = go head pass := by
    intro go
    rw [World.inPass, sweeping]
    simp [unbroken]
  cases first : pass.inFlight with
  | nil =>
      cases waiting : pass.waiting with
      | nil => simp [Pass.drained, first, waiting] at more
      | cons slot rest =>
          refine ⟨.pull, by simp, pass.pull cfg, by rw [World.next, step], work_pull waiting ?_⟩
          rw [first, List.length_nil]
          omega
  | cons l rest =>
      have here : pass.inFlight[0]? = some l := by rw [first]; rfl
      cases done : l.outcome with
      | none =>
          rcases lookup_goes_on (sound.going l (by rw [first]; exact List.mem_cons_self)) done w.db a with
            nearer | nearer
          · exact ⟨.check 0, by simp, pass.advance 0 (Lookup.check w.db), by rw [World.next, step],
              work_advance first done _ nearer⟩
          · exact ⟨.answer 0 a, by simp, pass.advance 0 (Lookup.answer a), by rw [World.next, step],
              work_advance first done _ nearer⟩
      | some kind =>
          refine ⟨.take 0 true, by simp, pass.took 0 ⟨l, kind, w.db.readSlot l.slot⟩, ?_, ?_⟩
          · rw [World.next, step, World.consume, here]
            simp only [done, open_, Bool.false_eq_true, if_false, Bool.not_true, Bool.and_false]
          · have one : lookupWork l = 1 := lookupWork_done (by rw [done]; rfl)
            simp only [passWork, Pass.took, first, List.eraseIdx_cons_zero, List.map_cons, List.sum_cons, one]
            omega

/-! ## The import -/

/-- Why a patch may be shipped: the archive answered with it, or with a clean `Ok(None)` while the row has
no block of its own. -/
def Ships (w : World) (resp : FinalSlotResponse) : Prop :=
  ∃ head pass l, w.stage = .sweeping head pass ∧ l ∈ pass.inFlight ∧
    (Answered l (some resp) ∨
      Answered l none ∧ (w.db.readSlot l.slot).any keepsBlock = false ∧ resp = missPatch l.slot)

theorem consume_ships {w : World} (inv : Inv cfg w) (sweeping : w.stage = .sweeping head pass) (i : Nat)
    (accepted : Bool) : ∃ sent : Option FinalSlotResponse,
      (w.consume head pass i accepted).lane = w.lane ++ sent.toList ∧
        ∀ resp, sent = some resp → Ships w resp := by
  obtain ⟨sound, -⟩ := inv.pass head pass (by rw [sweeping]; rfl)
  have quiet : ∃ sent : Option FinalSlotResponse, w.lane = w.lane ++ sent.toList ∧
      ∀ resp, sent = some resp → Ships w resp :=
    ⟨none, (List.append_nil _).symm, fun _ none_ => by cases none_⟩
  unfold World.consume
  cases here : pass.inFlight[i]? with
  | none => exact quiet
  | some l =>
      cases done : l.outcome with
      | none =>
          simp only [done]
          exact quiet
      | some kind =>
          simp only [done]
          split
          · exact quiet
          · split
            · exact quiet
            · have flying : l ∈ pass.inFlight := List.mem_of_getElem? here
              refine ⟨_, rfl, fun resp shipped => ⟨head, pass, l, sweeping, flying, ?_⟩⟩
              cases settled_of_outcome (h := ⟨l, kind, w.db.readSlot l.slot⟩) (sound.going l flying) done with
              | covered _ sent => simp [sent] at shipped
              | kept _ _ sent => simp [sent] at shipped
              | failed _ sent => simp [sent] at shipped
              | filled resp' answered sent =>
                  rw [sent] at shipped
                  exact .inl (Option.some.inj shipped ▸ answered)
              | missed answered free sent =>
                  rw [sent] at shipped
                  exact .inr ⟨answered, free, (Option.some.inj shipped).symm⟩

theorem next_ships {w : World} (inv : Inv cfg w) (act : Act) : ∃ sent : Option FinalSlotResponse,
    (w.next cfg act).lane = w.lane ++ sent.toList ∧ ∀ resp, sent = some resp → Ships w resp := by
  have quiet : ∀ w' : World, w'.lane = w.lane → ∃ sent : Option FinalSlotResponse,
      w'.lane = w.lane ++ sent.toList ∧ ∀ resp, sent = some resp → Ships w resp :=
    fun w' same => ⟨none, by rw [same]; simp, fun _ none_ => by cases none_⟩
  have inPass : ∀ go : UInt64 → Pass → World, (∀ head pass, (go head pass).lane = w.lane) →
      (w.inPass go).lane = w.lane := by
    intro go same
    unfold World.inPass
    split
    · split
      · rfl
      · exact same _ _
    · rfl
  cases act with
  | begin_ =>
      refine quiet _ ?_
      rw [World.next]
      split
      · split
        · rfl
        · split <;> rfl
      · rfl
  | pull => exact quiet _ (inPass _ fun _ _ => rfl)
  | check i => exact quiet _ (inPass _ fun _ _ => rfl)
  | answer i a => exact quiet _ (inPass _ fun _ _ => rfl)
  | take i accepted =>
      rw [World.next, World.inPass]
      split
      · next head pass sweeping =>
          split
          · exact quiet _ rfl
          · exact consume_ships inv sweeping i accepted
      · exact quiet _ rfl
  | endPass =>
      refine quiet _ ?_
      rw [World.next]
      split
      · split
        · split
          · rfl
          · split <;> rfl
        · rfl
      · rfl
  | resume =>
      refine quiet _ ?_
      rw [World.next]
      split <;> rfl
  | write db => exact quiet _ rfl
  | close => exact quiet _ rfl

/-- What holds of the importer at every moment. -/
structure Exact (cfg : OneShotConfig) (w : World) : Prop where
  /-- The range from `head` down names each of its slots once. -/
  range : ∀ head, (slotSeq cfg head).Nodup ∧ ∀ s : Slot, s ∈ slotSeq cfg head ↔
    cfg.minPeriod.getD 0 ≤ s.period ∧ s.period ≤ head ∧ s.thread < cfg.threadCount
  /-- Every patch is shipped for a reason, whatever happens next. -/
  ships : ∀ act, ∃ sent : Option FinalSlotResponse, (w.next cfg act).lane = w.lane ++ sent.toList ∧
    ∀ resp, sent = some resp → Ships w resp
  /-- What a pass has taken was settled as its lookup ended, and is what it has shipped so far. -/
  settled : ∀ head pass, passOf w.stage = some (head, pass) → (∀ h ∈ pass.handled, Settled h) ∧
    ∃ before, w.lane = before ++ pass.handled.filterMap Handled.sent
  /-- Taken, in flight and waiting: never a slot twice, never one lost. -/
  slots : ∀ head pass, passOf w.stage = some (head, pass) →
    (pass.handled.map (·.lookup.slot) ++ (pass.inFlight.map (·.slot) ++ pass.waiting)).Perm
      (slotSeq cfg head)
  /-- An open channel lets a pass go on to its end. -/
  live : ∀ head pass, w.stage = .sweeping head pass → w.closed = false → pass.drained = false →
    ∀ a, ∃ act ∈ [Act.pull, .check 0, .answer 0 a, .take 0 true], ∃ pass',
      (w.next cfg act).stage = .sweeping head pass' ∧ passWork pass' < passWork pass
  /-- A pass at its end took every slot of the range once. -/
  once : ∀ head pass, passOf w.stage = some (head, pass) → pass.drained = true →
    (pass.handled.map (·.lookup.slot)).Perm (slotSeq cfg head)
  /-- Complete: in the last pass every slot was covered or answered. -/
  complete : ∀ head pass, w.stage = .complete head pass →
    ∀ s : Slot, cfg.minPeriod.getD 0 ≤ s.period → s.period ≤ head → s.thread < cfg.threadCount →
      ∃ h ∈ pass.handled, h.lookup.slot = s ∧ (Covered h.lookup ∨ ∃ a, Answered h.lookup a)

/-- A pass with nothing waiting and nothing in flight has taken its whole range. -/
theorem once_of_drained (sound : PassInv cfg head pass) (drained : pass.drained = true) :
    (pass.handled.map (·.lookup.slot)).Perm (slotSeq cfg head) := by
  obtain ⟨waiting, inFlight⟩ := Bool.and_eq_true_iff.mp drained
  have slots := sound.slots
  rw [List.isEmpty_iff.mp waiting, List.isEmpty_iff.mp inFlight, List.map_nil, List.append_nil,
    List.append_nil] at slots
  exact slots

/-- Without an error every slot taken was covered or answered. -/
theorem answered_of_clean (sound : PassInv cfg head pass) (clean : pass.errored = 0) {h : Handled}
    (taken : h ∈ pass.handled) : Covered h.lookup ∨ ∃ a, Answered h.lookup a := by
  obtain ⟨sane, done⟩ := sound.taken h taken
  cases settled_of_outcome sane done with
  | covered covered _ => exact .inl covered
  | filled resp answered _ => exact .inr ⟨_, answered⟩
  | kept answered _ _ => exact .inr ⟨_, answered⟩
  | missed answered _ _ => exact .inr ⟨_, answered⟩
  | failed failed _ =>
      have none_ := List.countP_eq_zero.mp (sound.errors.symm.trans clean) h taken
      exact absurd ((isError_iff sane done).mpr failed) none_

/-- However the store, the archive and the lookups move: a pass takes each slot of its range once, ships a
miss only for a clean `Ok(None)` at a slot that has no block, ships what the archive answered, and is the
last one only when it left no slot unanswered. -/
theorem import_exact (cfg : OneShotConfig) (db : Db) (acts : List Act) :
    Exact cfg (World.run cfg { db } acts) := by
  have inv := Inv.run cfg db acts
  constructor
  · exact fun head => ⟨nodup_slotSeq cfg head, fun s => mem_slotSeq⟩
  · exact next_ships inv
  · intro head pass at_
    obtain ⟨sound, lane⟩ := inv.pass head pass at_
    refine ⟨fun h taken => ?_, lane⟩
    obtain ⟨sane, done⟩ := sound.taken h taken
    exact settled_of_outcome sane done
  · exact fun head pass at_ => (inv.pass head pass at_).1.slots
  · intro head pass sweeping open_ more a
    refine goes_on inv sweeping (Bool.eq_false_iff.mpr fun broken => ?_) open_ more a
    simp [inv.broken head pass sweeping broken] at open_
  · exact fun head pass at_ drained => once_of_drained (inv.pass head pass at_).1 drained
  · intro head pass complete s above below thread
    have at_ : passOf (World.run cfg { db } acts).stage = some (head, pass) := by rw [complete]; rfl
    have sound := (inv.pass head pass at_).1
    have once := once_of_drained sound (inv.swept (by rw [complete]; rfl) head pass at_)
    obtain ⟨h, taken, slot⟩ := List.mem_map.mp (once.mem_iff.mpr (mem_slotSeq.mpr ⟨above, below, thread⟩))
    exact ⟨h, taken, slot, answered_of_clean sound (inv.complete head pass complete) taken⟩

end MassaIndexer.Laws.ImportExactness
