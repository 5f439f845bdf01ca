/-
# Laws.SweepCompleteness -- a sweep asks for everything it needs

A sweep reads every slot up to the head once. With peers that answer truthfully it ships each needed
slot that one of them holds, unless the slot is in a dense window, no range stream brought it, and too
much of its window is left like that: then nothing of what is left is asked for
(`sweep_complete_iff`). A peer that can be reached through a session only opens no range stream, so its
dense windows stay as they are on every sweep (`session_only_window_skipped`).
-/
import MassaIndexer.Laws.SweepScope

namespace MassaIndexer.Laws.SweepCompleteness

open MassaIndexer.Theory.Sweep
open MassaIndexer.Data.Ids MassaIndexer.Data.Model MassaIndexer.Data.Proto MassaIndexer.Data.Codec
open MassaIndexer.Store.ColumnFamilies
open MassaIndexer.Peer.Patch MassaIndexer.Writer.Step MassaIndexer.Peer.Backfill
open MassaIndexer.Laws.SweepScope

set_option autoImplicit false

/-! ## Truthful peers -/

/-- A logical peer: whether it is on our network, the routes to it with whether each is up, and its
answer for each slot that it holds FINAL. -/
structure Remote where
  sameNetwork : Bool
  routes : List Bool
  holds : Slot → Option FinalSlotResponse
  truthful : ∀ s r, holds s = some r → r.finalKnown = true ∧ slotOf r = some s

namespace Remote

/-- Eligible, reachable, and FINAL there. -/
def Supplies (p : Remote) (s : Slot) : Prop :=
  p.sameNetwork = true ∧ true ∈ p.routes ∧ (p.holds s).isSome = true

/-- What a peer says of a slot that it does not hold. -/
def notKnown (s : Slot) : FinalSlotResponse := { period := s.period, thread := s.thread.toUInt32 }

def answer (p : Remote) (s : Slot) (up : Bool) : Except String FinalSlotResponse :=
  if up then .ok ((p.holds s).getD (notKnown s)) else .error "unreachable"

/-- The routes are tried from any of them on. -/
inductive Replies (p : Remote) (s : Slot) : PeerReply → Prop where
  | mismatch : p.sameNetwork = false → Replies p s .networkMismatch
  | refused (answers : List (Except String FinalSlotResponse)) : p.sameNetwork = false →
      (∀ r, .ok r ∉ answers) → Replies p s (.routes answers)
  | answers (start : Nat) : p.sameNetwork = true →
      Replies p s (.routes ((p.routes.map (p.answer s)).rotate start))

end Remote

/-! ## One request -/

theorem tryRoutes_final {answers : List (Except String FinalSlotResponse)} {reached : Bool}
    {lastErr : Option String} {r : FinalSlotResponse}
    (found : tryRoutes answers reached lastErr = .ok (some r)) :
    .ok r ∈ answers ∧ r.finalKnown = true := by
  induction answers generalizing reached lastErr with
  | nil => cases reached <;> cases lastErr <;> simp [tryRoutes] at found
  | cons a answers ih =>
      cases a with
      | error e =>
          rw [tryRoutes] at found
          exact ⟨List.mem_cons_of_mem _ (ih found).1, (ih found).2⟩
      | ok q =>
          rw [tryRoutes] at found
          split at found
          · next final =>
              obtain rfl := Option.some.inj (Except.ok.inj found)
              exact ⟨List.mem_cons_self, final⟩
          · exact ⟨List.mem_cons_of_mem _ (ih found).1, (ih found).2⟩

theorem exists_tryRoutes {answers : List (Except String FinalSlotResponse)} {r : FinalSlotResponse}
    (answered : .ok r ∈ answers) (final : r.finalKnown = true) (reached : Bool)
    (lastErr : Option String) : ∃ q, tryRoutes answers reached lastErr = .ok (some q) := by
  induction answers generalizing reached lastErr with
  | nil => exact absurd answered List.not_mem_nil
  | cons a answers ih =>
      cases a with
      | error e =>
          rcases List.mem_cons.mp answered with here | later
          · cases here
          · exact ih later reached (some e)
      | ok q =>
          rw [tryRoutes]
          split
          · exact ⟨q, rfl⟩
          · next notFinal =>
              rcases List.mem_cons.mp answered with here | later
              · rw [← Except.ok.inj here] at notFinal
                exact absurd final notFinal
              · exact ih later true lastErr

/-- What a request brings was the answer of some route to some peer. -/
theorem fetchFinalSlot_final {replies : List PeerReply} {lastErr : Option String}
    {r : FinalSlotResponse} (found : fetchFinalSlot replies lastErr = .ok (some r)) :
    ∃ answers, .routes answers ∈ replies ∧ .ok r ∈ answers ∧ r.finalKnown = true := by
  induction replies generalizing lastErr with
  | nil => cases lastErr <;> simp [fetchFinalSlot] at found
  | cons reply replies ih =>
      have later : ∀ {e}, fetchFinalSlot replies e = .ok (some r) →
          ∃ answers, .routes answers ∈ reply :: replies ∧ .ok r ∈ answers ∧ r.finalKnown = true := by
        intro e rest
        obtain ⟨answers, member, inside⟩ := ih rest
        exact ⟨answers, List.mem_cons_of_mem _ member, inside⟩
      rw [fetchFinalSlot] at found
      split at found
      · next q fetched =>
          split at found
          · obtain rfl := Option.some.inj (Except.ok.inj found)
            cases reply with
            | networkMismatch => cases fetched
            | routes answers =>
                obtain ⟨member, final⟩ := tryRoutes_final fetched
                exact ⟨answers, List.mem_cons_self, member, final⟩
          · exact later found
      · exact later found
      · exact later found

/-- A request finds what some route to some peer answers. -/
theorem exists_fetchFinalSlot {replies : List PeerReply}
    {answers : List (Except String FinalSlotResponse)} {r : FinalSlotResponse}
    (member : .routes answers ∈ replies) (answered : .ok r ∈ answers) (final : r.finalKnown = true)
    (lastErr : Option String) : ∃ q, fetchFinalSlot replies lastErr = .ok (some q) := by
  induction replies generalizing lastErr with
  | nil => exact absurd member List.not_mem_nil
  | cons reply replies ih =>
      rcases List.mem_cons.mp member with rfl | later
      · obtain ⟨q, found⟩ := exists_tryRoutes answered final false none
        have known := (tryRoutes_final found).2
        refine ⟨q, ?_⟩
        rw [fetchFinalSlot, fetchFromLogicalPeer, found]
        exact if_pos known
      · rw [fetchFinalSlot]
        split
        · next q fetched =>
            split
            · exact ⟨q, rfl⟩
            · exact ih later lastErr
        · exact ih later lastErr
        · next e fetched => exact ih later (some e)

theorem finalAnswer_eq_some {replies : List PeerReply} {r : FinalSlotResponse} :
    finalAnswer replies = some r ↔ fetchFinalSlot replies none = .ok (some r) := by
  unfold finalAnswer
  constructor
  · intro answered
    split at answered
    · next q fetched =>
        split at answered
        · rw [fetched, answered]
        · cases answered
    · cases answered
  · intro fetched
    obtain ⟨_, -, -, final⟩ := fetchFinalSlot_final fetched
    rw [fetched]
    exact if_pos final

/-! ## A sweep over truthful peers -/

/-- A sweep over a store whose rows stay as they are, with peers that answer truthfully, in any order and
by any of their routes first. The range streams may end anywhere and bring anything. -/
structure TruthfulSweep where
  cfg : BackfillConfig
  sweep : SweepCtx
  db : Db
  peers : List Remote
  env : SweepEnv
  scans : env.scan = fun s => .ok (db.readSlot s)
  visits : env.visit = fun s => .ok (db.readSlot s)
  replies : ∀ s parts, ∃ order : List Remote, order.Perm peers ∧
    List.Forall₂ (fun p reply => p.Replies s reply) order (env.replies s parts)

namespace TruthfulSweep

variable (t : TruthfulSweep)

def Needed (s : Slot) : Prop := (needsFetch (t.db.readSlot s) t.cfg t.sweep).isSome = true

/-- Some eligible, reachable peer holds the slot FINAL. -/
def Held (s : Slot) : Prop := ∃ p ∈ t.peers, p.Supplies s

/-- The slot is sent to the writer before the sweep is over. -/
def Sent (s : Slot) : Prop :=
  ∃ resp, Event.peerPatch resp ∈ sweepEvents t.cfg t.sweep t.env none ∧ slotOf resp = some s

variable {t}

theorem selected_iff (s : Slot) : selected t.cfg t.sweep t.env s = true ↔ t.Needed s := by
  unfold selected Needed
  rw [t.scans]

/-- What a request brings is what some eligible, reachable peer holds. -/
theorem holder_of_answer {s : Slot} {parts : FinalSlotParts} {r : FinalSlotResponse}
    (answered : finalAnswer (t.env.replies s parts) = some r) :
    ∃ p ∈ t.peers, p.sameNetwork = true ∧ true ∈ p.routes ∧ p.holds s = some r := by
  obtain ⟨order, perm, replies⟩ := t.replies s parts
  obtain ⟨answers, member, inside, final⟩ := fetchFinalSlot_final (finalAnswer_eq_some.mp answered)
  obtain ⟨i, bound, here⟩ := List.getElem_of_mem member
  have bound' : i < order.length := by rw [replies.length_eq]; exact bound
  have reply := replies.get bound' bound
  rw [List.get_eq_getElem, List.get_eq_getElem, here] at reply
  refine ⟨order[i], perm.mem_iff.mp (List.getElem_mem bound'), ?_⟩
  generalize order[i] = p at reply
  cases reply with
  | refused _ _ none => exact absurd inside (none r)
  | answers start network =>
      rw [List.mem_rotate, List.mem_map] at inside
      obtain ⟨up, route, answer⟩ := inside
      cases up with
      | false => cases answer
      | true =>
          refine ⟨network, route, ?_⟩
          cases holds : p.holds s with
          | some q =>
              rw [Remote.answer, holds] at answer
              exact congrArg some (Except.ok.inj answer)
          | none =>
              rw [Remote.answer, holds] at answer
              rw [← Except.ok.inj answer] at final
              cases final

/-- What some eligible, reachable peer holds, a request finds. -/
theorem exists_answer {s : Slot} (held : t.Held s) (parts : FinalSlotParts) :
    ∃ r, finalAnswer (t.env.replies s parts) = some r := by
  obtain ⟨p, member, network, route, holds⟩ := held
  obtain ⟨q, holds⟩ := Option.isSome_iff_exists.mp holds
  obtain ⟨order, perm, replies⟩ := t.replies s parts
  obtain ⟨i, bound, here⟩ := List.getElem_of_mem (perm.mem_iff.mpr member)
  have bound' : i < (t.env.replies s parts).length := by rw [← replies.length_eq]; exact bound
  have reply := replies.get bound bound'
  rw [List.get_eq_getElem, List.get_eq_getElem, here] at reply
  have listed := List.getElem_mem bound'
  generalize (t.env.replies s parts)[i] = one at reply listed
  cases reply with
  | mismatch other => exact absurd network (by rw [other]; decide)
  | refused answers other => exact absurd network (by rw [other]; decide)
  | answers start _ =>
      have answered : .ok q ∈ (p.routes.map (p.answer s)).rotate start := by
        rw [List.mem_rotate, List.mem_map]
        refine ⟨true, route, ?_⟩
        rw [Remote.answer, holds]
        rfl
      obtain ⟨r, found⟩ := exists_fetchFinalSlot listed answered (p.truthful s q holds).1 none
      exact ⟨r, finalAnswer_eq_some.mpr found⟩

theorem slotOf_answer {s : Slot} {parts : FinalSlotParts} {r : FinalSlotResponse}
    (answered : finalAnswer (t.env.replies s parts) = some r) : slotOf r = some s := by
  obtain ⟨p, -, -, -, holds⟩ := holder_of_answer answered
  exact (p.truthful s r holds).2

theorem slotOf_visitSlot {s : Slot} {r : FinalSlotResponse}
    (answered : visitSlot t.cfg t.sweep t.env s = some r) : slotOf r = some s := by
  unfold visitSlot at answered
  rw [t.visits] at answered
  dsimp only at answered
  split at answered
  · cases answered
  · exact slotOf_answer answered

/-- A visit to a needed slot that some peer holds brings it. -/
theorem exists_visitSlot {s : Slot} (needed : t.Needed s) (held : t.Held s) :
    ∃ r, visitSlot t.cfg t.sweep t.env s = some r := by
  obtain ⟨⟨parts, reason⟩, needs⟩ := Option.isSome_iff_exists.mp needed
  have asks : visitSlot t.cfg t.sweep t.env s = finalAnswer (t.env.replies s parts) := by
    unfold visitSlot
    rw [t.visits]
    dsimp only
    rw [needs]
  rw [asks]
  exact exists_answer held parts

/-! ## What is sent -/

theorem sent_iff {s : Slot} : t.Sent s ↔
    (∃ w ∈ sweepWindows t.cfg t.sweep, ∃ resp ∈ (windowFilled t.cfg t.sweep t.env w.1 w.2).taken,
      slotOf resp = some s) ∨
    (s ∈ sweepAsked t.cfg t.sweep t.env ∧ ∃ r, visitSlot t.cfg t.sweep t.env s = some r) := by
  constructor
  · rintro ⟨resp, sent, about⟩
    rcases mem_sweepShipped.mp (mem_sweepEvents sent) with
      ⟨w, window, taken⟩ | ⟨s', asked, answered⟩
    · exact .inl ⟨w, window, resp, taken, about⟩
    · have same : s' = s := Option.some.inj ((slotOf_visitSlot answered).symm.trans about)
      subst same
      exact .inr ⟨asked, resp, answered⟩
  · rintro (⟨w, window, resp, taken, about⟩ | ⟨asked, r, answered⟩)
    · exact ⟨resp, List.mem_map.mpr
        ⟨resp, mem_sweepShipped.mpr (.inl ⟨w, window, taken⟩), rfl⟩, about⟩
    · exact ⟨r, List.mem_map.mpr
        ⟨r, mem_sweepShipped.mpr (.inr ⟨s, asked, answered⟩), rfl⟩, slotOf_visitSlot answered⟩

/-- A slot is in one window. -/
theorem window_unique {s : Slot} {w w' : Nat × Nat} (window : w ∈ sweepWindows t.cfg t.sweep)
    (window' : w' ∈ sweepWindows t.cfg t.sweep) (here : s ∈ slotsOf t.cfg w.1 w.2)
    (there : s ∈ slotsOf t.cfg w'.1 w'.2) : w = w' := by
  by_contra differ
  have distinct : (sweepVisits t.cfg t.sweep).Nodup := nodup_sweepVisits
  have apart := (List.nodup_flatMap.mp distinct).2
  have symm : Std.Symm (Function.onFun List.Disjoint fun w : Nat × Nat => slotsOf t.cfg w.1 w.2) :=
    ⟨fun _ _ => List.Disjoint.symm⟩
  exact apart.forall window window' differ here there

/-- What is left of a dense window is too much to ask for, and some of it is held. -/
def Skipped (t : TruthfulSweep) (w : Nat × Nat) : Prop :=
  Dense t.cfg t.sweep t.env w ∧
    t.cfg.rangeSparseThreshold ≤ (uncovered t.cfg t.sweep t.env w).length ∧
      ∃ s ∈ uncovered t.cfg t.sweep t.env w, t.Held s

theorem windowAsked_of_dense {w : Nat × Nat} (dense : Dense t.cfg t.sweep t.env w) :
    windowAsked t.cfg t.sweep t.env w.1 w.2 =
      if (uncovered t.cfg t.sweep t.env w).length < t.cfg.rangeSparseThreshold then
        uncovered t.cfg t.sweep t.env w
      else [] := by
  unfold windowAsked
  dsimp only
  rw [remaining_dense dense]

theorem windowAsked_of_sparse {w : Nat × Nat} (sparse : ¬ Dense t.cfg t.sweep t.env w) :
    windowAsked t.cfg t.sweep t.env w.1 w.2 = scanWindow t.cfg t.sweep t.env w.1 w.2 := by
  unfold windowAsked
  dsimp only
  rw [windowFilled_sparse sparse]
  by_cases empty : scanWindow t.cfg t.sweep t.env w.1 w.2 = []
  · rw [empty]
    split <;> rfl
  · exact if_pos (Nat.lt_of_not_le fun many => sparse ⟨empty, many⟩)

/-- A slot that is needed and held is sent from its window, unless that is skipped. -/
theorem sent_of_not_skipped {w : Nat × Nat} {s : Slot} (window : w ∈ sweepWindows t.cfg t.sweep)
    (notSkipped : ¬ Skipped t w) (scanned : s ∈ scanWindow t.cfg t.sweep t.env w.1 w.2)
    (held : t.Held s) : t.Sent s := by
  have needed : t.Needed s := (selected_iff s).mp (mem_scanWindow.mp scanned).2
  have ask : s ∈ windowAsked t.cfg t.sweep t.env w.1 w.2 → t.Sent s := fun asked =>
    sent_iff.mpr (.inr ⟨List.mem_flatMap.mpr ⟨w, window, asked⟩, exists_visitSlot needed held⟩)
  by_cases dense : Dense t.cfg t.sweep t.env w
  · by_cases covered : some s ∈ streamed t.env w.1
    · obtain ⟨resp, taken, offers⟩ := taken_of_offered
        (f := { remaining := scanWindow t.cfg t.sweep t.env w.1 w.2 }) scanned covered
      rw [← windowFilled_dense dense] at taken
      refine sent_iff.mpr (.inl ⟨w, window, resp, taken, ?_⟩)
      unfold offered at offers
      split at offers
      · cases offers
      · exact offers
    · have left : s ∈ uncovered t.cfg t.sweep t.env w :=
        List.mem_filter.mpr ⟨scanned, by simpa using covered⟩
      have few : (uncovered t.cfg t.sweep t.env w).length < t.cfg.rangeSparseThreshold :=
        Nat.lt_of_not_le fun many => notSkipped ⟨dense, many, s, left, held⟩
      refine ask ?_
      rw [windowAsked_of_dense dense, if_pos few]
      exact left
  · refine ask ?_
    rw [windowAsked_of_sparse dense]
    exact scanned

/-- What is left of a skipped window is not sent. -/
theorem not_sent_of_skipped {w : Nat × Nat} {s : Slot} (window : w ∈ sweepWindows t.cfg t.sweep)
    (dense : Dense t.cfg t.sweep t.env w)
    (many : t.cfg.rangeSparseThreshold ≤ (uncovered t.cfg t.sweep t.env w).length)
    (left : s ∈ uncovered t.cfg t.sweep t.env w) : ¬ t.Sent s := by
  obtain ⟨scanned, notCovered⟩ := List.mem_filter.mp left
  have here := (mem_scanWindow.mp scanned).1
  intro sent
  rcases sent_iff.mp sent with ⟨w', window', resp, taken, about⟩ | ⟨asked, -⟩
  · obtain ⟨s', scanned', about'⟩ := scanned_of_taken taken
    obtain rfl := Option.some.inj (about.symm.trans about')
    obtain rfl := window_unique window window' here (mem_scanWindow.mp scanned').1
    rw [windowFilled_dense dense] at taken
    rcases needed_of_mem_taken taken with nothing | ⟨offer, k, -, asks⟩
    · exact absurd nothing List.not_mem_nil
    · have key : k = s := by
        unfold offered at asks
        split at asks
        · cases asks
        · exact Option.some.inj (asks.symm.trans about)
      have covered : some s ∈ streamed t.env w.1 := by
        rw [← key, ← asks]
        exact List.mem_map_of_mem offer
      simp [covered] at notCovered
  · obtain ⟨w', window', asked⟩ := List.mem_flatMap.mp asked
    obtain rfl := window_unique window window' here (mem_scanWindow.mp (scanned_of_asked asked)).1
    rw [windowAsked_of_dense dense, if_neg (Nat.not_lt.mpr many)] at asked
    exact absurd asked List.not_mem_nil

/-- **A sweep reads each slot up to the head once, and sends each needed slot that an eligible,
reachable peer holds, if and only if it skips no window.** -/
theorem sweep_complete_iff (t : TruthfulSweep) :
    (sweepVisits t.cfg t.sweep).Nodup ∧
    (∀ s, s ∈ sweepVisits t.cfg t.sweep ↔ s.period ≤ t.sweep.head ∧ s.thread < t.cfg.threadCount) ∧
    ((∀ s ∈ sweepVisits t.cfg t.sweep, t.Needed s → t.Held s → t.Sent s) ↔
      ∀ w ∈ sweepWindows t.cfg t.sweep, ¬ Skipped t w) := by
  refine ⟨nodup_sweepVisits, fun s => mem_sweepVisits, fun complete w window skipped => ?_,
    fun none s visited needed held => ?_⟩
  · obtain ⟨dense, many, s, left, held⟩ := skipped
    have scanned := (List.mem_filter.mp left).1
    refine not_sent_of_skipped window dense many left (complete s ?_ ?_ held)
    · exact mem_sweepVisits_of_scanned window scanned
    · exact (selected_iff s).mp (mem_scanWindow.mp scanned).2
  · obtain ⟨w, window, here⟩ := List.mem_flatMap.mp visited
    exact sent_of_not_skipped window (none w window)
      (mem_scanWindow.mpr ⟨here, (selected_iff s).mpr needed⟩) held

end TruthfulSweep

/-! ## A peer that only a session reaches -/

/-- It holds every slot FINAL, and no URL leads to it. -/
def sessionOnly : Remote where
  sameNetwork := true
  routes := [true]
  holds s := some { period := s.period, thread := s.thread.toUInt32, finalKnown := true }
  truthful s r holds := by
    rw [← Option.some.inj holds]
    refine ⟨rfl, ?_⟩
    rw [slotOf, threadFromPb_toUInt32]
    rfl

/-- An empty store, period 0 of 32 threads to fill, and no range stream. -/
def sessionOnlySweep : TruthfulSweep where
  cfg := {}
  sweep := { head := 0 }
  db := Db.empty
  peers := [sessionOnly]
  env :=
    { scan := fun s => .ok (Db.empty.readSlot s)
      visit := fun s => .ok (Db.empty.readSlot s)
      streams := fun _ => [.error "no unary route for range stream"]
      replies := fun s _ => [.routes ([true].map (sessionOnly.answer s))] }
  scans := rfl
  visits := rfl
  replies _ _ := ⟨[sessionOnly], .refl _, .cons (.answers 0 rfl) .nil⟩

theorem scanWindow_sessionOnly :
    scanWindow sessionOnlySweep.cfg sessionOnlySweep.sweep sessionOnlySweep.env 0 0 =
      slotsOf {} 0 0 :=
  List.filter_eq_self.mpr fun _ _ => rfl

/-- **What only a session can bring is not asked for when there is much of it.** -/
theorem session_only_window_skipped : ¬ ∀ t : TruthfulSweep,
    (sweepVisits t.cfg t.sweep).Nodup ∧
      (∀ s, s ∈ sweepVisits t.cfg t.sweep ↔ s.period ≤ t.sweep.head ∧ s.thread < t.cfg.threadCount) ∧
        ∀ s ∈ sweepVisits t.cfg t.sweep, t.Needed s → t.Held s → t.Sent s := by
  intro complete
  have window : (0, 0) ∈ sweepWindows sessionOnlySweep.cfg sessionOnlySweep.sweep := by
    rw [sweepWindows, windows]
    exact List.mem_singleton.mpr rfl
  have left : uncovered sessionOnlySweep.cfg sessionOnlySweep.sweep sessionOnlySweep.env (0, 0) =
      slotsOf {} 0 0 := by
    rw [uncovered, scanWindow_sessionOnly]
    exact List.filter_eq_self.mpr fun _ _ => rfl
  have dense : Dense sessionOnlySweep.cfg sessionOnlySweep.sweep sessionOnlySweep.env (0, 0) := by
    change scanWindow _ _ _ 0 0 ≠ [] ∧ _ ≤ (scanWindow _ _ _ 0 0).length
    rw [scanWindow_sessionOnly]
    decide
  have many : sessionOnlySweep.cfg.rangeSparseThreshold ≤
      (uncovered sessionOnlySweep.cfg sessionOnlySweep.sweep sessionOnlySweep.env (0, 0)).length := by
    rw [left]
    decide
  have first : (⟨0, 0⟩ : Slot) ∈ slotsOf {} 0 0 := by decide
  have sent := (complete sessionOnlySweep).2.2 ⟨0, 0⟩
    (mem_sweepVisits.mpr ⟨by decide, by decide⟩) rfl
    ⟨sessionOnly, List.mem_singleton.mpr rfl, rfl, List.mem_singleton.mpr rfl, rfl⟩
  exact TruthfulSweep.not_sent_of_skipped window dense many (by rw [left]; exact first) sent

end MassaIndexer.Laws.SweepCompleteness
