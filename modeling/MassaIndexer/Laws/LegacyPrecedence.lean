/-
# Laws.LegacyPrecedence -- the archive speaks last

A verdict from the node or from a peer should count the same whether or not the archive was heard
first. A run is compared with the same run without its legacy patches, step by step: both settle the
slot by the same frames and answers, and they part where an archive verdict is in the way of one, or
where the bodies the archive left change what the arbiter decides (`Yields`).
-/
import MassaIndexer.Chain.Snapshot

namespace MassaIndexer.Laws.LegacyPrecedence

open MassaIndexer.Theory.Runs
open MassaIndexer.Data.Ids MassaIndexer.Data.Model MassaIndexer.Data.Proto MassaIndexer.Chain
open MassaIndexer.Store.ColumnFamilies MassaIndexer.Writer.Shared MassaIndexer.Writer.Step
open MassaIndexer.Peer.Arbiter MassaIndexer.Peer.Patch

set_option autoImplicit false

/-! ## Verdict fields -/

/-- Whether a slot is FINAL, and the verdict fields of its row. -/
@[ext] structure Core where
  final : Bool
  isMiss : Bool
  block : Option BlockId
deriving DecidableEq

namespace Core

/-- What a verdict makes of an open slot; a FINAL one stays. -/
def settle (c : Core) (isMiss : Bool) (block : Option BlockId) : Core :=
  if c.final then c
  else { final := true, isMiss := isMiss, block := if isMiss then c.block else block.or c.block }

theorem settle_of_final {c : Core} (final : c.final = true) (isMiss : Bool)
    (block : Option BlockId) : c.settle isMiss block = c := if_pos final

theorem final_settle (c : Core) (isMiss : Bool) (block : Option BlockId) :
    (c.settle isMiss block).final = true := by
  unfold settle
  split
  · next final => exact final
  · rfl

end Core

def coreOf (r : Register) : Core := ⟨decide (r.status = .final), r.isMiss, r.finalBlockId⟩

theorem final_coreOf {r : Register} : (coreOf r).final = true ↔ r.status = .final := by
  simp [coreOf]

theorem coreOf_promoted {r : Register} (open_ : r.status ≠ .final) (isMiss : Bool)
    (block : Option BlockId) :
    coreOf (r.promoted isMiss block) = (coreOf r).settle isMiss block := by
  simp [coreOf, Register.promoted, Core.settle, open_]

theorem coreOf_settleParts (r : Register) (body exec transfers : Bool) :
    coreOf (r.settleParts body exec transfers) = coreOf r := rfl

theorem coreOf_sawFinal (r : Register) {isMiss : Bool} {block : Option BlockId}
    (trail : Option String) (normal : isMiss = true → block = none) :
    coreOf (r.sawFinal isMiss block trail) = (coreOf r).settle isMiss block := by
  unfold Register.sawFinal Core.settle
  by_cases settled : r.status = .final
  · rw [if_pos settled, if_pos (final_coreOf.mpr settled)]
    split <;> rfl
  · rw [if_neg settled, if_neg (fun final => settled (final_coreOf.mp final))]
    cases isMiss with
    | true => simp [coreOf, normal rfl]
    | false => simp [coreOf]

/-- The verdict of the slot gives way to the offer's. -/
def Overrides (L : Ledger) (o : Offer) : Prop :=
  (L.reg o.slot).status = .final ∧ ∃ l p, (L.reg o.slot).verdict = some l ∧
    o.verdict = some p ∧ L.Adopts o.slot l p o.shipped

theorem core_peerOffer_of_overrides {L : Ledger} {o : Offer} (overrides : Overrides L o) :
    coreOf ((L.peerOffer o).reg o.slot) = ⟨true, o.isMiss, if o.isMiss then none else o.block⟩ := by
  obtain ⟨settled, l, p, held, offered, adopts⟩ := overrides
  rw [Ledger.peerOffer_of_adopts settled held offered adopts]
  simp [Ledger.adopted, coreOf, Register.replaced, Register.settleParts]

theorem core_peerOffer_of_not_overrides {L : Ledger} {o : Offer} (keeps : ¬ Overrides L o) :
    coreOf ((L.peerOffer o).reg o.slot) = (coreOf (L.reg o.slot)).settle o.isMiss o.block := by
  unfold Ledger.peerOffer
  cases reconciled : L.reconcile o with
  | none =>
      have settled : (L.reg o.slot).status = .final := by
        by_contra open_
        rw [reconcile_of_open open_] at reconciled
        simp at reconciled
      rw [Core.settle_of_final (final_coreOf.mpr settled)]
  | some r =>
      simp only [Ledger.reg_setReg, if_true, coreOf_settleParts]
      cases reconciles_of_reconcile reconciled with
      | promoted open_ => exact coreOf_promoted open_ o.isMiss o.block
      | agreed settled same noClash =>
          rw [Core.settle_of_final (final_coreOf.mpr settled)]
          rfl
      | adopted settled l p held offered adopts =>
          exact absurd ⟨settled, l, p, held, offered, adopts⟩ keeps

theorem core_legacyOffer (L : Ledger) (o : Offer) :
    coreOf ((L.legacyOffer o).reg o.slot) = (coreOf (L.reg o.slot)).settle o.isMiss o.block := by
  unfold Ledger.legacyOffer
  simp only [Ledger.reg_setReg, if_true, coreOf_settleParts]
  split
  · next settled => rw [Core.settle_of_final (final_coreOf.mpr settled)]
  · next open_ => exact coreOf_promoted open_ o.isMiss o.block

/-- An act that says nothing about the verdict of the slot. -/
def Silent (s : Slot) : Act → Prop
  | .final t _ _ _ => t ≠ s
  | .peer o => o.slot ≠ s
  | .legacy o => o.slot ≠ s
  | .forced t _ _ => t ≠ s
  | _ => True

theorem core_step_of_silent {L : Ledger} {s : Slot} {a : Act} (silent : Silent s a) :
    coreOf ((L.step a).reg s) = coreOf (L.reg s) := by
  have moved := regMove_step L a s
  generalize (L.step a).reg s = r at moved ⊢
  cases moved with
  | same => rfl
  | body shipped here =>
      unfold Register.sawBody coreOf
      dsimp only
      split
      · next unknown => simp [unknown]
      · rfl
  | candidate trail =>
      unfold Register.sawCandidate
      split
      · rfl
      · next open_ => simp [coreOf, open_]
  | transfers => rfl
  | final isMiss block trail => exact absurd rfl silent
  | peer o r here reconciled => exact absurd here silent
  | legacy o here => exact absurd here silent
  | forced v trail stands => exact absurd rfl silent

/-! ## Side by side

The full run on the left, the run without legacy patches on the right. -/

/-- What holds of the two slots whatever the verdicts are: the left one is FINAL first, and as long
as it is not they are alike. -/
structure Paired (c d : Core) : Prop where
  first : d.final = true → c.final = true
  alike : c.final = false → c = d

/-- Once the run without the archive has settled the slot, the verdicts are the same. -/
def Agree (c d : Core) : Prop := d.final = true → c = d

/-- A legacy verdict that is already in place is that of a frame or an answer, or gives way to it. And
a settled verdict gives way to an answer on both sides or on none. -/
def Yields (s : Slot) (L M : Ledger) : Act → Prop
  | .final t isMiss block _ => t = s → (M.reg s).status ≠ .final → (L.reg s).status = .final →
      coreOf (L.reg s) = (coreOf (M.reg s)).settle isMiss block
  | .peer o => o.slot = s →
      if (M.reg s).status = .final then (Overrides L o ↔ Overrides M o)
      else (L.reg s).status = .final →
        coreOf (L.reg s) = (coreOf (M.reg s)).settle o.isMiss o.block ∨
          Overrides L o ∧ (o.isMiss = true → (M.reg s).finalBlockId = none)
  | .forced t v _ => t = s → (M.reg s).status ≠ .final → (L.reg s).status = .final →
      (L.reg s).verdict = some v → coreOf (L.reg s) = coreOf (.forcedTo v none)
  | _ => True

section Pair

variable {s : Slot} {L M : Ledger}

theorem verdict_of_core {r r' : Register} (same : coreOf r = coreOf r') : r.verdict = r'.verdict := by
  have miss : r.isMiss = r'.isMiss := congrArg Core.isMiss same
  have block : r.finalBlockId = r'.finalBlockId := congrArg Core.block same
  rw [Register.verdict, Register.verdict, miss, block]

/-- Settling is the same on both sides unless the left one was settled before. -/
theorem agree_settle_iff {c d : Core} (paired : Paired c d) (agree : Agree c d) (isMiss : Bool)
    (block : Option BlockId) :
    Agree (c.settle isMiss block) (d.settle isMiss block) ↔
      (d.final = false → c.final = true → c = d.settle isMiss block) := by
  have settled := d.final_settle isMiss block
  unfold Agree
  cases right : d.final with
  | true =>
      obtain rfl := agree right
      simp
  | false =>
      cases left : c.final with
      | false =>
          obtain rfl := paired.alike left
          simp
      | true =>
          rw [Core.settle_of_final left]
          simp [settled]

theorem paired_settle (c d : Core) (isMiss : Bool) (block : Option BlockId) :
    Paired (c.settle isMiss block) (d.settle isMiss block) where
  first _ := c.final_settle isMiss block
  alike still := absurd (c.final_settle isMiss block) (by simp [still])

/-- An offer that overrides has a verdict of its own. -/
theorem exists_verdict_of_overrides {o : Offer} (overrides : Overrides L o) :
    ∃ p, o.verdict = some p ∧ (L.reg o.slot).verdict ≠ some p := by
  obtain ⟨settled, l, p, held, offered, adopts⟩ := overrides
  refine ⟨p, offered, fun same => adopts.1 ?_⟩
  exact Option.some.inj (held.symm.trans same)

theorem core_ne_of_overrides {o : Offer} (overrides : Overrides L o) :
    coreOf ((L.peerOffer o).reg o.slot) ≠ coreOf (L.reg o.slot) := by
  intro same
  obtain ⟨p, offered, differ⟩ := exists_verdict_of_overrides overrides
  obtain ⟨settled, l, q, held, offered', adopts⟩ := overrides
  have moved := verdict_of_core same
  rw [Ledger.peerOffer_of_adopts settled held offered' adopts, (L.verdict_adopted o).2, offered] at moved
  exact differ moved.symm

/-- An open slot settled by an offer with a verdict has that verdict. -/
theorem verdict_of_settle {o : Offer} {p : Verdict} (offered : o.verdict = some p) {r r' : Register}
    (open_ : r'.status ≠ .final) (same : coreOf r = (coreOf r').settle o.isMiss o.block) :
    r.verdict = some p := by
  have promoted := verdict_of_core (same.trans (coreOf_promoted open_ o.isMiss o.block).symm)
  rw [promoted, ← offered]
  unfold Offer.verdict at offered
  cases isMiss : o.isMiss with
  | true => simp [Register.promoted, Register.verdict, Offer.verdict, isMiss]
  | false =>
      cases block : o.block with
      | none => simp [isMiss, block] at offered
      | some b => simp [Register.promoted, Register.verdict, Offer.verdict, isMiss, block]

/-- An overriding offer leaves what it makes of an open slot, but for a leftover block under a miss. -/
theorem replaced_eq_settle_iff {o : Offer} {p : Verdict} (offered : o.verdict = some p) {d : Core}
    (open_ : d.final = false) :
    (⟨true, o.isMiss, if o.isMiss then none else o.block⟩ : Core) = d.settle o.isMiss o.block ↔
      (o.isMiss = true → d.block = none) := by
  simp only [Core.settle, open_, Bool.false_eq_true, if_false]
  unfold Offer.verdict at offered
  cases isMiss : o.isMiss with
  | true =>
      simp only [if_true, Core.mk.injEq, true_and, true_implies]
      exact eq_comm
  | false =>
      cases block : o.block with
      | none => simp [isMiss, block] at offered
      | some b => simp

theorem agree_peerOffer_iff {o : Offer} (paired : Paired (coreOf (L.reg o.slot)) (coreOf (M.reg o.slot)))
    (agree : Agree (coreOf (L.reg o.slot)) (coreOf (M.reg o.slot))) :
    Agree (coreOf ((L.peerOffer o).reg o.slot)) (coreOf ((M.peerOffer o).reg o.slot)) ↔
      Yields o.slot L M (.peer o) := by
  simp only [Yields, true_implies]
  by_cases right : (M.reg o.slot).status = .final
  · -- both sides are settled, with the same verdict
    rw [if_pos right]
    have same := agree (final_coreOf.mpr right)
    have left : (L.reg o.slot).status = .final := final_coreOf.mp (same ▸ final_coreOf.mpr right)
    have finalAfter : (coreOf ((M.peerOffer o).reg o.slot)).final = true := by
      by_cases overrides : Overrides M o
      · rw [core_peerOffer_of_overrides overrides]
      · rw [core_peerOffer_of_not_overrides overrides]
        exact Core.final_settle _ _ _
    have agreeIff : Agree (coreOf ((L.peerOffer o).reg o.slot)) (coreOf ((M.peerOffer o).reg o.slot)) ↔
        coreOf ((L.peerOffer o).reg o.slot) = coreOf ((M.peerOffer o).reg o.slot) :=
      ⟨fun after => after finalAfter, fun eq _ => eq⟩
    have staysLeft : ¬ Overrides L o → coreOf ((L.peerOffer o).reg o.slot) = coreOf (L.reg o.slot) :=
      fun keeps => (core_peerOffer_of_not_overrides keeps).trans
        (Core.settle_of_final (final_coreOf.mpr left) _ _)
    have staysRight : ¬ Overrides M o → coreOf ((M.peerOffer o).reg o.slot) = coreOf (M.reg o.slot) :=
      fun keeps => (core_peerOffer_of_not_overrides keeps).trans
        (Core.settle_of_final (final_coreOf.mpr right) _ _)
    rw [agreeIff]
    by_cases onLeft : Overrides L o <;> by_cases onRight : Overrides M o
    · rw [core_peerOffer_of_overrides onLeft, core_peerOffer_of_overrides onRight]
      simp [onLeft, onRight]
    · have moved := core_ne_of_overrides onLeft
      rw [staysRight onRight, ← same]
      simp [onLeft, onRight, moved]
    · have moved := core_ne_of_overrides onRight
      rw [staysLeft onLeft, same]
      simp [onLeft, onRight, Ne.symm moved]
    · rw [staysLeft onLeft, staysRight onRight]
      simp [onLeft, onRight, same]
  · rw [if_neg right]
    have open_ : (coreOf (M.reg o.slot)).final = false := by simpa [coreOf] using right
    have keepsRight : ¬ Overrides M o := fun overrides => right overrides.1
    rw [core_peerOffer_of_not_overrides keepsRight]
    by_cases onLeft : Overrides L o
    · obtain ⟨p, offered, differ⟩ := exists_verdict_of_overrides onLeft
      have apart : coreOf (L.reg o.slot) ≠ (coreOf (M.reg o.slot)).settle o.isMiss o.block :=
        fun same => differ (verdict_of_settle offered right same)
      rw [core_peerOffer_of_overrides onLeft]
      have agreeIff : Agree ⟨true, o.isMiss, if o.isMiss then none else o.block⟩
          ((coreOf (M.reg o.slot)).settle o.isMiss o.block) ↔ _ :=
        ⟨fun after => after (Core.final_settle _ _ _), fun eq _ => eq⟩
      rw [agreeIff, replaced_eq_settle_iff offered open_]
      simp only [onLeft.1, true_implies, apart, false_or, onLeft, true_and]
      rfl
    · rw [core_peerOffer_of_not_overrides onLeft, agree_settle_iff paired agree, open_]
      simp only [true_implies, onLeft, false_and, or_false, final_coreOf]

theorem core_forced (L : Ledger) (s : Slot) (v : Verdict) (trail : Option String) :
    coreOf ((L.step (.forced s v trail)).reg s) =
      if (L.reg s).status = .final ∧ (L.reg s).verdict = some v then coreOf (L.reg s)
      else coreOf (.forcedTo v none) := by
  rw [Ledger.step]
  split
  · rfl
  · rw [Ledger.reg_setReg, if_pos rfl]
    cases v <;> rfl

theorem agree_forced_iff {v : Verdict} {trail : Option String}
    (agree : Agree (coreOf (L.reg s)) (coreOf (M.reg s))) :
    Agree (coreOf ((L.step (.forced s v trail)).reg s)) (coreOf ((M.step (.forced s v trail)).reg s)) ↔
      Yields s L M (.forced s v trail) := by
  have final : (coreOf (.forcedTo v none)).final = true := by cases v <;> rfl
  simp only [Yields, true_implies, core_forced]
  by_cases right : (M.reg s).status = .final
  · have same := agree (final_coreOf.mpr right)
    have left : (L.reg s).status = .final := final_coreOf.mp (same ▸ final_coreOf.mpr right)
    rw [verdict_of_core same]
    simp [right, left, same, Agree]
  · have open_ : ¬ ((M.reg s).status = .final ∧ (M.reg s).verdict = some v) := fun both => right both.1
    rw [if_neg open_]
    have agreeIff : ∀ c, Agree c (coreOf (.forcedTo v none)) ↔ c = coreOf (.forcedTo v none) :=
      fun c => ⟨fun after => after final, fun eq _ => eq⟩
    rw [agreeIff]
    split
    · next both => simp [right, both.1, both.2]
    · next apart =>
        refine iff_of_true rfl fun _ left verdict => absurd ⟨left, verdict⟩ apart

theorem agree_final_iff {isMiss : Bool} {block : Option BlockId} {trail : Option String}
    (normal : isMiss = true → block = none)
    (paired : Paired (coreOf (L.reg s)) (coreOf (M.reg s)))
    (agree : Agree (coreOf (L.reg s)) (coreOf (M.reg s))) :
    Agree (coreOf ((L.step (.final s isMiss block trail)).reg s))
        (coreOf ((M.step (.final s isMiss block trail)).reg s)) ↔
      Yields s L M (.final s isMiss block trail) := by
  have core : ∀ L : Ledger, coreOf ((L.step (.final s isMiss block trail)).reg s) =
      (coreOf (L.reg s)).settle isMiss block := by
    intro L
    rw [Ledger.step, Ledger.reg_setReg, if_pos rfl, coreOf_sawFinal _ trail normal]
  rw [core, core, agree_settle_iff paired agree]
  simp [Yields, coreOf]

/-- Whatever speaks about the slot leaves it FINAL. -/
theorem final_of_loud {a : Act} (loud : ¬ Silent s a) :
    (coreOf ((L.step a).reg s)).final = true := by
  cases a with
  | final t isMiss block trail =>
      obtain rfl : t = s := not_not.mp loud
      rw [final_coreOf, Ledger.step, Ledger.reg_setReg, if_pos rfl]
      unfold Register.sawFinal
      split
      · next settled => split <;> exact settled
      · rfl
  | peer o =>
      obtain rfl : o.slot = s := not_not.mp loud
      rw [Ledger.step]
      by_cases overrides : Overrides L o
      · rw [core_peerOffer_of_overrides overrides]
      · rw [core_peerOffer_of_not_overrides overrides]
        exact Core.final_settle _ _ _
  | legacy o =>
      obtain rfl : o.slot = s := not_not.mp loud
      rw [Ledger.step, core_legacyOffer]
      exact Core.final_settle _ _ _
  | forced t v trail =>
      obtain rfl : t = s := not_not.mp loud
      rw [core_forced]
      split
      · next both => exact final_coreOf.mpr both.1
      · cases v <;> rfl
  | _ => exact absurd trivial loud

theorem paired_of_final {c d : Core} (final : c.final = true) : Paired c d :=
  ⟨fun _ => final, fun open_ => absurd (final.symm.trans open_) (by decide)⟩

theorem yields_of_silent {a : Act} (silent : Silent s a) : Yields s L M a := by
  cases a with
  | final t isMiss block trail => exact fun here => absurd here silent
  | peer o => exact fun here => absurd here silent
  | forced t v trail => exact fun here => absurd here silent
  | _ => trivial

/-- What both sides hear: they agree afterwards exactly when the left verdict yields. -/
theorem agree_step_iff {a : Act} (normal : a.Normal) (heard : ∀ o, a ≠ .legacy o)
    (paired : Paired (coreOf (L.reg s)) (coreOf (M.reg s)))
    (agree : Agree (coreOf (L.reg s)) (coreOf (M.reg s))) :
    Agree (coreOf ((L.step a).reg s)) (coreOf ((M.step a).reg s)) ↔ Yields s L M a := by
  by_cases silent : Silent s a
  · rw [core_step_of_silent silent, core_step_of_silent silent]
    exact iff_of_true agree (yields_of_silent silent)
  · cases a with
    | final t isMiss block trail =>
        obtain rfl : t = s := not_not.mp silent
        exact agree_final_iff normal paired agree
    | peer o =>
        obtain rfl : o.slot = s := not_not.mp silent
        exact agree_peerOffer_iff paired agree
    | forced t v trail =>
        obtain rfl : t = s := not_not.mp silent
        exact agree_forced_iff agree
    | legacy o => exact absurd rfl (heard o)
    | _ => exact absurd trivial silent

end Pair

/-! ## Over a run -/

def isLegacy (e : Timed) : Bool :=
  match e.event with
  | .legacyPatch _ => true
  | _ => false

/-- The verdict fields of a row. -/
def verdictAt (db : Db) (s : Slot) : Option (Bool × Option BlockId) :=
  (db.readSlot s).map fun row => (row.isMiss, row.finalBlockId)

abbrev coreAt (db : Db) (s : Slot) : Core := coreOf ((ledgerOf db).reg s)

theorem verdictAt_of_final {db : Db} {s : Slot} (final : (coreAt db s).final = true) :
    verdictAt db s = some ((coreAt db s).isMiss, (coreAt db s).block) := by
  obtain ⟨row, found, here⟩ := exists_row_of_final (final_coreOf.mp final)
  rw [verdictAt, found, coreAt, ← here]
  rfl

theorem verdictAt_eq_iff {db db' : Db} {s : Slot} (final : (coreAt db s).final = true)
    (final' : (coreAt db' s).final = true) :
    verdictAt db s = verdictAt db' s ↔ coreAt db s = coreAt db' s := by
  rw [verdictAt_of_final final, verdictAt_of_final final', Option.some.injEq, Prod.mk.injEq,
    Core.ext_iff, final, final']
  simp

section Writers

variable [Bs58Check]

/-- An event for the slot that comes with a verdict and is not the archive's. -/
def Carries (s : Slot) (e : Timed) : Prop :=
  match e.event with
  | .exec out => ∃ isMiss block trail, execAct out = .final s isMiss block trail
  | .peerPatch resp => ∃ o, offerOf resp = some o ∧ o.slot = s
  | .forcedVerdict resp => ∃ v trail, forcedAct resp = .forced s v trail
  | _ => False

variable [DenunciationDigest]

/-- One event of the full run beside the run without the archive. -/
def pairStep (p : Db × Db) (e : Timed) : Db × Db :=
  (step p.1 e, if !isLegacy e then step p.2 e else p.2)

theorem actOf_of_isLegacy {e : Timed} (legacy : isLegacy e = true) (db : Db) :
    actOf db e = .idle ∨ ∃ o, actOf db e = .legacy o := by
  obtain ⟨event, nowMs⟩ := e
  cases event with
  | legacyPatch resp =>
      simp only [actOf]
      cases offerOf resp with
      | none => exact .inl rfl
      | some o => exact .inr ⟨o, rfl⟩
  | _ => exact absurd legacy (by simp [isLegacy])

/-- The other events are heard on both sides; those that speak about the slot carry a verdict. -/
theorem carries_iff {e : Timed} (heard : isLegacy e = false) (s : Slot) (db : Db) :
    (Carries s e ↔ ¬ Silent s (actOf db e)) ∧ ∀ o, actOf db e ≠ .legacy o := by
  obtain ⟨event, nowMs⟩ := e
  cases event with
  | block fb =>
      simp only [actOf, Carries]
      split <;> simp [Silent]
  | exec out =>
      simp only [actOf, Carries]
      unfold execAct
      split
      · simp [Silent]
      · split <;> simp [Silent]
  | transfers resp =>
      simp only [actOf, Carries, transfersAct]
      split <;> simp [Silent]
  | peerPatch resp =>
      simp only [actOf, Carries]
      cases offerOf resp <;> simp [Silent]
  | legacyPatch resp => exact absurd heard (by simp [isLegacy])
  | forcedVerdict resp =>
      simp only [actOf, Carries]
      unfold forcedAct
      split <;> simp [Silent]
  | tick => simp [actOf, Carries, Silent]

/-- Which act a verdict amounts to does not depend on the store. -/
theorem actOf_of_carries {s : Slot} {e : Timed} (carries : Carries s e) (db db' : Db) :
    actOf db e = actOf db' e := by
  obtain ⟨event, nowMs⟩ := e
  cases event with
  | block fb => exact carries.elim
  | _ => rfl

theorem paired_pairStep {s : Slot} {p : Db × Db} (e : Timed)
    (paired : Paired (coreAt p.1 s) (coreAt p.2 s)) :
    Paired (coreAt (pairStep p e).1 s) (coreAt (pairStep p e).2 s) := by
  simp only [pairStep, coreAt, ledgerOf_step]
  by_cases silent : Silent s (actOf p.1 e)
  · rw [core_step_of_silent silent]
    cases legacy : isLegacy e with
    | true => simpa using paired
    | false =>
        have quiet : Silent s (actOf p.2 e) := by
          by_contra loud
          exact ((carries_iff legacy s p.1).1.mp ((carries_iff legacy s p.2).1.mpr loud)) silent
        simp only [Bool.not_false, if_true, ledgerOf_step]
        rw [core_step_of_silent quiet]
        exact paired
  · exact paired_of_final (final_of_loud silent)

theorem agree_pairStep_iff {s : Slot} {p : Db × Db} (e : Timed)
    (paired : Paired (coreAt p.1 s) (coreAt p.2 s)) (agree : Agree (coreAt p.1 s) (coreAt p.2 s)) :
    Agree (coreAt (pairStep p e).1 s) (coreAt (pairStep p e).2 s) ↔
      Yields s (ledgerOf p.1) (ledgerOf p.2) (actOf p.1 e) := by
  simp only [pairStep, coreAt]
  cases legacy : isLegacy e with
  | true =>
      simp only [Bool.not_true, Bool.false_eq_true, if_false, ledgerOf_step]
      rcases actOf_of_isLegacy legacy p.1 with idle | ⟨o, offered⟩
      · rw [idle]
        exact iff_of_true agree trivial
      · -- the archive does not change a verdict that the other side has
        rw [offered]
        refine iff_of_true (fun final => ?_) trivial
        have same := agree final
        by_cases here : o.slot = s
        · subst here
          rw [Ledger.step, core_legacyOffer, Core.settle_of_final (paired.first final)]
          exact same
        · rw [core_step_of_silent (a := .legacy o) here]
          exact same
  | false =>
      simp only [Bool.not_false, if_true, ledgerOf_step]
      obtain ⟨carried, heard⟩ := carries_iff legacy s p.1
      by_cases carries : Carries s e
      · rw [actOf_of_carries carries p.2 p.1]
        exact agree_step_iff (normal_actOf p.1 e) heard paired agree
      · have left : Silent s (actOf p.1 e) := by
          by_contra loud
          exact carries (carried.mpr loud)
        have right : Silent s (actOf p.2 e) := by
          by_contra loud
          exact carries ((carries_iff legacy s p.2).1.mpr loud)
        rw [core_step_of_silent left, core_step_of_silent right]
        exact iff_of_true agree (yields_of_silent left)

/-- Without the archive a slot is settled exactly by the events that carry a verdict. -/
theorem final_run_iff {s : Slot} {db : Db} {events : List Timed} :
    (coreAt (run step db (events.filter (!isLegacy ·))) s).final = true ↔
      (coreAt db s).final = true ∨ ∃ e ∈ events, Carries s e := by
  induction events generalizing db with
  | nil => simp
  | cons e events ih =>
      cases legacy : isLegacy e with
      | true =>
          have none : ¬ Carries s e := by
            intro carries
            obtain ⟨event, nowMs⟩ := e
            cases event with
            | legacyPatch resp => exact carries.elim
            | _ => simp [isLegacy] at legacy
          rw [List.filter_cons_of_neg (by simp [legacy]), ih]
          simp [none]
      | false =>
          have stepped : (coreAt (step db e) s).final = true ↔
              (coreAt db s).final = true ∨ Carries s e := by
            simp only [coreAt, ledgerOf_step]
            rw [(carries_iff legacy s db).1]
            by_cases silent : Silent s (actOf db e)
            · rw [core_step_of_silent silent]
              simp [silent]
            · exact iff_of_true (final_of_loud silent) (.inr silent)
          rw [List.filter_cons_of_pos (by simp [legacy]), run_cons, ih, stepped]
          simp only [List.mem_cons, exists_eq_or_imp, or_assoc]

/-- **When the archive speaks last.** Started with the slot open, a run ends -- wherever it is cut off
after the first verdict that is not the archive's -- with the verdict of the run without the archive,
exactly when every event yields. -/
theorem legacy_lowest_iff {db : Db} {s : Slot} (open_ : ∀ row, db.readSlot s = some row → row.status ≠ .final)
    (events : List Timed) :
    (∀ before after, events = before ++ after → (∃ e ∈ before, Carries s e) →
      verdictAt (run step db before) s = verdictAt (run step db (before.filter (!isLegacy ·))) s) ↔
      Along pairStep (fun p e => Yields s (ledgerOf p.1) (ledgerOf p.2) (actOf p.1 e)) (db, db)
        events := by
  have started : ¬ (coreAt db s).final = true := by
    intro final
    obtain ⟨row, found, here⟩ := exists_row_of_final (final_coreOf.mp final)
    rw [coreAt, ← here] at final
    exact open_ row found (final_coreOf.mp final)
  have paired : ∀ before, Paired (coreAt (run pairStep (db, db) before).1 s)
      (coreAt (run pairStep (db, db) before).2 s) := fun before =>
    invariant_of_step (P := fun p : Db × Db => Paired (coreAt p.1 s) (coreAt p.2 s))
      (fun _ e => paired_pairStep e) before ⟨id, fun _ => rfl⟩
  have along := @forall_visits_iff_along _ _ pairStep
    (fun p e => Yields s (ledgerOf p.1) (ledgerOf p.2) (actOf p.1 e))
    (fun p => Paired (coreAt p.1 s) (coreAt p.2 s) ∧ Agree (coreAt p.1 s) (coreAt p.2 s))
    (fun p e holds => (and_iff_right (paired_pairStep e holds.1)).trans
      (agree_pairStep_iff e holds.1 holds.2)) (db, db) events
    ⟨⟨id, fun _ => rfl⟩, fun _ => rfl⟩
  rw [← along]
  have here : ∀ before, ((∃ e ∈ before, Carries s e) →
      verdictAt (run step db before) s = verdictAt (run step db (before.filter (!isLegacy ·))) s) ↔
      Agree (coreAt (run pairStep (db, db) before).1 s)
        (coreAt (run pairStep (db, db) before).2 s) := by
    intro before
    have first := (paired before).first
    have split := @run_filter _ _ step (!isLegacy ·) db db before
    change run pairStep (db, db) before = _ at split
    rw [split] at first ⊢
    rw [Agree, final_run_iff, or_iff_right started]
    refine imp_congr_ctx Iff.rfl fun carries => ?_
    have final : (coreAt (run step db (before.filter (!isLegacy ·))) s).final = true :=
      final_run_iff.mpr (.inr carries)
    exact verdictAt_eq_iff (first final) final
  constructor
  · rintro same p ⟨before, after, whole, rfl⟩
    exact ⟨paired before, (here before).mp (same before after whole)⟩
  · intro holds before after whole
    exact (here before).mpr (holds _ ⟨before, after, whole, rfl⟩).2

end Writers

/-! ## The archive first -/

section First

attribute [local instance] Bs58Check.doubleSha noDenunciations

/-- The archive has no row for a slot that the node then finalises with a block. -/
def archiveFirst : List Timed :=
  [⟨.legacyPatch (answerOf ⟨10, 0⟩ .miss none), 0⟩, ⟨.exec (frameOf ⟨10, 0⟩ (.block (blockNo 1))), 0⟩]

/-- **The archive's miss stands against the node's block.** -/
theorem legacy_not_lowest : ¬ ∀ (db : Db) (s : Slot) (events : List Timed),
    (∀ row, db.readSlot s = some row → row.status ≠ .final) → (∃ e ∈ events, Carries s e) →
    verdictAt (run step db events) s = verdictAt (run step db (events.filter (!isLegacy ·))) s := by
  intro lowest
  have carries : Carries ⟨10, 0⟩ ⟨.exec (frameOf ⟨10, 0⟩ (.block (blockNo 1))), 0⟩ :=
    ⟨_, _, _, execAct_frameOf _ _⟩
  have same := lowest Db.empty ⟨10, 0⟩ archiveFirst (by simp [Db.empty, Db.readSlot])
    ⟨_, by simp [archiveFirst], carries⟩
  have kept : archiveFirst.filter (!isLegacy ·) =
      [⟨.exec (frameOf ⟨10, 0⟩ (.block (blockNo 1))), 0⟩] := rfl
  have full : coreAt (run step Db.empty archiveFirst) ⟨10, 0⟩ = ⟨true, true, none⟩ := by
    rw [coreAt, archiveFirst, run_cons, run_cons, run_nil, ledgerOf_step_exec,
      ledgerOf_step_legacyPatch, ledgerOf_empty]
    decide +kernel
  have without : coreAt (run step Db.empty (archiveFirst.filter (!isLegacy ·))) ⟨10, 0⟩ =
      ⟨true, false, some (blockNo 1)⟩ := by
    rw [kept, coreAt, run_cons, run_nil, ledgerOf_step_exec, ledgerOf_empty]
    decide +kernel
  rw [verdictAt_eq_iff (by rw [full]) (by rw [without]), full, without] at same
  exact absurd same (by decide)

/-- Two answers of one voice: the archive's block and the node's. -/
theorem legacy_lowest_iff_sameBlock :
    (∀ row, Db.empty.readSlot ⟨10, 0⟩ = some row → row.status ≠ .final) ∧
      ((∀ before after,
          [⟨.legacyPatch (answerOf ⟨10, 0⟩ (.block (blockNo 1)) none), 0⟩,
            ⟨.exec (frameOf ⟨10, 0⟩ (.block (blockNo 1))), 0⟩] = before ++ after →
          (∃ e ∈ before, Carries ⟨10, 0⟩ e) →
          verdictAt (run step Db.empty before) ⟨10, 0⟩ =
            verdictAt (run step Db.empty (before.filter (!isLegacy ·))) ⟨10, 0⟩) ↔
        Along pairStep (fun p e => Yields ⟨10, 0⟩ (ledgerOf p.1) (ledgerOf p.2) (actOf p.1 e))
          (Db.empty, Db.empty)
          [⟨.legacyPatch (answerOf ⟨10, 0⟩ (.block (blockNo 1)) none), 0⟩,
            ⟨.exec (frameOf ⟨10, 0⟩ (.block (blockNo 1))), 0⟩]) := by
  have unknown : ∀ row, Db.empty.readSlot ⟨10, 0⟩ = some row → row.status ≠ .final := by
    simp [Db.empty, Db.readSlot]
  exact ⟨unknown, legacy_lowest_iff unknown _⟩

end First

end MassaIndexer.Laws.LegacyPrecedence
