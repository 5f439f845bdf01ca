/-
# Laws.BodyStored -- what the body flag of a settled slot is worth

`blockBodyStored` on a FINAL slot with a block should mean that the body of exactly that block is
held; backfill never asks again. The handlers set the flag whenever a body of the slot comes in, or
find it set by an earlier candidate, and do not compare. `BodyFits` is the comparison they leave out:
a run keeps the flag sound exactly when each of its events passes it.
-/
import MassaIndexer.Chain.Snapshot

namespace MassaIndexer.Laws.BodyStored

open MassaIndexer.Theory.Runs
open MassaIndexer.Data.Ids MassaIndexer.Data.Model MassaIndexer.Chain
open MassaIndexer.Store.ColumnFamilies MassaIndexer.Writer.Shared MassaIndexer.Writer.Step
open MassaIndexer.Peer.Arbiter MassaIndexer.Peer.Patch

set_option autoImplicit false

/-! ## On the ledger -/

/-- A settled slot whose body flag is set has a block, and we hold its body. -/
def BodySound (L : Ledger) (s : Slot) : Prop :=
  (L.reg s).status = .final → (L.reg s).isMiss = false →
    (L.reg s).completeness.blockBodyStored = true →
    ∃ b, (L.reg s).finalBlockId = some b ∧ L.holds b

/-- There is a block, and its body is held or comes in. -/
def Backed (L : Ledger) (incoming : Option Shipment) (block : Option BlockId) : Prop :=
  ∃ b, block = some b ∧ (L.holds b ∨ ∃ shipped, incoming = some shipped ∧ shipped.id = b)

/-- The block a peer's offer leaves the slot with, compared with the body that comes with it. -/
structure PeerFits (L : Ledger) (o : Offer) : Prop where
  /-- An open slot takes the offered block, and may have had its flag set by a candidate. -/
  promoted : (L.reg o.slot).status ≠ .final → o.isMiss = false →
    (L.reg o.slot).completeness.blockBodyStored = true ∨ o.shipped.isSome →
    Backed L o.shipped o.block
  /-- A settled slot keeps its block, whatever body is shipped. -/
  agreed : (L.reg o.slot).status = .final → (L.reg o.slot).isMiss = false → ¬ Disputed L o →
    ¬ Register.Clash (L.reg o.slot).trail o.trail → o.isMiss = true ∨ o.shipped.isSome →
    Backed L o.delivered (L.reg o.slot).finalBlockId
  /-- An adopted verdict starts without the flag. -/
  adopted : (L.reg o.slot).status = .final → o.isMiss = false → o.shipped.isSome →
    ∀ l p, (L.reg o.slot).verdict = some l → o.verdict = some p →
      L.Adopts o.slot l p o.shipped → Backed L o.shipped o.block

/-- The same for a legacy offer, whose body is entered only where the flag was not set. -/
structure LegacyFits (L : Ledger) (o : Offer) : Prop where
  promoted : (L.reg o.slot).status ≠ .final → o.isMiss = false →
    (L.reg o.slot).completeness.blockBodyStored = true ∨ o.shipped.isSome →
    Backed L (if (L.reg o.slot).completeness.blockBodyStored then none else o.shipped) o.block
  settled : (L.reg o.slot).status = .final → (L.reg o.slot).isMiss = false → o.isMiss = false →
    o.shipped.isSome → (L.reg o.slot).completeness.blockBodyStored = false →
    Backed L o.shipped (L.reg o.slot).finalBlockId

/-- The comparison that the act leaves out. -/
def BodyFits (L : Ledger) : Act → Prop
  | .body shipped => (L.reg shipped.body.slot).status = .final →
      (L.reg shipped.body.slot).isMiss = false →
      Backed L (some shipped) (L.reg shipped.body.slot).finalBlockId
  | .final s isMiss block _ => (L.reg s).status ≠ .final → isMiss = false →
      (L.reg s).completeness.blockBodyStored = true → Backed L none block
  | .peer o => PeerFits L o
  | .legacy o => LegacyFits L o
  | _ => True

theorem holds_receive_iff {L : Ledger} {incoming : Option Shipment} {b : BlockId} :
    (L.receive incoming).holds b ↔
      L.holds b ∨ ∃ shipped, incoming = some shipped ∧ shipped.id = b := by
  cases incoming with
  | none => simp [Ledger.receive]
  | some shipped =>
      simp only [Ledger.receive, Ledger.holds, Ledger.body_addBody, Option.some.injEq,
        exists_eq_left']
      by_cases same : b = shipped.id
      · simp [same]
      · simp [same, Ne.symm same]

section Step

variable {L : Ledger} (before : ∀ s, BodySound L s)

include before

/-- Where one register changes and one body may come in, only that register is at stake. -/
theorem bodySound_iff {M : Ledger} {t : Slot} {r : Register} (incoming : Option Shipment)
    (regs : M.reg = L.reg) (bodies : M.body = (L.receive incoming).body) :
    (∀ s, BodySound (M.setReg t r) s) ↔ (r.status = .final → r.isMiss = false →
      r.completeness.blockBodyStored = true → Backed L incoming r.finalBlockId) := by
  have holds (b : BlockId) : (M.setReg t r).holds b ↔ (L.receive incoming).holds b := by
    rw [Ledger.holds, Ledger.holds, Ledger.body_setReg, bodies]
  have here : BodySound (M.setReg t r) t ↔ (r.status = .final → r.isMiss = false →
      r.completeness.blockBodyStored = true → Backed L incoming r.finalBlockId) := by
    simp only [BodySound, Backed, Ledger.reg_setReg, if_true, holds, holds_receive_iff]
  rw [← here]
  refine ⟨fun all => all t, fun atT s => ?_⟩
  by_cases same : s = t
  · exact same ▸ atT
  · intro final notMiss flag
    rw [Ledger.reg_setReg, if_neg same, regs] at final notMiss flag ⊢
    obtain ⟨b, block, held⟩ := before s final notMiss flag
    exact ⟨b, block, (holds b).mpr (Ledger.holds_receive_of_holds incoming held)⟩

/-- A register that keeps its verdict and flag raises no question. -/
theorem backed_of_same {t : Slot} {r : Register} (status : r.status = (L.reg t).status)
    (isMiss : r.isMiss = (L.reg t).isMiss) (block : r.finalBlockId = (L.reg t).finalBlockId)
    (flag : r.completeness.blockBodyStored = (L.reg t).completeness.blockBodyStored)
    (incoming : Option Shipment) : r.status = .final → r.isMiss = false →
      r.completeness.blockBodyStored = true → Backed L incoming r.finalBlockId := by
  rw [status, isMiss, block, flag]
  intro final notMiss set
  obtain ⟨b, named, held⟩ := before t final notMiss set
  exact ⟨b, named, .inl held⟩

theorem peer_step_iff (wf : L.WellFormed) (o : Offer) :
    (∀ s, BodySound (L.peerOffer o) s) ↔ PeerFits L o := by
  have taken (r : Register) (reconciled : L.reconcile o = some r) (final : r.status = .final) :
      (∀ s, BodySound (L.peerOffer o) s) ↔ (r.isMiss = false →
        r.completeness.blockBodyStored = true ∨ o.isMiss = true ∨ o.shipped.isSome →
        Backed L o.delivered r.finalBlockId) := by
    rw [Ledger.peerOffer, reconciled]
    dsimp only
    refine (bodySound_iff before _ (by rw [Ledger.reg_receive, reg_ite_raiseHead])
      (Ledger.body_receive_congr (body_ite_raiseHead L _ _) _)).trans ?_
    simp [Register.settleParts, final]
  by_cases open_ : (L.reg o.slot).status ≠ .final
  · rw [taken _ (reconcile_of_open open_) rfl]
    have blank := (wf o.slot).unsettled open_
    simp only [Register.promoted, blank.2]
    constructor
    · intro sound
      refine ⟨fun _ notMiss flag => ?_, fun final => absurd final open_,
        fun final => absurd final open_⟩
      simpa [Offer.delivered, notMiss] using sound notMiss (by simpa [notMiss] using flag)
    · intro fits notMiss flag
      simpa [Offer.delivered, notMiss] using
        fits.promoted open_ notMiss (by simpa [notMiss] using flag)
  have settled := not_not.mp open_
  by_cases disputed : Disputed L o
  · obtain ⟨l, p, held, offered, differ⟩ := id disputed
    by_cases adopts : L.Adopts o.slot l p o.shipped
    · rw [taken _ (reconcile_of_adopts settled held offered adopts) rfl]
      simp only [Register.replaced]
      constructor
      · intro sound
        refine ⟨fun h => absurd settled h, fun _ _ agreed => absurd disputed agreed,
          fun _ notMiss shipped _ _ _ _ _ => ?_⟩
        simpa [Offer.delivered, notMiss] using sound notMiss (.inr (.inr shipped))
      · intro fits notMiss flag
        have shipped : o.shipped.isSome := by simpa [notMiss] using flag
        simpa [Offer.delivered, notMiss] using
          fits.adopted settled notMiss shipped l p held offered adopts
    · rw [Ledger.peerOffer, reconcile_of_not_adopts settled held offered differ adopts]
      refine iff_of_true before ⟨fun h => absurd settled h, fun _ _ agreed => absurd disputed agreed,
        fun _ _ _ l' p' held' offered' adopts' => ?_⟩
      obtain rfl := Option.some.inj (held.symm.trans held')
      obtain rfl := Option.some.inj (offered.symm.trans offered')
      exact absurd adopts' adopts
  have noneAdopted : ∀ l p, (L.reg o.slot).verdict = some l → o.verdict = some p →
      ¬ L.Adopts o.slot l p o.shipped := fun l p held offered adopts =>
    disputed ⟨l, p, held, offered, adopts.1⟩
  by_cases clash : Register.Clash (L.reg o.slot).trail o.trail
  · rw [Ledger.peerOffer, reconcile_of_agreed settled disputed, Register.agreed, if_pos clash]
    exact iff_of_true before ⟨fun h => absurd settled h, fun _ _ _ noClash => absurd clash noClash,
      fun _ _ _ l p held offered adopts => absurd adopts (noneAdopted l p held offered)⟩
  · rw [taken _ ((reconcile_of_agreed settled disputed).trans (if_neg clash)) settled]
    constructor
    · intro sound
      exact ⟨fun h => absurd settled h, fun _ notMiss _ _ flag => sound notMiss (.inr flag),
        fun _ _ _ l p held offered adopts => absurd adopts (noneAdopted l p held offered)⟩
    · intro fits notMiss flag
      rcases flag with set | flag
      · obtain ⟨b, named, held⟩ := before o.slot settled notMiss set
        exact ⟨b, named, .inl held⟩
      · exact fits.agreed settled notMiss disputed clash flag

theorem legacy_step_iff (wf : L.WellFormed) (o : Offer) :
    (∀ s, BodySound (L.legacyOffer o) s) ↔ LegacyFits L o := by
  rw [Ledger.legacyOffer]
  refine (bodySound_iff before _ (by rw [Ledger.reg_receive, reg_ite_raiseHead])
    (Ledger.body_receive_congr (body_ite_raiseHead L _ _) _)).trans ?_
  by_cases settled : (L.reg o.slot).status = .final
  · simp only [if_pos settled, Register.settleParts, Bool.or_eq_true]
    constructor
    · intro sound
      refine ⟨fun open_ => absurd settled open_, fun _ notMiss offered shipped unset => ?_⟩
      simpa [Offer.delivered, offered, unset] using
        sound settled notMiss (.inr (by simpa [offered] using shipped))
    · intro fits final notMiss flag
      cases set : (L.reg o.slot).completeness.blockBodyStored with
      | true =>
          obtain ⟨b, named, held⟩ := before o.slot settled notMiss set
          exact ⟨b, named, .inl held⟩
      | false =>
          obtain ⟨offered, shipped⟩ : o.isMiss = false ∧ o.shipped.isSome := by
            cases isMiss : o.isMiss <;> simp_all
          simpa [Offer.delivered, offered] using fits.settled final notMiss offered shipped set
  · have blank := (wf o.slot).unsettled settled
    simp only [if_neg settled, Register.settleParts, Register.promoted, blank.2, Bool.or_eq_true,
      Option.or_none]
    constructor
    · intro sound
      refine ⟨fun _ notMiss flag => ?_, fun final => absurd final settled⟩
      have fits := sound trivial notMiss (by simpa [notMiss] using flag)
      simpa [Offer.delivered, notMiss] using fits
    · intro fits _ notMiss flag
      simpa [Offer.delivered, notMiss] using
        fits.promoted settled notMiss (by simpa [notMiss] using flag)

/-- **One act keeps the flags sound exactly when its body fits.** -/
theorem bodySound_step_iff (wf : L.WellFormed) (a : Act) :
    (∀ s, BodySound (L.step a) s) ↔ BodyFits L a := by
  cases a with
  | idle => exact iff_of_true before trivial
  | body shipped =>
      refine (bodySound_iff before (M := L.addBody shipped) (some shipped) rfl rfl).trans ?_
      have final : (L.reg shipped.body.slot).sawBody.status = .final ↔
          (L.reg shipped.body.slot).status = .final := by
        simp only [Register.sawBody]
        split
        · next unknown => simp [unknown]
        · rfl
      rw [final]
      simp [Register.sawBody, BodyFits]
  | candidate s trail =>
      refine iff_of_true ((bodySound_iff before (M := L) none rfl rfl).mpr ?_) trivial
      unfold Register.sawCandidate
      split
      · exact backed_of_same before rfl rfl rfl rfl none
      · exact fun final => absurd final (by simp)
  | final s isMiss block trail =>
      have regs : (if (L.reg s).status = .final then L else L.moveHead s).reg = L.reg := by
        split <;> rfl
      have bodies : (if (L.reg s).status = .final then L else L.moveHead s).body = L.body := by
        split <;> rfl
      refine (bodySound_iff before none regs bodies).trans ?_
      unfold Register.sawFinal
      by_cases settled : (L.reg s).status = .final
      · rw [if_pos settled]
        refine iff_of_true ?_ fun open_ => absurd settled open_
        split <;> exact backed_of_same before rfl rfl rfl rfl none
      · have blank := (wf s).unsettled settled
        rw [if_neg settled]
        simp [BodyFits, settled, blank.2]
  | transfers s =>
      refine iff_of_true ((bodySound_iff before (M := L) none rfl rfl).mpr ?_) trivial
      exact backed_of_same before rfl rfl rfl rfl none
  | peer o => exact peer_step_iff before wf o
  | legacy o => exact legacy_step_iff before wf o
  | forced s v trail =>
      refine iff_of_true ?_ trivial
      rw [Ledger.step]
      split
      · exact before
      · refine (bodySound_iff before (M := L) none rfl rfl).mpr ?_
        cases v <;> simp [Register.forcedTo, Register.replaced]

end Step

/-! ## On the store -/

section Store

/-- Every FINAL row with a block whose body flag is set names a block, whose body is in the store. -/
def FlagsSound (db : Db) : Prop :=
  ∀ s row, db.readSlot s = some row → row.status = .final → row.isMiss = false →
    row.completeness.blockBodyStored = true →
    ∃ b, row.finalBlockId = some b ∧ (db.readBlock b).isSome

theorem flagsSound_iff {db : Db} : FlagsSound db ↔ ∀ s, BodySound (ledgerOf db) s := by
  constructor
  · intro sound s final notMiss flag
    obtain ⟨row, found, here⟩ := exists_row_of_final final
    rw [← here] at final notMiss flag ⊢
    obtain ⟨b, block, held⟩ := sound s row found final notMiss flag
    exact ⟨b, block, (holds_ledgerOf db b).mpr held⟩
  · intro sound s row found final notMiss flag
    have here := sound s
    rw [BodySound, ← registerOf_of_readSlot found] at here
    obtain ⟨b, block, held⟩ := here final notMiss flag
    exact ⟨b, block, (holds_ledgerOf db b).mp held⟩

variable [Bs58Check] [DenunciationDigest]

/-- **When the body flags of a run are sound.** They are sound in every state the run passes through
exactly when every event fits the state it meets. -/
theorem body_flags_sound_iff (events : List Timed) :
    (∀ db, Visits step Db.empty events db → FlagsSound db) ↔
      Along step (fun db e => BodyFits (ledgerOf db) (actOf db e)) Db.empty events := by
  rw [← throughout_iff_along (P := fun L => ∀ s, BodySound L s)
    (fun _ a wf before => bodySound_step_iff before wf a)
    (fun s final => absurd final (by simp [Ledger.blank, Register.blank])) events]
  exact forall_congr' fun db => imp_congr_right fun _ => flagsSound_iff

end Store

/-! ## The body of another block -/

section AnotherBlock

attribute [local instance] Bs58Check.doubleSha noDenunciations

/-- A peer settles a slot without shipping the body, then the archive ships another block for it. -/
def anotherBlock : List Timed :=
  [⟨.peerPatch (answerOf ⟨10, 0⟩ (.block (blockNo 1)) none), 0⟩,
    ⟨.legacyPatch (answerOf ⟨10, 0⟩ (.block (blockNo 2))
      (some (bareBlock (blockNo 2) ⟨10, 0⟩ [blockNo 0]))), 0⟩]

theorem ledgerOf_anotherBlock : ledgerOf (ingest anotherBlock) =
    (Ledger.blank.peerOffer (answerOffer ⟨10, 0⟩ (.block (blockNo 1)) none)).legacyOffer
      (answerOffer ⟨10, 0⟩ (.block (blockNo 2))
        (some (bareBlock (blockNo 2) ⟨10, 0⟩ [blockNo 0]))) := by
  rw [anotherBlock, ingest, run_cons, run_cons, run_nil, ledgerOf_step_legacyPatch,
    ledgerOf_step_peerPatch, ledgerOf_empty]

/-- **A flag hides a missing body.** The flag is set by the archive's block, and the body of the block
the slot is settled with is nowhere. -/
theorem body_flags_not_sound : ¬ ∀ events, FlagsSound (ingest events) := by
  intro sound
  have here := flagsSound_iff.mp (sound anotherBlock) ⟨10, 0⟩
  rw [BodySound, ledgerOf_anotherBlock] at here
  obtain ⟨b, block, held⟩ := here (by decide +kernel) (by decide +kernel) (by decide +kernel)
  obtain rfl : blockNo 1 = b := Option.some.inj ((by decide +kernel : _ = _).trans block)
  unfold Ledger.holds at held
  exact absurd held (by decide +kernel)

end AnotherBlock

end MassaIndexer.Laws.BodyStored
