/-
# Laws.Oscillation -- two peers, one slot

A peer's verdict was adopted for a slot, and another peer answers with the verdict it replaced. The
arbiter checks whether the chain ahead speaks for the newcomer, never whether it also spoke for what
stood there before, so the slot can go back: the new verdict stands exactly when nothing ahead bears
the old one out.
-/
import MassaIndexer.Chain.Snapshot

namespace MassaIndexer.Laws.Oscillation

open MassaIndexer.Theory.LinkWalk
open MassaIndexer.Data.Ids MassaIndexer.Data.Model MassaIndexer.Data.Proto MassaIndexer.Chain
open MassaIndexer.Store.ColumnFamilies MassaIndexer.Writer.Shared MassaIndexer.Writer.Step
open MassaIndexer.Peer.Arbiter MassaIndexer.Peer.Patch

set_option autoImplicit false

/-! ## What an adopted verdict rests on -/

/-- The rows ahead continue `new` without a break, or break where nothing leads back to the block of
the other verdict. -/
def Continues (L : Ledger) (s : Slot) (new : Verdict) : Verdict → Prop
  | .miss => Unbroken (L.link s.thread) (L.standing s new) (L.ahead s)
  | .block x => ∀ a, L.anchor s new = some a → ¬ L.Reaches s.thread a x

/-- The adopted verdict `new` of a slot is safe from the verdict `old` it replaced. Either the block of
`old` is shipped with a dead body, or the block of `new` is not dead and the blocks ahead do not bear
`old` out: the next one does not speak for it, and they continue `new`. -/
def Stands (L : Ledger) (s : Slot) (new old : Verdict) (shipped : Option Shipment) : Prop :=
  L.DeadShipment old shipped ∨
    ¬ L.DeadVerdict new ∧
      ∀ n, L.nextLink s = some n → ¬ L.NextSpeaks s n new old ∧ Continues L s new old

theorem not_adopts_iff_stands {L : Ledger} {s : Slot} {new old : Verdict} (differ : new ≠ old)
    (shipped : Option Shipment) : ¬ L.Adopts s new old shipped ↔ Stands L s new old shipped := by
  have unbroken : L.anchor s new = none ↔
      Unbroken (L.link s.thread) (L.standing s new) (L.ahead s) := firstBreak_eq_none_iff
  have continues : (¬ ∃ a, L.anchor s new = some a ∧ L.Rejoins s a old) ↔ Continues L s new old := by
    cases old with
    | miss =>
        rw [Continues, ← unbroken]
        simp [Ledger.Rejoins, Option.eq_none_iff_forall_ne_some]
    | block x => simp [Continues, Ledger.Rejoins]
  constructor
  · intro keeps
    by_cases dead : L.DeadShipment old shipped
    · exact .inl dead
    refine .inr ⟨fun deadNew => keeps ⟨differ, dead, .inl deadNew⟩, fun n next => ⟨fun speaks => ?_, ?_⟩⟩
    · exact keeps ⟨differ, dead, .inr ⟨n, next, .inl speaks⟩⟩
    · exact continues.mp fun rejoins => keeps ⟨differ, dead, .inr ⟨n, next, .inr rejoins⟩⟩
  · rintro (dead | ⟨alive, ahead⟩) ⟨-, shippedAlive, reason⟩
    · exact shippedAlive dead
    · rcases reason with dead | ⟨n, next, speaks | rejoins⟩
      · exact alive dead
      · exact (ahead n next).1 speaks
      · exact continues.mpr (ahead n next).2 rejoins

/-! ## On the store -/

section Store

variable [Bs58Check]

/-- A response that carries a FINAL verdict for a slot. -/
structure Proposes (resp : FinalSlotResponse) (s : Slot) (v : Verdict) : Prop where
  about : slotOf resp = some s
  known : resp.finalKnown = true
  verdict : Verdict.ofPeer resp (parseFinalBlockId resp) = some v

variable [DenunciationDigest]

/-- **When a slot does not go back.** A response was adopted over the verdict `old` of a slot; another
response proposes `old` again. The slot keeps the new verdict exactly when that verdict stands on the
ledger in which the adopted response has settled it. -/
theorem counter_offer_refused_iff {db : Db} {s : Slot} {row : SlotState} {old new : Verdict}
    (found : db.readSlot s = some row) (final : row.status = .final)
    (held : Verdict.ofLocal row = some old) {resp back : FinalSlotResponse}
    (proposed : Proposes resp s new)
    (adopted : arbitrateVerdicts db s old new (shippedBlock resp) = .adoptPeer)
    (proposedBack : Proposes back s old) (nowMs nowMs' : Int) :
    (∃ row', (applyPeerPatch (applyPeerPatch db resp nowMs).1 back nowMs').1.readSlot s = some row' ∧
        row'.status = .final ∧ Verdict.ofLocal row' = some new) ↔
      Stands ((ledgerOf db).settle s new (offerAt s resp).delivered) s new old
        ((shippedBlock back).map shipmentOf) := by
  have adopts := (arbitrateVerdicts_eq_adoptPeer_iff db s old new (shippedBlock resp)).mp adopted
  have differ : new ≠ old := fun same => adopts.1 same.symm
  have settled : ((ledgerOf db).reg s).status = .final := by
    rw [← registerOf_of_readSlot found]
    exact final
  have standing : ((ledgerOf db).reg s).verdict = some old := by
    rw [← registerOf_of_readSlot found]
    exact held
  have first : ledgerOf (applyPeerPatch db resp nowMs).1 = (ledgerOf db).adopted (offerAt s resp) :=
    (ledgerOf_applyPeerPatch proposed.about proposed.known db nowMs).trans
      (Ledger.peerOffer_of_adopts (o := offerAt s resp) settled standing proposed.verdict adopts)
  obtain ⟨settled', verdict'⟩ := (ledgerOf db).verdict_adopted (offerAt s resp)
  have standing' : (((ledgerOf db).adopted (offerAt s resp)).reg s).verdict = some new :=
    verdict'.trans proposed.verdict
  have second := ledgerOf_applyPeerPatch proposedBack.about proposedBack.known
    (applyPeerPatch db resp nowMs).1 nowMs'
  rw [first] at second
  have alike : ((ledgerOf db).adopted (offerAt s resp)).bare =
      ((ledgerOf db).settle s new (offerAt s resp).delivered).bare :=
    Ledger.bare_adopted (o := offerAt s resp) proposed.verdict
  rw [exists_row_with_verdict_iff, second, ← not_adopts_iff_stands differ, ← Ledger.adopts_bare,
    ← alike, Ledger.adopts_bare]
  generalize (ledgerOf db).adopted (offerAt s resp) = L at settled' standing'
  constructor
  · rintro ⟨-, verdict⟩ adoptsBack
    have moved : L.peerOffer (offerAt s back) = L.adopted (offerAt s back) :=
      Ledger.peerOffer_of_adopts (o := offerAt s back) settled' standing' proposedBack.verdict adoptsBack
    rw [Ledger.step, moved] at verdict
    have gone := (L.verdict_adopted (offerAt s back)).2.trans proposedBack.verdict
    exact differ (Option.some.inj (verdict.symm.trans gone))
  · intro keeps
    have kept : L.peerOffer (offerAt s back) = L :=
      Ledger.peerOffer_of_not_adopts (o := offerAt s back) settled' standing' proposedBack.verdict
        differ keeps
    rw [Ledger.step, kept]
    exact ⟨settled', standing'⟩

end Store

/-! ## Back and forth -/

section Gap

attribute [local instance] Bs58Check.doubleSha noDenunciations

/-- A block, its successor, and two periods later a block whose parent never came in. -/
def gapAnswers : List (Slot × Verdict × Option StoredBlock) :=
  [(⟨10, 0⟩, .block (blockNo 1), none),
    (⟨11, 0⟩, .block (blockNo 2), some (bareBlock (blockNo 2) ⟨11, 0⟩ [blockNo 1])),
    (⟨13, 0⟩, .block (blockNo 4), some (bareBlock (blockNo 4) ⟨13, 0⟩ [blockNo 3]))]

/-- The replaced verdict again, with its body. -/
def gapBack : FinalSlotResponse :=
  answerOf ⟨10, 0⟩ (.block (blockNo 1)) (some (bareBlock (blockNo 1) ⟨10, 0⟩ [blockNo 0]))

theorem exists_row_gap : ∃ row, (ingestAnswers gapAnswers).readSlot ⟨10, 0⟩ = some row ∧
    row.status = .final ∧ Verdict.ofLocal row = some (.block (blockNo 1)) := by
  rw [exists_row_with_verdict_iff, ledgerOf_ingestAnswers]
  decide +kernel

theorem adopted_gap : arbitrateVerdicts (ingestAnswers gapAnswers) ⟨10, 0⟩ (.block (blockNo 1)) .miss
    (shippedBlock (answerOf ⟨10, 0⟩ .miss none)) = .adoptPeer := by
  rw [arbitrateVerdicts_eq_adoptPeer_iff, ledgerOf_ingestAnswers]
  decide +kernel

/-- **A slot goes back and forth.** The walk over the gap speaks for a miss, whoever stands at the
slot, and the next block speaks for the block it builds on. -/
theorem counter_offer_not_refused :
    ¬ ∀ (events : List Timed) (s : Slot) (row : SlotState) (old new : Verdict)
        (resp back : FinalSlotResponse) (nowMs nowMs' : Int),
        (ingest events).readSlot s = some row → row.status = .final →
        Verdict.ofLocal row = some old → Proposes resp s new →
        (∀ b, shippedBlock resp = some b → new = .block b.id) →
        arbitrateVerdicts (ingest events) s old new (shippedBlock resp) = .adoptPeer →
        Proposes back s old → (∀ x, old = .block x → ∃ b, shippedBlock back = some b ∧ b.id = x) →
        ∃ row', (applyPeerPatch (applyPeerPatch (ingest events) resp nowMs).1 back nowMs').1.readSlot s =
            some row' ∧ row'.status = .final ∧ Verdict.ofLocal row' = some new := by
  intro stays
  obtain ⟨row, found, final, held⟩ := exists_row_gap
  have kept : ∃ row', (applyPeerPatch (applyPeerPatch (ingestAnswers gapAnswers)
      (answerOf ⟨10, 0⟩ .miss none) 0).1 gapBack 0).1.readSlot ⟨10, 0⟩ = some row' ∧
      row'.status = .final ∧ Verdict.ofLocal row' = some .miss :=
    stays _ ⟨10, 0⟩ row (.block (blockNo 1)) .miss (answerOf ⟨10, 0⟩ .miss none) gapBack 0 0
      found final held ⟨slotOf_answerOf _ _ _, rfl, ofPeer_answerOf _ _ _⟩ (by simp) adopted_gap
      ⟨slotOf_answerOf _ _ _, rfl, ofPeer_answerOf _ _ _⟩
      (fun x same => ⟨_, shippedBlock_answerOf _ _ _, Verdict.block.inj same⟩)
  rw [exists_row_with_verdict_iff, gapBack, ledgerOf_applyPeerPatch_answerOf,
    ledgerOf_applyPeerPatch_answerOf, ledgerOf_ingestAnswers] at kept
  exact absurd kept.2 (by decide +kernel)

theorem counter_offer_refused_iff_gap :
    ∃ row, (ingestAnswers gapAnswers).readSlot ⟨10, 0⟩ = some row ∧
      ((∃ row', (applyPeerPatch (applyPeerPatch (ingestAnswers gapAnswers)
          (answerOf ⟨10, 0⟩ .miss none) 0).1 gapBack 0).1.readSlot ⟨10, 0⟩ = some row' ∧
          row'.status = .final ∧ Verdict.ofLocal row' = some .miss) ↔
        Stands ((ledgerOf (ingestAnswers gapAnswers)).settle ⟨10, 0⟩ .miss
            (offerAt ⟨10, 0⟩ (answerOf ⟨10, 0⟩ .miss none)).delivered) ⟨10, 0⟩ .miss (.block (blockNo 1))
          ((shippedBlock gapBack).map shipmentOf)) := by
  obtain ⟨row, found, final, held⟩ := exists_row_gap
  exact ⟨row, found, counter_offer_refused_iff found final held
    ⟨slotOf_answerOf _ _ _, rfl, ofPeer_answerOf _ _ _⟩ adopted_gap
    ⟨slotOf_answerOf _ _ _, rfl, ofPeer_answerOf _ _ _⟩ 0 0⟩

end Gap

end MassaIndexer.Laws.Oscillation
