/-
# Laws.FinalVerdict -- a FINAL verdict changes only when it is overruled

First-final-wins over every run: once a slot is FINAL it stays FINAL, and its verdict and trail hash
move only in a step that overrules them -- an operator's verdict for the slot, or a peer's different
verdict that the arbiter adopts on the store as it stands before the step.
-/
import MassaIndexer.Chain.Refinement

namespace MassaIndexer.Laws.FinalVerdict

open MassaIndexer.Data.Ids MassaIndexer.Data.Model MassaIndexer.Chain
open MassaIndexer.Store.ColumnFamilies MassaIndexer.Peer.Arbiter MassaIndexer.Peer.Patch
open MassaIndexer.Writer.Shared MassaIndexer.Writer.Step

set_option autoImplicit false

/-! ## On the ledger -/

/-- The act overrules the register of `t`. -/
def Overrules (L : Ledger) (t : Slot) : Act → Prop
  | .forced s _ _ => s = t
  | .peer o => o.slot = t ∧ ∃ l p, (L.reg t).verdict = some l ∧ o.verdict = some p ∧
      L.Adopts t l p o.shipped
  | _ => False

/-- What first-final-wins protects. -/
structure Kept (r r' : Register) : Prop where
  isMiss : r'.isMiss = r.isMiss
  block : r'.finalBlockId = r.finalBlockId
  trail : r.trail ≠ none → r'.trail = r.trail

theorem or_of_ne_none {a : Option String} (present : a ≠ none) (b : Option String) : a.or b = a := by
  cases a with
  | none => exact absurd rfl present
  | some t => rfl

theorem Kept.refl (r : Register) : Kept r r := ⟨rfl, rfl, fun _ => rfl⟩

/-- A settled register stays settled, and keeps what is protected unless it is overruled. -/
theorem settled_of_move {L : Ledger} {t : Slot} {a : Act} {r : Register} (moved : RegMove L t a r)
    (wf : (L.reg t).WellFormed) (settled : (L.reg t).status = .final) :
    r.status = .final ∧ (¬ Overrules L t a → Kept (L.reg t) r) := by
  cases moved with
  | same _ => exact ⟨settled, fun _ => .refl _⟩
  | body _ _ =>
      refine ⟨?_, fun _ => ⟨rfl, rfl, fun _ => rfl⟩⟩
      simp [Register.sawBody, settled]
  | candidate trail =>
      rw [Register.sawCandidate, if_pos settled]
      exact ⟨settled, fun _ => .refl _⟩
  | final isMiss block trail =>
      rw [Register.sawFinal, if_pos settled]
      split
      · refine ⟨settled, fun _ => ⟨rfl, rfl, fun present => ?_⟩⟩
        dsimp only
        rw [or_of_ne_none present, wf.trail]
      · exact ⟨settled, fun _ => .refl _⟩
  | transfers => exact ⟨settled, fun _ => ⟨rfl, rfl, fun _ => rfl⟩⟩
  | peer o base here reconciled =>
      subst here
      cases reconciled with
      | promoted open_ => exact absurd settled open_
      | agreed _ _ _ =>
          exact ⟨settled, fun _ => ⟨rfl, rfl, fun present => or_of_ne_none present _⟩⟩
      | adopted _ l p held offered adopts =>
          exact ⟨rfl, fun notOverruled => absurd ⟨rfl, l, p, held, offered, adopts⟩ notOverruled⟩
  | legacy o here =>
      subst here
      rw [Ledger.legacyBase, if_pos settled]
      exact ⟨settled, fun _ => ⟨rfl, rfl, fun _ => rfl⟩⟩
  | forced v trail _ =>
      refine ⟨?_, fun notOverruled => absurd rfl notOverruled⟩
      cases v <;> rfl

/-! ## On the store -/

variable [Bs58Check] [DenunciationDigest]

/-- The event may change the FINAL verdict of the row: an operator's verdict for the slot, or a
peer's different verdict that the arbiter adopts. -/
def Overruled (db : Db) (s : Slot) (row : SlotState) (e : Timed) : Prop :=
  match e.event with
  | .forcedVerdict resp => slotOf resp = some s
  | .peerPatch resp => slotOf resp = some s ∧ ∃ localV peerV, Verdict.ofLocal row = some localV ∧
      Verdict.ofPeer resp (parseFinalBlockId resp) = some peerV ∧ localV ≠ peerV ∧
      arbitrateVerdicts db s localV peerV (shippedBlock resp) = .adoptPeer
  | _ => False

theorem overruled_of_overrules {db : Db} {s : Slot} {row : SlotState} {e : Timed}
    (held : registerOf row = (ledgerOf db).reg s)
    (overrules : Overrules (ledgerOf db) s (actOf db e)) : Overruled db s row e := by
  obtain ⟨event, nowMs⟩ := e
  cases event with
  | block fb =>
      simp only [actOf] at overrules
      split at overrules <;> exact overrules
  | exec out =>
      simp only [actOf, execAct] at overrules
      split at overrules
      · exact overrules
      · split at overrules <;> exact overrules
  | transfers resp =>
      simp only [actOf, transfersAct] at overrules
      split at overrules <;> exact overrules
  | peerPatch resp =>
      simp only [actOf, offerOf] at overrules
      split at overrules
      · cases about : slotOf resp with
        | none => rw [about] at overrules; exact overrules.elim
        | some t =>
            rw [about] at overrules
            obtain ⟨here, l, p, standing, offered, adopts⟩ := overrules
            obtain rfl : t = s := here
            rw [← held] at standing
            refine ⟨about, l, p, standing, offered, adopts.1, ?_⟩
            exact (arbitrateVerdicts_eq_adoptPeer_iff db t l p (shippedBlock resp)).mpr adopts
      · exact overrules.elim
  | legacyPatch resp =>
      simp only [actOf, offerOf] at overrules
      split at overrules
      · cases about : slotOf resp with
        | none => rw [about] at overrules; exact overrules.elim
        | some t => rw [about] at overrules; exact overrules.elim
      · exact overrules.elim
  | forcedVerdict resp =>
      simp only [actOf, forcedAct] at overrules
      split at overrules
      · next t v about target =>
          obtain rfl : t = s := overrules
          exact about
      · exact overrules.elim
  | tick => exact overrules.elim

/-- **First-final-wins.** In every run, a FINAL slot stays FINAL at the next event, and unless the
event overrules it, its verdict stays and so does its trail hash once it is known. A slot marked as a
miss has no final block. -/
theorem final_verdict_stable (events : List Timed) :
    (∀ (e : Timed) (s : Slot) (row : SlotState), (ingest events).readSlot s = some row →
      row.status = .final →
      ∃ row', (step (ingest events) e).readSlot s = some row' ∧ row'.status = .final ∧
        (¬ Overruled (ingest events) s row e →
          row'.isMiss = row.isMiss ∧ row'.finalBlockId = row.finalBlockId ∧
            (row.executionTrailHash ≠ none → row'.executionTrailHash = row.executionTrailHash))) ∧
    ∀ (s : Slot) (row : SlotState), (ingest events).readSlot s = some row → row.isMiss = true →
      row.finalBlockId = none := by
  have wf := wellFormed_ingest events
  generalize ingest events = db at wf ⊢
  refine ⟨fun e s row found final => ?_, fun s row found miss => ?_⟩
  · have held := registerOf_of_readSlot found
    have settled : ((ledgerOf db).reg s).status = .final := by rw [← held]; exact final
    have moved := regMove_step (ledgerOf db) (actOf db e) s
    rw [← ledgerOf_step] at moved
    obtain ⟨stays, kept⟩ := settled_of_move moved (wf s) settled
    obtain ⟨row', found', held'⟩ := exists_row_of_final stays
    refine ⟨row', found', ?_, fun notOverruled => ?_⟩
    · exact (congrArg Register.status held').trans stays
    · obtain ⟨isMiss, block, trail⟩ := kept fun overrules =>
        notOverruled (overruled_of_overrules held overrules)
      rw [← held, ← held'] at isMiss block trail
      exact ⟨isMiss, block, trail⟩
  · have held := registerOf_of_readSlot found
    have noBlock := (wf s).miss
    rw [← held] at noBlock
    exact noBlock miss

end MassaIndexer.Laws.FinalVerdict
