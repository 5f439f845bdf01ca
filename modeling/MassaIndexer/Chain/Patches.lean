/-
# Chain.Patches -- the patches on the ledger

A peer's answer, a legacy answer and an operator's verdict as acts of the ledger machine. A patch
works on the store, the row in hand and an outcome at once; `PatchingAt` says how such a triple reads
as a ledger and a register, and each part of a patch moves it the way the machine does.
-/
import MassaIndexer.Chain.NodeStreams
import MassaIndexer.Chain.Moves

namespace MassaIndexer.Chain

open MassaIndexer.Data.Ids MassaIndexer.Data.Model MassaIndexer.Data.Proto
open MassaIndexer.Data.Codec MassaIndexer.Store.ColumnFamilies
open MassaIndexer.Peer.Arbiter MassaIndexer.Peer.Patch MassaIndexer.Writer.Shared
open MassaIndexer.Writer.RowMoves

set_option autoImplicit false

variable [Bs58Check]

/-! ## Reading a response -/

/-- What a response says about the slot it is about. -/
def offerAt (s : Slot) (resp : FinalSlotResponse) : Offer where
  slot := s
  isMiss := resp.isMiss
  block := parseFinalBlockId resp
  trail := peerTrail resp
  shipped := (shippedBlock resp).map shipmentOf
  settlesExec := execPartPresent resp || execAsserted resp
  settlesTransfers := transfersPartPresent resp || transfersAsserted resp

/-- A response whose thread does not fit, or that knows no FINAL verdict, says nothing. -/
def offerOf (resp : FinalSlotResponse) : Option Offer :=
  if resp.finalKnown then (slotOf resp).map fun s => offerAt s resp else none

omit [Bs58Check] in
theorem readBackTrail_peerTrail (resp : FinalSlotResponse) :
    readBackTrail (peerTrail resp) = peerTrail resp := by
  unfold peerTrail
  split
  · rfl
  · next present => simp [readBackTrail, present]

omit [Bs58Check] in
theorem ledgerOf_advanceHead (db : Db) (s : Slot) :
    ledgerOf (advanceHead db s) = (ledgerOf db).raiseHead s := by
  have head : (ledgerOf db).head = db.readLastFinalSlot := rfl
  unfold advanceHead Ledger.raiseHead
  rw [head]
  cases db.readLastFinalSlot with
  | none => rfl
  | some prev =>
      dsimp only
      split <;> rfl

omit [Bs58Check] in
theorem registerOf_promote (row : SlotState) (isMiss : Bool) (block : Option BlockId) :
    registerOf (promote row isMiss block) = (registerOf row).promoted isMiss block := by
  unfold promote
  cases isMiss with
  | true => rfl
  | false =>
      cases block with
      | none => rfl
      | some b => exact registerOf_addCandidate _ b

omit [Bs58Check] in
theorem ledgerOf_applyOperation (db : Db) (pb : StoredOperationPb) :
    ledgerOf (applyOperation db pb) = ledgerOf db := by
  unfold applyOperation
  split
  · rfl
  · split
    · rfl
    · dsimp only
      split <;> rfl

omit [Bs58Check] in
theorem ledgerOf_applyEndorsement (db : Db) (pb : StoredEndorsementPb) :
    ledgerOf (applyEndorsement db pb) = ledgerOf db := by
  unfold applyEndorsement
  split
  · rfl
  · exact ledgerOf_writeEndorsement db _

section Patches

variable [DenunciationDigest]

/-- The block part enters the shipped body and nothing else. -/
theorem ledgerOf_applyBlockPart (db : Db) (resp : FinalSlotResponse) (nowMs : Int) :
    ledgerOf (applyBlockPart db resp nowMs).1 =
      (ledgerOf db).receive ((shippedBlock resp).map shipmentOf) := by
  unfold applyBlockPart
  cases shippedBlock resp with
  | none => rfl
  | some block =>
      dsimp only
      rw [ledgerOf_foldl (fun db d => ledgerOf_writeDenunciation db _),
        ledgerOf_foldl ledgerOf_applyEndorsement, ledgerOf_foldl ledgerOf_applyOperation]
      split
      · next absent => exact ledgerOf_writeBlock_new (Option.isNone_iff_eq_none.mp absent)
      · next present =>
          have held : (ledgerOf db).holds block.id := by
            rw [holds_ledgerOf]
            exact Option.isSome_iff_ne_none.mpr fun absent => present (by simp [absent])
          exact (Ledger.addBody_held (s := shipmentOf block) held).symm

theorem applyBlockPart_snd (db : Db) (resp : FinalSlotResponse) (nowMs : Int) :
    (applyBlockPart db resp nowMs).2 = shippedBlock resp := by
  unfold applyBlockPart
  cases shippedBlock resp <;> rfl

omit [Bs58Check] [DenunciationDigest] in
theorem ledgerOf_applyExecPart (db : Db) (s : Slot) (resp : FinalSlotResponse) :
    ledgerOf (applyExecPart db s resp) = ledgerOf db := by
  unfold applyExecPart
  refine (ledgerOf_foldl (fun db pb => ?_) _ _).trans ((ledgerOf_foldl (fun db pb => ?_) _ _).trans
    (ledgerOf_clearScEventsForSlot db s))
  · unfold applyAsyncMsg
    split <;> rfl
  · unfold applyScEvent
    split <;> rfl

omit [DenunciationDigest] in
theorem ledgerOf_applyTransfersPart (db : Db) (s : Slot) (resp : FinalSlotResponse)
    (nowMs : Int) : ledgerOf (applyTransfersPart db s resp nowMs) = ledgerOf db := by
  unfold applyTransfersPart
  rw [ledgerOf_reconcileDeferredFromTransfers, ledgerOf_reconcileAsyncFromTransfers]
  refine (ledgerOf_foldl (fun db pb => ?_) _ _).trans (ledgerOf_foldl ledgerOf_writeTransfer _ _)
  unfold applyDeferredCall
  split <;> rfl

/-! ### Peer -/

/-- What one part does to the store and the row in hand, seen from the ledger. -/
structure PatchingAt (p : Patching) (s : Slot) (L : Ledger) (r : Register) : Prop where
  here : p.state.slot = s
  ledger : ledgerOf p.db = L
  register : registerOf p.state = r

omit [Bs58Check] [DenunciationDigest] in
theorem Register.settleParts_settleParts (r : Register) (b e t b' e' t' : Bool) :
    (r.settleParts b e t).settleParts b' e' t' = r.settleParts (b || b') (e || e') (t || t') := by
  simp [Register.settleParts, Bool.or_assoc]

omit [Bs58Check] [DenunciationDigest] in
/-- Settling what is settled. -/
theorem Register.settleParts_settled {r : Register} {b e t : Bool}
    (body : b = true → r.completeness.blockBodyStored = true)
    (exec : e = true → r.completeness.execOutputFinal = true)
    (transfers : t = true → r.completeness.transfersStored = true) : r.settleParts b e t = r := by
  have absorb : ∀ {flag part : Bool}, (part = true → flag = true) → (flag || part) = flag := by
    decide
  simp only [Register.settleParts, absorb body, absorb exec, absorb transfers]

omit [Bs58Check] [DenunciationDigest] in
@[simp] theorem Register.settleParts_nothing (r : Register) : r.settleParts false false false = r :=
  Register.settleParts_settled (by simp) (by simp) (by simp)

omit [Bs58Check] [DenunciationDigest] in
theorem registerOf_settleParts (row : SlotState) (body exec transfers : Bool) :
    registerOf { row with completeness := { row.completeness with
        blockBodyStored := row.completeness.blockBodyStored || body
        execOutputFinal := row.completeness.execOutputFinal || exec
        transfersStored := row.completeness.transfersStored || transfers } } =
      (registerOf row).settleParts body exec transfers := rfl

omit [Bs58Check] [DenunciationDigest] in
/-- Setting the body flag. -/
theorem registerOf_bodyStored (row : SlotState) :
    registerOf { row with completeness := { row.completeness with blockBodyStored := true } } =
      (registerOf row).settleParts true false false := by
  rw [← registerOf_settleParts]
  simp

omit [Bs58Check] [DenunciationDigest] in
theorem shippedBlock_of_block_none {resp : FinalSlotResponse} (absent : resp.block.isSome = false) :
    shippedBlock resp = none := by
  simp [shippedBlock, Option.not_isSome_iff_eq_none.mp (by simpa using absent)]

theorem patchingAt_peerBlockPart {p : Patching} {s : Slot} {L : Ledger} {r : Register}
    (before : PatchingAt p s L r) (resp : FinalSlotResponse) (nowMs : Int) :
    PatchingAt (peerBlockPart resp nowMs p) s (L.receive (offerAt s resp).delivered)
      (r.settleParts (!resp.isMiss && (shippedBlock resp).isSome) false false) := by
  obtain ⟨here, ledger, register⟩ := before
  unfold peerBlockPart
  by_cases part : (resp.block.isSome && !resp.isMiss) = true
  · rw [if_pos part]
    have notMiss : resp.isMiss = false := by
      simpa using (Bool.and_eq_true_iff.mp part).2
    have fst := ledgerOf_applyBlockPart p.db resp nowMs
    have snd := applyBlockPart_snd p.db resp nowMs
    rcases applied : applyBlockPart p.db resp nowMs with ⟨db, shipped⟩
    rw [applied] at fst snd
    have delivered : (offerAt s resp).delivered = shipped.map shipmentOf := by
      simp [Offer.delivered, offerAt, notMiss, ← snd]
    rw [delivered, notMiss, ← snd, ← ledger]
    cases shipped with
    | none => exact ⟨here, fst.trans (by rw [← snd]), by simpa using register⟩
    | some block =>
        have entered : ledgerOf db = (ledgerOf p.db).receive ((some block).map shipmentOf) :=
          fst.trans (by rw [← snd])
        have kept : registerOf (p.state.addCandidate block.id) = r :=
          (registerOf_addCandidate _ _).trans register
        dsimp only
        split
        · refine ⟨(SlotState.slot_addCandidate _ _).trans here, entered, ?_⟩
          rw [registerOf_bodyStored, kept]
          rfl
        · next flagged =>
            have flag : (p.state.addCandidate block.id).completeness.blockBodyStored = true := by
              simpa using flagged
            refine ⟨(SlotState.slot_addCandidate _ _).trans here, entered, kept.trans ?_⟩
            rw [← kept]
            symm
            exact Register.settleParts_settled (fun _ => flag) (by simp) (by simp)
  · rw [if_neg part]
    have nothing : (offerAt s resp).delivered = none ∧
        (!resp.isMiss && (shippedBlock resp).isSome) = false := by
      cases isMiss : resp.isMiss with
      | true => simp [Offer.delivered, offerAt, isMiss]
      | false =>
          have absent : shippedBlock resp = none :=
            shippedBlock_of_block_none (by simpa [isMiss] using part)
          simp [Offer.delivered, offerAt, isMiss, absent]
    rw [nothing.1, nothing.2]
    exact ⟨here, ledger, register.trans r.settleParts_nothing.symm⟩

omit [Bs58Check] [DenunciationDigest] in
theorem patchingAt_peerMissFlag {p : Patching} {s : Slot} {L : Ledger} {r : Register}
    (before : PatchingAt p s L r) (resp : FinalSlotResponse) :
    PatchingAt (peerMissFlag resp p) s L (r.settleParts resp.isMiss false false) := by
  obtain ⟨here, ledger, register⟩ := before
  unfold peerMissFlag
  cases resp.isMiss with
  | true => exact ⟨here, ledger, (registerOf_bodyStored _).trans (by rw [register])⟩
  | false =>
      exact ⟨here, ledger, register.trans r.settleParts_nothing.symm⟩

omit [DenunciationDigest] in
theorem patchingAt_peerExecPart {p : Patching} {s : Slot} {L : Ledger} {r : Register}
    (before : PatchingAt p s L r) (resp : FinalSlotResponse) :
    PatchingAt (peerExecPart s resp p) s L
      (r.settleParts false (offerAt s resp).settlesExec false) := by
  obtain ⟨here, ledger, register⟩ := before
  unfold peerExecPart
  split
  · next applies =>
      obtain ⟨settles, -⟩ := Bool.and_eq_true_iff.mp applies
      refine ⟨here, (ledgerOf_applyExecPart _ _ _).trans ledger, ?_⟩
      rw [show (offerAt s resp).settlesExec = true from settles, ← register,
        ← registerOf_settleParts]
      simp [registerOf]
  · next idle =>
      refine ⟨here, ledger, register.trans (Eq.symm ?_)⟩
      refine Register.settleParts_settled (by simp) (fun settles => ?_) (by simp)
      rw [← register]
      have settles : (execPartPresent resp || execAsserted resp) = true := settles
      simpa [settles, registerOf] using idle

omit [DenunciationDigest] in
theorem patchingAt_peerTransfersPart {p : Patching} {s : Slot} {L : Ledger} {r : Register}
    (before : PatchingAt p s L r) (resp : FinalSlotResponse) (nowMs : Int) :
    PatchingAt (peerTransfersPart s resp nowMs p) s L
      (r.settleParts false false (offerAt s resp).settlesTransfers) := by
  obtain ⟨here, ledger, register⟩ := before
  unfold peerTransfersPart
  split
  · next applies =>
      obtain ⟨settles, -⟩ := Bool.and_eq_true_iff.mp applies
      refine ⟨here, (ledgerOf_applyTransfersPart _ _ _ _).trans ledger, ?_⟩
      rw [show (offerAt s resp).settlesTransfers = true from settles, ← register,
        ← registerOf_settleParts]
      simp [registerOf]
  · next idle =>
      refine ⟨here, ledger, register.trans (Eq.symm ?_)⟩
      refine Register.settleParts_settled (by simp) (by simp) (fun settles => ?_)
      rw [← register]
      have settles : (transfersPartPresent resp || transfersAsserted resp) = true := settles
      simpa [settles, registerOf] using idle

omit [DenunciationDigest] in
/-- Adopting a verdict, up to the status of the row. -/
theorem patchingAt_adoptPeerVerdict {row : SlotState} {s : Slot} (here : row.slot = s) (db : Db)
    (resp : FinalSlotResponse) (block : Option BlockId) (trail : Option String)
    (out : PatchOutcome) :
    PatchingAt ⟨(adoptPeerVerdict db row resp block trail).1,
        (adoptPeerVerdict db row resp block trail).2, out⟩ s (ledgerOf db)
      { Register.replaced resp.isMiss block trail with status := row.status } := by
  have ledger : ledgerOf (adoptPeerVerdict db row resp block trail).1 = ledgerOf db := by
    unfold adoptPeerVerdict
    cases row.finalBlockId with
    | none => rfl
    | some old => exact ledgerOf_settleBlock db old _
  unfold adoptPeerVerdict at ledger ⊢
  cases isMiss : resp.isMiss with
  | true => exact ⟨here, by simpa [isMiss] using ledger, rfl⟩
  | false =>
      cases block with
      | none => exact ⟨here, by simpa [isMiss] using ledger, rfl⟩
      | some b =>
          have kept := registerOf_addCandidate
            { row with isMiss := false, finalBlockId := some b } b
          simp only [registerOf, Register.mk.injEq] at kept
          refine ⟨(SlotState.slot_addCandidate _ _).trans here, by simpa [isMiss] using ledger, ?_⟩
          simp [registerOf, Register.replaced, kept]

omit [Bs58Check] [DenunciationDigest] in
theorem reconcileTrail_refines (db : Db) {s : Slot} {row : SlotState} (here : row.slot = s)
    (trail : Option String) :
    match reconcileTrail db row trail with
    | .turnedAway _ => (registerOf row).agreed trail = none
    | .proceed p => ∃ r, (registerOf row).agreed trail = some r ∧ PatchingAt p s (ledgerOf db) r := by
  unfold reconcileTrail Register.agreed
  cases held : row.executionTrailHash with
  | none =>
      refine ⟨_, if_neg ?_, here, rfl, ?_⟩
      · rintro ⟨x, y, known, -⟩
        simp [registerOf, held] at known
      · simp [registerOf, held]
  | some existing =>
      cases trail with
      | none =>
          refine ⟨_, if_neg ?_, here, rfl, ?_⟩
          · rintro ⟨x, y, -, known, -⟩
            simp at known
          · simp [registerOf, held]
      | some incoming =>
          dsimp only
          by_cases differ : existing = incoming
          · rw [if_neg (by simpa using differ)]
            refine ⟨_, if_neg ?_, here, rfl, ?_⟩
            · rintro ⟨x, y, left, right, apart⟩
              simp only [registerOf, held, Option.some.injEq] at left right
              exact apart (left.symm.trans (differ.trans right))
            · simp [registerOf, held]
          · rw [if_pos differ]
            exact if_pos ⟨existing, incoming, held, rfl, differ⟩

omit [DenunciationDigest] in
/-- Reconciling a response is reconciling its offer. -/
theorem reconcileVerdict_refines {db : Db} {s : Slot} {row : SlotState} (here : row.slot = s)
    (held : registerOf row = (ledgerOf db).reg s) (resp : FinalSlotResponse) :
    match reconcileVerdict db s row resp with
    | .turnedAway _ => row.status = .final ∧ (ledgerOf db).reconcile (offerAt s resp) = none
    | .proceed p => ∃ r, (ledgerOf db).reconcile (offerAt s resp) = some r ∧
        PatchingAt p s
          (if row.status = .final then ledgerOf db else (ledgerOf db).raiseHead s) r := by
  unfold reconcileVerdict Ledger.reconcile
  have reg : (ledgerOf db).reg (offerAt s resp).slot = registerOf row := held.symm
  rw [reg]
  by_cases settled : row.status = .final
  · have notOpen : ¬ (row.status ≠ .final) := fun h => h settled
    have agreeing := reconcileTrail_refines db here (peerTrail resp)
    have whole : (match reconcileTrail db row (peerTrail resp) with
        | .turnedAway _ => row.status = .final ∧ (registerOf row).agreed (peerTrail resp) = none
        | .proceed p => ∃ r, (registerOf row).agreed (peerTrail resp) = some r ∧
            PatchingAt p s (if row.status = .final then ledgerOf db else (ledgerOf db).raiseHead s)
              r) := by
      cases taken : reconcileTrail db row (peerTrail resp) with
      | turnedAway out =>
          rw [taken] at agreeing
          exact ⟨settled, agreeing⟩
      | proceed p =>
          rw [taken] at agreeing
          rw [if_pos settled]
          exact agreeing
    have localEq : (registerOf row).verdict = Verdict.ofLocal row := rfl
    have peerEq : (offerAt s resp).verdict = Verdict.ofPeer resp (parseFinalBlockId resp) := rfl
    have notOpen' : ¬ ((registerOf row).status ≠ .final) := notOpen
    simp only [if_neg notOpen, if_neg notOpen', localEq, peerEq]
    cases Verdict.ofLocal row with
    | none => exact whole
    | some localV =>
        cases Verdict.ofPeer resp (parseFinalBlockId resp) with
        | none => exact whole
        | some peerV =>
            dsimp only
            by_cases same : localV = peerV
            · rw [if_neg (not_not.mpr same), if_pos same]
              exact whole
            · rw [if_pos same, if_neg same]
              have decided := arbitrateVerdicts_eq_adoptPeer_iff db s localV peerV
                (shippedBlock resp)
              by_cases adopted :
                  arbitrateVerdicts db s localV peerV (shippedBlock resp) = .adoptPeer
              · rw [adopted]
                refine ⟨_, if_pos (decided.mp adopted), ?_⟩
                have replacing := patchingAt_adoptPeerVerdict here db resp (parseFinalBlockId resp)
                  (peerTrail resp) { divergenceRepaired := true }
                rw [settled] at replacing
                rw [if_pos settled]
                exact replacing
              · have refused : ¬ (ledgerOf db).Adopts s localV peerV
                    ((shippedBlock resp).map shipmentOf) := fun h => adopted (decided.mpr h)
                split
                · next out turned =>
                    exact ⟨settled, if_neg refused⟩
                · next p proceeds =>
                    split at proceeds
                    · next said => exact absurd said adopted
                    · exact absurd proceeds (by simp)
  · have open_ : row.status ≠ .final := settled
    have open_' : (registerOf row).status ≠ .final := settled
    simp only [if_pos open_, if_pos open_', if_neg settled]
    refine ⟨_, rfl, (slot_promote _ _ _).trans here, ledgerOf_advanceHead db s, ?_⟩
    rw [registerOf_promote]
    rfl

/-! ### Whole patches -/

theorem patchingAt_peerParts {p : Patching} {s : Slot} {L : Ledger} {r : Register}
    (before : PatchingAt p s L r) (resp : FinalSlotResponse) (nowMs : Int) :
    PatchingAt (peerParts s resp nowMs p) s (L.receive (offerAt s resp).delivered)
      (r.settleParts ((offerAt s resp).isMiss || (offerAt s resp).shipped.isSome)
        (offerAt s resp).settlesExec (offerAt s resp).settlesTransfers) := by
  have parts := patchingAt_peerTransfersPart (patchingAt_peerExecPart (patchingAt_peerMissFlag
    (patchingAt_peerBlockPart before resp nowMs) resp) resp) resp nowMs
  simp only [Register.settleParts_settleParts, Bool.or_false, Bool.false_or] at parts
  have body : (!resp.isMiss && (shippedBlock resp).isSome || resp.isMiss) =
      ((offerAt s resp).isMiss || (offerAt s resp).shipped.isSome) := by
    cases isMiss : resp.isMiss <;> simp [offerAt, isMiss]
  rw [body] at parts
  exact parts

omit [DenunciationDigest] in
/-- The trail hash a reconciled register carries comes back from the store as it is. -/
theorem readBackTrail_reconcile {db : Db} {s : Slot} {resp : FinalSlotResponse} {r : Register}
    (reconciled : (ledgerOf db).reconcile (offerAt s resp) = some r) :
    readBackTrail r.trail = r.trail := by
  have held := readBackTrail_reg db s
  have offered := readBackTrail_peerTrail resp
  have agreed : ∀ {r' : Register}, ((ledgerOf db).reg s).agreed (peerTrail resp) = some r' →
      readBackTrail r'.trail = r'.trail := by
    intro r' agreed
    unfold Register.agreed at agreed
    split at agreed
    · simp at agreed
    · obtain rfl := Option.some.inj agreed
      exact readBackTrail_or held offered
  unfold Ledger.reconcile at reconciled
  dsimp only at reconciled
  split at reconciled
  · obtain rfl := Option.some.inj reconciled
    exact readBackTrail_or offered held
  · split at reconciled
    · split at reconciled
      · exact agreed reconciled
      · split at reconciled
        · obtain rfl := Option.some.inj reconciled
          exact offered
        · simp at reconciled
    · exact agreed reconciled

theorem ledgerOf_applyPeerPatch {resp : FinalSlotResponse} {s : Slot} (about : slotOf resp = some s)
    (known : resp.finalKnown = true) (db : Db) (nowMs : Int) :
    ledgerOf (applyPeerPatch db resp nowMs).1 = (ledgerOf db).step (.peer (offerAt s resp)) := by
  unfold applyPeerPatch
  have here := slot_getD db s nowMs
  have held := registerOf_getD db s nowMs
  simp only [about, known, Bool.not_true, Bool.false_eq_true, if_false]
  generalize (db.readSlot s).getD (SlotState.fresh s nowMs) = row at here held ⊢
  have reconciled := reconcileVerdict_refines here held resp
  simp only [Ledger.step, Ledger.peerOffer]
  cases taken : reconcileVerdict db s row resp with
  | turnedAway out =>
      rw [taken] at reconciled
      rw [reconciled.2]
      exact (ledgerOf_touch _ here held (readBackTrail_reg db s) nowMs).trans (Ledger.setReg_self _ _)
  | proceed p =>
      rw [taken] at reconciled
      obtain ⟨r, settled, at_⟩ := reconciled
      obtain ⟨slot, ledger, register⟩ := patchingAt_peerParts at_ resp nowMs
      have normal := readBackTrail_reconcile settled
      have status : ((ledgerOf db).reg (offerAt s resp).slot).status = row.status :=
        (congrArg Register.status held).symm
      rw [settled, status]
      dsimp only
      rw [ledgerOf_ensureParentStub, ledgerOf_touch _ slot register normal,
        ledgerOf_applyFinalityToBlocks, ledger]
      rfl

/-! ### Legacy and forced -/

theorem patchingAt_legacyBlockPart {p : Patching} {s : Slot} {L : Ledger} {r : Register}
    (before : PatchingAt p s L r) (resp : FinalSlotResponse) (nowMs : Int) :
    PatchingAt (legacyBlockPart resp nowMs p) s
      (L.receive (if r.completeness.blockBodyStored then none else (offerAt s resp).delivered))
      (r.settleParts (!resp.isMiss && (shippedBlock resp).isSome) false false) := by
  obtain ⟨here, ledger, register⟩ := before
  have flag : p.state.completeness.blockBodyStored = r.completeness.blockBodyStored :=
    congrArg (fun r : Register => r.completeness.blockBodyStored) register
  unfold legacyBlockPart
  rw [flag]
  by_cases stored : r.completeness.blockBodyStored = true
  · rw [if_pos stored, if_neg (by simp [stored]),
      Register.settleParts_settled (fun _ => stored) (by simp) (by simp)]
    exact ⟨here, ledger, register⟩
  rw [if_neg stored]
  by_cases part : (resp.block.isSome && !r.completeness.blockBodyStored && !resp.isMiss) = true
  · rw [if_pos part]
    have notMiss : resp.isMiss = false := by simpa using (Bool.and_eq_true_iff.mp part).2
    have fst := ledgerOf_applyBlockPart p.db resp nowMs
    have snd := applyBlockPart_snd p.db resp nowMs
    rcases applied : applyBlockPart p.db resp nowMs with ⟨db, shipped⟩
    rw [applied] at fst snd
    have delivered : (offerAt s resp).delivered = shipped.map shipmentOf := by
      simp [Offer.delivered, offerAt, notMiss, ← snd]
    rw [delivered, notMiss, ← snd, ← ledger]
    rw [← snd] at fst
    cases shipped with
    | none => exact ⟨here, fst, by simpa using register⟩
    | some block =>
        refine ⟨(SlotState.slot_addCandidate _ _).trans here, fst, ?_⟩
        dsimp only
        rw [registerOf_bodyStored, registerOf_addCandidate, register]
        rfl
  · rw [if_neg part]
    have nothing : (offerAt s resp).delivered = none ∧
        (!resp.isMiss && (shippedBlock resp).isSome) = false := by
      cases isMiss : resp.isMiss with
      | true => simp [Offer.delivered, offerAt, isMiss]
      | false =>
          have absent : shippedBlock resp = none :=
            shippedBlock_of_block_none (by simpa [isMiss, stored] using part)
          simp [Offer.delivered, offerAt, isMiss, absent]
    rw [nothing.1, nothing.2, Register.settleParts_nothing]
    exact ⟨here, ledger, register⟩

omit [Bs58Check] [DenunciationDigest] in
theorem patchingAt_legacyMissFlag {p : Patching} {s : Slot} {L : Ledger} {r : Register}
    (before : PatchingAt p s L r) (resp : FinalSlotResponse) :
    PatchingAt (legacyMissFlag resp p) s L (r.settleParts (resp.isMiss && r.isMiss) false false) := by
  obtain ⟨here, ledger, register⟩ := before
  have miss : p.state.isMiss = r.isMiss := congrArg Register.isMiss register
  unfold legacyMissFlag
  rw [miss]
  split
  · next both =>
      rw [both]
      exact ⟨here, ledger, (registerOf_bodyStored _).trans (by rw [register])⟩
  · next notBoth =>
      rw [Bool.eq_false_iff.mpr notBoth, Register.settleParts_nothing]
      exact ⟨here, ledger, register⟩

omit [DenunciationDigest] in
theorem patchingAt_legacyRest {p : Patching} {s : Slot} {L : Ledger} {r : Register}
    (before : PatchingAt p s L r) (resp : FinalSlotResponse) :
    PatchingAt (legacyTransfers resp (legacyExecutedOps resp p)) s L r := by
  obtain ⟨here, ledger, register⟩ := before
  unfold legacyTransfers legacyExecutedOps
  split <;> exact ⟨here, (ledgerOf_foldl ledgerOf_writeTransfer _ _).trans ledger, register⟩

theorem patchingAt_legacyParts {p : Patching} {s : Slot} {L : Ledger} {r : Register}
    (before : PatchingAt p s L r) (resp : FinalSlotResponse) (nowMs : Int) :
    PatchingAt (legacyParts resp nowMs p) s
      (L.receive (if r.completeness.blockBodyStored then none else (offerAt s resp).delivered))
      (r.settleParts (if resp.isMiss then r.isMiss else (shippedBlock resp).isSome) false false) := by
  have parts := patchingAt_legacyMissFlag (patchingAt_legacyBlockPart before resp nowMs) resp
  rw [Register.settleParts_settleParts] at parts
  have body : (!resp.isMiss && (shippedBlock resp).isSome ||
      resp.isMiss && (r.settleParts (!resp.isMiss && (shippedBlock resp).isSome) false false).isMiss)
      = if resp.isMiss then r.isMiss else (shippedBlock resp).isSome := by
    cases resp.isMiss <;> simp [Register.settleParts]
  rw [body] at parts
  exact patchingAt_legacyRest parts resp

omit [DenunciationDigest] in
theorem patchingAt_legacyVerdict (db : Db) {s : Slot} {row : SlotState} (here : row.slot = s)
    (resp : FinalSlotResponse) :
    PatchingAt (legacyVerdict db s row resp) s
      (if row.status = .final then ledgerOf db else (ledgerOf db).raiseHead s)
      (if row.status = .final then registerOf row
        else (registerOf row).promoted resp.isMiss (parseFinalBlockId resp)) := by
  unfold legacyVerdict
  by_cases settled : row.status = .final
  · rw [if_neg (not_not.mpr settled), if_pos settled, if_pos settled]
    exact ⟨here, rfl, rfl⟩
  · rw [if_pos settled, if_neg settled, if_neg settled]
    exact ⟨(slot_promote _ _ _).trans here, ledgerOf_advanceHead db s, registerOf_promote _ _ _⟩

omit [Bs58Check] [DenunciationDigest] in
theorem ledgerOf_legacyFinality (p : Patching) : ledgerOf (legacyFinality p) = ledgerOf p.db := by
  unfold legacyFinality
  split
  · exact ledgerOf_applyFinalityToBlocks _ _ _
  · rfl

theorem ledgerOf_applyLegacyPatch {resp : FinalSlotResponse} {s : Slot}
    (about : slotOf resp = some s) (known : resp.finalKnown = true) (db : Db) (nowMs : Int) :
    ledgerOf (applyLegacyPatch db resp nowMs).1 = (ledgerOf db).step (.legacy (offerAt s resp)) := by
  unfold applyLegacyPatch
  have here := slot_getD db s nowMs
  have held := registerOf_getD db s nowMs
  simp only [about, known, Bool.not_true, Bool.false_eq_true, if_false]
  have trail := readBackTrail_reg db s
  generalize (db.readSlot s).getD (SlotState.fresh s nowMs) = row at here held ⊢
  have parts := patchingAt_legacyParts (patchingAt_legacyVerdict db here resp) resp nowMs
  have status : row.status = ((ledgerOf db).reg s).status := congrArg Register.status held
  rw [held, status] at parts
  obtain ⟨slot, ledger, register⟩ := parts
  rw [ledgerOf_ensureParentStub, ledgerOf_touch _ slot register (by split <;> exact trail) nowMs,
    ledgerOf_legacyFinality, ledger]
  have shipped : (offerAt s resp).shipped.isSome = (shippedBlock resp).isSome := Option.isSome_map
  have about : (offerAt s resp).slot = s := rfl
  simp only [Ledger.step, Ledger.legacyOffer, about, shipped]
  by_cases settled : ((ledgerOf db).reg s).status = .final
  · simp only [if_pos settled]
    rfl
  · simp only [if_neg settled]
    rfl

end Patches

/-- What an operator's verdict amounts to. -/
def forcedAct (resp : FinalSlotResponse) : Act :=
  match slotOf resp, forcedTarget resp with
  | some s, .ok v => .forced s v (peerTrail resp)
  | _, _ => .idle

theorem replaced_of_forcedTarget {resp : FinalSlotResponse} {v : Verdict}
    (target : forcedTarget resp = .ok v) (trail : Option String) :
    Register.replaced resp.isMiss (parseFinalBlockId resp) trail = .forcedTo v trail := by
  unfold forcedTarget at target
  cases isMiss : resp.isMiss with
  | true =>
      rw [isMiss] at target
      obtain rfl : .miss = v := by simpa using target
      rfl
  | false =>
      rw [isMiss] at target
      cases block : parseFinalBlockId resp with
      | none => simp [block] at target
      | some b =>
          obtain rfl : .block b = v := by simpa [block] using target
          rfl

theorem ledgerOf_applyForcedVerdict (db : Db) (resp : FinalSlotResponse) (nowMs : Int) :
    ledgerOf (match applyForcedVerdict db resp nowMs with | .ok (db, _) => db | .error _ => db) =
      (ledgerOf db).step (forcedAct resp) := by
  unfold applyForcedVerdict forcedAct
  cases about : slotOf resp with
  | none => rfl
  | some s =>
      have here := slot_getD db s nowMs
      have held := registerOf_getD db s nowMs
      dsimp only
      generalize (db.readSlot s).getD (SlotState.fresh s nowMs) = row at here held ⊢
      cases target : forcedTarget resp with
      | error e => rfl
      | ok v =>
          have standing : (row.status = .final ∧ Verdict.ofLocal row = some v) ↔
              (((ledgerOf db).reg s).status = .final ∧ ((ledgerOf db).reg s).verdict = some v) := by
            rw [← held]
            rfl
          simp only [Ledger.step, ← standing]
          by_cases already : row.status = .final ∧ Verdict.ofLocal row = some v
          · rw [if_pos already, if_pos already]
          · rw [if_neg already, if_neg already]
            obtain ⟨slot, ledger, register⟩ := patchingAt_adoptPeerVerdict here db resp
              (parseFinalBlockId resp) (peerTrail resp) {}
            dsimp only at slot ledger register ⊢
            have replacing : registerOf
                { (adoptPeerVerdict db row resp (parseFinalBlockId resp) (peerTrail resp)).2 with
                  status := .final } = .forcedTo v (peerTrail resp) := by
              rw [← replaced_of_forcedTarget target]
              exact congrArg (fun r : Register => { r with status := .final }) register
            have normal : readBackTrail (Register.forcedTo v (peerTrail resp)).trail =
                (Register.forcedTo v (peerTrail resp)).trail := by
              cases v <;> exact readBackTrail_peerTrail resp
            refine (ledgerOf_touch
              { (adoptPeerVerdict db row resp (parseFinalBlockId resp) (peerTrail resp)).2 with
                status := .final }
              slot replacing normal nowMs).trans ?_
            rw [ledgerOf_applyFinalityToBlocks, ledger]

end MassaIndexer.Chain
