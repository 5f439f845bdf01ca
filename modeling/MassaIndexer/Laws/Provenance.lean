/-
# Laws.Provenance -- where a completeness flag comes from

An indexer flags a part complete when its node delivered it, or when a peer says so. The peer's word
is its own flag, so every flag in the mesh should trace back to a node. A receiver also takes any
payload of a part for the whole part, whatever the sender's flag says: `Grounded` is what it leaves
out.
-/
import MassaIndexer.Chain.Rows
import MassaIndexer.Chain.Snapshot
import MassaIndexer.Peer.Network

namespace MassaIndexer.Laws.Provenance

open MassaIndexer.Theory.Runs MassaIndexer.Theory.Network
open MassaIndexer.Data.Ids MassaIndexer.Data.Model MassaIndexer.Data.Proto MassaIndexer.Chain
open MassaIndexer.Data.RowCodec MassaIndexer.Store.ColumnFamilies
open MassaIndexer.Writer.Shared MassaIndexer.Writer.Step
open MassaIndexer.Peer.Patch MassaIndexer.Peer.Service MassaIndexer.Peer.Network

set_option autoImplicit false

/-! ## On the ledger -/

/-- Does the offer settle the part? -/
def settles : Part → Offer → Bool
  | .exec, o => o.settlesExec
  | .transfers, o => o.settlesTransfers

theorem flag_settleParts (p : Part) (r : Register) (o : Offer) (body : Bool) :
    p.flag (r.settleParts body o.settlesExec o.settlesTransfers).completeness =
      (p.flag r.completeness || settles p o) := by
  cases p <;> rfl

/-- An offer gets past a register with the flags the register had, or with none. -/
theorem flag_of_reconciles {p : Part} {L : Ledger} {o : Offer} {r : Register}
    (reconciled : Reconciles L o r) (flagged : p.flag r.completeness = true) :
    p.flag (L.reg o.slot).completeness = true := by
  cases reconciled with
  | promoted open_ => exact flagged
  | agreed settled same noClash => exact flagged
  | adopted settled l q held offered adopts =>
      cases p <;> exact absurd flagged (by simp [Register.replaced, Part.flag])

/-- What an offer leaves of a flag. -/
theorem flag_peerOffer_iff {p : Part} {L : Ledger} {o : Offer} :
    (p.flag ((L.peerOffer o).reg o.slot).completeness = true →
      p.flag (L.reg o.slot).completeness = true) ↔
      L.reconcile o = none ∨ p.flag (L.reg o.slot).completeness = true ∨ settles p o = false := by
  unfold Ledger.peerOffer
  cases reconciled : L.reconcile o with
  | none => simp
  | some r =>
      have kept := flag_of_reconciles (p := p) (reconciles_of_reconcile reconciled)
      simp only [Ledger.reg_setReg, if_true, flag_settleParts, Bool.or_eq_true, reduceCtorEq,
        false_or]
      cases settles p o with
      | false => simpa using kept
      | true => simp

/-- Which acts set a flag. -/
theorem act_of_flag {p : Part} {L : Ledger} {t : Slot} {a : Act} {r : Register}
    (moved : RegMove L t a r) (before : p.flag (L.reg t).completeness = false)
    (after : p.flag r.completeness = true) :
    (p = .exec ∧ ∃ m b trail, a = .final t m b trail) ∨ (p = .transfers ∧ a = .transfers t) ∨
      ∃ o, a = .peer o := by
  have unchanged : p.flag r.completeness = p.flag (L.reg t).completeness → False := by
    intro same
    rw [same, before] at after
    exact absurd after (by decide)
  cases moved with
  | same => exact (unchanged rfl).elim
  | body shipped here => exact (unchanged (by cases p <;> rfl)).elim
  | candidate trail =>
      refine (unchanged ?_).elim
      unfold Register.sawCandidate
      cases p <;> split <;> rfl
  | final isMiss block trail =>
      cases p with
      | exec => exact .inl ⟨rfl, _, _, _, rfl⟩
      | transfers =>
          refine (unchanged ?_).elim
          unfold Register.sawFinal
          split
          · split <;> rfl
          · rfl
  | transfers =>
      cases p with
      | exec => exact (unchanged rfl).elim
      | transfers => exact .inr (.inl ⟨rfl, rfl⟩)
  | peer o r here reconciled => exact .inr (.inr ⟨o, rfl⟩)
  | legacy o here =>
      subst here
      refine (unchanged ?_).elim
      unfold Ledger.legacyBase Register.settleParts
      cases p <;> split <;> simp [Part.flag, Register.promoted]
  | forced v trail stands =>
      refine absurd after ?_
      cases p <;> cases v <;> simp [Register.forcedTo, Register.replaced, Part.flag]

/-! ## Deliveries -/

theorem flagAt_eq (p : Part) (db : Db) (s : Slot) :
    flagAt p db s = p.flag ((ledgerOf db).reg s).completeness := by
  unfold flagAt ledgerOf
  cases found : db.readSlot s with
  | none => cases p <;> simp [found, Register.blank, Part.flag]
  | some row => simp [found, registerOf]

section Writers

variable [Bs58Check]

theorem settles_offerAt (p : Part) (s : Slot) (resp : FinalSlotResponse) :
    settles p (offerAt s resp) = (p.present resp || p.asserted resp) := by
  cases p <;> rfl

omit [Bs58Check] in
theorem echoed_of_asserted {p : Part} {resp : FinalSlotResponse} (asserted : p.asserted resp = true) :
    p.echoed resp = true := by
  cases p with
  | exec => exact (Bool.and_eq_true_iff.mp asserted).2
  | transfers => exact (Bool.and_eq_true_iff.mp asserted).2

theorem offerOf_eq_some_iff {resp : FinalSlotResponse} {o : Offer} :
    offerOf resp = some o ↔ resp.finalKnown = true ∧ ∃ s, slotOf resp = some s ∧ offerAt s resp = o := by
  unfold offerOf
  split
  · next known => simp [known]
  · next unknown => simp [unknown]

/-- An answer that cannot make a flag out of payload alone: it is turned away, the flag is set
already, the sender vouches for the part, or there is no payload of it. -/
def Grounded (p : Part) (db : Db) (resp : FinalSlotResponse) : Prop :=
  ∀ o, offerOf resp = some o → (ledgerOf db).reconcile o = none ∨ flagAt p db o.slot = true ∨
    p.echoed resp = true ∨ p.present resp = false

theorem grounded_iff {p : Part} {resp : FinalSlotResponse} {o : Offer} (offered : offerOf resp = some o)
    (db : Db) : Grounded p db resp ↔ (ledgerOf db).reconcile o = none ∨ flagAt p db o.slot = true ∨
      p.echoed resp = true ∨ p.present resp = false := by
  constructor
  · exact fun grounded => grounded o offered
  · intro grounded o' offered'
    obtain rfl := Option.some.inj (offered.symm.trans offered')
    exact grounded

section Built

variable {row : SlotState} {parts : FinalSlotParts} {resp : FinalSlotResponse}

/-- What an answer built for a FINAL row says besides its payloads. -/
structure Header (row : SlotState) (resp : FinalSlotResponse) : Prop where
  about : slotOf resp = some row.slot
  known : resp.finalKnown = true
  exec : resp.hasExecOutput = row.completeness.execOutputFinal
  transfers : resp.hasTransfers = row.completeness.transfersStored

omit [Bs58Check] in
theorem Header.echoed (header : Header row resp) (p : Part) :
    p.echoed resp = p.flag row.completeness := by
  cases p with
  | exec => exact header.exec
  | transfers => exact header.transfers

theorem header_finalHeader (row : SlotState) (parts : FinalSlotParts) :
    Header row (finalHeader row parts) :=
  ⟨by simp [slotOf, finalHeader, Except.toOption], rfl, rfl, rfl⟩

omit [Bs58Check] in
theorem header_withBlockPart (header : Header row resp) (db : Db) :
    Header row (withBlockPart db row parts resp) := by
  unfold withBlockPart
  split
  · exact header
  · exact ⟨header.about, header.known, header.exec, header.transfers⟩

theorem header_withExecPart (header : Header row resp) (db : Db) :
    Header row (withExecPart db row parts resp) := by
  unfold withExecPart
  split
  · exact ⟨header.about, header.known, header.exec, header.transfers⟩
  · exact header

omit [Bs58Check] in
theorem header_withTransfersPart (header : Header row resp) (db : Db) :
    Header row (withTransfersPart db row parts resp) := by
  unfold withTransfersPart
  split
  · exact ⟨header.about, header.known, header.exec, header.transfers⟩
  · exact header

theorem header_build (final : row.status = .final) (db : Db) (parts : FinalSlotParts) :
    Header row (buildFinalSlotResponseFromState db row parts) := by
  unfold buildFinalSlotResponseFromState
  rw [if_neg (not_not.mpr final)]
  exact header_withTransfersPart
    (header_withExecPart (header_withBlockPart (header_finalHeader row parts) db) db) db

/-- The store has payload of the part, and the part is asked for. -/
def ships (db : Db) (row : SlotState) (parts : FinalSlotParts) : Part → Bool
  | .exec => parts.execOutput && (!row.executedOpIds.isEmpty || decide (0 < row.scEventCount) ||
      !(db.scEventsOfSlot row.slot).isEmpty ||
      !(db.asyncMsgsByLastSlot row.slot rowCap).isEmpty)
  | .transfers => parts.transfers && (!(db.transfersForSlot row.slot).isEmpty ||
      !(db.deferredCallsByLastSlot row.slot rowCap).isEmpty)

/-- No payload comes with the header or the block. -/
theorem present_block (db : Db) (p : Part) :
    p.present (withBlockPart db row parts (finalHeader row parts)) = false := by
  unfold withBlockPart
  split <;> cases p <;> rfl

theorem present_build (final : row.status = .final) (db : Db) (p : Part) :
    p.present (buildFinalSlotResponseFromState db row parts) = ships db row parts p := by
  have none : p.present (withBlockPart db row parts (finalHeader row parts)) = false :=
    present_block db p
  unfold buildFinalSlotResponseFromState
  rw [if_neg (not_not.mpr final)]
  generalize withBlockPart db row parts (finalHeader row parts) = resp at none ⊢
  cases p with
  | exec =>
      have kept : ∀ resp, Part.present .exec (withTransfersPart db row parts resp) =
          Part.present .exec resp := by
        intro resp
        unfold withTransfersPart
        split <;> rfl
      rw [kept]
      unfold withExecPart ships
      cases asked : parts.execOutput with
      | false => simpa using none
      | true =>
          have capped : (((db.scEventsOfSlot row.slot).take rowCap).map scEventToPeerPb).isEmpty =
              (db.scEventsOfSlot row.slot).isEmpty := by
            cases db.scEventsOfSlot row.slot <;> rfl
          rw [if_pos rfl]
          simp only [Part.present, execPartPresent, capped, List.isEmpty_map, Bool.true_and]
  | transfers =>
      have kept : Part.present .transfers (withExecPart db row parts resp) =
          Part.present .transfers resp := by
        unfold withExecPart
        split <;> rfl
      unfold withTransfersPart ships
      cases asked : parts.transfers with
      | false => simpa [kept] using none
      | true => simp [Part.present, transfersPartPresent]

end Built

/-- An answer about `s` that vouches for the part. -/
def Vouches (p : Part) (s : Slot) (resp : FinalSlotResponse) : Prop :=
  slotOf resp = some s ∧ p.echoed resp = true

/-- Only an indexer with the flag vouches for the part. -/
theorem flagAt_of_vouches {p : Part} {s : Slot} {db : Db} {t : Slot} {parts : FinalSlotParts}
    (vouches : Vouches p s (buildFinalSlotResponse db t parts)) : flagAt p db s = true := by
  unfold buildFinalSlotResponse at vouches
  cases found : db.readSlot t with
  | none =>
      rw [found] at vouches
      exact absurd vouches.2 (by cases p <;> simp [Part.echoed])
  | some row =>
      rw [found] at vouches
      obtain ⟨about, echoed⟩ := vouches
      dsimp only at about echoed
      by_cases final : row.status = .final
      · have header := header_build final db parts
        rw [header.about, Db.slot_of_readSlot found, Option.some.injEq] at about
        rw [header.echoed] at echoed
        subst about
        simp [flagAt, found, echoed]
      · rw [buildFinalSlotResponseFromState, if_pos final] at echoed
        exact absurd echoed (by cases p <;> simp [Part.echoed])

section Delivered

variable [DenunciationDigest] {p : Part} {s : Slot} {resp : FinalSlotResponse}

theorem ledgerOf_delivered (db : Db) (resp : FinalSlotResponse) (nowMs : Int) :
    ledgerOf (applyPeerPatch db resp nowMs).1 =
      (offerOf resp).elim (ledgerOf db) (ledgerOf db).peerOffer := by
  have stepped := ledgerOf_step db ⟨.peerPatch resp, nowMs⟩
  simp only [step, actOf] at stepped
  rw [stepped]
  cases offerOf resp <;> rfl

/-- The flag is set by the step from `db` to `db'`. -/
def Learns (p : Part) (s : Slot) (db db' : Db) : Prop := flagAt p db s = false ∧ flagAt p db' s = true

/-- **Exactly the grounded answers give a flag only with the sender's word.** -/
theorem vouched_iff_grounded {o : Offer} (offered : offerOf resp = some o) (db : Db) (nowMs : Int) :
    (Learns p o.slot db (applyPeerPatch db resp nowMs).1 → p.echoed resp = true) ↔
      Grounded p db resp := by
  have flags := flag_peerOffer_iff (p := p) (L := ledgerOf db) (o := o)
  have settled : settles p o = (p.present resp || p.asserted resp) := by
    obtain ⟨-, s, -, rfl⟩ := offerOf_eq_some_iff.mp offered
    exact settles_offerAt p s resp
  rw [grounded_iff offered, flagAt_eq]
  simp only [Learns, flagAt_eq, ledgerOf_delivered, offered, Option.elim]
  cases echoed : p.echoed resp with
  | true => simp
  | false =>
      have unasserted : p.asserted resp = false := by
        by_contra asserted
        rw [echoed_of_asserted (by simpa using asserted)] at echoed
        exact absurd echoed (by decide)
      rw [unasserted, Bool.or_false] at settled
      rw [settled] at flags
      simp only [Bool.false_eq_true, false_or, ← flags]
      cases p.flag ((ledgerOf db).reg o.slot).completeness <;> simp

/-- A grounded answer leaves a flag where it was, or where the sender vouches for it. -/
theorem flagAt_delivered {db : Db} (grounded : Grounded p db resp) {nowMs : Int}
    (flagged : flagAt p (applyPeerPatch db resp nowMs).1 s = true) :
    flagAt p db s = true ∨ Vouches p s resp := by
  cases offered : offerOf resp with
  | none =>
      rw [flagAt_eq, ledgerOf_delivered, offered] at flagged
      rw [flagAt_eq]
      exact .inl flagged
  | some o =>
      by_cases here : s = o.slot
      · subst here
        cases before : flagAt p db o.slot with
        | true => exact .inl rfl
        | false =>
            obtain ⟨-, t, about, same⟩ := offerOf_eq_some_iff.mp offered
            refine .inr ⟨about.trans (congrArg (some ·.slot) same), ?_⟩
            exact (vouched_iff_grounded offered db nowMs).mpr grounded ⟨before, flagged⟩
      · rw [flagAt_eq, ledgerOf_delivered, offered] at flagged
        rw [flagAt_eq]
        exact .inl (by simpa [Ledger.reg_peerOffer_of_ne _ here] using flagged)

end Delivered

/-! ## Over the mesh -/

variable [DenunciationDigest]

/-- The event by which a node delivers the part. -/
def FromNode (p : Part) (e : Timed) : Prop :=
  match p, e.event with
  | .exec, .exec _ => True
  | .transfers, .transfers _ => True
  | _, _ => False

/-- The indexer takes the part of the slot from its node: a FINAL frame, or the transfer list. -/
def Takes (p : Part) (s : Slot) (db : Db) (e : Timed) : Prop :=
  FromNode p e ∧ Learns p s db (step db e)

/-- Which events set a flag. -/
theorem fromNode_of_act {p : Part} {s : Slot} {db : Db} {e : Timed}
    (act : (p = .exec ∧ ∃ m b trail, actOf db e = .final s m b trail) ∨
      (p = .transfers ∧ actOf db e = .transfers s) ∨ ∃ o, actOf db e = .peer o) :
    FromNode p e ∨ ∃ resp, e.event = .peerPatch resp := by
  obtain ⟨event, nowMs⟩ := e
  cases event with
  | exec out =>
      have frame : (∀ t, execAct out ≠ .transfers t) ∧ ∀ o, execAct out ≠ .peer o := by
        unfold execAct
        split
        · simp
        · split <;> simp
      rcases act with ⟨rfl, -⟩ | ⟨-, act⟩ | ⟨o, act⟩
      · exact .inl trivial
      · exact absurd act (frame.1 s)
      · exact absurd act (frame.2 o)
  | transfers resp =>
      have list : (∀ m b trail, transfersAct resp ≠ .final s m b trail) ∧
          ∀ o, transfersAct resp ≠ .peer o := by
        unfold transfersAct
        split <;> simp
      rcases act with ⟨-, m, b, trail, act⟩ | ⟨rfl, -⟩ | ⟨o, act⟩
      · exact absurd act (list.1 m b trail)
      · exact .inl trivial
      · exact absurd act (list.2 o)
  | peerPatch resp => exact .inr ⟨resp, rfl⟩
  | block fb =>
      simp only [actOf] at act
      split at act <;> simp at act
  | legacyPatch resp =>
      simp only [actOf] at act
      cases offered : offerOf resp <;> simp [offered] at act
  | forcedVerdict resp =>
      simp only [actOf, forcedAct] at act
      split at act <;> simp at act
  | tick => simp [actOf] at act

/-- Without its peers an indexer gets a flag from its node alone. -/
theorem takes_of_act {p : Part} {s : Slot} {db : Db} {e : Timed} (before : ¬ flagAt p db s = true)
    (after : flagAt p (indexer.act db e) s = true) : Takes p s db e := by
  by_cases peer : ∃ resp, e.event = .peerPatch resp
  · obtain ⟨resp, patch⟩ := peer
    exact absurd (by simpa [indexer, patch] using after) before
  · have stepped : indexer.act db e = step db e := by
      simp only [indexer]
      split
      · next resp patch => exact absurd ⟨resp, patch⟩ peer
      · rfl
    rw [stepped] at after
    have moved := regMove_step (ledgerOf db) (actOf db e) s
    rw [← ledgerOf_step] at moved
    have act := act_of_flag moved (by simpa [flagAt_eq] using before) (by simpa [flagAt_eq] using after)
    exact ⟨(fromNode_of_act act).resolve_right peer, by simpa using before, after⟩

/-- Every flag of the part at the slot goes back to an indexer that took the part from its node. -/
def Traced {ι : Type} [DecidableEq ι] (p : Part) (s : Slot)
    (events : List (Event ι Timed (Slot × FinalSlotParts) Int)) : Prop :=
  ∀ i, flagAt p ((run (Net.step indexer) (Net.start Db.empty) events).node i) s = true →
    ∃ before k e after, events = before ++ .own k e :: after ∧
      Takes p s ((run (Net.step indexer) (Net.start Db.empty) before).node k) e

theorem traced_of_grounded {ι : Type} [DecidableEq ι] {p : Part} {s : Slot}
    {events : List (Event ι Timed (Slot × FinalSlotParts) Int)}
    (grounded : Along (Net.step indexer) (Deliveries (Grounded p)) (Net.start Db.empty) events) :
    Traced p s events := by
  have owed : Owed indexer (fun db => flagAt p db s = true) (Vouches p s) (Net.start Db.empty) events :=
    owed_of_along (fun db r => flagAt_of_vouches)
    (fun db resp nowMs grounded flagged => flagAt_delivered grounded flagged)
    (by simp [flagAt, Db.empty, Db.readSlot]) grounded
  intro i flagged
  obtain ⟨before, k, e, after, whole, unknown, gained⟩ := owed.nodes i flagged
  exact ⟨before, k, e, after, whole, takes_of_act unknown gained⟩

/-- **A flag travels on the sender's word exactly when no payload stands in for it**: the answer is
turned away, the flag is set on either side already, or the sender has nothing to ship. Where every
delivered answer is grounded in this sense, every flag in the mesh traces back to a node. -/
theorem completeness_not_laundered_iff (p : Part) (s : Slot) :
    (∀ (sender receiver : Db) (row : SlotState) (parts : FinalSlotParts) (nowMs : Int),
      sender.readSlot s = some row → row.status = .final →
      ((Learns p s receiver (applyPeerPatch receiver
            (buildFinalSlotResponseFromState sender row parts) nowMs).1 →
          flagAt p sender s = true) ↔
        (ledgerOf receiver).reconcile
            (offerAt s (buildFinalSlotResponseFromState sender row parts)) = none ∨
          flagAt p receiver s = true ∨ flagAt p sender s = true ∨ ships sender row parts p = false)) ∧
    ∀ (ι : Type) [DecidableEq ι] (events : List (Event ι Timed (Slot × FinalSlotParts) Int)),
      Along (Net.step indexer) (Deliveries (Grounded p)) (Net.start Db.empty) events →
      Traced p s events := by
  refine ⟨fun sender receiver row parts nowMs found final => ?_, fun ι _ events => traced_of_grounded⟩
  have header := header_build final sender parts
  have here : row.slot = s := Db.slot_of_readSlot found
  have offered : offerOf (buildFinalSlotResponseFromState sender row parts) =
      some (offerAt s (buildFinalSlotResponseFromState sender row parts)) :=
    offerOf_eq_some_iff.mpr ⟨header.known, s, by rw [header.about, here], rfl⟩
  have echoed : p.echoed (buildFinalSlotResponseFromState sender row parts) = flagAt p sender s := by
    rw [header.echoed, flagAt, found]
    rfl
  rw [← present_build final, ← echoed]
  exact (vouched_iff_grounded offered receiver nowMs).trans (grounded_iff offered receiver)

end Writers

/-! ## A flag out of nothing -/

section Laundered

attribute [local instance] Bs58Check.doubleSha noDenunciations

/-- An operation id for each number. -/
def opNo (n : UInt8) : OperationId := ⟨List.replicate idKeyLen n, List.length_replicate⟩

/-- The archive's answer for a slot: a block and the operation it executed. -/
def archived : FinalSlotResponse :=
  { answerOf ⟨10, 0⟩ (.block (blockNo 1)) (some (bareBlock (blockNo 1) ⟨10, 0⟩ [])) with
    executedOpIds := [(opNo 1).text] }

/-- The row the archive leaves: FINAL, with an executed list and no flag. -/
theorem archivedRow : ∃ row, (step Db.empty ⟨.legacyPatch archived, 0⟩).readSlot ⟨10, 0⟩ = some row ∧
    row.status = .final ∧ row.completeness.execOutputFinal = false ∧
      row.executedOpIds = [opNo 1] := by
  have about : slotOf archived = some ⟨10, 0⟩ :=
    slotOf_answerOf ⟨10, 0⟩ (.block (blockNo 1)) (some (bareBlock (blockNo 1) ⟨10, 0⟩ []))
  obtain ⟨row, found, executed⟩ := exists_row_applyLegacyPatch about rfl Db.empty 0
  have register := registerOf_of_readSlot found
  rw [ledgerOf_applyLegacyPatch about rfl, ledgerOf_empty] at register
  have listed : parseOpIds archived.executedOpIds = [opNo 1] := by
    simp [parseOpIds, archived, OperationId.parse, Except.toOption]
  refine ⟨row, found, (congrArg Register.status register).trans ?_,
    (congrArg (·.completeness.execOutputFinal) register).trans ?_, executed.trans listed⟩
  · simp [Ledger.step, Ledger.legacyOffer, offerAt, Ledger.blank, Register.blank, Register.promoted,
      Register.settleParts]
  · simp [Ledger.step, Ledger.legacyOffer, offerAt, Ledger.blank, Register.blank, Register.promoted,
      Register.settleParts]

/-- One indexer imports the slot from the archive, and another asks it for the exec part. -/
def laundering : List (Event Bool Timed (Slot × FinalSlotParts) Int) :=
  [.own false ⟨.legacyPatch archived, 0⟩, .send false (⟨10, 0⟩, { execOutput := true }),
    .deliver true 0 0]

/-- **A flag that no node stands behind.** -/
theorem flag_laundered : ¬ ∀ (p : Part) (s : Slot)
    (events : List (Event Bool Timed (Slot × FinalSlotParts) Int)), Traced p s events := by
  intro traced
  have flagged : flagAt .exec ((run (Net.step indexer) (Net.start Db.empty) laundering).node true)
      ⟨10, 0⟩ = true := by
    obtain ⟨row, found, final, unflagged, executed⟩ := archivedRow
    have reached : (run (Net.step indexer) (Net.start Db.empty) laundering).node true =
        (applyPeerPatch Db.empty (buildFinalSlotResponseFromState
          (step Db.empty ⟨.legacyPatch archived, 0⟩) row { execOutput := true }) 0).1 := by
      simp [laundering, Net.step, Net.start, indexer, buildFinalSlotResponse, found]
    have header := header_build final (step Db.empty ⟨.legacyPatch archived, 0⟩) { execOutput := true }
    have here : row.slot = ⟨10, 0⟩ := Db.slot_of_readSlot found
    have payload : Part.present .exec (buildFinalSlotResponseFromState
        (step Db.empty ⟨.legacyPatch archived, 0⟩) row { execOutput := true }) = _ :=
      present_build final (step Db.empty ⟨.legacyPatch archived, 0⟩) .exec
    rw [reached]
    generalize buildFinalSlotResponseFromState _ row _ = resp at header payload ⊢
    have offered : offerOf resp = some (offerAt ⟨10, 0⟩ resp) :=
      offerOf_eq_some_iff.mpr ⟨header.known, _, by rw [header.about, here], rfl⟩
    have ungrounded : ¬ Grounded .exec Db.empty resp := by
      have accepted : (ledgerOf Db.empty).reconcile (offerAt ⟨10, 0⟩ resp) ≠ none := by
        rw [ledgerOf_empty, reconcile_of_open (by simp [Ledger.blank, Register.blank])]
        simp
      have unknown : flagAt .exec Db.empty ⟨10, 0⟩ = false := rfl
      rw [grounded_iff offered, header.echoed, payload]
      rintro (turnedAway | known | vouched | empty)
      · exact accepted turnedAway
      · exact absurd (known.symm.trans unknown) (by decide)
      · exact absurd (vouched.symm.trans unflagged) (by decide)
      · exact absurd empty (by simp [ships, executed])
    have learns := mt (vouched_iff_grounded offered Db.empty 0).mp ungrounded
    simp only [Classical.not_imp] at learns
    exact learns.1.2
  obtain ⟨before, k, e, after, whole, takes⟩ := traced .exec ⟨10, 0⟩ laundering true flagged
  have member : .own k e ∈ laundering := by
    rw [whole]
    simp
  obtain ⟨rfl, rfl⟩ : k = false ∧ e = ⟨.legacyPatch archived, 0⟩ := by simpa [laundering] using member
  exact takes.1

end Laundered

end MassaIndexer.Laws.Provenance
