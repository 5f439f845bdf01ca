/-
# Writer.Patches -- the patch events, family by family

A patch is reconciled with the row it meets (`Proceeds`), then its parts are applied. Which parts are
applied, and the row they leave, depends on that row and the response alone (`peerRow`,
`legacyRow`); the store is then brought about by stages, each confined to one family.
-/
import MassaIndexer.Writer.Families

namespace MassaIndexer.Writer.Patches

open MassaIndexer.Theory.Footprint
open MassaIndexer.Data.Ids MassaIndexer.Data.Model MassaIndexer.Data.Proto
open MassaIndexer.Store.ColumnFamilies MassaIndexer.Store.Footprint
open MassaIndexer.Writer.Shared MassaIndexer.Writer.Effects MassaIndexer.Writer.Families
open MassaIndexer.Peer.Arbiter MassaIndexer.Peer.Patch

set_option autoImplicit false

variable [Bs58Check]

/-! ## Reconciling -/

/-- A response and a row that both have a verdict, and not the same one. -/
def Disputes (state : SlotState) (resp : FinalSlotResponse) : Prop :=
  ∃ l p, Verdict.ofLocal state = some l ∧ Verdict.ofPeer resp (parseFinalBlockId resp) = some p ∧ l ≠ p

/-- What a peer's response starts from: an open row promoted, a settled row it agrees with, or a row
whose verdict it replaces. -/
inductive Proceeds (db : Db) (s : Slot) (state : SlotState) (resp : FinalSlotResponse) :
    Patching → Prop where
  | promoted : state.status ≠ .final → Proceeds db s state resp
      ⟨advanceHead db s, promote { state with
          executionTrailHash := (peerTrail resp).or state.executionTrailHash }
        resp.isMiss (parseFinalBlockId resp), { becameFinal := true }⟩
  | agreed : state.status = .final → ¬ Disputes state resp →
      trailsDiffer state.executionTrailHash (peerTrail resp) = false → Proceeds db s state resp
        ⟨db, { state with executionTrailHash := state.executionTrailHash.or (peerTrail resp) }, {}⟩
  | adopted : state.status = .final → ∀ l p, Verdict.ofLocal state = some l →
      Verdict.ofPeer resp (parseFinalBlockId resp) = some p → l ≠ p →
      arbitrateVerdicts db s l p (shippedBlock resp) = .adoptPeer → Proceeds db s state resp
        ⟨(adoptPeerVerdict db state resp (parseFinalBlockId resp) (peerTrail resp)).1,
          (adoptPeerVerdict db state resp (parseFinalBlockId resp) (peerTrail resp)).2,
          { divergenceRepaired := true }⟩

theorem proceeds_of_reconcileTrail {db : Db} {s : Slot} {state : SlotState} {resp : FinalSlotResponse}
    {p : Patching} (settled : state.status = .final) (agree : ¬ Disputes state resp)
    (taken : reconcileTrail db state (peerTrail resp) = .proceed p) :
    Proceeds db s state resp p := by
  have agreed : _ → Proceeds db s state resp _ := Proceeds.agreed settled agree
  unfold reconcileTrail at taken
  cases known : state.executionTrailHash with
  | none =>
      rw [known] at taken agreed
      obtain rfl := Reconciled.proceed.inj taken
      exact agreed rfl
  | some existing =>
      have same : { state with executionTrailHash := some existing } = state := by rw [← known]
      cases offered : peerTrail resp with
      | none =>
          rw [known, offered] at taken agreed
          obtain rfl := Reconciled.proceed.inj taken
          have here := agreed rfl
          rw [Option.some_or, same] at here
          exact here
      | some incoming =>
          rw [known, offered] at taken agreed
          dsimp only at taken
          split at taken
          · cases taken
          · next alike =>
              obtain rfl := Reconciled.proceed.inj taken
              have here := agreed (by simpa [trailsDiffer] using alike)
              rw [Option.some_or, same] at here
              exact here

/-- **The ways a response gets past a row.** -/
theorem proceeds_of_reconcileVerdict {db : Db} {s : Slot} {state : SlotState}
    {resp : FinalSlotResponse} {p : Patching}
    (taken : reconcileVerdict db s state resp = .proceed p) : Proceeds db s state resp p := by
  unfold reconcileVerdict at taken
  dsimp only at taken
  by_cases settled : state.status = .final
  · rw [if_neg (not_not.mpr settled)] at taken
    cases held : Verdict.ofLocal state with
    | none =>
        rw [held] at taken
        exact proceeds_of_reconcileTrail settled (by rintro ⟨l, p, known, -⟩; simp [held] at known) taken
    | some l =>
        cases offered : Verdict.ofPeer resp (parseFinalBlockId resp) with
        | none =>
            rw [held, offered] at taken
            exact proceeds_of_reconcileTrail settled
              (by rintro ⟨l, p, -, known, -⟩; simp [offered] at known) taken
        | some q =>
            rw [held, offered] at taken
            dsimp only at taken
            split at taken
            · next differ =>
                split at taken
                · next adopts =>
                    obtain rfl := Reconciled.proceed.inj taken
                    exact .adopted settled l q held offered differ adopts
                · cases taken
            · next same =>
                refine proceeds_of_reconcileTrail settled ?_ taken
                rintro ⟨l', q', known, known', differ⟩
                obtain rfl := Option.some.inj (held.symm.trans known)
                obtain rfl := Option.some.inj (offered.symm.trans known')
                exact same differ
  · rw [if_pos settled] at taken
    obtain rfl := Reconciled.proceed.inj taken
    exact .promoted settled

/-- A response that is turned away meets a settled row. -/
theorem settled_of_turnedAway {db : Db} {s : Slot} {state : SlotState} {resp : FinalSlotResponse}
    {out : PatchOutcome} (taken : reconcileVerdict db s state resp = .turnedAway out) :
    state.status = .final := by
  by_contra open_
  unfold reconcileVerdict at taken
  dsimp only at taken
  rw [if_pos open_] at taken
  cases taken

/-! ## Rows -/

/-- The row after a body of the slot came in. -/
def rowWithBody (state : SlotState) : Option StoredBlock → SlotState
  | none => state
  | some block =>
      let state := state.addCandidate block.id
      { state with completeness := { state.completeness with blockBodyStored := true } }

def rowWithMiss (state : SlotState) (isMiss : Bool) : SlotState :=
  if isMiss then { state with completeness := { state.completeness with blockBodyStored := true } }
  else state

/-- Is the exec part of the response applied to the row? -/
def takesExec (resp : FinalSlotResponse) (state : SlotState) : Bool :=
  (execPartPresent resp || execAsserted resp) && !state.completeness.execOutputFinal

def rowWithExec (resp : FinalSlotResponse) (state : SlotState) : SlotState :=
  if takesExec resp state then
    { state with
      executedOpIds :=
        if state.executedOpIds.isEmpty then parseOpIds resp.executedOpIds else state.executedOpIds
      scEventCount := resp.scEventCount
      completeness := { state.completeness with execOutputFinal := true } }
  else state

/-- Are the response's transfers applied to the row? -/
def takesTransfers (resp : FinalSlotResponse) (state : SlotState) : Bool :=
  (transfersPartPresent resp || transfersAsserted resp) && !state.completeness.transfersStored

def rowWithTransfers (resp : FinalSlotResponse) (state : SlotState) : SlotState :=
  if takesTransfers resp state then
    { state with completeness := { state.completeness with transfersStored := true } }
  else state

/-- The row a peer's response leaves, but for the clock. -/
def peerRow (resp : FinalSlotResponse) (state : SlotState) : SlotState :=
  rowWithTransfers resp (rowWithExec resp
    (rowWithMiss (rowWithBody state (deliveredBlock resp)) resp.isMiss))

omit [Bs58Check] in
/-- Only the body flag of the completeness moves with a body. -/
theorem takesExec_withBody (resp : FinalSlotResponse) (state : SlotState)
    (block : Option StoredBlock) (isMiss : Bool) :
    takesExec resp (rowWithMiss (rowWithBody state block) isMiss) = takesExec resp state := by
  unfold takesExec
  cases block with
  | none => cases isMiss <;> rfl
  | some b => cases isMiss <;> simp [rowWithBody, rowWithMiss]

theorem takesTransfers_withExec (resp : FinalSlotResponse) (state : SlotState) :
    takesTransfers resp (rowWithExec resp state) = takesTransfers resp state := by
  unfold takesTransfers rowWithExec
  split <;> rfl

omit [Bs58Check] in
theorem takesTransfers_withBody (resp : FinalSlotResponse) (state : SlotState)
    (block : Option StoredBlock) (isMiss : Bool) :
    takesTransfers resp (rowWithMiss (rowWithBody state block) isMiss) =
      takesTransfers resp state := by
  unfold takesTransfers
  cases block with
  | none => cases isMiss <;> rfl
  | some b => cases isMiss <;> simp [rowWithBody, rowWithMiss]

omit [Bs58Check] in
theorem promote_eq (row : SlotState) (isMiss : Bool) (block : Option BlockId) :
    promote row isMiss block = { row with
      status := .final
      isMiss := isMiss
      finalBlockId := if isMiss then row.finalBlockId else block.or row.finalBlockId
      candidateBlockIds :=
        if isMiss then row.candidateBlockIds
        else (block.elim row row.addCandidate).candidateBlockIds } := by
  unfold promote
  cases isMiss with
  | true => rfl
  | false => cases block <;> simp [SlotState.addCandidate_eq]

omit [Bs58Check] in
theorem rowWithBody_eq (row : SlotState) (block : Option StoredBlock) :
    rowWithBody row block = { row with
      candidateBlockIds := (block.elim row fun b => row.addCandidate b.id).candidateBlockIds
      completeness := { row.completeness with
        blockBodyStored := row.completeness.blockBodyStored || block.isSome } } := by
  cases block with
  | none => simp [rowWithBody]
  | some b => simp [rowWithBody, SlotState.addCandidate_eq]

/-- The row a peer's response leaves, field by field. -/
theorem peerRow_eq (resp : FinalSlotResponse) (row : SlotState) : peerRow resp row = { row with
    candidateBlockIds :=
      ((deliveredBlock resp).elim row fun b => row.addCandidate b.id).candidateBlockIds
    executedOpIds :=
      if takesExec resp row && row.executedOpIds.isEmpty then parseOpIds resp.executedOpIds
      else row.executedOpIds
    scEventCount := if takesExec resp row then resp.scEventCount else row.scEventCount
    completeness := { row.completeness with
      blockBodyStored :=
        row.completeness.blockBodyStored || (deliveredBlock resp).isSome || resp.isMiss
      execOutputFinal := row.completeness.execOutputFinal || takesExec resp row
      transfersStored := row.completeness.transfersStored || takesTransfers resp row } } := by
  have exec := takesExec_withBody resp row (deliveredBlock resp) resp.isMiss
  have transfers := (takesTransfers_withExec resp
    (rowWithMiss (rowWithBody row (deliveredBlock resp)) resp.isMiss)).trans
      (takesTransfers_withBody resp row (deliveredBlock resp) resp.isMiss)
  rw [peerRow, rowWithTransfers, transfers, rowWithExec, exec, rowWithBody_eq]
  cases resp.isMiss <;> cases takesExec resp row <;> cases takesTransfers resp row <;>
    simp [rowWithMiss]

/-- The row's clock plays no part. -/
theorem peerRow_touched (resp : FinalSlotResponse) (row : SlotState) (nowMs : Int) :
    peerRow resp { row with lastUpdatedTsMs := nowMs } =
      { peerRow resp row with lastUpdatedTsMs := nowMs } := by
  rw [peerRow_eq, peerRow_eq]
  cases deliveredBlock resp with
  | none => rfl
  | some block =>
      simp only [Option.elim_some, SlotState.addCandidate_eq]
      rfl

/-! ## Peer patches as stages -/

section Peer

variable [DenunciationDigest]

def bodyStages (resp : FinalSlotResponse) (nowMs : Int) (block : Option StoredBlock) :
    List FamilyStage := block.elim [] fun block => blockStages resp block nowMs

def peerPartStages (s : Slot) (resp : FinalSlotResponse) (nowMs : Int) (state : SlotState) :
    List FamilyStage :=
  bodyStages resp nowMs (deliveredBlock resp) ++
    (if takesExec resp state then execStages s resp else []) ++
    (if takesTransfers resp state then transfersStages s resp nowMs else [])

theorem peerBlockPart_eq (resp : FinalSlotResponse) (nowMs : Int) (p : Patching) :
    (peerBlockPart resp nowMs p).db =
        Stage.runAll (bodyStages resp nowMs (deliveredBlock resp)) p.db ∧
      (peerBlockPart resp nowMs p).state = rowWithBody p.state (deliveredBlock resp) := by
  unfold peerBlockPart deliveredBlock
  rw [applyBlockPart_eq]
  cases isMiss : resp.isMiss with
  | true => simp [bodyStages, rowWithBody]
  | false =>
      cases shipped : shippedBlock resp with
      | none => simp [bodyStages, rowWithBody]
      | some block =>
          have present : resp.block.isSome = true := by
            by_contra absent
            simp [shippedBlock, Option.not_isSome_iff_eq_none.mp absent] at shipped
          simp only [present, Bool.not_false, Bool.and_self, if_true, Bool.false_eq_true, if_false]
          split
          · exact ⟨rfl, rfl⟩
          · next flagged =>
              refine ⟨rfl, ?_⟩
              have flag : (p.state.addCandidate block.id).completeness.blockBodyStored = true := by
                simpa using flagged
              simp only [rowWithBody]
              rw [← flag]

omit [DenunciationDigest] in
theorem peerExecPart_eq (s : Slot) (resp : FinalSlotResponse) (p : Patching) :
    (peerExecPart s resp p).db =
        Stage.runAll (if takesExec resp p.state then execStages s resp else []) p.db ∧
      (peerExecPart s resp p).state = rowWithExec resp p.state := by
  unfold peerExecPart rowWithExec takesExec
  generalize ((execPartPresent resp || execAsserted resp) &&
    !p.state.completeness.execOutputFinal) = taken
  cases taken <;> exact ⟨rfl, rfl⟩

omit [DenunciationDigest] in
theorem peerTransfersPart_eq (s : Slot) (resp : FinalSlotResponse) (nowMs : Int) (p : Patching) :
    (peerTransfersPart s resp nowMs p).db =
        Stage.runAll (if takesTransfers resp p.state then transfersStages s resp nowMs else []) p.db ∧
      (peerTransfersPart s resp nowMs p).state = rowWithTransfers resp p.state := by
  unfold peerTransfersPart rowWithTransfers takesTransfers
  generalize ((transfersPartPresent resp || transfersAsserted resp) &&
    !p.state.completeness.transfersStored) = taken
  cases taken <;> exact ⟨rfl, rfl⟩

omit [Bs58Check] [DenunciationDigest] in
theorem peerMissFlag_eq (resp : FinalSlotResponse) (p : Patching) :
    (peerMissFlag resp p).db = p.db ∧
      (peerMissFlag resp p).state = rowWithMiss p.state resp.isMiss := by
  unfold peerMissFlag rowWithMiss
  split <;> exact ⟨rfl, rfl⟩

/-- **The parts of a peer's response, as stages and a row.** -/
theorem peerParts_eq (s : Slot) (resp : FinalSlotResponse) (nowMs : Int) (p : Patching) :
    (peerParts s resp nowMs p).db = Stage.runAll (peerPartStages s resp nowMs p.state) p.db ∧
      (peerParts s resp nowMs p).state = peerRow resp p.state := by
  obtain ⟨bodyDb, bodyRow⟩ := peerBlockPart_eq resp nowMs p
  obtain ⟨missDb, missRow⟩ := peerMissFlag_eq resp (peerBlockPart resp nowMs p)
  obtain ⟨execDb, execRow⟩ := peerExecPart_eq s resp (peerMissFlag resp (peerBlockPart resp nowMs p))
  obtain ⟨transfersDb, transfersRow⟩ := peerTransfersPart_eq s resp nowMs
    (peerExecPart s resp (peerMissFlag resp (peerBlockPart resp nowMs p)))
  rw [bodyRow] at missRow
  rw [missRow, takesExec_withBody, missDb, bodyDb] at execDb
  rw [missRow] at execRow
  rw [execRow, takesTransfers_withExec, takesTransfers_withBody, execDb] at transfersDb
  rw [execRow] at transfersRow
  refine ⟨?_, transfersRow⟩
  rw [peerParts, transfersDb, peerPartStages, Stage.runAll_append, Stage.runAll_append]

/-- What closes a patch: block statuses, the row and the parent's stub. -/
def closingStages (s : Slot) (row : SlotState) (nowMs : Int) : List FamilyStage :=
  [stage (confined_applyFinalityToBlocks row.finalBlockId row.candidateBlockIds),
    stage (confined_touchSlot row nowMs),
    stage (confined_ensureParentStub s nowMs)]

/-- **A peer patch, as stages.** -/
theorem applyPeerPatch_eq {resp : FinalSlotResponse} {s : Slot} (about : slotOf resp = some s)
    (known : resp.finalKnown = true) (db : Db) (nowMs : Int) :
    (applyPeerPatch db resp nowMs).1 =
      match reconcileVerdict db s (rowAt db s nowMs) resp with
      | .turnedAway _ => db.writeSlot { rowAt db s nowMs with lastUpdatedTsMs := nowMs }
      | .proceed p => Stage.runAll (peerPartStages s resp nowMs p.state ++
          closingStages s (peerRow resp p.state) nowMs) p.db := by
  unfold applyPeerPatch
  rw [about]
  simp only [known, Bool.not_true, Bool.false_eq_true, if_false]
  rw [rowAt]
  cases reconcileVerdict db s ((db.readSlot s).getD (SlotState.fresh s nowMs)) resp with
  | turnedAway out => rfl
  | proceed p =>
      obtain ⟨partsDb, partsRow⟩ := peerParts_eq s resp nowMs p
      dsimp only
      rw [partsDb, partsRow, Stage.runAll_append]
      rfl

/-- The async messages after a peer patch that proceeds. -/
def peerAsyncMsgs (db : Db) (s : Slot) (resp : FinalSlotResponse) (nowMs : Int) (state : SlotState) :
    Db :=
  let shipped := if takesExec resp state then resp.asyncMsgs.foldl applyAsyncMsg db else db
  if takesTransfers resp state then
    reconcileAsyncFromTransfers shipped s (decodedTransfers resp) nowMs
  else shipped

/-- The deferred calls after a peer patch that proceeds. -/
def peerDeferredCalls (db : Db) (s : Slot) (resp : FinalSlotResponse) (nowMs : Int)
    (state : SlotState) : Db :=
  if takesTransfers resp state then
    reconcileDeferredFromTransfers (resp.deferredCalls.foldl applyDeferredCall db) s
      (decodedTransfers resp) nowMs
  else db

theorem asyncMsgs_peerStages (s : Slot) (resp : FinalSlotResponse) (nowMs : Int)
    (state row : SlotState) (db : Db) :
    contents (Stage.runAll (peerPartStages s resp nowMs state ++ closingStages s row nowMs) db)
        .asyncMsgs = contents (peerAsyncMsgs db s resp nowMs state) .asyncMsgs := by
  rw [contents_runAll, peerPartStages, peerAsyncMsgs]
  cases deliveredBlock resp <;> cases takesExec resp state <;> cases takesTransfers resp state <;> rfl

theorem deferredCalls_peerStages (s : Slot) (resp : FinalSlotResponse) (nowMs : Int)
    (state row : SlotState) (db : Db) :
    contents (Stage.runAll (peerPartStages s resp nowMs state ++ closingStages s row nowMs) db)
        .deferredCalls = contents (peerDeferredCalls db s resp nowMs state) .deferredCalls := by
  rw [contents_runAll, peerPartStages, peerDeferredCalls]
  cases deliveredBlock resp <;> cases takesExec resp state <;> cases takesTransfers resp state <;> rfl

end Peer

/-! ## Legacy patches -/

section Legacy

/-- The body a legacy answer delivers to a row that has none. -/
def legacyBody (resp : FinalSlotResponse) (state : SlotState) : Option StoredBlock :=
  if state.completeness.blockBodyStored then none else deliveredBlock resp

/-- The archive's list of executed operations enters a row that has none. -/
def rowWithLegacyOps (resp : FinalSlotResponse) (state : SlotState) : SlotState :=
  if state.executedOpIds.isEmpty && !resp.executedOpIds.isEmpty then
    { state with executedOpIds := parseOpIds resp.executedOpIds }
  else state

/-- The verdict of a legacy answer settles an open row. -/
def legacyPromoted (resp : FinalSlotResponse) (state : SlotState) : SlotState :=
  if state.status ≠ .final then promote state resp.isMiss (parseFinalBlockId resp) else state

/-- The row a legacy answer leaves, but for the clock. -/
def legacyRow (resp : FinalSlotResponse) (state : SlotState) : SlotState :=
  let state := rowWithBody state (legacyBody resp state)
  rowWithLegacyOps resp (rowWithMiss state (resp.isMiss && state.isMiss))

/-- The row a legacy answer leaves, field by field. -/
theorem legacyRow_eq (resp : FinalSlotResponse) (row : SlotState) : legacyRow resp row = { row with
    candidateBlockIds :=
      ((legacyBody resp row).elim row fun b => row.addCandidate b.id).candidateBlockIds
    executedOpIds :=
      if row.executedOpIds.isEmpty && !resp.executedOpIds.isEmpty then parseOpIds resp.executedOpIds
      else row.executedOpIds
    completeness := { row.completeness with
      blockBodyStored := row.completeness.blockBodyStored || (legacyBody resp row).isSome ||
        (resp.isMiss && row.isMiss) } } := by
  rw [legacyRow, rowWithBody_eq]
  unfold rowWithLegacyOps rowWithMiss
  cases resp.isMiss <;> cases row.isMiss <;> simp <;> split <;> rfl

variable [DenunciationDigest]

def legacyPartStages (resp : FinalSlotResponse) (nowMs : Int) (state : SlotState) :
    List FamilyStage :=
  bodyStages resp nowMs (legacyBody resp state) ++
    [stage (confined_transferRows (decodedTransfers resp))]

theorem legacyBlockPart_eq (resp : FinalSlotResponse) (nowMs : Int) (p : Patching) :
    (legacyBlockPart resp nowMs p).db =
        Stage.runAll (bodyStages resp nowMs (legacyBody resp p.state)) p.db ∧
      (legacyBlockPart resp nowMs p).state = rowWithBody p.state (legacyBody resp p.state) := by
  unfold legacyBlockPart legacyBody deliveredBlock
  rw [applyBlockPart_eq]
  cases p.state.completeness.blockBodyStored with
  | true => simp [bodyStages, rowWithBody]
  | false =>
      cases isMiss : resp.isMiss with
      | true => simp [bodyStages, rowWithBody]
      | false =>
          cases shipped : shippedBlock resp with
          | none => simp [bodyStages, rowWithBody]
          | some block =>
              have present : resp.block.isSome = true := by
                by_contra absent
                simp [shippedBlock, Option.not_isSome_iff_eq_none.mp absent] at shipped
              simp only [present, Bool.not_false, Bool.and_self, if_true, Bool.false_eq_true, if_false]
              exact ⟨rfl, rfl⟩

theorem legacyParts_eq (resp : FinalSlotResponse) (nowMs : Int) (p : Patching) :
    (legacyParts resp nowMs p).db = Stage.runAll (legacyPartStages resp nowMs p.state) p.db ∧
      (legacyParts resp nowMs p).state = legacyRow resp p.state := by
  obtain ⟨bodyDb, bodyRow⟩ := legacyBlockPart_eq resp nowMs p
  have miss : (legacyMissFlag resp (legacyBlockPart resp nowMs p)).db =
        (legacyBlockPart resp nowMs p).db ∧
      (legacyMissFlag resp (legacyBlockPart resp nowMs p)).state =
        rowWithMiss (legacyBlockPart resp nowMs p).state
          (resp.isMiss && (legacyBlockPart resp nowMs p).state.isMiss) := by
    unfold legacyMissFlag rowWithMiss
    split <;> exact ⟨rfl, rfl⟩
  have listed : ∀ q : Patching, (legacyExecutedOps resp q).db = q.db ∧
      (legacyExecutedOps resp q).state = rowWithLegacyOps resp q.state := by
    intro q
    unfold legacyExecutedOps rowWithLegacyOps
    split <;> exact ⟨rfl, rfl⟩
  constructor
  · rw [legacyPartStages, Stage.runAll_append, ← bodyDb, ← miss.1,
      ← (listed (legacyMissFlag resp (legacyBlockPart resp nowMs p))).1]
    rfl
  · rw [legacyRow, ← bodyRow, ← miss.2,
      ← (listed (legacyMissFlag resp (legacyBlockPart resp nowMs p))).2]
    rfl

/-- **A legacy patch, as stages.** Block statuses follow only once the row has both its exec output
and its body. -/
theorem applyLegacyPatch_eq {resp : FinalSlotResponse} {s : Slot} (about : slotOf resp = some s)
    (known : resp.finalKnown = true) (db : Db) (nowMs : Int) :
    (applyLegacyPatch db resp nowMs).1 =
      let state := legacyPromoted resp (rowAt db s nowMs)
      let row := legacyRow resp state
      Stage.runAll
        ((if (rowAt db s nowMs).status ≠ .final then [stage (confined_advanceHead s)] else []) ++
          legacyPartStages resp nowMs state ++
          (if row.completeness.execOutputFinal && row.completeness.blockBodyStored then
            [stage (confined_applyFinalityToBlocks row.finalBlockId row.candidateBlockIds)] else []) ++
          [stage (confinedTo_apply (.slot { row with lastUpdatedTsMs := nowMs })),
            stage (confined_ensureParentStub s nowMs)]) db := by
  have verdict : (legacyVerdict db s (rowAt db s nowMs) resp).db = Stage.runAll
        (if (rowAt db s nowMs).status ≠ .final then [stage (confined_advanceHead s)] else []) db ∧
      (legacyVerdict db s (rowAt db s nowMs) resp).state = legacyPromoted resp (rowAt db s nowMs) := by
    unfold legacyVerdict legacyPromoted
    split <;> exact ⟨rfl, rfl⟩
  obtain ⟨partsDb, partsRow⟩ := legacyParts_eq resp nowMs (legacyVerdict db s (rowAt db s nowMs) resp)
  rw [verdict.2] at partsDb partsRow
  rw [verdict.1] at partsDb
  unfold applyLegacyPatch
  rw [about]
  simp only [known, Bool.not_true, Bool.false_eq_true, if_false]
  rw [← rowAt, legacyFinality, partsDb, partsRow]
  simp only [Stage.runAll_append]
  split <;> rfl

end Legacy

/-! ## Adopting a verdict -/

def adoptStages (state : SlotState) : List FamilyStage :=
  (state.finalBlockId.elim [] fun old => [stage (confined_settleBlock old .discarded)]) ++
    [stage (confinedTo_apply (.clearScEvents state.slot)),
      stage (confinedTo_apply (.clearTransfers state.slot))]

theorem adoptPeerVerdict_db (db : Db) (state : SlotState) (resp : FinalSlotResponse)
    (block : Option BlockId) (trail : Option String) :
    (adoptPeerVerdict db state resp block trail).1 = Stage.runAll (adoptStages state) db := by
  unfold adoptPeerVerdict adoptStages
  cases state.finalBlockId <;> rfl

/-- The row with the adopted verdict, everything derived from the old one dropped. -/
def adoptedRow (state : SlotState) (resp : FinalSlotResponse) (block : Option BlockId)
    (trail : Option String) : SlotState :=
  let finalBlockId := if resp.isMiss then none else block
  let state := { state with isMiss := resp.isMiss, finalBlockId := finalBlockId }
  let state := finalBlockId.elim state state.addCandidate
  { state with
    executionTrailHash := trail
    executedOpIds := []
    scEventCount := 0
    completeness := { blockBodyStored := resp.isMiss } }

omit [Bs58Check] in
theorem adoptedRow_eq (row : SlotState) (resp : FinalSlotResponse) (block : Option BlockId)
    (trail : Option String) : adoptedRow row resp block trail = { row with
      isMiss := resp.isMiss
      finalBlockId := if resp.isMiss then none else block
      candidateBlockIds :=
        if resp.isMiss then row.candidateBlockIds
        else (block.elim row row.addCandidate).candidateBlockIds
      executionTrailHash := trail
      executedOpIds := []
      scEventCount := 0
      completeness := { blockBodyStored := resp.isMiss } } := by
  unfold adoptedRow
  cases resp.isMiss with
  | true => rfl
  | false => cases block <;> simp [SlotState.addCandidate_eq]

theorem adoptPeerVerdict_row (db : Db) (state : SlotState) (resp : FinalSlotResponse)
    (block : Option BlockId) (trail : Option String) :
    (adoptPeerVerdict db state resp block trail).2 = adoptedRow state resp block trail := by
  unfold adoptPeerVerdict adoptedRow
  cases resp.isMiss with
  | true => rfl
  | false => cases block <;> rfl

/-- The families that reconciling with a row can write. -/
theorem Proceeds.frame {db : Db} {s : Slot} {state : SlotState} {resp : FinalSlotResponse}
    {p : Patching} (proceeds : Proceeds db s state resp p) {f : Family}
    (other : [Family.heads, .blocks, .scEvents, .transfers].contains f = false) :
    contents p.db f = contents db f := by
  cases proceeds with
  | promoted open_ => exact (confined_advanceHead s).frame db f (by rintro rfl; simp at other)
  | agreed settled agree trails => rfl
  | adopted settled l q held offered differ adopts =>
      refine (writes_adoptPeerVerdict db state resp (parseFinalBlockId resp)
        (peerTrail resp)).contents_eq f ?_
      simp_all

/-- **A forced verdict, as stages.** -/
theorem applyForcedVerdict_eq {resp : FinalSlotResponse} {s : Slot} (about : slotOf resp = some s)
    {v : Verdict} (target : forcedTarget resp = .ok v) (db : Db) (nowMs : Int) :
    applyForcedVerdict db resp nowMs = .ok
      (if (rowAt db s nowMs).status = .final ∧ Verdict.ofLocal (rowAt db s nowMs) = some v then
        (db, false)
      else
        let row := { adoptedRow (rowAt db s nowMs) resp (parseFinalBlockId resp) (peerTrail resp) with
          status := .final }
        (Stage.runAll (adoptStages (rowAt db s nowMs) ++
          [stage (confined_applyFinalityToBlocks row.finalBlockId row.candidateBlockIds),
            stage (confinedTo_apply (.slot { row with lastUpdatedTsMs := nowMs }))]) db, true)) := by
  unfold applyForcedVerdict
  rw [about, target]
  rw [rowAt]
  dsimp only
  split
  · rfl
  · rw [adoptPeerVerdict_row, adoptPeerVerdict_db, Stage.runAll_append]
    rfl

end MassaIndexer.Writer.Patches
