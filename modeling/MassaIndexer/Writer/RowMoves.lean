/-
# Writer.RowMoves -- what an event does to slot rows and block bodies

An event writes at most one slot row, and after it perhaps the stub of the parent slot (`RowMove`);
which row that is goes by the event and the row it meets. `slots_step` says that no event does more to
the slot rows. A node block is taken or not (`takenBlock`), and only a taken one reaches its row.
-/
import MassaIndexer.Writer.Moves

namespace MassaIndexer.Writer.RowMoves

open MassaIndexer.Theory.Footprint
open MassaIndexer.Data.Ids MassaIndexer.Data.Model MassaIndexer.Data.Proto MassaIndexer.Data.Codec
open MassaIndexer.Store.ColumnFamilies MassaIndexer.Store.Footprint
open MassaIndexer.Writer.NodeProto MassaIndexer.Writer.NodeDecode
open MassaIndexer.Writer.Shared MassaIndexer.Writer.Handlers MassaIndexer.Writer.Step
open MassaIndexer.Writer.Families MassaIndexer.Writer.Patches MassaIndexer.Peer.Patch
open MassaIndexer.Peer.Arbiter

set_option autoImplicit false

/-! ## Filing a row -/

/-- The row an event leaves at its slot, and whether the parent slot gets a stub. -/
structure RowMove where
  row : SlotState
  stub : Bool

def RowMove.file (nowMs : Int) (db : Db) (m : RowMove) : Db :=
  if m.stub then ensureParentStub (db.writeSlot m.row) m.row.slot nowMs else db.writeSlot m.row

theorem RowMove.file_stub {m : RowMove} {s : Slot} (here : m.row.slot = s) (stub : m.stub = true)
    (nowMs : Int) (db : Db) : m.file nowMs db = ensureParentStub (db.writeSlot m.row) s nowMs := by
  subst here
  exact if_pos stub

/-- The slot before `s` in its thread. -/
def parentOf (s : Slot) : Slot := ⟨s.period - 1, s.thread⟩

theorem parentOf_ne {s : Slot} (later : s.period ≠ 0) : parentOf s ≠ s := by
  intro same
  have period : s.period - 1 = s.period := congrArg Slot.period same
  grind

theorem readSlot_ensureParentStub_of_ne {s u : Slot} (other : u ≠ parentOf s) (db : Db) (nowMs : Int) :
    (ensureParentStub db s nowMs).readSlot u = db.readSlot u := by
  unfold ensureParentStub
  split
  · rfl
  · dsimp only
    split
    · rfl
    · rw [Db.readSlot_writeSlot, if_neg]
      exact fun here => other here.symm

/-- The stub at the parent: only where there is no row. -/
theorem readSlot_ensureParentStub_parent {s : Slot} (later : s.period ≠ 0) (db : Db) (nowMs : Int) :
    (ensureParentStub db s nowMs).readSlot (parentOf s) =
      (db.readSlot (parentOf s)).or (some (SlotState.fresh (parentOf s) nowMs)) := by
  unfold ensureParentStub
  rw [if_neg later]
  dsimp only
  change (if (db.readSlot (parentOf s)).isSome then db
    else db.writeSlot (SlotState.fresh (parentOf s) nowMs)).readSlot (parentOf s) = _
  cases found : db.readSlot (parentOf s) with
  | some row => exact found
  | none =>
      rw [Option.isSome_none, if_neg (by decide), Db.readSlot_writeSlot]
      exact if_pos rfl

/-- Is there a slot before `s` in its thread whose stub the move ensures? -/
def RowMove.stubs (m : RowMove) (u : Slot) : Prop :=
  m.stub = true ∧ m.row.slot.period ≠ 0 ∧ u = parentOf m.row.slot

instance (m : RowMove) (u : Slot) : Decidable (m.stubs u) := instDecidableAnd

/-- **What a move leaves at each slot.** -/
theorem readSlot_file (nowMs : Int) (db : Db) (m : RowMove) (u : Slot) :
    (m.file nowMs db).readSlot u =
      if m.row.slot = u then some (readBackSlotState m.row)
      else if m.stubs u then (db.readSlot u).or (some (SlotState.fresh u nowMs))
      else db.readSlot u := by
  have written := Db.readSlot_writeSlot db m.row u
  unfold RowMove.file
  cases stub : m.stub with
  | false =>
      have none : ¬ m.stubs u := fun stubs => absurd (stub.symm.trans stubs.1) (by decide)
      rw [if_neg none]
      exact written
  | true =>
      rw [if_pos rfl]
      by_cases parent : m.row.slot.period ≠ 0 ∧ u = parentOf m.row.slot
      · obtain ⟨later, rfl⟩ := parent
        have other : m.row.slot ≠ parentOf m.row.slot := (parentOf_ne later).symm
        have stubs : m.stubs (parentOf m.row.slot) := ⟨stub, later, rfl⟩
        rw [readSlot_ensureParentStub_parent later, written, if_neg other, if_neg other, if_pos stubs]
      · have none : ¬ m.stubs u := fun stubs => parent stubs.2
        rw [if_neg none, ← written]
        by_cases first : m.row.slot.period = 0
        · rw [ensureParentStub, if_pos first]
        · refine readSlot_ensureParentStub_of_ne ?_ _ _
          exact fun here => parent ⟨first, here⟩

/-! ## The slot of a row -/

variable [Bs58Check]

omit [Bs58Check] in
theorem bodySeen_eq (row : SlotState) (id : BlockId) (nowMs : Int) : bodySeen row id nowMs = { row with
    status := if row.status = .unknown then .candidate else row.status
    candidateBlockIds := (row.addCandidate id).candidateBlockIds
    completeness := { row.completeness with blockBodyStored := true }
    lastUpdatedTsMs := nowMs } := by
  simp [bodySeen, SlotState.addCandidate_eq]

omit [Bs58Check] in
theorem slot_bodySeen (row : SlotState) (id : BlockId) (nowMs : Int) :
    (bodySeen row id nowMs).slot = row.slot := by rw [bodySeen_eq]

theorem slot_frameRow (row : SlotState) (frame : ExecFrame) (exec : ExecutionOutput)
    (nowMs : Int) : (frameRow row frame exec nowMs).slot = row.slot := by
  cases frame <;> rfl

omit [Bs58Check] in
theorem slot_promote (row : SlotState) (isMiss : Bool) (block : Option BlockId) :
    (promote row isMiss block).slot = row.slot := by rw [promote_eq]

theorem slot_peerRow (resp : FinalSlotResponse) (row : SlotState) :
    (peerRow resp row).slot = row.slot := by rw [peerRow_eq]

theorem slot_legacyRow (resp : FinalSlotResponse) (row : SlotState) :
    (legacyRow resp (legacyPromoted resp row)).slot = row.slot := by
  rw [legacyRow_eq]
  unfold legacyPromoted
  split
  · exact slot_promote row _ _
  · rfl

omit [Bs58Check] in
theorem slot_adoptedRow (row : SlotState) (resp : FinalSlotResponse) (block : Option BlockId)
    (trail : Option String) : (adoptedRow row resp block trail).slot = row.slot := by
  rw [adoptedRow_eq]

theorem slot_proceeds {db : Db} {s : Slot} {row : SlotState} {resp : FinalSlotResponse}
    {p : Patching} (proceeds : Proceeds db s row resp p) : p.state.slot = row.slot := by
  cases proceeds with
  | promoted open_ => exact slot_promote _ _ _
  | agreed settled agree trails => rfl
  | adopted settled l q held offered differ adopts =>
      exact (congrArg SlotState.slot (adoptPeerVerdict_row db row resp _ _)).trans
        (slot_adoptedRow row resp _ _)

omit [Bs58Check] in
theorem status_promote (row : SlotState) (isMiss : Bool) (block : Option BlockId) :
    (promote row isMiss block).status = .final := by rw [promote_eq]

theorem status_proceeds {db : Db} {s : Slot} {row : SlotState} {resp : FinalSlotResponse}
    {p : Patching} (proceeds : Proceeds db s row resp p) : p.state.status = .final := by
  cases proceeds with
  | promoted open_ => exact status_promote _ _ _
  | agreed settled agree trails => exact settled
  | adopted settled l q held offered differ adopts =>
      rw [adoptPeerVerdict_row, adoptedRow_eq]
      exact settled

theorem status_legacyPromoted (resp : FinalSlotResponse) (row : SlotState) :
    (legacyPromoted resp row).status = .final := by
  unfold legacyPromoted
  split
  · exact status_promote _ _ _
  · next settled => exact not_not.mp settled

theorem exec_legacyPromoted (resp : FinalSlotResponse) (row : SlotState) :
    (legacyPromoted resp row).completeness.execOutputFinal = row.completeness.execOutputFinal := by
  unfold legacyPromoted
  split
  · rw [promote_eq]
  · rfl

/-! ## The row of each event -/

/-- A node block that is taken whole. -/
structure TakenBlock where
  head : BlockHead
  endorsements : List StoredEndorsement
  operationIds : List OperationId

def takenBlock (db : Db) (fb : FilledBlock) (nowMs : Int) : Option TakenBlock :=
  match decodeHead fb with
  | .error _ => none
  | .ok head =>
      match (persistEndorsements db (head.endorsements nowMs)).result,
        (ingestOperations db head nowMs fb.operations).result,
        (head.endorsements nowMs).mapM resolveEndorsement with
      | .ok (), .ok operationIds, .ok endorsements => some ⟨head, endorsements, operationIds⟩
      | _, _, _ => none

/-- A FINAL frame that completes the row of a settled slot. -/
def Completes (row : SlotState) (frame : ExecFrame) (exec : ExecutionOutput) : Prop :=
  frame = .final ∧ trailsDiffer row.executionTrailHash (frameTrail exec) = false ∧
    sameVerdict row exec = true ∧ row.completeness.execOutputFinal = false

instance (row : SlotState) (frame : ExecFrame) (exec : ExecutionOutput) :
    Decidable (Completes row frame exec) := instDecidableAnd

def frameMove (row : SlotState) (frame : ExecFrame) (exec : ExecutionOutput) (nowMs : Int) :
    Option RowMove :=
  if row.status = .final then
    if Completes row frame exec then some ⟨completedRow row exec nowMs, false⟩ else none
  else some ⟨frameRow row frame exec nowMs, frame = .final⟩

/-- A row that has its transfers is not written again. -/
def transfersMove (row : SlotState) (nowMs : Int) : Option RowMove :=
  if row.completeness.transfersStored then none
  else some ⟨{ row with
    completeness := { row.completeness with transfersStored := true }
    lastUpdatedTsMs := nowMs }, false⟩

def peerMove (row : SlotState) (resp : FinalSlotResponse) (nowMs : Int) : Reconciled → RowMove
  | .turnedAway _ => ⟨{ row with lastUpdatedTsMs := nowMs }, false⟩
  | .proceed p => ⟨{ peerRow resp p.state with lastUpdatedTsMs := nowMs }, true⟩

def forcedRow (row : SlotState) (resp : FinalSlotResponse) : SlotState :=
  { adoptedRow row resp (parseFinalBlockId resp) (peerTrail resp) with status := .final }

def rowMove (db : Db) (e : Timed) : Option RowMove :=
  match e.event with
  | .block fb =>
      (takenBlock db fb e.nowMs).map fun b =>
        ⟨bodySeen (rowAt db b.head.slot e.nowMs) b.head.id e.nowMs, true⟩
  | .exec out =>
      (readFrame out).bind fun (s, frame, exec) => frameMove (rowAt db s e.nowMs) frame exec e.nowMs
  | .transfers resp =>
      resp.slot.bind fun pb => transfersMove (rowAt db (NodeDecode.slotFromPb pb) e.nowMs) e.nowMs
  | .peerPatch resp =>
      if resp.finalKnown then
        (slotOf resp).map fun s =>
          peerMove (rowAt db s e.nowMs) resp e.nowMs (reconcileVerdict db s (rowAt db s e.nowMs) resp)
      else none
  | .legacyPatch resp =>
      if resp.finalKnown then
        (slotOf resp).map fun s =>
          ⟨{ legacyRow resp (legacyPromoted resp (rowAt db s e.nowMs)) with
              lastUpdatedTsMs := e.nowMs }, true⟩
      else none
  | .forcedVerdict resp =>
      match slotOf resp, forcedTarget resp with
      | some s, .ok v =>
          if (rowAt db s e.nowMs).status = .final ∧ Verdict.ofLocal (rowAt db s e.nowMs) = some v then
            none
          else some ⟨{ forcedRow (rowAt db s e.nowMs) resp with lastUpdatedTsMs := e.nowMs }, false⟩
      | _, _ => none
  | .tick => none

variable [DenunciationDigest]

theorem slots_block (db : Db) (fb : FilledBlock) (nowMs : Int) :
    contents (step db ⟨.block fb, nowMs⟩) .slots =
      contents ((rowMove db ⟨.block fb, nowMs⟩).elim db (RowMove.file nowMs db)) .slots := by
  change contents (handleBlock db fb nowMs).db .slots = _
  dsimp only [rowMove]
  unfold takenBlock
  cases decoded : decodeHead fb with
  | error err => rw [handleBlock, decoded]; rfl
  | ok head =>
      rw [handleBlock_db decoded]
      dsimp only
      unfold handleBlockStages
      cases (persistEndorsements db (head.endorsements nowMs)).result with
      | error err => rw [contents_runAll]; rfl
      | ok done =>
          cases (ingestOperations db head nowMs fb.operations).result with
          | error err => rw [contents_runAll]; rfl
          | ok operationIds =>
              cases (head.endorsements nowMs).mapM resolveEndorsement with
              | error err => rw [contents_runAll]; rfl
              | ok endorsements =>
                  rw [contents_runAll]
                  have here : (bodySeen (rowAt db head.slot nowMs) head.id nowMs).slot = head.slot :=
                    (slot_bodySeen _ _ _).trans (slot_rowAt db head.slot nowMs)
                  rw [Option.map_some, Option.elim_some, RowMove.file_stub (s := head.slot) here rfl]
                  rfl

omit [DenunciationDigest] in
theorem confirmFrame_eq (db : Db) (row : SlotState) (frame : ExecFrame) (exec : ExecutionOutput)
    (nowMs : Int) : confirmFrame db row frame exec nowMs =
      if Completes row frame exec then completeFinalExecFromNode db row exec nowMs else db := rfl

theorem slots_exec (db : Db) (out : SlotExecutionOutput) (nowMs : Int) :
    contents (step db ⟨.exec out, nowMs⟩) .slots =
      contents ((rowMove db ⟨.exec out, nowMs⟩).elim db (RowMove.file nowMs db)) .slots := by
  change contents (handleExec db out nowMs).db .slots = _
  rw [handleExec_db]
  dsimp only [rowMove]
  rcases readFrame out with - | ⟨s, frame, exec⟩
  · rfl
  · simp only [Option.bind_some, frameMove]
    have here := slot_rowAt db s nowMs
    generalize rowAt db s nowMs = row at here ⊢
    subst here
    by_cases settled : row.status = .final
    · rw [if_pos settled, if_pos settled, confirmFrame_eq]
      by_cases completes : Completes row frame exec
      · rw [if_pos completes, if_pos completes, completeFinalExecFromNode_eq, contents_runAll]
        rfl
      · rw [if_neg completes, if_neg completes]
        rfl
    · rw [if_neg settled, if_neg settled, recordFrame_eq, contents_runAll]
      cases frame <;> rfl

theorem slots_transfers (db : Db) (resp : NewTransfersInfoServerResponse) (nowMs : Int) :
    contents (step db ⟨.transfers resp, nowMs⟩) .slots =
      contents ((rowMove db ⟨.transfers resp, nowMs⟩).elim db (RowMove.file nowMs db)) .slots := by
  change contents (handleTransfers db resp nowMs).db .slots = _
  rw [handleTransfers_db]
  dsimp only [rowMove]
  cases resp.slot with
  | none => rfl
  | some pb =>
      dsimp only
      rw [contents_runAll, Option.bind_some]
      change contents (settleTransfers db (NodeDecode.slotFromPb pb) nowMs) .slots = _
      unfold settleTransfers transfersMove rowAt
      cases db.readSlot (NodeDecode.slotFromPb pb) with
      | none => rfl
      | some row =>
          dsimp only [Option.getD_some]
          split <;> rfl

theorem slots_peer (db : Db) (resp : FinalSlotResponse) (nowMs : Int) :
    contents (step db ⟨.peerPatch resp, nowMs⟩) .slots =
      contents ((rowMove db ⟨.peerPatch resp, nowMs⟩).elim db (RowMove.file nowMs db)) .slots := by
  change contents (applyPeerPatch db resp nowMs).1 .slots = _
  dsimp only [rowMove]
  cases about : slotOf resp with
  | none =>
      rw [applyPeerPatch, about]
      cases resp.finalKnown <;> rfl
  | some s =>
      cases known : resp.finalKnown with
      | false => rw [applyPeerPatch, about, known]; rfl
      | true =>
          rw [applyPeerPatch_eq about known, if_pos rfl, Option.map_some, Option.elim_some]
          have here := slot_rowAt db s nowMs
          generalize rowAt db s nowMs = row at here ⊢
          subst here
          cases taken : reconcileVerdict db row.slot row resp with
          | turnedAway out => rfl
          | proceed p =>
              have proceeds := proceeds_of_reconcileVerdict taken
              have start : contents p.db .slots = contents db .slots := proceeds.frame (by decide)
              have same : (peerRow resp p.state).slot = row.slot :=
                (slot_peerRow resp p.state).trans (slot_proceeds proceeds)
              have stages : contents (Stage.runAll (peerPartStages row.slot resp nowMs p.state ++
                  closingStages row.slot (peerRow resp p.state) nowMs) p.db) .slots =
                  contents (ensureParentStub (p.db.writeSlot
                    { peerRow resp p.state with lastUpdatedTsMs := nowMs }) row.slot nowMs) .slots := by
                rw [contents_runAll, peerPartStages]
                cases deliveredBlock resp <;> cases takesExec resp p.state <;>
                  cases takesTransfers resp p.state <;> rfl
              refine stages.trans ?_
              have written := (confinedTo_apply (.slot { peerRow resp p.state with
                lastUpdatedTsMs := nowMs })).own _ _ start
              have stubbed := (confined_ensureParentStub row.slot nowMs).own _ _ written
              rw [RowMove.file_stub (s := row.slot) same rfl]
              exact stubbed

theorem slots_legacy (db : Db) (resp : FinalSlotResponse) (nowMs : Int) :
    contents (step db ⟨.legacyPatch resp, nowMs⟩) .slots =
      contents ((rowMove db ⟨.legacyPatch resp, nowMs⟩).elim db (RowMove.file nowMs db)) .slots := by
  change contents (applyLegacyPatch db resp nowMs).1 .slots = _
  dsimp only [rowMove]
  cases about : slotOf resp with
  | none =>
      rw [applyLegacyPatch, about]
      cases resp.finalKnown <;> rfl
  | some s =>
      cases known : resp.finalKnown with
      | false => rw [applyLegacyPatch, about, known]; rfl
      | true =>
          rw [applyLegacyPatch_eq about known, if_pos rfl, Option.map_some, Option.elim_some]
          have same : (legacyRow resp (legacyPromoted resp (rowAt db s nowMs))).slot = s :=
            (slot_legacyRow resp _).trans (slot_rowAt db s nowMs)
          rw [RowMove.file_stub (s := s) same rfl, contents_runAll, legacyPartStages]
          cases legacyBody resp (legacyPromoted resp (rowAt db s nowMs)) <;> split <;> split <;> rfl

theorem slots_forced (db : Db) (resp : FinalSlotResponse) (nowMs : Int) :
    contents (step db ⟨.forcedVerdict resp, nowMs⟩) .slots =
      contents ((rowMove db ⟨.forcedVerdict resp, nowMs⟩).elim db (RowMove.file nowMs db)) .slots := by
  unfold step
  dsimp only [rowMove]
  cases about : slotOf resp with
  | none => rw [applyForcedVerdict, about]; rfl
  | some s =>
      cases target : forcedTarget resp with
      | error err => rw [applyForcedVerdict, about, target]; rfl
      | ok v =>
          rw [applyForcedVerdict_eq about target]
          dsimp only
          split
          · rfl
          · rw [contents_runAll, adoptStages]
            cases (rowAt db s nowMs).finalBlockId <;> rfl

/-- **Every event moves the slot rows as its move says.** -/
theorem slots_step (db : Db) (e : Timed) :
    contents (step db e) .slots =
      contents ((rowMove db e).elim db (RowMove.file e.nowMs db)) .slots := by
  obtain ⟨event, nowMs⟩ := e
  cases event with
  | block fb => exact slots_block db fb nowMs
  | exec out => exact slots_exec db out nowMs
  | transfers resp => exact slots_transfers db resp nowMs
  | peerPatch resp => exact slots_peer db resp nowMs
  | legacyPatch resp => exact slots_legacy db resp nowMs
  | forcedVerdict resp => exact slots_forced db resp nowMs
  | tick => rfl

/-- **The slot rows after an event.** -/
theorem readSlot_step (db : Db) (e : Timed) (u : Slot) :
    (step db e).readSlot u =
      match rowMove db e with
      | none => db.readSlot u
      | some m =>
          if m.row.slot = u then some (readBackSlotState m.row)
          else if m.stubs u then (db.readSlot u).or (some (SlotState.fresh u e.nowMs))
          else db.readSlot u := by
  rw [sameReadSlot (slots_step db e)]
  cases rowMove db e with
  | none => rfl
  | some m => exact readSlot_file e.nowMs db m u

/-- The row of a slot after an event: the one it writes, the one there was, or a stub. -/
theorem row_after {db : Db} {e : Timed} {t : Slot} {row : SlotState}
    (found : (step db e).readSlot t = some row) :
    (∃ m, rowMove db e = some m ∧ m.row.slot = t ∧ row = readBackSlotState m.row) ∨
      (db.readSlot t = some row ∧ ∀ m, rowMove db e = some m → m.row.slot ≠ t) ∨
      row = SlotState.fresh t e.nowMs := by
  rw [readSlot_step] at found
  cases moved : rowMove db e with
  | none =>
      rw [moved] at found
      dsimp only at found
      refine .inr (.inl ⟨found, fun m absent => by cases absent⟩)
  | some m =>
      rw [moved] at found
      dsimp only at found
      split at found
      · next here => exact .inl ⟨m, rfl, here, (Option.some.inj found).symm⟩
      · next other =>
          have apart : ∀ m', some m = some m' → m'.row.slot ≠ t := by
            rintro _ ⟨⟩
            exact other
          split at found
          · rcases Option.or_eq_some_iff.mp found with old | ⟨-, fresh⟩
            · exact .inr (.inl ⟨old, apart⟩)
            · exact .inr (.inr (Option.some.inj fresh).symm)
          · exact .inr (.inl ⟨found, apart⟩)

end MassaIndexer.Writer.RowMoves
