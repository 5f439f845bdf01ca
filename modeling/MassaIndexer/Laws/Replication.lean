/-
# Laws.Replication -- a slot is passed on as it is held

A store that holds a slot whole answers with everything it has of it. A store that knows nothing of
the slot takes the answer in and holds of the slot what the first one holds; it then holds the slot
whole itself, and the answer of another holder changes nothing of that. So a slot spreads over the mesh
as it is held, however often and in whatever order the answers are passed on
(`slot_spreads_as_held`).

What is compared (`Holding`) is the verdict and the exec summary of the row, the flags of its three
parts, the body of the final block with the operations it lists, and the events and transfers of the
slot; the pools and the clock stamps of the row are not.
-/
import MassaIndexer.Chain.Snapshot
import MassaIndexer.Laws.Provenance
import MassaIndexer.Writer.BlockMoves
import MassaIndexer.Writer.Rewrites

namespace MassaIndexer.Laws.Replication

open MassaIndexer.Theory.KeyedTable MassaIndexer.Theory.Footprint MassaIndexer.Theory.Network
open MassaIndexer.Theory.Runs
open MassaIndexer.Data.Ids MassaIndexer.Data.Model MassaIndexer.Data.Proto MassaIndexer.Data.Keys
open MassaIndexer.Data.Codec MassaIndexer.Data.RowCodec
open MassaIndexer.Store.ColumnFamilies MassaIndexer.Store.Footprint
open MassaIndexer.Writer.Shared MassaIndexer.Writer.Step MassaIndexer.Writer.Families
open MassaIndexer.Writer.Patches MassaIndexer.Writer.Moves MassaIndexer.Writer.RowMoves
open MassaIndexer.Writer.BlockMoves MassaIndexer.Writer.Rewrites
open MassaIndexer.Peer.Patch MassaIndexer.Peer.Arbiter MassaIndexer.Peer.Service
open MassaIndexer.Peer.Network MassaIndexer.Chain MassaIndexer.Laws.Provenance

set_option autoImplicit false

/-! ## Holdings -/

/-- What a store holds of a slot. -/
structure Holding where
  status : SlotStatus
  isMiss : Bool
  finalBlockId : Option BlockId
  trail : Option String
  executedOpIds : List OperationId
  scEventCount : UInt32
  body : Bool
  exec : Bool
  transfersStored : Bool
  block : Option StoredBlock
  operations : List (Option StoredOperation)
  events : List StoredScEvent
  transfers : List StoredTransfer

def finalBody (db : Db) (row : SlotState) : Option StoredBlock := row.finalBlockId.bind db.readBlock

def holdingOf (db : Db) (row : SlotState) : Holding where
  status := row.status
  isMiss := row.isMiss
  finalBlockId := row.finalBlockId
  trail := row.executionTrailHash
  executedOpIds := row.executedOpIds
  scEventCount := row.scEventCount
  body := row.completeness.blockBodyStored
  exec := row.completeness.execOutputFinal
  transfersStored := row.completeness.transfersStored
  block := finalBody db row
  operations := ((finalBody db row).elim [] (·.operationIds)).map db.readOp
  events := db.scEventsOfSlot row.slot
  transfers := db.transfersForSlot row.slot

def holding (db : Db) (s : Slot) : Option Holding := (db.readSlot s).map (holdingOf db)

/-- The parts of a slot, all asked for. -/
def everything : FinalSlotParts := { block := true, execOutput := true, transfers := true }

/-- The store has the body of a block that is final, and a row for each operation and endorsement in
it. -/
structure HasBody (db : Db) (block : StoredBlock) : Prop where
  stored : db.readBlock block.id = some block
  final : block.status = .final
  operations : ∀ id ∈ block.operationIds, (db.readOp id).isSome = true
  endorsements : ∀ e ∈ block.endorsements, (db.readEndorsement e.id).isSome = true

/-- The store holds the slot whole: FINAL, with every part flagged, and either a miss or with the body
of its block; and an answer has room for its events. -/
structure Whole (db : Db) (row : SlotState) : Prop where
  found : db.readSlot row.slot = some row
  final : row.status = .final
  body : row.completeness.blockBodyStored = true
  exec : row.completeness.execOutputFinal = true
  transfers : row.completeness.transfersStored = true
  miss : row.isMiss = true → row.finalBlockId = none
  held : row.isMiss = false → ∃ block, row.finalBlockId = some block.id ∧ HasBody db block
  events : (db.scEventsOfSlot row.slot).length ≤ rowCap

/-- A row that says nothing of what a patch settles; it may list candidates. -/
structure Blank (row : SlotState) : Prop where
  unsettled : row.status ≠ .final
  block : row.finalBlockId = none
  trail : row.executionTrailHash = none
  executed : row.executedOpIds = []
  exec : row.completeness.execOutputFinal = false
  transfers : row.completeness.transfersStored = false

theorem blank_fresh (s : Slot) (nowMs : Int) : Blank (SlotState.fresh s nowMs) :=
  ⟨by simp [SlotState.fresh], rfl, rfl, rfl, rfl, rfl⟩

/-- The store knows nothing of the slot, of the block that is final there, nor of its operations. -/
structure Untold (db : Db) (s : Slot) (final : Option StoredBlock) : Prop where
  row : ∀ row, db.readSlot s = some row → Blank row
  block : ∀ block, final = some block → db.readBlock block.id = none
  operations : ∀ block, final = some block → ∀ id ∈ block.operationIds, db.readOp id = none

theorem Untold.blank_rowAt {db : Db} {s : Slot} {final : Option StoredBlock}
    (untold : Untold db s final) (nowMs : Int) : Blank (rowAt db s nowMs) := by
  unfold rowAt
  cases found : db.readSlot s with
  | none => exact blank_fresh s nowMs
  | some row => exact untold.row row found

section Indexers

variable [Bs58Check]

/-! ## The answer -/

/-- What an answer carries of a slot. -/
structure Carries (db : Db) (row : SlotState) (resp : FinalSlotResponse) : Prop where
  about : slotOf resp = some row.slot
  known : resp.finalKnown = true
  miss : resp.isMiss = row.isMiss
  block : parseFinalBlockId resp = row.finalBlockId
  trail : peerTrail resp = row.executionTrailHash
  body : deliveredBlock resp = finalBody db row
  operations : resp.operations = ((finalBody db row).elim [] (·.operationIds)).filterMap fun id =>
    (db.readOp id).map operationToPeerPb
  endorsements : resp.endorsements =
    ((finalBody db row).elim [] (·.endorsements)).map endorsementToPb
  executed : parseOpIds resp.executedOpIds = row.executedOpIds
  count : resp.scEventCount = row.scEventCount
  events : decodedEvents resp = db.scEventsOfSlot row.slot
  transfers : decodedTransfers resp = db.transfersForSlot row.slot
  exec : execAsserted resp = true
  transfersToo : transfersAsserted resp = true

section Answer

variable {db : Db} {row : SlotState}

omit [Bs58Check] in
/-- A whole slot is served with the body of its block. -/
theorem servedBlock_eq (whole : Whole db row) : servedBlock db row everything = finalBody db row := by
  unfold servedBlock finalBody
  cases missed : row.isMiss with
  | true =>
      rw [whole.miss missed]
      rfl
  | false => rfl

theorem parseFinalBlockId_text (id : Option BlockId) (resp : FinalSlotResponse)
    (named : resp.finalBlockId = (id.map (·.text)).getD "") : parseFinalBlockId resp = id := by
  unfold parseFinalBlockId
  rw [named]
  cases id with
  | none => rfl
  | some b =>
      have written : (FamilyId.text b).isEmpty = false := by simp
      simp [written, BlockId.parse, Except.toOption]

omit [Bs58Check] in
theorem peerTrail_getD {trail : Option String} (stored : readBackTrail trail = trail)
    (resp : FinalSlotResponse) (named : resp.executionTrailHash = trail.getD "") :
    peerTrail resp = trail := by
  unfold peerTrail
  rw [named]
  cases trail with
  | none => rfl
  | some t =>
      have written : t.isEmpty = false := by
        cases blank : t.isEmpty with
        | false => rfl
        | true => simp [readBackTrail, Option.filter, blank] at stored
      simp [written]

theorem parseOpIds_text (ids : List OperationId) : parseOpIds (ids.map (·.text)) = ids := by
  unfold parseOpIds
  rw [List.filterMap_map]
  refine (List.filterMap_congr fun id _ => ?_).trans List.filterMap_some
  simp [OperationId.parse, Except.toOption]

omit [Bs58Check] in
theorem decodedEvents_of_shipped {resp : FinalSlotResponse} {events : List StoredScEvent}
    (shipped : resp.scEvents = events.map scEventToPeerPb) : decodedEvents resp = events := by
  unfold decodedEvents
  rw [shipped, List.filterMap_map]
  refine (List.filterMap_congr fun ev _ => ?_).trans List.filterMap_some
  simp [scEventFromPeerPb_toPeerPb, Except.toOption]

omit [Bs58Check] in
/-- Stored transfers travel unchanged. -/
theorem decodedTransfers_of_shipped {resp : FinalSlotResponse} {transfers : List StoredTransfer}
    (stored : ∀ t ∈ transfers, readBackTransfer t = t)
    (shipped : resp.transfers = transfers.map transferToPeerPb) :
    decodedTransfers resp = transfers := by
  unfold decodedTransfers
  rw [shipped, List.filterMap_map]
  refine (List.filterMap_congr fun t member => ?_).trans List.filterMap_some
  simp [transferFromPeerPb_toPeerPb, Except.toOption, stored t member]

/-- **A whole slot is answered whole.** -/
theorem carries_answer (whole : Whole db row) :
    Carries db row (buildFinalSlotResponseFromState db row everything) := by
  have header := header_build whole.final db everything
  have served := servedBlock_eq whole
  have stored : ∀ t ∈ db.transfersForSlot row.slot, readBackTransfer t = t := fun t member =>
    Table.stored_of_get (Table.mem_under_iff.mp member).1
  have room : (db.scEventsOfSlot row.slot).take rowCap = db.scEventsOfSlot row.slot :=
    List.take_of_length_le whole.events
  have trail := Db.trail_of_readSlot whole.found
  have unmissed : ∀ block, finalBody db row = some block → row.isMiss = false := by
    intro block body
    cases missed : row.isMiss with
    | false => rfl
    | true => simp [finalBody, whole.miss missed] at body
  have shape : buildFinalSlotResponseFromState db row everything = withTransfersPart db row everything
      (withExecPart db row everything (withBlockPart db row everything (finalHeader row everything))) :=
    if_neg (not_not.mpr whole.final)
  have block : withBlockPart db row everything (finalHeader row everything) =
      { finalHeader row everything with
        block := (finalBody db row).map blockToPeerPb
        endorsements := ((finalBody db row).elim [] (·.endorsements)).map endorsementToPb
        operations := ((finalBody db row).elim [] (·.operationIds)).filterMap fun id =>
          (db.readOp id).map operationToPeerPb } := by
    unfold withBlockPart
    rw [served]
    cases finalBody db row <;> rfl
  rw [shape, block] at header ⊢
  exact {
    about := header.about
    known := header.known
    miss := rfl
    block := parseFinalBlockId_text _ _ rfl
    trail := peerTrail_getD trail _ rfl
    body := by
      change (if row.isMiss then none else ((finalBody db row).map blockToPeerPb).bind fun pb =>
        (blockFromPeerPb pb).toOption) = finalBody db row
      cases body : finalBody db row with
      | none => simp
      | some block => simp [unmissed block body, Except.toOption]
    operations := rfl
    endorsements := rfl
    executed := parseOpIds_text _
    count := rfl
    events := decodedEvents_of_shipped (congrArg (List.map scEventToPeerPb) room)
    transfers := decodedTransfers_of_shipped stored rfl
    exec := whole.exec
    transfersToo := whole.transfers }

end Answer

/-! ## Operations and endorsements of a shipped body -/

omit [Bs58Check] in
/-- An operation merged with itself. -/
theorem mergeOperation_self (op : StoredOperation) : mergeOperation op op = op := by
  rw [mergeOperation_eq]
  obtain ⟨id, creator, target, kind, expire, fee, thread, inclusions, candidate, final, details⟩ := op
  cases final <;> cases inclusions <;> rfl

omit [Bs58Check] in
/-- Operations that come from another store arrive as they are there, where none is held that
differs. -/
theorem readOp_shipped {source : Db} {ids : List OperationId}
    (held : ∀ id ∈ ids, (source.readOp id).isSome = true) {target : Db}
    (agree : ∀ id ∈ ids, target.readOp id = none ∨ target.readOp id = source.readOp id)
    (id : OperationId) :
    ((ids.filterMap fun id => (source.readOp id).map operationToPeerPb).foldl applyOperation
      target).readOp id = if id ∈ ids then source.readOp id else target.readOp id := by
  induction ids generalizing target with
  | nil => simp
  | cons first ids ih =>
      obtain ⟨heldFirst, heldRest⟩ := List.forall_mem_cons.mp held
      obtain ⟨agreeFirst, agreeRest⟩ := List.forall_mem_cons.mp agree
      obtain ⟨op, found⟩ := Option.isSome_iff_exists.mp heldFirst
      have own : op.id = first := Db.id_of_readOp found
      have decoded : operationFromPeerPb (operationToPeerPb op) = .ok op :=
          operationFromPeerPb_toPeerPb op
      have applied : ∀ u, (applyOperation target (operationToPeerPb op)).readOp u =
          if first = u then some op else target.readOp u := by
        intro u
        unfold applyOperation
        rw [decoded]
        dsimp only
        rw [own]
        rcases agreeFirst with unknown | known
        · rw [unknown]
          dsimp only
          rw [Db.readOp_writeOp, own]
        · rw [known, found]
          dsimp only
          rw [mergeOperation_self, if_neg (not_not.mpr rfl)]
          split
          · next here => rw [← here, known, found]
          · rfl
      rw [List.filterMap_cons_some (by rw [found]; rfl), List.foldl_cons, ih heldRest, applied]
      · by_cases here : first = id
        · subst here
          simp [found]
        · simp [here, Ne.symm here]
      · intro u listed
        rw [applied]
        split
        · next here => exact .inr (by rw [← here, found])
        · exact agreeRest u listed

omit [Bs58Check] in
/-- Of the endorsements shipped under an id the first one stays, where none is held. -/
theorem readEndorsement_shipped (es : List StoredEndorsement) (target : Db) (id : EndorsementId) :
    ((es.map endorsementToPb).foldl applyEndorsement target).readEndorsement id =
      (target.readEndorsement id).or (es.find? fun e => e.id = id) := by
  induction es generalizing target with
  | nil => simp
  | cons e es ih =>
      have applied : applyEndorsement target (endorsementToPb e) = target.writeEndorsement e := by
        unfold applyEndorsement
        rw [endorsementFromPb_toPb]
      rw [List.map_cons, List.foldl_cons, ih, applied, readEndorsement_write, List.find?_cons]
      by_cases here : e.id = id
      · cases target.readEndorsement id <;> simp [here]
      · simp [here]

/-! ## Taking an answer in -/

section Taking

variable {source target : Db} {row : SlotState} {resp : FinalSlotResponse}
  (carries : Carries source row resp) (nowMs : Int) {p : Patching}
  (taken : reconcileVerdict target row.slot (rowAt target row.slot nowMs) resp = .proceed p)
  (mild : p.out.divergenceRepaired = false)

/-- The row a response leaves that gets past reconciling. -/
def leftRow (resp : FinalSlotResponse) (p : Patching) (nowMs : Int) : SlotState :=
  { peerRow resp p.state with lastUpdatedTsMs := nowMs }

theorem slot_leftRow (taken : reconcileVerdict target row.slot (rowAt target row.slot nowMs) resp =
    .proceed p) : (leftRow resp p nowMs).slot = row.slot :=
  (slot_peerRow resp p.state).trans
    ((slot_proceeds (proceeds_of_reconcileVerdict taken)).trans (slot_rowAt target row.slot nowMs))

section Moves

include carries taken

theorem rowMove_answer : rowMove target ⟨.peerPatch resp, nowMs⟩ =
    some ⟨leftRow resp p nowMs, true⟩ := by
  simp [rowMove, carries.about, carries.known, taken, peerMove, leftRow]

include mild

theorem blockMove_answer : blockMove target ⟨.peerPatch resp, nowMs⟩ =
    { store := finalBody source row
      settle := some ((leftRow resp p nowMs).finalBlockId,
        (leftRow resp p nowMs).candidateBlockIds) } := by
  simp [blockMove, carries.about, carries.known, taken, mild, peerBlockMove, leftRow, carries.body]

theorem eventMove_answer : eventMove target ⟨.peerPatch resp, nowMs⟩ =
    if takesExec resp p.state then ⟨some row.slot, source.scEventsOfSlot row.slot⟩ else {} := by
  simp [eventMove, carries.about, carries.known, taken, mild, peerEventMove, carries.events]

theorem transferMove_answer : transferMove target ⟨.peerPatch resp, nowMs⟩ =
    if takesTransfers resp p.state then ⟨some row.slot, source.transfersForSlot row.slot⟩ else {} := by
  simp [transferMove, carries.about, carries.known, taken, mild, peerTransferMove, carries.transfers]

end Moves

omit [Bs58Check] in
theorem scEvents_foldl (events : List StoredScEvent) (db : Db) :
    (events.foldl Db.writeScEvent db).scEvents = events.foldl Table.put db.scEvents := by
  induction events generalizing db with
  | nil => rfl
  | cons ev events ih => exact ih _

theorem transfers_foldl (transfers : List StoredTransfer) (db : Db) :
    (transfers.foldl Db.writeTransfer db).transfers = transfers.foldl Table.put db.transfers := by
  induction transfers generalizing db with
  | nil => rfl
  | cons t transfers ih => exact ih _

section Received

variable [DenunciationDigest]

include carries taken

theorem readSlot_received : (step target ⟨.peerPatch resp, nowMs⟩).readSlot row.slot =
    some (readBackSlotState (leftRow resp p nowMs)) := by
  rw [readSlot_step, rowMove_answer carries nowMs taken]
  exact if_pos (slot_leftRow nowMs taken)

/-- The store an answer leaves: its parts, then the closing of the row. -/
theorem step_answer : step target ⟨.peerPatch resp, nowMs⟩ =
    Stage.runAll (peerPartStages row.slot resp nowMs p.state ++
      closingStages row.slot (peerRow resp p.state) nowMs) p.db := by
  change (applyPeerPatch target resp nowMs).1 = _
  rw [applyPeerPatch_eq carries.about carries.known, taken]

theorem ops_received {block : StoredBlock} (body : finalBody source row = some block) :
    contents (step target ⟨.peerPatch resp, nowMs⟩) .ops =
      contents (resp.operations.foldl applyOperation target) .ops := by
  have start : contents p.db .ops = contents target .ops :=
    (proceeds_of_reconcileVerdict taken).frame (by decide)
  have own := (Confined.foldl fun pb (_ : pb ∈ resp.operations) => confined_applyOperation pb).own _ _
    start
  rw [step_answer carries nowMs taken, contents_runAll, peerPartStages, carries.body, body]
  cases takesExec resp p.state <;> cases takesTransfers resp p.state <;> exact own

theorem endorsements_received {block : StoredBlock} (body : finalBody source row = some block) :
    contents (step target ⟨.peerPatch resp, nowMs⟩) .endorsements =
      contents (resp.endorsements.foldl applyEndorsement target) .endorsements := by
  have start : contents p.db .endorsements = contents target .endorsements :=
    (proceeds_of_reconcileVerdict taken).frame (by decide)
  have own := (Confined.foldl fun pb (_ : pb ∈ resp.endorsements) =>
    confined_applyEndorsement pb).own _ _ start
  rw [step_answer carries nowMs taken, contents_runAll, peerPartStages, carries.body, body]
  cases takesExec resp p.state <;> cases takesTransfers resp p.state <;> exact own

include mild

/-- Events that are not replaced have to be the source's already. -/
theorem scEvents_received (kept : takesExec resp p.state = false →
    target.scEventsOfSlot row.slot = source.scEventsOfSlot row.slot) :
    (step target ⟨.peerPatch resp, nowMs⟩).scEventsOfSlot row.slot =
      source.scEventsOfSlot row.slot := by
  rw [sameScEvents (events_step target ⟨.peerPatch resp, nowMs⟩),
    eventMove_answer carries nowMs taken mild]
  cases takes : takesExec resp p.state with
  | false => exact kept takes
  | true =>
      change Table.under ((source.scEventsOfSlot row.slot).foldl Db.writeScEvent
        (target.clearScEventsForSlot row.slot)).scEvents (slotKey row.slot) = _
      rw [scEvents_foldl]
      exact Table.under_replace target.scEvents source.scEvents (slotKey row.slot)

theorem transfers_received (kept : takesTransfers resp p.state = false →
    target.transfersForSlot row.slot = source.transfersForSlot row.slot) :
    (step target ⟨.peerPatch resp, nowMs⟩).transfersForSlot row.slot =
      source.transfersForSlot row.slot := by
  rw [sameTransfers (transfers_step target ⟨.peerPatch resp, nowMs⟩),
    transferMove_answer carries nowMs taken mild]
  cases takes : takesTransfers resp p.state with
  | false => exact kept takes
  | true =>
      change Table.under ((source.transfersForSlot row.slot).foldl Db.writeTransfer
        (target.clearTransfersForSlot row.slot)).transfers (slotKey row.slot) = _
      rw [transfers_foldl]
      exact Table.under_replace target.transfers source.transfers (slotKey row.slot)

theorem readBlock_received {block : StoredBlock} (body : finalBody source row = some block)
    (settles : (leftRow resp p nowMs).finalBlockId = some block.id) (final : block.status = .final)
    (agree : target.readBlock block.id = none ∨ target.readBlock block.id = some block) :
    (step target ⟨.peerPatch resp, nowMs⟩).readBlock block.id = some block := by
  have status : statusBy (leftRow resp p nowMs).finalBlockId
      (leftRow resp p nowMs).candidateBlockIds block.id = some .final := if_pos settles
  rw [readBlock_step, blockMove_answer carries nowMs taken mild, body]
  rcases agree with unknown | known
  · rw [unknown]
    simp [BlockMove.rowOf, status, settledTo, ← final]
  · rw [known]
    simp [BlockMove.rowOf, status, settledTo, ← final]

end Received

end Taking

/-- The rows say the same of the slot. -/
structure Echoes (row row' : SlotState) : Prop where
  slot : row'.slot = row.slot
  status : row'.status = row.status
  isMiss : row'.isMiss = row.isMiss
  block : row'.finalBlockId = row.finalBlockId
  trail : row'.executionTrailHash = row.executionTrailHash
  executed : row'.executedOpIds = row.executedOpIds
  count : row'.scEventCount = row.scEventCount
  body : row'.completeness.blockBodyStored = row.completeness.blockBodyStored
  exec : row'.completeness.execOutputFinal = row.completeness.execOutputFinal
  transfers : row'.completeness.transfersStored = row.completeness.transfersStored

/-- The answer of the source gets past the target's row, which then says what the source's row says;
and where the target knows of the slot already, it knows what the source knows. -/
structure Agrees (source target : Db) (row : SlotState) (resp : FinalSlotResponse) (p : Patching)
    (nowMs : Int) : Prop where
  taken : reconcileVerdict target row.slot (rowAt target row.slot nowMs) resp = .proceed p
  mild : p.out.divergenceRepaired = false
  echoes : Echoes row (readBackSlotState (leftRow resp p nowMs))
  events : takesExec resp p.state = false →
    target.scEventsOfSlot row.slot = source.scEventsOfSlot row.slot
  transfers : takesTransfers resp p.state = false →
    target.transfersForSlot row.slot = source.transfersForSlot row.slot
  block : ∀ block, finalBody source row = some block →
    target.readBlock block.id = none ∨ target.readBlock block.id = some block
  operations : ∀ block, finalBody source row = some block → ∀ id ∈ block.operationIds,
    target.readOp id = none ∨ target.readOp id = source.readOp id

section Handed

variable {source target : Db} {row : SlotState} {resp : FinalSlotResponse} {nowMs : Int} {p : Patching}

omit [Bs58Check] in
theorem finalBody_of_missed (whole : Whole source row) (missed : row.isMiss = true) :
    finalBody source row = none := by
  rw [finalBody, whole.miss missed]
  rfl

omit [Bs58Check] in
/-- The body a hit is held with. -/
theorem exists_finalBody (whole : Whole source row) (hit : row.isMiss = false) :
    ∃ block, finalBody source row = some block ∧ row.finalBlockId = some block.id ∧
      HasBody source block := by
  obtain ⟨block, settles, has⟩ := whole.held hit
  refine ⟨block, ?_, settles, has⟩
  rw [finalBody, settles]
  exact has.stored

variable [DenunciationDigest] (whole : Whole source row) (carries : Carries source row resp)
  (agrees : Agrees source target row resp p nowMs)

include carries agrees

/-- The body of the final block is there afterwards, and its operations are the source's. -/
theorem body_handed (block : StoredBlock) (body : finalBody source row = some block)
    (settles : row.finalBlockId = some block.id) (has : HasBody source block) :
    HasBody (step target ⟨.peerPatch resp, nowMs⟩) block ∧
      ∀ id ∈ block.operationIds,
        (step target ⟨.peerPatch resp, nowMs⟩).readOp id = source.readOp id := by
  have ops : ∀ id ∈ block.operationIds,
      (step target ⟨.peerPatch resp, nowMs⟩).readOp id = source.readOp id := by
    intro id listed
    rw [sameReadOp (ops_received carries nowMs agrees.taken body), carries.operations, body]
    exact (readOp_shipped has.operations (agrees.operations block body) id).trans (if_pos listed)
  refine ⟨?_, ops⟩
  exact {
    stored := readBlock_received carries nowMs agrees.taken agrees.mild body
      (agrees.echoes.block.trans settles) has.final (agrees.block block body)
    final := has.final
    operations := fun id listed => by rw [ops id listed]; exact has.operations id listed
    endorsements := by
      intro e listed
      rw [sameReadEndorsement (endorsements_received carries nowMs agrees.taken body),
        carries.endorsements, body]
      refine (congrArg Option.isSome (readEndorsement_shipped block.endorsements target e.id)).trans ?_
      rw [Option.isSome_or, Bool.or_eq_true]
      exact .inr (List.find?_isSome.mpr ⟨e, listed, by simp⟩) }

include whole

/-- **What is handed over is held as the source holds it, and whole.** -/
theorem whole_handed : ∃ row', Whole (step target ⟨.peerPatch resp, nowMs⟩) row' ∧
    row'.slot = row.slot ∧
    holdingOf (step target ⟨.peerPatch resp, nowMs⟩) row' = holdingOf source row := by
  have echoes := agrees.echoes
  have found := readSlot_received carries nowMs agrees.taken
  have events := scEvents_received carries nowMs agrees.taken agrees.mild agrees.events
  have transfers := transfers_received carries nowMs agrees.taken agrees.mild agrees.transfers
  have body := body_handed carries agrees
  generalize step target ⟨.peerPatch resp, nowMs⟩ = next at found events transfers body
  generalize readBackSlotState (leftRow resp p nowMs) = row' at echoes found
  have bodies : finalBody next row' = finalBody source row ∧
      ((finalBody source row).elim [] (·.operationIds)).map next.readOp =
        ((finalBody source row).elim [] (·.operationIds)).map source.readOp := by
    cases missed : row.isMiss with
    | true =>
        rw [finalBody_of_missed whole missed, finalBody, echoes.block, whole.miss missed]
        exact ⟨rfl, rfl⟩
    | false =>
        obtain ⟨block, stored, settles, has⟩ := exists_finalBody whole missed
        obtain ⟨arrived, ops⟩ := body block stored settles has
        rw [stored, finalBody, echoes.block, settles]
        exact ⟨arrived.stored, List.map_congr_left ops⟩
  refine ⟨row', ?_, echoes.slot, ?_⟩
  · exact {
      found := by rw [echoes.slot]; exact found
      final := echoes.status.trans whole.final
      body := echoes.body.trans whole.body
      exec := echoes.exec.trans whole.exec
      transfers := echoes.transfers.trans whole.transfers
      miss := fun missed => echoes.block.trans (whole.miss (echoes.isMiss.symm.trans missed))
      held := by
        intro hit
        obtain ⟨block, stored, settles, has⟩ :=
          exists_finalBody whole (echoes.isMiss.symm.trans hit)
        exact ⟨block, echoes.block.trans settles, (body block stored settles has).1⟩
      events := by rw [echoes.slot, events]; exact whole.events }
  · unfold holdingOf
    rw [bodies.1, bodies.2, echoes.slot, events, transfers, echoes.status, echoes.isMiss, echoes.block,
      echoes.trail, echoes.executed, echoes.count, echoes.body, echoes.exec, echoes.transfers]

end Handed

/-! ## A store that was told nothing -/

section Untold

variable {source target : Db} {row : SlotState} {resp : FinalSlotResponse} {nowMs : Int}

/-- The open row, promoted to the verdict of the answer. -/
def promotion (target : Db) (row : SlotState) (resp : FinalSlotResponse) : Patching where
  db := advanceHead target row.slot
  state := promote { row with executionTrailHash := (peerTrail resp).or row.executionTrailHash }
    resp.isMiss (parseFinalBlockId resp)
  out := { becameFinal := true }

theorem agrees_untold (whole : Whole source row) (carries : Carries source row resp)
    (untold : Untold target row.slot (finalBody source row)) :
    Agrees source target row resp (promotion target (rowAt target row.slot nowMs) resp) nowMs := by
  have blank := untold.blank_rowAt nowMs
  have here := slot_rowAt target row.slot nowMs
  generalize old : rowAt target row.slot nowMs = stub at blank here
  have trail := Db.trail_of_readSlot whole.found
  have exec : takesExec resp (promotion target stub resp).state = true := by
    unfold takesExec promotion
    rw [promote_eq, carries.exec]
    simp [blank.exec]
  have transfers : takesTransfers resp (promotion target stub resp).state = true := by
    unfold takesTransfers promotion
    rw [promote_eq, carries.transfersToo]
    simp [blank.transfers]
  refine {
    taken := ?_
    mild := rfl
    echoes := ?_
    events := fun idle => absurd (exec.symm.trans idle) (by decide)
    transfers := fun idle => absurd (transfers.symm.trans idle) (by decide)
    block := fun block body => .inl (untold.block block body)
    operations := fun block body id listed => .inl (untold.operations block body id listed) }
  · rw [old]
    unfold reconcileVerdict
    rw [if_pos blank.unsettled, ← here]
    rfl
  · unfold leftRow
    rw [peerRow_eq, exec, transfers]
    unfold promotion readBackSlotState
    rw [promote_eq, carries.miss, carries.block, carries.trail, carries.executed, carries.count,
      blank.block, blank.trail, blank.executed, Option.or_none]
    exact {
      slot := here
      status := whole.final.symm
      isMiss := rfl
      block := by
        cases missed : row.isMiss with
        | true => simp [whole.miss missed]
        | false => simp
      trail := trail
      executed := by simp
      count := by simp
      body := by
        rw [whole.body, carries.body]
        cases missed : row.isMiss with
        | true => simp
        | false =>
            obtain ⟨block, stored, -, -⟩ := exists_finalBody whole missed
            simp [stored]
      exec := by simp [whole.exec]
      transfers := by simp [whole.transfers] }

end Untold

/-! ## A store that holds the slot already -/

section Holder

variable {source target : Db} {row held : SlotState} {resp : FinalSlotResponse} {nowMs : Int}

omit [Bs58Check] in
theorem echoes_of_holding (here : held.slot = row.slot)
    (same : holdingOf target held = holdingOf source row) : Echoes row held where
  slot := here
  status := congrArg Holding.status same
  isMiss := congrArg Holding.isMiss same
  block := congrArg Holding.finalBlockId same
  trail := congrArg Holding.trail same
  executed := congrArg Holding.executedOpIds same
  count := congrArg Holding.scEventCount same
  body := congrArg Holding.body same
  exec := congrArg Holding.exec same
  transfers := congrArg Holding.transfersStored same

/-- A settled row meets its own verdict and trail hash. -/
theorem reconcileVerdict_own {s : Slot} (final : held.status = .final)
    (verdict : Verdict.ofLocal held = Verdict.ofPeer resp (parseFinalBlockId resp))
    (trail : peerTrail resp = held.executionTrailHash) :
    reconcileVerdict target s held resp = .proceed ⟨target, held, {}⟩ := by
  have agreed : reconcileTrail target held (peerTrail resp) = .proceed ⟨target, held, {}⟩ := by
    unfold reconcileTrail
    rw [trail]
    cases known : held.executionTrailHash with
    | none =>
        have same : { held with executionTrailHash := none } = held := by rw [← known]
        exact congrArg (fun row => Reconciled.proceed ⟨target, row, {}⟩) same
    | some hash => exact if_neg (not_not.mpr rfl)
  unfold reconcileVerdict
  dsimp only
  rw [if_neg (not_not.mpr final), ← verdict]
  cases Verdict.ofLocal held with
  | none => exact agreed
  | some v => exact (if_neg (not_not.mpr rfl)).trans agreed

theorem agrees_holder (carries : Carries source row resp)
    (whole : Whole target held) (here : held.slot = row.slot)
    (same : holdingOf target held = holdingOf source row) :
    Agrees source target row resp ⟨target, held, {}⟩ nowMs := by
  have echoes := echoes_of_holding here same
  have exec : takesExec resp held = false := by simp [takesExec, whole.exec]
  have transfers : takesTransfers resp held = false := by simp [takesTransfers, whole.transfers]
  have verdict : Verdict.ofLocal held = Verdict.ofPeer resp (parseFinalBlockId resp) := by
    unfold Verdict.ofLocal Verdict.ofPeer
    rw [carries.miss, carries.block, echoes.isMiss, echoes.block]
  have events : target.scEventsOfSlot held.slot = source.scEventsOfSlot row.slot :=
    congrArg Holding.events same
  have moves : target.transfersForSlot held.slot = source.transfersForSlot row.slot :=
    congrArg Holding.transfers same
  have bodies : finalBody target held = finalBody source row := congrArg Holding.block same
  have found := whole.found
  rw [here] at found events moves
  exact {
    taken := by
      rw [rowAt, found, Option.getD_some]
      exact reconcileVerdict_own whole.final verdict (carries.trail.trans echoes.trail.symm)
    mild := rfl
    echoes := by
      unfold leftRow
      rw [peerRow_eq, exec, transfers]
      exact {
        slot := here
        status := echoes.status
        isMiss := echoes.isMiss
        block := echoes.block
        trail := (Db.trail_of_readSlot whole.found).trans echoes.trail
        executed := echoes.executed
        count := echoes.count
        body := by simp [readBackSlotState, ← echoes.body, whole.body]
        exec := by simpa [readBackSlotState] using echoes.exec
        transfers := by simpa [readBackSlotState] using echoes.transfers }
    events := fun _ => events
    transfers := fun _ => moves
    block := by
      intro block body
      rw [← bodies, finalBody, Option.bind_eq_some_iff] at body
      obtain ⟨b, -, stored⟩ := body
      exact .inr (by rw [Db.id_of_readBlock stored]; exact stored)
    operations := by
      intro block body id listed
      have ops := congrArg Holding.operations same
      simp only [holdingOf, bodies, body, Option.elim_some] at ops
      exact .inr (List.map_inj_left.mp ops id listed) }

end Holder

/-! ## The mesh -/

/-- The store holds the slot whole, and this is what it holds of it. -/
def Holds (s : Slot) (h : Holding) (db : Db) : Prop :=
  ∃ row, Whole db row ∧ row.slot = s ∧ holdingOf db row = h

/-- An answer of a store that holds the slot. -/
def Offered (s : Slot) (h : Holding) (resp : FinalSlotResponse) : Prop :=
  ∃ db row, Whole db row ∧ row.slot = s ∧ holdingOf db row = h ∧
    resp = buildFinalSlotResponseFromState db row everything

theorem answer_untold {db : Db} {s : Slot} {final : Option StoredBlock} (untold : Untold db s final) :
    (buildFinalSlotResponse db s everything).finalKnown = false := by
  unfold buildFinalSlotResponse
  cases found : db.readSlot s with
  | none => rfl
  | some row =>
      dsimp only
      rw [buildFinalSlotResponseFromState, if_pos (untold.row row found).unsettled]

theorem offered_of_holds {db : Db} {s : Slot} {h : Holding} (holds : Holds s h db) :
    Offered s h (buildFinalSlotResponse db s everything) := by
  obtain ⟨row, whole, here, same⟩ := holds
  refine ⟨db, row, whole, here, same, ?_⟩
  have found := whole.found
  rw [here] at found
  rw [buildFinalSlotResponse, found]

variable [DenunciationDigest]

theorem applyPeerPatch_unknown {resp : FinalSlotResponse} (unknown : resp.finalKnown = false) (db : Db)
    (nowMs : Int) : (applyPeerPatch db resp nowMs).1 = db := by
  unfold applyPeerPatch
  rw [unknown]
  cases slotOf resp <;> rfl

theorem holds_of_agrees {source target : Db} {row : SlotState} {h : Holding} {p : Patching}
    {nowMs : Int} (whole : Whole source row) (same : holdingOf source row = h)
    (agrees : Agrees source target row
      (buildFinalSlotResponseFromState source row everything) p nowMs) :
    Holds row.slot h (applyPeerPatch target
      (buildFinalSlotResponseFromState source row everything) nowMs).1 := by
  obtain ⟨row', whole', here, copied⟩ := whole_handed whole (carries_answer whole) agrees
  exact ⟨row', whole', here, copied.trans same⟩

/-- **A slot held whole spreads.** -/
theorem spreads_slot (s : Slot) (h : Holding) :
    Spreads indexer (· = (s, everything)) (Untold · s h.block) (Holds s h)
      (fun resp : FinalSlotResponse => resp.finalKnown = false) (Offered s h) where
  answer_open := by
    rintro db _ rfl untold
    exact answer_untold untold
  answer_has := by
    rintro db _ rfl holds
    exact offered_of_holds holds
  silent db resp nowMs unknown := applyPeerPatch_unknown unknown db nowMs
  told := by
    rintro db _ nowMs untold ⟨source, row, whole, rfl, rfl, rfl⟩
    exact holds_of_agrees whole rfl (agrees_untold whole (carries_answer whole) untold)
  again := by
    rintro db _ nowMs ⟨held, holder, here, copied⟩ ⟨source, row, whole, rfl, rfl, rfl⟩
    exact holds_of_agrees whole rfl (agrees_holder (carries_answer whole) holder here copied)

/-- **A settled slot spreads over the mesh as it is held.** Where some indexers hold the slot whole and
alike, and the others know nothing of it, then however requests for it and answers to them interleave,
are delayed, repeated or lost: whoever held it or was given an answer of a holder holds exactly that,
and everyone else is as before. -/
theorem slot_spreads_as_held {ι : Type} [DecidableEq ι] (s : Slot) (h : Holding)
    (net : Net ι Db FinalSlotResponse) (quiet : net.sent = [])
    (each : ∀ i, Untold (net.node i) s h.block ∨ Holds s h (net.node i))
    (events : List (Event ι Timed (Slot × FinalSlotParts) Int))
    (asking : ∀ e ∈ events, Asking (· = (s, everything)) e) (i : ι) :
    (Holds s h (net.node i) ∨ Told indexer (Offered s h) net events i →
      Holds s h ((run (Net.step indexer) net events).node i)) ∧
    (¬ Holds s h (net.node i) → ¬ Told indexer (Offered s h) net events i →
      (run (Net.step indexer) net events).node i = net.node i) := by
  have spread := spread_of_asking (spreads_slot s h) quiet each asking
  rcases spread.nodes i with ⟨holds, learned⟩ | ⟨same, open_, untold⟩
  · exact ⟨fun _ => holds, fun unheld untold => absurd learned (not_or.mpr ⟨unheld, untold⟩)⟩
  · refine ⟨?_, fun _ _ => same⟩
    rintro (holds | told)
    · rw [same]
      exact holds
    · exact absurd told untold

end Indexers

/-! ## Two indexers -/

section Pair

attribute [local instance] Bs58Check.doubleSha noDenunciations

def coinOp : StoredOperation where
  id := opNo 9
  creator := ⟨List.replicate addrKeyLen 0, Address.width_zeros⟩
  target := none
  kind := .transaction
  expirePeriod := 20
  feeNmas := 0
  thread := 1
  inclusions := [⟨⟨5, 1⟩, blockNo 1⟩]
  candidateExecStatus := some .ok
  finalExecStatus := some .ok
  details := {}
  signature := ""
  contentCreatorPubKey := ""
  serializedSize := 0
  rawSignedOp := []
  firstSeenTsMs := 3

def heldBlock : StoredBlock :=
  { bareBlock (blockNo 1) ⟨5, 1⟩ [] with operationIds := [coinOp.id], status := .final }

def heldRow : SlotState :=
  { settledRow ⟨5, 1⟩ (.block (blockNo 1)) with
    executionTrailHash := some "trail"
    executedOpIds := [coinOp.id]
    completeness := { blockBodyStored := true, execOutputFinal := true, transfersStored := true } }

/-- A store that holds slot (5, 1) whole, with block 1 and its operation. -/
def holder : Db := ((Db.empty.writeBlock heldBlock).writeOp coinOp).writeSlot heldRow

theorem whole_holder : Whole holder heldRow where
  found := (Db.readSlot_writeSlot _ heldRow heldRow.slot).trans (if_pos rfl)
  final := rfl
  body := rfl
  exec := rfl
  transfers := rfl
  miss := by simp [heldRow, settledRow, SlotState.fresh]
  held := fun _ => ⟨heldBlock, rfl, {
    stored := (Db.readBlock_writeBlock Db.empty heldBlock heldBlock.id).trans (if_pos rfl)
    final := rfl
    operations := by
      intro id listed
      obtain rfl := List.mem_singleton.mp listed
      have found : holder.readOp coinOp.id = some coinOp :=
        (Db.readOp_writeOp _ coinOp coinOp.id).trans (if_pos rfl)
      rw [found]
      rfl
    endorsements := by simp [heldBlock, bareBlock] }⟩
  events := by
    have bare : holder.scEventsOfSlot heldRow.slot = [] := by
      refine List.eq_nil_iff_forall_not_mem.mpr fun ev member => ?_
      have found := (Table.mem_under_iff.mp member).1
      exact absurd (found.symm.trans (Table.get_empty _)) (by simp)
    rw [bare]
    exact Nat.zero_le _

/-- One indexer holds the slot, the other is empty. -/
def pair : Net Bool Db FinalSlotResponse := ⟨fun i => if i then Db.empty else holder, []⟩

theorem untold_empty (s : Slot) (final : Option StoredBlock) : Untold Db.empty s final where
  row row found := absurd (found.symm.trans (Table.get_empty _)) (by simp)
  block block _ := Table.get_empty block.id.bytes
  operations _ _ id _ := Table.get_empty id.bytes

theorem slot_spreads_as_held_pair : Holds ⟨5, 1⟩ (holdingOf holder heldRow)
    ((run (Net.step indexer) pair
      [.send false (⟨5, 1⟩, everything), .deliver true 0 7]).node true) := by
  have holds : Holds ⟨5, 1⟩ (holdingOf holder heldRow) holder := ⟨heldRow, whole_holder, rfl, rfl⟩
  refine (slot_spreads_as_held ⟨5, 1⟩ (holdingOf holder heldRow) pair rfl ?_ _ ?_ true).1 (.inr ?_)
  · rintro (_ | _)
    · exact .inr holds
    · exact .inl (untold_empty _ _)
  · simp [Asking]
  · exact ⟨[.send false (⟨5, 1⟩, everything)], 0, 7, [],
      buildFinalSlotResponse holder ⟨5, 1⟩ everything, rfl, rfl, offered_of_holds holds⟩

end Pair

end MassaIndexer.Laws.Replication
