/-
# Laws.SlotShare -- what an event does to the slot it is about

Slot rows, smart-contract events and transfers belong to slots. Every event but the tick is about one
slot (`about`), and what it does there goes by its own row, whatever else the store holds and whatever
the clock says: that is so of blocks whose operations can all be read, and of a peer's answer that does
not dispute the verdict of the row (`Fits`). Elsewhere an event does nothing to these rows, but that a
patch files the events and transfers it carries for other slots (`Spares`).
-/
import MassaIndexer.Laws.EventIdempotence
import MassaIndexer.Writer.Moves
import MassaIndexer.Writer.Rewrites
import MassaIndexer.Writer.RowMoves

namespace MassaIndexer.Laws.SlotShare

open MassaIndexer.Theory.Footprint MassaIndexer.Theory.KeyedTable
open MassaIndexer.Data.Ids MassaIndexer.Data.Model MassaIndexer.Data.Proto MassaIndexer.Data.Codec
open MassaIndexer.Data.RowCodec
open MassaIndexer.Store.ColumnFamilies MassaIndexer.Store.Footprint MassaIndexer.Store.SlotRows
open MassaIndexer.Store.Timeless
open MassaIndexer.Writer.NodeProto MassaIndexer.Writer.NodeDecode
open MassaIndexer.Writer.Shared MassaIndexer.Writer.Handlers MassaIndexer.Writer.Step
open MassaIndexer.Writer.Families MassaIndexer.Writer.Patches MassaIndexer.Writer.BodyMoves
open MassaIndexer.Writer.RowMoves MassaIndexer.Writer.RowBlocks MassaIndexer.Writer.Moves
open MassaIndexer.Peer.Patch MassaIndexer.Peer.Arbiter
open MassaIndexer.Laws.BlockAtomicity MassaIndexer.Laws.BlockRedelivery
open MassaIndexer.Laws.LegacyDecoders MassaIndexer.Laws.EventIdempotence

set_option autoImplicit false

/-! ## Rows and their clocks -/

section Rows

variable {row row' : SlotState}

/-- The same row at another time. -/
theorem timelessSlot_eq_iff : timelessSlot row = timelessSlot row' ↔ ∃ first last,
    row' = { row with firstSeenTsMs := first, lastUpdatedTsMs := last } := by
  constructor
  · intro same
    refine ⟨row'.firstSeenTsMs, row'.lastUpdatedTsMs, ?_⟩
    cases row
    cases row'
    simp only [timelessSlot, SlotState.mk.injEq] at same ⊢
    simp [same]
  · rintro ⟨first, last, rfl⟩
    rfl

theorem timelessSlot_rowAt (db : Db) (s : Slot) (nowMs laterMs : Int) :
    timelessSlot (rowAt db s nowMs) = timelessSlot (rowAt db s laterMs) := by
  unfold rowAt
  cases db.readSlot s <;> rfl

theorem timelessSlot_readBack (same : timelessSlot row = timelessSlot row') :
    timelessSlot (readBackSlotState row) = timelessSlot (readBackSlotState row') := by
  obtain ⟨first, last, rfl⟩ := timelessSlot_eq_iff.mp same
  rfl

variable [Bs58Check]

omit [Bs58Check] in
theorem bodySeen_alike (same : timelessSlot row = timelessSlot row') (id : BlockId)
    (nowMs laterMs : Int) :
    timelessSlot (bodySeen row id nowMs) = timelessSlot (bodySeen row' id laterMs) := by
  obtain ⟨first, last, rfl⟩ := timelessSlot_eq_iff.mp same
  rw [bodySeen_eq, bodySeen_eq, SlotState.addCandidate_eq, SlotState.addCandidate_eq]
  rfl

theorem frameMove_alike (same : timelessSlot row = timelessSlot row') (frame : ExecFrame)
    (exec : ExecutionOutput) (nowMs laterMs : Int) :
    (frameMove row frame exec nowMs).map (timelessSlot ·.row) =
      (frameMove row' frame exec laterMs).map (timelessSlot ·.row) := by
  obtain ⟨first, last, rfl⟩ := timelessSlot_eq_iff.mp same
  unfold frameMove
  by_cases settled : row.status = .final
  · simp only [if_pos settled]
    change (if Completes row frame exec then _ else none).map _ =
      (if Completes row frame exec then _ else none).map _
    split <;> rfl
  · simp only [if_neg settled]
    cases frame <;> rfl

omit [Bs58Check] in
theorem transfersMove_alike (same : timelessSlot row = timelessSlot row') (nowMs laterMs : Int) :
    (transfersMove row nowMs).map (timelessSlot ·.row) =
      (transfersMove row' laterMs).map (timelessSlot ·.row) := by
  obtain ⟨first, last, rfl⟩ := timelessSlot_eq_iff.mp same
  unfold transfersMove
  dsimp only
  split <;> rfl

theorem peerRow_alike (same : timelessSlot row = timelessSlot row') (resp : FinalSlotResponse) :
    timelessSlot (peerRow resp row) = timelessSlot (peerRow resp row') := by
  obtain ⟨first, last, rfl⟩ := timelessSlot_eq_iff.mp same
  rw [peerRow_eq, peerRow_eq]
  cases deliveredBlock resp with
  | none => rfl
  | some block =>
      simp only [Option.elim_some, SlotState.addCandidate_eq]
      rfl

theorem legacyRow_alike (same : timelessSlot row = timelessSlot row') (resp : FinalSlotResponse) :
    timelessSlot (legacyRow resp (legacyPromoted resp row)) =
      timelessSlot (legacyRow resp (legacyPromoted resp row')) := by
  have promoted : timelessSlot (legacyPromoted resp row) = timelessSlot (legacyPromoted resp row') := by
    obtain ⟨first, last, rfl⟩ := timelessSlot_eq_iff.mp same
    unfold legacyPromoted
    dsimp only
    split
    · rw [promote_eq, promote_eq]
      cases parseFinalBlockId resp with
      | none => rfl
      | some block =>
          simp only [Option.elim_some, SlotState.addCandidate_eq]
          rfl
    · rfl
  obtain ⟨first, last, left⟩ := timelessSlot_eq_iff.mp promoted
  rw [left, legacyRow_eq, legacyRow_eq]
  generalize legacyPromoted resp row = row₁
  have body : legacyBody resp { row₁ with firstSeenTsMs := first, lastUpdatedTsMs := last } =
      legacyBody resp row₁ := rfl
  rw [body]
  cases legacyBody resp row₁ with
  | none => rfl
  | some block =>
      simp only [Option.elim_some, SlotState.addCandidate_eq]
      rfl

theorem forcedRow_alike (same : timelessSlot row = timelessSlot row') (resp : FinalSlotResponse) :
    timelessSlot (forcedRow row resp) = timelessSlot (forcedRow row' resp) := by
  obtain ⟨first, last, rfl⟩ := timelessSlot_eq_iff.mp same
  unfold forcedRow
  rw [adoptedRow_eq, adoptedRow_eq]
  cases parseFinalBlockId resp with
  | none => rfl
  | some block =>
      simp only [Option.elim_some, SlotState.addCandidate_eq]
      rfl

end Rows

variable [Bs58Check]

/-! ## Blocks -/

/-- An operation with an id can be filed: it has a message, and its creator parses. -/
def Legible (filled : FilledOperation) : Prop :=
  ∀ signedOp, filled.operation = some signedOp → (opIdOf filled).isSome = true →
    signedOp.content.isSome = true ∧ (Address.parse signedOp.contentCreatorAddress).isOk = true

theorem freshOperation_legible {signedOp : SignedOperation} (content : signedOp.content.isSome = true)
    (creator : (Address.parse signedOp.contentCreatorAddress).isOk = true) (id : OperationId)
    (thread : UInt8) (nowMs : Int) : ∃ op, freshOperation signedOp id thread nowMs = .ok op := by
  obtain ⟨held, here⟩ := Option.isSome_iff_exists.mp content
  unfold freshOperation
  rw [here]
  cases parsed : Address.parse signedOp.contentCreatorAddress with
  | error err =>
      rw [parsed] at creator
      cases creator
  | ok a => exact ⟨_, rfl⟩

/-- Operations that can all be filed are taken by every store. -/
theorem ingestOperations_legible {ops : List FilledOperation} (legible : ∀ filled ∈ ops, Legible filled)
    (head : BlockHead) (nowMs : Int) (db : Db) :
    ∃ ids, (ingestOperations db head nowMs ops).result = .ok ids := by
  induction ops generalizing db with
  | nil => exact ⟨[], rfl⟩
  | cons filled rest ih =>
      obtain ⟨here, later⟩ := List.forall_mem_cons.mp legible
      have goes : ∀ next id, ingestOperation db head nowMs filled = ⟨next, .ok id⟩ →
          ∃ ids, (ingestOperations db head nowMs (filled :: rest)).result = .ok ids := by
        intro next id taken
        obtain ⟨ids, result⟩ := ih later next
        rw [ingestOperations, taken]
        exact ⟨_, congrArg (Except.map _) result⟩
      rcases ingestOperation_cases db head nowMs filled with
        ⟨-, taken⟩ | ⟨id, op, -, -, taken⟩ | ⟨id, signedOp, e, filed, -, carried, refused, -⟩ |
          ⟨id, signedOp, fresh, -, -, -, -, taken⟩
      · exact goes _ _ taken
      · exact goes _ _ taken
      · obtain ⟨content, creator⟩ := here signedOp carried (by rw [filed]; rfl)
        obtain ⟨op, accepted⟩ := freshOperation_legible content creator id head.slot.thread nowMs
        rw [refused] at accepted
        cases accepted
      · exact goes _ _ taken

/-- **Whether a legible block is taken is in its message.** -/
theorem head_takenBlock [DenunciationDigest] {fb : FilledBlock}
    (legible : ∀ filled ∈ fb.operations, Legible filled)
    (db db' : Db) (nowMs laterMs : Int) :
    (takenBlock db fb nowMs).map TakenBlock.head = (takenBlock db' fb laterMs).map TakenBlock.head := by
  have reads : ∀ db nowMs, (takenBlock db fb nowMs).map TakenBlock.head =
      (decodeHead fb).toOption.bind fun head =>
        ((head.endorsements nowMs).mapM resolveEndorsement).toOption.map fun _ => head := by
    intro db nowMs
    unfold takenBlock
    cases decodeHead fb with
    | error err => rfl
    | ok head =>
        dsimp only
        obtain ⟨ids, taken⟩ := ingestOperations_legible legible head nowMs db
        cases resolved : (head.endorsements nowMs).mapM resolveEndorsement with
        | error err =>
            cases (persistEndorsements db (head.endorsements nowMs)).result <;> rw [taken] <;>
              simp [Except.toOption, resolved]
        | ok es =>
            have resolve := (mapM_resolve_iff _).mp ⟨es, resolved⟩
            have persisted : (persistEndorsements db (head.endorsements nowMs)).result = .ok () :=
              (persistEndorsements_eq head nowMs _ db).2.mpr (clean_endorsements resolve db)
            rw [persisted, taken]
            simp [Except.toOption, resolved]
  rw [reads, reads]
  cases decodeHead fb with
  | error err => rfl
  | ok head =>
      have again := mapM_resolve_restamp (head.endorsements nowMs) laterMs
      rw [show (head.endorsements nowMs).map (restamp laterMs) = _ from
        endorsements_restamp head nowMs laterMs] at again
      simp only [Except.toOption, Option.bind_some, again]
      cases (head.endorsements nowMs).mapM resolveEndorsement <;> rfl

/-! ## Answers of a peer -/

/-- What an answer works on once it is past the row: the row, and whether it replaces a verdict. -/
def Reading (r : Reconciled) : Option (SlotState × Bool) :=
  match r with
  | .turnedAway _ => none
  | .proceed p => some (timelessSlot p.state, p.out.divergenceRepaired)

theorem reconcileVerdict_undisputed (row : SlotState) {resp : FinalSlotResponse}
    (settled : row.status = .final) (agree : ¬ Disputes row resp) (db : Db) (s : Slot) :
    reconcileVerdict db s row resp = reconcileTrail db row (peerTrail resp) := by
  unfold reconcileVerdict
  dsimp only
  rw [if_neg (not_not.mpr settled)]
  cases held : Verdict.ofLocal row with
  | none => rfl
  | some l =>
      cases offered : Verdict.ofPeer resp (parseFinalBlockId resp) with
      | none => rfl
      | some p =>
          dsimp only
          rw [if_neg]
          exact fun differ => agree ⟨l, p, held, offered, differ⟩

omit [Bs58Check] in
theorem reading_reconcileTrail (db : Db) (row : SlotState) (trail : Option String) :
    Reading (reconcileTrail db row trail) =
      if trailsDiffer row.executionTrailHash trail then none
      else some (timelessSlot { row with executionTrailHash := row.executionTrailHash.or trail },
          false) := by
  unfold reconcileTrail
  cases known : row.executionTrailHash with
  | none => rfl
  | some existing =>
      have same : { row with executionTrailHash := some existing } = row := by rw [← known]
      cases trail with
      | none => exact congrArg (fun row => some (timelessSlot row, false)) same.symm
      | some incoming =>
          simp only [trailsDiffer, Option.some_or, same, decide_eq_true_eq]
          split <;> rfl

/-- **An answer that does not dispute the verdict goes by the row alone.** -/
theorem reading_alike {row row' : SlotState} (same : timelessSlot row = timelessSlot row')
    {resp : FinalSlotResponse} (agree : row.status = .final → ¬ Disputes row resp) (db db' : Db)
    (s : Slot) : Reading (reconcileVerdict db s row resp) = Reading
        (reconcileVerdict db' s row' resp) := by
  obtain ⟨first, last, rfl⟩ := timelessSlot_eq_iff.mp same
  by_cases settled : row.status = .final
  · have again := reconcileVerdict_undisputed
      { row with firstSeenTsMs := first, lastUpdatedTsMs := last } settled (agree settled) db' s
    rw [reconcileVerdict_undisputed row settled (agree settled), again]
    rw [reading_reconcileTrail, reading_reconcileTrail]
    rfl
  · unfold reconcileVerdict
    dsimp only
    rw [if_pos settled, if_pos settled]
    unfold Reading
    dsimp only
    rw [promote_eq, promote_eq]
    cases parseFinalBlockId resp with
    | none => rfl
    | some block =>
        simp only [Option.elim_some, SlotState.addCandidate_eq]
        rfl

theorem peerMove_alike {row row' : SlotState} (same : timelessSlot row = timelessSlot row')
    {r r' : Reconciled} (reads : Reading r = Reading r') (resp : FinalSlotResponse)
        (nowMs laterMs : Int) :
    timelessSlot (peerMove row resp nowMs r).row = timelessSlot
        (peerMove row' resp laterMs r').row := by
  cases r with
  | turnedAway out =>
      cases r' with
      | turnedAway out' => exact same
      | proceed p' => cases reads
  | proceed p =>
      cases r' with
      | turnedAway out' => cases reads
      | proceed p' =>
          have states : timelessSlot p.state = timelessSlot p'.state :=
            congrArg Prod.fst (Option.some.inj reads)
          exact peerRow_alike states resp

omit [Bs58Check] in
/-- Which parts are taken is read off the row and the answer. -/
theorem peerMoves_eq (s : Slot) (resp : FinalSlotResponse) (r : Reconciled) :
    peerEventMove s resp r = (Reading r).elim {} (fun at_ =>
        if takesExec resp at_.1 then ⟨some s, decodedEvents resp⟩
        else if at_.2 then ⟨some s, []⟩ else {}) ∧
      peerTransferMove s resp r = (Reading r).elim {} fun at_ =>
        if takesTransfers resp at_.1 then ⟨some s, decodedTransfers resp⟩
        else if at_.2 then ⟨some s, []⟩ else {} := by
  cases r <;> exact ⟨rfl, rfl⟩

/-! ## The slot an event is about -/

def about (e : Event) : Option Slot :=
  match e with
  | .block fb => (decodeHead fb).toOption.map BlockHead.slot
  | .exec out => (readFrame out).map Prod.fst
  | .transfers resp => resp.slot.map Writer.NodeDecode.slotFromPb
  | .peerPatch resp => slotOf resp
  | .legacyPatch resp => slotOf resp
  | .forcedVerdict resp => slotOf resp
  | .tick => none

/-- What slot `u` makes of an event, whenever it comes. -/
def own (u : Slot) (e : Timed) : Option Event := if about e.event = some u then some e.event else none

/-- The event goes by the row of its slot alone: a block has no operation that cannot be filed, a peer's
answer does not dispute the verdict of the row. -/
def Fits (u : Slot) (db : Db) : Event → Prop
  | .block fb => ∀ filled ∈ fb.operations, Legible filled
  | .peerPatch resp => (rowAt db u 0).status = .final → ¬ Disputes (rowAt db u 0) resp
  | _ => True

/-- A patch about another slot carries no events and no transfers of slot `u`. -/
def Spares (u : Slot) : Event → Prop
  | .peerPatch resp =>
      (∀ ev ∈ decodedEvents resp, ev.slot ≠ u) ∧ ∀ t ∈ decodedTransfers resp, t.slot ≠ u
  | .legacyPatch resp => ∀ t ∈ decodedTransfers resp, t.slot ≠ u
  | _ => True

theorem about_of_own {u : Slot} {e : Timed} {event : Event} (mine : own u e = some event) :
    e.event = event ∧ about event = some u := by
  unfold own at mine
  split at mine
  · next here =>
      obtain rfl := Option.some.inj mine
      exact ⟨rfl, here⟩
  · cases mine

/-- The row an event writes is that of its slot. -/
theorem about_of_rowMove {db : Db} {e : Timed} {m : RowMove} (moved : rowMove db e = some m) :
    about e.event = some m.row.slot := by
  obtain ⟨event, nowMs⟩ := e
  cases event with
  | block fb =>
      obtain ⟨b, taken, rfl⟩ := Option.map_eq_some_iff.mp moved
      have decoded := decodeHead_of_takenBlock taken
      have slot := (slot_bodySeen (rowAt db b.head.slot nowMs) b.head.id nowMs).trans
        (slot_rowAt db b.head.slot nowMs)
      change (decodeHead fb).toOption.map BlockHead.slot = some _
      rw [decoded, slot]
      rfl
  | exec out =>
      obtain ⟨read, found, moved⟩ := Option.bind_eq_some_iff.mp moved
      change (readFrame out).map Prod.fst = _
      rw [found]
      have here := slot_rowAt db read.1 nowMs
      change frameMove (rowAt db read.1 nowMs) read.2.1 read.2.2 nowMs = some m at moved
      unfold frameMove at moved
      split at moved
      · split at moved
        · obtain rfl := Option.some.inj moved
          exact congrArg some here.symm
        · cases moved
      · obtain rfl := Option.some.inj moved
        exact congrArg some ((slot_frameRow _ _ _ _).trans here).symm
  | transfers resp =>
      obtain ⟨pb, found, moved⟩ := Option.bind_eq_some_iff.mp moved
      change resp.slot.map Writer.NodeDecode.slotFromPb = _
      rw [found]
      unfold transfersMove at moved
      split at moved
      · cases moved
      · obtain rfl := Option.some.inj moved
        exact congrArg some (slot_rowAt db _ nowMs).symm
  | peerPatch resp =>
      dsimp only [rowMove] at moved
      split at moved
      · obtain ⟨s, found, rfl⟩ := Option.map_eq_some_iff.mp moved
        have here := slot_rowAt db s nowMs
        refine found.trans (congrArg some ?_)
        cases taken : reconcileVerdict db s (rowAt db s nowMs) resp with
        | turnedAway out => exact here.symm
        | proceed p =>
            exact ((slot_peerRow resp p.state).trans
              ((slot_proceeds (proceeds_of_reconcileVerdict taken)).trans here)).symm
      · cases moved
  | legacyPatch resp =>
      dsimp only [rowMove] at moved
      split at moved
      · obtain ⟨s, found, rfl⟩ := Option.map_eq_some_iff.mp moved
        exact found.trans (congrArg some ((slot_legacyRow resp _).trans (slot_rowAt db s nowMs)).symm)
      · cases moved
  | forcedVerdict resp =>
      dsimp only [rowMove] at moved
      split at moved
      · next s v found target =>
          split at moved
          · cases moved
          · obtain rfl := Option.some.inj moved
            exact found.trans (congrArg some ((slot_adoptedRow _ resp _
              (peerTrail resp)).trans
              (slot_rowAt db s nowMs)).symm)
      · cases moved
  | tick => cases moved

/-! ## Own events -/

section Own

variable {db db' : Db} {u : Slot} {e e' : Timed} {event : Event}

omit [Bs58Check] in
/-- Whatever the clock says. -/
theorem rowAt_alike (same : timelessSlot (rowAt db u 0) = timelessSlot (rowAt db' u 0))
    (nowMs laterMs : Int) :
    timelessSlot (rowAt db u nowMs) = timelessSlot (rowAt db' u laterMs) :=
  (timelessSlot_rowAt db u nowMs 0).trans (same.trans (timelessSlot_rowAt db' u 0 laterMs))

theorem reading_own (same : timelessSlot (rowAt db u 0) = timelessSlot (rowAt db' u 0))
    {resp : FinalSlotResponse} (fits : Fits u db (.peerPatch resp)) (nowMs laterMs : Int) :
    Reading (reconcileVerdict db u (rowAt db u nowMs) resp) =
      Reading (reconcileVerdict db' u (rowAt db' u laterMs) resp) := by
  refine reading_alike (rowAt_alike same nowMs laterMs) ?_ db db' u
  obtain ⟨first, last, left⟩ := timelessSlot_eq_iff.mp (timelessSlot_rowAt db u 0 nowMs)
  rw [left]
  exact fits

/-- **The row an own event writes goes by the row it meets.** -/
theorem rowMove_own [DenunciationDigest] (mine : own u e = some event) (mine' : own u e' = some event)
    (fits : Fits u db event) (same : timelessSlot (rowAt db u 0) = timelessSlot (rowAt db' u 0)) :
    (rowMove db e).map (timelessSlot ·.row) = (rowMove db' e').map (timelessSlot ·.row) := by
  obtain ⟨rfl, here⟩ := about_of_own mine
  obtain ⟨alike, -⟩ := about_of_own mine'
  obtain ⟨event, nowMs⟩ := e
  obtain ⟨event', laterMs⟩ := e'
  obtain rfl : event' = event := alike
  have rows := rowAt_alike same nowMs laterMs
  cases event' with
  | block fb =>
      dsimp only [rowMove]
      have heads := head_takenBlock fits db db' nowMs laterMs
      cases taken : takenBlock db fb nowMs with
      | none =>
          rw [taken] at heads
          rw [Option.map_eq_none_iff.mp heads.symm]
          rfl
      | some b =>
          rw [taken] at heads
          obtain ⟨b', taken', head⟩ := Option.map_eq_some_iff.mp heads.symm
          have decoded := decodeHead_of_takenBlock taken
          have slot : b.head.slot = u := by
            change (decodeHead fb).toOption.map BlockHead.slot = some u at here
            rw [decoded] at here
            exact Option.some.inj here
          rw [taken', Option.map_some, Option.map_some, Option.map_some, Option.map_some, head, slot]
          exact congrArg some (bodySeen_alike rows b.head.id nowMs laterMs)
  | exec out =>
      dsimp only [rowMove]
      obtain ⟨read, found, slot⟩ := Option.map_eq_some_iff.mp here
      rw [found, Option.bind_some, Option.bind_some, slot]
      exact frameMove_alike rows read.2.1 read.2.2 nowMs laterMs
  | transfers resp =>
      dsimp only [rowMove]
      obtain ⟨pb, found, slot⟩ := Option.map_eq_some_iff.mp here
      rw [found, Option.bind_some, Option.bind_some, slot]
      exact transfersMove_alike rows nowMs laterMs
  | peerPatch resp =>
      dsimp only [rowMove]
      split
      · rw [show slotOf resp = some u from here]
        exact congrArg some (peerMove_alike rows (reading_own same fits nowMs laterMs) resp nowMs
            laterMs)
      · rfl
  | legacyPatch resp =>
      dsimp only [rowMove]
      split
      · rw [show slotOf resp = some u from here]
        exact congrArg some (legacyRow_alike rows resp)
      · rfl
  | forcedVerdict resp =>
      dsimp only [rowMove]
      rw [show slotOf resp = some u from here]
      cases forcedTarget resp with
      | error err => rfl
      | ok v =>
          dsimp only
          obtain ⟨first, last, left⟩ := timelessSlot_eq_iff.mp rows
          have forced := forcedRow_alike rows resp
          rw [left] at forced ⊢
          change (if (rowAt db u nowMs).status = .final ∧ Verdict.ofLocal (rowAt db u nowMs) = some v
            then none else _).map _ = (if (rowAt db u nowMs).status = .final ∧
              Verdict.ofLocal (rowAt db u nowMs) = some v then none else _).map _
          split
          · rfl
          · exact congrArg some forced
  | tick => cases here

/-- **And so do the events it files.** -/
theorem eventMove_own (mine : own u e = some event) (mine' : own u e' = some event)
    (fits : Fits u db event) (same : timelessSlot (rowAt db u 0) = timelessSlot (rowAt db' u 0)) :
    eventMove db e = eventMove db' e' := by
  obtain ⟨rfl, here⟩ := about_of_own mine
  obtain ⟨alike, -⟩ := about_of_own mine'
  obtain ⟨event, nowMs⟩ := e
  obtain ⟨event', laterMs⟩ := e'
  obtain rfl : event' = event := alike
  obtain ⟨first, last, left⟩ := timelessSlot_eq_iff.mp (rowAt_alike same nowMs laterMs)
  cases event' with
  | exec out =>
      dsimp only [eventMove]
      obtain ⟨read, found, slot⟩ := Option.map_eq_some_iff.mp here
      rw [found, Option.elim_some, Option.elim_some, slot, left]
      rfl
  | peerPatch resp =>
      dsimp only [eventMove]
      split
      · rw [show slotOf resp = some u from here, Option.elim_some, Option.elim_some,
          (peerMoves_eq u resp _).1, (peerMoves_eq u resp _).1, reading_own same fits nowMs laterMs]
      · rfl
  | forcedVerdict resp =>
      dsimp only [eventMove]
      rw [show slotOf resp = some u from here]
      cases forcedTarget resp with
      | error err => rfl
      | ok v =>
          dsimp only
          rw [left]
          rfl
  | _ => rfl

/-- **And the transfers.** -/
theorem transferMove_own (mine : own u e = some event) (mine' : own u e' = some event)
    (fits : Fits u db event) (same : timelessSlot (rowAt db u 0) = timelessSlot (rowAt db' u 0)) :
    AlikeMoves timelessTransfer (transferMove db e) (transferMove db' e') := by
  obtain ⟨rfl, here⟩ := about_of_own mine
  obtain ⟨alike, -⟩ := about_of_own mine'
  obtain ⟨event, nowMs⟩ := e
  obtain ⟨event', laterMs⟩ := e'
  obtain rfl : event' = event := alike
  obtain ⟨first, last, left⟩ := timelessSlot_eq_iff.mp (rowAt_alike same nowMs laterMs)
  cases event' with
  | transfers resp =>
      dsimp only [transferMove]
      cases resp.slot with
      | none => exact ⟨rfl, rfl⟩
      | some pb => exact ⟨rfl, decodeTransfers_again resp _ nowMs laterMs⟩
  | peerPatch resp =>
      dsimp only [transferMove]
      split
      · rw [show slotOf resp = some u from here, Option.elim_some, Option.elim_some,
          (peerMoves_eq u resp _).2, (peerMoves_eq u resp _).2, reading_own same fits nowMs laterMs]
        exact ⟨rfl, rfl⟩
      · exact ⟨rfl, rfl⟩
  | forcedVerdict resp =>
      dsimp only [transferMove]
      rw [show slotOf resp = some u from here]
      cases forcedTarget resp with
      | error err => exact ⟨rfl, rfl⟩
      | ok v =>
          dsimp only
          rw [left]
          exact ⟨rfl, rfl⟩
  | _ => exact ⟨rfl, rfl⟩

end Own

/-! ## Events about other slots -/

section Others

variable {u : Slot} {e : Timed}

theorem slot_of_mem_frameEvents {s : Slot} {status : SlotStatus} {exec : ExecutionOutput}
    {ev : StoredScEvent} (member : ev ∈ frameEvents s status exec) : ev.slot = s := by
  unfold frameEvents at member
  obtain ⟨i, _, rfl⟩ := List.mem_mapIdx.mp member
  rfl

section Passing

variable {V : Type} [Row V] (F : Filing V)

/-- Neither clears slot `u` nor files a row of it. -/
def Passes (u : Slot) (m : Move V) : Prop := m.cleared ≠ some u ∧ ∀ v ∈ m.rows, F.slot v ≠ u

omit [Bs58Check] in
theorem passes_nothing (u : Slot) : Passes F u {} := ⟨by simp, by simp⟩

omit [Bs58Check] in
theorem passes_replaced {s : Slot} (other : s ≠ u) {rows : List V} (spared : ∀ v ∈ rows, F.slot v ≠ u) :
    Passes F u ⟨some s, rows⟩ := ⟨fun same => other (Option.some.inj same), spared⟩

omit [Bs58Check] in
/-- A part of an answer: its rows, or only the clearing, or nothing. -/
theorem passes_part {s : Slot} (other : s ≠ u) {rows : List V} (spared : ∀ v ∈ rows, F.slot v ≠ u)
    (taken repaired : Bool) :
    Passes F u (if taken then ⟨some s, rows⟩ else if repaired then ⟨some s, []⟩ else {}) := by
  cases taken with
  | true => exact passes_replaced F other spared
  | false =>
      cases repaired with
      | true => exact passes_replaced F other (by simp)
      | false => exact passes_nothing F u

end Passing

/-- **Another slot's event files nothing here**, unless it is a patch that carries rows of this slot. -/
theorem eventMove_passes (foreign : about e.event ≠ some u) (spares : Spares u e.event) (db : Db) :
    Passes eventFiling u (eventMove db e) := by
  obtain ⟨event, nowMs⟩ := e
  cases event with
  | exec out =>
      dsimp only [eventMove]
      cases read : readFrame out with
      | none => exact passes_nothing _ u
      | some taken =>
          have other : taken.1 ≠ u := by
            rintro rfl
            exact foreign (congrArg (Option.map Prod.fst) read)
          have files : ∀ status, Passes eventFiling u
              ⟨some taken.1, frameEvents taken.1 status taken.2.2⟩ :=
            fun status => passes_replaced eventFiling other fun ev member => by
              rw [show eventFiling.slot ev = taken.1 from slot_of_mem_frameEvents member]
              exact other
          rw [Option.elim_some]
          change Passes eventFiling u (frameEventMove (rowAt db taken.1 nowMs) taken.1 taken.2.1
              taken.2.2)
          unfold frameEventMove
          split
          · split
            · exact files .final
            · exact passes_nothing _ u
          · split
            · exact files .final
            · exact files .candidate
  | peerPatch resp =>
      dsimp only [eventMove]
      split
      · cases named : slotOf resp with
        | none => exact passes_nothing _ u
        | some s =>
            have other : s ≠ u := by
              rintro rfl
              exact foreign named
            rw [Option.elim_some, (peerMoves_eq s resp _).1]
            cases Reading (reconcileVerdict db s (rowAt db s nowMs) resp) with
            | none => exact passes_nothing _ u
            | some at_ => exact passes_part eventFiling other spares.1 _ _
      · exact passes_nothing _ u
  | forcedVerdict resp =>
      dsimp only [eventMove]
      split
      · next s v named target =>
          have other : s ≠ u := by
            rintro rfl
            exact foreign named
          split
          · exact passes_nothing _ u
          · exact passes_replaced eventFiling other (by simp)
      · exact passes_nothing _ u
  | _ => exact passes_nothing _ u

theorem transferMove_passes (foreign : about e.event ≠ some u) (spares : Spares u e.event) (db : Db) :
    Passes transferFiling u (transferMove db e) := by
  obtain ⟨event, nowMs⟩ := e
  cases event with
  | transfers resp =>
      dsimp only [transferMove]
      cases named : resp.slot with
      | none => exact passes_nothing _ u
      | some pb =>
          have other : Writer.NodeDecode.slotFromPb pb ≠ u := by
            rintro rfl
            exact foreign (congrArg (Option.map Writer.NodeDecode.slotFromPb) named)
          refine passes_replaced transferFiling other fun t member => ?_
          rw [show transferFiling.slot t = Writer.NodeDecode.slotFromPb pb from
              slot_of_mem_decodeTransfers member]
          exact other
  | peerPatch resp =>
      dsimp only [transferMove]
      split
      · cases named : slotOf resp with
        | none => exact passes_nothing _ u
        | some s =>
            have other : s ≠ u := by
              rintro rfl
              exact foreign named
            rw [Option.elim_some, (peerMoves_eq s resp _).2]
            cases Reading (reconcileVerdict db s (rowAt db s nowMs) resp) with
            | none => exact passes_nothing _ u
            | some at_ => exact passes_part transferFiling other spares.2 _ _
      · exact passes_nothing _ u
  | legacyPatch resp =>
      dsimp only [transferMove]
      split
      · cases slotOf resp with
        | none => exact passes_nothing _ u
        | some s => exact ⟨by simp, spares⟩
      · exact passes_nothing _ u
  | forcedVerdict resp =>
      dsimp only [transferMove]
      split
      · next s v named target =>
          have other : s ≠ u := by
            rintro rfl
            exact foreign named
          split
          · exact passes_nothing _ u
          · exact passes_replaced transferFiling other (by simp)
      · exact passes_nothing _ u
  | _ => exact passes_nothing _ u

end Others

end MassaIndexer.Laws.SlotShare
