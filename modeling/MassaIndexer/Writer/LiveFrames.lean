/- # Writer.LiveFrames -- what the writer tells the live feed

Each handler broadcasts as it writes: an operation and a block when they are filed, an event of a
slot, a slot row that has settled, and the row of the slot last. `frames` lists what one event sends,
in order; `feed` what a run sends.

`slotUpdates_frames` says which rows are sent: the row of the event's move, and no other. A patch that
is turned away files its row and sends nothing, and no stub is sent. -/
import MassaIndexer.Writer.RowMoves

namespace MassaIndexer.Writer.LiveFrames

open MassaIndexer.Theory.Footprint
open MassaIndexer.Data.Ids MassaIndexer.Data.Model MassaIndexer.Data.Proto MassaIndexer.Data.Codec
open MassaIndexer.Store.ColumnFamilies MassaIndexer.Store.Footprint
open MassaIndexer.Writer.NodeProto MassaIndexer.Writer.NodeDecode
open MassaIndexer.Writer.Shared MassaIndexer.Writer.Handlers MassaIndexer.Writer.Step
open MassaIndexer.Writer.Families MassaIndexer.Writer.Patches MassaIndexer.Writer.RowMoves
open MassaIndexer.Peer.Patch MassaIndexer.Peer.Arbiter

set_option autoImplicit false

inductive SlotSseEvent where
  | slotUpdated (row : SlotState)
  | blockSeen (row : StoredBlock)
  | slotFinal (row : SlotState)
  | opSeen (row : StoredOperation)
  | eventSeen (row : StoredScEvent)
  | heartbeat (serverTimeMs : Int)

namespace SlotSseEvent

def slotUpdate : SlotSseEvent → Option SlotState
  | .slotUpdated row => some row
  | _ => none

def finality : SlotSseEvent → Option SlotState
  | .slotFinal row => some row
  | _ => none

end SlotSseEvent

variable [Bs58Check]

/-! ## Frames of a handler -/

/-- The row filed for an operation of a block. -/
def seenOperation (db : Db) (head : BlockHead) (nowMs : Int) (filled : FilledOperation) :
    Option StoredOperation :=
  match filled.operation with
  | none => none
  | some signedOp =>
      match filledOpId filled signedOp with
      | none => none
      | some id =>
          match db.readOp id with
          | some stored => some (recordInclusion head stored)
          | none =>
              match freshOperation signedOp id head.slot.thread nowMs with
              | .error _ => none
              | .ok stored => some (recordInclusion head stored)

def operationFrames (db : Db) (head : BlockHead) (nowMs : Int) :
    List FilledOperation → List SlotSseEvent
  | [] => []
  | filled :: rest =>
      match ingestOperation db head nowMs filled with
      | ⟨_, .error _⟩ => []
      | ⟨after, .ok _⟩ =>
          ((seenOperation db head nowMs filled).map .opSeen).toList ++
            operationFrames after head nowMs rest

variable [DenunciationDigest]

/-- The frames sent before a handler fails have been sent. -/
def blockFrames (db : Db) (fb : FilledBlock) (nowMs : Int) : List SlotSseEvent :=
  match decodeHead fb with
  | .error _ => []
  | .ok head =>
      match persistEndorsements db (head.endorsements nowMs) with
      | ⟨_, .error _⟩ => []
      | ⟨db, .ok ()⟩ =>
          let db := head.denunciations.foldl
            (fun db d => db.writeDenunciation (denunciationEntry head.id nowMs d)) db
          let seen := operationFrames db head nowMs fb.operations
          match ingestOperations db head nowMs fb.operations with
          | ⟨_, .error _⟩ => seen
          | ⟨db, .ok operationIds⟩ =>
              let state := rowAt db head.slot nowMs
              match (head.endorsements nowMs).mapM resolveEndorsement with
              | .error _ => seen
              | .ok endorsements =>
                  seen ++ [.blockSeen (seenBlock db head endorsements operationIds
                    (initialBlockStatus state head.id) nowMs),
                    .slotUpdated (bodySeen state head.id nowMs)]

omit [DenunciationDigest] in
def eventsSeen (s : Slot) (status : SlotStatus) (exec : ExecutionOutput) : List SlotSseEvent :=
  (frameEvents s status exec).map .eventSeen

omit [DenunciationDigest] in
def execFrames (db : Db) (out : SlotExecutionOutput) (nowMs : Int) : List SlotSseEvent :=
  match readFrame out with
  | none => []
  | some (s, frame, exec) =>
      let state := rowAt db s nowMs
      if state.status = .final then
        if Completes state frame exec then
          eventsSeen s .final exec ++ [.slotUpdated (completedRow state exec nowMs)]
        else []
      else
        let row := frameRow state frame exec nowMs
        eventsSeen s row.status exec ++
          (match frame with
          | .final => [.slotFinal row]
          | .candidate => []) ++ [.slotUpdated row]

omit [DenunciationDigest] in
def settleFrames (db : Db) (s : Slot) (nowMs : Int) : List SlotSseEvent :=
  match db.readSlot s with
  | some state =>
      if state.completeness.transfersStored then []
      else
        [.slotUpdated { state with
          completeness := { state.completeness with transfersStored := true }
          lastUpdatedTsMs := nowMs }]
  | none =>
      let fresh := SlotState.fresh s nowMs
      [.slotUpdated { fresh with completeness := { fresh.completeness with transfersStored := true } }]

omit [DenunciationDigest] in
def transfersFrames (db : Db) (resp : NewTransfersInfoServerResponse) (nowMs : Int) :
    List SlotSseEvent :=
  match resp.slot with
  | none => []
  | some slotPb =>
      let slot := NodeDecode.slotFromPb slotPb
      let rows := decodeTransfers resp slot nowMs
      let db := rows.foldl Db.writeTransfer (db.clearTransfersForSlot slot)
      let db := reconcileAsyncFromTransfers db slot rows nowMs
      let db := reconcileDeferredFromTransfers db slot rows nowMs
      settleFrames db slot nowMs

def peerFrames (db : Db) (resp : FinalSlotResponse) (nowMs : Int) : List SlotSseEvent :=
  match slotOf resp with
  | none => []
  | some s =>
      if !resp.finalKnown then []
      else
        match reconcileVerdict db s (rowAt db s nowMs) resp with
        | .turnedAway _ => []
        | .proceed p =>
            let q := peerParts s resp nowMs p
            let row := { q.state with lastUpdatedTsMs := nowMs }
            (if p.out.becameFinal || q.out.divergenceRepaired then [.slotFinal row] else []) ++
              [.slotUpdated row]

def legacyFrames (db : Db) (resp : FinalSlotResponse) (nowMs : Int) : List SlotSseEvent :=
  match slotOf resp with
  | none => []
  | some s =>
      if !resp.finalKnown then []
      else
        let p := legacyParts resp nowMs (legacyVerdict db s (rowAt db s nowMs) resp)
        [.slotUpdated { p.state with lastUpdatedTsMs := nowMs }]

omit [DenunciationDigest] in
def forcedFrames (db : Db) (resp : FinalSlotResponse) (nowMs : Int) : List SlotSseEvent :=
  match slotOf resp with
  | none => []
  | some s =>
      let state := rowAt db s nowMs
      match forcedTarget resp with
      | .error _ => []
      | .ok target =>
          if state.status = .final ∧ Verdict.ofLocal state = some target then []
          else
            let adopted := adoptPeerVerdict db state resp (parseFinalBlockId resp) (peerTrail resp)
            let row := { adopted.2 with status := .final, lastUpdatedTsMs := nowMs }
            [.slotFinal row, .slotUpdated row]

def frames (db : Db) (e : Timed) : List SlotSseEvent :=
  match e.event with
  | .block fb => blockFrames db fb e.nowMs
  | .exec out => execFrames db out e.nowMs
  | .transfers resp => transfersFrames db resp e.nowMs
  | .peerPatch resp => peerFrames db resp e.nowMs
  | .legacyPatch resp => legacyFrames db resp e.nowMs
  | .forcedVerdict resp => forcedFrames db resp e.nowMs
  | .tick => [.heartbeat e.nowMs]

/-- The frames of a run. -/
def feed (db : Db) : List Timed → List SlotSseEvent
  | [] => []
  | e :: events => frames db e ++ feed (step db e) events

/-! ## Which rows are sent -/

/-- A patch that is turned away: its row is filed with a new clock, and not sent. -/
def TurnedAway (db : Db) (e : Timed) : Prop :=
  ∃ resp s out, e.event = .peerPatch resp ∧ resp.finalKnown = true ∧ slotOf resp = some s ∧
    reconcileVerdict db s (rowAt db s e.nowMs) resp = .turnedAway out

omit [DenunciationDigest] in
theorem filterMap_opSeen {β : Type} (f : SlotSseEvent → Option β)
    (deaf : ∀ row, f (.opSeen row) = none) (head : BlockHead) (nowMs : Int)
    (ops : List FilledOperation) (db : Db) :
    (operationFrames db head nowMs ops).filterMap f = [] := by
  induction ops generalizing db with
  | nil => rfl
  | cons filled rest ih =>
      rw [operationFrames]
      rcases ingestOperation db head nowMs filled with ⟨after, err | id⟩
      · rfl
      · dsimp only
        rw [List.filterMap_append, ih after]
        cases seenOperation db head nowMs filled with
        | none => rfl
        | some row => simp [deaf]

omit [DenunciationDigest] in
theorem filterMap_eventsSeen {β : Type} (f : SlotSseEvent → Option β)
    (deaf : ∀ row, f (.eventSeen row) = none) (s : Slot) (status : SlotStatus)
    (exec : ExecutionOutput) : (eventsSeen s status exec).filterMap f = [] := by
  rw [eventsSeen, List.filterMap_map]
  exact List.filterMap_eq_nil_iff.mpr fun row _ => deaf row

/-- A block sends the row of its slot if it is taken whole. -/
theorem filterMap_blockFrames {β : Type} (f : SlotSseEvent → Option β)
    (deaf : ∀ row, f (.opSeen row) = none) (deaf' : ∀ row, f (.blockSeen row) = none)
    (db : Db) (fb : FilledBlock) (nowMs : Int) :
    (blockFrames db fb nowMs).filterMap f = (takenBlock db fb nowMs).elim [] fun b =>
      (f (.slotUpdated (bodySeen (rowAt db b.head.slot nowMs) b.head.id nowMs))).toList := by
  unfold blockFrames takenBlock
  cases decodeHead fb with
  | error err => rfl
  | ok head =>
      have persisted := (handledIn_persistEndorsements (head.endorsements nowMs)).confined
      dsimp only
      rcases persist : persistEndorsements db (head.endorsements nowMs) with ⟨db₁, err | done⟩
      · rfl
      · have ops₁ : contents db₁ .ops = contents db .ops := by
          have frame := persisted.frame db .ops (by decide)
          rwa [persist] at frame
        have slots₁ : contents db₁ .slots = contents db .slots := by
          have frame := persisted.frame db .slots (by decide)
          rwa [persist] at frame
        have denounced := confined_denunciations (denunciationEntry head.id nowMs) head.denunciations
        have ops₂ := (denounced.frame db₁ .ops (by decide)).trans ops₁
        have slots₂ := (denounced.frame db₁ .slots (by decide)).trans slots₁
        dsimp only
        generalize head.denunciations.foldl
          (fun db d => db.writeDenunciation (denunciationEntry head.id nowMs d)) db₁ = db₂
          at ops₂ slots₂ ⊢
        have taken := handledIn_ingestOperations head nowMs fb.operations
        have result := taken.result db₂ db ops₂
        have slots₃ := (taken.confined.frame db₂ .slots (by decide)).trans slots₂
        have quiet := filterMap_opSeen f deaf head nowMs fb.operations db₂
        rw [← result]
        generalize ingestOperations db₂ head nowMs fb.operations = ingested at slots₃ ⊢
        rcases ingested with ⟨db₃, err | operationIds⟩
        · exact quiet
        · have here : rowAt db₃ head.slot nowMs = rowAt db head.slot nowMs := by
            rw [rowAt, rowAt, sameReadSlot slots₃]
          cases (head.endorsements nowMs).mapM resolveEndorsement with
          | error err => exact quiet
          | ok endorsements =>
              dsimp only
              rw [List.filterMap_append, quiet, here]
              cases told : f (.slotUpdated (bodySeen (rowAt db head.slot nowMs) head.id nowMs)) <;>
                simp [deaf', told]

section Rows

omit [DenunciationDigest]

omit [Bs58Check] in
theorem filterMap_sent {β : Type} (f : SlotSseEvent → Option β) (row : SlotState) :
    [SlotSseEvent.slotUpdated row].filterMap f = (f (.slotUpdated row)).toList := by
  cases told : f (.slotUpdated row) <;> simp [told]

omit [Bs58Check] in
theorem filterMap_settleFrames {β : Type} (f : SlotSseEvent → Option β) (db : Db) (s : Slot)
    (nowMs : Int) : (settleFrames db s nowMs).filterMap f =
      (transfersMove (rowAt db s nowMs) nowMs).elim [] fun m => (f (.slotUpdated m.row)).toList := by
  unfold settleFrames transfersMove rowAt
  cases db.readSlot s with
  | none => exact filterMap_sent f _
  | some row =>
      dsimp only [Option.getD_some]
      split
      · rfl
      · exact filterMap_sent f _

/-- The other rows of a transfer list are no slot rows. -/
theorem filterMap_transfersFrames {β : Type} (f : SlotSseEvent → Option β) (db : Db)
    (resp : NewTransfersInfoServerResponse) (nowMs : Int) :
    (transfersFrames db resp nowMs).filterMap f =
      (resp.slot.bind fun pb => transfersMove (rowAt db (NodeDecode.slotFromPb pb) nowMs) nowMs).elim []
        fun m => (f (.slotUpdated m.row)).toList := by
  unfold transfersFrames
  cases resp.slot with
  | none => rfl
  | some pb =>
      dsimp only [Option.bind_some]
      generalize NodeDecode.slotFromPb pb = s
      generalize decodeTransfers resp s nowMs = rows
      rw [filterMap_settleFrames]
      have replaced := (confined_replaceTransfers s rows).frame db .slots (by decide)
      have asyncs := (confined_reconcileAsyncFromTransfers s rows nowMs).frame
        (rows.foldl Db.writeTransfer (db.clearTransfersForSlot s)) .slots (by decide)
      have calls := (confined_reconcileDeferredFromTransfers s rows nowMs).frame
        (reconcileAsyncFromTransfers (rows.foldl Db.writeTransfer (db.clearTransfersForSlot s)) s rows
          nowMs) .slots (by decide)
      rw [rowAt, rowAt, sameReadSlot ((calls.trans asyncs).trans replaced)]

end Rows

omit [DenunciationDigest] in
theorem slotUpdates_execFrames (db : Db) (out : SlotExecutionOutput) (nowMs : Int) :
    (execFrames db out nowMs).filterMap SlotSseEvent.slotUpdate =
      ((readFrame out).bind fun (s, frame, exec) =>
        frameMove (rowAt db s nowMs) frame exec nowMs).elim [] fun m => [m.row] := by
  have deaf := filterMap_eventsSeen SlotSseEvent.slotUpdate fun _ => rfl
  unfold execFrames
  rcases readFrame out with - | ⟨s, frame, exec⟩
  · rfl
  · dsimp only [Option.bind_some]
    unfold frameMove
    split
    · split
      · rw [List.filterMap_append, deaf]
        rfl
      · rfl
    · rw [List.filterMap_append, List.filterMap_append, deaf]
      cases frame <;> rfl

omit [DenunciationDigest] in
/-- Only a FINAL frame of an open slot announces its row. -/
theorem finals_execFrames (db : Db) (out : SlotExecutionOutput) (nowMs : Int) :
    (execFrames db out nowMs).filterMap SlotSseEvent.finality =
      (readFrame out).elim [] fun (s, frame, exec) =>
        if (rowAt db s nowMs).status ≠ .final ∧ frame = .final then
          [frameRow (rowAt db s nowMs) frame exec nowMs] else [] := by
  have deaf := filterMap_eventsSeen SlotSseEvent.finality fun _ => rfl
  unfold execFrames
  rcases readFrame out with - | ⟨s, frame, exec⟩
  · rfl
  · dsimp only [Option.elim_some]
    by_cases settled : (rowAt db s nowMs).status = .final
    · have quiet : ¬ ((rowAt db s nowMs).status ≠ .final ∧ frame = .final) := fun both => both.1 settled
      rw [if_pos settled, if_neg quiet]
      split
      · rw [List.filterMap_append, deaf]
        rfl
      · rfl
    · rw [if_neg settled, List.filterMap_append, List.filterMap_append, deaf]
      cases frame with
      | final =>
          rw [if_pos ⟨settled, rfl⟩]
          rfl
      | candidate =>
          rw [if_neg (by rintro ⟨-, ⟨⟩⟩)]
          rfl

/-- Applying the parts repairs nothing. -/
theorem repaired_peerParts (s : Slot) (resp : FinalSlotResponse) (nowMs : Int) (p : Patching) :
    (peerParts s resp nowMs p).out.divergenceRepaired = p.out.divergenceRepaired := by
  have body : (peerBlockPart resp nowMs p).out.divergenceRepaired = p.out.divergenceRepaired := by
    unfold peerBlockPart
    split
    · rcases applyBlockPart p.db resp nowMs with ⟨db, - | block⟩
      · rfl
      · dsimp only
        split <;> rfl
    · rfl
  have miss : ∀ q : Patching,
      (peerMissFlag resp q).out.divergenceRepaired = q.out.divergenceRepaired := by
    intro q
    unfold peerMissFlag
    split <;> rfl
  have exec : ∀ q : Patching,
      (peerExecPart s resp q).out.divergenceRepaired = q.out.divergenceRepaired := by
    intro q
    unfold peerExecPart
    split <;> rfl
  have transfers : ∀ q : Patching,
      (peerTransfersPart s resp nowMs q).out.divergenceRepaired = q.out.divergenceRepaired := by
    intro q
    unfold peerTransfersPart
    split <;> rfl
  rw [peerParts, transfers, exec, miss, body]

/-- What a peer's response sends, row by row. -/
theorem peerFrames_eq {resp : FinalSlotResponse} {s : Slot} (about : slotOf resp = some s)
    (known : resp.finalKnown = true) (db : Db) (nowMs : Int) :
    peerFrames db resp nowMs =
      match reconcileVerdict db s (rowAt db s nowMs) resp with
      | .turnedAway _ => []
      | .proceed p =>
          let row := { peerRow resp p.state with lastUpdatedTsMs := nowMs }
          (if p.out.becameFinal || p.out.divergenceRepaired then [.slotFinal row] else []) ++
            [.slotUpdated row] := by
  unfold peerFrames
  rw [about]
  simp only [known, Bool.not_true, Bool.false_eq_true, if_false]
  cases reconcileVerdict db s (rowAt db s nowMs) resp with
  | turnedAway out => rfl
  | proceed p =>
      dsimp only
      rw [(peerParts_eq s resp nowMs p).2, repaired_peerParts]

theorem legacyFrames_eq {resp : FinalSlotResponse} {s : Slot} (about : slotOf resp = some s)
    (known : resp.finalKnown = true) (db : Db) (nowMs : Int) :
    legacyFrames db resp nowMs =
      [.slotUpdated { legacyRow resp (legacyPromoted resp (rowAt db s nowMs)) with
        lastUpdatedTsMs := nowMs }] := by
  have verdict : (legacyVerdict db s (rowAt db s nowMs) resp).state =
      legacyPromoted resp (rowAt db s nowMs) := by
    unfold legacyVerdict legacyPromoted
    split <;> rfl
  unfold legacyFrames
  rw [about]
  simp only [known, Bool.not_true, Bool.false_eq_true, if_false]
  rw [(legacyParts_eq resp nowMs _).2, verdict]

/-- **The slot rows an event sends**: the row of its move, unless the event was turned away. -/
theorem slotUpdates_frames (db : Db) (e : Timed) :
    (TurnedAway db e ∧ (frames db e).filterMap SlotSseEvent.slotUpdate = []) ∨
      (¬ TurnedAway db e ∧ (frames db e).filterMap SlotSseEvent.slotUpdate =
        (rowMove db e).elim [] fun m => [m.row]) := by
  have plain : (∀ resp, e.event ≠ .peerPatch resp) → ¬ TurnedAway db e := by
    rintro other ⟨resp, s, out, peer, -⟩
    exact other resp peer
  obtain ⟨event, nowMs⟩ := e
  cases event with
  | block fb =>
      refine .inr ⟨plain (by rintro resp ⟨⟩), ?_⟩
      change (blockFrames db fb nowMs).filterMap _ = _
      rw [filterMap_blockFrames SlotSseEvent.slotUpdate (fun _ => rfl) fun _ => rfl]
      dsimp only [rowMove]
      cases takenBlock db fb nowMs <;> rfl
  | exec out =>
      exact .inr ⟨plain (by rintro resp ⟨⟩), slotUpdates_execFrames db out nowMs⟩
  | transfers resp =>
      exact .inr ⟨plain (by rintro resp ⟨⟩),
        filterMap_transfersFrames SlotSseEvent.slotUpdate db resp nowMs⟩
  | peerPatch resp =>
      change _ ∧ (peerFrames db resp nowMs).filterMap _ = _ ∨
        _ ∧ (peerFrames db resp nowMs).filterMap _ = _
      cases about : slotOf resp with
      | none =>
          refine .inr ⟨?_, ?_⟩
          · rintro ⟨_, s, out, ⟨⟩, -, here, -⟩
            cases about.symm.trans here
          · dsimp only [rowMove]
            rw [peerFrames, about]
            cases resp.finalKnown <;> rfl
      | some s =>
          cases known : resp.finalKnown with
          | false =>
              refine .inr ⟨?_, ?_⟩
              · rintro ⟨_, s, out, ⟨⟩, known', -⟩
                cases known.symm.trans known'
              · dsimp only [rowMove]
                rw [peerFrames, about, known]
                rfl
          | true =>
              dsimp only [rowMove]
              rw [peerFrames_eq about known, known, about, if_pos rfl, Option.map_some,
                Option.elim_some]
              cases taken : reconcileVerdict db s (rowAt db s nowMs) resp with
              | turnedAway out => exact .inl ⟨⟨resp, s, out, rfl, known, about, taken⟩, rfl⟩
              | proceed p =>
                  refine .inr ⟨?_, ?_⟩
                  · rintro ⟨_, s', out, ⟨⟩, -, here, away⟩
                    obtain rfl := Option.some.inj (about.symm.trans here)
                    cases taken.symm.trans away
                  · dsimp only
                    rw [List.filterMap_append]
                    split <;> rfl
  | legacyPatch resp =>
      refine .inr ⟨plain (by rintro resp ⟨⟩), ?_⟩
      change (legacyFrames db resp nowMs).filterMap _ = _
      dsimp only [rowMove]
      cases about : slotOf resp with
      | none =>
          rw [legacyFrames, about]
          cases resp.finalKnown <;> rfl
      | some s =>
          cases known : resp.finalKnown with
          | false =>
              rw [legacyFrames, about, known]
              rfl
          | true =>
              rw [legacyFrames_eq about known]
              rfl
  | forcedVerdict resp =>
      refine .inr ⟨plain (by rintro resp ⟨⟩), ?_⟩
      change (forcedFrames db resp nowMs).filterMap _ = _
      dsimp only [rowMove]
      rw [forcedFrames]
      cases slotOf resp with
      | none => rfl
      | some s =>
          cases forcedTarget resp with
          | error err => rfl
          | ok v =>
              dsimp only
              split
              · rfl
              · rw [adoptPeerVerdict_row]
                rfl
  | tick => exact .inr ⟨plain (by rintro resp ⟨⟩), rfl⟩

end MassaIndexer.Writer.LiveFrames
