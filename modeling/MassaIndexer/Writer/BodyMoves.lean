/-
# Writer.BodyMoves -- what a body brings to the operation and denunciation rows

A body comes with a message of the node or with a patch, and only these two write denunciations or create
operation rows; what else an event writes to the two families is statuses of operations (`body_step`).
The node's handler appends its block to the sites an operation was included at
(`ingestOperation_cases`).
-/
import MassaIndexer.Writer.BlockMoves

namespace MassaIndexer.Writer.BodyMoves

open MassaIndexer.Theory.Footprint
open MassaIndexer.Data.Ids MassaIndexer.Data.Model MassaIndexer.Data.Proto MassaIndexer.Data.Codec
open MassaIndexer.Data.RowCodec MassaIndexer.Store.ColumnFamilies MassaIndexer.Store.Footprint
open MassaIndexer.Writer.NodeProto MassaIndexer.Writer.NodeDecode
open MassaIndexer.Writer.Shared MassaIndexer.Writer.Handlers MassaIndexer.Writer.Step
open MassaIndexer.Writer.Families MassaIndexer.Writer.Patches MassaIndexer.Writer.RowMoves
open MassaIndexer.Writer.BlockMoves MassaIndexer.Peer.Patch

set_option autoImplicit false

variable [Bs58Check]

/-! ## Operations of a message -/

/-- The id a filled operation is filed under; `none` when it is skipped. -/
def opIdOf (filled : FilledOperation) : Option OperationId :=
  filled.operation.bind (filledOpId filled)

omit [Bs58Check] in
theorem id_recordInclusion (head : BlockHead) (op : StoredOperation) :
    (recordInclusion head op).id = op.id := by
  unfold recordInclusion
  dsimp only
  split <;> rfl

omit [Bs58Check] in
theorem inclusions_recordInclusion (head : BlockHead) (op : StoredOperation) :
    (recordInclusion head op).inclusions =
      if ⟨head.slot, head.id⟩ ∈ op.inclusions then op.inclusions
      else op.inclusions ++ [⟨head.slot, head.id⟩] := by
  unfold recordInclusion
  dsimp only
  split <;> rfl

omit [Bs58Check] in
/-- A site is recorded once. -/
theorem recordInclusion_idem (head : BlockHead) (op : StoredOperation) :
    recordInclusion head (recordInclusion head op) = recordInclusion head op := by
  have known : (⟨head.slot, head.id⟩ : OperationInclusion) ∈ (recordInclusion head op).inclusions := by
    rw [inclusions_recordInclusion]
    split
    · assumption
    · exact List.mem_append_right _ List.mem_cons_self
  have thread : (recordInclusion head op).thread = head.slot.thread := by
    unfold recordInclusion
    dsimp only
    split <;> rfl
  generalize recordInclusion head op = row at known thread ⊢
  unfold recordInclusion
  dsimp only
  rw [if_pos known, ← thread]

theorem id_freshOperation {signedOp : SignedOperation} {id : OperationId} {thread : UInt8} {nowMs : Int}
    {op : StoredOperation} (fresh : freshOperation signedOp id thread nowMs = .ok op) :
    op.id = id ∧ op.inclusions = [] := by
  unfold freshOperation at fresh
  split at fresh
  · cases fresh
  · dsimp only at fresh
    split at fresh
    · cases fresh
    · obtain rfl := Except.ok.inj fresh
      exact ⟨rfl, rfl⟩

/-- What becomes of a filled operation: skipped, recorded in the row we hold, refused, or entered with its
first site. -/
theorem ingestOperation_cases (db : Db) (head : BlockHead) (nowMs : Int) (filled : FilledOperation) :
    opIdOf filled = none ∧ ingestOperation db head nowMs filled = ⟨db, .ok none⟩ ∨
    (∃ id op, opIdOf filled = some id ∧ db.readOp id = some op ∧
      ingestOperation db head nowMs filled = ⟨db.writeOp (recordInclusion head op), .ok (some id)⟩) ∨
    (∃ id signedOp e, opIdOf filled = some id ∧ db.readOp id = none ∧ filled.operation = some signedOp ∧
      freshOperation signedOp id head.slot.thread nowMs = .error e ∧
      ingestOperation db head nowMs filled = ⟨db, .error e⟩) ∨
    ∃ id signedOp op, opIdOf filled = some id ∧ db.readOp id = none ∧ filled.operation = some signedOp ∧
      freshOperation signedOp id head.slot.thread nowMs = .ok op ∧
      ingestOperation db head nowMs filled = ⟨db.writeOp (recordInclusion head op), .ok (some id)⟩ := by
  unfold opIdOf ingestOperation
  cases filled.operation with
  | none => exact .inl ⟨rfl, rfl⟩
  | some signedOp =>
      dsimp only [Option.bind_some]
      cases filledOpId filled signedOp with
      | none => exact .inl ⟨rfl, rfl⟩
      | some id =>
          dsimp only
          cases found : db.readOp id with
          | some op => exact .inr (.inl ⟨id, op, rfl, found, rfl⟩)
          | none =>
              cases fresh : freshOperation signedOp id head.slot.thread nowMs with
              | error e => exact .inr (.inr (.inl ⟨id, signedOp, e, rfl, found, rfl, fresh, rfl⟩))
              | ok op => exact .inr (.inr (.inr ⟨id, signedOp, op, rfl, found, rfl, fresh, rfl⟩))

/-! ## The body of an event -/

/-- A body past the checks that come before its denunciations and operations. -/
inductive Body where
  | node (head : BlockHead) (ops : List FilledOperation)
  | shipped (block : StoredBlock) (rows : List StoredOperationPb)

namespace Body

def id : Body → BlockId
  | .node head _ => head.id
  | .shipped block _ => block.id

def slot : Body → Slot
  | .node head _ => head.slot
  | .shipped block _ => block.slot

def denunciations : Body → List StoredDenunciation
  | .node head _ => head.denunciations
  | .shipped block _ => block.denunciations

variable [DenunciationDigest]

def enterDenunciations (nowMs : Int) (body : Body) (db : Db) : Db :=
  body.denunciations.foldl (fun db d => db.writeDenunciation (denunciationEntry body.id nowMs d)) db

omit [DenunciationDigest] in
def enterOperations (nowMs : Int) : Body → Db → Db
  | .node head ops, db => (ingestOperations db head nowMs ops).db
  | .shipped _ rows, db => rows.foldl applyOperation db

end Body

def bodyOf (db : Db) (e : Timed) : Option Body :=
  match e.event with
  | .block fb =>
      match decodeHead fb with
      | .error _ => none
      | .ok head =>
          match (persistEndorsements db (head.endorsements e.nowMs)).result with
          | .error _ => none
          | .ok () => some (.node head fb.operations)
  | .peerPatch resp => (blockMove db e).store.map (Body.shipped · resp.operations)
  | .legacyPatch resp => (blockMove db e).store.map (Body.shipped · resp.operations)
  | _ => none

theorem shippedBlock_of_delivered {resp : FinalSlotResponse} {block : StoredBlock}
    (delivered : deliveredBlock resp = some block) : shippedBlock resp = some block := by
  unfold deliveredBlock at delivered
  split at delivered
  · cases delivered
  · exact delivered

theorem shippedBlock_of_peer {db : Db} {resp : FinalSlotResponse} {nowMs : Int} {block : StoredBlock}
    (stored : (blockMove db ⟨.peerPatch resp, nowMs⟩).store = some block) :
    shippedBlock resp = some block := by
  dsimp only [blockMove] at stored
  split at stored
  · cases about : slotOf resp with
    | none => simp [about] at stored
    | some s =>
        rw [about, Option.elim_some] at stored
        cases taken : reconcileVerdict db s (rowAt db s nowMs) resp with
        | turnedAway out => simp [taken, peerBlockMove] at stored
        | proceed p =>
            rw [taken] at stored
            exact shippedBlock_of_delivered stored
  · cases stored

theorem shippedBlock_of_legacy {db : Db} {resp : FinalSlotResponse} {nowMs : Int}
    {block : StoredBlock} (stored : (blockMove db ⟨.legacyPatch resp, nowMs⟩).store = some block) :
    shippedBlock resp = some block := by
  dsimp only [blockMove] at stored
  split at stored
  · cases about : slotOf resp with
    | none => simp [about] at stored
    | some s =>
        rw [about, Option.elim_some] at stored
        have kept : legacyBody resp (legacyPromoted resp (rowAt db s nowMs)) = some block := stored
        unfold legacyBody at kept
        split at kept
        · cases kept
        · exact shippedBlock_of_delivered kept
  · cases stored

/-- A body is one of the node or one that a patch ships. -/
theorem bodyOf_cases {db : Db} {e : Timed} {body : Body} (entered : bodyOf db e = some body) :
    (∃ fb head, e.event = .block fb ∧ decodeHead fb = .ok head ∧ body = .node head fb.operations) ∨
    ∃ resp block, (e.event = .peerPatch resp ∨ e.event = .legacyPatch resp) ∧
      shippedBlock resp = some block ∧ (blockMove db e).store = some block ∧
      body = .shipped block resp.operations := by
  obtain ⟨event, nowMs⟩ := e
  cases event with
  | block fb =>
      dsimp only [bodyOf] at entered
      cases decoded : decodeHead fb with
      | error err => simp [decoded] at entered
      | ok head =>
          rw [decoded] at entered
          dsimp only at entered
          split at entered
          · cases entered
          · exact .inl ⟨fb, head, rfl, decoded, (Option.some.inj entered).symm⟩
  | peerPatch resp =>
      obtain ⟨block, stored, rfl⟩ := Option.map_eq_some_iff.mp entered
      exact .inr ⟨resp, block, .inl rfl, shippedBlock_of_peer stored, stored, rfl⟩
  | legacyPatch resp =>
      obtain ⟨block, stored, rfl⟩ := Option.map_eq_some_iff.mp entered
      exact .inr ⟨resp, block, .inr rfl, shippedBlock_of_legacy stored, stored, rfl⟩
  | exec out => cases entered
  | transfers resp => cases entered
  | forcedVerdict resp => cases entered
  | tick => cases entered

/-- A patch for a slot that is not FINAL enters the body it delivers. -/
theorem bodyOf_open {db : Db} {resp : FinalSlotResponse} {nowMs : Int} {s : Slot}
    (about : slotOf resp = some s) (known : resp.finalKnown = true)
    (unsettled : (rowAt db s nowMs).status ≠ .final) :
    bodyOf db ⟨.peerPatch resp, nowMs⟩ =
      (deliveredBlock resp).map (Body.shipped · resp.operations) := by
  have move : blockMove db ⟨.peerPatch resp, nowMs⟩ = peerBlockMove (rowAt db s nowMs) resp
      (reconcileVerdict db s (rowAt db s nowMs) resp) := by
    simp [blockMove, known, about]
  show (blockMove db ⟨.peerPatch resp, nowMs⟩).store.map _ = _
  rw [move, reconcileVerdict]
  dsimp only
  rw [if_pos unsettled]
  rfl

/-- The statuses a frame sets. -/
def statusesOf (db : Db) (e : Timed) : Option (ExecFrame × ExecutionOutput) :=
  match e.event with
  | .exec out => (readFrame out).bind fun (s, frame, exec) =>
      if (rowAt db s e.nowMs).status = .final ∧ ¬ Completes (rowAt db s e.nowMs) frame exec then none
      else some (frame, exec)
  | _ => none

variable [DenunciationDigest]

theorem confined_enterDenunciations (nowMs : Int) (body : Body) :
    ConfinedTo .denunciations (body.enterDenunciations nowMs) :=
  confined_denunciations (denunciationEntry body.id nowMs) body.denunciations

omit [DenunciationDigest] in
theorem confined_enterOperations (nowMs : Int) (body : Body) :
    ConfinedTo .ops (body.enterOperations nowMs) := by
  cases body with
  | node head ops => exact (handledIn_ingestOperations head nowMs ops).confined
  | shipped block rows => exact Confined.foldl fun pb _ => confined_applyOperation pb

namespace Body

/-- What the body brings to either family. -/
def enter (nowMs : Int) (body : Body) (db : Db) : Db :=
  body.enterOperations nowMs (body.enterDenunciations nowMs db)

end Body

theorem denunciations_enter (nowMs : Int) (body : Body) (db : Db) :
    contents (body.enter nowMs db) .denunciations = contents
        (body.enterDenunciations nowMs db) .denunciations :=
  (confined_enterOperations nowMs body).frame _ _ (by decide)

theorem ops_enter (nowMs : Int) (body : Body) (db : Db) :
    contents (body.enter nowMs db) .ops = contents (body.enterOperations nowMs db) .ops :=
  (confined_enterOperations nowMs body).own _ _ ((confined_enterDenunciations nowMs body).frame db _
      (by decide))

/-! ## Events -/

variable {f : Family}

theorem body_node (own : f = .ops ∨ f = .denunciations) (db : Db) (fb : FilledBlock) (nowMs : Int) :
    contents (step db ⟨.block fb, nowMs⟩) f =
      contents ((bodyOf db ⟨.block fb, nowMs⟩).elim db (·.enter nowMs db)) f := by
  show contents (handleBlock db fb nowMs).db f = _
  dsimp only [bodyOf]
  cases decoded : decodeHead fb with
  | error err => rw [handleBlock, decoded]; rfl
  | ok head =>
      rw [handleBlock_db decoded]
      dsimp only
      unfold handleBlockStages
      have entered : contents (Body.enter nowMs (.node head fb.operations) db) f =
          contents (Stage.runAll
            [stage (confined_denunciations (denunciationEntry head.id nowMs) head.denunciations),
              stage (handledIn_ingestOperations head nowMs fb.operations).confined] db) f := rfl
      cases (persistEndorsements db (head.endorsements nowMs)).result with
      | error err =>
          rw [contents_runAll]
          rcases own with rfl | rfl <;> rfl
      | ok done =>
          show _ = contents (Body.enter nowMs (.node head fb.operations) db) f
          rw [entered]
          refine (contents_runAll _ db f).trans (Eq.trans ?_ (contents_runAll _ db f).symm)
          cases (ingestOperations db head nowMs fb.operations).result with
          | error err => rcases own with rfl | rfl <;> rfl
          | ok operationIds =>
              cases (head.endorsements nowMs).mapM resolveEndorsement with
              | error err => rcases own with rfl | rfl <;> rfl
              | ok endorsements => rcases own with rfl | rfl <;> rfl

/-- The stages of a patch, of which only those of the body count here. -/
theorem body_stages (own : f = .ops ∨ f = .denunciations) {resp : FinalSlotResponse}
    {block : Option StoredBlock} {db db' : Db} {nowMs : Int} {stages : List FamilyStage}
    (others : stages.filter (·.site = f) = []) (start : contents db f = contents db' f) :
    contents (Stage.runAll (bodyStages resp nowMs block ++ stages) db) f =
      contents ((block.map (Body.shipped · resp.operations)).elim db' (·.enter nowMs db')) f := by
  rw [contents_runAll, List.filter_append, others, List.append_nil]
  cases block with
  | none => exact start
  | some block =>
      rw [← contents_runAll]
      rcases own with rfl | rfl
      · rw [contents_runAll]
        exact ((confined_enterOperations nowMs (.shipped block resp.operations)).own _ _ start).trans
          (ops_enter nowMs (.shipped block resp.operations) db').symm
      · rw [contents_runAll]
        exact ((confined_enterDenunciations nowMs (.shipped block resp.operations)).own _ _ start).trans
          (denunciations_enter nowMs (.shipped block resp.operations) db').symm

theorem body_peer (own : f = .ops ∨ f = .denunciations) (db : Db) (resp : FinalSlotResponse)
    (nowMs : Int) :
    contents (step db ⟨.peerPatch resp, nowMs⟩) f =
      contents ((bodyOf db ⟨.peerPatch resp, nowMs⟩).elim db (·.enter nowMs db)) f := by
  show contents (applyPeerPatch db resp nowMs).1 f = _
  dsimp only [bodyOf, blockMove]
  cases about : slotOf resp with
  | none =>
      rw [applyPeerPatch, about]
      cases resp.finalKnown <;> rfl
  | some s =>
      cases known : resp.finalKnown with
      | false => rw [applyPeerPatch, about, known]; rfl
      | true =>
          rw [applyPeerPatch_eq about known, if_pos rfl, Option.elim_some]
          cases taken : reconcileVerdict db s (rowAt db s nowMs) resp with
          | turnedAway out => rcases own with rfl | rfl <;> rfl
          | proceed p =>
              have start : contents p.db f = contents db f :=
                (proceeds_of_reconcileVerdict taken).frame (by rcases own with rfl | rfl <;> decide)
              dsimp only [peerBlockMove]
              rw [peerPartStages, List.append_assoc, List.append_assoc]
              refine body_stages own ?_ start
              rcases own with rfl | rfl <;> cases takesExec resp p.state <;>
                cases takesTransfers resp p.state <;> rfl

theorem body_legacy (own : f = .ops ∨ f = .denunciations) (db : Db) (resp : FinalSlotResponse)
    (nowMs : Int) :
    contents (step db ⟨.legacyPatch resp, nowMs⟩) f =
      contents ((bodyOf db ⟨.legacyPatch resp, nowMs⟩).elim db (·.enter nowMs db)) f := by
  show contents (applyLegacyPatch db resp nowMs).1 f = _
  dsimp only [bodyOf, blockMove]
  cases about : slotOf resp with
  | none =>
      rw [applyLegacyPatch, about]
      cases resp.finalKnown <;> rfl
  | some s =>
      cases known : resp.finalKnown with
      | false => rw [applyLegacyPatch, about, known]; rfl
      | true =>
          rw [applyLegacyPatch_eq about known, if_pos rfl, Option.elim_some, legacyBlockMove]
          dsimp only
          rw [contents_runAll, legacyPartStages]
          cases legacyBody resp (legacyPromoted resp (rowAt db s nowMs)) with
          | none => rcases own with rfl | rfl <;> split <;> split <;> rfl
          | some block =>
              rcases own with rfl | rfl
              · refine Eq.trans ?_ (ops_enter nowMs (.shipped block resp.operations) db).symm
                split <;> split <;> rfl
              · refine Eq.trans ?_ (denunciations_enter nowMs (.shipped block resp.operations) db).symm
                split <;> split <;> rfl

/-- What a frame does to either family. -/
def setStatuses (db : Db) (e : Timed) : Db :=
  (statusesOf db e).elim db fun (frame, exec) => applyExecutedOpsChanges frame db exec

theorem body_exec (own : f = .ops ∨ f = .denunciations) (db : Db) (out : SlotExecutionOutput)
    (nowMs : Int) :
    contents (step db ⟨.exec out, nowMs⟩) f = contents (setStatuses db ⟨.exec out, nowMs⟩) f := by
  show contents (handleExec db out nowMs).db f = _
  rw [handleExec_db]
  unfold setStatuses statusesOf
  dsimp only
  rcases readFrame out with - | ⟨s, frame, exec⟩
  · rfl
  · dsimp only [Option.bind_some]
    by_cases settled : (rowAt db s nowMs).status = .final
    · rw [if_pos settled, confirmFrame_eq]
      by_cases completes : Completes (rowAt db s nowMs) frame exec
      · rw [if_pos completes, if_neg fun no => no.2 completes, completeFinalExecFromNode_eq,
          contents_runAll]
        rcases own with rfl | rfl
        · rw [completes.1]
          rfl
        · exact ((confined_applyExecutedOpsChanges frame exec).frame db .denunciations (by decide)).symm
      · rw [if_neg completes, if_pos ⟨settled, completes⟩]
        rfl
    · rw [if_neg settled, if_neg fun no => settled no.1, recordFrame_eq, contents_runAll]
      rcases own with rfl | rfl
      · cases frame <;> rfl
      · refine Eq.trans ?_ ((confined_applyExecutedOpsChanges frame exec).frame db .denunciations
          (by decide)).symm
        cases frame <;> rfl

theorem body_transfers (own : f = .ops ∨ f = .denunciations) (db : Db)
    (resp : NewTransfersInfoServerResponse)
    (nowMs : Int) : contents (step db ⟨.transfers resp, nowMs⟩) f = contents db f := by
  show contents (handleTransfers db resp nowMs).db f = _
  rw [handleTransfers_db]
  cases resp.slot with
  | none => rfl
  | some pb =>
      dsimp only
      rw [contents_runAll]
      rcases own with rfl | rfl <;> rfl

theorem body_forced (own : f = .ops ∨ f = .denunciations) (db : Db) (resp : FinalSlotResponse)
    (nowMs : Int) :
    contents (step db ⟨.forcedVerdict resp, nowMs⟩) f = contents db f := by
  unfold step
  dsimp only
  cases about : slotOf resp with
  | none => rw [applyForcedVerdict, about]
  | some s =>
      cases target : forcedTarget resp with
      | error err => rw [applyForcedVerdict, about, target]
      | ok v =>
          rw [applyForcedVerdict_eq about target]
          dsimp only
          split
          · rfl
          · rw [contents_runAll, adoptStages]
            cases (rowAt db s nowMs).finalBlockId <;> rcases own with rfl | rfl <;> rfl

/-- **An event enters its body, or sets the statuses of its frame.** -/
theorem body_step (own : f = .ops ∨ f = .denunciations) (db : Db) (e : Timed) :
    contents (step db e) f =
      contents ((bodyOf db e).elim (setStatuses db e) (·.enter e.nowMs db)) f := by
  obtain ⟨event, nowMs⟩ := e
  cases event with
  | block fb => exact body_node own db fb nowMs
  | exec out => exact body_exec own db out nowMs
  | transfers resp => exact body_transfers own db resp nowMs
  | peerPatch resp => exact body_peer own db resp nowMs
  | legacyPatch resp => exact body_legacy own db resp nowMs
  | forcedVerdict resp => exact body_forced own db resp nowMs
  | tick => rfl

end MassaIndexer.Writer.BodyMoves
