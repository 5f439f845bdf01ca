/-
# Laws.TerminalStates -- the lifecycle of messages and calls

An async message that is executed or cancelled, and a deferred call that is executed, failed or
cancelled, is done. Deletions from the pool and both reconciliations respect that. What does not are
the plain overwrites: a message the pool sets again, and the rows a peer ships. `Respects` asks of an
event that it overwrites no row that is done, or only with the same state.
-/
import MassaIndexer.Writer.Patches
import MassaIndexer.Chain.Snapshot

namespace MassaIndexer.Laws.TerminalStates

open MassaIndexer.Theory.Runs MassaIndexer.Theory.Footprint
open MassaIndexer.Data.Ids MassaIndexer.Data.Model MassaIndexer.Data.Proto MassaIndexer.Data.RowCodec
open MassaIndexer.Store.ColumnFamilies MassaIndexer.Store.Footprint
open MassaIndexer.Writer MassaIndexer.Writer.NodeProto MassaIndexer.Writer.NodeDecode
open MassaIndexer.Writer.Shared MassaIndexer.Writer.Handlers MassaIndexer.Writer.Step
open MassaIndexer.Writer.Families MassaIndexer.Writer.Patches MassaIndexer.Peer.Patch
open MassaIndexer.Chain

set_option autoImplicit false

/-! ## The states of the rows -/

def msgDone : AsyncMsgState → Bool
  | .executed => true
  | .cancelled => true
  | _ => false

def callDone : DeferredCallState → Bool
  | .registered => false
  | _ => true

def msgState (db : Db) (id : String) : Option AsyncMsgState := (db.readAsyncMsg id).map (·.state)

def callState (db : Db) (id : String) : Option DeferredCallState :=
  (db.readDeferredCall id).map (·.state)

theorem msgState_writeAsyncMsg (db : Db) (msg : StoredAsyncMsg) (id : String) :
    msgState (db.writeAsyncMsg msg) id = if msg.id = id then some msg.state else msgState db id := by
  rw [msgState, Db.readAsyncMsg_writeAsyncMsg]
  split
  · split
    · split <;> rfl
    · rfl
  · rfl

theorem callState_writeDeferredCall (db : Db) (call : StoredDeferredCall) (id : String) :
    callState (db.writeDeferredCall call) id =
      if call.id = id then some call.state else callState db id := by
  rw [callState, Db.readDeferredCall_writeDeferredCall]
  split
  · split
    · split <;> rfl
    · rfl
  · rfl

theorem sameMsgState {db db' : Db} (same : contents db .asyncMsgs = contents db' .asyncMsgs)
    (id : String) : msgState db id = msgState db' id := by
  rw [msgState, sameReadAsyncMsg same, msgState]

theorem sameCallState {db db' : Db}
    (same : contents db .deferredCalls = contents db' .deferredCalls) (id : String) :
    callState db id = callState db' id := by
  rw [callState, sameReadDeferredCall same, callState]

/-- A row that is done keeps its state. -/
structure Kept (db db' : Db) : Prop where
  msg : ∀ id x, msgDone x = true → msgState db id = some x → msgState db' id = some x
  call : ∀ id x, callDone x = true → callState db id = some x → callState db' id = some x

theorem Kept.refl (db : Db) : Kept db db := ⟨fun _ _ _ held => held, fun _ _ _ held => held⟩

theorem Kept.trans (a b c : Db) (first : Kept a b) (second : Kept b c) : Kept a c where
  msg id x done held := second.msg id x done (first.msg id x done held)
  call id x done held := second.call id x done (first.call id x done held)

section Writers

variable [Bs58Check]

/-! ## The pool -/

/-- An entry that sets the message again. -/
def Recreates (entry : AsyncPoolChangeEntry) (id : String) : Prop :=
  entry.asyncMessageId = id ∧ id.isEmpty = false ∧ ∃ value msg, entry.value = some value ∧
    asyncPoolChange value.changeType = some .set ∧ value.message = some (.createdMessage msg)

theorem msgState_pool_of_recreates {entry : AsyncPoolChangeEntry} {id : String}
    (recreates : Recreates entry id) (s : Slot) (nowMs : Int) (db : Db) :
    msgState (applyAsyncPoolChange s nowMs db entry) id = some .pending := by
  obtain ⟨named, nonempty, value, msg, hasValue, isSet, created⟩ := recreates
  unfold applyAsyncPoolChange
  dsimp only
  rw [named, nonempty, hasValue]
  simp only [isSet, created, Bool.false_eq_true, if_false]
  exact (msgState_writeAsyncMsg _ _ _).trans (if_pos rfl)

/-- Every other entry keeps the state of a row, or marks it consumed when it is not done. -/
theorem msgState_pool {entry : AsyncPoolChangeEntry} {id : String}
    (other : ¬ Recreates entry id) (s : Slot) (nowMs : Int) (db : Db) {x : AsyncMsgState}
    (held : msgState db id = some x) :
    ∃ y, msgState (applyAsyncPoolChange s nowMs db entry) id = some y ∧
      (y = x ∨ msgDone x = false ∧ msgDone y = false) := by
  obtain ⟨row, found, rfl⟩ := Option.map_eq_some_iff.mp held
  have filed : row.id = id := Db.id_of_readAsyncMsg found
  by_cases named : entry.asyncMessageId = id
  · unfold applyAsyncPoolChange
    dsimp only
    rw [named, found]
    split
    · exact ⟨_, held, .inl rfl⟩
    · next nonempty =>
        split
        · exact ⟨_, held, .inl rfl⟩
        · next value hasValue =>
            split
            · next msg isSet created =>
                exact absurd ⟨named, by simpa using nonempty, value, msg, hasValue, isSet, created⟩ other
            · exact ⟨_, (msgState_writeAsyncMsg _ _ _).trans (if_pos filed), .inl rfl⟩
            · refine ⟨_, (msgState_writeAsyncMsg _ _ _).trans (if_pos filed), ?_⟩
              dsimp only [Option.getD_some]
              cases row.state <;> simp [msgDone]
            · exact ⟨_, held, .inl rfl⟩
  · -- another message
    refine ⟨_, ?_, .inl rfl⟩
    rw [← held]
    unfold applyAsyncPoolChange
    dsimp only
    have apart : ∀ msg : StoredAsyncMsg, msg.id = entry.asyncMessageId →
        msgState (db.writeAsyncMsg msg) id = msgState db id := by
      intro msg filed
      rw [msgState_writeAsyncMsg, if_neg (filed ▸ named)]
    have read : ((db.readAsyncMsg entry.asyncMessageId).getD
        (mintedAsyncMsg entry.asyncMessageId s .pending nowMs)).id = entry.asyncMessageId := by
      cases known : db.readAsyncMsg entry.asyncMessageId with
      | none => rfl
      | some other => exact Db.id_of_readAsyncMsg known
    split
    · rfl
    · split
      · rfl
      · split
        · exact apart _ rfl
        · exact apart _ read
        · exact apart _ read
        · rfl

def poolEntries (exec : ExecutionOutput) : List AsyncPoolChangeEntry :=
  (exec.stateChanges.map (·.asyncPoolChanges)).getD []

theorem applyAsyncPoolChanges_eq (db : Db) (s : Slot) (exec : ExecutionOutput) (nowMs : Int) :
    applyAsyncPoolChanges db s exec nowMs =
      (poolEntries exec).foldl (applyAsyncPoolChange s nowMs) db := by
  unfold applyAsyncPoolChanges poolEntries
  cases exec.stateChanges <;> rfl

/-- A row that the pool brings back stays open under the entries that follow. -/
theorem msgState_foldl_pool_open (s : Slot) (nowMs : Int) (id : String)
    (entries : List AsyncPoolChangeEntry) (db : Db)
    (open_ : ∃ x, msgState db id = some x ∧ msgDone x = false) :
    ∃ x, msgState (entries.foldl (applyAsyncPoolChange s nowMs) db) id = some x ∧
      msgDone x = false := by
  induction entries generalizing db with
  | nil => exact open_
  | cons entry entries ih =>
      refine ih _ ?_
      obtain ⟨x, held, notDone⟩ := open_
      by_cases recreates : Recreates entry id
      · exact ⟨_, msgState_pool_of_recreates recreates s nowMs db, rfl⟩
      · obtain ⟨y, after, rfl | ⟨-, open_⟩⟩ := msgState_pool recreates s nowMs db held
        · exact ⟨y, after, notDone⟩
        · exact ⟨y, after, open_⟩

/-- **A message that is done outlives a frame's pool changes exactly when none of them sets it again.** -/
theorem msgState_pool_iff {s : Slot} {nowMs : Int} {id : String} {x : AsyncMsgState}
    (done : msgDone x = true) (entries : List AsyncPoolChangeEntry) {db : Db}
    (held : msgState db id = some x) :
    msgState (entries.foldl (applyAsyncPoolChange s nowMs) db) id = some x ↔
      ∀ entry ∈ entries, ¬ Recreates entry id := by
  induction entries generalizing db with
  | nil => simpa using held
  | cons entry entries ih =>
      rw [List.foldl_cons, List.forall_mem_cons]
      by_cases recreates : Recreates entry id
      · refine iff_of_false (fun kept => ?_) fun none => none.1 recreates
        obtain ⟨y, after, open_⟩ := msgState_foldl_pool_open s nowMs id entries _
          ⟨_, msgState_pool_of_recreates recreates s nowMs db, rfl⟩
        rw [kept] at after
        obtain rfl := Option.some.inj after
        simp [done] at open_
      · obtain ⟨y, after, rfl | ⟨notDone, -⟩⟩ := msgState_pool recreates s nowMs db held
        · rw [ih after]
          simp [recreates]
        · simp [done] at notDone

/-! ## Shipped rows -/

/-- The state of the last shipped row of the message. -/
def lastMsg (pbs : List StoredAsyncMsgPb) (id : String) : Option AsyncMsgState :=
  (pbs.filterMap fun pb => (asyncMsgFromPeerPb pb).toOption.bind fun m =>
    if m.id = id then some m.state else none).getLast?

/-- The state of the last shipped row of the call. -/
def lastCall (pbs : List StoredDeferredCallPb) (id : String) : Option DeferredCallState :=
  (pbs.filterMap fun pb => (deferredCallFromPeerPb pb).toOption.bind fun d =>
    if d.id = id then some d.state else none).getLast?

omit [Bs58Check] in
theorem msgState_shipped (pbs : List StoredAsyncMsgPb) (db : Db) (id : String) :
    msgState (pbs.foldl applyAsyncMsg db) id = (lastMsg pbs id).or (msgState db id) := by
  rw [lastMsg, ← foldl_or_eq_getLast]
  induction pbs generalizing db with
  | nil => rfl
  | cons pb pbs ih =>
      rw [List.foldl_cons, List.foldl_cons, ih]
      congr 1
      unfold applyAsyncMsg
      cases asyncMsgFromPeerPb pb with
      | error err => rfl
      | ok m =>
          simp only [msgState_writeAsyncMsg, Except.toOption, Option.bind_some]
          split <;> rfl

omit [Bs58Check] in
theorem callState_shipped (pbs : List StoredDeferredCallPb) (db : Db) (id : String) :
    callState (pbs.foldl applyDeferredCall db) id = (lastCall pbs id).or (callState db id) := by
  rw [lastCall, ← foldl_or_eq_getLast]
  induction pbs generalizing db with
  | nil => rfl
  | cons pb pbs ih =>
      rw [List.foldl_cons, List.foldl_cons, ih]
      congr 1
      unfold applyDeferredCall
      cases deferredCallFromPeerPb pb with
      | error err => rfl
      | ok d =>
          simp only [callState_writeDeferredCall, Except.toOption, Option.bind_some]
          split <;> rfl

/-! ## Reconciliation -/

/-- What a transfer says of the message: its coins execute it, its refund cancels it. -/
def msgVerdict (id : String) (r : StoredTransfer) : Option AsyncMsgState :=
  if r.asyncMsgId = some id then
    match r.origin with
    | .asyncMsgCoins => some .executed
    | .asyncMsgCancel => some .cancelled
    | _ => none
  else none

/-- What a transfer says of the call. -/
def callVerdict (id : String) (r : StoredTransfer) : Option DeferredCallState :=
  if r.deferredCallId = some id then
    match r.origin with
    | .deferredCallCoins => some .executed
    | .deferredCallFail => some .failed
    | .deferredCallCancel => some .cancelled
    | _ => none
  else none

omit [Bs58Check] in
theorem msgDone_msgVerdict (id : String) (r : StoredTransfer) (x : AsyncMsgState)
    (said : msgVerdict id r = some x) : msgDone x = true := by
  unfold msgVerdict at said
  split at said
  · split at said <;> cases said <;> rfl
  · cases said

omit [Bs58Check] in
theorem callDone_callVerdict (id : String) (r : StoredTransfer) (x : DeferredCallState)
    (said : callVerdict id r = some x) : callDone x = true := by
  unfold callVerdict at said
  split at said
  · split at said <;> cases said <;> rfl
  · cases said

theorem msgState_reconcileRow (s : Slot) (nowMs : Int) (r : StoredTransfer) {db : Db} {id : String}
    {x : AsyncMsgState} (held : msgState db id = some x) :
    msgState (reconcileAsyncRow s nowMs db r) id =
      some (if msgDone x then x else (msgVerdict id r).getD x) := by
  unfold reconcileAsyncRow msgVerdict
  cases named : r.asyncMsgId with
  | none => simpa using held
  | some other =>
      dsimp only
      by_cases same : other = id
      · subst same
        obtain ⟨row, found, rfl⟩ := Option.map_eq_some_iff.mp held
        have filed : row.id = other := Db.id_of_readAsyncMsg found
        rw [if_pos rfl, found]
        cases r.origin with
        | asyncMsgCoins =>
            refine (msgState_writeAsyncMsg _ _ _).trans ((if_pos filed).trans ?_)
            dsimp only [Option.getD_some]
            cases row.state <;> rfl
        | asyncMsgCancel =>
            refine (msgState_writeAsyncMsg _ _ _).trans ((if_pos filed).trans ?_)
            dsimp only [Option.getD_some]
            cases row.state <;> rfl
        | _ => simpa using held
      · rw [if_neg (fun eq => same (Option.some.inj eq))]
        have read : ∀ minted : StoredAsyncMsg, minted.id = other →
            ((db.readAsyncMsg other).getD minted).id = other := by
          intro minted filed
          cases known : db.readAsyncMsg other with
          | none => exact filed
          | some row => exact Db.id_of_readAsyncMsg known
        simp only [Option.getD_none, ite_self]
        split
        · exact held
        · exact (msgState_writeAsyncMsg _ _ _).trans
            ((if_neg fun eq => same ((read _ rfl).symm.trans eq)).trans held)

/-- **A message that is done is not touched by reconciliation; an open one follows the first transfer
that decides it.** -/
theorem msgState_reconcile (s : Slot) (rows : List StoredTransfer) (nowMs : Int) {db : Db}
    {id : String} {x : AsyncMsgState} (held : msgState db id = some x) :
    msgState (reconcileAsyncFromTransfers db s rows nowMs) id =
      some (if msgDone x then x else (rows.findSome? (msgVerdict id)).getD x) := by
  rw [← foldl_settle (msgDone_msgVerdict id)]
  unfold reconcileAsyncFromTransfers
  induction rows generalizing db x with
  | nil => exact held
  | cons r rows ih => exact ih (msgState_reconcileRow s nowMs r held)

theorem callState_reconcileRow (s : Slot) (nowMs : Int) (r : StoredTransfer) {db : Db} {id : String}
    {x : DeferredCallState} (held : callState db id = some x) :
    callState (reconcileDeferredRow s nowMs db r) id =
      some (if callDone x then x else (callVerdict id r).getD x) := by
  unfold reconcileDeferredRow callVerdict
  cases named : r.deferredCallId with
  | none => simpa using held
  | some other =>
      dsimp only
      by_cases same : other = id
      · subst same
        obtain ⟨row, found, rfl⟩ := Option.map_eq_some_iff.mp held
        have filed : row.id = other := Db.id_of_readDeferredCall found
        rw [if_pos rfl, found]
        unfold deferredTransition
        cases r.origin <;> first
          | (refine (callState_writeDeferredCall _ _ _).trans ((if_pos filed).trans ?_)
             dsimp only [Option.getD_some]
             cases row.state <;> rfl)
          | simpa using held
      · rw [if_neg (fun eq => same (Option.some.inj eq))]
        have read : ((db.readDeferredCall other).getD (mintedDeferredCall other s nowMs)).id = other := by
          cases known : db.readDeferredCall other with
          | none => rfl
          | some row => exact Db.id_of_readDeferredCall known
        generalize (db.readDeferredCall other).getD (mintedDeferredCall other s nowMs) = found at read ⊢
        simp only [Option.getD_none, ite_self]
        split
        · exact held
        · next existing newState transition =>
            have kept : existing.id = found.id := by
              unfold deferredTransition at transition
              split at transition <;> cases transition <;> rfl
            refine (callState_writeDeferredCall _ _ _).trans ((if_neg fun eq => ?_).trans held)
            exact same ((kept.trans read).symm.trans eq)

theorem callState_reconcile (s : Slot) (rows : List StoredTransfer) (nowMs : Int) {db : Db}
    {id : String} {x : DeferredCallState} (held : callState db id = some x) :
    callState (reconcileDeferredFromTransfers db s rows nowMs) id =
      some (if callDone x then x else (rows.findSome? (callVerdict id)).getD x) := by
  rw [← foldl_settle (callDone_callVerdict id)]
  unfold reconcileDeferredFromTransfers
  induction rows generalizing db x with
  | nil => exact held
  | cons r rows ih => exact ih (callState_reconcileRow s nowMs r held)

/-! ## What an event may do -/

/-- A frame sets no message again that is done. -/
def FrameRespects (db : Db) (exec : ExecutionOutput) : Prop :=
  ∀ entry ∈ poolEntries exec, ∀ id, Recreates entry id →
    ∀ x, msgState db id = some x → msgDone x = false

/-- The rows an answer ships agree with those that are done -- at the latest once the answer's own
transfers have been gone through. -/
structure AnswerRespects (db : Db) (resp : FinalSlotResponse) (state : SlotState) : Prop where
  msgs : takesExec resp state = true → ∀ id x y, msgDone x = true → msgState db id = some x →
    lastMsg resp.asyncMsgs id = some y → y = x ∨ msgDone y = false ∧
      takesTransfers resp state = true ∧ (decodedTransfers resp).findSome? (msgVerdict id) = some x
  calls : takesTransfers resp state = true → ∀ id x y, callDone x = true →
    callState db id = some x → lastCall resp.deferredCalls id = some y →
      y = x ∨ callDone y = false ∧ (decodedTransfers resp).findSome? (callVerdict id) = some x

/-- An event overwrites no row that is done with another state. -/
def Respects (db : Db) (e : Timed) : Prop :=
  match e.event with
  | .exec out => ∀ taken, takenFrame db out e.nowMs = some taken → FrameRespects db taken.2
  | .peerPatch resp => ∀ s p, slotOf resp = some s → resp.finalKnown = true →
      reconcileVerdict db s (rowAt db s e.nowMs) resp = .proceed p → AnswerRespects db resp p.state
  | _ => True

omit [Bs58Check] in
theorem kept_of_same {db db' : Db} (msgs : contents db' .asyncMsgs = contents db .asyncMsgs)
    (calls : contents db' .deferredCalls = contents db .deferredCalls) : Kept db db' where
  msg id _ _ held := (sameMsgState msgs id).trans held
  call id _ _ held := (sameCallState calls id).trans held

theorem kept_handleExec_iff (db : Db) (out : SlotExecutionOutput) (nowMs : Int) :
    Kept db (handleExec db out nowMs).db ↔
      ∀ taken, takenFrame db out nowMs = some taken → FrameRespects db taken.2 := by
  have calls := deferredCalls_handleExec db out nowMs
  have msgs := asyncMsgs_handleExec db out nowMs
  cases taken : takenFrame db out nowMs with
  | none =>
      rw [taken] at msgs
      exact iff_of_true (kept_of_same msgs calls) (by simp)
  | some frame =>
      rw [taken] at msgs
      simp only [Option.elim, applyAsyncPoolChanges_eq] at msgs
      simp only [Option.some.injEq, forall_eq']
      constructor
      · intro kept entry member id recreates x held
        by_contra done
        rw [Bool.not_eq_false] at done
        have after := kept.msg id x done held
        rw [sameMsgState msgs, msgState_pool_iff done _ held] at after
        exact after entry member recreates
      · refine fun respects => ⟨fun id x done held => ?_,
          fun id x _ held => (sameCallState calls id).trans held⟩
        rw [sameMsgState msgs, msgState_pool_iff done _ held]
        intro entry member recreates
        have open_ := respects entry member id recreates x held
        simp [done] at open_

theorem msgState_peerAsyncMsgs (s : Slot) (resp : FinalSlotResponse) (nowMs : Int)
    (state : SlotState) {db : Db} {id : String} {x : AsyncMsgState} (done : msgDone x = true)
    (held : msgState db id = some x) :
    msgState (peerAsyncMsgs db s resp nowMs state) id = some x ↔
      (takesExec resp state = true → ∀ y, lastMsg resp.asyncMsgs id = some y → y = x ∨
        msgDone y = false ∧ takesTransfers resp state = true ∧
          (decodedTransfers resp).findSome? (msgVerdict id) = some x) := by
  unfold peerAsyncMsgs
  cases takesExec resp state with
  | false =>
      simp only [Bool.false_eq_true, if_false, false_implies, iff_true]
      split
      · rw [msgState_reconcile s _ nowMs held, if_pos done]
      · exact held
  | true =>
      have shipped := msgState_shipped resp.asyncMsgs db id
      rw [held] at shipped
      simp only [if_true, true_implies]
      cases last : lastMsg resp.asyncMsgs id with
      | none =>
          rw [last, Option.none_or] at shipped
          refine iff_of_true ?_ (by simp)
          split
          · rw [msgState_reconcile s _ nowMs shipped, if_pos done]
          · exact shipped
      | some y =>
          rw [last, Option.some_or] at shipped
          simp only [Option.some.injEq, forall_eq']
          split
          · next transfers =>
              rw [msgState_reconcile s _ nowMs shipped, Option.some.injEq, transfers]
              cases open_ : msgDone y with
              | true => simp
              | false =>
                  cases (decodedTransfers resp).findSome? (msgVerdict id) with
                  | none => simp
                  | some z =>
                      have apart : y ≠ x := by rintro rfl; simp [done] at open_
                      simp [apart]
          · next none =>
              rw [shipped]
              simp [none]

theorem callState_peerDeferredCalls (s : Slot) (resp : FinalSlotResponse) (nowMs : Int)
    (state : SlotState) {db : Db} {id : String} {x : DeferredCallState} (done : callDone x = true)
    (held : callState db id = some x) :
    callState (peerDeferredCalls db s resp nowMs state) id = some x ↔
      (takesTransfers resp state = true → ∀ y, lastCall resp.deferredCalls id = some y → y = x ∨
        callDone y = false ∧ (decodedTransfers resp).findSome? (callVerdict id) = some x) := by
  unfold peerDeferredCalls
  cases takesTransfers resp state with
  | false => simpa using held
  | true =>
      have shipped := callState_shipped resp.deferredCalls db id
      rw [held] at shipped
      simp only [if_true, true_implies]
      cases last : lastCall resp.deferredCalls id with
      | none =>
          rw [last, Option.none_or] at shipped
          refine iff_of_true ?_ (by simp)
          rw [callState_reconcile s _ nowMs shipped, if_pos done]
      | some y =>
          rw [last, Option.some_or] at shipped
          simp only [Option.some.injEq, forall_eq']
          rw [callState_reconcile s _ nowMs shipped, Option.some.injEq]
          cases open_ : callDone y with
          | true => simp
          | false =>
              cases (decodedTransfers resp).findSome? (callVerdict id) with
              | none => simp
              | some z =>
                  have apart : y ≠ x := by rintro rfl; simp [done] at open_
                  simp [apart]

variable [DenunciationDigest]

/-- A peer's answer that gets past the row does to messages and calls what its parts do to the store it
met. -/
theorem contents_peerPatch {db : Db} {s : Slot} {state : SlotState} {resp : FinalSlotResponse}
    {p : Patching} (proceeds : Proceeds db s state resp p) (nowMs : Int) (row : SlotState) :
    contents (Stage.runAll (peerPartStages s resp nowMs p.state ++ closingStages s row nowMs) p.db)
        .asyncMsgs = contents (peerAsyncMsgs db s resp nowMs p.state) .asyncMsgs ∧
      contents (Stage.runAll (peerPartStages s resp nowMs p.state ++ closingStages s row nowMs) p.db)
        .deferredCalls = contents (peerDeferredCalls db s resp nowMs p.state) .deferredCalls := by
  rw [← asyncMsgs_peerStages s resp nowMs p.state row db,
    ← deferredCalls_peerStages s resp nowMs p.state row db]
  constructor
  · rw [contents_runAll _ db]
    exact Stage.view_runAll_congr _ (proceeds.frame rfl)
  · rw [contents_runAll _ db]
    exact Stage.view_runAll_congr _ (proceeds.frame rfl)

theorem kept_applyPeerPatch_iff (db : Db) (resp : FinalSlotResponse) (nowMs : Int) :
    Kept db (applyPeerPatch db resp nowMs).1 ↔
      ∀ s p, slotOf resp = some s → resp.finalKnown = true →
        reconcileVerdict db s (rowAt db s nowMs) resp = .proceed p →
          AnswerRespects db resp p.state := by
  cases about : slotOf resp with
  | none => exact iff_of_true (by rw [applyPeerPatch, about]; exact Kept.refl db) (by simp)
  | some s =>
      cases known : resp.finalKnown with
      | false => exact iff_of_true (by rw [applyPeerPatch, about, known]; exact Kept.refl db) (by simp)
      | true =>
          rw [applyPeerPatch_eq about known]
          cases taken : reconcileVerdict db s (rowAt db s nowMs) resp with
          | turnedAway out =>
              refine iff_of_true (kept_of_same rfl rfl) ?_
              rintro _ p ⟨⟩ - proceeds
              rw [taken] at proceeds
              cases proceeds
          | proceed p =>
              obtain ⟨msgs, calls⟩ := contents_peerPatch (proceeds_of_reconcileVerdict taken) nowMs
                (peerRow resp p.state)
              dsimp only
              constructor
              · rintro kept _ _ ⟨⟩ - proceeds
                obtain rfl := Reconciled.proceed.inj (taken.symm.trans proceeds)
                constructor
                · intro exec id x y done held last
                  have after := kept.msg id x done held
                  rw [sameMsgState msgs, msgState_peerAsyncMsgs s resp nowMs p.state done held] at after
                  exact after exec y last
                · intro transfers id x y done held last
                  have after := kept.call id x done held
                  rw [sameCallState calls, callState_peerDeferredCalls s resp nowMs p.state done held]
                    at after
                  exact after transfers y last
              · intro respects
                have answer := respects s p rfl rfl taken
                constructor
                · intro id x done held
                  rw [sameMsgState msgs, msgState_peerAsyncMsgs s resp nowMs p.state done held]
                  exact fun exec y last => answer.msgs exec id x y done held last
                · intro id x done held
                  rw [sameCallState calls, callState_peerDeferredCalls s resp nowMs p.state done held]
                  exact fun transfers y last => answer.calls transfers id x y done held last

/-! ## What the other events keep -/

omit [DenunciationDigest] in
theorem kept_handleTransfers (db : Db) (resp : NewTransfersInfoServerResponse) (nowMs : Int) :
    Kept db (handleTransfers db resp nowMs).db := by
  rw [handleTransfers_db]
  cases resp.slot with
  | none => exact Kept.refl db
  | some slotPb =>
      dsimp only
      generalize NodeDecode.slotFromPb slotPb = s
      constructor
      · intro id x done held
        have same : contents (Stage.runAll (handleTransfersStages s (decodeTransfers resp s nowMs) nowMs)
            db) .asyncMsgs = contents (reconcileAsyncFromTransfers db s
              (decodeTransfers resp s nowMs) nowMs) .asyncMsgs := by
          rw [contents_runAll]
          rfl
        rw [sameMsgState same, msgState_reconcile s _ nowMs held, if_pos done]
      · intro id x done held
        have same : contents (Stage.runAll (handleTransfersStages s (decodeTransfers resp s nowMs) nowMs)
            db) .deferredCalls = contents (reconcileDeferredFromTransfers db s
              (decodeTransfers resp s nowMs) nowMs) .deferredCalls := by
          rw [contents_runAll]
          rfl
        rw [sameCallState same, callState_reconcile s _ nowMs held, if_pos done]

theorem kept_handleBlock (db : Db) (fb : FilledBlock) (nowMs : Int) :
    Kept db (handleBlock db fb nowMs).db := by
  cases decoded : decodeHead fb with
  | error err => rw [handleBlock, decoded]; exact Kept.refl db
  | ok head =>
      rw [handleBlock_db decoded]
      have elsewhere : ∀ stage ∈ handleBlockStages db head fb.operations nowMs,
          stage.site ≠ .asyncMsgs ∧ stage.site ≠ .deferredCalls := by
        unfold handleBlockStages
        split
        · simp
        · split <;> simp [storedBlockStages, Write.family]
      exact kept_of_same (Stage.view_runAll_of_absent (fun stage member => (elsewhere stage member).1) db)
        (Stage.view_runAll_of_absent (fun stage member => (elsewhere stage member).2) db)

theorem kept_applyLegacyPatch (db : Db) (resp : FinalSlotResponse) (nowMs : Int) :
    Kept db (applyLegacyPatch db resp nowMs).1 := by
  cases about : slotOf resp with
  | none => rw [applyLegacyPatch, about]; exact Kept.refl db
  | some s =>
      cases known : resp.finalKnown with
      | false => rw [applyLegacyPatch, about, known]; exact Kept.refl db
      | true =>
          rw [applyLegacyPatch_eq about known]
          dsimp only
          generalize legacyPromoted resp (rowAt db s nowMs) = state
          refine kept_of_same ?_ ?_
          · rw [contents_runAll, legacyPartStages]
            cases legacyBody resp state <;> split <;> split <;> rfl
          · rw [contents_runAll, legacyPartStages]
            cases legacyBody resp state <;> split <;> split <;> rfl

omit [DenunciationDigest] in
theorem kept_applyForcedVerdict (db : Db) (resp : FinalSlotResponse) (nowMs : Int) :
    Kept db (match applyForcedVerdict db resp nowMs with
      | .ok (db, _) => db
      | .error _ => db) := by
  cases about : slotOf resp with
  | none => rw [applyForcedVerdict, about]; exact Kept.refl db
  | some s =>
      cases target : forcedTarget resp with
      | error err => rw [applyForcedVerdict, about, target]; exact Kept.refl db
      | ok v =>
          rw [applyForcedVerdict_eq about target]
          dsimp only
          split
          · exact Kept.refl db
          · generalize rowAt db s nowMs = state
            refine kept_of_same ?_ ?_
            · rw [contents_runAll, adoptStages]
              cases state.finalBlockId <;> rfl
            · rw [contents_runAll, adoptStages]
              cases state.finalBlockId <;> rfl

/-- **One step keeps every row that is done exactly when the event overwrites none with another
state.** -/
theorem kept_step_iff (db : Db) (e : Timed) : Kept db (step db e) ↔ Respects db e := by
  obtain ⟨event, nowMs⟩ := e
  cases event with
  | block fb => exact iff_of_true (kept_handleBlock db fb nowMs) trivial
  | exec out => exact kept_handleExec_iff db out nowMs
  | transfers resp => exact iff_of_true (kept_handleTransfers db resp nowMs) trivial
  | peerPatch resp => exact kept_applyPeerPatch_iff db resp nowMs
  | legacyPatch resp => exact iff_of_true (kept_applyLegacyPatch db resp nowMs) trivial
  | forcedVerdict resp => exact iff_of_true (kept_applyForcedVerdict db resp nowMs) trivial
  | tick => exact iff_of_true (Kept.refl db) trivial

/-- **When done rows stay as they are.** From any state of a run to any later one every message that is
executed or cancelled, and every call that is executed, failed or cancelled, keeps its state -- exactly
when no event overwrites one with another state. -/
theorem terminal_states_kept_iff (db : Db) (events : List Timed) :
    (∀ before between after, events = before ++ between ++ after →
        Kept (run step db before) (run step db (before ++ between))) ↔
      Along step Respects db events := by
  have steps : (fun db e => Kept db (step db e)) = Respects :=
    funext fun db => funext fun e => propext (kept_step_iff db e)
  rw [← steps]
  exact kept_throughout_iff Kept.refl Kept.trans

end Writers

/-! ## An older frame -/

section Older

attribute [local instance] Bs58Check.doubleSha noDenunciations

/-- The coins of a message are moved in slot (12, 0). -/
def coinsMoved : NewTransfersInfoServerResponse where
  slot := some ⟨12, 0⟩
  transfersInfo := [{ value := some (some (.coins ⟨1, 0⟩)), origin := 26, asyncMsgId := some "m" }]

/-- Slot (11, 0) put the message into the pool. -/
def poolBefore : ExecutionOutput where
  slot := some ⟨11, 0⟩
  stateChanges := some { asyncPoolChanges := [⟨"m", some ⟨1, some (.createdMessage {})⟩⟩] }

def frameBefore : SlotExecutionOutput := { status := 2, executionOutput := some poolBefore }

/-- What the first event does to the messages and to the slot rows. -/
theorem contents_coinsMoved :
    contents (step Db.empty ⟨.transfers coinsMoved, 0⟩) .asyncMsgs =
        contents (reconcileAsyncRow ⟨12, 0⟩ 0 Db.empty
          (transferRow coinsMoved ⟨12, 0⟩ 0 0 (coinsMoved.transfersInfo.headD {}))) .asyncMsgs ∧
      contents (step Db.empty ⟨.transfers coinsMoved, 0⟩) .slots =
        contents (settleTransfers Db.empty ⟨12, 0⟩ 0) .slots := by
  have rows : decodeTransfers coinsMoved ⟨12, 0⟩ 0 =
      [transferRow coinsMoved ⟨12, 0⟩ 0 0 (coinsMoved.transfersInfo.headD {})] := by decide
  have stages : step Db.empty ⟨.transfers coinsMoved, 0⟩ = Stage.runAll
      (handleTransfersStages ⟨12, 0⟩ (decodeTransfers coinsMoved ⟨12, 0⟩ 0) 0) Db.empty :=
    handleTransfers_db Db.empty coinsMoved 0
  rw [stages, rows]
  constructor
  · rw [contents_runAll]
    rfl
  · rw [contents_runAll]
    rfl

theorem msgState_coinsMoved :
    msgState (step Db.empty ⟨.transfers coinsMoved, 0⟩) "m" = some .executed := by
  rw [sameMsgState contents_coinsMoved.1]
  exact (msgState_writeAsyncMsg _ _ _).trans (if_pos (by simp [Db.readAsyncMsg, Db.empty, mintedAsyncMsg]))

theorem takenFrame_frameBefore : takenFrame (step Db.empty ⟨.transfers coinsMoved, 0⟩) frameBefore 0 =
    some (⟨11, 0⟩, poolBefore) := by
  have none : (step Db.empty ⟨.transfers coinsMoved, 0⟩).readSlot ⟨11, 0⟩ = none := by
    rw [sameReadSlot contents_coinsMoved.2]
    exact (Db.readSlot_writeSlot _ _ _).trans (if_neg (by decide))
  have open_ : (rowAt (step Db.empty ⟨.transfers coinsMoved, 0⟩) ⟨11, 0⟩ 0).status ≠ .final := by
    rw [rowAt, none]
    decide
  have frame : readFrame frameBefore = some (⟨11, 0⟩, .final, poolBefore) := rfl
  rw [takenFrame, frame]
  exact if_pos (.inl open_)

/-- **A frame of an earlier slot brings an executed message back.** -/
theorem terminal_states_not_kept : ¬ ∀ before after id x, msgDone x = true →
    msgState (ingest before) id = some x → msgState (ingest (before ++ after)) id = some x := by
  intro sticky
  have kept := sticky [⟨.transfers coinsMoved, 0⟩] [⟨.exec frameBefore, 0⟩] "m" .executed rfl
    msgState_coinsMoved
  have msgs := asyncMsgs_handleExec (step Db.empty ⟨.transfers coinsMoved, 0⟩) frameBefore 0
  rw [takenFrame_frameBefore] at msgs
  have again : Recreates ⟨"m", some ⟨1, some (.createdMessage {})⟩⟩ "m" :=
    ⟨rfl, by decide, _, _, rfl, rfl, rfl⟩
  have pending : msgState (ingest [⟨.transfers coinsMoved, 0⟩, ⟨.exec frameBefore, 0⟩]) "m" =
      some .pending :=
    (sameMsgState msgs "m").trans (msgState_pool_of_recreates again ⟨11, 0⟩ 0 _)
  exact absurd (pending.symm.trans kept) (by decide)

end Older
end MassaIndexer.Laws.TerminalStates
