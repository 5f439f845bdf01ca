/-
# Writer.Rewrites -- writing again what is there

The steps an event can take a second time, family by family: a transfer list reconciled with the pools
again, the statuses of a CANDIDATE frame set again, block statuses settled again, the operations and
endorsements of a shipped body merged again. Each leaves the rows as they are, but for the clock.
-/
import MassaIndexer.Theory.Redelivery
import MassaIndexer.Store.Timeless
import MassaIndexer.Writer.BodyMoves

namespace MassaIndexer.Writer.Rewrites

open MassaIndexer.Theory.KeyedTable MassaIndexer.Theory.Redelivery
open MassaIndexer.Data.Ids MassaIndexer.Data.Model MassaIndexer.Data.Proto MassaIndexer.Data.Codec
open MassaIndexer.Data.RowCodec MassaIndexer.Data.Keys
open MassaIndexer.Store.ColumnFamilies MassaIndexer.Store.Footprint MassaIndexer.Store.Timeless
open MassaIndexer.Writer.NodeProto MassaIndexer.Writer.NodeDecode
open MassaIndexer.Writer.Shared MassaIndexer.Writer.Handlers
open MassaIndexer.Peer.Patch

set_option autoImplicit false

variable [Bs58Check]

/-! ## Async messages -/

/-- The state a transfer that names a message gives it. -/
def asyncVerdict (r : StoredTransfer) : Option AsyncMsgState :=
  match r.origin with
  | .asyncMsgCoins => some .executed
  | .asyncMsgCancel => some .cancelled
  | _ => none

/-- The row of a message after a transfer of a slot. -/
def reconciledAsync (slot : Slot) (nowMs : Int) (r : StoredTransfer) (newState : AsyncMsgState)
    (row : StoredAsyncMsg) : StoredAsyncMsg :=
  { row with
    state := match row.state with
      | .pending => newState
      | .consumed => newState
      | settled => settled
    sender := row.sender.or (parsedAddress r.fromAddr)
    destination := row.destination.or (parsedAddress r.toAddr)
    coinsNmas := match r.value with
      | .coins nmas => if row.coinsNmas = 0 then nmas else row.coinsNmas
      | _ => row.coinsNmas
    lastSlot := some slot
    lastUpdatedTsMs := nowMs }

theorem reconcileAsyncRow_cases (slot : Slot) (nowMs : Int) (db : Db) (r : StoredTransfer) :
    (∀ id st, r.asyncMsgId = some id → asyncVerdict r = some st → False) ∧
        reconcileAsyncRow slot nowMs db r = db ∨
      ∃ id st, r.asyncMsgId = some id ∧ asyncVerdict r = some st ∧ reconcileAsyncRow slot nowMs db r =
        db.writeAsyncMsg (reconciledAsync slot nowMs r st
          ((db.readAsyncMsg id).getD (mintedAsyncMsg id slot st nowMs))) := by
  unfold reconcileAsyncRow asyncVerdict
  cases r.asyncMsgId with
  | none => exact .inl ⟨by simp, rfl⟩
  | some id =>
      cases r.origin
      case asyncMsgCoins => exact .inr ⟨id, .executed, rfl, rfl, rfl⟩
      case asyncMsgCancel => exact .inr ⟨id, .cancelled, rfl, rfl, rfl⟩
      all_goals exact .inl ⟨by simp, rfl⟩

/-- The row has all that the transfer brings. -/
structure AsyncSettled (slot : Slot) (r : StoredTransfer) (row : StoredAsyncMsg) : Prop where
  state : row.state ≠ .pending ∧ row.state ≠ .consumed
  sender : row.sender.or (parsedAddress r.fromAddr) = row.sender
  destination : row.destination.or (parsedAddress r.toAddr) = row.destination
  coins : ∀ nmas, r.value = .coins nmas → row.coinsNmas = 0 → nmas = 0
  lastSlot : row.lastSlot = some slot

section AsyncRow

variable (slot : Slot) (nowMs : Int) (r : StoredTransfer)

omit [Bs58Check] in
theorem asyncVerdict_settled {r : StoredTransfer} {st : AsyncMsgState} (given : asyncVerdict r = some st) :
    st ≠ .pending ∧ st ≠ .consumed := by
  unfold asyncVerdict at given
  split at given <;> simp_all
  all_goals subst given; decide

theorem asyncSettled_reconciled {st : AsyncMsgState} (given : asyncVerdict r = some st)
    (row : StoredAsyncMsg) : AsyncSettled slot r (reconciledAsync slot nowMs r st row) where
  state := by
    have settled := asyncVerdict_settled given
    unfold reconciledAsync
    cases row.state <;> simp [settled]
  sender := by
    unfold reconciledAsync
    cases row.sender <;> cases parsedAddress r.fromAddr <;> rfl
  destination := by
    unfold reconciledAsync
    cases row.destination <;> cases parsedAddress r.toAddr <;> rfl
  coins nmas valued none_ := by
    unfold reconciledAsync at none_
    rw [valued] at none_
    dsimp only at none_
    split at none_
    · exact none_
    · next some_ => exact absurd none_ some_
  lastSlot := rfl

/-- Another transfer of the slot takes nothing back. -/
theorem AsyncSettled.reconciled {slot : Slot} {r : StoredTransfer} {row : StoredAsyncMsg}
    (settled : AsyncSettled slot r row) (nowMs : Int) (other : StoredTransfer) (st : AsyncMsgState) :
    AsyncSettled slot r (reconciledAsync slot nowMs other st row) where
  state := by
    obtain ⟨notPending, notConsumed⟩ := settled.state
    unfold reconciledAsync
    cases known : row.state <;> simp_all
  sender := by
    have own := settled.sender
    unfold reconciledAsync
    dsimp only
    cases known : row.sender with
    | some a => rfl
    | none =>
        rw [known, Option.none_or] at own
        rw [own, Option.or_none]
  destination := by
    have own := settled.destination
    unfold reconciledAsync
    dsimp only
    cases known : row.destination with
    | some a => rfl
    | none =>
        rw [known, Option.none_or] at own
        rw [own, Option.or_none]
  coins nmas valued none_ := by
    refine settled.coins nmas valued ?_
    by_contra some_
    unfold reconciledAsync at none_
    dsimp only at none_
    split at none_
    · rw [if_neg some_] at none_
      exact some_ none_
    · exact some_ none_
  lastSlot := rfl

theorem AsyncSettled.idle {slot : Slot} {r : StoredTransfer} {row : StoredAsyncMsg}
    (settled : AsyncSettled slot r row) (nowMs : Int) (st : AsyncMsgState) :
    reconciledAsync slot nowMs r st row = { row with lastUpdatedTsMs := nowMs } := by
  obtain ⟨⟨notPending, notConsumed⟩, sender, destination, coins, lastSlot⟩ := settled
  have amount : (match r.value with
      | .coins nmas => if row.coinsNmas = 0 then nmas else row.coinsNmas
      | _ => row.coinsNmas) = row.coinsNmas := by
    split
    · next nmas valued =>
        split
        · next none_ => rw [none_, coins nmas valued none_]
        · rfl
    · rfl
  have state : (match row.state with
      | .pending => st
      | .consumed => st
      | settled => settled) = row.state := by
    cases known : row.state <;> simp_all
  unfold reconciledAsync
  rw [amount, state, sender, destination, ← lastSlot]

end AsyncRow

section AsyncPool

omit [Bs58Check] in
/-- A message that is written is read back, but for its first sighting. -/
theorem exists_written_asyncMsg (db : Db) (msg : StoredAsyncMsg) :
    ∃ row, timelessAsyncMsg row = timelessAsyncMsg msg ∧ ∀ id,
      (db.writeAsyncMsg msg).readAsyncMsg id = if msg.id = id then some row else db.readAsyncMsg id := by
  refine ⟨_, ?_, fun id => Db.readAsyncMsg_writeAsyncMsg db msg id⟩
  split
  · split <;> rfl
  · rfl

theorem AsyncSettled.of_timeless {slot : Slot} {r : StoredTransfer} {row row' : StoredAsyncMsg}
    (settled : AsyncSettled slot r row') (same : timelessAsyncMsg row = timelessAsyncMsg row') :
    AsyncSettled slot r row := by
  have state : row.state = row'.state := (congrArg StoredAsyncMsg.state same :)
  have sender : row.sender = row'.sender := (congrArg StoredAsyncMsg.sender same :)
  have destination : row.destination = row'.destination := (congrArg StoredAsyncMsg.destination same :)
  have coins : row.coinsNmas = row'.coinsNmas := (congrArg StoredAsyncMsg.coinsNmas same :)
  have lastSlot : row.lastSlot = row'.lastSlot := (congrArg StoredAsyncMsg.lastSlot same :)
  exact ⟨state ▸ settled.state, sender ▸ settled.sender, destination ▸ settled.destination,
    coins ▸ settled.coins, lastSlot.trans settled.lastSlot⟩

/-- The message a transfer says something about. -/
def asyncKey (r : StoredTransfer) : Option String := (asyncVerdict r).bind fun _ => r.asyncMsgId

theorem asyncMsgs_refile (slot : Slot) (firstMs againMs : Int) :
    Refiles Db.readAsyncMsg timelessAsyncMsg asyncKey (fun r db => reconcileAsyncRow slot firstMs db r)
      (fun r db => reconcileAsyncRow slot againMs db r) (AsyncSettled slot) where
  mute r db mute := by
    have silent : ∀ nowMs, reconcileAsyncRow slot nowMs db r = db := by
      intro nowMs
      rcases reconcileAsyncRow_cases slot nowMs db r with ⟨-, here⟩ | ⟨id, st, named, given, -⟩
      · exact here
      · simp [asyncKey, named, given] at mute
    exact ⟨silent firstMs, silent againMs⟩
  writes r db id named := by
    obtain ⟨st, given, here⟩ := Option.bind_eq_some_iff.mp named
    rcases reconcileAsyncRow_cases slot firstMs db r with ⟨none_, -⟩ | ⟨id', st', here', given', left⟩
    · exact (none_ id st here given).elim
    · obtain rfl := Option.some.inj (here.symm.trans here')
      generalize existing : (db.readAsyncMsg id).getD (mintedAsyncMsg id slot st' firstMs) = old at left
      have own : old.id = id := by
        subst existing
        cases found : db.readAsyncMsg id with
        | none => rfl
        | some row => exact Db.id_of_readAsyncMsg found
      obtain ⟨row, same, reads⟩ := exists_written_asyncMsg db (reconciledAsync slot firstMs r st' old)
      refine ⟨row, (asyncSettled_reconciled slot firstMs r given' old).of_timeless same, ?_, ?_⟩
      · intro other before found settled
        rw [found, Option.getD_some] at existing
        subst existing
        exact (settled.reconciled firstMs r st').of_timeless same
      · intro k
        rw [left, reads k, show (reconciledAsync slot firstMs r st' old).id = id from own]
  idle r db id old named found settled := by
    obtain ⟨st, given, here⟩ := Option.bind_eq_some_iff.mp named
    rcases reconcileAsyncRow_cases slot againMs db r with ⟨none_, -⟩ | ⟨id', st', here', -, left⟩
    · exact (none_ id st here given).elim
    · obtain rfl := Option.some.inj (here.symm.trans here')
      rw [found, Option.getD_some, settled.idle againMs st'] at left
      obtain ⟨row, same, reads⟩ := exists_written_asyncMsg db { old with lastUpdatedTsMs := againMs }
      refine ⟨row, same, fun k => ?_⟩
      rw [left, reads k, show ({ old with lastUpdatedTsMs := againMs } : StoredAsyncMsg).id = id from
        (Db.id_of_readAsyncMsg found : old.id = id)]
  blind _ _ _ same settled := settled.of_timeless same

/-- **Reconciling the messages with the same transfers again changes clocks only.** -/
theorem asyncMsgs_again (slot : Slot) (rows : List StoredTransfer) (firstMs againMs : Int) (db : Db) :
    SameRows timelessAsyncMsg
      (reconcileAsyncFromTransfers (reconcileAsyncFromTransfers db slot rows firstMs) slot rows
        againMs).asyncMsgs (reconcileAsyncFromTransfers db slot rows firstMs).asyncMsgs :=
  sameRows_of_keys fun v => (asyncMsgs_refile slot firstMs againMs).read_again rows db v.id

end AsyncPool

/-! ## Deferred calls -/

/-- The row of a call after a transfer of a slot that says something about it. -/
def reconciledDeferred (slot : Slot) (nowMs : Int) (r : StoredTransfer) (row : StoredDeferredCall) :
    Option StoredDeferredCall :=
  (deferredTransition slot r row).map fun (existing, newState) =>
    { existing with
      coinsNmas := match r.value with
        | .coins nmas => if existing.coinsNmas < nmas then nmas else existing.coinsNmas
        | _ => existing.coinsNmas
      state := match existing.state with
        | .registered => newState
        | terminal => terminal
      lastSlot := some slot
      lastUpdatedTsMs := nowMs }

theorem reconcileDeferredRow_cases (slot : Slot) (nowMs : Int) (db : Db) (r : StoredTransfer) :
    (∀ id, r.deferredCallId = some id →
        reconciledDeferred slot nowMs r
          ((db.readDeferredCall id).getD (mintedDeferredCall id slot nowMs)) = none) ∧
        reconcileDeferredRow slot nowMs db r = db ∨
      ∃ id row, r.deferredCallId = some id ∧ reconciledDeferred slot nowMs r
          ((db.readDeferredCall id).getD (mintedDeferredCall id slot nowMs)) = some row ∧
        reconcileDeferredRow slot nowMs db r = db.writeDeferredCall row := by
  unfold reconcileDeferredRow reconciledDeferred
  cases r.deferredCallId with
  | none => exact .inl ⟨by simp, rfl⟩
  | some id =>
      dsimp only
      cases said : deferredTransition slot r
          ((db.readDeferredCall id).getD (mintedDeferredCall id slot nowMs)) with
      | none =>
          refine .inl ⟨fun id' named => ?_, rfl⟩
          obtain rfl := Option.some.inj named
          rw [said]
          rfl
      | some pair => exact .inr ⟨id, _, rfl, congrArg _ said, rfl⟩

/-- The row has all that the transfer brings. -/
structure CallSettled (slot : Slot) (r : StoredTransfer) (row : StoredDeferredCall) : Prop where
  registered : r.origin = .deferredCallRegister →
    row.registeredSlot.isSome = true ∧ row.sender.or (parsedAddress r.fromAddr) = row.sender
  target : r.origin = .deferredCallCoins →
    row.targetSlot.isSome = true ∧ row.targetAddress.or (parsedAddress r.toAddr) = row.targetAddress
  state : r.origin = .deferredCallCoins ∨ r.origin = .deferredCallFail ∨ r.origin = .deferredCallCancel →
    row.state ≠ .registered
  coins : ∀ nmas, r.value = .coins nmas → ¬ row.coinsNmas < nmas
  lastSlot : row.lastSlot = some slot

section DeferredRow

variable (slot : Slot) (nowMs : Int) (r : StoredTransfer)

theorem callSettled_reconciled {row left : StoredDeferredCall}
    (said : reconciledDeferred slot nowMs r row = some left) : CallSettled slot r left := by
  unfold reconciledDeferred at said
  obtain ⟨⟨existing, newState⟩, transition, rfl⟩ := Option.map_eq_some_iff.mp said
  have coins : ∀ nmas, r.value = .coins nmas → ¬ (match r.value with
      | .coins nmas => if existing.coinsNmas < nmas then nmas else existing.coinsNmas
      | _ => existing.coinsNmas) < nmas := by
    intro nmas valued
    rw [valued]
    dsimp only
    split
    · exact UInt64.lt_irrefl nmas
    · assumption
  unfold deferredTransition at transition
  split at transition
  · next origin =>
      obtain ⟨rfl, rfl⟩ := Prod.mk.inj (Option.some.inj transition)
      refine ⟨fun _ => ⟨?_, ?_⟩, by simp [origin], by simp [origin], coins, rfl⟩
      · cases row.registeredSlot <;> rfl
      · cases row.sender <;> cases parsedAddress r.fromAddr <;> rfl
  · next origin =>
      obtain ⟨rfl, rfl⟩ := Prod.mk.inj (Option.some.inj transition)
      refine ⟨by simp [origin], fun _ => ⟨?_, ?_⟩, fun _ => ?_, coins, rfl⟩
      · cases row.targetSlot <;> rfl
      · cases row.targetAddress <;> cases parsedAddress r.toAddr <;> rfl
      · dsimp only
        cases row.state <;> simp
  · next origin =>
      obtain ⟨rfl, rfl⟩ := Prod.mk.inj (Option.some.inj transition)
      refine ⟨by simp [origin], by simp [origin], fun _ => ?_, coins, rfl⟩
      dsimp only
      cases row.state <;> simp
  · next origin =>
      obtain ⟨rfl, rfl⟩ := Prod.mk.inj (Option.some.inj transition)
      refine ⟨by simp [origin], by simp [origin], fun _ => ?_, coins, rfl⟩
      dsimp only
      cases row.state <;> simp
  · next origin =>
      obtain ⟨rfl, rfl⟩ := Prod.mk.inj (Option.some.inj transition)
      exact ⟨by simp [origin], by simp [origin], by simp [origin], coins, rfl⟩
  · cases transition

/-- Another transfer of the slot takes nothing back. -/
theorem CallSettled.reconciled {slot : Slot} {r : StoredTransfer} {row left : StoredDeferredCall}
    (settled : CallSettled slot r row) {nowMs : Int} {other : StoredTransfer}
    (said : reconciledDeferred slot nowMs other row = some left) : CallSettled slot r left := by
  unfold reconciledDeferred at said
  obtain ⟨⟨existing, newState⟩, transition, rfl⟩ := Option.map_eq_some_iff.mp said
  have kept : existing.state = row.state ∧ existing.coinsNmas = row.coinsNmas ∧
      (row.registeredSlot.isSome = true → existing.registeredSlot.isSome = true) ∧
      (∀ a, row.sender.or a = row.sender → existing.sender.or a = existing.sender) ∧
      (row.targetSlot.isSome = true → existing.targetSlot.isSome = true) ∧
      (∀ a, row.targetAddress.or a = row.targetAddress →
        existing.targetAddress.or a = existing.targetAddress) := by
    have grown : ∀ (known own a : Option Address), known.or a = known →
        (known.or own).or a = known.or own := by
      intro known own a nothing
      cases known with
      | some x => rfl
      | none =>
          rw [Option.none_or] at nothing
          rw [nothing, Option.or_none]
    unfold deferredTransition at transition
    split at transition <;> cases transition
    · exact ⟨rfl, rfl, fun _ => by simp, fun a => grown _ _ a, id, fun _ => id⟩
    · exact ⟨rfl, rfl, id, fun _ => id, fun _ => by simp, fun a => grown _ _ a⟩
    · exact ⟨rfl, rfl, id, fun _ => id, id, fun _ => id⟩
    · exact ⟨rfl, rfl, id, fun _ => id, id, fun _ => id⟩
    · exact ⟨rfl, rfl, id, fun _ => id, id, fun _ => id⟩
  obtain ⟨state, coins, registered, sender, targetSlot, target⟩ := kept
  refine ⟨fun origin => ?_, fun origin => ?_, fun origin => ?_, fun nmas valued => ?_, rfl⟩
  · exact ⟨registered (settled.registered origin).1, sender _ (settled.registered origin).2⟩
  · exact ⟨targetSlot (settled.target origin).1, target _ (settled.target origin).2⟩
  · have closed := settled.state origin
    rw [← state] at closed
    dsimp only
    cases known : existing.state <;> simp_all
  · have enough := settled.coins nmas valued
    rw [← coins] at enough
    dsimp only
    split
    · split
      · next more grows =>
          rw [UInt64.not_lt] at enough ⊢
          exact UInt64.le_trans enough (UInt64.le_of_lt grows)
      · exact enough
    · exact enough

theorem CallSettled.idle {slot : Slot} {r : StoredTransfer} {row left : StoredDeferredCall}
    (settled : CallSettled slot r row) {nowMs : Int}
    (said : reconciledDeferred slot nowMs r row = some left) :
    left = { row with lastUpdatedTsMs := nowMs } := by
  unfold reconciledDeferred at said
  obtain ⟨⟨existing, newState⟩, transition, rfl⟩ := Option.map_eq_some_iff.mp said
  have same : existing = row ∧ (row.state = .registered → newState = .registered) := by
    have known : ∀ o : Option Slot, o.isSome = true → o.or (some slot) = o := by
      intro o some_
      cases o with
      | none => cases some_
      | some s => rfl
    unfold deferredTransition at transition
    split at transition
    · next origin =>
        obtain ⟨rfl, rfl⟩ := Prod.mk.inj (Option.some.inj transition)
        obtain ⟨registered, sender⟩ := settled.registered origin
        exact ⟨by rw [known _ registered, sender], fun _ => rfl⟩
    · next origin =>
        obtain ⟨rfl, rfl⟩ := Prod.mk.inj (Option.some.inj transition)
        obtain ⟨targetSlot, target⟩ := settled.target origin
        exact ⟨by rw [known _ targetSlot, target],
          fun open_ => (settled.state (.inl origin) open_).elim⟩
    · next origin =>
        obtain ⟨rfl, rfl⟩ := Prod.mk.inj (Option.some.inj transition)
        exact ⟨rfl, fun open_ => (settled.state (.inr (.inl origin)) open_).elim⟩
    · next origin =>
        obtain ⟨rfl, rfl⟩ := Prod.mk.inj (Option.some.inj transition)
        exact ⟨rfl, fun open_ => (settled.state (.inr (.inr origin)) open_).elim⟩
    · obtain ⟨rfl, rfl⟩ := Prod.mk.inj (Option.some.inj transition)
      exact ⟨rfl, id⟩
    · cases transition
  obtain ⟨rfl, stays⟩ := same
  have coins : (match r.value with
      | .coins nmas => if existing.coinsNmas < nmas then nmas else existing.coinsNmas
      | _ => existing.coinsNmas) = existing.coinsNmas := by
    split
    · next nmas valued => rw [if_neg (settled.coins nmas valued)]
    · rfl
  have state : (match existing.state with
      | .registered => newState
      | terminal => terminal) = existing.state := by
    cases known : existing.state <;> simp_all
  dsimp only
  rw [coins, state, ← settled.lastSlot]

theorem CallSettled.of_timeless {slot : Slot} {r : StoredTransfer} {row row' : StoredDeferredCall}
    (settled : CallSettled slot r row') (same : timelessDeferredCall row = timelessDeferredCall row') :
    CallSettled slot r row := by
  have registeredSlot : row.registeredSlot = row'.registeredSlot :=
    (congrArg StoredDeferredCall.registeredSlot same :)
  have sender : row.sender = row'.sender := (congrArg StoredDeferredCall.sender same :)
  have targetSlot : row.targetSlot = row'.targetSlot := (congrArg StoredDeferredCall.targetSlot same :)
  have target : row.targetAddress = row'.targetAddress :=
    (congrArg StoredDeferredCall.targetAddress same :)
  have state : row.state = row'.state := (congrArg StoredDeferredCall.state same :)
  have coins : row.coinsNmas = row'.coinsNmas := (congrArg StoredDeferredCall.coinsNmas same :)
  have lastSlot : row.lastSlot = row'.lastSlot := (congrArg StoredDeferredCall.lastSlot same :)
  exact ⟨by rw [registeredSlot, sender]; exact settled.registered,
    by rw [targetSlot, target]; exact settled.target, state ▸ settled.state, coins ▸ settled.coins,
    lastSlot.trans settled.lastSlot⟩

end DeferredRow

section DeferredCalls

omit [Bs58Check] in
/-- A call that is written is read back, but for its first sighting. -/
theorem exists_written_deferredCall (db : Db) (call : StoredDeferredCall) :
    ∃ row, timelessDeferredCall row = timelessDeferredCall call ∧ ∀ id,
      (db.writeDeferredCall call).readDeferredCall id =
        if call.id = id then some row else db.readDeferredCall id := by
  refine ⟨_, ?_, fun id => Db.readDeferredCall_writeDeferredCall db call id⟩
  split
  · split <;> rfl
  · rfl

/-- Whether a transfer says something about its call depends on its origin alone. -/
def aboutCall (r : StoredTransfer) : Bool :=
  match r.origin with
  | .deferredCallRegister | .deferredCallCoins | .deferredCallFail | .deferredCallCancel
  | .deferredCallStorageRefund => true
  | _ => false

def callKey (r : StoredTransfer) : Option String := if aboutCall r then r.deferredCallId else none

theorem reconciledDeferred_eq_none {slot : Slot} {nowMs : Int} {r : StoredTransfer}
    {row : StoredDeferredCall} : reconciledDeferred slot nowMs r row = none ↔ aboutCall r = false := by
  unfold reconciledDeferred
  rw [Option.map_eq_none_iff]
  unfold deferredTransition aboutCall
  split <;> simp_all

theorem id_reconciledDeferred {slot : Slot} {nowMs : Int} {r : StoredTransfer}
    {row left : StoredDeferredCall} (said : reconciledDeferred slot nowMs r row = some left) :
    left.id = row.id := by
  unfold reconciledDeferred at said
  obtain ⟨⟨existing, newState⟩, transition, rfl⟩ := Option.map_eq_some_iff.mp said
  unfold deferredTransition at transition
  split at transition <;> cases transition <;> rfl

theorem deferredCalls_refile (slot : Slot) (firstMs againMs : Int) :
    Refiles Db.readDeferredCall timelessDeferredCall callKey
      (fun r db => reconcileDeferredRow slot firstMs db r)
      (fun r db => reconcileDeferredRow slot againMs db r) (CallSettled slot) where
  mute r db mute := by
    have silent : ∀ nowMs, reconcileDeferredRow slot nowMs db r = db := by
      intro nowMs
      rcases reconcileDeferredRow_cases slot nowMs db r with ⟨-, here⟩ | ⟨id, row, named, said, -⟩
      · exact here
      · have about : aboutCall r = true := by
          by_contra silent
          rw [reconciledDeferred_eq_none.mpr (by simpa using silent)] at said
          cases said
        simp [callKey, about, named] at mute
    exact ⟨silent firstMs, silent againMs⟩
  writes r db id named := by
    unfold callKey at named
    split at named
    · next about =>
        rcases reconcileDeferredRow_cases slot firstMs db r with ⟨none_, -⟩ | ⟨id', row, here, said, left⟩
        · rw [reconciledDeferred_eq_none.mp (none_ id named)] at about
          cases about
        · obtain rfl := Option.some.inj (named.symm.trans here)
          generalize existing : (db.readDeferredCall id).getD (mintedDeferredCall id slot firstMs) = old
            at said
          have own : old.id = id := by
            subst existing
            cases found : db.readDeferredCall id with
            | none => rfl
            | some row => exact Db.id_of_readDeferredCall found
          obtain ⟨kept, same, reads⟩ := exists_written_deferredCall db row
          refine ⟨kept, (callSettled_reconciled slot firstMs r said).of_timeless same, ?_, ?_⟩
          · intro other before found settled
            rw [found, Option.getD_some] at existing
            subst existing
            exact (settled.reconciled said).of_timeless same
          · intro k
            rw [left, reads k, (id_reconciledDeferred said).trans own]
    · cases named
  idle r db id old named found settled := by
    unfold callKey at named
    split at named
    · next about =>
        rcases reconcileDeferredRow_cases slot againMs db r with ⟨none_, -⟩ | ⟨id', row, here, said, left⟩
        · rw [reconciledDeferred_eq_none.mp (none_ id named)] at about
          cases about
        · obtain rfl := Option.some.inj (named.symm.trans here)
          rw [found, Option.getD_some] at said
          obtain ⟨kept, same, reads⟩ := exists_written_deferredCall db row
          refine ⟨kept, same.trans (by rw [settled.idle said]; rfl), fun k => ?_⟩
          rw [left, reads k, (id_reconciledDeferred said).trans (Db.id_of_readDeferredCall found)]
    · cases named
  blind _ _ _ same settled := settled.of_timeless same

/-- **Reconciling the calls with the same transfers again changes clocks only.** -/
theorem deferredCalls_again (slot : Slot) (rows : List StoredTransfer) (firstMs againMs : Int)
    (db : Db) : SameRows timelessDeferredCall
      (reconcileDeferredFromTransfers (reconcileDeferredFromTransfers db slot rows firstMs) slot rows
        againMs).deferredCalls (reconcileDeferredFromTransfers db slot rows firstMs).deferredCalls :=
  sameRows_of_keys fun v => (deferredCalls_refile slot firstMs againMs).read_again rows db v.id

end DeferredCalls

/-! ## The rows of a shipped body -/

section Operations

/-- The row has what a shipped row could bring to it. -/
structure OpSettled (op row : StoredOperation) : Prop where
  final : op.finalExecStatus.isSome = true → row.finalExecStatus.isSome = true
  inclusions : row.inclusions = [] → op.inclusions = []

section Merging

omit [Bs58Check]

theorem OpSettled.idle {op row : StoredOperation} (settled : OpSettled op row) :
    mergeOperation row op = row := by
  have final : row.finalExecStatus.or op.finalExecStatus = row.finalExecStatus := by
    cases known : row.finalExecStatus with
    | some st => rfl
    | none =>
        rw [Option.none_or]
        by_contra some_
        simpa [known] using settled.final (Option.isSome_iff_ne_none.mpr some_)
  have mirrored : (row.finalExecStatus.isNone && op.finalExecStatus.isSome) = false := by
    cases shipped : op.finalExecStatus.isSome with
    | false => exact Bool.and_false _
    | true => rw [← Option.not_isSome, settled.final shipped]; rfl
  have inclusions : (if row.inclusions.isEmpty then op.inclusions else row.inclusions) =
      row.inclusions := by
    split
    · next none_ => rw [settled.inclusions (List.isEmpty_iff.mp none_), List.isEmpty_iff.mp none_]
    · rfl
  rw [mergeOperation_eq, final, mirrored, inclusions]
  rfl

theorem opSettled_self (op : StoredOperation) : OpSettled op op := ⟨id, id⟩

theorem opSettled_merge (row op : StoredOperation) : OpSettled op (mergeOperation row op) := by
  rw [mergeOperation_eq]
  refine ⟨fun some_ => ?_, fun none_ => ?_⟩
  · dsimp only
    rw [Option.isSome_or, some_, Bool.or_true]
  · dsimp only at none_
    split at none_
    · exact none_
    · next some_ => exact absurd (List.isEmpty_iff.mpr none_) some_

theorem OpSettled.merge {op row : StoredOperation} (settled : OpSettled op row)
    (other : StoredOperation) : OpSettled op (mergeOperation row other) := by
  rw [mergeOperation_eq]
  refine ⟨fun some_ => ?_, fun none_ => ?_⟩
  · dsimp only
    rw [Option.isSome_or, settled.final some_, Bool.true_or]
  · dsimp only at none_
    split at none_
    · next empty => exact settled.inclusions (List.isEmpty_iff.mp empty)
    · next some_ => exact absurd (List.isEmpty_iff.mpr none_) some_

end Merging

/-- The operation a shipped row is about. -/
def shippedOp (pb : StoredOperationPb) : Option OperationId :=
  (operationFromPeerPb pb).toOption.map (·.id)

section Decoded

variable {pb : StoredOperationPb} {op : StoredOperation} (decoded : operationFromPeerPb pb = .ok op)
  {db : Db}

include decoded

omit [Bs58Check] in
theorem applyOperation_new (absent : db.readOp op.id = none) : applyOperation db pb = db.writeOp op := by
  rw [applyOperation, decoded]
  dsimp only
  rw [absent]

omit [Bs58Check] in
theorem applyOperation_held {row : StoredOperation} (found : db.readOp op.id = some row) :
    applyOperation db pb =
      if mergeOperation row op ≠ row then db.writeOp (mergeOperation row op) else db := by
  rw [applyOperation, decoded]
  dsimp only
  rw [found]

end Decoded

omit [Bs58Check] in
theorem ops_refile : Refiles Db.readOp id shippedOp (fun pb db => applyOperation db pb)
    (fun pb db => applyOperation db pb)
    fun pb row => ∀ op, operationFromPeerPb pb = .ok op → OpSettled op row where
  mute pb db mute := by
    cases decoded : operationFromPeerPb pb with
    | error e =>
        unfold applyOperation
        rw [decoded]
        exact ⟨rfl, rfl⟩
    | ok op => simp [shippedOp, decoded, Except.toOption] at mute
  writes pb db k named := by
    cases decoded : operationFromPeerPb pb with
    | error e => simp [shippedOp, decoded, Except.toOption] at named
    | ok op =>
        obtain rfl : op.id = k := by simpa [shippedOp, decoded, Except.toOption] using named
        have only : ∀ {P : StoredOperation → Prop}, P op →
            ∀ op', Except.ok (ε := String) op = .ok op' → P op' := by
          intro P here op' same
          exact Except.ok.inj same ▸ here
        cases found : db.readOp op.id with
        | none =>
            refine ⟨op, only (opSettled_self op), fun _ _ here => (by cases here), fun k' => ?_⟩
            rw [applyOperation_new decoded found, Db.readOp_writeOp]
        | some row =>
            refine ⟨mergeOperation row op, only (opSettled_merge row op), ?_, fun k' => ?_⟩
            · intro other old here settled op' decoded'
              obtain rfl := Option.some.inj here
              exact (settled op' decoded').merge op
            · have own : (mergeOperation row op).id = op.id := by
                rw [mergeOperation_eq]
                exact (Db.id_of_readOp found : row.id = op.id)
              rw [applyOperation_held decoded found]
              by_cases same : mergeOperation row op = row
              · rw [if_neg (not_not.mpr same), same]
                split
                · next here => rw [← here, found]
                · rfl
              · rw [if_pos same, Db.readOp_writeOp, own]
  idle pb db k old named found settled := by
    cases decoded : operationFromPeerPb pb with
    | error e => simp [shippedOp, decoded, Except.toOption] at named
    | ok op =>
        obtain rfl : op.id = k := by simpa [shippedOp, decoded, Except.toOption] using named
        refine ⟨old, rfl, fun k' => ?_⟩
        rw [applyOperation_held decoded found, if_neg (not_not.mpr (settled op decoded).idle)]
        split
        · next here => rw [← here, found]
        · rfl
  blind _ _ _ same settled := by
    obtain rfl : _ = _ := same
    exact settled

omit [Bs58Check] in
/-- **Merging the operations of a shipped body again changes nothing.** -/
theorem readOp_again (rows : List StoredOperationPb) (db : Db) (op : OperationId) :
    (rows.foldl applyOperation (rows.foldl applyOperation db)).readOp op =
      (rows.foldl applyOperation db).readOp op := by
  have same := ops_refile.read_again rows db op
  rwa [Option.map_id_fun, id_eq, id_eq] at same

end Operations

section Endorsements

omit [Bs58Check] in
/-- The first row of an endorsement stays. -/
theorem readEndorsement_write (db : Db) (e : StoredEndorsement) (k : EndorsementId) :
    (db.writeEndorsement e).readEndorsement k =
      if e.id = k then some ((db.readEndorsement k).getD e) else db.readEndorsement k := by
  unfold Db.writeEndorsement
  by_cases known : (db.readEndorsement e.id).isSome = true
  · rw [if_pos known]
    split
    · next here =>
        rw [here] at known
        obtain ⟨row, found⟩ := Option.isSome_iff_exists.mp known
        rw [found, Option.getD_some]
    · rfl
  · rw [if_neg known]
    show (db.endorsements.put e).get k.bytes = _
    rw [Table.get_put]
    simp only [Row.key, Row.stored, id_eq, ← FamilyId.ext_iff]
    split
    · next here =>
        rw [here, Option.not_isSome_iff_eq_none] at known
        rw [known, Option.getD_none]
    · rfl

/-- The endorsement a shipped row is about. -/
def shippedEndorsement (pb : StoredEndorsementPb) : Option EndorsementId :=
  (endorsementFromPb pb).toOption.map (·.id)

omit [Bs58Check] in
theorem endorsements_refile : Refiles Db.readEndorsement id shippedEndorsement
    (fun pb db => applyEndorsement db pb) (fun pb db => applyEndorsement db pb) fun _ _ => True where
  mute pb db mute := by
    cases decoded : endorsementFromPb pb with
    | error e =>
        unfold applyEndorsement
        rw [decoded]
        exact ⟨rfl, rfl⟩
    | ok e => simp [shippedEndorsement, decoded, Except.toOption] at mute
  writes pb db k named := by
    cases decoded : endorsementFromPb pb with
    | error e => simp [shippedEndorsement, decoded, Except.toOption] at named
    | ok e =>
        obtain rfl : e.id = k := by simpa [shippedEndorsement, decoded, Except.toOption] using named
        refine ⟨(db.readEndorsement e.id).getD e, trivial, fun _ _ _ _ => trivial, fun k' => ?_⟩
        unfold applyEndorsement
        rw [decoded]
        refine (readEndorsement_write db e k').trans ?_
        split
        · next here => rw [here]
        · rfl
  idle pb db k old named found _ := by
    cases decoded : endorsementFromPb pb with
    | error e => simp [shippedEndorsement, decoded, Except.toOption] at named
    | ok e =>
        obtain rfl : e.id = k := by simpa [shippedEndorsement, decoded, Except.toOption] using named
        refine ⟨old, rfl, fun k' => ?_⟩
        unfold applyEndorsement
        rw [decoded]
        refine (readEndorsement_write db e k').trans ?_
        split
        · next here => rw [← here, found, Option.getD_some]
        · rfl
  blind _ _ _ _ settled := settled

omit [Bs58Check] in
/-- **Storing the endorsements of a shipped body again changes nothing.** -/
theorem readEndorsement_again (rows : List StoredEndorsementPb) (db : Db) (e : EndorsementId) :
    (rows.foldl applyEndorsement (rows.foldl applyEndorsement db)).readEndorsement e =
      (rows.foldl applyEndorsement db).readEndorsement e := by
  have same := endorsements_refile.read_again rows db e
  rwa [Option.map_id_fun, id_eq, id_eq] at same

end Endorsements

section Denunciations

variable [DenunciationDigest]

/-- A denunciation that comes with a block leaves a row with an including block, the first one's. -/
theorem exists_written_denunciation (db : Db) (b : BlockId) (nowMs : Int) (d : StoredDenunciation) :
    ∃ row : StoredDenunciationEntry, row.includedBlockId.isSome = true ∧
      (∀ old, db.readDenunciation (denunciationHash d) = some old → old.includedBlockId.isSome = true →
        row = old) ∧
      ∀ k, (db.writeDenunciation (denunciationEntry b nowMs d)).readDenunciation k =
        if denunciationHash d = k then some row else db.readDenunciation k := by
  have keyed : ∀ (t : Table StoredDenunciationEntry) (row : StoredDenunciationEntry) (k : Bytes),
      (t.put row).get k = if row.hash = k then some row else t.get k := fun t row k => Table.get_put ..
  unfold Db.writeDenunciation
  cases found : db.readDenunciation (denunciationEntry b nowMs d).hash with
  | none =>
      refine ⟨denunciationEntry b nowMs d, rfl, fun old here => ?_, fun k => keyed _ _ k⟩
      cases found.symm.trans here
  | some prev =>
      have filed : prev.hash = denunciationHash d := Table.key_of_get found
      dsimp only
      split
      · next blank =>
          refine ⟨{ prev with
              includedBlockId := (denunciationEntry b nowMs d).includedBlockId
              includedSlot := (denunciationEntry b nowMs d).includedSlot }, rfl,
            fun old here some_ => ?_, fun k => (keyed _ _ k).trans (by rw [filed]; rfl)⟩
          obtain rfl := Option.some.inj (found.symm.trans here)
          rw [Bool.and_eq_true, Option.isNone_iff_eq_none] at blank
          simp [blank.1] at some_
      · next kept =>
          refine ⟨prev, ?_, fun old here _ => Option.some.inj (found.symm.trans here), fun k => ?_⟩
          · rw [show (denunciationEntry b nowMs d).includedBlockId.isSome = true from rfl, Bool.and_true,
              Option.isNone_iff_eq_none] at kept
            exact Option.isSome_iff_ne_none.mpr kept
          · split
            · next here =>
                rw [← here]
                exact found
            · rfl

theorem denunciations_refile (b : BlockId) (firstMs againMs : Int) :
    Refiles Db.readDenunciation id (fun d => some (denunciationHash d))
      (fun d db => db.writeDenunciation (denunciationEntry b firstMs d))
      (fun d db => db.writeDenunciation (denunciationEntry b againMs d))
      fun _ row => row.includedBlockId.isSome = true where
  mute _ _ mute := by cases mute
  writes d db k named := by
    obtain rfl := Option.some.inj named
    obtain ⟨row, some_, -, reads⟩ := exists_written_denunciation db b firstMs d
    exact ⟨row, some_, fun _ _ _ _ => some_, reads⟩
  idle d db k old named found settled := by
    obtain rfl := Option.some.inj named
    obtain ⟨row, -, kept, reads⟩ := exists_written_denunciation db b againMs d
    exact ⟨row, congrArg id (kept old found settled), reads⟩
  blind _ _ _ same settled := by
    obtain rfl : _ = _ := same
    exact settled

/-- **Recording the denunciations of a body again changes nothing.** -/
theorem readDenunciation_again (b : BlockId) (ds : List StoredDenunciation) (firstMs againMs : Int)
    (db : Db) (k : Bytes) :
    (ds.foldl (fun db d => db.writeDenunciation (denunciationEntry b againMs d))
        (ds.foldl (fun db d => db.writeDenunciation (denunciationEntry b firstMs d)) db)).readDenunciation k =
      (ds.foldl (fun db d => db.writeDenunciation (denunciationEntry b firstMs d)) db).readDenunciation
        k := by
  have same := (denunciations_refile b firstMs againMs).read_again ds db k
  rwa [Option.map_id_fun, id_eq, id_eq] at same

end Denunciations

/-! ## Statuses of a CANDIDATE frame -/

section Statuses

/-- What an entry says about an operation. -/
def statusFor (id : OperationId) (entry : ExecutedOpsChangeEntry) : Option ExecStatus :=
  if (OperationId.parse entry.operationId).toOption = some id then execStatusOf (entry.status.getD 0)
  else none

def withCandidate (status : Option ExecStatus) (op : StoredOperation) : StoredOperation :=
  { op with candidateExecStatus := status.or op.candidateExecStatus }

omit [Bs58Check] in
theorem withCandidate_withCandidate (first second : Option ExecStatus) (op : StoredOperation) :
    withCandidate second (withCandidate first op) = withCandidate (second.or first) op := by
  cases second <;> rfl

omit [Bs58Check] in
@[simp] theorem withCandidate_none : withCandidate none = id := rfl

theorem readOp_candidateEntry (db : Db) (entry : ExecutedOpsChangeEntry) (id : OperationId) :
    (applyExecutedOp .candidate db entry).readOp id =
      (db.readOp id).map (withCandidate (statusFor id entry)) := by
  unfold applyExecutedOp statusFor
  cases (OperationId.parse entry.operationId).toOption with
  | none => simp
  | some named =>
      dsimp only
      cases execStatusOf (entry.status.getD 0) with
      | none => simp
      | some status =>
          cases found : db.readOp named with
          | none =>
              by_cases here : named = id
              · subst here
                simp [found]
              · simp [here]
          | some op =>
              have own : op.id = named := Db.id_of_readOp found
              have written : (db.writeOp { op with candidateExecStatus := some status }).readOp id =
                  if named = id then some { op with candidateExecStatus := some status }
                  else db.readOp id := by
                rw [Db.readOp_writeOp, own]
              dsimp only
              by_cases here : named = id
              · subst here
                rw [if_pos rfl, found, Option.map_some]
                split
                · rw [written, if_pos rfl]
                  rfl
                · next same => rw [found, withCandidate, Option.some_or, ← not_not.mp same]
              · rw [if_neg (fun same => here (Option.some.inj same) : ¬ some named = some id),
                  withCandidate_none, Option.map_id_fun, id_eq]
                split
                · rw [written, if_neg here]
                · rfl

/-- What the last entry about an operation says. -/
def lastStatus (id : OperationId) (entries : List ExecutedOpsChangeEntry) : Option ExecStatus :=
  entries.foldl (fun status entry => (statusFor id entry).or status) none

theorem readOp_candidateEntries (entries : List ExecutedOpsChangeEntry) (db : Db) (id : OperationId) :
    (entries.foldl (applyExecutedOp .candidate) db).readOp id =
      (db.readOp id).map (withCandidate (lastStatus id entries)) := by
  have from_ : ∀ (entries : List ExecutedOpsChangeEntry) (status : Option ExecStatus) (db db' : Db),
      db'.readOp id = (db.readOp id).map (withCandidate status) →
      (entries.foldl (applyExecutedOp .candidate) db').readOp id = (db.readOp id).map (withCandidate
        (entries.foldl (fun status entry => (statusFor id entry).or status) status)) := by
    intro entries
    induction entries with
    | nil => exact fun status db db' start => start
    | cons entry entries ih =>
        intro status db db' start
        refine ih _ db _ ?_
        rw [readOp_candidateEntry, start, Option.map_map]
        congr 1
        funext op
        exact withCandidate_withCandidate _ _ op
  refine from_ entries none db db ?_
  rw [withCandidate_none, Option.map_id_fun, id_eq]

/-- **Setting the CANDIDATE statuses of a frame again changes nothing.** -/
theorem readOp_candidate_again (exec : ExecutionOutput) (db : Db) (id : OperationId) :
    (applyExecutedOpsChanges .candidate (applyExecutedOpsChanges .candidate db exec) exec).readOp id =
      (applyExecutedOpsChanges .candidate db exec).readOp id := by
  unfold applyExecutedOpsChanges
  cases exec.stateChanges with
  | none => rfl
  | some sc =>
      dsimp only
      rw [readOp_candidateEntries, readOp_candidateEntries, Option.map_map]
      congr 1
      funext op
      refine (withCandidate_withCandidate _ _ op).trans ?_
      rw [Option.or_self]

end Statuses

end MassaIndexer.Writer.Rewrites
