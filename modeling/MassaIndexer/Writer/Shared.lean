/-
# Writer.Shared -- what the live handlers and the peer patches have in common

Both paths of the single writer settle block statuses, mint denunciation rows, stub the parent slot
and turn a slot's transfers into async-message and deferred-call rows through the functions here. A
denunciation row is filed under the SHA-256 of its JSON text; that digest comes from two crates and
is the parameter `DenunciationDigest`.
-/
import MassaIndexer.Store.ColumnFamilies

namespace MassaIndexer.Writer.Shared

open MassaIndexer.Theory.KeyedTable (Bytes)
open MassaIndexer.Data.Ids MassaIndexer.Data.Model
open MassaIndexer.Store.ColumnFamilies

set_option autoImplicit false

/-! ## Block statuses -/

def settleBlock (db : Db) (id : BlockId) (status : BlockStatus) : Db :=
  match db.readBlock id with
  | none => db
  | some b => if b.status ≠ status then db.writeBlock { b with status := status } else db

/-- The final block becomes `final`, every other candidate `discarded`. -/
def applyFinalityToBlocks (db : Db) (finalBlockId : Option BlockId) (candidates : List BlockId) :
    Db :=
  let settled := candidates.foldl
    (fun db bid => settleBlock db bid (if some bid = finalBlockId then .final else .discarded)) db
  match finalBlockId with
  | none => settled
  | some bid => if bid ∈ candidates then settled else settleBlock settled bid .final

/-! ## Parent-gap discovery -/

/-- The slot right before in the same thread gets at least an `unknown` row. -/
def ensureParentStub (db : Db) (slot : Slot) (nowMs : Int) : Db :=
  if slot.period = 0 then db
  else
    let parent : Slot := ⟨slot.period - 1, slot.thread⟩
    if (db.readSlot parent).isSome then db else db.writeSlot (SlotState.fresh parent nowMs)

/-! ## Denunciations -/

/-- SHA-256 of the JSON text of a denunciation. -/
class DenunciationDigest where
  hash : StoredDenunciation → Bytes
  width : ∀ d, (hash d).length = 32

def denunciationHash [DenunciationDigest] (d : StoredDenunciation) : Bytes :=
  DenunciationDigest.hash d

def denunciationSlot : StoredDenunciation → Slot
  | .blockHeader _ slot _ _ _ _ => slot
  | .endorsement _ slot _ _ _ _ _ => slot
  | .address _ slot _ => slot
  | .unknown => ⟨0, 0⟩

def denunciationKindLabel : StoredDenunciation → String
  | .blockHeader .. => "block_header"
  | .endorsement .. => "endorsement"
  | .address .. => "address"
  | .unknown => "unknown"

/-- Only an explicit address denunciation names an address. -/
def denunciationTargetAddress [Bs58Check] : StoredDenunciation → Option Address
  | .address addressDenounced _ _ => (Address.parse addressDenounced).toOption
  | _ => none

/-- The entry of a denunciation found in a block. Its inclusion slot is the denounced one, not the
block's. -/
def denunciationEntry [Bs58Check] [DenunciationDigest] (includedIn : BlockId) (nowMs : Int)
    (d : StoredDenunciation) : StoredDenunciationEntry where
  hash := denunciationHash d
  slot := denunciationSlot d
  kind := denunciationKindLabel d
  denouncedAddr := denunciationTargetAddress d
  denunciation := d
  includedBlockId := some includedIn
  includedSlot := some (denunciationSlot d)
  firstSeenTsMs := nowMs

/-! ## Trail hashes -/

/-- First-final-wins speaks up only when both sides know a hash. -/
def trailsDiffer : Option String → Option String → Bool
  | some existing, some incoming => decide (existing ≠ incoming)
  | _, _ => false

/-! ## Reconciliation from transfers -/

section Reconcile

variable [Bs58Check]

def parsedAddress (text : Option String) : Option Address :=
  text.bind fun s => (Address.parse s).toOption

/-- A row minted for an id a transfer names and no earlier event did. -/
def mintedAsyncMsg (id : String) (slot : Slot) (state : AsyncMsgState) (nowMs : Int) :
    StoredAsyncMsg where
  id := id
  sender := none
  destination := none
  handler := none
  coinsNmas := 0
  maxGas := 0
  feeNmas := 0
  emissionSlot := none
  validityStart := none
  validityEnd := none
  state := state
  lastSlot := some slot
  dataHex := none
  trigger := none
  canBeExecuted := false
  firstSeenTsMs := nowMs
  lastUpdatedTsMs := nowMs

/-- `AsyncMsgCoins` executes a message and `AsyncMsgCancel` cancels it; a row already classified
stays as it is. -/
def reconcileAsyncRow (slot : Slot) (nowMs : Int) (db : Db) (r : StoredTransfer) : Db :=
  match r.asyncMsgId with
  | none => db
  | some id =>
      let newState := match r.origin with
        | .asyncMsgCoins => some AsyncMsgState.executed
        | .asyncMsgCancel => some AsyncMsgState.cancelled
        | _ => none
      match newState with
      | none => db
      | some newState =>
          let existing := (db.readAsyncMsg id).getD (mintedAsyncMsg id slot newState nowMs)
          db.writeAsyncMsg
            { existing with
              state := match existing.state with
                | .pending => newState
                | .consumed => newState
                | settled => settled
              sender := existing.sender.or (parsedAddress r.fromAddr)
              destination := existing.destination.or (parsedAddress r.toAddr)
              coinsNmas := match r.value with
                | .coins nmas => if existing.coinsNmas = 0 then nmas else existing.coinsNmas
                | _ => existing.coinsNmas
              lastSlot := some slot
              lastUpdatedTsMs := nowMs }

def reconcileAsyncFromTransfers (db : Db) (slot : Slot) (rows : List StoredTransfer) (nowMs : Int) :
    Db := rows.foldl (reconcileAsyncRow slot nowMs) db

def mintedDeferredCall (id : String) (slot : Slot) (nowMs : Int) : StoredDeferredCall where
  id := id
  sender := none
  targetAddress := none
  targetFunction := none
  parameterHex := none
  coinsNmas := 0
  maxGas := 0
  targetSlot := none
  registeredSlot := none
  state := .registered
  lastSlot := some slot
  firstSeenTsMs := nowMs
  lastUpdatedTsMs := nowMs

/-- What the origin of a transfer says about the call it names: the row with the origin's own fields
filled, and the state it asks for. -/
def deferredTransition (slot : Slot) (r : StoredTransfer) (existing : StoredDeferredCall) :
    Option (StoredDeferredCall × DeferredCallState) :=
  match r.origin with
  | .deferredCallRegister =>
      some ({ existing with
        registeredSlot := existing.registeredSlot.or (some slot)
        sender := existing.sender.or (parsedAddress r.fromAddr) }, .registered)
  | .deferredCallCoins =>
      some ({ existing with
        targetSlot := existing.targetSlot.or (some slot)
        targetAddress := existing.targetAddress.or (parsedAddress r.toAddr) }, .executed)
  | .deferredCallFail => some (existing, .failed)
  | .deferredCallCancel => some (existing, .cancelled)
  | .deferredCallStorageRefund => some (existing, existing.state)
  | _ => none

/-- Terminal states are sticky. -/
def reconcileDeferredRow (slot : Slot) (nowMs : Int) (db : Db) (r : StoredTransfer) : Db :=
  match r.deferredCallId with
  | none => db
  | some id =>
      let found := (db.readDeferredCall id).getD (mintedDeferredCall id slot nowMs)
      match deferredTransition slot r found with
      | none => db
      | some (existing, newState) =>
          db.writeDeferredCall
            { existing with
              coinsNmas := match r.value with
                | .coins nmas => if existing.coinsNmas < nmas then nmas else existing.coinsNmas
                | _ => existing.coinsNmas
              state := match existing.state with
                | .registered => newState
                | terminal => terminal
              lastSlot := some slot
              lastUpdatedTsMs := nowMs }

def reconcileDeferredFromTransfers (db : Db) (slot : Slot) (rows : List StoredTransfer)
    (nowMs : Int) : Db := rows.foldl (reconcileDeferredRow slot nowMs) db

end Reconcile

end MassaIndexer.Writer.Shared
