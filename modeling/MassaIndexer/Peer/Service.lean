/-
# Peer.Service -- answering a peer's requests for final slots

The sending side of the mesh: what an indexer ships for a slot or for a range of slots, and the completeness
it vouches for. A payload is gathered from the store whether or not the flag of its part is set; the flags
travel beside it as an echo.
-/
import MassaIndexer.Store.Scans
import MassaIndexer.Data.Proto

namespace MassaIndexer.Peer.Service

open MassaIndexer.Data.Ids MassaIndexer.Data.Model MassaIndexer.Data.Proto
open MassaIndexer.Data.Codec MassaIndexer.Data.RowCodec
open MassaIndexer.Data.Keys MassaIndexer.Store.ColumnFamilies MassaIndexer.Store.Scans

set_option autoImplicit false

/-- Rows of one kind a response carries at most. -/
def rowCap : Nat := 10000

variable [Bs58Check]

/-- The final block of a slot, when the part is asked for and its body is held. -/
def servedBlock (db : Db) (state : SlotState) (parts : FinalSlotParts) : Option StoredBlock :=
  if parts.block && !state.isMiss then state.finalBlockId.bind db.readBlock else none

def withBlockPart (db : Db) (state : SlotState) (parts : FinalSlotParts) (resp : FinalSlotResponse) :
    FinalSlotResponse :=
  match servedBlock db state parts with
  | none => resp
  | some block =>
      { resp with
        block := some (blockToPeerPb block)
        endorsements := block.endorsements.map endorsementToPb
        operations := block.operationIds.filterMap fun id => (db.readOp id).map operationToPeerPb }

def withExecPart (db : Db) (state : SlotState) (parts : FinalSlotParts) (resp : FinalSlotResponse) :
    FinalSlotResponse :=
  if parts.execOutput then
    { resp with
      executedOpIds := state.executedOpIds.map (·.text)
      scEventCount := state.scEventCount
      scEvents := ((db.scEventsOfSlot state.slot).take rowCap).map scEventToPeerPb
      asyncMsgs := (db.asyncMsgsByLastSlot state.slot rowCap).map asyncMsgToPeerPb }
  else resp

def withTransfersPart (db : Db) (state : SlotState) (parts : FinalSlotParts)
    (resp : FinalSlotResponse) : FinalSlotResponse :=
  if parts.transfers then
    { resp with
      transfers := (db.transfersForSlot state.slot).map transferToPeerPb
      deferredCalls := (db.deferredCallsByLastSlot state.slot rowCap).map deferredCallToPeerPb }
  else resp

/-- The verdict and the completeness echo of a FINAL row. -/
def finalHeader (state : SlotState) (parts : FinalSlotParts) : FinalSlotResponse where
  period := state.slot.period
  thread := state.slot.thread.toUInt32
  finalKnown := true
  isMiss := state.isMiss
  executionTrailHash := state.executionTrailHash.getD ""
  finalBlockId := (state.finalBlockId.map (·.text)).getD ""
  completenessKnown := true
  hasBlockBody := state.isMiss || state.completeness.blockBodyStored
  hasExecOutput := state.completeness.execOutputFinal
  hasTransfers := state.completeness.transfersStored
  parts := some parts

def buildFinalSlotResponseFromState (db : Db) (state : SlotState) (parts : FinalSlotParts) :
    FinalSlotResponse :=
  if state.status ≠ .final then
    { period := state.slot.period, thread := state.slot.thread.toUInt32 }
  else
    withTransfersPart db state parts
      (withExecPart db state parts (withBlockPart db state parts (finalHeader state parts)))

def buildFinalSlotResponse (db : Db) (slot : Slot) (parts : FinalSlotParts) : FinalSlotResponse :=
  match db.readSlot slot with
  | none => { period := slot.period, thread := slot.thread.toUInt32 }
  | some state => buildFinalSlotResponseFromState db state parts

/-! ## A range of slots -/

omit [Bs58Check]

/-- The range a request names. -/
def requestedRange (r : StreamFinalSlotsRequest) : Except String (Slot × Slot) :=
  match threadFromPb r.fromThread with
  | .error _ => .error "from_thread > 255"
  | .ok fromThread =>
      match threadFromPb r.toThread with
      | .error _ => .error "to_thread > 255"
      | .ok toThread =>
          let oldest : Slot := ⟨r.fromPeriod, fromThread⟩
          let newest : Slot := ⟨r.toPeriod, toThread⟩
          if newest.lt oldest then .error "from > to" else .ok (oldest, newest)

/-- Zero stands for the cap. -/
def streamLimit (streamLimitCap limit : UInt32) : UInt32 :=
  if limit = 0 then streamLimitCap else min limit streamLimitCap

variable [Bs58Check]

/-- The rows of a page that are sent: down to the oldest slot asked for, FINAL ones only. -/
def sendFinal (db : Db) (parts : FinalSlotParts) (oldest : Slot) : List SlotState → List FinalSlotResponse
  | [] => []
  | s :: rest =>
      if s.slot.lt oldest then []
      else if s.status ≠ .final then sendFinal db parts oldest rest
      else buildFinalSlotResponseFromState db s parts :: sendFinal db parts oldest rest

/-- `stream_final_slots`: the cursor is the successor of the newest slot's key. -/
def streamFinalSlots (db : Db) (streamLimitCap : UInt32) (r : StreamFinalSlotsRequest) :
    Except String (List FinalSlotResponse) :=
  (requestedRange r).map fun range =>
    let page := iterSlotsDesc db (some (slotKey range.2 ++ [0])) (streamLimit streamLimitCap r.limit).toNat
    sendFinal db (r.parts.getD {}) range.1 page.items

end MassaIndexer.Peer.Service
