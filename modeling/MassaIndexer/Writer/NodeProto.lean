/-
# Writer.NodeProto -- the node messages the writer reads

The fields of the node's protobuf messages that the handlers look at. A message field is optional, a
oneof has a case for each variant and is itself optional, an enum is the integer on the wire. Where
a handler archives the re-encoded message, its bytes are a field of their own (`encoded`).
-/
import MassaIndexer.Theory.KeyedTable

namespace MassaIndexer.Writer.NodeProto

open MassaIndexer.Theory.KeyedTable (Bytes)

set_option autoImplicit false

structure NodeSlot where
  period : UInt64 := 0
  thread : UInt32 := 0

structure NativeAmount where
  mantissa : UInt64 := 0
  scale : UInt32 := 0

/-- `SetOrKeep*`: one wrapper message for each payload type. -/
inductive SetOrKeep (α : Type) where
  | unset
  | set (v : α)
  | keep

/-- The value a field was set to, if it was. -/
def SetOrKeep.changed {α : Type} : Option (SetOrKeep α) → Option α
  | some (.set v) => some v
  | _ => none

/-! ## Filled blocks -/

structure NodeEndorsementContent where
  slot : Option NodeSlot := none
  index : UInt32 := 0
  endorsedBlock : String := ""

structure SignedEndorsement where
  content : Option NodeEndorsementContent := none
  signature : String := ""
  contentCreatorPubKey : String := ""
  contentCreatorAddress : String := ""
  secureHash : String := ""
  serializedSize : UInt64 := 0

structure NodeBlockHeaderDenunciation where
  publicKey : String := ""
  slot : Option NodeSlot := none
  hash1 : String := ""
  hash2 : String := ""
  signature1 : String := ""
  signature2 : String := ""

structure NodeEndorsementDenunciation where
  publicKey : String := ""
  slot : Option NodeSlot := none
  index : UInt32 := 0
  hash1 : String := ""
  hash2 : String := ""
  signature1 : String := ""
  signature2 : String := ""

structure NodeAddressDenunciation where
  addressDenounced : String := ""
  slot : Option NodeSlot := none
  slashed : Option NativeAmount := none

/-- `Denunciation.entry`. -/
inductive NodeDenunciation where
  | blockHeader (x : NodeBlockHeaderDenunciation)
  | endorsement (x : NodeEndorsementDenunciation)
  | address (x : NodeAddressDenunciation)

structure BlockHeader where
  currentVersion : UInt32 := 0
  announcedVersion : Option UInt32 := none
  slot : Option NodeSlot := none
  parents : List String := []
  operationsHash : String := ""
  endorsements : List SignedEndorsement := []
  denunciations : List (Option NodeDenunciation) := []

structure SignedBlockHeader where
  content : Option BlockHeader := none
  signature : String := ""
  contentCreatorPubKey : String := ""
  contentCreatorAddress : String := ""
  secureHash : String := ""
  serializedSize : UInt64 := 0
  encoded : Bytes := []

structure NodeDatastoreEntry where
  key : Bytes := []
  value : Bytes := []

/-- `OperationType.type`. -/
inductive OperationType where
  | transaction (recipientAddress : String) (amount : Option NativeAmount)
  | rollBuy (rollCount : UInt64)
  | rollSell (rollCount : UInt64)
  | executeSc (data : Bytes) (maxCoins maxGas : UInt64) (datastore : List NodeDatastoreEntry)
  | callSc (targetAddress targetFunction : String) (parameter : Bytes) (maxGas : UInt64)
      (coins : Option NativeAmount)

structure OperationInput where
  fee : Option NativeAmount := none
  expirePeriod : UInt64 := 0
  op : Option (Option OperationType) := none

structure SignedOperation where
  content : Option OperationInput := none
  signature : String := ""
  contentCreatorPubKey : String := ""
  contentCreatorAddress : String := ""
  secureHash : String := ""
  serializedSize : UInt64 := 0
  encoded : Bytes := []

structure FilledOperation where
  operationId : String := ""
  operation : Option SignedOperation := none

structure FilledBlock where
  header : Option SignedBlockHeader := none
  operations : List FilledOperation := []

/-! ## Execution outputs -/

structure ScExecutionEventContext where
  callStack : List String := []
  originOperationId : Option String := none

structure ScExecutionEvent where
  context : Option ScExecutionEventContext := none
  data : Bytes := []

structure ExecutedOpsChangeEntry where
  operationId : String := ""
  /-- The status code of the entry's value message. -/
  status : Option Int := none

structure NodeAsyncTrigger where
  address : String := ""
  datastoreKey : Option Bytes := none

structure AsyncMessage where
  emissionSlot : Option NodeSlot := none
  sender : String := ""
  destination : String := ""
  handler : String := ""
  maxGas : UInt64 := 0
  fee : Option NativeAmount := none
  coins : Option NativeAmount := none
  validityStart : Option NodeSlot := none
  validityEnd : Option NodeSlot := none
  data : Bytes := []
  trigger : Option NodeAsyncTrigger := none
  canBeExecuted : Bool := false

structure AsyncMessageUpdate where
  emissionSlot : Option (SetOrKeep NodeSlot) := none
  sender : Option (SetOrKeep String) := none
  destination : Option (SetOrKeep String) := none
  handler : Option (SetOrKeep String) := none
  maxGas : Option (SetOrKeep UInt64) := none
  fee : Option (SetOrKeep UInt64) := none
  coins : Option (SetOrKeep UInt64) := none
  validityStart : Option (SetOrKeep NodeSlot) := none
  validityEnd : Option (SetOrKeep NodeSlot) := none
  data : Option (SetOrKeep Bytes) := none
  trigger : Option (SetOrKeep NodeAsyncTrigger) := none
  canBeExecuted : Option (SetOrKeep Bool) := none

/-- `AsyncPoolChangeValue.message`. -/
inductive AsyncPoolMessage where
  | createdMessage (msg : AsyncMessage)
  | updatedMessage (upd : AsyncMessageUpdate)

structure AsyncPoolChangeValue where
  changeType : Int := 0
  message : Option AsyncPoolMessage := none

structure AsyncPoolChangeEntry where
  asyncMessageId : String := ""
  value : Option AsyncPoolChangeValue := none

structure StateChanges where
  asyncPoolChanges : List AsyncPoolChangeEntry := []
  executedOpsChanges : List ExecutedOpsChangeEntry := []
  executionTrailHashChange : Option (SetOrKeep String) := none

structure ExecutionOutput where
  slot : Option NodeSlot := none
  blockId : Option String := none
  events : List ScExecutionEvent := []
  stateChanges : Option StateChanges := none

structure SlotExecutionOutput where
  status : Int := 0
  executionOutput : Option ExecutionOutput := none

/-! ## Transfers -/

/-- `TransferValue.value`. -/
inductive NodeTransferValue where
  | rolls (n : UInt64)
  | coins (a : NativeAmount)
  | deferredCredits (a : NativeAmount)

/-- `DenunciationIndex.entry`. -/
inductive DenunciationIndex where
  | blockHeader (slot : Option NodeSlot)
  | endorsement (slot : Option NodeSlot) (index : UInt32)

structure ExecTransferInfo where
  id : String := ""
  fromAddress : Option String := none
  toAddress : Option String := none
  value : Option (Option NodeTransferValue) := none
  origin : Int := 0
  operationId : Option String := none
  asyncMsgId : Option String := none
  deferredCallId : Option String := none
  denunciationIndex : Option (Option DenunciationIndex) := none

structure NewTransfersInfoServerResponse where
  slot : Option NodeSlot := none
  blockId : Option String := none
  timestamp : Int := 0
  transfersInfo : List ExecTransferInfo := []

end MassaIndexer.Writer.NodeProto
