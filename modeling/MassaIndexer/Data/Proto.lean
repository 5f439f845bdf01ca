/-
# Data.Proto -- the `massa.indexer.v1` messages

The row messages of `storage.proto` and the peer response of `peer.proto`. Every field has its
proto3 default, an enum field is the integer on the wire, and a message field is optional; nothing
here says that the bytes of an id have the right length or that an enum value is known, which is for
the codec to find out.
-/
import MassaIndexer.Theory.KeyedTable

namespace MassaIndexer.Data.Proto

open MassaIndexer.Theory.KeyedTable (Bytes)

set_option autoImplicit false

structure SlotPb where
  period : UInt64 := 0
  thread : UInt32 := 0

/-! ## `storage.proto` -/

structure SlotCompletenessPb where
  blockBodyStored : Bool := false
  execOutputFinal : Bool := false
  execOutputCandidate : Bool := false
  transfersStored : Bool := false

structure SlotStatePb where
  slot : Option SlotPb := none
  status : Int := 0
  isMiss : Bool := false
  finalBlockIdKey : Bytes := []
  candidateBlockIdKeys : List Bytes := []
  executionTrailHash : String := ""
  executedOpIdKeys : List Bytes := []
  scEventCount : UInt32 := 0
  completeness : Option SlotCompletenessPb := none
  firstSeenTsMs : Int := 0
  lastUpdatedTsMs : Int := 0

structure StoredEndorsementPb where
  idKey : Bytes := []
  slot : Option SlotPb := none
  index : UInt32 := 0
  endorsedBlockIdKey : Bytes := []
  contentCreatorPubKey : String := ""
  contentCreatorAddressKey : Bytes := []
  signature : String := ""
  serializedSize : UInt64 := 0
  includedBlockIdKey : Bytes := []
  includedSlot : Option SlotPb := none
  firstSeenTsMs : Int := 0

structure DenunciationBlockHeaderPb where
  publicKey : String := ""
  slot : Option SlotPb := none
  hash1 : String := ""
  hash2 : String := ""
  signature1 : String := ""
  signature2 : String := ""

structure DenunciationEndorsementPb where
  publicKey : String := ""
  slot : Option SlotPb := none
  index : UInt32 := 0
  hash1 : String := ""
  hash2 : String := ""
  signature1 : String := ""
  signature2 : String := ""

structure DenunciationAddressPb where
  addressDenounced : String := ""
  slot : Option SlotPb := none
  slashedNmas : UInt64 := 0

/-- The oneof; `unset` is a message whose oneof is empty. -/
inductive StoredDenunciationPb where
  | unset
  | blockHeader (x : DenunciationBlockHeaderPb)
  | endorsement (x : DenunciationEndorsementPb)
  | address (x : DenunciationAddressPb)
  | unknown

structure StoredBlockPb where
  idKey : Bytes := []
  slot : Option SlotPb := none
  creatorKey : Bytes := []
  parentKeys : List Bytes := []
  operationIdKeys : List Bytes := []
  endorsements : List StoredEndorsementPb := []
  endorsementIds : List String := []
  denunciations : List StoredDenunciationPb := []
  currentVersion : UInt32 := 0
  announcedVersion : UInt32 := 0
  hasAnnouncedVersion : Bool := false
  operationsHash : String := ""
  signature : String := ""
  contentCreatorPubKey : String := ""
  serializedSize : UInt64 := 0
  rawSignedHeader : Bytes := []
  status : Int := 0
  firstSeenTsMs : Int := 0

structure DatastoreEntryPb where
  keyHex : String := ""
  valueHex : String := ""

structure OperationDetailsPb where
  amountNmas : UInt64 := 0
  hasAmountNmas : Bool := false
  recipientAddress : String := ""
  hasRecipientAddress : Bool := false
  rollCount : UInt64 := 0
  hasRollCount : Bool := false
  targetAddress : String := ""
  hasTargetAddress : Bool := false
  targetFunction : String := ""
  hasTargetFunction : Bool := false
  parameterHex : String := ""
  hasParameterHex : Bool := false
  parameterLen : UInt64 := 0
  hasParameterLen : Bool := false
  coinsNmas : UInt64 := 0
  hasCoinsNmas : Bool := false
  maxGas : UInt64 := 0
  hasMaxGas : Bool := false
  bytecodeHex : String := ""
  hasBytecodeHex : Bool := false
  bytecodeSize : UInt64 := 0
  hasBytecodeSize : Bool := false
  maxCoinsNmas : UInt64 := 0
  hasMaxCoinsNmas : Bool := false
  datastore : List DatastoreEntryPb := []
  datastoreKeys : UInt32 := 0
  hasDatastoreKeys : Bool := false

structure OperationInclusionPb where
  slot : Option SlotPb := none
  blockIdKey : Bytes := []

structure StoredOperationPb where
  idKey : Bytes := []
  creatorKey : Bytes := []
  targetKey : Bytes := []
  hasTarget : Bool := false
  kind : Int := 0
  expirePeriod : UInt64 := 0
  feeNmas : UInt64 := 0
  thread : UInt32 := 0
  inclusions : List OperationInclusionPb := []
  candidateExecStatus : Int := 0
  hasCandidateExecStatus : Bool := false
  finalExecStatus : Int := 0
  hasFinalExecStatus : Bool := false
  details : Option OperationDetailsPb := none
  signature : String := ""
  contentCreatorPubKey : String := ""
  serializedSize : UInt64 := 0
  rawSignedOp : Bytes := []
  firstSeenTsMs : Int := 0

structure StoredScEventPb where
  slot : Option SlotPb := none
  indexInSlot : UInt32 := 0
  data : String := ""
  emitterAddrKeys : List Bytes := []
  callerAddrKeys : List Bytes := []
  status : Int := 0
  opIdKey : Bytes := []
  hasOpId : Bool := false

inductive TransferValuePb where
  | unset
  | coins (nmas : UInt64)
  | rolls (count : UInt64)
  | deferredCredits (nmas : UInt64)
  | unknown

structure CoinOriginPb where
  kind : Int := 0
  otherCode : UInt32 := 0

structure StoredTransferPb where
  slot : Option SlotPb := none
  indexInSlot : UInt32 := 0
  id : String := ""
  blockId : String := ""
  hasBlockId : Bool := false
  blockTimestampMs : Int := 0
  fromAddr : String := ""
  hasFrom : Bool := false
  toAddr : String := ""
  hasTo : Bool := false
  value : Option TransferValuePb := none
  origin : Option CoinOriginPb := none
  operationId : String := ""
  hasOperationId : Bool := false
  asyncMsgId : String := ""
  hasAsyncMsgId : Bool := false
  deferredCallId : String := ""
  hasDeferredCallId : Bool := false
  denunciationIndex : String := ""
  hasDenunciationIndex : Bool := false
  isFinal : Bool := false
  firstSeenTsMs : Int := 0

structure AsyncTriggerPb where
  address : String := ""
  datastoreKeyHex : String := ""
  hasDatastoreKey : Bool := false

structure StoredAsyncMsgPb where
  id : String := ""
  senderKey : Bytes := []
  hasSender : Bool := false
  destinationKey : Bytes := []
  hasDestination : Bool := false
  handler : String := ""
  hasHandler : Bool := false
  coinsNmas : UInt64 := 0
  maxGas : UInt64 := 0
  feeNmas : UInt64 := 0
  emissionSlot : Option SlotPb := none
  hasEmissionSlot : Bool := false
  validityStart : Option SlotPb := none
  hasValidityStart : Bool := false
  validityEnd : Option SlotPb := none
  hasValidityEnd : Bool := false
  state : Int := 0
  lastSlot : Option SlotPb := none
  hasLastSlot : Bool := false
  dataHex : String := ""
  hasData : Bool := false
  trigger : Option AsyncTriggerPb := none
  hasTrigger : Bool := false
  canBeExecuted : Bool := false
  firstSeenTsMs : Int := 0
  lastUpdatedTsMs : Int := 0

structure StoredDeferredCallPb where
  id : String := ""
  senderKey : Bytes := []
  hasSender : Bool := false
  targetAddressKey : Bytes := []
  hasTargetAddress : Bool := false
  targetFunction : String := ""
  hasTargetFunction : Bool := false
  parameterHex : String := ""
  hasParameterHex : Bool := false
  coinsNmas : UInt64 := 0
  maxGas : UInt64 := 0
  targetSlot : Option SlotPb := none
  hasTargetSlot : Bool := false
  registeredSlot : Option SlotPb := none
  hasRegisteredSlot : Bool := false
  state : Int := 0
  lastSlot : Option SlotPb := none
  hasLastSlot : Bool := false
  firstSeenTsMs : Int := 0
  lastUpdatedTsMs : Int := 0

/-! ## `peer.proto` -/

structure FinalSlotParts where
  block : Bool := false
  execOutput : Bool := false
  transfers : Bool := false

structure FinalSlotRequest where
  period : UInt64 := 0
  thread : UInt32 := 0
  parts : Option FinalSlotParts := none

structure FinalSlotResponse where
  period : UInt64 := 0
  thread : UInt32 := 0
  finalKnown : Bool := false
  isMiss : Bool := false
  executionTrailHash : String := ""
  block : Option StoredBlockPb := none
  operations : List StoredOperationPb := []
  endorsements : List StoredEndorsementPb := []
  scEvents : List StoredScEventPb := []
  executedOpIds : List String := []
  scEventCount : UInt32 := 0
  asyncMsgs : List StoredAsyncMsgPb := []
  transfers : List StoredTransferPb := []
  deferredCalls : List StoredDeferredCallPb := []
  finalBlockId : String := ""
  completenessKnown : Bool := false
  hasBlockBody : Bool := false
  hasExecOutput : Bool := false
  hasTransfers : Bool := false
  parts : Option FinalSlotParts := none

structure StreamFinalSlotsRequest where
  fromPeriod : UInt64 := 0
  fromThread : UInt32 := 0
  toPeriod : UInt64 := 0
  toThread : UInt32 := 0
  parts : Option FinalSlotParts := none
  limit : UInt32 := 0

end MassaIndexer.Data.Proto
