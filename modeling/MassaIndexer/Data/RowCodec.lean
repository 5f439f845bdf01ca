/-
# Data.RowCodec -- operations, events, transfers, async messages and deferred calls

The second half of the codec. Optional fields travel as a value and a flag, so absence survives
(`thenSome_isSome`); a decoded operation must carry known exec codes to keep a status. Each family
comes with its round trip.
-/
import MassaIndexer.Data.Codec

namespace MassaIndexer.Data.RowCodec

open MassaIndexer.Theory.KeyedTable (Bytes)
open MassaIndexer.Data.Ids MassaIndexer.Data.Model MassaIndexer.Data.Proto MassaIndexer.Data.Codec

set_option autoImplicit false

/-! ## Operations -/

def detailsToPb (d : OperationDetails) : OperationDetailsPb where
  amountNmas := d.amountNmas.getD 0
  hasAmountNmas := d.amountNmas.isSome
  recipientAddress := d.recipientAddress.getD ""
  hasRecipientAddress := d.recipientAddress.isSome
  rollCount := d.rollCount.getD 0
  hasRollCount := d.rollCount.isSome
  targetAddress := d.targetAddress.getD ""
  hasTargetAddress := d.targetAddress.isSome
  targetFunction := d.targetFunction.getD ""
  hasTargetFunction := d.targetFunction.isSome
  parameterHex := d.parameterHex.getD ""
  hasParameterHex := d.parameterHex.isSome
  parameterLen := d.parameterLen.getD 0
  hasParameterLen := d.parameterLen.isSome
  coinsNmas := d.coinsNmas.getD 0
  hasCoinsNmas := d.coinsNmas.isSome
  maxGas := d.maxGas.getD 0
  hasMaxGas := d.maxGas.isSome
  bytecodeHex := d.bytecodeHex.getD ""
  hasBytecodeHex := d.bytecodeHex.isSome
  bytecodeSize := d.bytecodeSize.getD 0
  hasBytecodeSize := d.bytecodeSize.isSome
  maxCoinsNmas := d.maxCoinsNmas.getD 0
  hasMaxCoinsNmas := d.maxCoinsNmas.isSome
  datastore := d.datastore.map fun e => { keyHex := e.keyHex, valueHex := e.valueHex }
  datastoreKeys := d.datastoreKeys.getD 0
  hasDatastoreKeys := d.datastoreKeys.isSome

def detailsFromPb (p : OperationDetailsPb) : OperationDetails where
  amountNmas := thenSome p.hasAmountNmas p.amountNmas
  recipientAddress := thenSome p.hasRecipientAddress p.recipientAddress
  rollCount := thenSome p.hasRollCount p.rollCount
  targetAddress := thenSome p.hasTargetAddress p.targetAddress
  targetFunction := thenSome p.hasTargetFunction p.targetFunction
  parameterHex := thenSome p.hasParameterHex p.parameterHex
  parameterLen := thenSome p.hasParameterLen p.parameterLen
  coinsNmas := thenSome p.hasCoinsNmas p.coinsNmas
  maxGas := thenSome p.hasMaxGas p.maxGas
  bytecodeHex := thenSome p.hasBytecodeHex p.bytecodeHex
  bytecodeSize := thenSome p.hasBytecodeSize p.bytecodeSize
  maxCoinsNmas := thenSome p.hasMaxCoinsNmas p.maxCoinsNmas
  datastore := p.datastore.map fun e => { keyHex := e.keyHex, valueHex := e.valueHex }
  datastoreKeys := thenSome p.hasDatastoreKeys p.datastoreKeys

theorem detailsFromPb_toPb (d : OperationDetails) : detailsFromPb (detailsToPb d) = d := by
  simp [detailsFromPb, detailsToPb, Function.comp_def]

def inclusionToPb (i : OperationInclusion) : OperationInclusionPb where
  slot := some (slotToPb i.slot)
  blockIdKey := i.blockId.bytes

def inclusionFromPb (p : OperationInclusionPb) : Except CodecError OperationInclusion := do
  let slot ← slotFromOpt p.slot
  let blockId ← blockIdFromKey p.blockIdKey
  return { slot := slot, blockId := blockId }

theorem inclusionFromPb_toPb (i : OperationInclusion) :
    inclusionFromPb (inclusionToPb i) = .ok i := by
  simp only [inclusionFromPb, inclusionToPb, slotFromOpt_slotToPb, blockIdFromKey_bytes]
  rfl

/-- `if has { exec_status_from_pb(code) } else { None }`. -/
def execStatusIf (has : Bool) (code : Int) : Option ExecStatus :=
  if has then execStatusFromPb code else none

theorem execStatusIf_isSome (s : Option ExecStatus) :
    execStatusIf s.isSome ((s.map execStatusToPb).getD 0) = s := by
  rcases s with _ | _ | _ <;> rfl

def operationToPeerPb (o : StoredOperation) : StoredOperationPb where
  idKey := o.id.bytes
  creatorKey := o.creator.bytes
  targetKey := (o.target.map Address.bytes).getD []
  hasTarget := o.target.isSome
  kind := opKindToPb o.kind
  expirePeriod := o.expirePeriod
  feeNmas := o.feeNmas
  thread := o.thread.toUInt32
  inclusions := o.inclusions.map inclusionToPb
  candidateExecStatus := (o.candidateExecStatus.map execStatusToPb).getD 0
  hasCandidateExecStatus := o.candidateExecStatus.isSome
  finalExecStatus := (o.finalExecStatus.map execStatusToPb).getD 0
  hasFinalExecStatus := o.finalExecStatus.isSome
  details := some (detailsToPb o.details)
  signature := o.signature
  contentCreatorPubKey := o.contentCreatorPubKey
  serializedSize := o.serializedSize
  rawSignedOp := o.rawSignedOp
  firstSeenTsMs := o.firstSeenTsMs

def operationFromPeerPb (p : StoredOperationPb) : Except CodecError StoredOperation := do
  let id ← opIdFromKey p.idKey
  let creator ← addrFromKey p.creatorKey
  let target ← decodeIf p.hasTarget addrFromKey p.targetKey
  let thread ← threadFromPb p.thread
  let inclusions ← p.inclusions.mapM inclusionFromPb
  return {
    id := id
    creator := creator
    target := target
    kind := opKindFromPb p.kind
    expirePeriod := p.expirePeriod
    feeNmas := p.feeNmas
    thread := thread
    inclusions := inclusions
    candidateExecStatus := execStatusIf p.hasCandidateExecStatus p.candidateExecStatus
    finalExecStatus := execStatusIf p.hasFinalExecStatus p.finalExecStatus
    details := detailsFromPb (p.details.getD {})
    signature := p.signature
    contentCreatorPubKey := p.contentCreatorPubKey
    serializedSize := p.serializedSize
    rawSignedOp := p.rawSignedOp
    firstSeenTsMs := p.firstSeenTsMs }

theorem operationFromPeerPb_toPeerPb (o : StoredOperation) :
    operationFromPeerPb (operationToPeerPb o) = .ok o := by
  simp only [operationFromPeerPb, operationToPeerPb, opIdFromKey_bytes, addrFromKey_bytes,
    decodeIf_isSome addrFromKey_bytes, threadFromPb_toUInt32,
    mapM_encoded_self inclusionFromPb_toPb, opKindFromPb_toPb, execStatusIf_isSome, Option.getD_some,
    detailsFromPb_toPb]
  rfl

/-! ## Smart-contract events -/

def scEventToPeerPb (e : StoredScEvent) : StoredScEventPb where
  slot := some (slotToPb e.slot)
  indexInSlot := e.indexInSlot
  data := e.data
  emitterAddrKeys := e.emitterAddrs.map Address.bytes
  callerAddrKeys := e.callerAddrs.map Address.bytes
  status := slotStatusToPb e.status
  opIdKey := (e.opId.map FamilyId.bytes).getD []
  hasOpId := e.opId.isSome

def scEventFromPeerPb (p : StoredScEventPb) : Except CodecError StoredScEvent := do
  let slot ← slotFromOpt p.slot
  let emitterAddrs ← p.emitterAddrKeys.mapM addrFromKey
  let callerAddrs ← p.callerAddrKeys.mapM addrFromKey
  let opId ← decodeIf p.hasOpId opIdFromKey p.opIdKey
  return {
    slot := slot
    indexInSlot := p.indexInSlot
    data := p.data
    emitterAddrs := emitterAddrs
    callerAddrs := callerAddrs
    status := slotStatusFromPb p.status
    opId := opId }

theorem scEventFromPeerPb_toPeerPb (e : StoredScEvent) :
    scEventFromPeerPb (scEventToPeerPb e) = .ok e := by
  simp only [scEventFromPeerPb, scEventToPeerPb, slotFromOpt_slotToPb, mapM_addrFromKey,
    decodeIf_isSome opIdFromKey_bytes, slotStatusFromPb_toPb]
  rfl

/-! ## Transfers -/

def transferValueToPb : TransferValue → TransferValuePb
  | .coins nmas => .coins nmas
  | .rolls count => .rolls count
  | .deferredCredits nmas => .deferredCredits nmas
  | .unknown => .unknown

def transferValueFromPb : TransferValuePb → TransferValue
  | .coins nmas => .coins nmas
  | .rolls count => .rolls count
  | .deferredCredits nmas => .deferredCredits nmas
  | .unknown => .unknown
  | .unset => .unknown

theorem transferValueFromPb_toPb (v : TransferValue) :
    transferValueFromPb (transferValueToPb v) = v := by cases v <;> rfl

def transferToPeerPb (t : StoredTransfer) : StoredTransferPb where
  slot := some (slotToPb t.slot)
  indexInSlot := t.indexInSlot
  id := t.id
  blockId := t.blockId.getD ""
  hasBlockId := t.blockId.isSome
  blockTimestampMs := t.blockTimestampMs
  fromAddr := t.fromAddr.getD ""
  hasFrom := t.fromAddr.isSome
  toAddr := t.toAddr.getD ""
  hasTo := t.toAddr.isSome
  value := some (transferValueToPb t.value)
  origin := some (coinOriginToPb t.origin)
  operationId := t.operationId.getD ""
  hasOperationId := t.operationId.isSome
  asyncMsgId := t.asyncMsgId.getD ""
  hasAsyncMsgId := t.asyncMsgId.isSome
  deferredCallId := t.deferredCallId.getD ""
  hasDeferredCallId := t.deferredCallId.isSome
  denunciationIndex := t.denunciationIndex.getD ""
  hasDenunciationIndex := t.denunciationIndex.isSome
  isFinal := t.isFinal
  firstSeenTsMs := t.firstSeenTsMs

def transferFromPeerPb (p : StoredTransferPb) : Except CodecError StoredTransfer := do
  let slot ← slotFromOpt p.slot
  return {
    slot := slot
    indexInSlot := p.indexInSlot
    id := p.id
    blockId := thenSome p.hasBlockId p.blockId
    blockTimestampMs := p.blockTimestampMs
    fromAddr := thenSome p.hasFrom p.fromAddr
    toAddr := thenSome p.hasTo p.toAddr
    value := transferValueFromPb (p.value.getD .unset)
    origin := coinOriginFromPb (p.origin.getD {})
    operationId := thenSome p.hasOperationId p.operationId
    asyncMsgId := thenSome p.hasAsyncMsgId p.asyncMsgId
    deferredCallId := thenSome p.hasDeferredCallId p.deferredCallId
    denunciationIndex := thenSome p.hasDenunciationIndex p.denunciationIndex
    isFinal := p.isFinal
    firstSeenTsMs := p.firstSeenTsMs }

/-- The row as it is read back. -/
def readBackTransfer (t : StoredTransfer) : StoredTransfer :=
  { t with origin := readBackOrigin t.origin }

theorem transferFromPeerPb_toPeerPb (t : StoredTransfer) :
    transferFromPeerPb (transferToPeerPb t) = .ok (readBackTransfer t) := by
  simp only [transferFromPeerPb, transferToPeerPb, slotFromOpt_slotToPb, thenSome_isSome,
    Option.getD_some, transferValueFromPb_toPb, coinOriginFromPb_toPb]
  rfl

@[simp] theorem readBackOrigin_idem (o : CoinOrigin) :
    readBackOrigin (readBackOrigin o) = readBackOrigin o := by
  cases o with
  | other code => by_cases zero : code = 0 <;> simp [readBackOrigin, zero]
  | _ => rfl

/-! ## Async messages and deferred calls -/

def triggerToPb (t : AsyncTrigger) : AsyncTriggerPb where
  address := t.address
  datastoreKeyHex := t.datastoreKeyHex.getD ""
  hasDatastoreKey := t.datastoreKeyHex.isSome

def triggerFromPb (p : AsyncTriggerPb) : AsyncTrigger where
  address := p.address
  datastoreKeyHex := thenSome p.hasDatastoreKey p.datastoreKeyHex

theorem triggerFromPb_toPb (t : AsyncTrigger) : triggerFromPb (triggerToPb t) = t := by
  simp [triggerFromPb, triggerToPb]

def asyncMsgToPeerPb (m : StoredAsyncMsg) : StoredAsyncMsgPb where
  id := m.id
  senderKey := (m.sender.map Address.bytes).getD []
  hasSender := m.sender.isSome
  destinationKey := (m.destination.map Address.bytes).getD []
  hasDestination := m.destination.isSome
  handler := m.handler.getD ""
  hasHandler := m.handler.isSome
  coinsNmas := m.coinsNmas
  maxGas := m.maxGas
  feeNmas := m.feeNmas
  emissionSlot := m.emissionSlot.map slotToPb
  hasEmissionSlot := m.emissionSlot.isSome
  validityStart := m.validityStart.map slotToPb
  hasValidityStart := m.validityStart.isSome
  validityEnd := m.validityEnd.map slotToPb
  hasValidityEnd := m.validityEnd.isSome
  state := asyncStateToPb m.state
  lastSlot := m.lastSlot.map slotToPb
  hasLastSlot := m.lastSlot.isSome
  dataHex := m.dataHex.getD ""
  hasData := m.dataHex.isSome
  trigger := m.trigger.map triggerToPb
  hasTrigger := m.trigger.isSome
  canBeExecuted := m.canBeExecuted
  firstSeenTsMs := m.firstSeenTsMs
  lastUpdatedTsMs := m.lastUpdatedTsMs

def asyncMsgFromPeerPb (p : StoredAsyncMsgPb) : Except CodecError StoredAsyncMsg := do
  let sender ← decodeIf p.hasSender addrFromKey p.senderKey
  let destination ← decodeIf p.hasDestination addrFromKey p.destinationKey
  let emissionSlot ← decodeIf p.hasEmissionSlot slotFromOpt p.emissionSlot
  let validityStart ← decodeIf p.hasValidityStart slotFromOpt p.validityStart
  let validityEnd ← decodeIf p.hasValidityEnd slotFromOpt p.validityEnd
  let lastSlot ← decodeIf p.hasLastSlot slotFromOpt p.lastSlot
  return {
    id := p.id
    sender := sender
    destination := destination
    handler := thenSome p.hasHandler p.handler
    coinsNmas := p.coinsNmas
    maxGas := p.maxGas
    feeNmas := p.feeNmas
    emissionSlot := emissionSlot
    validityStart := validityStart
    validityEnd := validityEnd
    state := asyncStateFromPb p.state
    lastSlot := lastSlot
    dataHex := thenSome p.hasData p.dataHex
    trigger := thenSome p.hasTrigger (triggerFromPb (p.trigger.getD {}))
    canBeExecuted := p.canBeExecuted
    firstSeenTsMs := p.firstSeenTsMs
    lastUpdatedTsMs := p.lastUpdatedTsMs }

/-- An optional slot travels as an optional message and a flag. -/
theorem decodeIf_slot (s : Option Slot) :
    decodeIf s.isSome slotFromOpt (s.map slotToPb) = .ok s := by
  cases s <;> simp [decodeIf, Except.map]

theorem asyncMsgFromPeerPb_toPeerPb (m : StoredAsyncMsg) :
    asyncMsgFromPeerPb (asyncMsgToPeerPb m) = .ok m := by
  have trigger : thenSome m.trigger.isSome
      (triggerFromPb ((m.trigger.map triggerToPb).getD {})) = m.trigger := by
    cases m.trigger <;> simp [thenSome, triggerFromPb_toPb]
  simp only [asyncMsgFromPeerPb, asyncMsgToPeerPb, decodeIf_isSome addrFromKey_bytes, decodeIf_slot,
    thenSome_isSome, asyncStateFromPb_toPb, trigger]
  rfl

def deferredCallToPeerPb (d : StoredDeferredCall) : StoredDeferredCallPb where
  id := d.id
  senderKey := (d.sender.map Address.bytes).getD []
  hasSender := d.sender.isSome
  targetAddressKey := (d.targetAddress.map Address.bytes).getD []
  hasTargetAddress := d.targetAddress.isSome
  targetFunction := d.targetFunction.getD ""
  hasTargetFunction := d.targetFunction.isSome
  parameterHex := d.parameterHex.getD ""
  hasParameterHex := d.parameterHex.isSome
  coinsNmas := d.coinsNmas
  maxGas := d.maxGas
  targetSlot := d.targetSlot.map slotToPb
  hasTargetSlot := d.targetSlot.isSome
  registeredSlot := d.registeredSlot.map slotToPb
  hasRegisteredSlot := d.registeredSlot.isSome
  state := deferredStateToPb d.state
  lastSlot := d.lastSlot.map slotToPb
  hasLastSlot := d.lastSlot.isSome
  firstSeenTsMs := d.firstSeenTsMs
  lastUpdatedTsMs := d.lastUpdatedTsMs

def deferredCallFromPeerPb (p : StoredDeferredCallPb) : Except CodecError StoredDeferredCall := do
  let sender ← decodeIf p.hasSender addrFromKey p.senderKey
  let targetAddress ← decodeIf p.hasTargetAddress addrFromKey p.targetAddressKey
  let targetSlot ← decodeIf p.hasTargetSlot slotFromOpt p.targetSlot
  let registeredSlot ← decodeIf p.hasRegisteredSlot slotFromOpt p.registeredSlot
  let lastSlot ← decodeIf p.hasLastSlot slotFromOpt p.lastSlot
  return {
    id := p.id
    sender := sender
    targetAddress := targetAddress
    targetFunction := thenSome p.hasTargetFunction p.targetFunction
    parameterHex := thenSome p.hasParameterHex p.parameterHex
    coinsNmas := p.coinsNmas
    maxGas := p.maxGas
    targetSlot := targetSlot
    registeredSlot := registeredSlot
    state := deferredStateFromPb p.state
    lastSlot := lastSlot
    firstSeenTsMs := p.firstSeenTsMs
    lastUpdatedTsMs := p.lastUpdatedTsMs }

theorem deferredCallFromPeerPb_toPeerPb (d : StoredDeferredCall) :
    deferredCallFromPeerPb (deferredCallToPeerPb d) = .ok d := by
  simp only [deferredCallFromPeerPb, deferredCallToPeerPb, decodeIf_isSome addrFromKey_bytes,
    decodeIf_slot, thenSome_isSome, deferredStateFromPb_toPb]
  rfl

end MassaIndexer.Data.RowCodec
