/-
# Writer.NodeDecode -- from node messages to rows

The pure decoders of the three node streams. A slot's thread is cut to its low eight bits here, where
the peer codec rejects one that does not fit. Event data is text: bytes that are not UTF-8 are
decoded lossily, each maximal broken sequence giving one replacement character.
-/
import MassaIndexer.Writer.NodeProto
import MassaIndexer.Data.Codec

namespace MassaIndexer.Writer.NodeDecode

open MassaIndexer.Theory.KeyedTable (Bytes)
open MassaIndexer.Data.Ids MassaIndexer.Data.Model MassaIndexer.Writer.NodeProto
open MassaIndexer.Data.Codec (knownOrigins)

set_option autoImplicit false

/-- `Slot::new(s.period, s.thread as u8)`. -/
def slotFromPb (s : NodeSlot) : Slot := ⟨s.period, s.thread.toUInt8⟩

/-! ## Text -/

def hexDigit (n : UInt8) : Char :=
  if n < 10 then Char.ofNat (48 + n.toNat) else Char.ofNat (87 + n.toNat)

def hexEncode (bytes : Bytes) : String :=
  String.ofList (bytes.flatMap fun (b : UInt8) => [hexDigit (b >>> 4), hexDigit (b &&& 0x0f)])

/-- A UTF-8 sequence whose lead byte was read: the bits so far, how many bytes are to come, and the
range the next one must fall in. -/
structure Utf8Partial where
  bits : Nat
  left : Nat
  lo : UInt8
  hi : UInt8

def replacementChar : Char := '\uFFFD'

/-- The first byte of a sequence: the characters it already gives, or the sequence it opens. -/
def utf8Lead (b : UInt8) : List Char × Option Utf8Partial :=
  if b < 0x80 then ([Char.ofNat b.toNat], none)
  else if 0xC2 ≤ b ∧ b ≤ 0xDF then ([], some ⟨b.toNat - 0xC0, 1, 0x80, 0xBF⟩)
  else if b = 0xE0 then ([], some ⟨0, 2, 0xA0, 0xBF⟩)
  else if b = 0xED then ([], some ⟨0x0D, 2, 0x80, 0x9F⟩)
  else if 0xE1 ≤ b ∧ b ≤ 0xEF then ([], some ⟨b.toNat - 0xE0, 2, 0x80, 0xBF⟩)
  else if b = 0xF0 then ([], some ⟨0, 3, 0x90, 0xBF⟩)
  else if 0xF1 ≤ b ∧ b ≤ 0xF3 then ([], some ⟨b.toNat - 0xF0, 3, 0x80, 0xBF⟩)
  else if b = 0xF4 then ([], some ⟨4, 3, 0x80, 0x8F⟩)
  else ([replacementChar], none)

/-- A byte that breaks an open sequence ends it with a replacement and is read again as a lead. -/
def utf8Lossy : Option Utf8Partial → Bytes → List Char
  | none, [] => []
  | some _, [] => [replacementChar]
  | none, b :: bs =>
      let (chars, opened) := utf8Lead b
      chars ++ utf8Lossy opened bs
  | some p, b :: bs =>
      if p.lo ≤ b ∧ b ≤ p.hi then
        let bits := p.bits * 64 + (b.toNat - 0x80)
        if p.left = 1 then Char.ofNat bits :: utf8Lossy none bs
        else utf8Lossy (some ⟨bits, p.left - 1, 0x80, 0xBF⟩) bs
      else
        let (chars, opened) := utf8Lead b
        replacementChar :: chars ++ utf8Lossy opened bs

/-- On valid UTF-8 the lossy decoder is the strict one. -/
def stringifyBytes (b : Bytes) : String := String.ofList (utf8Lossy none b)

example : stringifyBytes [0x61, 0xC3, 0xA9, 0xE2, 0x82, 0x62, 0xFF] = "aé\uFFFDb\uFFFD" := by decide

/-! ## Blocks -/

section Decode

variable [Bs58Check]

def classifyOp (opType : Option (Option OperationType)) :
    OperationKind × Option Address × OperationDetails :=
  match opType.join with
  | none => (.unknown, none, {})
  | some (.transaction recipientAddress amount) =>
      (.transaction, (Address.parse recipientAddress).toOption,
        { amountNmas := amount.map (·.mantissa), recipientAddress := some recipientAddress })
  | some (.rollBuy rollCount) => (.rollBuy, none, { rollCount := some rollCount })
  | some (.rollSell rollCount) => (.rollSell, none, { rollCount := some rollCount })
  | some (.executeSc data maxCoins maxGas datastore) =>
      (.executeSc, none,
        { bytecodeHex := some (hexEncode data)
          bytecodeSize := some (UInt64.ofNat data.length)
          maxCoinsNmas := some maxCoins
          maxGas := some maxGas
          datastoreKeys := some (UInt32.ofNat datastore.length)
          datastore := datastore.map fun entry => ⟨hexEncode entry.key, hexEncode entry.value⟩ })
  | some (.callSc targetAddress targetFunction parameter maxGas coins) =>
      (.callSc, (Address.parse targetAddress).toOption,
        { targetAddress := some targetAddress
          targetFunction := some targetFunction
          parameterHex := some (hexEncode parameter)
          parameterLen := some (UInt64.ofNat parameter.length)
          maxGas := some maxGas
          coinsNmas := coins.map (·.mantissa) })

/-- An endorsement without content, slot or creator is left out of the block. -/
def decodeEndorsement (se : SignedEndorsement) (includingBlock : BlockId) (includingSlot : Slot)
    (nowMs : Int) : Option SeenEndorsement := do
  let content ← se.content
  let slot ← content.slot
  let creator ← (Address.parse se.contentCreatorAddress).toOption
  return {
    id := se.secureHash
    slot := slotFromPb slot
    index := content.index
    endorsedBlockId := content.endorsedBlock
    contentCreatorPubKey := se.contentCreatorPubKey
    contentCreatorAddress := creator
    signature := se.signature
    serializedSize := se.serializedSize
    includedBlockId := includingBlock.text
    includedSlot := includingSlot
    firstSeenTsMs := nowMs }

end Decode

/-- A denunciation without a slot is filed at the first one. -/
def denouncedSlot (slot : Option NodeSlot) : Slot := (slot.map slotFromPb).getD ⟨0, 0⟩

def decodeDenunciation : Option NodeDenunciation → StoredDenunciation
  | some (.blockHeader b) =>
      .blockHeader b.publicKey (denouncedSlot b.slot) b.hash1 b.hash2 b.signature1 b.signature2
  | some (.endorsement e) =>
      .endorsement e.publicKey (denouncedSlot e.slot) e.index e.hash1 e.hash2 e.signature1
        e.signature2
  | some (.address a) =>
      .address a.addressDenounced (denouncedSlot a.slot) ((a.slashed.map (·.mantissa)).getD 0)
  | none => .unknown

/-! ## Execution outputs -/

/-- `ExecutionOutputStatus`, down to the two values the writer acts on. -/
inductive ExecFrame where
  | candidate
  | final
deriving DecidableEq

def execFrame (status : Int) : Option ExecFrame :=
  if status = 1 then some .candidate else if status = 2 then some .final else none

/-- The trail hash a frame sets. -/
def frameTrail (exec : ExecutionOutput) : Option String :=
  exec.stateChanges.bind fun sc => SetOrKeep.changed sc.executionTrailHashChange

def execStatusOf (code : Int) : Option ExecStatus :=
  if code = 1 then some .ok else if code = 2 then some .failed else none

section Events

variable [Bs58Check]

/-- The emitter is the top of the call stack and the caller its bottom. -/
def extractEventContext (ev : ScExecutionEvent) :
    List Address × List Address × Option OperationId :=
  match ev.context with
  | none => ([], [], none)
  | some ctx =>
      let callStack := ctx.callStack.filterMap fun s => (Address.parse s).toOption
      (callStack.getLast?.toList, callStack.head?.toList,
        ctx.originOperationId.bind fun s => (OperationId.parse s).toOption)

/-- The events of a frame as rows, numbered in order. -/
def frameEvents (slot : Slot) (status : SlotStatus) (exec : ExecutionOutput) : List StoredScEvent :=
  exec.events.mapIdx fun i ev =>
    let (emitters, callers, opId) := extractEventContext ev
    { slot := slot
      indexInSlot := UInt32.ofNat i
      data := stringifyBytes ev.data
      emitterAddrs := emitters
      callerAddrs := callers
      status := status
      opId := opId }

/-! ## Async pool -/

inductive AsyncPoolChange where
  | unspecified
  | set
  | update
  | delete

def asyncPoolChange (code : Int) : Option AsyncPoolChange :=
  if code = 0 then some .unspecified
  else if code = 1 then some .set
  else if code = 2 then some .update
  else if code = 3 then some .delete
  else none

def nonEmptyHex (b : Bytes) : Option String := if b.isEmpty then none else some (hexEncode b)

def nonEmptyText (s : String) : Option String := if s.isEmpty then none else some s

def triggerFromProto (t : NodeAsyncTrigger) : AsyncTrigger := ⟨t.address, t.datastoreKey.map hexEncode⟩

def asyncMsgFromProto (id : String) (msg : AsyncMessage) (slot : Slot) (nowMs : Int) :
    StoredAsyncMsg where
  id := id
  sender := (Address.parse msg.sender).toOption
  destination := (Address.parse msg.destination).toOption
  handler := nonEmptyText msg.handler
  coinsNmas := (msg.coins.map (·.mantissa)).getD 0
  maxGas := msg.maxGas
  feeNmas := (msg.fee.map (·.mantissa)).getD 0
  emissionSlot := msg.emissionSlot.map slotFromPb
  validityStart := msg.validityStart.map slotFromPb
  validityEnd := msg.validityEnd.map slotFromPb
  state := .pending
  lastSlot := some slot
  dataHex := nonEmptyHex msg.data
  trigger := msg.trigger.map triggerFromProto
  canBeExecuted := msg.canBeExecuted
  firstSeenTsMs := nowMs
  lastUpdatedTsMs := nowMs

/-- A field that is set replaces the row's, a field that is kept or unset leaves it. -/
def overlay {α β : Type} (change : Option (SetOrKeep α)) (convert : α → β) (existing : β) : β :=
  match SetOrKeep.changed change with
  | some v => convert v
  | none => existing

def applyAsyncUpdate (existing : StoredAsyncMsg) (upd : AsyncMessageUpdate) : StoredAsyncMsg :=
  { existing with
    emissionSlot := overlay upd.emissionSlot (fun s => some (slotFromPb s)) existing.emissionSlot
    sender := overlay upd.sender (fun s => (Address.parse s).toOption) existing.sender
    destination := overlay upd.destination (fun s => (Address.parse s).toOption) existing.destination
    handler := overlay upd.handler nonEmptyText existing.handler
    maxGas := overlay upd.maxGas id existing.maxGas
    feeNmas := overlay upd.fee id existing.feeNmas
    coinsNmas := overlay upd.coins id existing.coinsNmas
    validityStart := overlay upd.validityStart (fun s => some (slotFromPb s)) existing.validityStart
    validityEnd := overlay upd.validityEnd (fun s => some (slotFromPb s)) existing.validityEnd
    dataHex := overlay upd.data nonEmptyHex existing.dataHex
    trigger := overlay upd.trigger (fun t => some (triggerFromProto t)) existing.trigger
    canBeExecuted := overlay upd.canBeExecuted id existing.canBeExecuted }

end Events

/-! ## Transfers -/

/-- The node's codes are those of the stored enum; a code it does not know is kept as it is. -/
def coinOriginFromI32 (code : Int) : CoinOrigin :=
  let unknown := CoinOrigin.other (UInt32.ofInt code)
  if 0 ≤ code then knownOrigins.getD code.toNat unknown else unknown

/-- A transfer that moves nothing, or whose value is missing, is dropped at ingestion. -/
def isZeroValue : TransferValue → Bool
  | .coins nmas => nmas == 0
  | .deferredCredits nmas => nmas == 0
  | .rolls count => count == 0
  | .unknown => true

/-- Rewards and validator economics, emitted around operations and part of none. -/
def isRewardOrigin : CoinOrigin → Bool
  | .blockReward | .endorsementReward | .endorsedReward | .slash | .deferredCredit => true
  | _ => false

/-- Origins produced only inside the execution of a user operation. -/
def isOpChildOrigin : CoinOrigin → Bool
  | .abiCallCoins | .abiTransferCoins | .abiTransferForCoins | .abiSendMsgCoins | .abiSendMsgFees
  | .createScStorage | .datastoreStorage | .setBytecodeStorage => true
  | _ => false

def formatSlot : Option NodeSlot → String
  | some s => "(" ++ toString s.period ++ "," ++ toString s.thread ++ ")"
  | none => "()"

def formatDenunciationIndex : Option DenunciationIndex → String
  | some (.blockHeader slot) => "block_header@" ++ formatSlot slot
  | some (.endorsement slot index) => "endorsement@" ++ formatSlot slot ++ "#" ++ toString index
  | none => "unknown"

def valueFromProto : Option NodeTransferValue → TransferValue
  | some (.rolls n) => .rolls n
  | some (.coins a) => .coins a.mantissa
  | some (.deferredCredits a) => .deferredCredits a.mantissa
  | none => .unknown

/-- The row of a transfer, at the index it takes among those kept. -/
def transferRow (resp : NewTransfersInfoServerResponse) (slot : Slot) (nowMs : Int) (index : Nat)
    (t : ExecTransferInfo) : StoredTransfer where
  slot := slot
  indexInSlot := UInt32.ofNat index
  id := t.id
  blockId := resp.blockId
  blockTimestampMs := resp.timestamp
  fromAddr := t.fromAddress
  toAddr := t.toAddress
  value := valueFromProto t.value.join
  origin := coinOriginFromI32 t.origin
  operationId := t.operationId
  asyncMsgId := t.asyncMsgId
  deferredCallId := t.deferredCallId
  denunciationIndex := t.denunciationIndex.map formatDenunciationIndex
  isFinal := true
  firstSeenTsMs := nowMs

/-- Give every child transfer the operation running where it stands in the slot's order. -/
def attributeOps : Option String → List StoredTransfer → List StoredTransfer
  | _, [] => []
  | current, r :: rs =>
      if r.operationId.isSome then r :: attributeOps r.operationId rs
      else if r.asyncMsgId.isSome || r.deferredCallId.isSome || r.denunciationIndex.isSome then
        r :: attributeOps none rs
      else if isRewardOrigin r.origin then r :: attributeOps none rs
      else if isOpChildOrigin r.origin then
        { r with operationId := current } :: attributeOps current rs
      else r :: attributeOps current rs

/-- Both passes over the node's list: drop and number, then attribute. -/
def decodeTransfers (resp : NewTransfersInfoServerResponse) (slot : Slot) (nowMs : Int) :
    List StoredTransfer :=
  attributeOps none
    ((resp.transfersInfo.filter fun t => !isZeroValue (valueFromProto t.value.join)).mapIdx
      (transferRow resp slot nowMs))

end MassaIndexer.Writer.NodeDecode
