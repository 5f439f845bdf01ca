/-
# Data.Model -- the rows the indexer stores

The domain types, field by field. Three choices of carrier:

* wall-clock fields and other `i64` are `Int`, unsigned fields keep their width;
* a raw signed message, which a row keeps as base64 text and the store as bytes, is its bytes here,
  and a denunciation hash, hex text in a row, is its 32 bytes;
* an endorsement exists with its ids as text (as a node sends it) and with its ids parsed (as the
  store accepts it), so the row type is generic in the two id types.
-/
import MassaIndexer.Data.Ids

namespace MassaIndexer.Data.Model

open MassaIndexer.Theory.KeyedTable (Bytes)
open MassaIndexer.Data.Ids

set_option autoImplicit false

/-- Simple (period, thread) tuple. -/
structure Slot where
  period : UInt64
  thread : UInt8
deriving DecidableEq

namespace Slot

/-- The derived order: by period, then by thread. -/
def lt (a b : Slot) : Bool :=
  decide (a.period < b.period) || (decide (a.period = b.period) && decide (a.thread < b.thread))

theorem lt_iff {a b : Slot} : a.lt b = true ↔
    a.period.toNat < b.period.toNat ∨
      a.period.toNat = b.period.toNat ∧ a.thread.toNat < b.thread.toNat := by
  simp [lt, UInt64.lt_iff_toNat_lt, UInt8.lt_iff_toNat_lt, UInt64.toNat_inj]

theorem lt_irrefl (a : Slot) : ¬ a.lt a = true := by
  rw [lt_iff]
  omega

/-- Not later than a slot that is not later. -/
theorem lt_trans {a b c : Slot} (ab : a.lt b = true) (bc : b.lt c = true) : a.lt c = true := by
  rw [lt_iff] at *
  omega

theorem not_lt_trans {a b c : Slot} (ab : ¬ b.lt a = true) (bc : ¬ c.lt b = true) :
    ¬ c.lt a = true := by
  rw [lt_iff] at ab bc ⊢
  omega

theorem not_lt_of_lt {a b : Slot} (lt : a.lt b = true) : ¬ b.lt a = true := by
  rw [lt_iff] at lt ⊢
  omega

theorem eq_of_not_lt {a b : Slot} (ab : ¬ b.lt a = true) (ba : ¬ a.lt b = true) : a = b := by
  rw [lt_iff] at ab ba
  obtain ⟨period, thread⟩ := a
  obtain ⟨period', thread'⟩ := b
  have samePeriod : period = period' := UInt64.toNat_inj.mp (by dsimp only at ab ba; omega)
  have sameThread : thread = thread' := UInt8.toNat_inj.mp (by dsimp only at ab ba; omega)
  rw [samePeriod, sameThread]

end Slot

/-- Execution status of an operation at some tier (candidate or final). -/
inductive ExecStatus where
  | ok
  | failed
deriving DecidableEq

inductive SlotStatus where
  | unknown
  | candidate
  | final
deriving DecidableEq

inductive BlockStatus where
  | seenCandidate
  | final
  | discarded
deriving DecidableEq

/-- Which pieces of data we have persisted for the slot. -/
structure SlotCompleteness where
  blockBodyStored : Bool := false
  execOutputFinal : Bool := false
  execOutputCandidate : Bool := false
  transfersStored : Bool := false
deriving DecidableEq

/-- The row of a slot. -/
structure SlotState where
  slot : Slot
  status : SlotStatus
  isMiss : Bool
  finalBlockId : Option BlockId
  candidateBlockIds : List BlockId
  executionTrailHash : Option String
  executedOpIds : List OperationId
  scEventCount : UInt32
  completeness : SlotCompleteness
  firstSeenTsMs : Int
  lastUpdatedTsMs : Int
deriving DecidableEq

namespace SlotState

def fresh (slot : Slot) (nowMs : Int) : SlotState where
  slot := slot
  status := .unknown
  isMiss := false
  finalBlockId := none
  candidateBlockIds := []
  executionTrailHash := none
  executedOpIds := []
  scEventCount := 0
  completeness := {}
  firstSeenTsMs := nowMs
  lastUpdatedTsMs := nowMs

/-- The recurring `if !candidate_block_ids.iter().any(..) { push }`. -/
def addCandidate (s : SlotState) (b : BlockId) : SlotState :=
  if b ∈ s.candidateBlockIds then s else { s with candidateBlockIds := s.candidateBlockIds ++ [b] }

section AddCandidate

variable (s : SlotState) (b : BlockId)

theorem addCandidate_eq : s.addCandidate b = { s with
    candidateBlockIds :=
      if b ∈ s.candidateBlockIds then s.candidateBlockIds else s.candidateBlockIds ++ [b] } := by
  unfold addCandidate
  split <;> rfl

@[simp] theorem slot_addCandidate : (s.addCandidate b).slot = s.slot := by rw [addCandidate_eq]

@[simp] theorem status_addCandidate : (s.addCandidate b).status = s.status := by rw [addCandidate_eq]

@[simp] theorem isMiss_addCandidate : (s.addCandidate b).isMiss = s.isMiss := by rw [addCandidate_eq]

@[simp] theorem finalBlockId_addCandidate : (s.addCandidate b).finalBlockId = s.finalBlockId := by
  rw [addCandidate_eq]

@[simp] theorem executionTrailHash_addCandidate :
    (s.addCandidate b).executionTrailHash = s.executionTrailHash := by rw [addCandidate_eq]

@[simp] theorem executedOpIds_addCandidate : (s.addCandidate b).executedOpIds = s.executedOpIds := by
  rw [addCandidate_eq]

@[simp] theorem scEventCount_addCandidate : (s.addCandidate b).scEventCount = s.scEventCount := by
  rw [addCandidate_eq]

@[simp] theorem completeness_addCandidate : (s.addCandidate b).completeness = s.completeness := by
  rw [addCandidate_eq]

theorem mem_addCandidate {c : BlockId} :
    c ∈ (s.addCandidate b).candidateBlockIds ↔ c = b ∨ c ∈ s.candidateBlockIds := by
  rw [addCandidate_eq]
  dsimp only
  split
  · next known =>
      refine ⟨.inr, fun either => ?_⟩
      rcases either with rfl | known'
      · exact known
      · exact known'
  · simp [or_comm]

end AddCandidate

end SlotState

/-! ## Endorsements and denunciations -/

/-- An endorsement row over a choice of id types. -/
structure EndorsementRow (E B : Type) where
  id : E
  slot : Slot
  index : UInt32
  endorsedBlockId : B
  contentCreatorPubKey : String
  contentCreatorAddress : Address
  signature : String
  serializedSize : UInt64
  includedBlockId : B
  includedSlot : Slot
  firstSeenTsMs : Int
deriving DecidableEq

/-- As decoded from a node header: ids still in display form. -/
abbrev SeenEndorsement := EndorsementRow String String

/-- As stored: the encoder has parsed the ids. -/
abbrev StoredEndorsement := EndorsementRow EndorsementId BlockId

inductive StoredDenunciation where
  | blockHeader (publicKey : String) (slot : Slot) (hash1 hash2 signature1 signature2 : String)
  | endorsement (publicKey : String) (slot : Slot) (index : UInt32)
      (hash1 hash2 signature1 signature2 : String)
  | address (addressDenounced : String) (slot : Slot) (slashedNmas : UInt64)
  | unknown
deriving DecidableEq

structure StoredDenunciationEntry where
  hash : Bytes
  slot : Slot
  kind : String
  denouncedAddr : Option Address
  denunciation : StoredDenunciation
  includedBlockId : Option BlockId
  includedSlot : Option Slot
  firstSeenTsMs : Int
deriving DecidableEq

/-! ## Blocks -/

structure StoredBlock where
  id : BlockId
  slot : Slot
  creator : Address
  parents : List BlockId
  operationIds : List OperationId
  endorsements : List StoredEndorsement
  endorsementIds : List String
  denunciations : List StoredDenunciation
  currentVersion : UInt32
  announcedVersion : Option UInt32
  operationsHash : String
  signature : String
  contentCreatorPubKey : String
  serializedSize : UInt64
  rawSignedHeader : Bytes
  status : BlockStatus
  firstSeenTsMs : Int
deriving DecidableEq

/-! ## Operations -/

inductive OperationKind where
  | transaction
  | rollBuy
  | rollSell
  | executeSc
  | callSc
  | unknown
deriving DecidableEq

structure DatastoreEntry where
  keyHex : String
  valueHex : String
deriving DecidableEq

structure OperationDetails where
  amountNmas : Option UInt64 := none
  recipientAddress : Option String := none
  rollCount : Option UInt64 := none
  targetAddress : Option String := none
  targetFunction : Option String := none
  parameterHex : Option String := none
  parameterLen : Option UInt64 := none
  coinsNmas : Option UInt64 := none
  maxGas : Option UInt64 := none
  bytecodeHex : Option String := none
  bytecodeSize : Option UInt64 := none
  maxCoinsNmas : Option UInt64 := none
  datastore : List DatastoreEntry := []
  datastoreKeys : Option UInt32 := none
deriving DecidableEq

/-- A single (slot, block) pair where an operation was included. -/
structure OperationInclusion where
  slot : Slot
  blockId : BlockId
deriving DecidableEq

structure StoredOperation where
  id : OperationId
  creator : Address
  target : Option Address
  kind : OperationKind
  expirePeriod : UInt64
  feeNmas : UInt64
  thread : UInt8
  inclusions : List OperationInclusion
  candidateExecStatus : Option ExecStatus
  finalExecStatus : Option ExecStatus
  details : OperationDetails
  signature : String
  contentCreatorPubKey : String
  serializedSize : UInt64
  rawSignedOp : Bytes
  firstSeenTsMs : Int
deriving DecidableEq

/-! ## Transfers and events -/

inductive TransferValue where
  | coins (nmas : UInt64)
  | rolls (count : UInt64)
  | deferredCredits (nmas : UInt64)
  | unknown
deriving DecidableEq

/-- Reason the transfer happened. -/
inductive CoinOrigin where
  | unspecified
  | blockReward
  | deferredCallFail
  | deferredCallCancel
  | deferredCallCoins
  | deferredCallRegister
  | deferredCallStorageRefund
  | endorsementReward
  | endorsedReward
  | slash
  | opRollBuy
  | opRollSell
  | opCallscCoins
  | readOnlyFnCallFees
  | readOnlyFnCallCoins
  | readOnlyBytecodeExecFees
  | setBytecodeStorage
  | abiCallCoins
  | abiTransferCoins
  | abiTransferForCoins
  | abiSendMsgCoins
  | abiSendMsgFees
  | opRollSellDeferredMas
  | opExecutescFees
  | opTransactionCoins
  | opTransactionFees
  | asyncMsgCoins
  | asyncMsgCancel
  | createScStorage
  | datastoreStorage
  | deferredCredit
  | other (code : UInt32)
deriving DecidableEq

structure StoredTransfer where
  slot : Slot
  indexInSlot : UInt32
  id : String
  blockId : Option String
  blockTimestampMs : Int
  fromAddr : Option String
  toAddr : Option String
  value : TransferValue
  origin : CoinOrigin
  operationId : Option String
  asyncMsgId : Option String
  deferredCallId : Option String
  denunciationIndex : Option String
  isFinal : Bool
  firstSeenTsMs : Int
deriving DecidableEq

structure StoredScEvent where
  slot : Slot
  indexInSlot : UInt32
  data : String
  emitterAddrs : List Address
  callerAddrs : List Address
  status : SlotStatus
  opId : Option OperationId
deriving DecidableEq

/-! ## Async pool and deferred calls -/

inductive AsyncMsgState where
  | pending
  | executed
  | cancelled
  | consumed
deriving DecidableEq

structure AsyncTrigger where
  address : String
  datastoreKeyHex : Option String
deriving DecidableEq

structure StoredAsyncMsg where
  id : String
  sender : Option Address
  destination : Option Address
  handler : Option String
  coinsNmas : UInt64
  maxGas : UInt64
  feeNmas : UInt64
  emissionSlot : Option Slot
  validityStart : Option Slot
  validityEnd : Option Slot
  state : AsyncMsgState
  lastSlot : Option Slot
  dataHex : Option String
  trigger : Option AsyncTrigger
  canBeExecuted : Bool
  firstSeenTsMs : Int
  lastUpdatedTsMs : Int
deriving DecidableEq

inductive DeferredCallState where
  | registered
  | executed
  | failed
  | cancelled
deriving DecidableEq

structure StoredDeferredCall where
  id : String
  sender : Option Address
  targetAddress : Option Address
  targetFunction : Option String
  parameterHex : Option String
  coinsNmas : UInt64
  maxGas : UInt64
  targetSlot : Option Slot
  registeredSlot : Option Slot
  state : DeferredCallState
  lastSlot : Option Slot
  firstSeenTsMs : Int
  lastUpdatedTsMs : Int
deriving DecidableEq

end MassaIndexer.Data.Model
