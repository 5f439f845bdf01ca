/-
# Laws.RepairAdditive -- the repair passes beside each other

Repairs are to be additive: a legacy patch never puts another row in the place of one, no operation
gets a second movement, and once all passes are through another round changes nothing. That holds of
every interleaving in which each producer looks at a slot only when its numbers fit (`repairs_additive`). It
does not hold in general: two producers that look at a slot before either patch is applied both begin
at the first free number (`sub_transfer_replaces_transaction`).
-/
import MassaIndexer.Repair.Interleaving
import MassaIndexer.Chain.Snapshot

namespace MassaIndexer.Laws.RepairAdditive

open MassaIndexer.Theory.Runs MassaIndexer.Theory.KeyedTable
open MassaIndexer.Data.Ids MassaIndexer.Data.Model MassaIndexer.Data.Proto
open MassaIndexer.Store.ColumnFamilies
open MassaIndexer.Writer.Shared MassaIndexer.Peer.Patch
open MassaIndexer.Repair.Producers MassaIndexer.Repair.Numbering MassaIndexer.Repair.Applied
open MassaIndexer.Repair.Passes MassaIndexer.Repair.Settling MassaIndexer.Repair.Additivity
open MassaIndexer.Repair.Interleaving

set_option autoImplicit false

section Additive

variable [Bs58Check]

/-- No operation has its movement of coins in two places. -/
def MovedOnce (db : Db) : Prop :=
  ∀ op p p' t t', storedAt db p = some t → storedAt db p' = some t' →
    IsMovement op t → IsMovement op t' → p = p'

variable [DenunciationDigest]

/-- What is asked of every state: the next patch to be applied replaces no row by one of another id
and loses none of its own, no operation has two movements, and once the passes are through nothing
that they or the writer do changes a transfer. -/
structure Additive (passes : Passes) (w : World) : Prop where
  keeps : ∀ q lane nowMs, w.lane = q :: lane → ∀ p t, storedAt w.db p = some t →
    ∃ t', storedAt (applied w.db q.resp nowMs) p = some t' ∧ t'.id = t.id
  lands : ∀ q lane nowMs, w.lane = q :: lane → ∀ t ∈ decodedTransfers q.resp,
    ∃ t', storedAt (applied w.db q.resp nowMs) (placeOf t) = some t' ∧ t'.id = t.id
  once : MovedOnce w.db
  settled : w.finished = true → ∀ act p, storedAt (w.next passes act).db p = storedAt w.db p

theorem additive_of_sane {passes : Passes} {w : World} (sane : Sane passes w) :
    Additive passes w := by
  rcases sane with ⟨unfinished, inv⟩ | ⟨finished, still⟩
  · exact {
      keeps := fun q lane nowMs next p t found =>
        keeps_item nowMs (inv.item q ((mem_pending_of_head next).mpr (.inl rfl))) found
      lands := fun q lane nowMs next t shipped => by
        have item := inv.item q ((mem_pending_of_head next).mpr (.inl rfl))
        rw [storedAt_item nowMs item]
        exact item.fits.lands shipped
      once := fun op p p' t t' stored stored' =>
        inv.once op p p' t t' (.inl stored) (.inl stored')
      settled := fun finished => absurd (unfinished.symm.trans finished) (by simp) }
  · exact {
      keeps := fun q lane nowMs next p t found => by
        have idle := still.idle q ((mem_pending_of_head next).mpr (.inl rfl))
        rw [storedAt_idle idle nowMs]
        exact ⟨t, found, rfl⟩
      lands := fun q lane nowMs next t shipped => by
        have idle := still.idle q ((mem_pending_of_head next).mpr (.inl rfl))
        rw [storedAt_idle idle nowMs]
        exact ⟨t, idle.stored t shipped, rfl⟩
      once := still.once
      settled := fun _ act p => by
        cases act with
        | apply nowMs =>
            dsimp only [World.next]
            cases next : w.lane with
            | nil => rfl
            | cons q lane =>
                have idle := still.idle q ((mem_pending_of_head next).mpr (.inl rfl))
                exact congrFun (storedAt_idle idle nowMs) p
        | reconstruct s => dsimp only [World.next]; split <;> rfl
        | subTransfers s => dsimp only [World.next]; split <;> rfl
        | lookUp s nowMs => dsimp only [World.next]; split <;> rfl
        | send i => dsimp only [World.next]; split <;> rfl
        | crash => rfl
        | finish => dsimp only [World.next]; split <;> rfl }

/-- A run of the passes and the writer, from a store in which no operation has two movements, all of
whose steps are sound. -/
structure Campaign where
  passes : Passes
  db : Db
  once : MovedOnce db
  acts : List Act
  sound : Along (World.next passes) (Sound passes) { db := db } acts

/-- The state after the first `n` steps. -/
def Campaign.after (c : Campaign) (n : Nat) : World :=
  run (World.next c.passes) { db := c.db } (c.acts.take n)

omit [DenunciationDigest] in
theorem sane_start (passes : Passes) {db : Db} (once : MovedOnce db) :
    Sane passes { db := db } := by
  refine .inl ⟨rfl, ?_⟩
  exact {
    item := fun q queued => absurd queued List.not_mem_nil
    alone := fun s => Nat.zero_le 1
    once := fun op p p' t t' holds holds' => by
      rcases holds with stored | ⟨-, q, queued, -⟩
      · rcases holds' with stored' | ⟨-, q, queued, -⟩
        · exact once op p p' t t' stored stored'
        · exact absurd queued List.not_mem_nil
      · exact absurd queued List.not_mem_nil
    done := fun pass s seen => absurd seen List.not_mem_nil }

/-- **In every state of a sound run the repairs are additive.** -/
theorem repairs_additive (c : Campaign) (n : Nat) : Additive c.passes (c.after n) := by
  have sound := c.sound
  rw [← List.take_append_drop n c.acts, along_append] at sound
  exact additive_of_sane (invariant_of_along (fun w act => sane_next act)
    (sane_start c.passes c.once) sound.1)

/-! ## Two producers at one slot -/

/-- Both passes look at a slot, then both patches are sent and the first is applied. -/
def sideBySide (s : Slot) : List Act :=
  [.reconstruct s, .subTransfers s, .send 0, .send 0, .apply 0]

/-- When both begin at one number, the second patch is about to replace the row of the first. -/
theorem not_additive_sideBySide {passes : Passes} {db : Db} {s : Slot} {b b' : BlockId}
    {transaction sub : StoredTransfer}
    (covers : passes.covers .reconstructTransfers s = true)
    (covers' : passes.covers .legacySubTransfers s = true)
    (rebuilt : reconstructSlot db passes.reconstruct s = some (transfersPatch s b [transaction]))
    (listed : subTransfersPatch db passes.subTransfers s (passes.archive.items s) =
      some (transfersPatch s b' [sub]))
    (coins : transaction.origin = .opTransactionCoins) (abi : sub.origin = .abiTransferCoins)
    (place : placeOf sub = placeOf transaction) (other : sub.id ≠ transaction.id) :
    ¬ Additive passes (run (World.next passes) { db := db } (sideBySide s)) := by
  intro additive
  have reached : run (World.next passes) { db := db } (sideBySide s) =
      { db := applied db (transfersPatch s b [transaction]) 0
        lane := [⟨.legacySubTransfers, s, transfersPatch s b' [sub]⟩]
        seen := [(.legacySubTransfers, s), (.reconstructTransfers, s)] } := by
    simp [sideBySide, World.next, World.looked, builtBy, Draft.sent, covers, covers', rebuilt, listed]
  rw [reached] at additive
  have first : storedAt (applied db (transfersPatch s b [transaction]) 0) (placeOf transaction) =
      some transaction := by
    rw [storedAt_apply (slotOf_thread rfl rfl) rfl, decodedTransfers_plain [transaction] rfl
        (by simpa using .inl coins), map_readBackTransfer (by simpa using .inl coins)]
    exact Function.update_self _ _ _
  obtain ⟨t, found, id⟩ := additive.keeps _ _ 0 rfl _ _ first
  dsimp only at found
  rw [storedAt_apply (slotOf_thread rfl rfl) rfl, decodedTransfers_plain [sub] rfl
      (by simpa using .inr abi), map_readBackTransfer (by simpa using .inr abi), ← place] at found
  rw [Theory.Additive.fill_of_mem (List.mem_singleton.mpr rfl)
    fun r member _ => List.mem_singleton.mp member] at found
  obtain rfl := Option.some.inj found
  exact other id

end Additive

/-! ## A transfer and a call in one slot -/

section Clash

/-- A user address. -/
def someAddress : Address := ⟨List.replicate addrKeyLen 0, Address.width_zeros⟩

def transferId : OperationId := ⟨List.replicate idKeyLen 1, by simp⟩

def callId : OperationId := ⟨List.replicate idKeyLen 2, by simp⟩

/-- A successful operation. -/
def executedOp (id : OperationId) (kind : OperationKind) (details : OperationDetails) :
    StoredOperation where
  id := id
  creator := someAddress
  target := none
  kind := kind
  expirePeriod := 20
  feeNmas := 5
  thread := 0
  inclusions := []
  candidateExecStatus := some .ok
  finalExecStatus := some .ok
  details := details
  signature := ""
  contentCreatorPubKey := ""
  serializedSize := 0
  rawSignedOp := []
  firstSeenTsMs := 0

def coinTransfer : StoredOperation :=
  executedOp transferId .transaction { amountNmas := some 42, recipientAddress := some "AU" }

def contractCall : StoredOperation := executedOp callId .callSc {}

/-- A settled slot that executed both, and lacks the node's transfers. -/
def settledSlot : SlotState :=
  { SlotState.fresh ⟨10, 0⟩ 0 with
    status := .final
    finalBlockId := some (Chain.blockNo 1)
    executedOpIds := [transferId, callId] }

def twoOps : Db := ((Db.empty.writeOp coinTransfer).writeOp contractCall).writeSlot settledSlot

theorem readOp_twoOps : twoOps.readOp transferId = some coinTransfer ∧
    twoOps.readOp callId = some contractCall := by
  have apart : callId ≠ transferId := by decide
  constructor
  · change ((Db.empty.writeOp coinTransfer).writeOp contractCall).readOp transferId = _
    rw [Db.readOp_writeOp, Db.readOp_writeOp]
    exact (if_neg apart).trans (if_pos rfl)
  · change ((Db.empty.writeOp coinTransfer).writeOp contractCall).readOp callId = _
    rw [Db.readOp_writeOp]
    exact if_pos rfl

theorem eligibleAt_twoOps :
    eligibleAt twoOps ⟨10, 0⟩ = some (Chain.blockNo 1, [transferId, callId]) := by
  have row : twoOps.readSlot ⟨10, 0⟩ = some (Data.Codec.readBackSlotState settledSlot) := by
    rw [twoOps, Db.readSlot_writeSlot]
    exact if_pos rfl
  rw [eligibleAt, row]
  rfl

theorem storedAt_twoOps (p : Place) : storedAt twoOps p = none := Table.get_empty _

theorem reconstructionNumbers_twoOps :
    reconstructionNumbers twoOps [transferId, callId] = [(0, coinTransfer)] := by
  obtain ⟨found, found'⟩ := readOp_twoOps
  simp [reconstructionNumbers, found, found', numberFrom, movesCoins, coinTransfer, contractCall,
    executedOp]

theorem movedOnce_twoOps : MovedOnce twoOps := fun op p p' t t' stored =>
  absurd ((storedAt_twoOps p).symm.trans stored) (by simp)

variable [Bs58Check]

/-- The archive has one row: what the call moved. -/
def callMoved : OperationsItem :=
  { hash := some (callId.text ++ "_0"), status := some 1, amount := some 7 }

def slotTen : Passes where
  archive := { blockRow := fun _ => none, items := fun _ => [callMoved] }
  reconstruct := ⟨10, 10, 1, 0, 16000⟩
  subTransfers := ⟨10, 10, 1, 0, 16000⟩
  oneShot := ⟨10, 10, 1⟩

theorem reconstructSlot_twoOps : ∃ transaction : StoredTransfer,
    reconstructSlot twoOps slotTen.reconstruct ⟨10, 0⟩ =
        some (transfersPatch ⟨10, 0⟩ (Chain.blockNo 1) [transaction]) ∧
      MovementOf ⟨10, 0⟩ 0 coinTransfer transaction := by
  obtain ⟨transaction, made⟩ := Option.isSome_iff_exists.mp <|
    (isSome_legacyOpToTransfer coinTransfer ⟨10, 0⟩ (Chain.blockNo 1).text 0
      (slotTimestampMs slotTen.reconstruct ⟨10, 0⟩)).trans rfl
  refine ⟨transaction, ?_, movementOf_of_made made⟩
  rw [reconstructSlot_eq, eligibleAt_twoOps, Option.bind_some]
  dsimp only
  rw [reconstructed, reconstructionNumbers_twoOps, transactionRows_cons, made]
  rfl

theorem subTransfersPatch_twoOps : ∃ sub : StoredTransfer,
    subTransfersPatch twoOps slotTen.subTransfers ⟨10, 0⟩ (slotTen.archive.items ⟨10, 0⟩) =
        some (transfersPatch ⟨10, 0⟩ (Chain.blockNo 1) [sub]) ∧
      sub.id = callId.text ++ "_0" ∧ sub.slot = ⟨10, 0⟩ ∧ sub.indexInSlot = 0 ∧
        sub.origin = .abiTransferCoins := by
  obtain ⟨found, found'⟩ := readOp_twoOps
  have bare : twoOps.transfersForSlot ⟨10, 0⟩ = [] := by
    refine List.eq_nil_iff_forall_not_mem.mpr fun t member => ?_
    rw [mem_transfersForSlot, storedAt_twoOps] at member
    exact absurd member (by simp)
  have target : subTransfersTarget twoOps ⟨10, 0⟩ = some ⟨Chain.blockNo 1, [], 0⟩ := by
    rw [subTransfersTarget_eq, eligibleAt_twoOps, Option.bind_some, bare]
    simp [found', successfulScOp, contractCall, executedOp, nextIndex]
  have hash : isSubTransferHash (callId.text ++ "_0") = true := by
    simp [isSubTransferHash]
  have moved : movedHash callMoved = some (callId.text ++ "_0") := by
    simp [movedHash, callMoved, Option.filter, hash]
  rcases subTransfer_cases callMoved rfl hash ⟨10, 0⟩ (some (Chain.blockNo 1).text) 0
    (slotTimestampMs slotTen.subTransfers.timing ⟨10, 0⟩) with ⟨still, -⟩ | ⟨-, sub, made, row⟩
  · exact absurd (still.symm.trans moved) (by simp)
  · refine ⟨sub, ?_, row⟩
    rw [subTransfersPatch_eq, target, Option.bind_some]
    have rows : subRows slotTen ⟨10, 0⟩ ⟨Chain.blockNo 1, [], 0⟩ = [sub] := by
      change subTransferRows _ _ _ [] [callMoved] 0 = [sub]
      rw [subTransferRows]
      change (if _ then _ else _) = _
      rw [if_neg (by simp [hash]), made]
      rfl
    rw [rows]
    rfl

variable [DenunciationDigest]

theorem not_additive_twoOps : ¬ Additive slotTen
    (run (World.next slotTen) { db := twoOps } (sideBySide ⟨10, 0⟩)) := by
  obtain ⟨transaction, rebuilt, row⟩ := reconstructSlot_twoOps
  obtain ⟨sub, listed, id, slot, number, origin⟩ := subTransfersPatch_twoOps
  refine not_additive_sideBySide rfl rfl rebuilt listed row.origin origin ?_ ?_
  · exact Prod.ext (slot.trans row.slot.symm) (number.trans row.number.symm)
  · rw [id, row.id]
    intro same
    have reversed := congrArg (fun text => text.toList.reverse) same
    simp [transactionTransferId] at reversed

/-- In turn, with the first patch applied before the second pass looks, the same work is sound. -/
def inTurn (s : Slot) : List Act :=
  [.reconstruct s, .send 0, .apply 0, .subTransfers s, .send 0, .apply 0]

theorem sound_inTurn :
    Along (World.next slotTen) (Sound slotTen) { db := twoOps } (inTurn ⟨10, 0⟩) := by
  obtain ⟨transaction, rebuilt, row⟩ := reconstructSlot_twoOps
  have covers : slotTen.covers .reconstructTransfers ⟨10, 0⟩ = true := rfl
  have nothing : ∀ db seen, Fresh { db := db, seen := seen } ⟨10, 0⟩ := fun db seen q queued =>
    absurd queued List.not_mem_nil
  refine ⟨.inr ⟨nothing _ _, fun blockId opIds offers => ?_⟩, .inr trivial, .inr trivial, ?_,
    .inr trivial, .inr trivial, trivial⟩
  · obtain ⟨-, rfl⟩ := Prod.mk.inj (Option.some.inj (eligibleAt_twoOps.symm.trans offers))
    have bare : ∀ p t, ¬ Holds { db := twoOps } p t := by
      rintro p t (stored | ⟨-, q, queued, -⟩)
      · exact absurd ((storedAt_twoOps p).symm.trans stored) (by simp)
      · exact absurd queued List.not_mem_nil
    have single : reconstructionNumbers twoOps [transferId, callId] = [(0, coinTransfer)] :=
      reconstructionNumbers_twoOps
    exact {
      number := fun n op _ t stored => absurd (.inl stored) (bare (⟨10, 0⟩, n) t)
      movement := fun n op _ p t holds => absurd holds (bare p t)
      apart := fun x member y member' _ => by
        rw [single, List.mem_singleton] at member member'
        rw [member, member']
        exact ⟨rfl, rfl⟩ }
  · have reached : ((({ db := twoOps } : World).next slotTen (.reconstruct ⟨10, 0⟩)).next slotTen
        (.send 0)).next slotTen (.apply 0) =
        { db := applied twoOps (transfersPatch ⟨10, 0⟩ (Chain.blockNo 1) [transaction]) 0
          seen := [(.reconstructTransfers, ⟨10, 0⟩)] } := by
      simp [World.next, World.looked, builtBy, Draft.sent, covers, rebuilt]
    have few : (movedHashes (slotTen.archive.items ⟨10, 0⟩)).length ≤ 1 :=
      List.length_filterMap_le movedHash [callMoved]
    rw [reached]
    refine .inr ⟨nothing _ _, by omega, fun t member => ?_⟩
    have plain : ∀ t ∈ [transaction], Plain t := by simpa using .inl row.origin
    rw [mem_transfersForSlot, storedAt_apply (slotOf_thread rfl rfl) rfl,
      decodedTransfers_plain [transaction] rfl plain, map_readBackTransfer plain] at member
    rcases Theory.Additive.mem_or_of_fill member with ⟨here, -⟩ | ⟨before, -⟩
    · rw [List.mem_singleton.mp here, row.number, UInt32.toNat_zero]
      omega
    · exact absurd ((storedAt_twoOps _).symm.trans before) (by simp)

end Clash

section Closed

attribute [local instance] Bs58Check.doubleSha Chain.noDenunciations

/-- **A sub-transfer takes the place of a transaction.** -/
theorem sub_transfer_replaces_transaction : ¬ ∀ (passes : Passes) (db : Db), MovedOnce db →
    ∀ acts, Additive passes (run (World.next passes) { db := db } acts) :=
  fun additive => not_additive_twoOps (additive slotTen twoOps movedOnce_twoOps _)

end Closed

end MassaIndexer.Laws.RepairAdditive
