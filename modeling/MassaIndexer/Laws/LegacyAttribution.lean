/-
# Laws.LegacyAttribution -- the operation a legacy transfer belongs to

The archive names the parent of a sub-transfer in two places: in front of the `_` of its hash, and
in the column `OriginalOperationID`, which is often blank. Decoding goes by the hash and falls back
on the column, while the operations that get no made up transfer are found by the column alone. So
an operation is counted twice exactly when it moved coins, has a row of its own, and no row names it
in the column (`counted_once_iff`). Any hash with a `_` has something in front of it, so from such a
row decoding never reaches the column nor the slot-bound case: a reward is filed under the operation
"REWARD" (`classified_iff`).
-/
import MassaIndexer.Laws.LegacyNumbering

namespace MassaIndexer.Laws.LegacyAttribution

open MassaIndexer.Theory
open MassaIndexer.Data.Ids MassaIndexer.Data.Model MassaIndexer.Data.Proto MassaIndexer.Data.RowCodec
open MassaIndexer.Repair.Producers MassaIndexer.Repair.Numbering MassaIndexer.Laws.LegacyNumbering
open MassaIndexer.Laws.RepairAdditive MassaIndexer.Chain

set_option autoImplicit false

/-! ## Ids and underscores -/

section Texts

variable [Bs58Check]

/-- The coder writes the base58 alphabet, which has no `_`. -/
def NoUnderscore : Prop := ∀ bytes, '_' ∉ (Bs58Check.encode bytes).toList

theorem not_mem_text (plain : NoUnderscore) (op : OperationId) : '_' ∉ op.text.toList := by
  intro member
  rw [FamilyId.text, String.toList_ofList, List.mem_cons] at member
  rcases member with letter | inner
  · exact absurd letter (by decide)
  · exact plain op.bytes inner

/-- An operation id in front of a `_` is the parent decoding finds. -/
theorem parentOpFromHash_text (plain : NoUnderscore) (op : OperationId) (rest : String) :
    parentOpFromHash (op.text ++ "_" ++ rest) = some op.text := by
  have chars : (op.text ++ "_" ++ rest).toList = op.text.toList ++ '_' :: rest.toList := by simp
  have before : ∀ c ∈ op.text.toList, decide (c ≠ '_') = true := by
    intro c member
    exact decide_eq_true fun same => not_mem_text plain op (same ▸ member)
  unfold parentOpFromHash isSubTransferHash
  rw [if_pos (by rw [chars]; simp), chars, List.takeWhile_append_of_pos before,
    List.takeWhile_cons_of_neg (by simp), List.append_nil, String.ofList_toList]

theorem not_isSubTransferHash_transactionTransferId (plain : NoUnderscore) (op : OperationId)
    (i : UInt32) :
    isSubTransferHash (transactionTransferId op i) = false := by
  unfold isSubTransferHash transactionTransferId
  rw [← Bool.not_eq_true, List.contains_iff_mem]
  intro member
  have chars : (op.text ++ ":" ++ toString i.toNat).toList =
      op.text.toList ++ ':' :: Nat.toDigits 10 i.toNat := by
    simp [toString, Nat.repr]
  rw [chars, List.mem_append, List.mem_cons] at member
  rcases member with inId | colon | inNumber
  · exact not_mem_text plain op inId
  · exact absurd colon (by decide)
  · exact absurd (Nat.isDigit_of_mem_toDigits (by decide) (by decide) inNumber) (by decide)

end Texts

/-! ## Sub-transfers and the rows they come from -/

section Rows

variable [Bs58Check] {slot : Slot} {blockId : Option String} {ts nowMs : Int}

omit [Bs58Check] in
theorem parentOpFromHash_isSome {hash : String} (sub : isSubTransferHash hash = true) :
    (parentOpFromHash hash).isSome = true := by
  rw [parentOpFromHash, if_pos sub]
  rfl

/-- What an executed row is decoded to, as far as its parent goes. -/
structure DecodedFrom (row : SubTransferRow) (t : StoredTransfer) : Prop where
  id : t.id = row.hash
  operation : t.operationId = (parentOpFromHash row.hash).or (filled row.originalOpId)
  origin : t.origin = subTransferOrigin row ((parentOpFromHash row.hash).or (filled row.originalOpId))

omit [Bs58Check] in
theorem decodedFrom_of_made {row : SubTransferRow} {n : UInt32} {t : StoredTransfer}
    (made : legacySubTransferToTransfer row slot blockId n ts = some t) : DecodedFrom row t := by
  unfold legacySubTransferToTransfer at made
  split at made
  · exact absurd made (by simp)
  · split at made
    · exact absurd made (by simp)
    · obtain rfl := Option.some.inj made
      exact ⟨rfl, rfl, rfl⟩

omit [Bs58Check] in
/-- A sub-transfer belongs to the operation its id begins with, whatever the column says. -/
theorem operation_of_mem {items : List OperationsItem} {skipIds : List String} {n : UInt32}
    {t : StoredTransfer} (member : t ∈ subTransferRows slot blockId ts skipIds items n) :
    isSubTransferHash t.id = true ∧ t.operationId = parentOpFromHash t.id := by
  induction items generalizing n with
  | nil => exact absurd member (by simp [subTransferRows])
  | cons item rest ih =>
      unfold subTransferRows at member
      cases here : item.hash with
      | none =>
          rw [here] at member
          exact ih member
      | some hash =>
          rw [here] at member
          dsimp only at member
          split at member
          · exact ih member
          · next kept =>
              have sub : isSubTransferHash hash = true := by
                by_contra other
                exact kept (by simp [Bool.not_eq_true _ ▸ other])
              cases made : legacySubTransferToTransfer (item.view hash) slot blockId n ts with
              | none =>
                  rw [made] at member
                  exact ih member
              | some first =>
                  rw [made] at member
                  rcases List.mem_cons.mp member with rfl | later
                  · have row := decodedFrom_of_made made
                    have id : t.id = hash := row.id
                    obtain ⟨parent, found⟩ := Option.isSome_iff_exists.mp (parentOpFromHash_isSome sub)
                    refine ⟨id ▸ sub, ?_⟩
                    rw [row.operation, id]
                    show (parentOpFromHash hash).or _ = _
                    rw [found]
                    rfl
                  · exact ih later

/-! ## Counted once -/

/-- The transfer made up for `op`: `<op>:<i>`. -/
def MadeUpFor (op : OperationId) (t : StoredTransferPb) : Prop :=
  t.operationId = op.text ∧ ∃ i, t.id = transactionTransferId op i

/-- A transfer of `op` that the archive has a row for: `…_<n>`. -/
def ShippedFor (op : OperationId) (t : StoredTransferPb) : Prop :=
  t.operationId = op.text ∧ isSubTransferHash t.id = true

/-- No operation has both a made up and a shipped transfer. -/
def CountedOnce (resp : FinalSlotResponse) : Prop :=
  ∀ op : OperationId,
    ¬ ((∃ t ∈ resp.transfers, MadeUpFor op t) ∧ ∃ t ∈ resp.transfers, ShippedFor op t)

theorem exists_madeUpFor_iff (plain : NoUnderscore) {a : ArchivedSlot} (op : OperationId) :
    (∃ t ∈ (fetchSlot slot a nowMs).transfers, MadeUpFor op t) ↔
      ∃ d ∈ a.ops, madeUp a d = true ∧ d.stored.id = op := by
  constructor
  · rintro ⟨pb, shipped, operation, i, id⟩
    obtain ⟨t, member, rfl⟩ := List.mem_map.mp shipped
    have bare : isSubTransferHash t.id = false := by
      rw [show t.id = _ from id]
      exact not_isSubTransferHash_transactionTransferId plain op i
    rcases List.mem_append.mp member with made | own
    · rw [synthesisedRows_eq] at made
      obtain ⟨n, moved, numbered, here⟩ := mem_transactionRows made
      obtain ⟨⟨d, i⟩, listed, chosen⟩ := List.mem_filterMap.mp numbered
      dsimp only at chosen
      split at chosen
      · next both =>
          obtain ⟨-, rfl⟩ := Prod.mk.inj (Option.some.inj chosen)
          have row := (movementOf_of_made here).operation
          have same : t.operationId.getD "" = op.text := operation
          rw [row] at same
          exact ⟨d, (List.mem_zipIdx' listed).2 ▸ List.getElem_mem _, both, FamilyId.text_injective same⟩
      · exact absurd chosen (by simp)
    · rw [(operation_of_mem own).1] at bare
      exact absurd bare (by decide)
  · rintro ⟨d, listed, both, rfl⟩
    obtain ⟨i, bound, rfl⟩ := List.getElem_of_mem listed
    have moves : movesCoins a.ops[i].stored = true := (Bool.and_eq_true _ _ ▸ both).2
    have some_ : (legacyOpToTransfer a.ops[i].stored slot a.blockHash.text
        (UInt32.ofNat i) nowMs).isSome := by
      rw [isSome_legacyOpToTransfer]
      exact moves
    obtain ⟨t, made⟩ := Option.isSome_iff_exists.mp some_
    have row := movementOf_of_made made
    refine ⟨transferToPeerPb t, List.mem_map_of_mem (List.mem_append_left _ ?_), ?_, UInt32.ofNat i,
        row.id⟩
    · refine List.mem_filterMap.mpr ⟨(a.ops[i], i), ?_, ?_⟩
      · exact List.mem_zipIdx_iff_getElem?.mpr (List.getElem?_eq_getElem bound)
      · dsimp only
        rw [if_pos (Bool.and_eq_true _ _ ▸ both).1]
        exact made
    · show t.operationId.getD "" = _
      rw [row.operation]
      rfl

theorem exists_shippedFor_iff (plain : NoUnderscore) {a : ArchivedSlot} (op : OperationId) :
    (∃ t ∈ (fetchSlot slot a nowMs).transfers, ShippedFor op t) ↔
      ∃ hash ∈ movedHashes a.items, parentOpFromHash hash = some op.text := by
  have ids : ∀ n, (subTransferRows slot (some a.blockHash.text) nowMs [] a.items n).map (·.id) =
      movedHashes a.items := by
    intro n
    rw [ids_subTransferRows]
    simp
  constructor
  · rintro ⟨pb, shipped, operation, sub⟩
    obtain ⟨t, member, rfl⟩ := List.mem_map.mp shipped
    rcases List.mem_append.mp member with made | own
    · rw [synthesisedRows_eq] at made
      obtain ⟨n, moved, -, here⟩ := mem_transactionRows made
      have id : t.id = _ := (movementOf_of_made here).id
      have sub : isSubTransferHash t.id = true := sub
      rw [id, not_isSubTransferHash_transactionTransferId plain] at sub
      exact absurd sub (by decide)
    · obtain ⟨parent, found⟩ := Option.isSome_iff_exists.mp
        (parentOpFromHash_isSome (operation_of_mem own).1)
      have same : t.operationId.getD "" = op.text := operation
      rw [(operation_of_mem own).2, found] at same
      refine ⟨t.id, ids _ ▸ List.mem_map_of_mem own, ?_⟩
      rw [found]
      exact congrArg _ same
  · rintro ⟨hash, moved, parent⟩
    rw [← ids (UInt32.ofNat (synthesisedRows slot a.blockHash.text nowMs
      (coveredOpIdsFromRows a.items) a.ops).length)] at moved
    obtain ⟨t, own, rfl⟩ := List.mem_map.mp moved
    refine ⟨transferToPeerPb t, List.mem_map_of_mem (List.mem_append_right _ own), ?_,
        (operation_of_mem own).1⟩
    show t.operationId.getD "" = _
    rw [(operation_of_mem own).2, parent]
    rfl

/-- An operation that moved coins and has an executed row of its own is named by the column of some
row. -/
def NamedInColumn (a : ArchivedSlot) : Prop :=
  ∀ d ∈ a.ops, d.executed = true → movesCoins d.stored = true →
    (∃ hash ∈ movedHashes a.items, parentOpFromHash hash = some d.stored.id.text) →
      d.stored.id.text ∈ coveredOpIdsFromRows a.items

/-- **No operation of a legacy slot is counted twice exactly when the column names each one that
would be.** -/
theorem counted_once_iff (plain : NoUnderscore) (slot : Slot) (a : ArchivedSlot) (nowMs : Int) :
    CountedOnce (fetchSlot slot a nowMs) ↔ NamedInColumn a := by
  unfold CountedOnce
  constructor
  · intro once d listed executed moves own
    by_contra unnamed
    have made : madeUp a d = true := by
      unfold madeUp synthesises
      rw [executed, moves, Bool.and_true, Bool.true_and, Bool.not_eq_true', ← Bool.not_eq_true,
        List.contains_iff_mem]
      exact unnamed
    exact once d.stored.id ⟨(exists_madeUpFor_iff plain _).mpr ⟨d, listed, made, rfl⟩,
      (exists_shippedFor_iff plain _).mpr own⟩
  · rintro named op ⟨made, own⟩
    obtain ⟨d, listed, both, rfl⟩ := (exists_madeUpFor_iff plain op).mp made
    obtain ⟨chosen, moves⟩ := Bool.and_eq_true _ _ ▸ both
    obtain ⟨executed, open_⟩ := Bool.and_eq_true _ _ ▸ chosen
    have covered := named d listed executed moves ((exists_shippedFor_iff plain _).mp own)
    rw [List.contains_iff_mem.mpr covered] at open_
    exact absurd open_ (by decide)

/-! ## Slot-bound rows -/

/-- No parent in the column, and a place in the slot. -/
def SlotBound (row : SubTransferRow) : Prop :=
  filled row.originalOpId = none ∧ (filled row.slotAndAscIndex).isSome = true

def StartsWithOperation (hash : String) : Prop := ∃ (op : OperationId) (rest : String), hash =
    op.text ++ "_" ++ rest

/-- What the archive's conventions ask of the transfer of a row: a slot-bound one is a reward of no
operation, one whose hash is `<op>_<n>` belongs to `op`. -/
structure Classified (row : SubTransferRow) (t : StoredTransfer) : Prop where
  bound : SlotBound row → ¬ StartsWithOperation row.hash → t.origin = .blockReward ∧ t.operationId = none
  driven : ∀ (op : OperationId) (n : Nat), row.hash = op.text ++ "_" ++ toString n →
    t.operationId = some op.text

/-- **An executed row is filed by these conventions exactly when it is not slot-bound with a `_` in
a hash that begins with no operation.** -/
theorem classified_iff (plain : NoUnderscore) {row : SubTransferRow} {n : UInt32} {t : StoredTransfer}
    (made : legacySubTransferToTransfer row slot blockId n ts = some t) :
    Classified row t ↔
      (SlotBound row → isSubTransferHash row.hash = true → StartsWithOperation row.hash) := by
  have decoded := decodedFrom_of_made made
  constructor
  · intro classified bound sub
    by_contra other
    obtain ⟨parent, found⟩ := Option.isSome_iff_exists.mp (parentOpFromHash_isSome sub)
    have none_ := (classified.bound bound other).2
    rw [decoded.operation, found] at none_
    exact absurd none_ (by simp)
  · intro starts
    refine ⟨fun bound other => ?_, fun op m own => ?_⟩
    · have plainHash : parentOpFromHash row.hash = none := by
        rw [parentOpFromHash, if_neg fun sub => other (starts bound sub)]
      have nobody : (parentOpFromHash row.hash).or (filled row.originalOpId) = none := by
        rw [plainHash, bound.1]
        rfl
      refine ⟨?_, decoded.operation.trans nobody⟩
      rw [decoded.origin, nobody]
      unfold subTransferOrigin
      rw [if_neg (by simp), if_pos bound.2]
    · rw [decoded.operation, own, parentOpFromHash_text plain]
      rfl

end Rows

/-! ### Blank columns -/

section Blank

attribute [local instance] Bs58Check.doubleSha

theorem noUnderscore_doubleSha : NoUnderscore := by
  intro bytes member
  have spelled : '_' ∈ (Base58.encodeCheck Base58.doubleSha bytes).toList := member
  unfold Base58.encodeCheck Base58.encode at spelled
  rw [String.toList_ofList] at spelled
  obtain ⟨d, -, same⟩ := List.mem_map.mp spelled
  have listed : Base58.charOf d ∈ Base58.alphabet := by
    unfold Base58.charOf
    rw [List.getD_eq_getElem?_getD]
    cases found : Base58.alphabet[d]? with
    | none => decide
    | some ch => exact List.mem_of_getElem? found
  rw [same] at listed
  exact absurd listed (by decide)

/-- A coin transfer with a row of its own whose column is blank. -/
def blankColumn : ArchivedSlot where
  blockHash := blockNo 1
  block := some { bareBlock (blockNo 1) ⟨10, 0⟩ [] with operationIds := [transferId] }
  endorsements := []
  ops := [⟨coinTransfer, true⟩]
  items :=
    [{ hash := some (transferId.text ++ "_0")
       status := some 1
       originalOperationId := some ""
       amount := some 7 }]

theorem text_ownRow : transferId.text ++ "_0" = transferId.text ++ "_" ++ "0" := by
  rw [String.append_assoc, show "_0" = "_" ++ "0" from rfl]

theorem parent_of_ownRow : parentOpFromHash (transferId.text ++ "_0") = some transferId.text := by
  rw [text_ownRow]
  exact parentOpFromHash_text noUnderscore_doubleSha transferId "0"

/-- Both `<op>:0` and `<op>_0` are shipped. -/
theorem blank_column_counts_twice : ¬ CountedOnce (fetchSlot ⟨10, 0⟩ blankColumn 0) := by
  intro once
  have sub : isSubTransferHash (transferId.text ++ "_0") = true := by simp [isSubTransferHash]
  have covered : coveredOpIdsFromRows blankColumn.items = [] := by
    simp [coveredOpIdsFromRows, blankColumn, filled]
  have moved : movedHashes blankColumn.items = [transferId.text ++ "_0"] := by
    simp [movedHashes, movedHash, blankColumn, Option.filter, sub]
  have made : madeUp blankColumn ⟨coinTransfer, true⟩ = true := by
    rw [madeUp, synthesises, covered]
    rfl
  refine once transferId ⟨?_, ?_⟩
  · exact (exists_madeUpFor_iff noUnderscore_doubleSha transferId).mpr
      ⟨⟨coinTransfer, true⟩, List.mem_cons_self, made, rfl⟩
  · exact (exists_shippedFor_iff noUnderscore_doubleSha transferId).mpr
      ⟨transferId.text ++ "_0", moved ▸ List.mem_cons_self, parent_of_ownRow⟩

/-- The same slot with the column filled. -/
def filledColumn : ArchivedSlot :=
  { blankColumn with
    items := [{ hash := some (transferId.text ++ "_0"), status := some 1,
                originalOperationId := some transferId.text, amount := some 7 }] }

theorem filled_column_counts_once : CountedOnce (fetchSlot ⟨10, 0⟩ filledColumn 0) := by
  refine (counted_once_iff noUnderscore_doubleSha ⟨10, 0⟩ filledColumn 0).mpr fun d listed _ _ _ => ?_
  obtain rfl := List.mem_singleton.mp listed
  have sub : isSubTransferHash (transferId.text ++ "_0") = true := by simp [isSubTransferHash]
  have text : transferId.text ≠ "0" := by
    intro same
    have first := congrArg (fun s => s.toList.head?) same
    simp [FamilyId.text] at first
  simp [coveredOpIdsFromRows, filledColumn, filled, sub, text, coinTransfer, executedOp]

/-- A block reward: bound to the slot, of no operation, its hash in the shape of the archive's. -/
def rewardRow : SubTransferRow where
  hash := "REWARD_block_0"
  status := 1
  originalOpId := some "0"
  slotAndAscIndex := some "10_0_0"
  creatorAddress := ""
  otherAddress := some "AU"
  amountNmas := 7

/-- The reward is filed under the operation "REWARD". -/
theorem reward_filed_under_operation : ∃ t,
    legacySubTransferToTransfer rewardRow ⟨10, 0⟩ none 0 0 = some t ∧
      t.operationId = some "REWARD" ∧ t.origin = .abiTransferCoins ∧ ¬ Classified rewardRow t := by
  refine ⟨_, rfl, by decide, by decide, fun classified => ?_⟩
  have other : ¬ StartsWithOperation rewardRow.hash := by
    rintro ⟨op, rest, same⟩
    have first := congrArg (fun s => s.toList.head?) same
    simp [FamilyId.text, rewardRow] at first
  exact absurd (classified.bound ⟨by decide, by decide⟩ other).2 (by decide)

/-- A movement of a call, the columns blank. -/
def movementRow : SubTransferRow :=
  { rewardRow with hash := transferId.text ++ "_0", slotAndAscIndex := none }

theorem movement_classified : ∃ t,
    legacySubTransferToTransfer movementRow ⟨10, 0⟩ none 0 0 = some t ∧ Classified movementRow t :=
  ⟨_, rfl, (classified_iff noUnderscore_doubleSha rfl).mpr fun _ _ => ⟨transferId, "0", text_ownRow⟩⟩

end Blank

end MassaIndexer.Laws.LegacyAttribution
