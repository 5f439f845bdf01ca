/-
# Laws.ArchiveCompleteness -- what a lookup in the archive may lose

The paged query of a lookup is whole: it follows every key until there is none (`listSlotRows_eq`), so every
sub-transfer that moved coins is in the answer. The batches are not. DynamoDB may leave keys of a batch
unprocessed; it names them in its answer, the client parses the names, and nothing reads them again. The
answer of the lookup then lacks those operations and is an answer all the same, with the body of the block:
no later pass asks for the slot again.

`archive_fetch_iff` says exactly when an answer is whole: when every operation of the block that the archive
holds and that decodes was processed by a batch that asked for it.
-/
import MassaIndexer.Laws.LegacyDecoders
import MassaIndexer.Repair.ArchiveFetch
import MassaIndexer.Repair.Numbering

namespace MassaIndexer.Laws.ArchiveCompleteness

open MassaIndexer.Theory.ByteText
open MassaIndexer.Data.Ids MassaIndexer.Data.Model MassaIndexer.Data.Proto MassaIndexer.Data.Codec
open MassaIndexer.Data.Storage hiding BlockRow
open MassaIndexer.Data.RowCodec MassaIndexer.Writer.NodeProto MassaIndexer.Writer.BodyMoves
open MassaIndexer.Repair.Producers hiding fetchSlot
open MassaIndexer.Repair.Numbering MassaIndexer.Repair.ArchiveFetch
open MassaIndexer.Repair.LegacyDecode hiding DecodedOp
open MassaIndexer.Laws.BlockAtomicity MassaIndexer.Laws.RepairAdditive MassaIndexer.Laws.LegacyDecoders

set_option autoImplicit false

/-! ## Chunks -/

theorem flatten_chunks {α : Type} (size : Nat) (xs : List α) : (chunks size xs).flatten = xs := by
  induction xs using chunks.induct size with
  | case1 => rw [chunks, List.flatten_nil]
  | case2 x xs later =>
      rw [chunks, List.flatten_cons, later, List.cons_append, List.take_append_drop]

@[simp] theorem chunks_singleton {α : Type} (size : Nat) (x : α) : chunks size [x] = [[x]] := by
  simp [chunks]

/-! ## Pages -/

section Pages

variable {env : Dynamo}

/-- The pages of a listing make up the rows behind the key it starts from. -/
theorem listSlotRows_behind {pit : UInt32} {behind : Option PageKey → List OperationsItem}
    (paged : ∀ call start page, env.queryOperations call pit start = .ok page →
      behind start = page.items ++ page.next.elim [] fun key => behind (some key))
    {fuel call : Nat} {start : Option PageKey} {items : List OperationsItem}
    (listed : listSlotRows env pit fuel call start = some (.ok items)) : items = behind start := by
  induction fuel generalizing call start items with
  | zero => simp [listSlotRows] at listed
  | succ fuel ih =>
      rw [listSlotRows] at listed
      cases answer : env.queryOperations call pit start with
      | error message => simp [answer] at listed
      | ok page =>
          rw [paged _ _ _ answer]
          cases goesOn : page.next with
          | none =>
              simp only [answer, goesOn, Option.some.injEq, Except.ok.injEq] at listed
              simp [← listed]
          | some key =>
              simp only [answer, goesOn, Option.map_eq_some_iff] at listed
              obtain ⟨later, rest, whole⟩ := listed
              cases later with
              | error failure => simp [Except.map] at whole
              | ok more =>
                  simp only [Except.map, Except.ok.injEq] at whole
                  rw [← whole, ih rest]
                  rfl

/-- A listing that ends has every row of the slot. -/
theorem listSlotRows_eq (lawful : env.Lawful) {pit : UInt32} {calls : Nat}
    {items : List OperationsItem} (listed : listSlotRows env pit calls 0 none = some (.ok items)) :
    items = env.slotRows pit := by
  obtain ⟨behind, whole, paged⟩ := lawful.pages pit
  rw [← whole]
  exact listSlotRows_behind paged listed

/-- More calls change nothing. -/
theorem listSlotRows_more {pit : UInt32} {fuel call : Nat} {start : Option PageKey}
    {outcome : Except LegacyError (List OperationsItem)}
    (listed : listSlotRows env pit fuel call start = some outcome) :
    listSlotRows env pit (fuel + 1) call start = some outcome := by
  induction fuel generalizing call start outcome with
  | zero => simp [listSlotRows] at listed
  | succ fuel ih =>
      rw [listSlotRows] at listed ⊢
      cases answer : env.queryOperations call pit start with
      | error message => simpa [answer] using listed
      | ok page =>
          cases goesOn : page.next with
          | none => simpa [answer, goesOn] using listed
          | some key =>
              simp only [answer, goesOn, Option.map_eq_some_iff] at listed
              obtain ⟨later, rest, whole⟩ := listed
              simp only [goesOn, ih rest, Option.map_some, whole]

/-- A listing ends when every page that goes on has rows. -/
theorem listSlotRows_ends {pit : UInt32} {behind : Option PageKey → List OperationsItem}
    (paged : ∀ call start page, env.queryOperations call pit start = .ok page →
      behind start = page.items ++ page.next.elim [] fun key => behind (some key))
    (moves : ∀ call start page, env.queryOperations call pit start = .ok page →
      page.next.isSome → page.items ≠ [])
    {fuel : Nat} (call : Nat) {start : Option PageKey} (enough : (behind start).length < fuel) :
    ∃ outcome, listSlotRows env pit fuel call start = some outcome := by
  induction fuel generalizing call start with
  | zero => simp at enough
  | succ fuel ih =>
      rw [listSlotRows]
      cases answer : env.queryOperations call pit start with
      | error message => exact ⟨_, rfl⟩
      | ok page =>
          cases goesOn : page.next with
          | none => exact ⟨.ok page.items, by simp only [goesOn]⟩
          | some key =>
              have rows := List.length_pos_iff.mpr (moves _ _ _ answer (by rw [goesOn]; rfl))
              have split := congrArg List.length (paged _ _ _ answer)
              rw [goesOn, Option.elim_some, List.length_append] at split
              have less : (behind (some key)).length < fuel := by omega
              obtain ⟨outcome, listed⟩ := ih (call + 1) less
              exact ⟨outcome.map (page.items ++ ·), by simp only [goesOn, listed, Option.map_some]⟩

end Pages

/-! ## Rows of batches -/

theorem bind_eq_ok {ε α β : Type} {x : Except ε α} {f : α → Except ε β} {b : β} :
    (x >>= f) = .ok b ↔ ∃ a, x = .ok a ∧ f a = .ok b := by
  cases x with
  | error failure => simp [bind, Except.bind]
  | ok a => simp [bind, Except.bind]

theorem mapError_eq_ok {ε ε' α : Type} {x : Except ε α} {f : ε → ε'} {a : α} :
    x.mapError f = .ok a ↔ x = .ok a := by
  cases x <;> simp [Except.mapError]

theorem toOption_eq_some {ε α : Type} {x : Except ε α} {a : α} :
    x.toOption = some a ↔ x = .ok a := by
  cases x <;> simp [Except.toOption]

section Batches

variable [Bs58Check] [Wrappers] {env : Dynamo} {found : FoundBlock} {slot : Slot} {nowMs : Int}

/-- A decoded operation has the id its row is filed under, and a body that reads back. -/
theorem decodeOpRow_row {row : OpRow} {d : Repair.LegacyDecode.DecodedOp}
    (decoded : decodeOpRow row nowMs = .ok d) :
    d.stored.id.text = row.hash ∧ ∃ body, d.stored.rawSignedOpB64 = Base64.encode body := by
  unfold decodeOpRow at decoded
  obtain ⟨wrapper, -, decoded⟩ := bind_eq_ok.mp decoded
  obtain ⟨signed, -, decoded⟩ := bind_eq_ok.mp decoded
  obtain ⟨content, -, decoded⟩ := bind_eq_ok.mp decoded
  obtain ⟨opId, parsed, decoded⟩ := bind_eq_ok.mp decoded
  obtain ⟨blockId, -, decoded⟩ := bind_eq_ok.mp decoded
  obtain ⟨creator, -, decoded⟩ := bind_eq_ok.mp decoded
  obtain rfl := Except.ok.inj decoded
  exact ⟨FamilyId.text_of_parse (mapError_eq_ok.mp parsed), _, rfl⟩

theorem decodeBlockRow_id {row : BlockRow}
    {decoded : Data.Storage.BlockRow × List String × List SeenEndorsement}
    (parsed : decodeBlockRow row nowMs = .ok decoded) : decoded.1.id.text = row.hash := by
  obtain ⟨wrapper, -, parsed⟩ := bind_eq_ok.mp parsed
  obtain ⟨block, -, parsed⟩ := bind_eq_ok.mp parsed
  obtain ⟨hdr, -, parsed⟩ := bind_eq_ok.mp parsed
  obtain ⟨blockHdr, -, parsed⟩ := bind_eq_ok.mp parsed
  obtain ⟨blockId, named, parsed⟩ := bind_eq_ok.mp parsed
  obtain ⟨creator, -, parsed⟩ := bind_eq_ok.mp parsed
  obtain rfl := Except.ok.inj parsed
  exact FamilyId.text_of_parse (mapError_eq_ok.mp named)

theorem decodedRow_row {row : OperationsRow} {d : Repair.LegacyDecode.DecodedOp}
    (decoded : decodedRow found slot nowMs row = some d) : row.hash = some d.stored.id.text := by
  obtain ⟨hash, named, decoded⟩ := Option.bind_eq_some_iff.mp decoded
  obtain ⟨raw, -, decoded⟩ := Option.bind_eq_some_iff.mp decoded
  rw [named, (decodeOpRow_row (toOption_eq_some.mp decoded)).1]

/-- What decodes is carried with its body. -/
theorem carried_of_decodedRow {row : OperationsRow} {d : Repair.LegacyDecode.DecodedOp}
    (decoded : decodedRow found slot nowMs row = some d) :
    ∃ raw, carried d = some ⟨d.stored.withBody raw, d.executed⟩ := by
  obtain ⟨hash, -, decoded⟩ := Option.bind_eq_some_iff.mp decoded
  obtain ⟨bytes, -, decoded⟩ := Option.bind_eq_some_iff.mp decoded
  obtain ⟨-, raw, body⟩ := decodeOpRow_row (toOption_eq_some.mp decoded)
  exact ⟨raw, by rw [carried, body, rawFromB64_encode]; rfl⟩

/-- The operations of a lookup are the rows of its batches, as far as they decode. -/
theorem mem_fetchOperations {call : Nat} {asked : List (List String)}
    {ops : List Repair.LegacyDecode.DecodedOp}
    (fetched : fetchOperations env found slot nowMs call asked = .ok ops)
    (d : Repair.LegacyDecode.DecodedOp) :
    d ∈ ops ↔ ∃ i chunk answer, asked[i]? = some chunk ∧ env.batchGet (call + i) chunk = .ok answer ∧
      ∃ row ∈ answer.rows, decodedRow found slot nowMs row = some d := by
  induction asked generalizing call ops with
  | nil =>
      obtain rfl := Except.ok.inj fetched
      simp
  | cons chunk rest ih =>
      obtain ⟨answer, given, fetched⟩ := bind_eq_ok.mp fetched
      obtain ⟨later, more, fetched⟩ := bind_eq_ok.mp fetched
      obtain rfl := Except.ok.inj fetched
      rw [List.mem_append, List.mem_filterMap, ih more]
      constructor
      · rintro (here | ⟨i, chunk', answer', at', given', row⟩)
        · exact ⟨0, chunk, answer, rfl, mapError_eq_ok.mp given, here⟩
        · exact ⟨i + 1, chunk', answer', at', by rw [Nat.add_right_comm] at given'; exact given', row⟩
      · rintro ⟨i, chunk', answer', at', given', row⟩
        cases i with
        | zero =>
            obtain rfl := Option.some.inj at'
            rw [Nat.add_zero, mapError_eq_ok.mp given] at given'
            obtain rfl := Except.ok.inj given'
            exact .inl row
        | succ i => exact .inr ⟨i, chunk', answer', at', by rw [Nat.add_right_comm]; exact given', row⟩

end Batches

/-! ## Whole answers -/

section Answers

variable [Bs58Check] [Wrappers]

/-- The archive has a row for the operation, and the row decodes. -/
def Kept (env : Dynamo) (found : FoundBlock) (slot : Slot) (nowMs : Int) (hash : String)
    (d : Repair.LegacyDecode.DecodedOp) : Prop :=
  ∃ row, env.operation hash = some row ∧ decodedRow found slot nowMs row = some d

/-- A batch that asked for the operation did not leave its key. -/
def Processed (env : Dynamo) (found : FoundBlock) (hash : String) : Prop :=
  ∃ i chunk answer, (chunks 100 found.opIds)[i]? = some chunk ∧ hash ∈ chunk ∧
    env.batchGet i chunk = .ok answer ∧ hash ∉ answer.unprocessedKeys

/-- The answer has the operation, as the receiver reads it. -/
def Ships (resp : FinalSlotResponse) (hash : String) : Prop :=
  ∃ p ∈ resp.operations, ∃ o, operationFromPeerPb p = .ok o ∧ o.id.text = hash

/-- What the archive has of a slot with a block is in the answer. -/
structure Whole (env : Dynamo) (found : FoundBlock) (slot : Slot) (nowMs : Int)
    (resp : FinalSlotResponse) : Prop where
  operations : ∀ hash ∈ found.opIds, ∀ d, Kept env found slot nowMs hash d → Ships resp hash
  executed : ∀ hash ∈ found.opIds, ∀ d, Kept env found slot nowMs hash d → d.executed = true →
    hash ∈ resp.executedOpIds
  transfers : ∀ item ∈ env.slotRows (pointInTime slot.period slot.thread), ∀ hash,
    movedHash item = some hash → ∃ index t,
      legacySubTransferToTransfer (item.view hash) slot (some found.hash) index nowMs = some t ∧
        transferToPeerPb t ∈ resp.transfers

/-- The answer is that of a block, and whole. -/
def Complete (env : Dynamo) (period : UInt64) (thread : UInt8) (nowMs : Int)
    (resp : FinalSlotResponse) : Prop :=
  ∃ found, blockAt env period thread nowMs = .ok (some found) ∧
    Whole env found ⟨period, thread⟩ nowMs resp

/-- Every operation of the block that the archive has was processed. -/
def AllProcessed (env : Dynamo) (period : UInt64) (thread : UInt8) (nowMs : Int) : Prop :=
  ∀ found, blockAt env period thread nowMs = .ok (some found) → ∀ hash ∈ found.opIds, ∀ d,
    Kept env found ⟨period, thread⟩ nowMs hash d → Processed env found hash

variable {env : Dynamo} {maxPeriod : Option UInt64} {period : UInt64} {thread : UInt8} {nowMs : Int}
  {calls : Nat} {found : FoundBlock} {items : List OperationsItem} {resp : FinalSlotResponse}
  {slot : Slot} {ops : List Repair.LegacyDecode.DecodedOp}

/-- The three conversations behind an answer. -/
theorem fetchSlot_some
    (returned : fetchSlot env maxPeriod period thread nowMs calls = some (.ok (some resp))) :
    ∃ found items ops, blockAt env period thread nowMs = .ok (some found) ∧
      listSlotRows env (pointInTime period thread) calls 0 none = some (.ok items) ∧
      fetchOperations env found ⟨period, thread⟩ nowMs 0 (chunks 100 found.opIds) = .ok ops ∧
      resp = Repair.Producers.fetchSlot ⟨period, thread⟩ (archived found ops items) nowMs := by
  unfold fetchSlot at returned
  split at returned
  · cases block : blockAt env period thread nowMs with
    | error failure => simp [block] at returned
    | ok block? =>
        cases block? with
        | none => simp [block] at returned
        | some found =>
            simp only [block, Option.map_eq_some_iff] at returned
            obtain ⟨listed, rows, answered⟩ := returned
            obtain ⟨items, ended, answered⟩ := bind_eq_ok.mp answered
            obtain ⟨ops, fetched, answered⟩ := bind_eq_ok.mp answered
            obtain rfl := Option.some.inj (Except.ok.inj answered)
            exact ⟨found, items, ops, rfl, ended ▸ rows, fetched, rfl⟩
  · simp at returned

/-- The hash of a block row is the id of its block. -/
theorem blockAt_hash (block : blockAt env period thread nowMs = .ok (some found)) :
    found.row.id.text = found.hash := by
  obtain ⟨row?, -, block⟩ := bind_eq_ok.mp block
  cases row? with
  | none => cases block
  | some row =>
      obtain ⟨row', -, block⟩ := bind_eq_ok.mp block
      obtain ⟨found', read, block⟩ := bind_eq_ok.mp block
      obtain rfl := Option.some.inj (Except.ok.inj block)
      obtain ⟨hash, -, read⟩ := bind_eq_ok.mp read
      obtain ⟨creator, -, read⟩ := bind_eq_ok.mp read
      obtain ⟨raw, -, read⟩ := bind_eq_ok.mp read
      obtain ⟨pit, -, read⟩ := bind_eq_ok.mp read
      dsimp only at read
      split at read
      · cases read
      · obtain ⟨decoded, parsed, read⟩ := bind_eq_ok.mp read
        obtain rfl := Except.ok.inj read
        exact decodeBlockRow_id (mapError_eq_ok.mp parsed)

omit [Wrappers] in
/-- The operations of the answer are those the lookup decoded. -/
theorem ships_iff (carries : ∀ d ∈ ops, ∃ raw, carried d = some ⟨d.stored.withBody raw, d.executed⟩)
    (hash : String) :
    Ships (Repair.Producers.fetchSlot slot (archived found ops items) nowMs) hash ↔
      ∃ d ∈ ops, d.stored.id.text = hash := by
  constructor
  · rintro ⟨p, member, o, read, named⟩
    obtain ⟨c, carries', rfl⟩ := List.mem_map.mp member
    obtain ⟨d, listed, whole⟩ := List.mem_filterMap.mp carries'
    obtain ⟨raw, whole'⟩ := carries d listed
    obtain rfl := Option.some.inj (whole.symm.trans whole')
    rw [operationFromPeerPb_toPeerPb] at read
    obtain rfl := Except.ok.inj read
    exact ⟨d, listed, named⟩
  · rintro ⟨d, listed, named⟩
    obtain ⟨raw, whole⟩ := carries d listed
    refine ⟨_, List.mem_map_of_mem (List.mem_filterMap.mpr ⟨d, listed, whole⟩), _,
      operationFromPeerPb_toPeerPb _, named⟩

omit [Wrappers] in
theorem executed_iff (carries : ∀ d ∈ ops, ∃ raw, carried d = some ⟨d.stored.withBody raw, d.executed⟩)
    (hash : String) :
    hash ∈ (Repair.Producers.fetchSlot slot (archived found ops items) nowMs).executedOpIds ↔
      ∃ d ∈ ops, d.executed = true ∧ d.stored.id.text = hash := by
  constructor
  · intro member
    obtain ⟨c, kept, named⟩ := List.mem_map.mp member
    obtain ⟨carries', executed⟩ := List.mem_filter.mp kept
    obtain ⟨d, listed, whole⟩ := List.mem_filterMap.mp carries'
    obtain ⟨raw, whole'⟩ := carries d listed
    obtain rfl := Option.some.inj (whole.symm.trans whole')
    exact ⟨d, listed, executed, named⟩
  · rintro ⟨d, listed, executed, named⟩
    obtain ⟨raw, whole⟩ := carries d listed
    exact List.mem_map.mpr ⟨_, List.mem_filter.mpr
      ⟨List.mem_filterMap.mpr ⟨d, listed, whole⟩, executed⟩, named⟩

omit [Wrappers] in
/-- A sub-transfer row that moved coins is among the rows of the slot's transfers. -/
theorem mem_subTransferRows {blockId : Option String} {ts : Int} {item : OperationsItem}
    {hash : String} (moved : movedHash item = some hash) {items : List OperationsItem} (n : UInt32)
    (listed : item ∈ items) : ∃ index t,
      legacySubTransferToTransfer (item.view hash) slot blockId index ts = some t ∧
        t ∈ subTransferRows slot blockId ts [] items n := by
  obtain ⟨here, keeps⟩ := Option.filter_eq_some_iff.mp moved
  have sub : isSubTransferHash hash = true := (Bool.and_eq_true_iff.mp keeps).1
  induction items generalizing n with
  | nil => cases listed
  | cons first rest ih =>
      rw [subTransferRows]
      rcases List.mem_cons.mp listed with rfl | later
      · obtain ⟨still, -⟩ | ⟨-, t, made, -⟩ := subTransfer_cases item here sub slot blockId n ts
        · rw [moved] at still
          cases still
        · exact ⟨n, t, made, by simp [here, sub, made]⟩
      · cases first.hash with
        | none => exact ih n later
        | some other =>
            dsimp only
            split
            · exact ih n later
            · split
              · exact ih n later
              · obtain ⟨index, t, made, among⟩ := ih (saturatingSucc n) later
                exact ⟨index, t, made, List.mem_cons_of_mem _ among⟩

theorem carries_of_fetched
    (fetched : fetchOperations env found slot nowMs 0 (chunks 100 found.opIds) = .ok ops) :
    ∀ d ∈ ops, ∃ raw, carried d = some ⟨d.stored.withBody raw, d.executed⟩ := by
  intro d member
  obtain ⟨_, _, _, _, _, _, _, decoded⟩ := (mem_fetchOperations fetched d).mp member
  exact carried_of_decodedRow decoded

variable (lawful : env.Lawful)
  (fetched : fetchOperations env found slot nowMs 0 (chunks 100 found.opIds) = .ok ops)

include lawful fetched

/-- What was decoded was processed. -/
theorem processed_of_mem {d : Repair.LegacyDecode.DecodedOp} (listed : d ∈ ops) :
    Processed env found d.stored.id.text := by
  obtain ⟨i, chunk, answer, asked, given, row, here, decoded⟩ := (mem_fetchOperations fetched d).mp listed
  rw [Nat.zero_add] at given
  obtain ⟨hash, named, holds⟩ := lawful.requested _ _ _ given row here
  obtain rfl : hash = d.stored.id.text :=
    Option.some.inj ((lawful.keyed _ _ holds).symm.trans (decodedRow_row decoded))
  exact ⟨i, chunk, answer, asked, named, given, (lawful.answered _ _ _ given _ named _ holds).mp here⟩

/-- What was processed, and decodes, was decoded. -/
theorem mem_of_processed {hash : String} {d : Repair.LegacyDecode.DecodedOp}
    (kept : Kept env found slot nowMs hash d) (processed : Processed env found hash) : d ∈ ops := by
  obtain ⟨row, holds, decoded⟩ := kept
  obtain ⟨i, chunk, answer, asked, named, given, taken⟩ := processed
  refine (mem_fetchOperations fetched d).mpr ⟨i, chunk, answer, asked, ?_, row, ?_, decoded⟩
  · rw [Nat.zero_add]
    exact given
  · exact (lawful.answered _ _ _ given _ named _ holds).mpr taken

omit fetched

variable (returned : fetchSlot env maxPeriod period thread nowMs calls = some (.ok (some resp)))

include returned

theorem allProcessed_of_complete (complete : Complete env period thread nowMs resp) :
    AllProcessed env period thread nowMs := by
  obtain ⟨found, items, ops, block, listed, fetched, rfl⟩ := fetchSlot_some returned
  obtain ⟨found', block', whole⟩ := complete
  obtain rfl := Option.some.inj (Except.ok.inj (block.symm.trans block'))
  intro found' block' hash among d kept
  obtain rfl := Option.some.inj (Except.ok.inj (block.symm.trans block'))
  obtain ⟨d', member, rfl⟩ :=
    (ships_iff (carries_of_fetched fetched) hash).mp (whole.operations hash among d kept)
  exact processed_of_mem lawful fetched member

theorem complete_of_allProcessed (processed : AllProcessed env period thread nowMs) :
    Complete env period thread nowMs resp := by
  obtain ⟨found, items, ops, block, listed, fetched, rfl⟩ := fetchSlot_some returned
  obtain rfl := listSlotRows_eq lawful listed
  have carries := carries_of_fetched fetched
  have decoded : ∀ hash ∈ found.opIds, ∀ d, Kept env found ⟨period, thread⟩ nowMs hash d →
      d ∈ ops ∧ d.stored.id.text = hash := by
    intro hash among d kept
    refine ⟨mem_of_processed lawful fetched kept (processed found block hash among d kept), ?_⟩
    obtain ⟨row, holds, decoded⟩ := kept
    exact Option.some.inj ((decodedRow_row decoded).symm.trans (lawful.keyed _ _ holds))
  refine ⟨found, block, ?_, ?_, ?_⟩
  · intro hash among d kept
    exact (ships_iff carries hash).mpr ⟨d, decoded hash among d kept⟩
  · intro hash among d kept executed
    obtain ⟨member, named⟩ := decoded hash among d kept
    exact (executed_iff carries hash).mpr ⟨d, member, executed, named⟩
  · intro item among hash moved
    obtain ⟨index, t, made, among'⟩ := mem_subTransferRows moved _ among
    refine ⟨index, t, made, List.mem_map_of_mem (List.mem_append_right _ ?_)⟩
    rw [← blockAt_hash block] at among'
    exact among'

end Answers

/-- The answer for a slot of the archive is whole just when every operation of its block that the archive
holds was processed. -/
theorem archive_fetch_iff [Bs58Check] [Wrappers] {env : Dynamo} (lawful : env.Lawful)
    {maxPeriod : Option UInt64} {period : UInt64} {thread : UInt8} {nowMs : Int} {calls : Nat}
    {resp : FinalSlotResponse}
    (returned : fetchSlot env maxPeriod period thread nowMs calls = some (.ok (some resp))) :
    Complete env period thread nowMs resp ↔ AllProcessed env period thread nowMs :=
  ⟨allProcessed_of_complete lawful returned, complete_of_allProcessed lawful returned⟩

/-! ## A block of one operation -/

section Rows

variable [Bs58Check] [Wrappers]

theorem readBlock_eq {item : BlocksItem} {hash creator : String} {raw : Theory.KeyedTable.Bytes} {pit : UInt32}
    {period : UInt64} {thread : UInt8} {nowMs : Int} {row : Data.Storage.BlockRow} {ids : List String}
    {endorsements : List SeenEndorsement} (named : item.hash = some hash)
    (author : item.creatorAddress = some creator) (held : item.raw = some (some raw))
    (placed : item.pointInTime = .ok pit) (round : pointInTimeToSlot pit = ⟨period, thread⟩)
    (decoded : decodeBlockRow ⟨hash, raw, ⟨period, thread⟩, creator⟩ nowMs = .ok (row, ids, endorsements)) :
    readBlock item period thread nowMs = .ok ⟨hash, row, ids⟩ := by
  simp [readBlock, named, author, held, placed, itemStr, itemBytes, field, Except.mapError, bind,
    Except.bind, round, decoded, pure, Except.pure]

theorem isSome_decodedRow {row : OperationsRow} {found : FoundBlock} {raw : Theory.KeyedTable.Bytes}
    {wrapper : OperationWrapper} {signed : SignedOperation} {content : OperationInput} {id : OperationId}
    {block : BlockId} {creator : Address} (slot : Slot) (nowMs : Int) (named : row.hash = some id.text)
    (inBlock : row.blockHash = some block.text) (held : row.raw = some raw)
    (wrapped : Wrappers.operation raw = .ok wrapper) (carried : wrapper.operation = some signed)
    (inside : signed.content = some content)
    (author : Address.parse signed.contentCreatorAddress = .ok creator) :
    (decodedRow found slot nowMs row).isSome = true := by
  have parsed : OperationId.parse id.text = .ok id := FamilyId.parse_text id
  have parsedBlock : BlockId.parse block.text = .ok block := FamilyId.parse_text block
  simp [decodedRow, decodeOpRow, named, inBlock, held, wrapped, carried, inside, author, parsed, parsedBlock,
    field, Except.mapError, bind, Except.bind, Except.toOption, pure, Except.pure]

end Rows

section OneOperation

attribute [local instance] Bs58Check.doubleSha archiveOfOne

def oneBlock : BlocksItem where
  hash := some (Chain.blockNo 1).text
  creatorAddress := some someAddress.text
  raw := some (some [])
  pointInTime := .ok (pointInTime 10 0)

def oneRow : OperationsRow where
  hash := some transferId.text
  blockHash := some (Chain.blockNo 1).text
  status := some 1
  raw := some []

def oneRowAt (hash : String) : Option OperationsRow :=
  if hash = transferId.text then some oneRow else none

/-- Its batches either serve every key or leave every key. -/
def archiveOf (serves : Bool) : Dynamo where
  slotRows _ := []
  operation := oneRowAt
  queryBlocks _ := .ok [oneBlock]
  getBlock _ := .ok none
  queryOperations _ _ _ := .ok ⟨[], none⟩
  batchGet _ keys :=
    if serves then .ok ⟨some (keys.filterMap oneRowAt), []⟩ else .ok ⟨none, keys⟩

theorem batchGet_serving (call : Nat) (keys : List String) :
    (archiveOf true).batchGet call keys = .ok ⟨some (keys.filterMap oneRowAt), []⟩ := rfl

theorem batchGet_leaving (call : Nat) (keys : List String) :
    (archiveOf false).batchGet call keys = .ok ⟨none, keys⟩ := rfl

theorem operation_archiveOf (serves : Bool) : (archiveOf serves).operation = oneRowAt := by
  rw [archiveOf]

theorem queryOperations_archiveOf (serves : Bool) (call : Nat) (pit : UInt32)
    (start : Option PageKey) : (archiveOf serves).queryOperations call pit start = .ok ⟨[], none⟩ := rfl

theorem oneRowAt_hash {hash : String} {row : OperationsRow} (holds : oneRowAt hash = some row) :
    row.hash = some hash := by
  unfold oneRowAt at holds
  split at holds
  · next same =>
      rw [← Option.some.inj holds, same, oneRow]
  · cases holds

theorem lawful_archiveOf (serves : Bool) : (archiveOf serves).Lawful where
  pages pit := by
    refine ⟨fun _ => [], rfl, ?_⟩
    intro call start page answer
    rw [queryOperations_archiveOf] at answer
    obtain rfl := Except.ok.inj answer
    rfl
  answered call keys answer given hash asked row holds := by
    rw [operation_archiveOf] at holds
    cases serves with
    | false =>
        rw [batchGet_leaving] at given
        obtain rfl := Except.ok.inj given
        simp [BatchAnswer.rows, asked]
    | true =>
        rw [batchGet_serving] at given
        obtain rfl := Except.ok.inj given
        simp only [BatchAnswer.rows, Option.getD_some, List.mem_filterMap, List.not_mem_nil,
          not_false_eq_true, iff_true]
        exact ⟨hash, asked, holds⟩
  requested call keys answer given row here := by
    rw [operation_archiveOf]
    cases serves with
    | false =>
        rw [batchGet_leaving] at given
        obtain rfl := Except.ok.inj given
        cases here
    | true =>
        rw [batchGet_serving] at given
        obtain rfl := Except.ok.inj given
        simp only [BatchAnswer.rows, Option.getD_some, List.mem_filterMap] at here
        exact here
  keyed hash row holds := by
    rw [operation_archiveOf] at holds
    exact oneRowAt_hash holds

theorem decodes_oneBlock : ∃ row,
    decodeBlockRow archivedBlockRow 5 = .ok (row, [transferId.text], []) := by
  have listed : (oneOperation.operations.filterMap opIdOf).map FamilyId.text = [transferId.text] := by
    rw [oneOperation, List.filterMap_cons_some opIdOf_filledOf]
    rfl
  have decoded := decodeBlockRow_archived wellFormed_oneOperation archived_oneOperation 5
  rw [listed] at decoded
  exact ⟨_, decoded⟩

/-- The block lists its operation. -/
theorem blockAt_archiveOf (serves : Bool) : ∃ found : FoundBlock,
    blockAt (archiveOf serves) 10 0 5 = .ok (some found) ∧ found.opIds = [transferId.text] := by
  obtain ⟨row, decoded⟩ := decodes_oneBlock
  have round : pointInTimeToSlot (pointInTime 10 0) = ⟨10, 0⟩ := by decide
  have read : readBlock oneBlock 10 0 5 =
      .ok ⟨(Chain.blockNo 1).text, row, [transferId.text]⟩ := by
    have view : decodeBlockRow ⟨(Chain.blockNo 1).text, [], ⟨10, 0⟩, someAddress.text⟩ 5 =
        .ok (row, [transferId.text], []) := decoded
    exact readBlock_eq rfl rfl rfl rfl round view
  refine ⟨⟨(Chain.blockNo 1).text, row, [transferId.text]⟩, ?_, rfl⟩
  have queried : findBlockRow (archiveOf serves) (pointInTime 10 0) = .ok (some oneBlock) := rfl
  have whole : withPayload (archiveOf serves) oneBlock = .ok oneBlock := rfl
  simp [blockAt, queried, whole, read, bind, Except.bind, pure, Except.pure]

/-- A lookup with batches that leave their keys is answered. -/
theorem fetchSlot_archiveOf (serves : Bool) :
    ∃ resp, fetchSlot (archiveOf serves) none 10 0 5 1 = some (.ok (some resp)) := by
  obtain ⟨found, block, opIds⟩ := blockAt_archiveOf serves
  have listed : listSlotRows (archiveOf serves) (pointInTime 10 0) 1 0 none = some (.ok []) := by
    rw [listSlotRows, queryOperations_archiveOf]
    rfl
  have fetched : ∃ ops, fetchOperations (archiveOf serves) found ⟨10, 0⟩ 5 0 (chunks 100 found.opIds) =
      .ok ops := by
    rw [opIds, chunks_singleton]
    cases serves with
    | false =>
        rw [fetchOperations, batchGet_leaving]
        exact ⟨_, rfl⟩
    | true =>
        rw [fetchOperations, batchGet_serving]
        exact ⟨_, rfl⟩
  obtain ⟨ops, fetched⟩ := fetched
  have window : withinWindow none 10 = true := rfl
  rw [fetchSlot, if_pos window, block]
  simp only [listed, Option.map_some]
  exact ⟨_, by simp only [fetched, bind, Except.bind, pure, Except.pure]; rfl⟩

/-- The operation decodes. -/
theorem kept_archiveOf (serves : Bool) (found : FoundBlock) :
    ∃ d, Kept (archiveOf serves) found ⟨10, 0⟩ 5 transferId.text d := by
  have author : Address.parse (signedOf (some {})).contentCreatorAddress = .ok someAddress := by
    simp only [signedOf, parse_someAddress]
  have decodes : (decodedRow found ⟨10, 0⟩ 5 oneRow).isSome = true :=
    isSome_decodedRow ⟨10, 0⟩ 5 rfl rfl rfl rfl rfl rfl author
  obtain ⟨d, decoded⟩ := Option.isSome_iff_exists.mp decodes
  refine ⟨d, oneRow, ?_, decoded⟩
  rw [operation_archiveOf, oneRowAt, if_pos rfl]

/-- A batch that answers with every row. -/
theorem archive_fetch_iff_one : ∃ resp,
    fetchSlot (archiveOf true) none 10 0 5 1 = some (.ok (some resp)) ∧
      Complete (archiveOf true) 10 0 5 resp := by
  obtain ⟨resp, returned⟩ := fetchSlot_archiveOf true
  obtain ⟨found, block, opIds⟩ := blockAt_archiveOf true
  refine ⟨resp, returned, (archive_fetch_iff (lawful_archiveOf true) returned).mpr ?_⟩
  intro found' block' hash among d kept
  obtain rfl := Option.some.inj (Except.ok.inj (block.symm.trans block'))
  refine ⟨0, [transferId.text], _, by rw [opIds, chunks_singleton]; rfl, opIds ▸ among,
    batchGet_serving _ _, List.not_mem_nil⟩

/-- A batch that leaves its keys: the lookup is answered, and the operation is lost. -/
theorem left_keys_lose_operations : ∃ env : Dynamo, env.Lawful ∧ ∃ resp,
    fetchSlot env none 10 0 5 1 = some (.ok (some resp)) ∧ ¬ Complete env 10 0 5 resp := by
  obtain ⟨resp, returned⟩ := fetchSlot_archiveOf false
  obtain ⟨found, block, opIds⟩ := blockAt_archiveOf false
  refine ⟨archiveOf false, lawful_archiveOf false, resp, returned, ?_⟩
  intro complete
  obtain ⟨d, kept⟩ := kept_archiveOf false found
  have listed : transferId.text ∈ found.opIds := by
    rw [opIds]
    exact List.mem_singleton_self _
  obtain ⟨i, chunk, answer, -, asked, given, taken⟩ :=
    allProcessed_of_complete (lawful_archiveOf false) returned complete found block _ listed d kept
  rw [batchGet_leaving] at given
  obtain rfl := Except.ok.inj given
  exact taken asked

end OneOperation

end MassaIndexer.Laws.ArchiveCompleteness
