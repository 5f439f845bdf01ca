/-
# Chain.Snapshot -- chains and stores given by finite tables

A table of slots and ids, sorted within each thread, is a real chain once two facts that can be
decided are checked. A store can be written down as the rows and blocks it holds, a peer's answer as
the verdict and body it ships, and a frame as its verdict. With these a situation of the writer is a
few short lists.
-/
import MassaIndexer.Chain.RealChain
import MassaIndexer.Chain.Refinement

namespace MassaIndexer.Chain

open MassaIndexer.Theory.Runs
open MassaIndexer.Data.Ids MassaIndexer.Data.Model MassaIndexer.Data.Proto MassaIndexer.Data.Codec
open MassaIndexer.Store.ColumnFamilies MassaIndexer.Writer.Shared MassaIndexer.Writer.Step
open MassaIndexer.Writer MassaIndexer.Writer.NodeProto MassaIndexer.Writer.NodeDecode
open MassaIndexer.Writer.Handlers
open MassaIndexer.Peer.Arbiter MassaIndexer.Peer.Patch

set_option autoImplicit false

/-! ## Chains -/

section Table

variable (table : List (Slot × BlockId))

def blockAt (s : Slot) : Option BlockId := (table.find? fun x => x.1 = s).map Prod.snd

/-- The last block of the thread before `s`, in a sorted table. -/
def lastAt (s : Slot) : Option BlockId :=
  ((table.filter fun x => x.1.thread = s.thread ∧ x.1.period < s.period).getLast?).map Prod.snd

/-- Distinct ids, and increasing periods within a thread. -/
def Sorted : Prop :=
  table.Pairwise fun x y => x.2 ≠ y.2 ∧ (x.1.thread = y.1.thread → x.1.period < y.1.period)

instance : Decidable (Sorted table) := inferInstanceAs (Decidable (List.Pairwise _ _))

variable {table}

theorem mem_of_blockAt {s : Slot} {b : BlockId} (found : blockAt table s = some b) :
    (s, b) ∈ table := by
  obtain ⟨x, first, rfl⟩ := Option.map_eq_some_iff.mp found
  have here : x.1 = s := by simpa using List.find?_some first
  rw [← here]
  exact List.mem_of_find?_eq_some first

variable (sorted : Sorted table)

include sorted

theorem Sorted.slot_eq {x y : Slot × BlockId} (left : x ∈ table) (right : y ∈ table)
    (same : x.2 = y.2) : x = y := by
  have apart : (table.map Prod.snd).Nodup :=
    List.pairwise_map.mpr (sorted.imp fun h => h.1)
  exact List.inj_on_of_nodup_map apart left right same

theorem Sorted.blockAt_of_mem {s : Slot} {b : BlockId} (member : (s, b) ∈ table) :
    blockAt table s = some b := by
  obtain ⟨before, after, rfl⟩ := List.append_of_mem member
  have earlier : ∀ x ∈ before, x.1 ≠ s := by
    intro x inBefore same
    have apart := (List.pairwise_append.mp sorted).2.2 x inBefore (s, b) List.mem_cons_self
    have lt := apart.2 (by rw [same])
    rw [same] at lt
    exact UInt64.lt_irrefl _ lt
  have none : before.find? (fun x => decide (x.1 = s)) = none :=
    List.find?_eq_none.mpr fun x inBefore => by simpa using earlier x inBefore
  simp [blockAt, List.find?_append, none]

/-- The last entry of the thread below `s` is the last block before it. -/
theorem Sorted.lastAt_eq_some_iff {s : Slot} {z : BlockId} :
    lastAt table s = some z ↔ LastBefore (blockAt table) s z := by
  have below : ∀ x, x ∈ table.filter (fun x => decide (x.1.thread = s.thread ∧ x.1.period < s.period)) ↔
      x ∈ table ∧ x.1.thread = s.thread ∧ x.1.period < s.period := by
    intro x
    simp [List.mem_filter]
  have rising : (table.filter fun x => decide (x.1.thread = s.thread ∧ x.1.period < s.period)).Pairwise
      fun x y => x.1.period < y.1.period := by
    refine (sorted.filter _).imp_of_mem fun {x y} left right apart => ?_
    exact apart.2 (((below x).mp left).2.1.trans ((below y).mp right).2.1.symm)
  constructor
  · intro last
    obtain ⟨⟨t, b⟩, tail, rfl⟩ := Option.map_eq_some_iff.mp last
    obtain ⟨member, thread, lt⟩ := (below _).mp (List.mem_of_getLast? tail)
    obtain ⟨init, whole⟩ := List.getLast?_eq_some_iff.mp tail
    refine ⟨t.period, lt, ?_, fun q above lt' => ?_⟩
    · have here : (⟨t.period, s.thread⟩ : Slot) = t := by rw [← thread]
      rw [here]
      exact sorted.blockAt_of_mem member
    · cases found : blockAt table ⟨q, s.thread⟩ with
      | none => rfl
      | some c =>
          exfalso
          have inside := (below _).mpr ⟨mem_of_blockAt found, rfl, lt'⟩
          rw [whole] at inside rising
          rcases List.mem_append.mp inside with early | final
          · have := (List.pairwise_append.mp rising).2.2 _ early _ List.mem_cons_self
            exact UInt64.lt_irrefl _ (UInt64.lt_trans above this)
          · rw [List.mem_singleton] at final
            obtain rfl : q = t.period := congrArg (fun x => x.1.period) final
            exact UInt64.lt_irrefl _ above
  · rintro ⟨p, lt, found, gap⟩
    have inside := (below _).mpr ⟨mem_of_blockAt found, rfl, lt⟩
    obtain ⟨before, after, whole⟩ := List.append_of_mem inside
    have ends : after = [] := by
      refine List.eq_nil_iff_forall_not_mem.mpr fun x late => ?_
      rw [whole] at rising
      have above := (List.pairwise_cons.mp (List.pairwise_append.mp rising).2.1).1 x late
      obtain ⟨member, thread, lt'⟩ := (below x).mp (by rw [whole]; simp [late])
      have hit := sorted.blockAt_of_mem (s := x.1) (b := x.2) member
      have here : (⟨x.1.period, s.thread⟩ : Slot) = x.1 := by rw [← thread]
      rw [← here, gap x.1.period above lt'] at hit
      exact absurd hit (by simp)
    rw [lastAt, whole, ends, List.getLast?_concat]
    rfl

end Table

/-- The chain of a sorted table. -/
def RealChain.ofTable (table : List (Slot × BlockId)) (parents : BlockId → List BlockId)
    (sorted : Sorted table)
    (real : ∀ x ∈ table, ∀ q ∈ parents x.2, q ∈ table.map Prod.snd)
    (own : ∀ x ∈ table, (parents x.2)[x.1.thread.toNat]? = lastAt table x.1) : RealChain where
  block := blockAt table
  parents := parents
  slot_unique s t b left right :=
    congrArg Prod.fst (sorted.slot_eq (mem_of_blockAt left) (mem_of_blockAt right) rfl)
  parents_real s b found q parent := by
    obtain ⟨⟨t, c⟩, member, rfl⟩ := List.mem_map.mp (real _ (mem_of_blockAt found) q parent)
    exact ⟨t, sorted.blockAt_of_mem member⟩
  parent_own_thread s b found z := by
    rw [own _ (mem_of_blockAt found), sorted.lastAt_eq_some_iff]

/-! ## Stores -/

/-- An id for each number. -/
def blockNo (n : UInt8) : BlockId := ⟨List.replicate idKeyLen n, by simp⟩

/-- A FINAL row with nothing but its verdict. -/
def settledRow (s : Slot) : Verdict → SlotState
  | .miss => { SlotState.fresh s 0 with status := .final, isMiss := true }
  | .block b => { SlotState.fresh s 0 with status := .final, finalBlockId := some b }

/-- A block without operations, endorsements or denunciations. -/
def bareBlock (id : BlockId) (s : Slot) (parents : List BlockId) : StoredBlock where
  id := id
  slot := s
  creator := ⟨List.replicate addrKeyLen 0, by simp⟩
  parents := parents
  operationIds := []
  endorsements := []
  endorsementIds := []
  denunciations := []
  currentVersion := 0
  announcedVersion := none
  operationsHash := ""
  signature := ""
  contentCreatorPubKey := ""
  serializedSize := 0
  rawSignedHeader := []
  status := .seenCandidate
  firstSeenTsMs := 0

def storeOf (rows : List SlotState) (blocks : List StoredBlock) : Db :=
  blocks.foldl Db.writeBlock (rows.foldl Db.writeSlot Db.empty)

theorem readSlot_foldl_writeBlock (db : Db) (blocks : List StoredBlock) (s : Slot) :
    (blocks.foldl Db.writeBlock db).readSlot s = db.readSlot s :=
  foldl_view (Db.readSlot · s)
    (fun db b _ => show (db.writeBlock b).readSlot s = db.readSlot s from rfl) db

theorem readBlock_foldl_writeSlot (db : Db) (rows : List SlotState) (b : BlockId) :
    (rows.foldl Db.writeSlot db).readBlock b = db.readBlock b :=
  foldl_view (Db.readBlock · b)
    (fun db r _ => show (db.writeSlot r).readBlock b = db.readBlock b from rfl) db

theorem mem_of_readSlot_foldl {rows : List SlotState} {db : Db} {s : Slot} {row : SlotState}
    (found : (rows.foldl Db.writeSlot db).readSlot s = some row) :
    (∃ r ∈ rows, r.slot = s ∧ row = readBackSlotState r) ∨ db.readSlot s = some row := by
  induction rows generalizing db with
  | nil => exact .inr found
  | cons r rest ih =>
      rcases ih found with ⟨r', member, here⟩ | before
      · exact .inl ⟨r', List.mem_cons_of_mem r member, here⟩
      · rw [Db.readSlot_writeSlot] at before
        split at before
        · next here => exact .inl ⟨r, List.mem_cons_self, here, (Option.some.inj before).symm⟩
        · exact .inr before

theorem mem_of_readBlock_foldl {blocks : List StoredBlock} {db : Db} {b : BlockId}
    {block : StoredBlock} (found : (blocks.foldl Db.writeBlock db).readBlock b = some block) :
    (block ∈ blocks ∧ block.id = b) ∨ db.readBlock b = some block := by
  induction blocks generalizing db with
  | nil => exact .inr found
  | cons c rest ih =>
      rcases ih found with ⟨member, here⟩ | before
      · exact .inl ⟨List.mem_cons_of_mem c member, here⟩
      · rw [Db.readBlock_writeBlock] at before
        split at before
        · next here =>
            obtain rfl := Option.some.inj before
            exact .inl ⟨List.mem_cons_self, here⟩
        · exact .inr before

theorem reg_storeOf {rows : List SlotState} {blocks : List StoredBlock} {s : Slot}
    (open_ : ((ledgerOf (storeOf rows blocks)).reg s).status ≠ .unknown) :
    ∃ r ∈ rows, r.slot = s ∧
      (ledgerOf (storeOf rows blocks)).reg s = registerOf (readBackSlotState r) := by
  cases found : (storeOf rows blocks).readSlot s with
  | none => exact absurd (by simp [ledgerOf, found, Register.blank]) open_
  | some row =>
      have found' := found
      rw [storeOf, readSlot_foldl_writeBlock] at found'
      rcases mem_of_readSlot_foldl found' with ⟨r, member, here, rfl⟩ | before
      · exact ⟨r, member, here, (registerOf_of_readSlot found).symm⟩
      · simp [Db.empty, Db.readSlot] at before

theorem body_storeOf {rows : List SlotState} {blocks : List StoredBlock} {b : BlockId} {body : Body}
    (held : (ledgerOf (storeOf rows blocks)).body b = some body) :
    ∃ block ∈ blocks, block.id = b ∧ body = bodyOf block := by
  obtain ⟨block, found, rfl⟩ := Option.map_eq_some_iff.mp held
  rcases mem_of_readBlock_foldl found with ⟨member, here⟩ | before
  · exact ⟨block, member, here, rfl⟩
  · rw [readBlock_foldl_writeSlot] at before
    simp [Db.empty, Db.readBlock] at before

/-- The registers of a store are settled as the chain says where the rows it is made of are. -/
theorem settles_storeOf {chain : RealChain} {rows : List SlotState} {blocks : List StoredBlock}
    {P : Slot → Prop}
    (settled : ∀ r ∈ rows, P r.slot → r.status = .final → chain.Settles r.slot (registerOf r))
    (s : Slot) (inside : P s) (final : ((ledgerOf (storeOf rows blocks)).reg s).status = .final) :
    chain.Settles s ((ledgerOf (storeOf rows blocks)).reg s) := by
  obtain ⟨r, member, rfl, here⟩ := reg_storeOf (s := s) (by rw [final]; decide)
  rw [here] at final ⊢
  exact settled r member inside final

section Agreement

variable {table : List (Slot × BlockId)} {parents : BlockId → List BlockId}
  {sorted : Sorted table} {real : ∀ x ∈ table, ∀ q ∈ parents x.2, q ∈ table.map Prod.snd}
  {own : ∀ x ∈ table, (parents x.2)[x.1.thread.toNat]? = lastAt table x.1}
  {rows : List SlotState} {blocks : List StoredBlock}

theorem bodies_storeOf
    (bodies : ∀ block ∈ blocks, ∀ x ∈ table, x.2 = block.id →
      bodyOf block = ⟨x.1, parents block.id⟩) :
    (RealChain.ofTable table parents sorted real own).Bodies (ledgerOf (storeOf rows blocks)) := by
  intro s b body atSlot held
  obtain ⟨block, member, rfl, rfl⟩ := body_storeOf held
  exact bodies block member _ (mem_of_blockAt atSlot) rfl

/-- A store agrees with the chain of a table when each row and each block it is made of does. -/
theorem agrees_storeOf
    (settled : ∀ r ∈ rows, r.status = .final →
      (RealChain.ofTable table parents sorted real own).Settles r.slot (registerOf r))
    (bodies : ∀ block ∈ blocks, ∀ x ∈ table, x.2 = block.id →
      bodyOf block = ⟨x.1, parents block.id⟩) :
    (RealChain.ofTable table parents sorted real own).Agrees (ledgerOf (storeOf rows blocks)) :=
  ⟨fun s => settles_storeOf (P := fun _ => True) (fun r member _ => settled r member) s trivial,
    bodies_storeOf bodies⟩

end Agreement

/-! ## Answers and frames -/

/-- A digest for runs without denunciations. -/
@[reducible] def noDenunciations : DenunciationDigest where
  hash _ := List.replicate 32 0
  width _ := List.length_replicate

section Answers

variable [Bs58Check]

/-- A peer's answer with a verdict and a body, and nothing else. -/
def answerOf (s : Slot) (v : Verdict) (body : Option StoredBlock) : FinalSlotResponse where
  period := s.period
  thread := s.thread.toUInt32
  finalKnown := true
  isMiss := v = .miss
  block := body.map blockToPeerPb
  finalBlockId := match v with
    | .miss => ""
    | .block b => b.text

@[simp] theorem slotOf_answerOf (s : Slot) (v : Verdict) (body : Option StoredBlock) :
    slotOf (answerOf s v body) = some s := by
  simp [slotOf, answerOf, Except.toOption]

@[simp] theorem ofPeer_answerOf (s : Slot) (v : Verdict) (body : Option StoredBlock) :
    Verdict.ofPeer (answerOf s v body) (parseFinalBlockId (answerOf s v body)) = some v := by
  cases v with
  | miss => simp [Verdict.ofPeer, answerOf]
  | block b =>
      have named : b.text.isEmpty = false := by simp [String.isEmpty_eq_false_iff]
      simp [Verdict.ofPeer, answerOf, parseFinalBlockId, named, BlockId.parse, Except.toOption]

@[simp] theorem shippedBlock_answerOf (s : Slot) (v : Verdict) (body : Option StoredBlock) :
    shippedBlock (answerOf s v body) = body := by
  cases body with
  | none => rfl
  | some b => simp [shippedBlock, answerOf, Except.toOption]

/-- The same as an offer. -/
def answerOffer (s : Slot) (v : Verdict) (body : Option StoredBlock) : Offer where
  slot := s
  isMiss := v = .miss
  block := match v with
    | .miss => none
    | .block b => some b
  trail := none
  shipped := body.map shipmentOf
  settlesExec := false
  settlesTransfers := false

theorem offerAt_answerOf (s : Slot) (v : Verdict) (body : Option StoredBlock) :
    offerAt s (answerOf s v body) = answerOffer s v body := by
  have block : parseFinalBlockId (answerOf s v body) = (answerOffer s v body).block := by
    cases v with
    | miss => simp [parseFinalBlockId, answerOf, answerOffer]
    | block b =>
        have named : b.text.isEmpty = false := by simp [String.isEmpty_eq_false_iff]
        simp [parseFinalBlockId, answerOf, answerOffer, named, BlockId.parse, Except.toOption]
  have shipped : (shippedBlock (answerOf s v body)).map shipmentOf = body.map shipmentOf := by simp
  simp only [offerAt, block, shipped]
  rfl

theorem parseFinalBlockId_answerOf (s : Slot) (b : BlockId) (body : Option StoredBlock) :
    parseFinalBlockId (answerOf s (.block b) body) = some b :=
  congrArg Offer.block (offerAt_answerOf s (.block b) body)

variable [DenunciationDigest]

theorem ledgerOf_applyPeerPatch_answerOf (db : Db) (s : Slot) (v : Verdict)
    (body : Option StoredBlock) (nowMs : Int) :
    ledgerOf (applyPeerPatch db (answerOf s v body) nowMs).1 =
      (ledgerOf db).peerOffer (answerOffer s v body) := by
  rw [ledgerOf_applyPeerPatch (slotOf_answerOf s v body) rfl, offerAt_answerOf]
  rfl

theorem ledgerOf_step_peerPatch (db : Db) (s : Slot) (v : Verdict) (body : Option StoredBlock)
    (nowMs : Int) : ledgerOf (step db ⟨.peerPatch (answerOf s v body), nowMs⟩) =
      (ledgerOf db).peerOffer (answerOffer s v body) :=
  ledgerOf_applyPeerPatch_answerOf db s v body nowMs

theorem ledgerOf_step_legacyPatch (db : Db) (s : Slot) (v : Verdict) (body : Option StoredBlock)
    (nowMs : Int) : ledgerOf (step db ⟨.legacyPatch (answerOf s v body), nowMs⟩) =
      (ledgerOf db).legacyOffer (answerOffer s v body) := by
  change ledgerOf (applyLegacyPatch db (answerOf s v body) nowMs).1 = _
  rw [ledgerOf_applyLegacyPatch (slotOf_answerOf s v body) rfl, offerAt_answerOf]
  rfl

/-- A FINAL frame with a verdict, and nothing else. -/
def frameOf (s : Slot) (v : Verdict) : SlotExecutionOutput where
  status := 2
  executionOutput := some
    { slot := some ⟨s.period, s.thread.toUInt32⟩
      blockId := match v with
        | .miss => none
        | .block b => some b.text }

omit [DenunciationDigest] in
theorem execAct_frameOf (s : Slot) (v : Verdict) :
    execAct (frameOf s v) = .final s (answerOffer s v none).isMiss (answerOffer s v none).block none := by
  have same : NodeDecode.slotFromPb ⟨s.period, s.thread.toUInt32⟩ = s := by
    simp [NodeDecode.slotFromPb]
  cases v with
  | miss => simp [execAct, frameOf, execFrame, same, frameBlock, frameTrail, answerOffer]
  | block b =>
      simp [execAct, frameOf, execFrame, same, frameBlock, frameTrail, answerOffer, BlockId.parse,
        Except.toOption]

theorem ledgerOf_step_exec (db : Db) (s : Slot) (v : Verdict) (nowMs : Int) :
    ledgerOf (step db ⟨.exec (frameOf s v), nowMs⟩) =
      (ledgerOf db).step
        (.final s (answerOffer s v none).isMiss (answerOffer s v none).block none) := by
  change ledgerOf (handleExec db (frameOf s v) nowMs).db = _
  rw [ledgerOf_handleExec, execAct_frameOf]

/-- A store that came about by answers alone. -/
def ingestAnswers (answers : List (Slot × Verdict × Option StoredBlock)) : Db :=
  ingest (answers.map fun x => ⟨.peerPatch (answerOf x.1 x.2.1 x.2.2), 0⟩)

theorem ledgerOf_ingestAnswers (answers : List (Slot × Verdict × Option StoredBlock)) :
    ledgerOf (ingestAnswers answers) =
      answers.foldl (fun L x => L.peerOffer (answerOffer x.1 x.2.1 x.2.2)) Ledger.blank := by
  rw [ingestAnswers, ingest, run, List.foldl_map, ← ledgerOf_empty]
  generalize Db.empty = db
  induction answers generalizing db with
  | nil => rfl
  | cons x answers ih =>
      rw [List.foldl_cons, List.foldl_cons, ih, ledgerOf_step_peerPatch]

end Answers

end MassaIndexer.Chain
