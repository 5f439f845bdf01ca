/-
# Laws.InclusionSites -- the sites of operations, and the blocks that list them

A stored block that lists an operation is meant to be among the sites of the operation's row. The node's
handler appends its block to the sites; a patch that ships a block leaves a row that has sites alone,
so that a new block is missing there unless it was recorded before. A row created by one body can also
come after another block that lists the operation. In a run whose patches are those of a truthful
indexer the sites are exact in every state exactly when no step does either (`inclusion_sites_iff`).
-/
import MassaIndexer.Laws.PatchScope
import MassaIndexer.Laws.RepairAdditive
import MassaIndexer.Writer.OperationSites

namespace MassaIndexer.Laws.InclusionSites

open MassaIndexer.Theory.Runs
open MassaIndexer.Data.Ids MassaIndexer.Data.Model MassaIndexer.Data.Proto MassaIndexer.Data.Codec
open MassaIndexer.Data.RowCodec MassaIndexer.Store.ColumnFamilies
open MassaIndexer.Writer.NodeProto MassaIndexer.Writer.Shared MassaIndexer.Writer.Handlers
open MassaIndexer.Writer.Step
open MassaIndexer.Writer.Families MassaIndexer.Writer.BlockMoves MassaIndexer.Writer.BodyMoves
open MassaIndexer.Writer.OperationSites MassaIndexer.Peer.Patch MassaIndexer.Peer.Arbiter
open MassaIndexer.Chain (blockNo bareBlock answerOf noDenunciations shippedBlock_answerOf slotOf_answerOf)
open MassaIndexer.Writer.RowMoves (rowMove readSlot_step)
open MassaIndexer.Laws.PatchScope (peer_patchAt)
open MassaIndexer.Laws.RepairAdditive (transferId coinTransfer)

set_option autoImplicit false

/-! ## Exact sites -/

/-- Every stored operation that a stored block lists has the block among its sites, once. -/
def SitesExact (db : Db) : Prop :=
  ∀ b row id op, db.readBlock b = some row → id ∈ row.operationIds → db.readOp id = some op →
    op.inclusions.count ⟨row.slot, b⟩ = 1

/-- The rows of a truthful indexer, where `slotOf` is the slot of each block: besides exact sites, an
operation has a site, and none twice. -/
structure Truthful (slotOf : BlockId → Slot) (db : Db) : Prop where
  sites : SitesExact db
  recorded : ∀ id op, db.readOp id = some op → op.inclusions ≠ [] ∧ op.inclusions.Nodup
  slots : ∀ b row, db.readBlock b = some row → row.slot = slotOf b

/-- A response made of the block row and operation rows of a truthful indexer. -/
def FromTruthful [Bs58Check] (slotOf : BlockId → Slot) (resp : FinalSlotResponse) : Prop :=
  ∃ peer, Truthful slotOf peer ∧
    (∀ block, shippedBlock resp = some block → ∃ row, peer.readBlock block.id = some row ∧
      row.slot = block.slot ∧ row.operationIds = block.operationIds) ∧
    ∀ op ∈ decodedRows resp.operations, ∃ row, peer.readOp op.id = some row ∧
      row.inclusions = op.inclusions

/-- The node's blocks are at their slots, and patches are those of truthful indexers. -/
def Honest [Bs58Check] (slotOf : BlockId → Slot) : Event → Prop
  | .block fb => ∀ head, decodeHead fb = .ok head → head.slot = slotOf head.id
  | .peerPatch resp => FromTruthful slotOf resp
  | .legacyPatch resp => FromTruthful slotOf resp
  | _ => True

/-- What a truthful store keeps in every run, without the exact sites. -/
structure Carried (slotOf : BlockId → Slot) (db : Db) : Prop where
  recorded : ∀ id sites, sitesOf db id = some sites → sites ≠ [] ∧ sites.Nodup
  slots : ∀ b s ids, listingOf db b = some (s, ids) → s = slotOf b

/-- Every block that lists an operation is among its sites. -/
def Listed (db : Db) : Prop :=
  ∀ b s ids id sites, listingOf db b = some (s, ids) → id ∈ ids → sitesOf db id = some sites →
    ⟨s, b⟩ ∈ sites

theorem carried_of_truthful {slotOf : BlockId → Slot} {db : Db} (truthful : Truthful slotOf db) :
    Carried slotOf db where
  recorded id sites here := by
    obtain ⟨op, found, rfl⟩ := Option.map_eq_some_iff.mp here
    exact truthful.recorded id op found
  slots b s ids here := by
    obtain ⟨row, found, same⟩ := Option.map_eq_some_iff.mp here
    obtain ⟨rfl, rfl⟩ := Prod.mk.inj same
    exact truthful.slots b row found

theorem listed_iff {slotOf : BlockId → Slot} {db : Db} (carried : Carried slotOf db) :
    SitesExact db ↔ Listed db := by
  constructor
  · intro exact_ b s ids id sites held member here
    obtain ⟨row, found, same⟩ := Option.map_eq_some_iff.mp held
    obtain ⟨op, read, rfl⟩ := Option.map_eq_some_iff.mp here
    obtain ⟨rfl, rfl⟩ := Prod.mk.inj same
    have once := exact_ b row id op found member read
    exact List.count_pos_iff.mp (by omega)
  · intro listed b row id op found member read
    have here : sitesOf db id = some op.inclusions := by rw [sitesOf, read]; rfl
    have held : listingOf db b = some (row.slot, row.operationIds) := by rw [listingOf, found]; rfl
    exact List.count_eq_one_of_mem (carried.recorded id _ here).2 (listed b _ _ id _ held member here)

theorem truthful_iff {slotOf : BlockId → Slot} {db : Db} :
    Truthful slotOf db ↔ Carried slotOf db ∧ Listed db := by
  constructor
  · intro truthful
    have carried := carried_of_truthful truthful
    exact ⟨carried, (listed_iff carried).mp truthful.sites⟩
  · rintro ⟨carried, listed⟩
    refine ⟨(listed_iff carried).mpr listed, fun id op read => ?_, fun b row found => ?_⟩
    · exact carried.recorded id op.inclusions (by rw [sitesOf, read]; rfl)
    · exact carried.slots b row.slot row.operationIds (by rw [listingOf, found]; rfl)

section Runs

variable [Bs58Check]

/-! ## The condition -/

/-- The body keeps sites exact. One of the node creates rows only of operations that no other stored block
lists. A shipped one, when its block is new, is already a site of the operations it lists that have a
row; and the rows it creates have every stored block that lists them among their sites. -/
def KeepsSites [DenunciationDigest] (db : Db) (nowMs : Int) : Body → Prop
  | .node head ops =>
      ∀ id, Entered db head nowMs ops id → db.readOp id = none →
        ∀ b row, db.readBlock b = some row → id ∈ row.operationIds → b = head.id
  | .shipped block rows =>
      (db.readBlock block.id = none → ∀ id ∈ block.operationIds, ∀ op, db.readOp id = some op →
        ⟨block.slot, block.id⟩ ∈ op.inclusions) ∧
      ∀ op ∈ decodedRows rows, db.readOp op.id = none →
        ∀ b row, db.readBlock b = some row → op.id ∈ row.operationIds → ⟨row.slot, b⟩ ∈ op.inclusions

def StepKeepsSites [DenunciationDigest] (db : Db) (e : Timed) : Prop :=
  ∀ body, bodyOf db e = some body → KeepsSites db e.nowMs body

/-! ## Steps -/

variable {slotOf : BlockId → Slot} {db : Db} {e : Timed}

/-- A shipped body is one of a truthful indexer. -/
theorem shipped_from_truthful (honest : Honest slotOf e.event) {block : StoredBlock}
    {rows : List StoredOperationPb} (entered : bodyOf db e = some (.shipped block rows)) :
    ∃ peer, Carried slotOf peer ∧ Listed peer ∧ listingOf peer block.id = some (listing block) ∧
      ∀ op ∈ decodedRows rows, sitesOf peer op.id = some op.inclusions := by
  rcases bodyOf_cases entered with ⟨fb, head, -, -, other⟩ | ⟨resp, block', event, shipped, -, same⟩
  · cases other
  · cases same
    have truthful : FromTruthful slotOf resp := by
      rcases event with event | event <;> rw [event] at honest <;> exact honest
    obtain ⟨peer, truthful, blocks, rows⟩ := truthful
    obtain ⟨carried, listed⟩ := truthful_iff.mp truthful
    refine ⟨peer, carried, listed, ?_, fun op member => ?_⟩
    · obtain ⟨row, found, slot, ids⟩ := blocks block shipped
      rw [listingOf, found, Option.map_some, listing, slot, ids]
      rfl
    · obtain ⟨row, found, same⟩ := rows op member
      rw [sitesOf, found, Option.map_some, same]

theorem slot_of_head (honest : Honest slotOf e.event) {head : BlockHead}
    {ops : List FilledOperation} (entered : bodyOf db e = some (.node head ops)) :
    head.slot = slotOf head.id := by
  rcases bodyOf_cases entered with ⟨fb, head', event, decoded, same⟩ | ⟨resp, block, -, -, -, other⟩
  · cases same
    rw [event] at honest
    exact honest head decoded
  · cases other

variable [DenunciationDigest]

/-- The sites after a shipped body. -/
theorem sitesOf_shipped (honest : Honest slotOf e.event) (carried : Carried slotOf db)
    {block : StoredBlock} {rows : List StoredOperationPb}
    (entered : bodyOf db e = some (.shipped block rows)) (id : OperationId) :
    sitesOf (step db e) id = (sitesOf db id).or (sitesIn rows id) := by
  obtain ⟨peer, truthful, -, -, shipped⟩ := shipped_from_truthful honest entered
  rw [sitesOf_step, entered]
  exact sitesOf_rows (fun op member => (truthful.recorded op.id _ (shipped op member)).1)
    fun sites here => (carried.recorded id sites here).1

omit [DenunciationDigest] in
/-- The sites of a row a shipped body creates are those of any shipped row of the operation. -/
theorem sitesIn_eq_some_iff (honest : Honest slotOf e.event) {block : StoredBlock}
    {rows : List StoredOperationPb} (entered : bodyOf db e = some (.shipped block rows))
    {id : OperationId} {sites : List OperationInclusion} :
    sitesIn rows id = some sites ↔ ∃ op ∈ decodedRows rows, op.id = id ∧ op.inclusions = sites := by
  obtain ⟨peer, -, -, -, shipped⟩ := shipped_from_truthful honest entered
  unfold sitesIn
  constructor
  · intro first
    obtain ⟨op, found, same⟩ := Option.map_eq_some_iff.mp first
    exact ⟨op, List.mem_of_find?_eq_some found, by simpa using List.find?_some found, same⟩
  · rintro ⟨op, member, rfl, rfl⟩
    cases found : (decodedRows rows).find? fun x => x.id = op.id with
    | none => exact absurd (List.find?_eq_none.mp found op member) (by simp)
    | some first =>
        have key : first.id = op.id := by simpa using List.find?_some found
        have other := shipped first (List.mem_of_find?_eq_some found)
        rw [key, shipped op member] at other
        exact other.symm

theorem carried_step (honest : Honest slotOf e.event) (carried : Carried slotOf db) :
    Carried slotOf (step db e) where
  recorded id sites after := by
    cases entered : bodyOf db e with
    | none =>
        rw [sitesOf_step, entered] at after
        exact carried.recorded id sites after
    | some body =>
        cases body with
        | node head ops =>
            rw [sitesOf_step, entered] at after
            by_cases here : Entered db head e.nowMs ops id
            · obtain rfl := Option.some.inj ((sitesOf_of_entered here).symm.trans after)
              refine ⟨List.ne_nil_of_mem (mem_recordSite _ _), nodup_recordSite ?_⟩
              cases before : sitesOf db id with
              | none => exact List.nodup_nil
              | some old => exact (carried.recorded id old before).2
            · exact carried.recorded id sites ((sitesOf_of_not_entered here).symm.trans after)
        | shipped block rows =>
            rw [sitesOf_shipped honest carried entered] at after
            rcases Option.or_eq_some_iff.mp after with before | ⟨-, new⟩
            · exact carried.recorded id sites before
            · obtain ⟨op, member, -, rfl⟩ := (sitesIn_eq_some_iff honest entered).mp new
              obtain ⟨peer, truthful, -, -, shipped⟩ := shipped_from_truthful honest entered
              exact truthful.recorded op.id _ (shipped op member)
  slots b s ids after := by
    rcases listing_step after with
      held | ⟨-, block, stored, rfl, same⟩ | ⟨fb, taken, event, here, rfl, -, new | ⟨old, held⟩⟩
    · exact carried.slots b s ids held
    · obtain ⟨rows, entered⟩ := body_of_stored stored
      obtain ⟨peer, truthful, -, held, -⟩ := shipped_from_truthful honest entered
      exact truthful.slots block.id s ids (held.trans (congrArg some same))
    · rw [new]
      exact slot_of_head honest (body_of_taken event here).1
    · exact carried.slots _ s old held

theorem listed_of_keeps (honest : Honest slotOf e.event) (carried : Carried slotOf db)
    (listed : Listed db) (keeps : StepKeepsSites db e) : Listed (step db e) := by
  intro b s ids id sites after member here
  rcases listing_step after with
    held | ⟨absent, block, stored, rfl, same⟩ | ⟨fb, taken, event, taken_, rfl, rfl, slot⟩
  · obtain ⟨row, found, same⟩ := Option.map_eq_some_iff.mp held
    obtain ⟨rfl, rfl⟩ := Prod.mk.inj same
    cases entered : bodyOf db e with
    | none =>
        rw [sitesOf_step, entered] at here
        exact listed b _ _ id sites held member here
    | some body =>
        cases body with
        | node head ops =>
            rw [sitesOf_step, entered] at here
            by_cases inside : Entered db head e.nowMs ops id
            · obtain rfl := Option.some.inj ((sitesOf_of_entered inside).symm.trans here)
              cases before : sitesOf db id with
              | some old => exact mem_recordSite_of_mem (listed b _ _ id old held member before)
              | none =>
                  have new := Option.map_eq_none_iff.mp before
                  obtain rfl := keeps _ entered id inside new b row found member
                  rw [carried.slots _ _ _ held, ← slot_of_head honest entered]
                  exact mem_recordSite _ _
            · exact listed b _ _ id sites held member ((sitesOf_of_not_entered inside).symm.trans here)
        | shipped block rows =>
            rw [sitesOf_shipped honest carried entered] at here
            rcases Option.or_eq_some_iff.mp here with before | ⟨before, new⟩
            · exact listed b _ _ id sites held member before
            · obtain ⟨op, inside, rfl, rfl⟩ := (sitesIn_eq_some_iff honest entered).mp new
              exact (keeps _ entered).2 op inside (Option.map_eq_none_iff.mp before) b row found member
  · obtain ⟨rows, entered⟩ := body_of_stored stored
    obtain ⟨rfl, rfl⟩ := Prod.mk.inj same
    rw [sitesOf_shipped honest carried entered] at here
    rcases Option.or_eq_some_iff.mp here with before | ⟨-, new⟩
    · obtain ⟨op, read, rfl⟩ := Option.map_eq_some_iff.mp before
      exact (keeps _ entered).1 (Option.map_eq_none_iff.mp absent) id member op read
    · obtain ⟨op, inside, rfl, rfl⟩ := (sitesIn_eq_some_iff honest entered).mp new
      obtain ⟨peer, -, peerListed, held, shipped⟩ := shipped_from_truthful honest entered
      exact peerListed _ _ _ op.id _ held member (shipped op inside)
  · obtain ⟨entered, ingested⟩ := body_of_taken event taken_
    rw [sitesOf_step, entered] at here
    obtain rfl := Option.some.inj
      ((sitesOf_of_entered (entered_of_returned ingested member)).symm.trans here)
    have same : s = taken.head.slot := by
      rcases slot with direct | ⟨old, held⟩
      · exact direct
      · exact (carried.slots _ s old held).trans (slot_of_head honest entered).symm
    rw [same]
    exact mem_recordSite _ _

theorem keeps_of_listed (honest : Honest slotOf e.event) (carried : Carried slotOf db)
    (after : Listed (step db e)) : StepKeepsSites db e := by
  have stays : ∀ {b row id}, db.readBlock b = some row → id ∈ row.operationIds →
      listingOf (step db e) b = some (row.slot, row.operationIds) := fun found member =>
    listing_stays (by rw [listingOf, found]; rfl) (List.ne_nil_of_mem member) e
  intro body entered
  cases body with
  | node head ops =>
      intro id inside absent b row found member
      have here : sitesOf (step db e) id = some [siteOfHead head] := by
        rw [sitesOf_step, entered]
        refine (sitesOf_of_entered inside).trans ?_
        rw [sitesOf, absent]
        rfl
      have site := after b _ _ id _ (stays found member) member here
      exact congrArg (·.blockId) (List.mem_singleton.mp site)
  | shipped block rows =>
      refine ⟨fun absent id member op read => ?_, fun op inside absent b row found member => ?_⟩
      · have here : sitesOf (step db e) id = some op.inclusions := by
          rw [sitesOf_shipped honest carried entered, sitesOf, read]
          rfl
        exact after block.id _ _ id _ (listing_shipped entered absent) member here
      · have here : sitesOf (step db e) op.id = some op.inclusions := by
          rw [sitesOf_shipped honest carried entered, sitesOf, absent, Option.map_none, Option.none_or]
          exact (sitesIn_eq_some_iff honest entered).mpr ⟨op, inside, rfl, rfl⟩
        exact after b _ _ op.id _ (stays found member) member here

/-- A truthful store stays truthful exactly when the step keeps its sites exact. -/
theorem truthful_step (honest : Honest slotOf e.event) (truthful : Truthful slotOf db) :
    Truthful slotOf (step db e) ↔ StepKeepsSites db e := by
  obtain ⟨carried, listed⟩ := truthful_iff.mp truthful
  rw [truthful_iff]
  exact ⟨fun next => keeps_of_listed honest carried next.2, fun keeps =>
    ⟨carried_step honest carried, listed_of_keeps honest carried listed keeps⟩⟩

omit [Bs58Check] [DenunciationDigest] in
theorem truthful_empty : Truthful slotOf Db.empty where
  sites b row id op found := absurd found (by simp [Db.empty, Db.readBlock])
  recorded id op read := absurd read (by simp [Db.empty, Db.readOp])
  slots b row found := absurd found (by simp [Db.empty, Db.readBlock])

/-- **When the sites of operations are exact.** In a run of the node's blocks and of truthful patches they
are so in every state exactly when every step keeps them. -/
theorem inclusion_sites_iff {events : List Timed} (honest : ∀ e ∈ events, Honest slotOf e.event) :
    (∀ db, Visits step Db.empty events db → SitesExact db) ↔
      Along step StepKeepsSites Db.empty events := by
  have along : Along step (fun _ e => Honest slotOf e.event) Db.empty events :=
    along_iff_forall_split.mpr fun before e rest whole => honest e (by simp [whole])
  have carried : ∀ db, Visits step Db.empty events db → Carried slotOf db := fun db visited =>
    along.visits (fun db e carried honest => carried_step honest carried)
      (carried_of_truthful truthful_empty) visited
  rw [← forall_visits_iff_along_within (D := fun e : Timed => Honest slotOf e.event)
    (P := Truthful slotOf) (fun db e honest truthful => truthful_step honest truthful) honest
        truthful_empty]
  refine forall_congr' fun db => forall_congr' fun visited => ?_
  exact ⟨fun exact_ => truthful_iff.mpr ⟨carried db visited, (listed_iff (carried db visited)).mp exact_⟩,
    Truthful.sites⟩

end Runs

/-! ## One operation in two blocks -/

section Forks

attribute [local instance] Bs58Check.doubleSha noDenunciations

/-- A block with one operation. -/
def listingBlock (b : BlockId) (s : Slot) : StoredBlock :=
  { bareBlock b s [] with operationIds := [transferId] }

/-- The operation as included there. -/
def includedAt (b : BlockId) (s : Slot) : StoredOperation :=
  { coinTransfer with inclusions := [⟨s, b⟩] }

/-- An indexer that holds the two. -/
def indexerOf (b : BlockId) (s : Slot) : Db :=
  (Db.empty.writeBlock (listingBlock b s)).writeOp (includedAt b s)

def patchOf (b : BlockId) (s : Slot) : FinalSlotResponse :=
  { answerOf s (.block b) (some (listingBlock b s)) with
    operations := [operationToPeerPb (includedAt b s)] }

def slotsOfBlocks (b : BlockId) : Slot := if b = blockNo 2 then ⟨11, 0⟩ else ⟨10, 0⟩

theorem readBlock_indexerOf {b c : BlockId} {s : Slot} {row : StoredBlock}
    (found : (indexerOf b s).readBlock c = some row) : c = b ∧ row = listingBlock b s := by
  have here : ((Db.empty.writeBlock (listingBlock b s)).readBlock c) = some row := found
  rw [Db.readBlock_writeBlock] at here
  split at here
  · next same => exact ⟨same.symm, (Option.some.inj here).symm⟩
  · cases here

theorem readOp_indexerOf {b : BlockId} {s : Slot} {id : OperationId} {op : StoredOperation}
    (read : (indexerOf b s).readOp id = some op) : op = includedAt b s := by
  have here : ((Db.empty.writeBlock (listingBlock b s)).writeOp (includedAt b s)).readOp id =
      some op := read
  rw [Db.readOp_writeOp] at here
  split at here
  · exact (Option.some.inj here).symm
  · cases here

theorem truthful_indexerOf (b : BlockId) : Truthful slotsOfBlocks (indexerOf b (slotsOfBlocks b)) where
  sites c row id op found _ read := by
    obtain ⟨rfl, rfl⟩ := readBlock_indexerOf found
    obtain rfl := readOp_indexerOf read
    show List.count _ [(⟨slotsOfBlocks c, c⟩ : OperationInclusion)] = 1
    exact List.count_singleton_self
  recorded id op read := by
    obtain rfl := readOp_indexerOf read
    exact ⟨List.cons_ne_nil _ _, List.nodup_singleton _⟩
  slots c row found := by
    obtain ⟨rfl, rfl⟩ := readBlock_indexerOf found
    rfl

theorem shippedBlock_patchOf (b : BlockId) (s : Slot) :
    shippedBlock (patchOf b s) = some (listingBlock b s) :=
  shippedBlock_answerOf s (.block b) (some (listingBlock b s))

theorem decodedRows_patchOf (b : BlockId) (s : Slot) :
    decodedRows (patchOf b s).operations = [includedAt b s] := by
  simp [decodedRows, patchOf, operationFromPeerPb_toPeerPb, Except.toOption]

theorem honest_patchOf (b : BlockId) :
    Honest slotsOfBlocks (.peerPatch (patchOf b (slotsOfBlocks b))) := by
  refine ⟨indexerOf b (slotsOfBlocks b), truthful_indexerOf b, fun block shipped => ?_,
      fun op member => ?_⟩
  · rw [shippedBlock_patchOf] at shipped
    obtain rfl := Option.some.inj shipped
    refine ⟨listingBlock b (slotsOfBlocks b), ?_, rfl, rfl⟩
    exact (Db.readBlock_writeBlock Db.empty (listingBlock b (slotsOfBlocks b)) b).trans (if_pos rfl)
  · rw [decodedRows_patchOf] at member
    obtain rfl := List.mem_singleton.mp member
    refine ⟨includedAt b (slotsOfBlocks b), ?_, rfl⟩
    exact (Db.readOp_writeOp _ (includedAt b (slotsOfBlocks b)) transferId).trans (if_pos rfl)

/-- Two patches, for (10, 0) and (11, 0), whose blocks have the operation in common. -/
def fork (n : UInt8) : Timed := ⟨.peerPatch (patchOf (blockNo n) (slotsOfBlocks (blockNo n))), 0⟩

theorem honest_forks : ∀ e ∈ [fork 1, fork 2], Honest slotsOfBlocks e.event := by
  intro e member
  rcases List.mem_cons.mp member with rfl | last
  · exact honest_patchOf (blockNo 1)
  · obtain rfl := List.mem_singleton.mp last
    exact honest_patchOf (blockNo 2)

theorem slotOf_patchOf (b : BlockId) (s : Slot) : Peer.Patch.slotOf (patchOf b s) = some s :=
  slotOf_answerOf s (.block b) (some (listingBlock b s))

theorem bodyOf_fork {db : Db} {n : UInt8}
    (unsettled : (rowAt db (slotsOfBlocks (blockNo n)) 0).status ≠ .final) :
    bodyOf db (fork n) = some (.shipped (listingBlock (blockNo n) (slotsOfBlocks (blockNo n)))
      (patchOf (blockNo n) (slotsOfBlocks (blockNo n))).operations) := by
  have delivered : deliveredBlock (patchOf (blockNo n) (slotsOfBlocks (blockNo n))) =
      some (listingBlock (blockNo n) (slotsOfBlocks (blockNo n))) :=
    shippedBlock_patchOf _ _
  rw [fork, bodyOf_open (slotOf_patchOf _ _) rfl unsettled, delivered]
  rfl

theorem unsettled_after_fork : (rowAt (step Db.empty (fork 1)) ⟨11, 0⟩ 0).status ≠ .final := by
  have row := readSlot_step Db.empty (fork 1) ⟨11, 0⟩
  cases moved : rowMove Db.empty (fork 1) with
  | none =>
      rw [moved] at row
      rw [rowAt, row]
      decide
  | some m =>
      have here : m.row.slot = ⟨10, 0⟩ := (peer_patchAt (slotOf_patchOf _ _) Db.empty 0).row m moved
      rw [moved] at row
      dsimp only at row
      rw [if_neg (by rw [here]; decide)] at row
      rw [rowAt, row]
      split <;> decide

theorem bodyOf_first : bodyOf Db.empty (fork 1) =
    some (.shipped (listingBlock (blockNo 1) ⟨10, 0⟩) (patchOf (blockNo 1) ⟨10, 0⟩).operations) :=
  bodyOf_fork (n := 1) (by decide)

theorem bodyOf_second : bodyOf (step Db.empty (fork 1)) (fork 2) =
    some (.shipped (listingBlock (blockNo 2) ⟨11, 0⟩) (patchOf (blockNo 2) ⟨11, 0⟩).operations) :=
  bodyOf_fork (n := 2) unsettled_after_fork

theorem carried_forks : Carried slotsOfBlocks (step Db.empty (fork 1)) ∧
    Carried slotsOfBlocks (step (step Db.empty (fork 1)) (fork 2)) := by
  have first := carried_step (e := fork 1) (honest_patchOf (blockNo 1))
      (carried_of_truthful truthful_empty)
  exact ⟨first, carried_step (e := fork 2) (honest_patchOf (blockNo 2)) first⟩

theorem sites_after_fork : sitesOf (step Db.empty (fork 1)) transferId = some [⟨⟨10, 0⟩, blockNo 1⟩] := by
  have honest : Honest slotsOfBlocks (fork 1).event := honest_patchOf (blockNo 1)
  rw [sitesOf_shipped honest (carried_of_truthful truthful_empty) bodyOf_first]
  refine (sitesIn_eq_some_iff honest bodyOf_first).mpr ⟨includedAt (blockNo 1) ⟨10, 0⟩, ?_, rfl, rfl⟩
  rw [decodedRows_patchOf]
  exact List.mem_cons_self

theorem absent_after_fork : listingOf (step Db.empty (fork 1)) (blockNo 2) = none := by
  rw [Option.eq_none_iff_forall_ne_some]
  rintro ⟨s, ids⟩ held
  rcases listing_step held with before | ⟨-, block, stored, own, -⟩ | ⟨fb, taken, event, -⟩
  · exact absurd before (by simp [listingOf, Db.empty, Db.readBlock])
  · obtain ⟨rows, entered⟩ := body_of_stored stored
    rw [bodyOf_first] at entered
    cases entered
    exact absurd own (by decide)
  · cases event

/-- **A patch leaves a block out of the sites of an operation that has a row.** -/
theorem second_block_not_a_site : ¬ ∀ (slotOf : BlockId → Slot) (events : List Timed),
    (∀ e ∈ events, Honest slotOf e.event) →
      ∀ db, Visits step Db.empty events db → SitesExact db := by
  intro exact_
  have listed : Listed (step (step Db.empty (fork 1)) (fork 2)) :=
    (listed_iff carried_forks.2).mp
      (exact_ slotsOfBlocks _ honest_forks _ ⟨[fork 1, fork 2], [], rfl, rfl⟩)
  have here : sitesOf (step (step Db.empty (fork 1)) (fork 2)) transferId =
      some [⟨⟨10, 0⟩, blockNo 1⟩] := by
    rw [sitesOf_shipped (honest_forks (fork 2) (by simp)) carried_forks.1 bodyOf_second,
      sites_after_fork, Option.some_or]
  have held := listing_shipped bodyOf_second (Option.map_eq_none_iff.mp absent_after_fork)
  have site := listed _ _ _ transferId _ held List.mem_cons_self here
  exact absurd (List.mem_singleton.mp site) (by decide)

/-- The law for the run of these patches. -/
theorem inclusion_sites_iff_forks : (∀ e ∈ [fork 1, fork 2], Honest slotsOfBlocks e.event) ∧
    ((∀ db, Visits step Db.empty [fork 1, fork 2] db → SitesExact db) ↔
      Along step StepKeepsSites Db.empty [fork 1, fork 2]) :=
  ⟨honest_forks, inclusion_sites_iff honest_forks⟩

end Forks

end MassaIndexer.Laws.InclusionSites
