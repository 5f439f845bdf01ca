/-
# Writer.OperationSites -- the sites an operation was included at

The operation rows seen through the sites they list, and the block rows through the operations they list.
A body of the node records its site in the rows of its operations and creates the missing ones with it;
a patch creates the missing ones as shipped and leaves a row that has sites alone; statuses change
neither (`sitesOf_step`). A block row comes with a patch, with a body of the node, or was there with the
same slot and operations (`listing_step`).
-/
import MassaIndexer.Laws.BlockAtomicity

namespace MassaIndexer.Writer.OperationSites

open MassaIndexer.Theory.Attempts MassaIndexer.Theory.Runs
open MassaIndexer.Data.Ids MassaIndexer.Data.Model MassaIndexer.Data.Proto MassaIndexer.Data.Codec
open MassaIndexer.Data.RowCodec MassaIndexer.Store.ColumnFamilies MassaIndexer.Store.Footprint
open MassaIndexer.Writer.NodeProto MassaIndexer.Writer.NodeDecode
open MassaIndexer.Writer.Shared MassaIndexer.Writer.Handlers MassaIndexer.Writer.Step
open MassaIndexer.Writer.Families MassaIndexer.Writer.RowMoves MassaIndexer.Writer.BlockMoves
open MassaIndexer.Writer.BodyMoves MassaIndexer.Peer.Patch
open MassaIndexer.Laws.BlockAtomicity

set_option autoImplicit false

/-! ## Sites -/

def sitesOf (db : Db) (id : OperationId) : Option (List OperationInclusion) :=
  (db.readOp id).map (·.inclusions)

theorem sitesOf_writeOp (db : Db) (op : StoredOperation) (id : OperationId) :
    sitesOf (db.writeOp op) id = if op.id = id then some op.inclusions else sitesOf db id := by
  unfold sitesOf
  rw [Db.readOp_writeOp]
  split <;> rfl

theorem sitesOf_congr {db db' : Db} (same : contents db .ops = contents db' .ops) (id : OperationId) :
    sitesOf db id = sitesOf db' id := by
  unfold sitesOf
  rw [sameReadOp same]

/-- Writing back a row with the sites it had. -/
theorem sitesOf_rewrite {db : Db} {old new : StoredOperation} {key : OperationId}
    (found : db.readOp key = some old) (sameId : new.id = old.id) (same : new.inclusions = old.inclusions)
    (id : OperationId) : sitesOf (db.writeOp new) id = sitesOf db id := by
  rw [sitesOf_writeOp, sameId, Db.id_of_readOp found, same]
  split
  · next here => rw [← here, sitesOf, found, Option.map_some]
  · rfl

/-- The site of a body in a list of sites. -/
def recordSite (site : OperationInclusion) (sites : List OperationInclusion) : List OperationInclusion :=
  if site ∈ sites then sites else sites ++ [site]

theorem mem_recordSite (site : OperationInclusion) (sites : List OperationInclusion) :
    site ∈ recordSite site sites := by
  unfold recordSite
  split
  · assumption
  · exact List.mem_append_right _ List.mem_cons_self

theorem mem_recordSite_of_mem {site other : OperationInclusion} {sites : List OperationInclusion}
    (member : other ∈ sites) : other ∈ recordSite site sites := by
  unfold recordSite
  split
  · exact member
  · exact List.mem_append_left _ member

theorem nodup_recordSite {site : OperationInclusion} {sites : List OperationInclusion}
    (distinct : sites.Nodup) : (recordSite site sites).Nodup := by
  unfold recordSite
  split
  · exact distinct
  · next fresh => exact List.nodup_append.mpr ⟨distinct, List.nodup_singleton site,
      fun a member b last => by rintro rfl; exact fresh (List.mem_singleton.mp last ▸ member)⟩

theorem recordSite_idem (site : OperationInclusion) (sites : List OperationInclusion) :
    recordSite site (recordSite site sites) = recordSite site sites :=
  if_pos (mem_recordSite site sites)

variable [Bs58Check]

theorem sitesOf_applyExecutedOp (frame : ExecFrame) (db : Db) (entry : ExecutedOpsChangeEntry)
    (id : OperationId) : sitesOf (applyExecutedOp frame db entry) id = sitesOf db id := by
  unfold applyExecutedOp
  split
  · rfl
  · split
    · next found =>
        cases frame with
        | final =>
            dsimp only
            split
            · refine sitesOf_rewrite found ?_ ?_ id <;> rfl
            · rfl
        | candidate =>
            dsimp only
            split
            · refine sitesOf_rewrite found ?_ ?_ id <;> rfl
            · rfl
    · rfl

theorem sitesOf_setStatuses (db : Db) (e : Timed) (id : OperationId) :
    sitesOf (setStatuses db e) id = sitesOf db id := by
  unfold setStatuses
  cases statusesOf db e with
  | none => rfl
  | some framed =>
      show sitesOf (applyExecutedOpsChanges framed.1 db framed.2) id = _
      unfold applyExecutedOpsChanges
      cases framed.2.stateChanges with
      | none => rfl
      | some sc =>
          exact foldl_view (sitesOf · id)
            (fun db entry _ => sitesOf_applyExecutedOp framed.1 db entry id) db

/-! ## A body of the node -/

/-- The site a body of the node records. -/
def siteOfHead (head : BlockHead) : OperationInclusion := ⟨head.slot, head.id⟩

/-- The operation is in the message, ahead of the first one refused. -/
def Entered (db : Db) (head : BlockHead) (nowMs : Int) (ops : List FilledOperation)
    (id : OperationId) : Prop :=
  ∃ first rest, ops = first ++ rest ∧ OperationsAccepted db head nowMs first ∧
    id ∈ first.filterMap opIdOf

section Node

variable [DenunciationDigest] {head : BlockHead} {nowMs : Int}

theorem sitesOf_accepted {db next : Db} {filled : FilledOperation}
    (taken : attempt head nowMs (.operation filled) db = .ok next) (id : OperationId) :
    sitesOf next id =
      if opIdOf filled = some id then some (recordSite (siteOfHead head) ((sitesOf db id).getD []))
      else sitesOf db id := by
  rw [attempt] at taken
  rcases ingestOperation_cases db head nowMs filled with
    ⟨skipped, here⟩ | ⟨own, old, filed, found, here⟩ | ⟨_, _, _, -, -, -, -, here⟩ |
      ⟨own, signedOp, fresh, filed, absent, -, made, here⟩
  · rw [here] at taken
    obtain rfl := Except.ok.inj taken
    rw [skipped, if_neg (by simp)]
  · rw [here] at taken
    obtain rfl := Except.ok.inj taken
    show sitesOf (db.writeOp (recordInclusion head old)) id = _
    rw [sitesOf_writeOp, id_recordInclusion, Db.id_of_readOp found, filed, inclusions_recordInclusion]
    by_cases same : own = id
    · rw [if_pos same, if_pos (congrArg some same), ← same, sitesOf, found]
      rfl
    · rw [if_neg same, if_neg fun other => same (Option.some.inj other)]
  · rw [here] at taken
    cases taken
  · rw [here] at taken
    obtain rfl := Except.ok.inj taken
    obtain ⟨same, blank⟩ := id_freshOperation made
    show sitesOf (db.writeOp (recordInclusion head fresh)) id = _
    rw [sitesOf_writeOp, id_recordInclusion, same, filed, inclusions_recordInclusion, blank]
    by_cases same : own = id
    · rw [if_pos same, if_pos (congrArg some same), ← same, sitesOf, absent]
      rfl
    · rw [if_neg same, if_neg fun other => same (Option.some.inj other)]

theorem sitesOf_clean {ops : List FilledOperation} {db : Db}
    (clean : (attemptAll (attempt head nowMs) (ops.map .operation) db).2 = none) (id : OperationId) :
    sitesOf (attemptAll (attempt head nowMs) (ops.map .operation) db).1 id =
      if id ∈ ops.filterMap opIdOf then
        some (recordSite (siteOfHead head) ((sitesOf db id).getD []))
      else sitesOf db id := by
  induction ops generalizing db with
  | nil => rw [List.filterMap_nil, if_neg List.not_mem_nil]; rfl
  | cons filled rest ih =>
      rw [List.map_cons] at clean ⊢
      cases taken : attempt head nowMs (.operation filled) db with
      | error e =>
          rw [attemptAll_error taken] at clean
          exact absurd clean (by simp)
      | ok next =>
          rw [attemptAll_ok taken] at clean ⊢
          rw [ih clean, sitesOf_accepted taken]
          have split : id ∈ (filled :: rest).filterMap opIdOf ↔
              opIdOf filled = some id ∨ id ∈ rest.filterMap opIdOf := by
            simp [List.mem_filterMap]
          by_cases here : opIdOf filled = some id
          · rw [if_pos (split.mpr (.inl here)), if_pos here, Option.getD_some, recordSite_idem, ite_self]
          · rw [if_neg here]
            by_cases later : id ∈ rest.filterMap opIdOf
            · rw [if_pos later, if_pos (split.mpr (.inr later))]
            · rw [if_neg later, if_neg fun member => (split.mp member).elim here later]

theorem sitesOf_ingest (db : Db) (ops : List FilledOperation) (id : OperationId) :
    sitesOf (ingestOperations db head nowMs ops).db id =
      sitesOf (attemptAll (attempt head nowMs) (ops.map .operation) db).1 id := by
  rw [(ingestOperations_eq head nowMs ops db).1]

/-- **An operation entered has the site of the body.** -/
theorem sitesOf_of_entered {db : Db} {ops : List FilledOperation} {id : OperationId}
    (entered : Entered db head nowMs ops id) :
    sitesOf (ingestOperations db head nowMs ops).db id =
      some (recordSite (siteOfHead head) ((sitesOf db id).getD [])) := by
  obtain ⟨first, rest, rfl, accepted, listed⟩ := entered
  have clean := (clean_operations fun _ => rfl).mpr accepted
  have here := (sitesOf_clean clean id).trans (if_pos listed)
  rw [sitesOf_ingest, List.map_append, attemptAll_append_of_clean _ clean]
  generalize (attemptAll (attempt head nowMs) (first.map .operation) db).1 = mid at here ⊢
  obtain ⟨pre, post, whole, left⟩ := exists_clean_prefix (attempt head nowMs)
    (rest.map .operation) mid
  obtain ⟨taken, -, -, rfl, -⟩ := List.map_eq_append_iff.mp whole
  rw [← congrArg Prod.fst left, sitesOf_clean (congrArg Prod.snd left), here, Option.getD_some,
    recordSite_idem, ite_self]

/-- The others keep theirs. -/
theorem sitesOf_of_not_entered {db : Db} {ops : List FilledOperation} {id : OperationId}
    (other : ¬ Entered db head nowMs ops id) :
    sitesOf (ingestOperations db head nowMs ops).db id = sitesOf db id := by
  obtain ⟨pre, post, whole, left⟩ := exists_clean_prefix (attempt head nowMs)
    (ops.map .operation) db
  obtain ⟨first, rest, rfl, rfl, -⟩ := List.map_eq_append_iff.mp whole
  have clean : (attemptAll (attempt head nowMs) (first.map .operation) db).2 = none :=
    congrArg Prod.snd left
  rw [sitesOf_ingest, ← congrArg Prod.fst left, sitesOf_clean clean]
  apply if_neg
  intro listed
  exact other ⟨first, rest, rfl, (clean_operations fun _ => rfl).mp clean, listed⟩

omit [DenunciationDigest] in
/-- A message that is taken returns the ids of its operations. -/
theorem returned_eq {db : Db} {ops : List FilledOperation} {ids : List OperationId}
    (taken : (ingestOperations db head nowMs ops).result = .ok ids) : ids = ops.filterMap opIdOf := by
  induction ops generalizing db ids with
  | nil => exact (Except.ok.inj taken).symm
  | cons filled rest ih =>
      rw [ingestOperations] at taken
      have one : ∀ {next id?}, ingestOperation db head nowMs filled = ⟨next, .ok id?⟩ →
          id? = opIdOf filled := by
        intro next id? here
        rcases ingestOperation_cases db head nowMs filled with
          ⟨skipped, other⟩ | ⟨id, _, filed, -, other⟩ | ⟨_, _, _, -, -, -, -, other⟩ |
            ⟨id, _, _, filed, -, -, -, other⟩
        · rw [skipped]
          exact Except.ok.inj (congrArg Handled.result (here.symm.trans other))
        · rw [filed]
          exact Except.ok.inj (congrArg Handled.result (here.symm.trans other))
        · cases here.symm.trans other
        · rw [filed]
          exact Except.ok.inj (congrArg Handled.result (here.symm.trans other))
      rcases whole : ingestOperation db head nowMs filled with ⟨next, result⟩
      rw [whole] at taken
      cases result with
      | error e => cases taken
      | ok id? =>
          dsimp only at taken
          cases later : (ingestOperations next head nowMs rest).result with
          | error e => simp [later, Except.map] at taken
          | ok tail =>
              rw [later] at taken
              obtain rfl := Except.ok.inj taken
              rw [ih later, one whole, List.filterMap_cons]
              cases opIdOf filled <;> rfl

/-- The list a message returns is of operations entered. -/
theorem entered_of_returned {db : Db} {ops : List FilledOperation} {ids : List OperationId}
    (taken : (ingestOperations db head nowMs ops).result = .ok ids) {id : OperationId}
    (listed : id ∈ ids) : Entered db head nowMs ops id := by
  have clean := (ingestOperations_eq head nowMs ops db).2.mp ⟨ids, taken⟩
  exact ⟨ops, [], (List.append_nil ops).symm, (clean_operations fun _ => rfl).mp clean,
    returned_eq taken ▸ listed⟩

end Node

/-! ## A shipped body -/

/-- The shipped rows that decode. -/
def decodedRows (rows : List StoredOperationPb) : List StoredOperation :=
  rows.filterMap fun pb => (operationFromPeerPb pb).toOption

/-- The sites the first shipped row of an operation lists. -/
def sitesIn (rows : List StoredOperationPb) (id : OperationId) : Option (List OperationInclusion) :=
  ((decodedRows rows).find? fun op => op.id = id).map (·.inclusions)

omit [Bs58Check] in
theorem merged_eq (localOp op : StoredOperation) : (mergeOperation localOp op).id = localOp.id ∧
    (mergeOperation localOp op).inclusions =
      if localOp.inclusions.isEmpty then op.inclusions else localOp.inclusions := by
  rw [mergeOperation_eq]
  exact ⟨rfl, rfl⟩

omit [Bs58Check] in
theorem sitesOf_applyOperation {db : Db} {pb : StoredOperationPb} {op : StoredOperation}
    (decoded : operationFromPeerPb pb = .ok op) {id : OperationId}
    (held : ∀ sites, sitesOf db id = some sites → sites ≠ []) :
    sitesOf (applyOperation db pb) id =
      (sitesOf db id).or (if op.id = id then some op.inclusions else none) := by
  rw [applyOperation, decoded]
  dsimp only
  cases found : db.readOp op.id with
  | none =>
      dsimp only
      rw [sitesOf_writeOp]
      by_cases same : op.id = id
      · rw [if_pos same, if_pos same, ← same, sitesOf, found]
        rfl
      · rw [if_neg same, if_neg same, Option.or_none]
  | some localOp =>
      dsimp only
      obtain ⟨sameId, sites⟩ := merged_eq localOp op
      by_cases same : op.id = id
      · have here : sitesOf db id = some localOp.inclusions := by
          rw [← same, sitesOf, found]
          rfl
        have kept : (mergeOperation localOp op).inclusions = localOp.inclusions :=
          sites.trans (if_neg fun blank => held _ here (List.isEmpty_iff.mp blank))
        rw [here, Option.some_or]
        split
        · rw [sitesOf_rewrite found sameId kept, here]
        · exact here
      · have other : sitesOf (db.writeOp (mergeOperation localOp op)) id = sitesOf db id := by
          rw [sitesOf_writeOp, sameId, Db.id_of_readOp found, if_neg same]
        rw [if_neg same, Option.or_none]
        split
        · exact other
        · rfl

omit [Bs58Check] in
/-- **A row that has sites is left alone; a missing one is entered as shipped.** -/
theorem sitesOf_rows {rows : List StoredOperationPb} {db : Db} {id : OperationId}
    (shipped : ∀ op ∈ decodedRows rows, op.inclusions ≠ [])
    (held : ∀ sites, sitesOf db id = some sites → sites ≠ []) :
    sitesOf (rows.foldl applyOperation db) id = (sitesOf db id).or (sitesIn rows id) := by
  induction rows generalizing db with
  | nil => exact Option.or_none.symm
  | cons pb rest ih =>
      rw [List.foldl_cons]
      cases decoded : operationFromPeerPb pb with
      | error e =>
          have skip : decodedRows (pb :: rest) = decodedRows rest :=
            List.filterMap_cons_none (by rw [decoded]; rfl)
          have same : applyOperation db pb = db := by rw [applyOperation, decoded]
          unfold sitesIn
          rw [skip] at shipped ⊢
          rw [same]
          exact ih shipped held
      | ok op =>
          have first : decodedRows (pb :: rest) = op :: decodedRows rest :=
            List.filterMap_cons_some (by rw [decoded]; rfl)
          obtain ⟨own, others⟩ := List.forall_mem_cons.mp (first ▸ shipped)
          have one := sitesOf_applyOperation decoded held
          rw [ih others ?_, one, Option.or_assoc]
          · congr 1
            unfold sitesIn
            rw [first, List.find?_cons]
            by_cases same : op.id = id <;> simp [same]
          · intro sites after
            rw [one] at after
            rcases Option.or_eq_some_iff.mp after with before | ⟨-, new⟩
            · exact held sites before
            · split at new
              · exact Option.some.inj new ▸ own
              · cases new

/-! ## Listings -/

/-- The slot and the operations of a block row. -/
def listing (row : StoredBlock) : Slot × List OperationId := (row.slot, row.operationIds)

def listingOf (db : Db) (b : BlockId) : Option (Slot × List OperationId) :=
  (db.readBlock b).map listing

omit [Bs58Check] in
theorem listing_settledTo (status : Option BlockStatus) (row : StoredBlock) :
    listing (settledTo status row) = listing row := by
  cases status <;> rfl

omit [Bs58Check] in
theorem listing_rowOf (m : BlockMove) (b : BlockId) (old : Option StoredBlock) :
    (m.rowOf b old).map listing =
      ((m.seen.filter (·.id = b)).map listing).or
        ((old.map listing).or ((m.store.filter (·.id = b)).map listing)) := by
  have settle : ∀ status, listing ∘ settledTo status = listing := fun status =>
    funext (listing_settledTo status)
  unfold BlockMove.rowOf
  dsimp only
  rw [Option.map_map, settle, Option.map_or, Option.map_or, Option.map_map, settle]

theorem listing_seenRow (db : Db) (taken : TakenBlock) (nowMs : Int) :
    (seenRow db taken nowMs).id = taken.head.id ∧
      listing (seenRow db taken nowMs) =
        ((listingOf db taken.head.id).map fun old =>
          (old.1, if old.2.isEmpty then taken.operationIds else old.2)).getD
            (taken.head.slot, taken.operationIds) := by
  unfold seenRow seenBlock listingOf
  cases found : db.readBlock taken.head.id with
  | none => exact ⟨rfl, rfl⟩
  | some row =>
      have key : row.id = taken.head.id := Db.id_of_readBlock found
      exact ⟨key, rfl⟩

section Events

variable [DenunciationDigest]

theorem listingOf_step (db : Db) (e : Timed) (b : BlockId) :
    listingOf (step db e) b =
      (((blockMove db e).seen.filter (·.id = b)).map listing).or
        ((listingOf db b).or (((blockMove db e).store.filter (·.id = b)).map listing)) := by
  unfold listingOf
  rw [readBlock_step, listing_rowOf]

omit [DenunciationDigest] in
/-- A block row seen is that of a body taken. -/
theorem taken_of_seen {db : Db} {e : Timed} {row : StoredBlock}
    (seen : (blockMove db e).seen = some row) :
    ∃ fb taken, e.event = .block fb ∧ takenBlock db fb e.nowMs = some taken ∧
      row = seenRow db taken e.nowMs := by
  obtain ⟨event, nowMs⟩ := e
  cases event with
  | block fb =>
      obtain ⟨taken, here, rfl⟩ := Option.map_eq_some_iff.mp seen
      exact ⟨fb, taken, rfl, here, rfl⟩
  | exec out =>
      dsimp only [blockMove] at seen
      cases read : readFrame out <;> simp [read, frameBlockMove] at seen
  | peerPatch resp =>
      dsimp only [blockMove] at seen
      split at seen
      · cases about : slotOf resp with
        | none => simp [about] at seen
        | some s =>
            rw [about, Option.elim_some] at seen
            cases taken : reconcileVerdict db s (rowAt db s nowMs) resp <;>
              simp [taken, peerBlockMove] at seen
      · cases seen
  | legacyPatch resp =>
      dsimp only [blockMove] at seen
      split at seen
      · cases about : slotOf resp <;> simp [about, legacyBlockMove] at seen
      · cases seen
  | forcedVerdict resp =>
      dsimp only [blockMove] at seen
      split at seen
      · split at seen <;> cases seen
      · cases seen
  | transfers resp => cases seen
  | tick => cases seen

/-- **Where a listing comes from.** It was there; or a patch shipped it; or a body of the node brought its
operations. -/
theorem listing_step {db : Db} {e : Timed} {b : BlockId} {s : Slot} {ids : List OperationId}
    (after : listingOf (step db e) b = some (s, ids)) :
    listingOf db b = some (s, ids) ∨
    (listingOf db b = none ∧ ∃ block, (blockMove db e).store = some block ∧ block.id = b ∧
      listing block = (s, ids)) ∨
    ∃ fb taken, e.event = .block fb ∧ takenBlock db fb e.nowMs = some taken ∧ taken.head.id = b ∧
      ids = taken.operationIds ∧ (s = taken.head.slot ∨ ∃ old, listingOf db b = some (s, old)) := by
  rw [listingOf_step] at after
  cases seen : (blockMove db e).seen.filter (·.id = b) with
  | none =>
      rw [seen, Option.map_none, Option.none_or] at after
      rcases Option.or_eq_some_iff.mp after with held | ⟨absent, new⟩
      · exact .inl held
      · obtain ⟨block, stored, same⟩ := Option.map_eq_some_iff.mp new
        obtain ⟨stored, own⟩ := Option.filter_eq_some_iff.mp stored
        exact .inr (.inl ⟨absent, block, stored, of_decide_eq_true own, same⟩)
  | some row =>
      rw [seen, Option.map_some, Option.some_or] at after
      obtain ⟨seen, own⟩ := Option.filter_eq_some_iff.mp seen
      obtain ⟨fb, taken, event, here, rfl⟩ := taken_of_seen seen
      obtain ⟨id, listed⟩ := listing_seenRow db taken e.nowMs
      obtain rfl : taken.head.id = b := id.symm.trans (of_decide_eq_true own)
      rw [listed] at after
      cases held : listingOf db taken.head.id with
      | none =>
          rw [held] at after
          obtain ⟨rfl, rfl⟩ := Prod.mk.inj (Option.some.inj after)
          exact .inr (.inr ⟨fb, taken, event, here, rfl, rfl, .inl rfl⟩)
      | some old =>
          rw [held] at after
          obtain ⟨rfl, rfl⟩ := Prod.mk.inj (Option.some.inj after)
          by_cases blank : old.2.isEmpty
          · rw [if_pos blank]
            exact .inr (.inr ⟨fb, taken, event, here, rfl, rfl, .inr ⟨old.2, rfl⟩⟩)
          · rw [if_neg blank]
            exact .inl rfl

/-- A listing with operations stays. -/
theorem listing_stays {db : Db} {b : BlockId} {s : Slot} {ids : List OperationId}
    (held : listingOf db b = some (s, ids)) (listed : ids ≠ []) (e : Timed) :
    listingOf (step db e) b = some (s, ids) := by
  rw [listingOf_step, held, Option.some_or]
  cases seen : (blockMove db e).seen with
  | none => rfl
  | some row =>
      obtain ⟨fb, taken, -, -, rfl⟩ := taken_of_seen seen
      obtain ⟨own, listed'⟩ := listing_seenRow db taken e.nowMs
      rw [Option.filter_some]
      by_cases here : (seenRow db taken e.nowMs).id = b
      · rw [own] at here
        subst here
        rw [held] at listed'
        simp [own, listed', listed]
      · simp [here]

/-- **An event changes the sites as its body does.** -/
theorem sitesOf_step (db : Db) (e : Timed) (id : OperationId) :
    sitesOf (step db e) id =
      sitesOf ((bodyOf db e).elim db (·.enterOperations e.nowMs db)) id := by
  rw [sitesOf_congr (body_step (.inl rfl) db e)]
  cases bodyOf db e with
  | none => exact sitesOf_setStatuses db e id
  | some body => exact sitesOf_congr (ops_enter e.nowMs body db) id

omit [DenunciationDigest] in
theorem body_of_taken {db : Db} {e : Timed} {fb : FilledBlock} {taken : TakenBlock}
    (event : e.event = .block fb) (here : takenBlock db fb e.nowMs = some taken) :
    bodyOf db e = some (.node taken.head fb.operations) ∧
      (ingestOperations db taken.head e.nowMs fb.operations).result = .ok taken.operationIds := by
  unfold bodyOf
  rw [event]
  dsimp only
  unfold takenBlock at here
  cases decoded : decodeHead fb with
  | error err => simp [decoded] at here
  | ok head =>
      rw [decoded] at here
      dsimp only at here ⊢
      split at here
      · next persisted ingested resolved =>
          obtain rfl := Option.some.inj here
          rw [persisted]
          exact ⟨rfl, ingested⟩
      · cases here

omit [DenunciationDigest] in
theorem body_of_stored {db : Db} {e : Timed} {block : StoredBlock}
    (stored : (blockMove db e).store = some block) : ∃ rows, bodyOf db e = some
        (.shipped block rows) := by
  obtain ⟨event, nowMs⟩ := e
  cases event with
  | peerPatch resp => exact ⟨resp.operations, Option.map_eq_some_iff.mpr ⟨block, stored, rfl⟩⟩
  | legacyPatch resp => exact ⟨resp.operations, Option.map_eq_some_iff.mpr ⟨block, stored, rfl⟩⟩
  | block fb => cases stored
  | exec out =>
      dsimp only [blockMove] at stored
      cases read : readFrame out <;> simp [read, frameBlockMove] at stored
  | forcedVerdict resp =>
      dsimp only [blockMove] at stored
      split at stored
      · split at stored <;> cases stored
      · cases stored
  | transfers resp => cases stored
  | tick => cases stored

/-- The listing a patch ships enters where there is none. -/
theorem listing_shipped {db : Db} {e : Timed} {block : StoredBlock} {rows : List StoredOperationPb}
    (entered : bodyOf db e = some (.shipped block rows)) (absent : db.readBlock block.id = none) :
    listingOf (step db e) block.id = some (listing block) := by
  rcases bodyOf_cases entered with ⟨fb, head, -, -, other⟩ | ⟨resp, block', event, -, stored, same⟩
  · cases other
  · cases same
    have unseen : (blockMove db e).seen = none := by
      rw [Option.eq_none_iff_forall_ne_some]
      intro row seen
      obtain ⟨fb, -, block, -⟩ := taken_of_seen seen
      rw [block] at event
      rcases event with event | event <;> cases event
    rw [listingOf_step, unseen, stored, listingOf, absent]
    simp

end Events

end MassaIndexer.Writer.OperationSites
