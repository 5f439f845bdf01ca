/-
# Laws.DenunciationSites -- the slot recorded with an including block

The first body that carries a denunciation is recorded in its entry as the including block. The slot
recorded next to it is the one the denunciation is about, which need not be the block's. In a run every
entry names the slot of its including block exactly when every denunciation a body is the first to
record is about that body's own slot (`included_slots_iff`).
-/
import MassaIndexer.Chain.Snapshot
import MassaIndexer.Writer.BodyMoves

namespace MassaIndexer.Laws.DenunciationSites

open MassaIndexer.Theory.Runs MassaIndexer.Theory.KeyedTable
open MassaIndexer.Data.Ids MassaIndexer.Data.Model MassaIndexer.Data.Proto MassaIndexer.Data.Codec
open MassaIndexer.Store.ColumnFamilies MassaIndexer.Store.Footprint
open MassaIndexer.Writer.Shared MassaIndexer.Writer.Handlers MassaIndexer.Writer.Step
open MassaIndexer.Writer.Families MassaIndexer.Writer.BlockMoves MassaIndexer.Writer.BodyMoves
open MassaIndexer.Peer.Patch MassaIndexer.Peer.Arbiter
open MassaIndexer.Chain (blockNo bareBlock answerOf noDenunciations shippedBlock_answerOf slotOf_answerOf)

set_option autoImplicit false

/-! ## The site of an entry -/

/-- The including block of an entry, with the slot recorded beside it. -/
def siteOf (entry : StoredDenunciationEntry) : Option (BlockId × Option Slot) :=
  entry.includedBlockId.map (·, entry.includedSlot)

def siteAt (db : Db) (hash : Bytes) : Option (BlockId × Option Slot) :=
  (db.readDenunciation hash).bind siteOf

/-- A recorded site stays; the entry's own is recorded where there is none. -/
theorem siteAt_writeDenunciation (db : Db) (entry : StoredDenunciationEntry) (hash : Bytes) :
    siteAt (db.writeDenunciation entry) hash =
      (siteAt db hash).or (if entry.hash = hash then siteOf entry else none) := by
  have read : ∀ row : StoredDenunciationEntry, (db.denunciations.put row).get hash =
      if row.hash = hash then some row else db.readDenunciation hash := fun row => Table.get_put ..
  unfold Db.writeDenunciation
  cases found : db.readDenunciation entry.hash with
  | none =>
      show ((db.denunciations.put entry).get hash).bind siteOf = _
      rw [read]
      by_cases here : entry.hash = hash
      · subst here
        simp [siteAt, found]
      · simp [here, siteAt]
  | some prev =>
      have key : prev.hash = entry.hash := Table.key_of_get found
      dsimp only
      split
      · next blank =>
          rw [Bool.and_eq_true, Option.isNone_iff_eq_none] at blank
          show ((db.denunciations.put _).get hash).bind siteOf = _
          rw [read]
          dsimp only
          rw [key]
          by_cases here : entry.hash = hash
          · subst here
            simp [siteAt, found, siteOf, blank.1]
          · simp [here, siteAt]
      · next kept =>
          by_cases here : entry.hash = hash
          · subst here
            cases recorded : prev.includedBlockId <;> cases own : entry.includedBlockId <;>
              simp [siteAt, found, siteOf, recorded, own] at kept ⊢
          · simp [here]

section Entries

variable [Bs58Check] [DenunciationDigest]

/-- The first denunciation of a body with this hash. -/
def firstWith (body : Body) (hash : Bytes) : Option StoredDenunciation :=
  body.denunciations.find? fun d => denunciationHash d = hash

/-- The site a body records for a hash. -/
def siteIn (body : Body) (hash : Bytes) : Option (BlockId × Option Slot) :=
  (firstWith body hash).map fun d => (body.id, some (denunciationSlot d))

theorem siteAt_enterDenunciations (nowMs : Int) (body : Body) (db : Db) (hash : Bytes) :
    siteAt (body.enterDenunciations nowMs db) hash = (siteAt db hash).or (siteIn body hash) := by
  unfold Body.enterDenunciations siteIn firstWith
  induction body.denunciations generalizing db with
  | nil => exact Option.or_none.symm
  | cons d rest ih =>
      rw [List.foldl_cons, ih, siteAt_writeDenunciation, Option.or_assoc, List.find?_cons]
      congr 1
      show ((if denunciationHash d = hash then some (body.id, some (denunciationSlot d)) else
          none).or _) = _
      by_cases here : denunciationHash d = hash <;> simp [here]

/-- **An event records the site of its body for the hashes that have none.** -/
theorem siteAt_step (db : Db) (e : Timed) (hash : Bytes) :
    siteAt (step db e) hash = (siteAt db hash).or ((bodyOf db e).bind (siteIn · hash)) := by
  have same : ∀ {left right : Db}, contents left .denunciations = contents right .denunciations →
      siteAt left hash = siteAt right hash := by
    intro left right alike
    exact congrArg (fun c : Contents .denunciations => (c.1.get hash).bind siteOf) alike
  rw [same (body_step (.inr rfl) db e)]
  cases bodyOf db e with
  | none =>
      rw [Option.bind_none, Option.or_none, Option.elim_none]
      refine same ?_
      unfold setStatuses
      cases statusesOf db e with
      | none => rfl
      | some frame =>
          exact (confined_applyExecutedOpsChanges frame.1 frame.2).frame db .denunciations (by decide)
  | some body =>
      rw [Option.elim_some, Option.bind_some, same (denunciations_enter e.nowMs body db)]
      exact siteAt_enterDenunciations e.nowMs body db hash

/-! ## The law -/

/-- An entry with an including block names the slot of that block. -/
def NamesSlots (slotOf : BlockId → Slot) (db : Db) : Prop :=
  ∀ hash entry b, db.readDenunciation hash = some entry → entry.includedBlockId = some b →
    entry.includedSlot = some (slotOf b)

/-- The body of the event is at the slot of its block. -/
def OneSlot (slotOf : BlockId → Slot) : Event → Prop
  | .block fb => ∀ head, decodeHead fb = .ok head → head.slot = slotOf head.id
  | .peerPatch resp => ∀ block, shippedBlock resp = some block → block.slot = slotOf block.id
  | .legacyPatch resp => ∀ block, shippedBlock resp = some block → block.slot = slotOf block.id
  | _ => True

/-- Every denunciation whose including block the event records is about the slot of that block. -/
def RecordsOwnSlot (db : Db) (e : Timed) : Prop :=
  ∀ body hash d, bodyOf db e = some body → siteAt db hash = none → firstWith body hash = some d →
    denunciationSlot d = body.slot

omit [Bs58Check] [DenunciationDigest] in
theorem namesSlots_iff {slotOf : BlockId → Slot} {db : Db} :
    NamesSlots slotOf db ↔ ∀ hash b s, siteAt db hash = some (b, s) → s = some (slotOf b) := by
  constructor
  · intro names hash b s site
    obtain ⟨entry, found, recorded⟩ := Option.bind_eq_some_iff.mp site
    obtain ⟨b', included, same⟩ := Option.map_eq_some_iff.mp recorded
    obtain ⟨rfl, rfl⟩ := Prod.mk.inj same
    exact names hash entry b' found included
  · intro names hash entry b found included
    exact names hash b entry.includedSlot (by simp [siteAt, found, siteOf, included])

omit [DenunciationDigest] in
theorem slot_of_oneSlot {slotOf : BlockId → Slot} {db : Db} {e : Timed} (one : OneSlot slotOf e.event)
    {body : Body} (entered : bodyOf db e = some body) : body.slot = slotOf body.id := by
  rcases bodyOf_cases entered with ⟨fb, head, event, decoded, rfl⟩ | ⟨resp, block, event, shipped, -, rfl⟩
  · rw [event] at one
    exact one head decoded
  · rcases event with event | event <;> rw [event] at one <;> exact one block shipped

/-- A step keeps the slots right exactly when what it records is about its own slot. -/
theorem namesSlots_step {slotOf : BlockId → Slot} {db : Db} {e : Timed} (one : OneSlot slotOf e.event)
    (names : NamesSlots slotOf db) : NamesSlots slotOf (step db e) ↔ RecordsOwnSlot db e := by
  rw [namesSlots_iff] at names ⊢
  constructor
  · intro after body hash d entered unrecorded first
    have site : siteAt (step db e) hash = some (body.id, some (denunciationSlot d)) := by
      rw [siteAt_step, unrecorded, entered]
      simp [siteIn, first]
    rw [slot_of_oneSlot one entered]
    exact Option.some.inj (after hash body.id _ site)
  · intro own hash b s site
    rw [siteAt_step] at site
    cases before : siteAt db hash with
    | some old =>
        rw [before, Option.some_or] at site
        exact names hash b s (before.trans site)
    | none =>
        rw [before, Option.none_or] at site
        obtain ⟨body, entered, recorded⟩ := Option.bind_eq_some_iff.mp site
        obtain ⟨d, first, same⟩ := Option.map_eq_some_iff.mp recorded
        obtain ⟨rfl, rfl⟩ := Prod.mk.inj same
        rw [own body hash d entered before first, slot_of_oneSlot one entered]

/-- **When the recorded slots are right.** In a run every entry names the slot of its including block, in
every state, exactly when every denunciation a body is the first to record is about that body's slot. -/
theorem included_slots_iff {slotOf : BlockId → Slot} {events : List Timed}
    (one : ∀ e ∈ events, OneSlot slotOf e.event) :
    (∀ db, Visits step Db.empty events db → NamesSlots slotOf db) ↔
      Along step RecordsOwnSlot Db.empty events := by
  apply forall_visits_iff_along_within (D := fun e : Timed => OneSlot slotOf e.event)
    (fun db e one names => namesSlots_step one names) one
  intro hash entry b found
  exact absurd found (by simp [Db.empty, Db.readDenunciation])

end Entries

/-! ## A late denunciation -/

section Late

attribute [local instance] Bs58Check.doubleSha noDenunciations

/-- A block at (10, 0) that carries a denunciation about (5, 0). -/
def lateBlock : StoredBlock :=
  { bareBlock (blockNo 1) ⟨10, 0⟩ [] with denunciations := [.address "" ⟨5, 0⟩ 0] }

def latePatch : Timed := ⟨.peerPatch (answerOf ⟨10, 0⟩ (.block (blockNo 1)) (some lateBlock)), 0⟩

theorem bodyOf_latePatch : bodyOf Db.empty latePatch = some (.shipped lateBlock []) := by
  have delivered : deliveredBlock (answerOf ⟨10, 0⟩ (.block (blockNo 1)) (some lateBlock)) =
      some lateBlock :=
    shippedBlock_answerOf ⟨10, 0⟩ (.block (blockNo 1)) (some lateBlock)
  rw [latePatch, bodyOf_open (slotOf_answerOf _ _ _) rfl (by decide), delivered]
  rfl

theorem oneSlot_latePatch : ∀ e ∈ [latePatch], OneSlot (fun _ => ⟨10, 0⟩) e.event := by
  rw [List.forall_mem_singleton]
  intro block shipped
  rw [shippedBlock_answerOf] at shipped
  obtain rfl := Option.some.inj shipped
  rfl

/-- **The slot of the offence is recorded as the including block's.** -/
theorem late_denunciation_misfiled : ¬ ∀ (slotOf : BlockId → Slot) (events : List Timed),
    (∀ e ∈ events, OneSlot slotOf e.event) →
      ∀ db, Visits step Db.empty events db → NamesSlots slotOf db := by
  intro right
  have names := namesSlots_iff.mp
    (right _ [latePatch] oneSlot_latePatch (step Db.empty latePatch) ⟨[latePatch], [], rfl, rfl⟩)
  have site : siteAt (step Db.empty latePatch) (List.replicate 32 0) = some (blockNo 1, some ⟨5, 0⟩) := by
    rw [siteAt_step, bodyOf_latePatch]
    rfl
  exact absurd (names _ _ _ site) (by decide)

/-- The law for the run of that one patch. -/
theorem included_slots_iff_latePatch :
    (∀ e ∈ [latePatch], OneSlot (fun _ => ⟨10, 0⟩) e.event) ∧
      ((∀ db, Visits step Db.empty [latePatch] db → NamesSlots (fun _ => ⟨10, 0⟩) db) ↔
        Along step RecordsOwnSlot Db.empty [latePatch]) :=
  ⟨oneSlot_latePatch, included_slots_iff oneSlot_latePatch⟩

end Late

end MassaIndexer.Laws.DenunciationSites
