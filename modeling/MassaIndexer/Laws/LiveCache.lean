/- # Laws.LiveCache -- the live view never shows a slot as it never was

The writer runs, its frames reach a browser late, twice or not at all, pages are read from the store at
one moment and merged at another, and the cache is pruned. Whatever the order, a cached row is one
that the store has had, no row gives way to an older one, and a page of the present store leaves its
slots with the verdict the store has now (`cache_follows_store`). The one assumption is that the
writer's clock does not go back. -/
import Mathlib.Logic.Relation
import MassaIndexer.Chain.Snapshot
import MassaIndexer.Explorer.LiveDag
import MassaIndexer.Laws.LiveFeed

namespace MassaIndexer.Laws.LiveCache

open MassaIndexer.Theory.Freshest
open MassaIndexer.Data.Ids MassaIndexer.Data.Model MassaIndexer.Data.Codec
open MassaIndexer.Store.ColumnFamilies MassaIndexer.Writer.Shared MassaIndexer.Writer.Step
open MassaIndexer.Writer.Families MassaIndexer.Writer.Handlers MassaIndexer.Writer.RowMoves
open MassaIndexer.Writer.LiveFrames MassaIndexer.Explorer.LiveDag MassaIndexer.Laws.LiveFeed

set_option autoImplicit false

section Runs

variable [Bs58Check] [DenunciationDigest]

/-! ## The clock of a row -/

omit [DenunciationDigest] in
/-- Every row is written with the clock of its event. -/
theorem stamp_rowMove {db : Db} {e : Timed} {m : RowMove} (moved : rowMove db e = some m) :
    m.row.lastUpdatedTsMs = e.nowMs := by
  obtain ⟨event, nowMs⟩ := e
  cases event with
  | block fb =>
      obtain ⟨b, -, rfl⟩ := Option.map_eq_some_iff.mp moved
      dsimp only
      rw [bodySeen_eq]
  | exec out =>
      obtain ⟨⟨s, frame, exec⟩, -, moved⟩ := Option.bind_eq_some_iff.mp moved
      dsimp only [frameMove] at moved
      split at moved
      · split at moved
        · obtain rfl := Option.some.inj moved
          rfl
        · cases moved
      · obtain rfl := Option.some.inj moved
        cases frame <;> rfl
  | transfers resp =>
      obtain ⟨pb, -, moved⟩ := Option.bind_eq_some_iff.mp moved
      unfold transfersMove at moved
      split at moved
      · cases moved
      · obtain rfl := Option.some.inj moved
        rfl
  | peerPatch resp =>
      dsimp only [rowMove] at moved
      split at moved
      · obtain ⟨s, -, rfl⟩ := Option.map_eq_some_iff.mp moved
        cases Peer.Patch.reconcileVerdict db s (rowAt db s nowMs) resp <;> rfl
      · cases moved
  | legacyPatch resp =>
      dsimp only [rowMove] at moved
      split at moved
      · obtain ⟨s, -, rfl⟩ := Option.map_eq_some_iff.mp moved
        rfl
      · cases moved
  | forcedVerdict resp =>
      dsimp only [rowMove] at moved
      split at moved
      · split at moved
        · cases moved
        · obtain rfl := Option.some.inj moved
          rfl
      · cases moved
  | tick => cases moved

/-- No row is dropped, and none goes back in time. -/
theorem row_forward {db : Db} {e : Timed} {s : Slot} {row : SlotState}
    (stored : db.readSlot s = some row)
    (earlier : row.lastUpdatedTsMs ≤ e.nowMs) :
    ∃ row', (step db e).readSlot s = some row' ∧ row.lastUpdatedTsMs ≤ row'.lastUpdatedTsMs := by
  rw [readSlot_step]
  cases moved : rowMove db e with
  | none => exact ⟨row, stored, le_rfl⟩
  | some m =>
      dsimp only
      split
      · exact ⟨_, rfl, earlier.trans (le_of_eq (stamp_rowMove moved).symm)⟩
      · rw [stored]
        split <;> exact ⟨row, rfl, le_rfl⟩

theorem row_not_ahead {db : Db} {e : Timed} {s : Slot} {row : SlotState}
    (before : ∀ row, db.readSlot s = some row → row.lastUpdatedTsMs ≤ e.nowMs)
    (stored : (step db e).readSlot s = some row) : row.lastUpdatedTsMs ≤ e.nowMs := by
  rcases row_after stored with ⟨m, moved, -, rfl⟩ | ⟨held, -⟩ | rfl
  · exact le_of_eq (stamp_rowMove moved)
  · exact before row held
  · exact le_rfl

/-! ## The writer and the view -/

/-- The store with all it has been, the frames sent, the last clock, and the view's cache. -/
structure World where
  db : Db := Db.empty
  past : List Db := [Db.empty]
  sent : List SlotSseEvent := []
  clock : Int
  dag : DagCache := {}

/-- A row that the store has had. -/
def World.Had (w : World) (row : SlotState) : Prop := ∃ db ∈ w.past, db.readSlot row.slot = some row

inductive Step : World → World → Prop where
  | ingest (w : World) (e : Timed) (later : w.clock ≤ e.nowMs) : Step w
      { w with
        db := step w.db e
        past := step w.db e :: w.past
        sent := w.sent ++ frames w.db e
        clock := e.nowMs }
  | message (w : World) (row : SlotState) (heard : .slotUpdated row ∈ w.sent) :
      Step w { w with dag := w.dag.message row }
  | render (w : World) : Step w { w with dag := w.dag.render }
  | page (w : World) (rows : List SlotState) (fetched : ∀ row ∈ rows, w.Had row) :
      Step w { w with dag := w.dag.page rows }
  | prune (w : World) (params : ChainParams) (cutoff : Int) :
      Step w { w with dag := w.dag.prune params cutoff }

def Reachable (clock : Int) (w : World) : Prop := Relation.ReflTransGen Step { clock } w

/-- What holds between any two steps. -/
structure Sound (w : World) : Prop where
  present : w.db ∈ w.past
  forward : ∀ db ∈ w.past, ∀ s row, db.readSlot s = some row →
    ∃ row', w.db.readSlot s = some row' ∧ row.lastUpdatedTsMs ≤ row'.lastUpdatedTsMs
  clock : ∀ s row, w.db.readSlot s = some row → row.lastUpdatedTsMs ≤ w.clock
  sent : ∀ row, .slotUpdated row ∈ w.sent → w.Had (readBackSlotState row)
  heard : ∀ row ∈ w.dag.events, w.Had (readBackSlotState row)
  cached : ∀ s row, w.dag.slots s = some row → row.slot = s ∧ w.Had (readBackSlotState row)

omit [Bs58Check] [DenunciationDigest] in
theorem sound_start (clock : Int) : Sound { clock } where
  present := List.mem_singleton.mpr rfl
  forward db member s row stored := by
    obtain rfl := List.mem_singleton.mp member
    exact ⟨row, stored, le_rfl⟩
  clock s row stored := by cases stored
  sent row member := by cases member
  heard row member := by cases member
  cached s row held := by cases held

omit [Bs58Check] [DenunciationDigest] in
theorem readBack_of_had {w : World} {row : SlotState} (had : w.Had row) :
    readBackSlotState row = row := by
  obtain ⟨db, -, stored⟩ := had
  exact Theory.KeyedTable.Table.stored_of_get stored

omit [Bs58Check] [DenunciationDigest] in
/-- Merging rows the store has had. -/
theorem cached_offers {w : World} {takes : SlotState → SlotState → Bool} (sound : Sound w)
    {rows : List SlotState} (had : ∀ row ∈ rows, w.Had (readBackSlotState row)) {s : Slot}
    {row : SlotState} (held : rows.foldl (offer SlotState.slot takes) w.dag.slots s = some row) :
    row.slot = s ∧ w.Had (readBackSlotState row) := by
  rcases held_of_offers rows held with ⟨listed, rfl⟩ | held
  · exact ⟨rfl, had row listed⟩
  · exact sound.cached s row held

theorem Sound.ingest {w : World} (sound : Sound w) (e : Timed) (later : w.clock ≤ e.nowMs) :
    Sound { w with
      db := step w.db e
      past := step w.db e :: w.past
      sent := w.sent ++ frames w.db e
      clock := e.nowMs } := by
  have had : ∀ row, w.Had row → ∃ db ∈ step w.db e :: w.past, db.readSlot row.slot = some row := by
    rintro row ⟨db, member, stored⟩
    exact ⟨db, List.mem_cons_of_mem _ member, stored⟩
  have early : ∀ s row, w.db.readSlot s = some row → row.lastUpdatedTsMs ≤ e.nowMs :=
    fun s row stored => (sound.clock s row stored).trans later
  constructor
  · exact List.mem_cons_self
  · intro db member s row stored
    rcases List.mem_cons.mp member with rfl | before
    · exact ⟨row, stored, le_rfl⟩
    · obtain ⟨row', now, le⟩ := sound.forward db before s row stored
      obtain ⟨row'', after, le'⟩ := row_forward now (early s row' now)
      exact ⟨row'', after, le.trans le'⟩
  · exact fun s row stored => row_not_ahead (early s) stored
  · intro row member
    rcases List.mem_append.mp member with before | now
    · exact had _ (sound.sent row before)
    · exact ⟨step w.db e, List.mem_cons_self, carried_updated now⟩
  · exact fun row member => had _ (sound.heard row member)
  · intro s row held
    obtain ⟨here, stored⟩ := sound.cached s row held
    exact ⟨here, had _ stored⟩

/-- **Every step keeps it.** -/
theorem Sound.step {w w' : World} (sound : Sound w) (moved : Step w w') : Sound w' := by
  cases moved with
  | ingest e later => exact sound.ingest e later
  | message row heard =>
      refine ⟨sound.present, sound.forward, sound.clock, sound.sent, fun other member => ?_,
        sound.cached⟩
      rcases List.mem_cons.mp (List.mem_of_mem_take member) with rfl | before
      · exact sound.sent other heard
      · exact sound.heard other before
  | render =>
      refine ⟨sound.present, sound.forward, sound.clock, sound.sent, sound.heard, fun s row held => ?_⟩
      change w.dag.render.slots s = some row at held
      rw [slots_render] at held
      exact cached_offers sound sound.heard held
  | page rows fetched =>
      refine ⟨sound.present, sound.forward, sound.clock, sound.sent, sound.heard, fun s row held => ?_⟩
      change (mergeSlotsIntoCache w.dag.slots rows).1 s = some row at held
      rw [merge_eq_offers] at held
      refine cached_offers sound (fun row listed => ?_) held
      rw [readBack_of_had (fetched row listed)]
      exact fetched row listed
  | prune params cutoff =>
      refine ⟨sound.present, sound.forward, sound.clock, sound.sent, sound.heard, fun s row held => ?_⟩
      change (w.dag.prune params cutoff).slots s = some row at held
      rw [slots_prune] at held
      exact sound.cached s row (held_of_evict held)

theorem sound_reachable {clock : Int} {w : World} (reachable : Reachable clock w) : Sound w := by
  induction reachable with
  | refl => exact sound_start clock
  | tail _ moved ih => exact ih.step moved

omit [Bs58Check] [DenunciationDigest] in
/-- A cached row is no newer than the row the store has now. -/
theorem cached_not_ahead {w : World} (sound : Sound w) {s : Slot} {row now : SlotState}
    (held : w.dag.slots s = some row) (stored : w.db.readSlot s = some now) :
    row.lastUpdatedTsMs ≤ now.lastUpdatedTsMs := by
  obtain ⟨rfl, db, member, had⟩ := sound.cached s row held
  obtain ⟨row', now', le⟩ := sound.forward db member _ _ had
  obtain rfl := Option.some.inj (stored.symm.trans now')
  exact le

/-- A step that does not prune takes no slot back. -/
theorem forward_step {w w' : World} (moved : Step w w') :
    (∃ params cutoff, w'.dag = w.dag.prune params cutoff) ∨
      Forward SlotState.lastUpdatedTsMs w.dag.slots w'.dag.slots := by
  cases moved with
  | ingest e later => exact .inr (.refl _)
  | message row heard => exact .inr (.refl _)
  | render =>
      refine .inr ?_
      change Forward _ w.dag.slots w.dag.render.slots
      rw [slots_render]
      exact forward_offers fair_updates _ _
  | page rows fetched =>
      refine .inr ?_
      change Forward _ w.dag.slots (mergeSlotsIntoCache w.dag.slots rows).1
      rw [merge_eq_offers]
      exact forward_offers fair_refreshes rows _
  | prune params cutoff => exact .inl ⟨params, cutoff, rfl⟩

/-- As of the same moment, with the same verdict. -/
structure Agrees (row now : SlotState) : Prop where
  stamp : row.lastUpdatedTsMs = now.lastUpdatedTsMs
  status : row.status = now.status
  block : row.finalBlockId = now.finalBlockId

omit [Bs58Check] [DenunciationDigest] in
theorem agrees_offer {cache : Slot → Option SlotState} {now : SlotState}
    (older : ∀ row, cache now.slot = some row → row.lastUpdatedTsMs ≤ now.lastUpdatedTsMs) :
    ∃ row, offer SlotState.slot refreshes cache now now.slot = some row ∧ Agrees row now := by
  unfold offer
  split
  · exact ⟨now, Function.update_self .., rfl, rfl, rfl⟩
  · next refused =>
      cases held : cache now.slot with
      | none => exact absurd (by rw [held]; rfl) refused
      | some row =>
          rw [held] at refused
          obtain ⟨stamp, status, block⟩ :=
            same_of_not_refreshes (Bool.eq_false_iff.mpr refused) (older row held)
          exact ⟨row, rfl, stamp, status, block⟩

omit [Bs58Check] [DenunciationDigest] in
/-- Rows that the store has now, offered one after the other. -/
theorem agrees_offers {db : Db} {rows : List SlotState}
    (present : ∀ row ∈ rows, db.readSlot row.slot = some row) {cache : Slot → Option SlotState}
    (older : ∀ s row now, cache s = some row → db.readSlot s = some now →
      row.lastUpdatedTsMs ≤ now.lastUpdatedTsMs) {now : SlotState}
    (listed : now ∈ rows ∨ ∃ row, cache now.slot = some row ∧ Agrees row now)
    (stored : db.readSlot now.slot = some now) :
    ∃ row, rows.foldl (offer SlotState.slot refreshes) cache now.slot = some row ∧ Agrees row now := by
  induction rows generalizing cache with
  | nil =>
      rcases listed with member | held
      · cases member
      · exact held
  | cons first rows ih =>
      have here := present first List.mem_cons_self
      have taken := agrees_offer fun row held => older _ row now held stored
      refine ih (fun row member => present row (List.mem_cons_of_mem first member)) ?_ ?_
      · intro s row now' held stored'
        rcases held_of_offer held with ⟨rfl, rfl⟩ | held
        · obtain rfl := Option.some.inj (here.symm.trans stored')
          exact le_rfl
        · exact older s row now' held stored'
      · by_cases same : first.slot = now.slot
        · rw [same] at here
          obtain rfl := Option.some.inj (here.symm.trans stored)
          exact .inr taken
        · rcases listed with member | ⟨row, held, agrees⟩
          · rcases List.mem_cons.mp member with rfl | later
            · exact absurd rfl same
            · exact .inl later
          · refine .inr ⟨row, ?_, agrees⟩
            unfold offer
            split
            · exact (Function.update_of_ne (fun h => same h.symm) ..).trans held
            · exact held

/-- **The cache follows the store.** In every state that writer, stream, fetches and pruning can reach:
a cached row is one the store has had; no step but pruning takes a slot back in time; and once a page of
the present store is merged, the cache has the store's moment, status and final block for each of its
slots, and the very row where no other row of the slot was written in that millisecond. -/
theorem cache_follows_store {clock : Int} {w : World} (reachable : Reachable clock w) :
    (∀ s row, w.dag.slots s = some row → row.slot = s ∧ w.Had (readBackSlotState row)) ∧
    (∀ w', Step w w' → (∃ params cutoff, w'.dag = w.dag.prune params cutoff) ∨
      Forward SlotState.lastUpdatedTsMs w.dag.slots w'.dag.slots) ∧
    ∀ rows, (∀ row ∈ rows, w.db.readSlot row.slot = some row) → ∀ now ∈ rows,
      ∃ row, (w.dag.page rows).slots now.slot = some row ∧ Agrees row now ∧
        ((∀ other, w.Had other → other.slot = now.slot →
          other.lastUpdatedTsMs = now.lastUpdatedTsMs → other = now) →
            readBackSlotState row = now) := by
  have sound := sound_reachable reachable
  refine ⟨sound.cached, fun w' moved => forward_step moved, fun rows present now listed => ?_⟩
  change ∃ row, (mergeSlotsIntoCache w.dag.slots rows).1 now.slot = some row ∧ _
  rw [merge_eq_offers]
  obtain ⟨row, held, agrees⟩ := agrees_offers present
    (fun s row now held stored => cached_not_ahead sound held stored) (.inl listed) (present now listed)
  refine ⟨row, held, agrees, fun alone => ?_⟩
  have had : ∀ row ∈ rows, w.Had (readBackSlotState row) := by
    intro row member
    have stored : w.Had row := ⟨w.db, sound.present, present row member⟩
    rw [readBack_of_had stored]
    exact stored
  obtain ⟨here, stored⟩ := cached_offers sound had held
  exact alone _ stored here agrees.stamp

end Runs

section OneMiss

attribute [local instance] Bs58Check.doubleSha Chain.noDenunciations

/-- A verdict the operator forces. -/
def forcedMiss : Timed :=
  ⟨.forcedVerdict { period := 5, thread := 1, finalKnown := true, isMiss := true }, 7⟩

def missRow : SlotState :=
  { SlotState.fresh ⟨5, 1⟩ 7 with
    status := .final, isMiss := true, completeness := { blockBodyStored := true } }

/-- The verdict is stored, and its frame is heard and merged. -/
def heardMiss : World where
  db := step Db.empty forcedMiss
  past := [step Db.empty forcedMiss, Db.empty]
  sent := frames Db.empty forcedMiss
  clock := 7
  dag := (DagCache.message {} missRow).render

theorem reachable_heardMiss : Reachable 0 heardMiss := by
  refine .tail (.tail (.tail .refl (.ingest _ forcedMiss (by decide))) (.message _ missRow ?_))
    (.render _)
  exact List.mem_cons_of_mem _ List.mem_cons_self

theorem cache_follows_store_miss :
    ∃ row, (heardMiss.dag.page [missRow]).slots ⟨5, 1⟩ = some row ∧ Agrees row missRow := by
  have present : ∀ row ∈ [missRow], heardMiss.db.readSlot row.slot = some row := by
    intro row member
    obtain rfl := List.mem_singleton.mp member
    rfl
  obtain ⟨row, held, agrees, -⟩ :=
    (cache_follows_store reachable_heardMiss).2.2 [missRow] present missRow List.mem_cons_self
  exact ⟨row, held, agrees⟩

end OneMiss

end MassaIndexer.Laws.LiveCache
