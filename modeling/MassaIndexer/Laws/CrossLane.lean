/-
# Laws.CrossLane -- slots apart from each other

The writer takes the events of all slots from two lanes. What it keeps of one slot -- the slot's
row, its smart-contract events and its transfers, with their index entries -- is what that slot's
own events make of it, in the order they are taken: the events of other slots may come in between,
or not at all (`slot_goes_by_own_events`). So when the events of a slot all come over one lane, the
two lanes may be interleaved in any way (`cross_lane_order_immaterial`).
-/
import MassaIndexer.Laws.SlotShare
import MassaIndexer.Theory.Shards
import MassaIndexer.Writer.Lanes

namespace MassaIndexer.Laws.CrossLane

open MassaIndexer.Theory.Runs MassaIndexer.Theory.Shards
open MassaIndexer.Data.Ids MassaIndexer.Data.Model MassaIndexer.Data.Codec
open MassaIndexer.Store.ColumnFamilies MassaIndexer.Store.Footprint MassaIndexer.Store.SlotRows
open MassaIndexer.Store.Timeless
open MassaIndexer.Writer.NodeProto MassaIndexer.Writer.Shared MassaIndexer.Writer.Step
open MassaIndexer.Writer.Families MassaIndexer.Writer.RowMoves MassaIndexer.Writer.Moves
open MassaIndexer.Writer.Lanes
open MassaIndexer.Laws.SlotShare

set_option autoImplicit false

section Slots

variable [Bs58Check] [DenunciationDigest]

/-! ## One slot of the store -/

/-- The two stores hold the same of slot `u`, but for the clock. A slot without a row is one that
nothing is known of. -/
structure AlikeOn (u : Slot) (db db' : Db) : Prop where
  row : timelessSlot (rowAt db u 0) = timelessSlot (rowAt db' u 0)
  events : AlikeAt eventFiling id (filedEvents db) (filedEvents db') u
  transfers : AlikeAt transferFiling timelessTransfer (filedTransfers db) (filedTransfers db') u

omit [DenunciationDigest] in
theorem AlikeOn.refl (u : Slot) (db : Db) : AlikeOn u db db := ⟨rfl, .refl .., .refl ..⟩

omit [DenunciationDigest] in
theorem AlikeOn.symm {u : Slot} {db db' : Db} (alike : AlikeOn u db db') : AlikeOn u db' db :=
  ⟨alike.row.symm, alike.events.symm, alike.transfers.symm⟩

/-- The row of a slot after an event: the one it writes there, or else the one there was. -/
theorem timelessSlot_step (db : Db) (e : Timed) (u : Slot) :
    timelessSlot (rowAt (step db e) u 0) =
      match rowMove db e with
      | none => timelessSlot (rowAt db u 0)
      | some m =>
          if m.row.slot = u then timelessSlot (readBackSlotState m.row)
          else timelessSlot (rowAt db u 0) := by
  rw [rowAt, readSlot_step]
  cases rowMove db e with
  | none => rfl
  | some m =>
      dsimp only
      split
      · rfl
      · split
        · -- a stub says nothing that no row does not say
          unfold rowAt
          cases db.readSlot u <;> rfl
        · rfl

theorem row_own {db db' : Db} {u : Slot} {e e' : Timed} {event : Event} (mine : own u e = some event)
    (mine' : own u e' = some event) (fits : Fits u db event) (alike : AlikeOn u db db') :
    timelessSlot (rowAt (step db e) u 0) = timelessSlot (rowAt (step db' e') u 0) := by
  have moves := rowMove_own mine mine' fits alike.row
  have here : ∀ {db e m}, own u e = some event → rowMove db e = some m → m.row.slot = u := by
    intro db e m mine moved
    obtain ⟨same, about_⟩ := about_of_own mine
    have named := about_of_rowMove moved
    rw [same, about_] at named
    exact (Option.some.inj named).symm
  rw [timelessSlot_step, timelessSlot_step]
  cases moved : rowMove db e with
  | none =>
      rw [moved] at moves
      rw [Option.map_eq_none_iff.mp moves.symm]
      exact alike.row
  | some m =>
      rw [moved] at moves
      obtain ⟨m', moved', same⟩ := Option.map_eq_some_iff.mp moves.symm
      rw [moved']
      dsimp only
      rw [if_pos (here mine moved), if_pos (here mine' moved')]
      exact timelessSlot_readBack same.symm

theorem row_others {db : Db} {u : Slot} {e : Timed} (foreign : about e.event ≠ some u) :
    timelessSlot (rowAt (step db e) u 0) = timelessSlot (rowAt db u 0) := by
  rw [timelessSlot_step]
  cases moved : rowMove db e with
  | none => rfl
  | some m =>
      dsimp only
      rw [if_neg]
      rintro rfl
      exact foreign (about_of_rowMove moved)

omit [DenunciationDigest] in
theorem foreign_of_own {u : Slot} {e : Timed} (other : own u e = none) :
    about e.event ≠ some u := by
  intro here
  rw [own, if_pos here] at other
  cases other

/-- **A slot keeps to itself.** -/
theorem shard (u : Slot) :
    Shard step (AlikeOn u) (own u) (Fits u) fun e => Spares u e.event where
  symm := AlikeOn.symm
  mine := by
    intro db db' e e' event mine mine' fits alike
    refine ⟨row_own mine mine' fits alike, ?_, ?_⟩
    · rw [filedEvents_step, filedEvents_step, eventMove_own mine mine' fits alike.row]
      exact alikeAt_run blanks_events ⟨rfl, rfl⟩ alike.events
    · rw [filedTransfers_step, filedTransfers_step]
      exact alikeAt_run blanks_transfers (transferMove_own mine mine' fits alike.row) alike.transfers
  others := by
    intro db db' e other spares alike
    have foreign := foreign_of_own other
    refine ⟨(row_others foreign).trans alike.row, ?_, ?_⟩
    · rw [filedEvents_step]
      obtain ⟨kept, spared⟩ := eventMove_passes foreign spares db
      exact alike.events.of_sameAt (sameAt_spared kept spared _)
    · rw [filedTransfers_step]
      obtain ⟨kept, spared⟩ := transferMove_passes foreign spares db
      exact alike.transfers.of_sameAt (sameAt_spared kept spared _)

/-! ## The laws -/

/-- **What the store holds of a slot is what the slot's own events make of it**, taken in their order:
stores that hold the same of the slot still do after two runs that bring it the same events, whatever
they bring of other slots in between and whenever they bring it. The slot's blocks have only operations
that can be filed, its peer answers do not dispute the verdict they meet, and no patch of another slot
carries its rows. -/
theorem slot_goes_by_own_events (u : Slot) (db db' : Db) (alike : AlikeOn u db db')
    (es es' : List Timed)
    (same : es.filterMap (own u) = es'.filterMap (own u))
    (spared : ∀ e ∈ es ++ es', about e.event ≠ some u → Spares u e.event)
    (fit : FitAlong step (own u) (Fits u) db es) :
    AlikeOn u (run step db es) (run step db' es') := by
  refine (shard u).alike_run same ?_ ?_ fit alike
  · exact fun e member foreign => spared e (List.mem_append_left _ member) (foreign_of_own foreign)
  · exact fun e member foreign => spared e (List.mem_append_right _ member) (foreign_of_own foreign)

/-! ### Two lanes -/

omit [DenunciationDigest] in
/-- The events of a slot that come over one lane, as that lane brought them. -/
theorem own_applied {u : Slot} {lane : Lane} {applied : List (Lane × Timed)}
    (one : ∀ p ∈ applied, p.1 ≠ lane → about p.2.event ≠ some u) :
    (applied.map Prod.snd).filterMap (own u) =
      ((applied.filter fun p => p.1 = lane).map fun p => p.2.event).filter (about · = some u) := by
  induction applied with
  | nil => rfl
  | cons p rest ih =>
      obtain ⟨here, later⟩ := List.forall_mem_cons.mp one
      rw [List.map_cons]
      by_cases ours : about p.2.event = some u
      · have ridden : p.1 = lane := by
          by_contra other
          exact here other ours
        rw [List.filterMap_cons_some (show own u p.2 = some p.2.event from if_pos ours), ih later,
          List.filter_cons_of_pos (by simpa using ridden), List.map_cons,
          List.filter_cons_of_pos (by simpa using ours)]
      · rw [List.filterMap_cons_none (show own u p.2 = none from if_neg ours), ih later]
        by_cases ridden : p.1 = lane
        · rw [List.filter_cons_of_pos (by simpa using ridden), List.map_cons,
            List.filter_cons_of_neg (by simpa using ours)]
        · rw [List.filter_cons_of_neg (by simpa using ridden)]

/-- What a drained lane has applied is what was sent on it. -/
theorem applied_of_drained {start : Db} {w : Ingest} (sound : Ingest.Sound start w) {lane : Lane}
    (drained : (w.channel lane).queue = []) : w.appliedOn lane = (w.channel lane).sent := by
  have history := sound.channels lane
  rw [Theory.Channel.Sound, drained, List.append_nil] at history
  rw [sound.taken lane, history]

theorem sent_of_applied {start : Db} {w : Ingest} (sound : Ingest.Sound start w) {p : Lane × Timed}
    (member : p ∈ w.applied) : p.2.event ∈ (w.channel p.1).sent := by
  have took : p.2.event ∈ w.appliedOn p.1 :=
    List.mem_map.mpr ⟨p, List.mem_filter.mpr ⟨member, by simp⟩, rfl⟩
  rw [sound.taken] at took
  rw [← sound.channels p.1]
  exact List.mem_append_left _ took

/-- **Reordering across the lanes is safe.** Two schedules of the writer that bring the lanes the same
events, and drain them, leave the same of a slot whose events all come over one lane. -/
theorem cross_lane_order_immaterial (start : Db) (acts acts' : List Act) (u : Slot) (lane : Lane)
    (drained : ∀ l, ((run Ingest.act (.init start true) acts).channel l).queue = [] ∧
      ((run Ingest.act (.init start true) acts').channel l).queue = [])
    (sent : ∀ l, ((run Ingest.act (.init start true) acts).channel l).sent =
      ((run Ingest.act (.init start true) acts').channel l).sent)
    (one : ∀ l, l ≠ lane → ∀ e ∈ ((run Ingest.act (.init start true) acts).channel l).sent,
      about e ≠ some u)
    (spared : ∀ l, ∀ e ∈ ((run Ingest.act (.init start true) acts).channel l).sent,
      about e ≠ some u → Spares u e)
    (fit : FitAlong step (own u) (Fits u) start
      ((run Ingest.act (.init start true) acts).applied.map Prod.snd)) :
    AlikeOn u (run Ingest.act (.init start true) acts).db
        (run Ingest.act (.init start true) acts').db := by
  have sound := Ingest.sound_run (Ingest.sound_init start true) acts
  have sound' := Ingest.sound_run (Ingest.sound_init start true) acts'
  generalize run Ingest.act (.init start true) acts = w at *
  generalize run Ingest.act (.init start true) acts' = w' at *
  have mine : (w.applied.map Prod.snd).filterMap (own u) =
      ((w.channel lane).sent).filter (about · = some u) := by
    rw [own_applied fun p member other => one p.1 other _ (sent_of_applied sound member),
      ← applied_of_drained sound (drained lane).1]
    rfl
  have mine' : (w'.applied.map Prod.snd).filterMap (own u) =
      ((w.channel lane).sent).filter (about · = some u) := by
    rw [own_applied fun p member other => one p.1 other _ (sent p.1 ▸ sent_of_applied sound' member),
      sent lane, ← applied_of_drained sound' (drained lane).2]
    rfl
  rw [sound.db, sound'.db]
  refine (shard u).alike_run (mine.trans mine'.symm) (fun e member foreign => ?_)
    (fun e member foreign => ?_) fit (.refl u start)
  · obtain ⟨p, applied, rfl⟩ := List.mem_map.mp member
    exact spared p.1 _ (sent_of_applied sound applied) (foreign_of_own foreign)
  · obtain ⟨p, applied, rfl⟩ := List.mem_map.mp member
    exact spared p.1 _ (sent p.1 ▸ sent_of_applied sound' applied) (foreign_of_own foreign)

end Slots

section TwoSlots

attribute [local instance] Bs58Check.doubleSha Chain.noDenunciations

/-! ## A frame and a verdict for another slot -/

/-- The FINAL output of a missed slot (5, 1), with one event. -/
def missFrame : Event :=
  .exec
    { status := 2
      executionOutput := some { slot := some ⟨5, 1⟩, blockId := none, events := [{}] } }

/-- A verdict the operator forces on (7, 0). -/
def otherMiss : Event := .forcedVerdict { period := 7, thread := 0, finalKnown := true, isMiss := true }

theorem slot_goes_by_own_events_pair :
    AlikeOn ⟨5, 1⟩ (run step Db.empty [⟨missFrame, 1⟩, ⟨otherMiss, 2⟩])
      (run step Db.empty [⟨otherMiss, 3⟩, ⟨missFrame, 4⟩]) := by
  refine slot_goes_by_own_events ⟨5, 1⟩ Db.empty Db.empty (.refl _ _) _ _ rfl ?_ ?_
  · simp [missFrame, otherMiss, Spares]
  · refine ⟨?_, ?_, trivial⟩
    · rintro _ ⟨⟩
      trivial
    · rintro _ ⟨⟩

/-- The live lane goes first. -/
def liveFirst : List Act :=
  [.send .live missFrame, .send .bulk otherMiss, .poll 1, .poll 2, .poll 3]

/-- The bulk lane goes first. -/
def bulkFirst : List Act :=
  [.send .bulk otherMiss, .poll 1, .poll 2, .send .live missFrame, .poll 3]

theorem cross_lane_order_immaterial_pair :
    AlikeOn ⟨5, 1⟩ (run Ingest.act (.init Db.empty true) liveFirst).db
      (run Ingest.act (.init Db.empty true) bulkFirst).db := by
  have live : (run Ingest.act (.init Db.empty true) liveFirst).channel .live =
      ⟨[], false, [missFrame], [missFrame]⟩ := rfl
  have bulk : (run Ingest.act (.init Db.empty true) liveFirst).channel .bulk =
      ⟨[], false, [otherMiss], [otherMiss]⟩ := rfl
  refine cross_lane_order_immaterial Db.empty liveFirst bulkFirst ⟨5, 1⟩ .live ?_ ?_ ?_ ?_ ?_
  · rintro (_ | _) <;> exact ⟨rfl, rfl⟩
  · rintro (_ | _) <;> rfl
  · rintro (_ | _) other e member
    · exact absurd rfl other
    · rw [bulk] at member
      obtain rfl := List.mem_singleton.mp member
      decide
  · rintro (_ | _) e member foreign
    · rw [live] at member
      obtain rfl := List.mem_singleton.mp member
      trivial
    · rw [bulk] at member
      obtain rfl := List.mem_singleton.mp member
      trivial
  · refine ⟨?_, ?_, trivial⟩
    · rintro _ ⟨⟩
      trivial
    · rintro _ ⟨⟩

end TwoSlots

end MassaIndexer.Laws.CrossLane
