/- # Explorer.LiveDag -- the slot cache of the live view

The view hears slot rows from `/v1/stream/slots`, fetches the newest slots every few seconds, and
drops what has scrolled out of its window. What it hears goes into a short list, newest first, that is
merged whenever the view renders; a fetched row also replaces one of the same millisecond, if it says
something else. -/
import MassaIndexer.Data.Model
import MassaIndexer.Theory.Freshest

namespace MassaIndexer.Explorer.LiveDag

open MassaIndexer.Data.Ids MassaIndexer.Data.Model MassaIndexer.Theory.Freshest

set_option autoImplicit false

structure ChainParams where
  genesisTimestampMs : Int
  t0Ms : Int
  threadCount : Nat

def slotTimestampMs (s : Slot) (params : ChainParams) : Int :=
  if params.threadCount = 0 ∨ params.t0Ms = 0 then 0
  else params.genesisTimestampMs + s.period.toNat * params.t0Ms +
    params.t0Ms * s.thread.toNat / params.threadCount

/-- `useSseSlots(client, 256)`. -/
def maxItems : Nat := 256

structure DagCache where
  slots : Slot → Option SlotState := fun _ => none
  events : List SlotState := []

/-- Does a fetched row replace the one that is held? -/
def refreshes (prev s : SlotState) : Bool :=
  (decide (prev.lastUpdatedTsMs ≠ s.lastUpdatedTsMs) || decide (prev.status ≠ s.status) ||
    decide (prev.finalBlockId ≠ s.finalBlockId)) &&
      decide (prev.lastUpdatedTsMs ≤ s.lastUpdatedTsMs)

/-- Does a row from the stream replace the one that is held? -/
def updates (prev e : SlotState) : Bool := decide (prev.lastUpdatedTsMs < e.lastUpdatedTsMs)

def mergeSlotsIntoCache (m : Slot → Option SlotState) (rows : List SlotState) :
    (Slot → Option SlotState) × Bool :=
  rows.foldl (fun (m, changed) s =>
    match m s.slot with
    | none => (Function.update m s.slot (some s), true)
    | some prev =>
        if refreshes prev s then (Function.update m s.slot (some s), true) else (m, changed))
    (m, false)

namespace DagCache

variable (d : DagCache)

/-- `es.onmessage`, on a frame that is a `slot_updated`. -/
def message (row : SlotState) : DagCache := { d with events := (row :: d.events).take maxItems }

/-- The effect on `events`. -/
def render : DagCache :=
  { d with
    slots := d.events.foldl (fun m e =>
      match m e.slot with
      | none => Function.update m e.slot (some e)
      | some prev => if updates prev e then Function.update m e.slot (some e) else m) d.slots }

def page (rows : List SlotState) : DagCache :=
  { d with slots := (mergeSlotsIntoCache d.slots rows).1 }

def prune (params : ChainParams) (cutoff : Int) : DagCache :=
  { d with slots := fun s => if slotTimestampMs s params < cutoff then none else d.slots s }

end DagCache

/-! ## As a cache of the freshest rows -/

theorem fair_refreshes : Fair SlotState.lastUpdatedTsMs refreshes where
  older _ _ taken := by
    simp only [refreshes, Bool.and_eq_true, decide_eq_true_eq] at taken
    exact taken.2
  newer _ _ newer := by
    have differ := ne_of_lt newer
    have le := le_of_lt newer
    simp [refreshes, differ, le]

theorem fair_updates : Fair SlotState.lastUpdatedTsMs updates where
  older _ _ taken := le_of_lt (of_decide_eq_true taken)
  newer _ _ newer := decide_eq_true newer

/-- A row that a fetched one does not replace is newer, or says the same. -/
theorem same_of_not_refreshes {p r : SlotState} (refused : refreshes p r = false)
    (older : p.lastUpdatedTsMs ≤ r.lastUpdatedTsMs) :
    p.lastUpdatedTsMs = r.lastUpdatedTsMs ∧ p.status = r.status ∧ p.finalBlockId = r.finalBlockId := by
  simpa [refreshes, older, and_assoc] using refused

theorem merge_eq_offers (m : Slot → Option SlotState) (rows : List SlotState) :
    (mergeSlotsIntoCache m rows).1 = rows.foldl (offer SlotState.slot refreshes) m := by
  have offered : ∀ (rows : List SlotState) (m : Slot → Option SlotState) (changed : Bool),
      (rows.foldl (fun (m, changed) s =>
        match m s.slot with
        | none => (Function.update m s.slot (some s), true)
        | some prev =>
            if refreshes prev s then (Function.update m s.slot (some s), true) else (m, changed))
        (m, changed)).1 = rows.foldl (offer SlotState.slot refreshes) m := by
    intro rows
    induction rows with
    | nil => exact fun m changed => rfl
    | cons s rows ih =>
        intro m changed
        rw [List.foldl_cons, List.foldl_cons, offer]
        dsimp only
        cases held : m s.slot with
        | none => exact ih _ true
        | some prev =>
            dsimp only [Option.all_some]
            split
            · exact ih _ true
            · exact ih _ changed
  exact offered rows m false

theorem slots_render (d : DagCache) :
    d.render.slots = d.events.foldl (offer SlotState.slot updates) d.slots := by
  unfold DagCache.render
  dsimp only
  congr 1
  funext m e
  rw [offer]
  cases m e.slot <;> rfl

theorem slots_prune (d : DagCache) (params : ChainParams) (cutoff : Int) :
    (d.prune params cutoff).slots = evict (fun s => slotTimestampMs s params < cutoff) d.slots := by
  funext s
  simp [DagCache.prune, evict]

end MassaIndexer.Explorer.LiveDag
