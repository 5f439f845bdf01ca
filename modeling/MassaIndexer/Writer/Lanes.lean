/-
# Writer.Lanes -- the two lanes that feed the single writer

`Ingest::step` waits on two channels in a fixed order: the live lane, then the bulk lane. One call is
several polls: each poll looks at one branch of the `select!`, and sends and closes from the
producers may fall between any two of them. A branch is enabled while its receiver is there; a
receiver is dropped when it is told that its channel has ended, and with both gone the step returns
`false`.
-/
import MassaIndexer.Theory.Channel
import MassaIndexer.Writer.Step

namespace MassaIndexer.Writer.Lanes

open MassaIndexer.Theory MassaIndexer.Theory.Runs
open MassaIndexer.Data.Ids MassaIndexer.Store.ColumnFamilies
open MassaIndexer.Writer.Shared MassaIndexer.Writer.Step

set_option autoImplicit false

inductive Lane where
  | live
  | bulk
deriving DecidableEq

/-- Which branch of the `select!` is polled next. -/
inductive Branch where
  | first
  | second
deriving DecidableEq

structure Ingest where
  db : Db
  channel : Lane → Channel Event
  /-- `live_rx.is_some()`, `bulk_rx.is_some()`. -/
  rx : Lane → Bool
  branch : Branch := .first
  /-- The events handled so far, each with its lane and the clock it was handled at. -/
  applied : List (Lane × Timed) := []

/-- What a poll comes to: the step goes on waiting, or returns. -/
inductive Outcome where
  | waiting
  | returned (again : Bool)
deriving DecidableEq

inductive Act where
  | send (lane : Lane) (e : Event)
  | close (lane : Lane)
  | poll (nowMs : Int)

/-- `Ingest::new`, with the bulk lane wired or not: an unwired lane has no sender and no receiver. -/
def Ingest.init (db : Db) (wired : Bool) : Ingest where
  db := db
  channel := fun lane => { closed := lane = .bulk && !wired }
  rx := fun lane => lane = .live || wired

namespace Ingest

variable [Bs58Check] [DenunciationDigest]

/-- The body of one branch: handle the event, or retire the lane. -/
def onLane (w : Ingest) (lane : Lane) (pending : Branch) (nowMs : Int) : Ingest × Outcome :=
  match (w.channel lane).recv with
  | .event e =>
      ({ w with
          db := step w.db ⟨e, nowMs⟩
          channel := Function.update w.channel lane (w.channel lane).drop
          branch := .first
          applied := w.applied ++ [(lane, ⟨e, nowMs⟩)] }, .returned true)
  | .ended =>
      ({ w with rx := Function.update w.rx lane false, branch := .first }, .returned true)
  | .pending => ({ w with branch := pending }, .waiting)

/-- One poll. A branch whose receiver is gone is disabled; with both disabled the `else` branch runs. -/
def poll (w : Ingest) (nowMs : Int) : Ingest × Outcome :=
  match w.branch with
  | .first =>
      if w.rx .live then w.onLane .live .second nowMs
      else if w.rx .bulk then ({ w with branch := .second }, .waiting)
      else (w, .returned false)
  | .second =>
      if w.rx .bulk then w.onLane .bulk .first nowMs else ({ w with branch := .first }, .waiting)

def act (w : Ingest) : Act → Ingest
  | .send lane e => { w with channel := Function.update w.channel lane ((w.channel lane).send e) }
  | .close lane => { w with channel := Function.update w.channel lane (w.channel lane).close }
  | .poll nowMs => (w.poll nowMs).1

/-- The events applied from one lane, in order. -/
def appliedOn (w : Ingest) (lane : Lane) : List Event :=
  (w.applied.filter fun p => p.1 = lane).map fun p => p.2.event

/-! ## What every act keeps -/

structure Sound (start : Db) (w : Ingest) : Prop where
  channels : ∀ lane, (w.channel lane).Sound
  taken : ∀ lane, w.appliedOn lane = (w.channel lane).taken
  retired : ∀ lane, w.rx lane = false → (w.channel lane).Ended
  db : w.db = run step start (w.applied.map Prod.snd)

theorem sound_init (db : Db) (wired : Bool) : Sound db (init db wired) where
  channels := by intro lane; rfl
  taken := by intro lane; rfl
  retired := by
    intro lane gone
    cases lane with
    | live => cases gone
    | bulk =>
        have unwired : wired = false := by simpa [init] using gone
        rw [unwired]
        exact ⟨rfl, rfl⟩
  db := rfl

/-- A producer's call touches one channel and nothing the writer has done. -/
theorem sound_channel {start : Db} {w : Ingest} (sound : Sound start w) (lane : Lane)
    {c : Channel Event} (kept : c.Sound) (same : c.taken = (w.channel lane).taken)
    (ended : (w.channel lane).Ended → c.Ended) :
    Sound start { w with channel := Function.update w.channel lane c } where
  channels := by
    intro other
    by_cases here : other = lane
    · subst here
      simp only [Function.update_self]
      exact kept
    · simp only [Function.update_of_ne here]
      exact sound.channels other
  taken := by
    intro other
    by_cases here : other = lane
    · subst here
      simp only [Function.update_self, same]
      exact sound.taken other
    · simp only [Function.update_of_ne here]
      exact sound.taken other
  retired := by
    intro other gone
    by_cases here : other = lane
    · subst here
      simp only [Function.update_self]
      exact ended (sound.retired other gone)
    · simp only [Function.update_of_ne here]
      exact sound.retired other gone
  db := sound.db

/-- Handling one event moves it from its channel to what was applied. -/
theorem sound_event {start : Db} {w : Ingest} (sound : Sound start w) {lane : Lane} {e : Event}
    (present : w.rx lane = true) (told : (w.channel lane).recv = .event e) (nowMs : Int)
    (branch : Branch) :
    Sound start
      { w with
        db := step w.db ⟨e, nowMs⟩
        channel := Function.update w.channel lane (w.channel lane).drop
        branch := branch
        applied := w.applied ++ [(lane, ⟨e, nowMs⟩)] } where
  channels := by
    intro other
    by_cases here : other = lane
    · subst here
      simp only [Function.update_self]
      exact Channel.sound_drop (sound.channels other)
    · simp only [Function.update_of_ne here]
      exact sound.channels other
  taken := by
    intro other
    have before := sound.taken other
    by_cases here : other = lane
    · subst here
      simp only [Function.update_self, Channel.taken_drop_of_recv told, ← before]
      simp [appliedOn]
    · simp only [Function.update_of_ne here, ← before]
      simp [appliedOn, Ne.symm here]
  retired := by
    intro other gone
    have apart : other ≠ lane := by
      rintro rfl
      rw [present] at gone
      cases gone
    simp only [Function.update_of_ne apart]
    exact sound.retired other gone
  db := by rw [List.map_append, run_append, ← sound.db]; rfl

theorem sound_onLane {start : Db} {w : Ingest} (sound : Sound start w) {lane : Lane}
    (present : w.rx lane = true) (pending : Branch) (nowMs : Int) :
    Sound start (w.onLane lane pending nowMs).1 := by
  unfold onLane
  split
  · next e told => exact sound_event sound present told nowMs .first
  · next told =>
      refine { sound with retired := ?_ }
      intro other gone
      by_cases here : other = lane
      · subst here
        exact Channel.ended_of_recv told
      · exact sound.retired other (by simpa [Function.update_of_ne here] using gone)
  · exact { sound with }

theorem sound_act {start : Db} {w : Ingest} (sound : Sound start w) (a : Act) :
    Sound start (w.act a) := by
  cases a with
  | send lane e =>
      exact sound_channel sound lane (Channel.sound_send (sound.channels lane) e)
        (Channel.taken_send _ e) fun ended => Channel.ended_send ended e
  | close lane =>
      exact sound_channel sound lane (sound.channels lane) rfl Channel.ended_close
  | poll nowMs =>
      rw [act, poll]
      split
      · split
        · next live => exact sound_onLane sound live .second nowMs
        · split
          · exact { sound with }
          · exact sound
      · split
        · next bulk => exact sound_onLane sound bulk .first nowMs
        · exact { sound with }

/-- **The accounts hold after any interleaving.** -/
theorem sound_run {start : Db} {w : Ingest} (sound : Sound start w) (acts : List Act) :
    Sound start (run act w acts) :=
  invariant_of_step (P := Sound start) (fun _ a sound => sound_act sound a) acts sound

end Ingest

end MassaIndexer.Writer.Lanes
