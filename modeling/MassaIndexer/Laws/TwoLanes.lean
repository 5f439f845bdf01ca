/-
# Laws.TwoLanes -- what two-lane scheduling promises

`two_lanes` is for every interleaving of sends, closes and polls. Per lane, the events applied so far
followed by those still queued are the events sent: nothing is lost, repeated or reordered. A bulk
event is applied only in a step whose live branch was polled, just before, on an empty queue. A step
that returns `false` does so with both lanes closed and drained, so that by then everything sent has
been applied.
-/
import MassaIndexer.Writer.Lanes

namespace MassaIndexer.Laws.TwoLanes

open MassaIndexer.Theory MassaIndexer.Theory.Runs
open MassaIndexer.Data.Ids MassaIndexer.Store.ColumnFamilies
open MassaIndexer.Writer.Shared MassaIndexer.Writer.Step MassaIndexer.Writer.Lanes

set_option autoImplicit false

variable [Bs58Check] [DenunciationDigest]

/-! ## The live branch before the bulk branch -/

/-- The last poll of the schedule found the live queue empty. -/
def LiveWasEmpty (start : Ingest) (acts : List Act) : Prop :=
  ∃ earlier nowMs between, acts = earlier ++ .poll nowMs :: between ∧
    (∀ a ∈ between, ∀ t, a ≠ .poll t) ∧ ((run Ingest.act start earlier).channel .live).queue = []

/-- The second branch comes up only when the first one had nothing. -/
theorem live_empty_of_second {db : Db} {w : Ingest} (sound : w.Sound db) {nowMs : Int}
    (next : (w.poll nowMs).1.branch = .second) : (w.channel .live).queue = [] := by
  unfold Ingest.poll at next
  split at next
  · split at next
    · unfold Ingest.onLane at next
      split at next
      · cases next
      · cases next
      · next told => exact Channel.empty_of_recv_pending told
    · next gone => exact (sound.retired .live (by simpa using gone)).2
  · split at next
    · unfold Ingest.onLane at next
      split at next <;> cases next
    · cases next

theorem liveWasEmpty_of_second {db : Db} {start : Ingest} (sound : start.Sound db)
    (first : start.branch = .first) (acts : List Act)
    (second : (run Ingest.act start acts).branch = .second) : LiveWasEmpty start acts := by
  induction acts using List.reverseRecOn with
  | nil =>
      rw [run_nil, first] at second
      cases second
  | append_singleton acts a ih =>
      rw [run_append] at second
      cases a with
      | poll nowMs =>
          refine ⟨acts, nowMs, [], rfl, by simp, ?_⟩
          exact live_empty_of_second (Ingest.sound_run sound acts) second
      | send lane e =>
          obtain ⟨earlier, nowMs, between, split, noPoll, empty⟩ := ih second
          refine ⟨earlier, nowMs, between ++ [.send lane e], by rw [split]; simp, ?_, empty⟩
          intro b found t
          rcases List.mem_append.mp found with inside | last
          · exact noPoll b inside t
          · rw [List.mem_singleton.mp last]
            rintro ⟨⟩
      | close lane =>
          obtain ⟨earlier, nowMs, between, split, noPoll, empty⟩ := ih second
          refine ⟨earlier, nowMs, between ++ [.close lane], by rw [split]; simp, ?_, empty⟩
          intro b found t
          rcases List.mem_append.mp found with inside | last
          · exact noPoll b inside t
          · rw [List.mem_singleton.mp last]
            rintro ⟨⟩

/-- Only the second branch applies bulk events. -/
theorem second_of_bulk {w : Ingest} {nowMs : Int} {e : Timed}
    (applies : (w.poll nowMs).1.applied = w.applied ++ [(.bulk, e)]) : w.branch = .second := by
  cases branch : w.branch with
  | second => rfl
  | first =>
      rw [Ingest.poll, branch] at applies
      simp only at applies
      split at applies
      · unfold Ingest.onLane at applies
        split at applies <;> simp at applies
      · split at applies <;> simp at applies

/-! ## The end of the worker -/

theorem gone_of_false {w : Ingest} {nowMs : Int} (ends : (w.poll nowMs).2 = .returned false) :
    ∀ lane, w.rx lane = false := by
  have noLane : ∀ lane pending, (w.onLane lane pending nowMs).2 ≠ .returned false := by
    intro lane pending
    unfold Ingest.onLane
    split <;> simp
  unfold Ingest.poll at ends
  split at ends
  · split at ends
    · exact absurd ends (noLane _ _)
    · next noLive =>
        split at ends
        · cases ends
        · next noBulk =>
            intro lane
            cases lane with
            | live => simpa using noLive
            | bulk => simpa using noBulk
  · split at ends
    · exact absurd ends (noLane _ _)
    · cases ends

/-- **Two-lane scheduling, for every interleaving.** -/
theorem two_lanes (db : Db) (wired : Bool) (acts : List Act) :
    let start := Ingest.init db wired
    let w := run Ingest.act start acts
    (∀ lane, w.appliedOn lane ++ (w.channel lane).queue = (w.channel lane).sent) ∧
    w.db = run step db (w.applied.map Prod.snd) ∧
    (∀ nowMs e, (w.poll nowMs).1.applied = w.applied ++ [(.bulk, e)] → LiveWasEmpty start acts) ∧
    ∀ nowMs, (w.poll nowMs).2 = .returned false →
      ∀ lane, (w.channel lane).Ended ∧ w.appliedOn lane = (w.channel lane).sent := by
  intro start w
  have init : start.Sound db := Ingest.sound_init db wired
  have sound : w.Sound db := Ingest.sound_run init acts
  have kept : ∀ lane, w.appliedOn lane ++ (w.channel lane).queue = (w.channel lane).sent := by
    intro lane
    rw [sound.taken lane]
    exact sound.channels lane
  refine ⟨kept, sound.db, ?_, ?_⟩
  · intro nowMs e applies
    exact liveWasEmpty_of_second init rfl acts (second_of_bulk applies)
  · intro nowMs ends lane
    have ended : (w.channel lane).Ended := sound.retired lane (gone_of_false ends lane)
    have all := kept lane
    rw [ended.2, List.append_nil] at all
    exact ⟨ended, all⟩

end MassaIndexer.Laws.TwoLanes
