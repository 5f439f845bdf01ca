/-
# Laws.BackfillWindow -- what a window asks for, and the books of filling it

`needs_fetch` and `is_complete` decide separately whether a row lacks something. A FINAL row that is complete
on every enabled stream is left alone exactly when it is a miss, has a block body or there is nothing to ask
for (`complete_not_fetched_iff`): the body is looked for even where the stream of blocks is disabled.

Filling a window from range streams sends each slot that was needed at most one patch, whatever the streams
bring; if the channel stays open the needs are struck off by exactly what was sent, and if it closes the caller
gets them back as they were (`window_books`).
-/
import MassaIndexer.Peer.Backfill

namespace MassaIndexer.Laws.BackfillWindow

open MassaIndexer.Theory.Sweep
open MassaIndexer.Data.Ids MassaIndexer.Data.Model MassaIndexer.Data.Proto
open MassaIndexer.Peer.Patch MassaIndexer.Peer.Backfill

set_option autoImplicit false

/-! ## Complete rows -/

/-- A FINAL row that only its missing parts could be asked for: no recheck covers it, and it is no miss that
has candidate blocks. -/
structure Settled (s : SlotState) (sweep : SweepCtx) : Prop where
  final : s.status = .final
  outside : sweep.inRecheck s.slot.period = false
  unsuspicious : ¬ (s.isMiss = true ∧ s.candidateBlockIds ≠ [])

/-- No part is both enabled and requestable. -/
structure NothingToAsk (enabled : StreamsExpected) (requestable : FinalSlotParts) : Prop where
  block : (enabled.filledBlocks && requestable.block) = false
  execOutput : (enabled.slotExecutionOutputs && requestable.execOutput) = false
  transfers : (enabled.transfers && requestable.transfers) = false

theorem allEnabled_eq_none_iff {enabled : StreamsExpected} {requestable : FinalSlotParts} :
    allEnabled enabled requestable = none ↔ NothingToAsk enabled requestable := by
  constructor
  · intro asked
    simp only [allEnabled] at asked
    split at asked
    · cases asked
    · next nothing =>
        simp only [Bool.or_eq_true, not_or, Bool.not_eq_true] at nothing
        exact ⟨nothing.1.1, nothing.1.2, nothing.2⟩
  · rintro ⟨block, execOutput, transfers⟩
    simp [allEnabled, block, execOutput, transfers]

variable {cfg : BackfillConfig} {sweep : SweepCtx} {s : SlotState}

/-- Parts are complete only where their streams are disabled or their flags are set. -/
theorem parts_of_complete (complete : isComplete s.completeness s.isMiss cfg.expectedStreams = true) :
    (cfg.expectedStreams.slotExecutionOutputs && !s.completeness.execOutputFinal) = false ∧
    (cfg.expectedStreams.transfers && !s.completeness.transfersStored) = false := by
  simp only [isComplete, Bool.and_eq_true, Bool.or_eq_true, Bool.not_eq_true'] at complete
  obtain ⟨⟨-, exec⟩, transfers⟩ := complete
  constructor
  · rcases exec with disabled | there
    · rw [disabled, Bool.false_and]
    · rw [there, Bool.not_true, Bool.and_false]
  · rcases transfers with disabled | there
    · rw [disabled, Bool.false_and]
    · rw [there, Bool.not_true, Bool.and_false]

theorem needsFetch_settled (settled : Settled s sweep)
    (complete : isComplete s.completeness s.isMiss cfg.expectedStreams = true) :
    needsFetch (some s) cfg sweep =
      if !s.isMiss && !s.completeness.blockBodyStored then
        (allEnabled cfg.expectedStreams cfg.parts).map (·, .gap)
      else none := by
  have plain : (s.isMiss && !s.candidateBlockIds.isEmpty) = false := by
    rw [← Bool.not_eq_true, Bool.and_eq_true, Bool.not_eq_true', List.isEmpty_eq_false_iff]
    exact settled.unsuspicious
  obtain ⟨exec, transfers⟩ := parts_of_complete complete
  have execAsked : (cfg.expectedStreams.slotExecutionOutputs && cfg.parts.execOutput &&
      !s.completeness.execOutputFinal) = false := by rw [Bool.and_right_comm, exec, Bool.false_and]
  have transfersAsked : (cfg.expectedStreams.transfers && cfg.parts.transfers &&
      !s.completeness.transfersStored) = false := by
    rw [Bool.and_right_comm, transfers, Bool.false_and]
  simp only [needsFetch, settled.final, settled.outside, plain, execAsked, transfersAsked]
  simp

/-- **A settled row complete on every enabled stream is left alone exactly when it is a miss, has its block
body or nothing can be asked for.** -/
theorem complete_not_fetched_iff (cfg : BackfillConfig) (sweep : SweepCtx) (s : SlotState)
    (settled : Settled s sweep)
    (complete : isComplete s.completeness s.isMiss cfg.expectedStreams = true) :
    needsFetch (some s) cfg sweep = none ↔
      s.isMiss = true ∨ s.completeness.blockBodyStored = true ∨
        NothingToAsk cfg.expectedStreams cfg.parts := by
  rw [needsFetch_settled settled complete, ← allEnabled_eq_none_iff]
  cases s.isMiss with
  | true => simp
  | false =>
      cases s.completeness.blockBodyStored with
      | true => simp
      | false => simp

/-- A FINAL row with all but a block body. -/
def bodyless : SlotState :=
  { SlotState.fresh ⟨1, 0⟩ 0 with
    status := .final
    completeness :=
      { blockBodyStored := false, execOutputFinal := true, execOutputCandidate := false
        transfersStored := true } }

/-- The stream of blocks is disabled. -/
def withoutBlocks : BackfillConfig := { expectedStreams := { filledBlocks := false } }

/-- Complete without a block body, and fetched all the same. -/
theorem complete_row_fetched :
    Settled bodyless { head := 2000 } ∧
    isComplete bodyless.completeness bodyless.isMiss withoutBlocks.expectedStreams = true ∧
    needsFetch (some bodyless) withoutBlocks { head := 2000 } ≠ none :=
  ⟨⟨rfl, rfl, by decide⟩, by decide, by decide⟩

theorem complete_not_fetched_iff_bodyless :
    needsFetch (some bodyless) withoutBlocks { head := 2000 } = none ↔
      bodyless.isMiss = true ∨ bodyless.completeness.blockBodyStored = true ∨
        NothingToAsk withoutBlocks.expectedStreams withoutBlocks.parts :=
  complete_not_fetched_iff withoutBlocks { head := 2000 } bodyless ⟨rfl, rfl, by decide⟩ (by decide)

/-! ## The books of a window -/

variable {skipEmpty : Bool} {needy : List Slot} {f : Filling Slot FinalSlotResponse}

/-- A message is an offer: it is taken if the channel takes it, and passed over if nothing needs it. The
closed channel refuses it, which strikes its slot off and nothing more. -/
theorem readStream_message (f : Filling Slot FinalSlotResponse) (resp : FinalSlotResponse)
    (accepted : Bool) (rest : List Poll) :
    (accepted = true ∨ take (offered skipEmpty) f resp = f) ∧
      readStream skipEmpty f (.message resp accepted :: rest) =
        readStream skipEmpty (take (offered skipEmpty) f resp) rest ∨
    accepted = false ∧ ∃ left, readStream skipEmpty f (.message resp accepted :: rest) =
      ({ f with remaining := left }, false) := by
  rw [← applyFrame_eq, readStream, applyFrame]
  cases resp.finalKnown with
  | false => exact .inl ⟨.inr rfl, rfl⟩
  | true =>
      cases slotOf resp with
      | none => exact .inl ⟨.inr rfl, rfl⟩
      | some s =>
          by_cases needed : s ∈ f.remaining
          · cases skipEmpty && responseIsEmptyForParts resp with
            | true => simp [needed]
            | false => cases accepted <;> simp [needed]
          · simp [needed]

/-- The books as they were when the last message was sent. -/
def BooksUntil (skipEmpty : Bool) (needy : List Slot)
    (after : Filling Slot FinalSlotResponse × Bool) : Prop :=
  ∃ f, Booked (offered skipEmpty) needy f ∧ after.1.taken = f.taken ∧ (after.2 = true → after.1 = f)

theorem booksUntil_readStream (booked : Booked (offered skipEmpty) needy f) (polls : List Poll) :
    BooksUntil skipEmpty needy (readStream skipEmpty f polls) := by
  induction polls generalizing f with
  | nil => exact ⟨f, booked, rfl, fun _ => rfl⟩
  | cons poll rest ih =>
      cases poll with
      | message resp accepted =>
          rcases readStream_message f resp accepted rest with ⟨-, goesOn⟩ | ⟨-, left, stops⟩
          · rw [goesOn]
            exact ih (booked.take resp)
          · rw [stops]
            exact ⟨f, booked, rfl, fun sent => by cases sent⟩
      | ended => exact ⟨f, booked, rfl, fun _ => rfl⟩
      | error e => exact ⟨f, booked, rfl, fun _ => rfl⟩
      | stalled => exact ⟨f, booked, rfl, fun _ => rfl⟩

theorem booksUntil_fillFromPeers (booked : Booked (offered skipEmpty) needy f) (turns : List PeerTurn) :
    BooksUntil skipEmpty needy (fillFromPeers skipEmpty f turns) := by
  induction turns generalizing f with
  | nil => exact ⟨f, booked, rfl, fun _ => rfl⟩
  | cons turn rest ih =>
      rw [fillFromPeers]
      split
      · exact ⟨f, booked, rfl, fun _ => rfl⟩
      · split
        · exact ⟨f, booked, rfl, fun sent => by cases sent⟩
        · cases turn.stream with
          | error e => exact ih booked
          | ok polls =>
              obtain ⟨g, books, taken, same⟩ := booksUntil_readStream booked polls
              dsimp only
              split
              · next sent =>
                  rw [same sent]
                  exact ih books
              · exact ⟨g, books, taken, same⟩

/-! ### What is sent, and when the channel has closed -/

/-- A message that a stream brings and the channel takes. -/
def Brings (turns : List PeerTurn) (resp : FinalSlotResponse) : Prop :=
  ∃ turn ∈ turns, ∃ polls, turn.stream = .ok polls ∧ Poll.message resp true ∈ polls

/-- The channel is found closed, before a stream or by a send. -/
def Closes (turns : List PeerTurn) : Prop :=
  ∃ turn ∈ turns, turn.channelClosed = true ∨
    ∃ polls resp, turn.stream = .ok polls ∧ Poll.message resp false ∈ polls

theorem taken_take {o p : FinalSlotResponse} (taken : p ∈ (take (offered skipEmpty) f o).taken) :
    p ∈ f.taken ∨ p = o ∧ take (offered skipEmpty) f o ≠ f := by
  by_cases same : take (offered skipEmpty) f o = f
  · rw [same] at taken
    exact .inl taken
  · rcases mem_taken_take taken with before | ⟨here, -⟩
    · exact .inl before
    · exact .inr ⟨here, same⟩

theorem taken_readStream {polls : List Poll} {p : FinalSlotResponse}
    (taken : p ∈ (readStream skipEmpty f polls).1.taken) :
    p ∈ f.taken ∨ Poll.message p true ∈ polls := by
  induction polls generalizing f with
  | nil => exact .inl taken
  | cons poll rest ih =>
      cases poll with
      | message resp accepted =>
          rcases readStream_message f resp accepted rest with ⟨goes, goesOn⟩ | ⟨-, left, stops⟩
          · rw [goesOn] at taken
            rcases ih taken with before | later
            · rcases taken_take before with earlier | ⟨rfl, moved⟩
              · exact .inl earlier
              · rw [goes.resolve_right moved]
                exact .inr List.mem_cons_self
            · exact .inr (List.mem_cons_of_mem _ later)
          · rw [stops] at taken
            exact .inl taken
      | ended => exact .inl taken
      | error e => exact .inl taken
      | stalled => exact .inl taken

theorem closed_readStream {polls : List Poll} (closed : (readStream skipEmpty f polls).2 = false) :
    ∃ resp, Poll.message resp false ∈ polls := by
  induction polls generalizing f with
  | nil => cases closed
  | cons poll rest ih =>
      cases poll with
      | message resp accepted =>
          rcases readStream_message f resp accepted rest with ⟨-, goesOn⟩ | ⟨refused, -⟩
          · rw [goesOn] at closed
            obtain ⟨later, member⟩ := ih closed
            exact ⟨later, List.mem_cons_of_mem _ member⟩
          · rw [refused]
            exact ⟨resp, List.mem_cons_self⟩
      | ended => cases closed
      | error e => cases closed
      | stalled => cases closed

theorem taken_fillFromPeers {turns : List PeerTurn} {p : FinalSlotResponse}
    (taken : p ∈ (fillFromPeers skipEmpty f turns).1.taken) : p ∈ f.taken ∨ Brings turns p := by
  induction turns generalizing f with
  | nil => exact .inl taken
  | cons turn rest ih =>
      have later : ∀ {g}, p ∈ (fillFromPeers skipEmpty g rest).1.taken →
          p ∈ g.taken ∨ Brings (turn :: rest) p := by
        intro g inRest
        rcases ih inRest with before | ⟨other, member, brings⟩
        · exact .inl before
        · exact .inr ⟨other, List.mem_cons_of_mem turn member, brings⟩
      rw [fillFromPeers] at taken
      split at taken
      · exact .inl taken
      · split at taken
        · exact .inl taken
        · cases stream : turn.stream with
          | error e =>
              rw [stream] at taken
              exact later taken
          | ok polls =>
              have now : ∀ {q}, q ∈ (readStream skipEmpty f polls).1.taken →
                  q ∈ f.taken ∨ Brings (turn :: rest) q := by
                intro q inStream
                rcases taken_readStream inStream with before | message
                · exact .inl before
                · exact .inr ⟨turn, List.mem_cons_self, polls, stream, message⟩
              rw [stream] at taken
              dsimp only at taken
              split at taken
              · rcases later taken with before | brings
                · exact now before
                · exact .inr brings
              · exact now taken

theorem closed_fillFromPeers {turns : List PeerTurn}
    (closed : (fillFromPeers skipEmpty f turns).2 = false) : Closes turns := by
  induction turns generalizing f with
  | nil => cases closed
  | cons turn rest ih =>
      have later : ∀ {g}, (fillFromPeers skipEmpty g rest).2 = false → Closes (turn :: rest) := by
        intro g inRest
        obtain ⟨other, member, closes⟩ := ih inRest
        exact ⟨other, List.mem_cons_of_mem turn member, closes⟩
      rw [fillFromPeers] at closed
      split at closed
      · cases closed
      · split at closed
        · next found => exact ⟨turn, List.mem_cons_self, .inl found⟩
        · cases stream : turn.stream with
          | error e =>
              rw [stream] at closed
              exact later closed
          | ok polls =>
              rw [stream] at closed
              dsimp only at closed
              split at closed
              · exact later closed
              · obtain ⟨resp, refused⟩ := closed_readStream closed
                exact ⟨turn, List.mem_cons_self, .inr ⟨polls, resp, stream, refused⟩⟩

/-! ### While the channel stays open -/

/-- The messages of a stream, up to what ends it. -/
def messages : List Poll → List FinalSlotResponse
  | .message resp _ :: rest => resp :: messages rest
  | _ => []

def PeerTurn.frames (turn : PeerTurn) : Except String (List FinalSlotResponse) :=
  turn.stream.map messages

theorem readStream_open {polls : List Poll} (isOpen : ∀ resp, Poll.message resp false ∉ polls) :
    readStream skipEmpty f polls = (fill (offered skipEmpty) f (messages polls), true) := by
  induction polls generalizing f with
  | nil => rfl
  | cons poll rest ih =>
      cases poll with
      | message resp accepted =>
          rcases readStream_message f resp accepted rest with ⟨-, goesOn⟩ | ⟨refused, -⟩
          · rw [goesOn, ih fun later member => isOpen later (List.mem_cons_of_mem _ member)]
            rfl
          · rw [refused] at isOpen
            exact absurd List.mem_cons_self (isOpen resp)
      | ended => rfl
      | error e => rfl
      | stalled => rfl

theorem fillFromPeers_open {turns : List PeerTurn} (isOpen : ¬ Closes turns) :
    fillFromPeers skipEmpty f turns =
      (fill (offered skipEmpty) f ((turns.map PeerTurn.frames).flatMap framesOf), true) := by
  induction turns generalizing f with
  | nil => rfl
  | cons turn rest ih =>
      have others : ¬ Closes rest := by
        rintro ⟨other, member, closes⟩
        exact isOpen ⟨other, List.mem_cons_of_mem turn member, closes⟩
      have found : turn.channelClosed = false := Bool.eq_false_iff.mpr fun closed =>
        isOpen ⟨turn, List.mem_cons_self, .inl closed⟩
      rw [fillFromPeers, List.map_cons, List.flatMap_cons, fill_append, found]
      split
      · next done =>
          have nothing := List.isEmpty_iff.mp done
          rw [fill_of_done nothing, fill_of_done nothing]
      · cases stream : turn.stream with
        | error e =>
            rw [PeerTurn.frames, stream]
            exact ih others
        | ok polls =>
            have accepts : ∀ resp, Poll.message resp false ∉ polls := fun resp refused =>
              isOpen ⟨turn, List.mem_cons_self, .inr ⟨polls, resp, stream, refused⟩⟩
            rw [PeerTurn.frames, stream]
            dsimp only
            rw [readStream_open accepts, if_pos rfl]
            exact ih others

/-- **Into an open channel the window is filled as a sweep fills it.** -/
theorem rangeFillWindow_open {turns : List PeerTurn} (isOpen : ¬ Closes turns) :
    (rangeFillWindow skipEmpty turns needy).enqueued =
      (rangeFillWindowOpts skipEmpty (turns.map PeerTurn.frames) needy).taken ∧
    (rangeFillWindow skipEmpty turns needy).needy =
      (rangeFillWindowOpts skipEmpty (turns.map PeerTurn.frames) needy).remaining := by
  have all : fillFromPeers skipEmpty { remaining := needy } turns = _ := fillFromPeers_open isOpen
  rw [rangeFillWindowOpts_eq, rangeFillWindow, all]
  refine ⟨rfl, ?_⟩
  show needy.filter (· ∈ (fill (offered skipEmpty) { remaining := needy } _).remaining) = _
  rw [remaining_fill]
  refine List.filter_congr fun s member => ?_
  rw [decide_eq_decide, List.mem_filter, decide_eq_true_eq]
  exact and_iff_right member

/-! ### The law -/

/-- The books of a window on return. -/
structure WindowBooks (skipEmpty : Bool) (turns : List PeerTurn) (needy : List Slot)
    (fill : WindowFill) : Prop where
  once : (fill.enqueued.map slotOf).Nodup
  needed : ∀ resp ∈ fill.enqueued, Brings turns resp ∧ resp.finalKnown = true ∧
    ∃ s ∈ needy, slotOf resp = some s
  payload : skipEmpty = true → ∀ resp ∈ fill.enqueued, responseIsEmptyForParts resp = false
  struck : fill.channelOpen = true → fill.needy = needy.filter fun s => some s ∉ fill.enqueued.map slotOf
  untouched : fill.channelOpen = false → fill.needy = needy ∧ Closes turns

/-- An offer shows the slot of its message, which is FINAL and, if empty ones are skipped, not empty. -/
theorem of_offered {resp : FinalSlotResponse} {s : Slot} (asked : offered skipEmpty resp = some s) :
    slotOf resp = some s ∧ resp.finalKnown = true ∧
      (skipEmpty = true → responseIsEmptyForParts resp = false) := by
  unfold offered at asked
  split at asked
  · cases asked
  · next counts =>
      simp only [Bool.or_eq_true, Bool.not_eq_true', Bool.and_eq_true, not_or, not_and,
        Bool.not_eq_false, Bool.not_eq_true] at counts
      exact ⟨asked, counts.1, counts.2⟩

/-- **Each slot that was needed is sent at most one patch, and nothing else is; while the channel is open the
needs are struck off by what was sent, and only a closed channel returns them as they came.** -/
theorem window_books (skipEmpty : Bool) (turns : List PeerTurn) (needy : List Slot) :
    WindowBooks skipEmpty turns needy (rangeFillWindow skipEmpty turns needy) := by
  have books : BooksUntil skipEmpty needy (fillFromPeers skipEmpty { remaining := needy } turns) :=
    booksUntil_fillFromPeers (booked_start needy) turns
  obtain ⟨f, booked, taken, last⟩ := books
  have offers : ∀ resp ∈ f.taken, ∃ s ∈ needy, offered skipEmpty resp = some s := booked.needed
  have slots : f.taken.map (offered skipEmpty) = f.taken.map slotOf := by
    refine List.map_congr_left fun resp member => ?_
    obtain ⟨s, -, asked⟩ := offers resp member
    rw [asked, (of_offered asked).1]
  constructor
  · show ((fillFromPeers skipEmpty _ turns).1.taken.map slotOf).Nodup
    rw [taken, ← slots]
    exact booked.once
  · intro resp member
    have sent : resp ∈ f.taken := taken ▸ member
    obtain ⟨s, needed, asked⟩ := offers resp sent
    obtain ⟨slot, final, -⟩ := of_offered asked
    rcases taken_fillFromPeers member with before | brings
    · exact absurd before List.not_mem_nil
    · exact ⟨brings, final, s, needed, slot⟩
  · intro skips resp member
    have sent : resp ∈ f.taken := taken ▸ member
    obtain ⟨s, -, asked⟩ := offers resp sent
    exact (of_offered asked).2.2 skips
  · intro isOpen
    have whole : (fillFromPeers skipEmpty { remaining := needy } turns).1 = f := last isOpen
    refine (if_pos isOpen).trans ?_
    show needy.filter (· ∈ (fillFromPeers skipEmpty _ turns).1.remaining) =
      needy.filter fun s => some s ∉ (fillFromPeers skipEmpty _ turns).1.taken.map slotOf
    rw [whole, booked.left, slots]
    refine List.filter_congr fun s member => ?_
    rw [decide_eq_decide, List.mem_filter, decide_eq_true_eq]
    exact and_iff_right member
  · intro isClosed
    have failed : ¬ (fillFromPeers skipEmpty { remaining := needy } turns).2 = true :=
      Bool.eq_false_iff.mp isClosed
    exact ⟨if_neg failed, closed_fillFromPeers isClosed⟩

/-- A FINAL answer for a slot, with nothing in it. -/
def bareFinal (period : UInt64) : FinalSlotResponse := { period, finalKnown := true }

/-- The channel takes the first patch and has closed at the second. -/
def closingTurn : PeerTurn where
  channelClosed := false
  stream := .ok [.message (bareFinal 1) true, .message (bareFinal 2) false]

/-- The slot whose patch was sent is still needed when the channel closes. -/
theorem sent_slot_still_needed :
    ¬ ∀ s, s ∈ (rangeFillWindow false [closingTurn] [⟨1, 0⟩, ⟨2, 0⟩]).needy ↔
      s ∈ [(⟨1, 0⟩ : Slot), ⟨2, 0⟩] ∧
        some s ∉ (rangeFillWindow false [closingTurn] [⟨1, 0⟩, ⟨2, 0⟩]).enqueued.map slotOf := by
  intro struck
  have sent : some (⟨1, 0⟩ : Slot) ∈
      (rangeFillWindow false [closingTurn] [⟨1, 0⟩, ⟨2, 0⟩]).enqueued.map slotOf := by decide
  exact ((struck ⟨1, 0⟩).mp (by decide)).2 sent

end MassaIndexer.Laws.BackfillWindow
