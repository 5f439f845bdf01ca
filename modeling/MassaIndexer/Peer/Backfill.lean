/-
# Peer.Backfill -- one sweep of the backfill worker

A sweep walks the slots from the head down to (0, 0) in windows. In each it reads the local rows and
picks the slots that `needs_fetch` asks for; a window that is densely missing is first filled from range
streams, and what is left of it -- all of it, when it was sparse -- is asked for slot by slot, unless
that is too much. What is shipped goes to the writer as `PeerPatch` events, in order; a writer that has
gone cuts the sweep short.

What the peers answer and what the local reads find is an input (`SweepEnv`): every answer may be any.
-/
import MassaIndexer.Theory.Sweep
import MassaIndexer.Writer.Step

namespace MassaIndexer.Peer.Backfill

open MassaIndexer.Theory.Sweep
open MassaIndexer.Data.Ids MassaIndexer.Data.Model MassaIndexer.Data.Proto MassaIndexer.Data.Codec
open MassaIndexer.Peer.Patch MassaIndexer.Writer.Step

set_option autoImplicit false

structure StreamsExpected where
  filledBlocks : Bool := true
  slotExecutionOutputs : Bool := true
  transfers : Bool := true

/-- `SlotCompleteness::is_complete`: every enabled stream's part is there; a miss needs no block body. -/
def isComplete (c : SlotCompleteness) (isMiss : Bool) (streams : StreamsExpected) : Bool :=
  let blockOk := !streams.filledBlocks || isMiss || c.blockBodyStored
  let execOk := !streams.slotExecutionOutputs || c.execOutputFinal
  let transfersOk := !streams.transfers || c.transfersStored
  blockOk && execOk && transfersOk

structure BackfillConfig where
  expectedStreams : StreamsExpected := {}
  parts : FinalSlotParts := { block := true, execOutput := true, transfers := true }
  threadCount : UInt8 := 32
  rangePeriods : Nat := 16
  rangeSparseThreshold : Nat := 24
  staleCandidatePeriods : Nat := 64
  recentIncompletePeriods : Nat := 1350

structure SweepCtx where
  head : UInt64
  recheckRanges : List (UInt64 × UInt64) := []

def SweepCtx.inRecheck (sweep : SweepCtx) (period : UInt64) : Bool :=
  sweep.recheckRanges.any fun range => range.1 ≤ period && period ≤ range.2

inductive FetchReason where
  | gap
  | staleCandidate
  | suspiciousMiss
  | recentIncomplete
  | recheck
deriving DecidableEq

/-! ## What a row needs -/

def allEnabled (enabled : StreamsExpected) (requestable : FinalSlotParts) : Option FinalSlotParts :=
  let parts : FinalSlotParts :=
    { block := enabled.filledBlocks && requestable.block
      execOutput := enabled.slotExecutionOutputs && requestable.execOutput
      transfers := enabled.transfers && requestable.transfers }
  if parts.block || parts.execOutput || parts.transfers then some parts else none

def needsFetch (row : Option SlotState) (cfg : BackfillConfig) (sweep : SweepCtx) :
    Option (FinalSlotParts × FetchReason) :=
  let all := fun reason => (allEnabled cfg.expectedStreams cfg.parts).map (·, reason)
  match row with
  | none => all .gap
  | some s =>
      let age := sweep.head.toNat - s.slot.period.toNat
      match s.status with
      | .unknown => all .gap
      | .candidate => if cfg.staleCandidatePeriods ≤ age then all .staleCandidate else none
      | .final =>
          if sweep.inRecheck s.slot.period then all .recheck
          else if !s.isMiss && !s.completeness.blockBodyStored then all .gap
          else if s.isMiss && !s.candidateBlockIds.isEmpty then all .suspiciousMiss
          else if age ≤ cfg.recentIncompletePeriods then
            let parts : FinalSlotParts :=
              { block := false
                execOutput := cfg.expectedStreams.slotExecutionOutputs && cfg.parts.execOutput &&
                  !s.completeness.execOutputFinal
                transfers := cfg.expectedStreams.transfers && cfg.parts.transfers &&
                  !s.completeness.transfersStored }
            if parts.execOutput || parts.transfers then some (parts, .recentIncomplete) else none
          else none

/-! ## What a sweep can see -/

/-- What the routes to one logical peer answer, in the order in which they are tried. A configured peer
that is found to be on another network is not asked. -/
inductive PeerReply where
  | networkMismatch
  | routes (answers : List (Except String FinalSlotResponse))

/-- The local reads, the first and the second of a slot; for each window what range stream each logical
peer opens, up to where it ends, breaks or stalls; for each slot what each logical peer replies. -/
structure SweepEnv where
  scan : Slot → Except String (Option SlotState)
  visit : Slot → Except String (Option SlotState)
  streams : Nat → List (Except String (List FinalSlotResponse))
  replies : Slot → FinalSlotParts → List PeerReply

/-! ## Asking slot by slot -/

/-- A route that answers without FINAL was reached; then no other route's error is one of the peer. -/
def tryRoutes : List (Except String FinalSlotResponse) → Bool → Option String →
    Except String (Option FinalSlotResponse)
  | [], true, _ => .ok none
  | [], false, some e => .error e
  | [], false, none => .ok none
  | .ok r :: rest, _, lastErr =>
      if r.finalKnown then .ok (some r) else tryRoutes rest true lastErr
  | .error e :: rest, reached, _ => tryRoutes rest reached (some e)

def fetchFromLogicalPeer : PeerReply → Except String (Option FinalSlotResponse)
  | .networkMismatch => .ok none
  | .routes answers => tryRoutes answers false none

def fetchFinalSlot : List PeerReply → Option String → Except String (Option FinalSlotResponse)
  | [], some e => .error e
  | [], none => .ok none
  | reply :: rest, lastErr =>
      match fetchFromLogicalPeer reply with
      | .ok (some r) => if r.finalKnown then .ok (some r) else fetchFinalSlot rest lastErr
      | .ok none => fetchFinalSlot rest lastErr
      | .error e => fetchFinalSlot rest (some e)

/-- What a call for a slot brings: FINAL answers only. -/
def finalAnswer (replies : List PeerReply) : Option FinalSlotResponse :=
  match fetchFinalSlot replies none with
  | .ok (some r) => if r.finalKnown then some r else none
  | _ => none

/-! ## Range streams -/

/-- A FINAL response that carries nothing a parts-only pull could apply. -/
def responseIsEmptyForParts (resp : FinalSlotResponse) : Bool :=
  let hasPayload := resp.block.isSome || !resp.operations.isEmpty || !resp.scEvents.isEmpty ||
    !resp.executedOpIds.isEmpty || !resp.asyncMsgs.isEmpty || !resp.transfers.isEmpty ||
    !resp.deferredCalls.isEmpty
  if hasPayload then false
  else
    let honoured := resp.parts.getD {}
    let asserted := resp.completenessKnown &&
      (honoured.execOutput && resp.hasExecOutput || honoured.transfers && resp.hasTransfers ||
        honoured.block && resp.hasBlockBody)
    !asserted

/-- One message of a stream. -/
def applyFrame (skipEmpty : Bool) (f : Filling Slot FinalSlotResponse) (resp : FinalSlotResponse) :
    Filling Slot FinalSlotResponse :=
  if !resp.finalKnown then f
  else
    match slotOf resp with
    | none => f
    | some s =>
        if s ∉ f.remaining then f
        else if skipEmpty && responseIsEmptyForParts resp then f
        else { remaining := f.remaining.filter (· ≠ s), taken := f.taken ++ [resp] }

def applyStream (skipEmpty : Bool) (f : Filling Slot FinalSlotResponse) :
    Except String (List FinalSlotResponse) → Filling Slot FinalSlotResponse
  | .error _ => f
  | .ok frames => frames.foldl (applyFrame skipEmpty) f

/-- `range_fill_window_opts`: what is shipped, and what is still needed. -/
def rangeFillWindowOpts (skipEmpty : Bool) (streams : List (Except String (List FinalSlotResponse)))
    (needy : List Slot) : Filling Slot FinalSlotResponse :=
  streams.foldl (fun f stream => if f.remaining.isEmpty then f else applyStream skipEmpty f stream)
    { remaining := needy }

/-! ### Into a channel that can close -/

/-- One poll of a range stream: a message, with whether the channel would take it; or what ends the stream. -/
inductive Poll where
  | message (resp : FinalSlotResponse) (accepted : Bool)
  | ended
  | error (e : String)
  | stalled

/-- What the worker finds when a logical peer's turn comes: whether the channel has closed, and what stream
opens. -/
structure PeerTurn where
  channelClosed : Bool
  stream : Except String (List Poll)

/-- One stream, and whether the channel is still open after it. -/
def readStream (skipEmpty : Bool) (f : Filling Slot FinalSlotResponse) :
    List Poll → Filling Slot FinalSlotResponse × Bool
  | .message resp accepted :: rest =>
      if !resp.finalKnown then readStream skipEmpty f rest
      else
        match slotOf resp with
        | none => readStream skipEmpty f rest
        | some s =>
            if s ∉ f.remaining then readStream skipEmpty f rest
            else if skipEmpty && responseIsEmptyForParts resp then readStream skipEmpty f rest
            else
              -- the slot is struck off before the send
              let remaining := f.remaining.filter (· ≠ s)
              if accepted then readStream skipEmpty { remaining, taken := f.taken ++ [resp] } rest
              else ({ f with remaining }, false)
  | _ => (f, true)

def fillFromPeers (skipEmpty : Bool) (f : Filling Slot FinalSlotResponse) :
    List PeerTurn → Filling Slot FinalSlotResponse × Bool
  | [] => (f, true)
  | turn :: rest =>
      if f.remaining.isEmpty then (f, true)
      else if turn.channelClosed then (f, false)
      else
        match turn.stream with
        | .error _ => fillFromPeers skipEmpty f rest
        | .ok polls =>
            let after := readStream skipEmpty f polls
            if after.2 then fillFromPeers skipEmpty after.1 rest else after

/-- What was sent, what the caller's needs are on return, and what is returned. -/
structure WindowFill where
  enqueued : List FinalSlotResponse
  needy : List Slot
  channelOpen : Bool

/-- `range_fill_window_opts`, channel included: when that closes the needs are returned as they came. -/
def rangeFillWindow (skipEmpty : Bool) (turns : List PeerTurn) (needy : List Slot) : WindowFill :=
  let after := fillFromPeers skipEmpty { remaining := needy } turns
  { enqueued := after.1.taken
    needy := if after.2 then needy.filter (· ∈ after.1.remaining) else needy
    channelOpen := after.2 }

/-! ## The sweep -/

def slotsOf (cfg : BackfillConfig) (low high : Nat) : List Slot :=
  (downTo low high).flatMap fun p =>
    (List.range cfg.threadCount.toNat).map fun t => ⟨UInt64.ofNat p, UInt8.ofNat t⟩

section Sweep

variable (cfg : BackfillConfig) (sweep : SweepCtx) (env : SweepEnv)

/-- The scan of one slot: a row that cannot be read is passed over. -/
def selected (s : Slot) : Bool :=
  match env.scan s with
  | .error _ => false
  | .ok row => (needsFetch row cfg sweep).isSome

def scanWindow (low high : Nat) : List Slot := (slotsOf cfg low high).filter (selected cfg sweep env)

/-- `visit_slot`: the second look at the row decides what is asked for. -/
def visitSlot (s : Slot) : Option FinalSlotResponse :=
  match env.visit s with
  | .error _ => none
  | .ok row =>
      match needsFetch row cfg sweep with
      | none => none
      | some (parts, _) => finalAnswer (env.replies s parts)

/-- After the range streams, if the window is dense. -/
def windowFilled (low high : Nat) : Filling Slot FinalSlotResponse :=
  let needy := scanWindow cfg sweep env low high
  if !needy.isEmpty && cfg.rangeSparseThreshold ≤ needy.length then
    rangeFillWindowOpts false (env.streams low) needy
  else { remaining := needy }

/-- The slots asked for one by one: what is left, if that is not too much. -/
def windowAsked (low high : Nat) : List Slot :=
  let needy := (windowFilled cfg sweep env low high).remaining
  if needy.length < cfg.rangeSparseThreshold then needy else []

def windowShipped (low high : Nat) : List FinalSlotResponse :=
  (windowFilled cfg sweep env low high).taken ++
    (windowAsked cfg sweep env low high).filterMap (visitSlot cfg sweep env)

/-- The windows of the sweep, from the head down. -/
def sweepWindows : List (Nat × Nat) := windows cfg.rangePeriods sweep.head.toNat

/-- The slots whose rows the sweep reads. -/
def sweepVisits : List Slot := (sweepWindows cfg sweep).flatMap fun w => slotsOf cfg w.1 w.2

/-- The slots it asks for one by one. -/
def sweepAsked : List Slot :=
  (sweepWindows cfg sweep).flatMap fun w => windowAsked cfg sweep env w.1 w.2

def sweepShipped : List FinalSlotResponse :=
  (sweepWindows cfg sweep).flatMap fun w => windowShipped cfg sweep env w.1 w.2

/-- What the writer is sent when its channel takes `room` events: the send after that fails, and the
sweep returns at once. `none` is a channel that stays open. -/
def sweepEvents (room : Option Nat) : List Event :=
  ((room.elim id List.take) (sweepShipped cfg sweep env)).map Event.peerPatch

end Sweep

/-! ## What range streams fill -/

/-- The slot that a message can fill. -/
def offered (skipEmpty : Bool) (resp : FinalSlotResponse) : Option Slot :=
  if !resp.finalKnown || (skipEmpty && responseIsEmptyForParts resp) then none else slotOf resp

theorem applyFrame_eq (skipEmpty : Bool) (f : Filling Slot FinalSlotResponse)
    (resp : FinalSlotResponse) : applyFrame skipEmpty f resp = take (offered skipEmpty) f resp := by
  unfold applyFrame take offered
  cases resp.finalKnown with
  | false => rfl
  | true =>
      cases slotOf resp with
      | none => simp
      | some s =>
          by_cases needed : s ∈ f.remaining
          · cases skipEmpty && responseIsEmptyForParts resp <;> simp [needed]
          · cases skipEmpty && responseIsEmptyForParts resp <;> simp [needed]

/-- The messages that a stream brings. -/
def framesOf : Except String (List FinalSlotResponse) → List FinalSlotResponse
  | .error _ => []
  | .ok frames => frames

/-- **The range streams of a window fill its needs as one list of offers.** -/
theorem rangeFillWindowOpts_eq (skipEmpty : Bool)
    (streams : List (Except String (List FinalSlotResponse))) (needy : List Slot) :
    rangeFillWindowOpts skipEmpty streams needy =
      fill (offered skipEmpty) { remaining := needy } (streams.flatMap framesOf) := by
  have stream : ∀ f s, applyStream skipEmpty f s = fill (offered skipEmpty) f (framesOf s) := by
    intro f s
    cases s with
    | error e => rfl
    | ok frames =>
        have frame : applyFrame skipEmpty = take (offered skipEmpty) := by
          funext f resp
          exact applyFrame_eq skipEmpty f resp
        rw [applyStream, frame]
        rfl
  unfold rangeFillWindowOpts
  generalize ({ remaining := needy } : Filling Slot FinalSlotResponse) = f
  induction streams generalizing f with
  | nil => rfl
  | cons s streams ih =>
      rw [List.foldl_cons, ih, List.flatMap_cons, fill_append]
      split
      · next empty => rw [fill_of_done (List.isEmpty_iff.mp empty) (framesOf s)]
      · rw [stream]

/-! ## The slots of a sweep -/

variable {cfg : BackfillConfig} {sweep : SweepCtx} {env : SweepEnv}

theorem mem_slotsOf {low high : Nat} (fits : high < UInt64.size) {s : Slot} :
    s ∈ slotsOf cfg low high ↔
      low ≤ s.period.toNat ∧ s.period.toNat ≤ high ∧ s.thread < cfg.threadCount := by
  simp only [slotsOf, List.mem_flatMap, mem_downTo, List.mem_map, List.mem_range]
  constructor
  · rintro ⟨p, ⟨above, below⟩, t, inside, rfl⟩
    have period : (UInt64.ofNat p).toNat = p := UInt64.toNat_ofNat_of_lt' (by omega)
    have thread : (UInt8.ofNat t).toNat = t :=
      UInt8.toNat_ofNat_of_lt' (Nat.lt_trans inside cfg.threadCount.toNat_lt)
    exact ⟨by rw [period]; exact above, by rw [period]; exact below,
      UInt8.lt_iff_toNat_lt.mpr (by rw [thread]; exact inside)⟩
  · rintro ⟨above, below, inside⟩
    refine ⟨s.period.toNat, ⟨above, below⟩, s.thread.toNat, UInt8.lt_iff_toNat_lt.mp inside, ?_⟩
    simp

theorem nodup_slotsOf (low : Nat) {high : Nat} (fits : high < UInt64.size) :
    (slotsOf cfg low high).Nodup := by
  rw [slotsOf, List.nodup_flatMap]
  constructor
  · intro p _
    refine (List.nodup_map_iff_inj_on List.nodup_range).mpr ?_
    intro t inside t' inside' same
    have bound := cfg.threadCount.toNat_lt
    rw [List.mem_range] at inside inside'
    have threads := congrArg (UInt8.toNat ∘ Slot.thread) same
    simpa [UInt8.toNat_ofNat_of_lt' (Nat.lt_trans inside bound),
      UInt8.toNat_ofNat_of_lt' (Nat.lt_trans inside' bound)] using threads
  · refine List.Pairwise.imp_of_mem ?_ (nodup_downTo low high)
    intro p q inP inQ differ s here there
    rw [mem_downTo] at inP inQ
    obtain ⟨t, -, rfl⟩ := List.mem_map.mp here
    obtain ⟨t', -, same⟩ := List.mem_map.mp there
    have periods := congrArg (UInt64.toNat ∘ Slot.period) same
    simp only [Function.comp_apply] at periods
    rw [UInt64.toNat_ofNat_of_lt' (by omega), UInt64.toNat_ofNat_of_lt' (by omega)] at periods
    exact differ periods.symm

theorem sweepVisits_eq : sweepVisits cfg sweep = slotsOf cfg 0 sweep.head.toNat := by
  rw [sweepVisits, slotsOf, sweepWindows, ← flatMap_windows cfg.rangePeriods, List.flatMap_assoc]
  rfl

theorem nodup_sweepVisits : (sweepVisits cfg sweep).Nodup := by
  rw [sweepVisits_eq]
  exact nodup_slotsOf 0 sweep.head.toNat_lt_size

theorem mem_sweepVisits {s : Slot} :
    s ∈ sweepVisits cfg sweep ↔ s.period ≤ sweep.head ∧ s.thread < cfg.threadCount := by
  rw [sweepVisits_eq, mem_slotsOf sweep.head.toNat_lt_size, UInt64.le_iff_toNat_le]
  simp

/-! ## What the sweep asks for and ships -/

theorem mem_scanWindow {low high : Nat} {s : Slot} :
    s ∈ scanWindow cfg sweep env low high ↔
      s ∈ slotsOf cfg low high ∧ selected cfg sweep env s = true := List.mem_filter

/-- What the streams of a dense window offer. -/
def streamed (env : SweepEnv) (low : Nat) : List (Option Slot) :=
  ((env.streams low).flatMap framesOf).map (offered false)

/-- The needs of a window that range streams are opened for. -/
def Dense (cfg : BackfillConfig) (sweep : SweepCtx) (env : SweepEnv) (w : Nat × Nat) : Prop :=
  scanWindow cfg sweep env w.1 w.2 ≠ [] ∧
    cfg.rangeSparseThreshold ≤ (scanWindow cfg sweep env w.1 w.2).length

/-- The needs of a window that no stream offered. -/
def uncovered (cfg : BackfillConfig) (sweep : SweepCtx) (env : SweepEnv) (w : Nat × Nat) : List Slot :=
  (scanWindow cfg sweep env w.1 w.2).filter fun s => some s ∉ streamed env w.1

theorem windowFilled_dense {w : Nat × Nat} (dense : Dense cfg sweep env w) :
    windowFilled cfg sweep env w.1 w.2 = fill (offered false)
      { remaining := scanWindow cfg sweep env w.1 w.2 } ((env.streams w.1).flatMap framesOf) := by
  unfold windowFilled
  rw [← rangeFillWindowOpts_eq]
  exact if_pos (by simpa [List.isEmpty_iff, Dense] using dense)

theorem windowFilled_sparse {w : Nat × Nat} (sparse : ¬ Dense cfg sweep env w) :
    windowFilled cfg sweep env w.1 w.2 = { remaining := scanWindow cfg sweep env w.1 w.2 } := by
  unfold windowFilled
  exact if_neg (by simpa [List.isEmpty_iff, Dense] using sparse)

theorem remaining_dense {w : Nat × Nat} (dense : Dense cfg sweep env w) :
    (windowFilled cfg sweep env w.1 w.2).remaining = uncovered cfg sweep env w := by
  rw [windowFilled_dense dense, remaining_fill]
  rfl

/-- A response from a range stream is for a slot that the scan of its window selected. -/
theorem scanned_of_taken {w : Nat × Nat} {resp : FinalSlotResponse}
    (taken : resp ∈ (windowFilled cfg sweep env w.1 w.2).taken) :
    ∃ s ∈ scanWindow cfg sweep env w.1 w.2, slotOf resp = some s := by
  by_cases dense : Dense cfg sweep env w
  · rw [windowFilled_dense dense] at taken
    rcases needed_of_mem_taken taken with nothing | ⟨-, s, needed, asked⟩
    · exact absurd nothing List.not_mem_nil
    · refine ⟨s, needed, ?_⟩
      unfold offered at asked
      split at asked
      · cases asked
      · exact asked
  · rw [windowFilled_sparse dense] at taken
    exact absurd taken List.not_mem_nil

/-- What is asked for one by one was selected by the scan. -/
theorem scanned_of_asked {w : Nat × Nat} {s : Slot} (asked : s ∈ windowAsked cfg sweep env w.1 w.2) :
    s ∈ scanWindow cfg sweep env w.1 w.2 := by
  have left : s ∈ (windowFilled cfg sweep env w.1 w.2).remaining := by
    unfold windowAsked at asked
    dsimp only at asked
    split at asked
    · exact asked
    · exact absurd asked List.not_mem_nil
  by_cases dense : Dense cfg sweep env w
  · rw [remaining_dense dense] at left
    exact (List.mem_filter.mp left).1
  · rw [windowFilled_sparse dense] at left
    exact left

theorem mem_sweepVisits_of_scanned {w : Nat × Nat} {s : Slot} (window : w ∈ sweepWindows cfg sweep)
    (scanned : s ∈ scanWindow cfg sweep env w.1 w.2) : s ∈ sweepVisits cfg sweep :=
  List.mem_flatMap.mpr ⟨w, window, (mem_scanWindow.mp scanned).1⟩

end MassaIndexer.Peer.Backfill
