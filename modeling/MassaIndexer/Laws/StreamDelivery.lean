/-
# Laws.StreamDelivery -- from the node to the store

Whatever the node answers, however often its streams fail and however the loops, the other producers
and the writer take turns: every message of a stream is forwarded once and in the order of its
stream, and is then applied or still waits in the live lane; only the last one can be lost, to a
writer that has ended (`messages_forwarded_once`). The health the process reports is the last word
of the node (`degraded_iff_unimplemented`), and the pauses of a loop double from one connection to
the next (`pauses_double`).
-/
import MassaIndexer.Writer.StreamLoops

namespace MassaIndexer.Laws.StreamDelivery

open MassaIndexer.Theory MassaIndexer.Theory.Runs MassaIndexer.Theory.Backoff
open MassaIndexer.Data.Ids MassaIndexer.Store.ColumnFamilies
open MassaIndexer.Writer.NodeProto MassaIndexer.Writer.Shared MassaIndexer.Writer.Step
open MassaIndexer.Writer.Lanes MassaIndexer.Writer.StreamLoops

set_option autoImplicit false

/-! ## One reply -/

/-- The event a reply brings. -/
def eventOf {kind : StreamKind} : Reply kind → Option Event
  | .message m => m.event
  | _ => none

/-- The stream an event comes from. -/
def streamOf : Event → Option StreamKind
  | .block _ => some .blocks
  | .exec _ => some .exec
  | .transfers _ => some .transfers
  | _ => none

theorem streamOf_event {kind : StreamKind} {reply : Reply kind} {e : Event}
    (brought : eventOf reply = some e) : streamOf e = some kind := by
  cases reply with
  | message m =>
      cases kind with
      | blocks =>
          obtain ⟨fb, -, rfl⟩ := Option.map_eq_some_iff.mp brought
          rfl
      | exec =>
          obtain ⟨out, -, rfl⟩ := Option.map_eq_some_iff.mp brought
          rfl
      | transfers =>
          obtain rfl := Option.some.inj brought
          rfl
  | _ => cases brought

/-- **What a reply does to its loop**: the event it brings is what is sent, and only a send to a writer
that is gone stops the loop. -/
theorem step_awaited {kind : StreamKind} (gone : Bool) {l : Loop} {reply : Reply kind}
    (awaited : l.awaits reply = true) :
    (l.step gone reply).2.frame = eventOf reply ∧
      ((l.step gone reply).1.phase = .stopped ↔ gone = true ∧ (eventOf reply).isSome = true) := by
  have plain : ∀ {kind : StreamKind} {reply : Reply kind}, l.awaits reply = true →
      (l.plainStep gone reply).2.frame = eventOf reply ∧
        ((l.plainStep gone reply).1.phase = .stopped ↔
          gone = true ∧ (eventOf reply).isSome = true) := by
    intro kind reply awaited
    cases reply with
    | message m =>
        have phase : l.phase = .reading := by simpa [Loop.awaits] using awaited
        cases brought : m.event <;> cases gone <;>
          simp [Loop.plainStep, Loop.forward, eventOf, phase, brought]
    | _ =>
        simp only [Loop.awaits, decide_eq_true_eq] at awaited
        simp [Loop.plainStep, Loop.retry, eventOf, awaited]
  cases kind with
  | blocks => exact plain awaited
  | exec => exact plain awaited
  | transfers =>
      cases reply with
      | message m =>
          have phase : l.phase = .reading := by simpa [Loop.awaits] using awaited
          cases gone <;>
            simp [Loop.step, Loop.transfersStep, Loop.forward, eventOf, phase, Message.event]
      | ended =>
          simp only [Loop.awaits, decide_eq_true_eq] at awaited
          cases got : l.gotAny <;>
            simp [Loop.step, Loop.transfersStep, Loop.retry, eventOf, awaited, got]
      | broken =>
          simp only [Loop.awaits, decide_eq_true_eq] at awaited
          cases got : l.gotAny <;>
            simp [Loop.step, Loop.transfersStep, Loop.retry, eventOf, awaited, got]
      | _ =>
          simp only [Loop.awaits, decide_eq_true_eq] at awaited
          simp [Loop.step, Loop.transfersStep, Loop.retry, eventOf, awaited]

/-! ## The live lane -/

section Lanes

variable [Bs58Check] [DenunciationDigest]

/-- Taking from a lane changes nothing of what was sent on it. -/
theorem channel_poll (w : Ingest) (nowMs : Int) (lane : Lane) :
    ((w.poll nowMs).1.channel lane).sent = (w.channel lane).sent ∧
      ((w.poll nowMs).1.channel lane).closed = (w.channel lane).closed := by
  have kept : ∀ on pending, ((w.onLane on pending nowMs).1.channel lane).sent = (w.channel lane).sent ∧
      ((w.onLane on pending nowMs).1.channel lane).closed = (w.channel lane).closed := by
    intro on pending
    unfold Ingest.onLane
    split
    · by_cases here : lane = on
      · subst here
        simp
      · simp [Function.update_of_ne here]
    · exact ⟨rfl, rfl⟩
    · exact ⟨rfl, rfl⟩
  unfold Ingest.poll
  split
  · split
    · exact kept .live .second
    · split <;> exact ⟨rfl, rfl⟩
  · split
    · exact kept .bulk .first
    · exact ⟨rfl, rfl⟩

theorem channel_send_live {w : Ingest} (open_ : (w.channel .live).closed = false) (e : Event) :
    ((w.act (.send .live e)).channel .live).sent = (w.channel .live).sent ++ [e] ∧
      ((w.act (.send .live e)).channel .live).closed = false := by
  simp only [Ingest.act, Function.update_self]
  exact Channel.send_open open_ e

/-! ## Every message, once and in order -/

/-- The events of a stream that were sent to the writer. -/
def sentOf (w : World) (kind : StreamKind) : List Event :=
  (w.writer.channel .live).sent.filter fun e => streamOf e = some kind

/-- What a stream brought and the writer did not get: at most one event, and the loop has ended. -/
def Lost (w : World) (kind : StreamKind) (lost : List Event) : Prop :=
  lost = [] ∨ (∃ e, lost = [e]) ∧ ∃ l, w.loops kind = some l ∧ l.phase = .stopped

structure Delivers (start : Db) (streams : Streams) (w : World) : Prop where
  lanes : Ingest.Sound start w.writer
  live : (w.writer.channel .live).closed = false
  spawned : ∀ kind, (w.loops kind).isSome = streams.enables kind
  silent : ∀ kind, w.loops kind = none → w.heard kind = []
  stopped : ∀ kind l, w.loops kind = some l → l.phase = .stopped → w.gone = true
  forwarded : ∀ kind,
    ∃ lost, sentOf w kind ++ lost = (w.heard kind).filterMap eventOf ∧ Lost w kind lost

variable {start : Db} {streams : Streams} {w : World}

theorem delivers_start (db : Db) (streams : Streams) : Delivers db streams (.start db streams) where
  lanes := Ingest.sound_init db true
  live := rfl
  spawned := by
    intro kind
    show (if streams.enables kind then some ({} : Loop) else none).isSome = _
    cases streams.enables kind <;> rfl
  silent := fun _ _ => rfl
  stopped := by
    intro kind l spawned stopped
    change (if streams.enables kind then some ({} : Loop) else none) = some l at spawned
    split at spawned
    · obtain rfl := Option.some.inj spawned
      cases stopped
    · cases spawned
  forwarded := fun kind => ⟨[], rfl, .inl rfl⟩

/-- A change of the writer that adds nothing of the streams to the live lane. -/
theorem Delivers.of_writer (delivers : Delivers start streams w) {writer : Ingest}
    (lanes : Ingest.Sound start writer) (live : (writer.channel .live).closed = false)
    (sent : ∀ kind,
      ((writer.channel .live).sent.filter fun e => streamOf e = some kind) = sentOf w kind) :
    Delivers start streams { w with writer := writer } where
  lanes := lanes
  live := live
  spawned := delivers.spawned
  silent := delivers.silent
  stopped := delivers.stopped
  forwarded := by
    intro kind
    obtain ⟨lost, whole, least⟩ := delivers.forwarded kind
    exact ⟨lost, (congrArg (· ++ lost) (sent kind)).trans whole, least⟩

/-- What a deed adds to the live lane. -/
theorem sends_cases (delivers : Delivers start streams w) (deed : Deed) :
    Ingest.Sound start (w.sends deed) ∧ ((w.sends deed).channel .live).closed = false ∧
      ((w.sends deed).channel .live).sent =
        (w.writer.channel .live).sent ++ if w.gone then [] else deed.frame.toList := by
  unfold World.sends
  cases w.gone with
  | true => exact ⟨delivers.lanes, delivers.live, (List.append_nil _).symm⟩
  | false =>
      rw [if_neg (by decide), if_neg (by decide)]
      cases deed.frame with
      | none => exact ⟨delivers.lanes, delivers.live, (List.append_nil _).symm⟩
      | some e =>
          obtain ⟨sent, live⟩ := channel_send_live delivers.live e
          rw [Option.elim_some]
          exact ⟨Ingest.sound_act delivers.lanes _, live, sent⟩

theorem delivers_hear (delivers : Delivers start streams w) {kind : StreamKind} {l : Loop}
    (spawned : w.loops kind = some l) {reply : Reply kind} (awaited : l.awaits reply = true)
    (nowMs : Int) : Delivers start streams (w.hear kind l reply nowMs) := by
  obtain ⟨frame, ends⟩ := step_awaited w.gone awaited
  obtain ⟨lanes, live, sent⟩ := sends_cases delivers (l.step w.gone reply).2
  rw [frame] at sent
  have running : l.phase ≠ .stopped := by
    intro stopped
    cases reply <;> simp [Loop.awaits, stopped] at awaited
  have own : (w.hear kind l reply nowMs).loops kind = some (l.step w.gone reply).1 :=
    Function.update_self ..
  have others : ∀ other, other ≠ kind → (w.hear kind l reply nowMs).loops other = w.loops other :=
    fun other apart => Function.update_of_ne apart ..
  have heard : (w.hear kind l reply nowMs).heard kind = w.heard kind ++ [reply] :=
    Function.update_self ..
  have unheard : ∀ other, other ≠ kind → (w.hear kind l reply nowMs).heard other = w.heard other :=
    fun other apart => Function.update_of_ne apart ..
  have gain : ∀ other, sentOf (w.hear kind l reply nowMs) other = sentOf w other ++
      (if w.gone then [] else (eventOf reply).toList).filter fun e => streamOf e = some other := by
    intro other
    exact (congrArg (List.filter _) sent).trans (List.filter_append ..)
  refine ⟨lanes, live, fun other => ?_, fun other idle => ?_, fun other l' found stopped => ?_,
    fun other => ?_⟩
  · by_cases here : other = kind
    · subst here
      rw [own, ← delivers.spawned, spawned]
      rfl
    · rw [others other here]
      exact delivers.spawned other
  · by_cases here : other = kind
    · subst here
      rw [own] at idle
      cases idle
    · rw [others other here] at idle
      rw [unheard other here]
      exact delivers.silent other idle
  · by_cases here : other = kind
    · subst here
      rw [own] at found
      obtain rfl := Option.some.inj found
      exact (ends.mp stopped).1
    · rw [others other here] at found
      exact delivers.stopped other l' found stopped
  · obtain ⟨lost, whole, least⟩ := delivers.forwarded other
    by_cases here : other = kind
    · subst here
      have nothing : lost = [] := by
        rcases least with nothing | ⟨-, l', found, stopped⟩
        · exact nothing
        · obtain rfl := Option.some.inj (spawned.symm.trans found)
          exact absurd stopped running
      rw [nothing, List.append_nil] at whole
      rw [heard, List.filterMap_append, ← whole, gain]
      cases brought : eventOf reply with
      | none => exact ⟨[], by cases w.gone <;> simp [brought], .inl rfl⟩
      | some e =>
          have ours : streamOf e = some other := streamOf_event brought
          cases gone : w.gone with
          | false => exact ⟨[], by simp [brought, ours], .inl rfl⟩
          | true =>
              refine ⟨[e], by simp [brought], .inr ⟨⟨e, rfl⟩, _, own, ends.mpr ⟨gone, ?_⟩⟩⟩
              rw [brought]
              rfl
    · have foreign : ∀ e, eventOf reply = some e → streamOf e ≠ some other := by
        intro e brought same
        exact here (Option.some.inj (same.symm.trans (streamOf_event brought)))
      rw [gain, unheard other here]
      refine ⟨lost, ?_, ?_⟩
      · rw [← whole]
        congr 1
        cases brought : eventOf reply with
        | none => cases w.gone <;> simp
        | some e => cases w.gone <;> simp [foreign e brought]
      · rcases least with nothing | ⟨one, l', found, stopped⟩
        · exact .inl nothing
        · exact .inr ⟨one, l', (others other here).trans found, stopped⟩

/-- **Every step keeps the accounts.** -/
theorem delivers_act (delivers : Delivers start streams w) (a : Writer.StreamLoops.Act) :
    Delivers start streams (w.act a) := by
  cases a with
  | node kind reply nowMs =>
      rcases w.act_node kind reply nowMs with idle | ⟨l, spawned, awaited, hears⟩
      · rw [idle]
        exact delivers
      · rw [hears]
        exact delivers_hear delivers spawned awaited nowMs
  | tick =>
      dsimp only [World.act]
      split
      · exact delivers
      · obtain ⟨sent, live⟩ := channel_send_live delivers.live .tick
        refine delivers.of_writer (Ingest.sound_act delivers.lanes _) live fun kind => ?_
        rw [sent, List.filter_append]
        exact List.append_nil _
  | bulk e =>
      dsimp only [World.act]
      split
      · exact delivers
      · have live : (w.writer.act (.send .bulk e)).channel .live = w.writer.channel .live := by
          simp [Ingest.act]
        refine delivers.of_writer (Ingest.sound_act delivers.lanes _) ?_ fun kind => ?_
        · rw [live]
          exact delivers.live
        · rw [live]
          rfl
  | closeBulk =>
      have live : (w.writer.act (.close .bulk)).channel .live = w.writer.channel .live := by
        simp [Ingest.act]
      refine delivers.of_writer (Ingest.sound_act delivers.lanes _) ?_ fun kind => ?_
      · rw [live]
        exact delivers.live
      · rw [live]
        rfl
  | poll nowMs =>
      dsimp only [World.act]
      split
      · exact delivers
      · obtain ⟨sent, closed⟩ := channel_poll w.writer nowMs .live
        refine delivers.of_writer (Ingest.sound_act delivers.lanes (.poll nowMs)) ?_ fun kind => ?_
        · exact closed.trans delivers.live
        · exact congrArg (List.filter _) sent
  | stop =>
      exact { delivers with stopped := fun _ _ _ _ => rfl }

/-- **Every message of the node is forwarded once, in the order of its stream.** After any run, what
the writer has applied of a stream and what still waits in the live lane is what the stream has
delivered, but for at most one last message that reached nobody because the writer had ended; a
stream that is not enabled delivers nothing; and the store is what the applied events, in their
order, make of the first one. -/
theorem messages_forwarded_once (db : Db) (streams : Streams) (acts : List Writer.StreamLoops.Act)
    (kind : StreamKind) :
    (∃ lost : List Event, lost.length ≤ 1 ∧
      (lost ≠ [] → (run World.act (.start db streams) acts).gone = true) ∧
      ((run World.act (.start db streams) acts).writer.appliedOn .live ++
          ((run World.act (.start db streams) acts).writer.channel .live).queue).filter
            (fun e => streamOf e = some kind) ++ lost =
        ((run World.act (.start db streams) acts).heard kind).filterMap eventOf) ∧
    (streams.enables kind = false → (run World.act (.start db streams) acts).heard kind = []) ∧
    (run World.act (.start db streams) acts).writer.db =
      run step db ((run World.act (.start db streams) acts).writer.applied.map Prod.snd) := by
  have delivers : Delivers db streams (run World.act (.start db streams) acts) :=
    invariant_of_step (P := Delivers db streams) (fun _ a delivers => delivers_act delivers a) acts
      (delivers_start db streams)
  generalize run World.act (.start db streams) acts = w at delivers ⊢
  refine ⟨?_, fun disabled => ?_, delivers.lanes.db⟩
  · obtain ⟨lost, whole, least⟩ := delivers.forwarded kind
    have history : w.writer.appliedOn .live ++ (w.writer.channel .live).queue =
        (w.writer.channel .live).sent := by
      rw [delivers.lanes.taken]
      exact delivers.lanes.channels .live
    rw [history]
    rcases least with nothing | ⟨⟨e, one⟩, l, spawned, stopped⟩
    · exact ⟨lost, by simp [nothing], fun some_ => absurd nothing some_, whole⟩
    · exact ⟨lost, by simp [one], fun _ => delivers.stopped kind l spawned stopped, whole⟩
  · refine delivers.silent kind (Option.isNone_iff_eq_none.mp ?_)
    rw [← Option.not_isSome, delivers.spawned, disabled]
    rfl

end Lanes

/-! ## The last word on a stream -/

section Health

variable {kind : StreamKind}

/-- A stream that has delivered nothing yet. -/
def JustOpened (before : List (Reply kind)) : Prop := before.getLast? = some .opened

/-- The node says that it does not serve the stream: it refuses the subscription as unimplemented,
or ends a transfers stream before its first message. -/
def Refuses (before : List (Reply kind)) : Reply kind → Prop
  | .rpcFailed unimplemented => unimplemented = true
  | .ended => kind = .transfers ∧ JustOpened before
  | _ => False

/-- A reply that says nothing of the stream's health. -/
def Quiet : Reply kind → Prop
  | .connected => True
  | .opened => True
  | .message m => m.event = none
  | _ => False

/-- The last reply that says anything refuses the stream. -/
def Refused (heard : List (Reply kind)) : Prop :=
  ∃ before r after, heard = before ++ r :: after ∧ Refuses before r ∧ ∀ x ∈ after, Quiet x

theorem not_quiet_of_refuses {before : List (Reply kind)} {r : Reply kind}
    (refuses : Refuses before r) :
    ¬ Quiet r := by
  intro quiet
  cases r <;> first | exact refuses | exact quiet

theorem refused_concat (heard : List (Reply kind)) (r : Reply kind) :
    Refused (heard ++ [r]) ↔ Refuses heard r ∨ Quiet r ∧ Refused heard := by
  constructor
  · rintro ⟨before, last, after, whole, refuses, quiet⟩
    rcases List.eq_nil_or_concat after with rfl | ⟨init, x, rfl⟩
    · obtain ⟨rfl, same⟩ := List.append_inj' whole rfl
      obtain rfl := (List.cons.inj same).1
      exact .inl refuses
    · rw [List.concat_eq_append, ← List.cons_append, ← List.append_assoc] at whole
      obtain ⟨rfl, same⟩ := List.append_inj' whole rfl
      obtain rfl := (List.cons.inj same).1
      refine .inr ⟨quiet r (by simp), before, last, init, rfl, refuses, fun x member => ?_⟩
      exact quiet x (by simp [member])
  · rintro (refuses | ⟨quiet, before, last, after, rfl, refuses, quieter⟩)
    · exact ⟨heard, r, [], rfl, refuses, by simp⟩
    · refine ⟨before, last, after ++ [r], by simp, refuses, fun x member => ?_⟩
      rcases List.mem_append.mp member with earlier | here
      · exact quieter x earlier
      · rw [List.mem_singleton.mp here]
        exact quiet

end Health

/-! ### Health after a reply -/

theorem report_own (m : Metrics) (kind : StreamKind) (nowMs : Int) (deed : Deed) :
    (World.report m kind nowMs deed kind).enabled = (m kind).enabled ∧
      (World.report m kind nowMs deed kind).state =
        if deed.frame.isSome then .streaming else deed.report.getD (m kind).state := by
  unfold World.report
  cases deed.report <;> cases deed.frame <;>
    simp [Metrics.streamSetState, Metrics.streamEvent]

theorem report_other (m : Metrics) {kind other : StreamKind} (apart : other ≠ kind) (nowMs : Int)
    (deed : Deed) : World.report m kind nowMs deed other = m other := by
  unfold World.report
  cases deed.report <;> cases deed.frame <;>
    simp [Metrics.streamSetState, Metrics.streamEvent, Function.update_of_ne apart]

/-- Does the transfers loop know whether its stream has delivered anything? -/
def Aware {kind : StreamKind} (l : Loop) (heard : List (Reply kind)) : Prop :=
  kind = .transfers → l.phase = .reading → (l.gotAny = false ↔ JustOpened heard)

theorem justOpened_concat {kind : StreamKind} (heard : List (Reply kind)) (r : Reply kind) :
    JustOpened (heard ++ [r]) ↔ r = .opened := by
  simp [JustOpened, List.getLast?_append]

theorem aware_step {kind : StreamKind} {gone : Bool} {l : Loop} {reply : Reply kind}
    (awaited : l.awaits reply = true) (heard : List (Reply kind)) :
    Aware (l.step gone reply).1 (heard ++ [reply]) := by
  rintro rfl
  rw [justOpened_concat]
  cases reply with
  | opened =>
      have phase : l.phase = .calling := by simpa [Loop.awaits] using awaited
      simp [Loop.step, Loop.transfersStep, phase]
  | message m =>
      have phase : l.phase = .reading := by simpa [Loop.awaits] using awaited
      cases gone <;> simp [Loop.step, Loop.transfersStep, Loop.forward, phase]
  | ended =>
      have phase : l.phase = .reading := by simpa [Loop.awaits] using awaited
      cases got : l.gotAny <;> simp [Loop.step, Loop.transfersStep, Loop.retry, phase, got]
  | broken =>
      have phase : l.phase = .reading := by simpa [Loop.awaits] using awaited
      cases got : l.gotAny <;> simp [Loop.step, Loop.transfersStep, Loop.retry, phase, got]
  | _ =>
      simp only [Loop.awaits, decide_eq_true_eq] at awaited
      simp [Loop.step, Loop.transfersStep, Loop.retry, awaited]

/-- **What a reply makes of the stream's health.** -/
theorem state_step {kind : StreamKind} (gone : Bool) {l : Loop} {reply : Reply kind}
    (awaited : l.awaits reply = true) {heard : List (Reply kind)} (aware : Aware l heard)
    (state : StreamState) :
    ((if (l.step gone reply).2.frame.isSome then .streaming
        else (l.step gone reply).2.report.getD state) = StreamState.unimplemented ↔
      Refuses heard reply ∨ Quiet reply ∧ state = .unimplemented) := by
  have plain : kind ≠ .transfers → ((if (l.plainStep gone reply).2.frame.isSome then .streaming
        else (l.plainStep gone reply).2.report.getD state) = StreamState.unimplemented ↔
      Refuses heard reply ∨ Quiet reply ∧ state = .unimplemented) := by
    intro other
    cases reply with
    | message m =>
        have phase : l.phase = .reading := by simpa [Loop.awaits] using awaited
        cases brought : m.event <;> cases gone <;>
          simp [Loop.plainStep, Loop.forward, phase, brought, Refuses, Quiet]
    | rpcFailed unimplemented =>
        simp only [Loop.awaits, decide_eq_true_eq] at awaited
        cases unimplemented <;>
          simp [Loop.plainStep, Loop.retry, awaited, Refuses, Quiet, Writer.StreamLoops.rpcFailed]
    | _ =>
        simp only [Loop.awaits, decide_eq_true_eq] at awaited
        simp [Loop.plainStep, Loop.retry, awaited, Refuses, Quiet, other]
  cases kind with
  | blocks => exact plain (by decide)
  | exec => exact plain (by decide)
  | transfers =>
      cases reply with
      | message m =>
          have phase : l.phase = .reading := by simpa [Loop.awaits] using awaited
          cases gone <;>
            simp [Loop.step, Loop.transfersStep, Loop.forward, phase, Refuses, Quiet, Message.event]
      | rpcFailed unimplemented =>
          simp only [Loop.awaits, decide_eq_true_eq] at awaited
          cases unimplemented <;> simp [Loop.step, Loop.transfersStep, Loop.retry, awaited, Refuses,
            Quiet, Writer.StreamLoops.rpcFailed]
      | ended =>
          have phase : l.phase = .reading := by simpa [Loop.awaits] using awaited
          have knows := aware rfl phase
          cases got : l.gotAny <;> rw [got] at knows <;>
            simp [Loop.step, Loop.transfersStep, Loop.retry, phase, got, Refuses, Quiet, ← knows]
      | broken =>
          have phase : l.phase = .reading := by simpa [Loop.awaits] using awaited
          cases got : l.gotAny <;>
            simp [Loop.step, Loop.transfersStep, Loop.retry, phase, got, Refuses, Quiet]
      | _ =>
          simp only [Loop.awaits, decide_eq_true_eq] at awaited
          simp [Loop.step, Loop.transfersStep, Loop.retry, awaited, Refuses, Quiet]

structure Reports (streams : Streams) (w : World) : Prop where
  enabled : ∀ kind, (w.metrics kind).enabled = streams.enables kind
  aware : ∀ kind l, w.loops kind = some l → Aware l (w.heard kind)
  state : ∀ kind, (w.metrics kind).state = .unimplemented ↔ Refused (w.heard kind)

section Worlds

variable [Bs58Check] [DenunciationDigest] {streams : Streams} {w : World}

omit [Bs58Check] [DenunciationDigest] in
theorem reports_start (db : Db) (streams : Streams) : Reports streams (.start db streams) := by
  have blank : ∀ kind, (World.start db streams).metrics kind = { enabled := streams.enables kind } := by
    obtain ⟨blocks, exec, transfers⟩ := streams
    intro kind
    cases blocks <;> cases exec <;> cases transfers <;> cases kind <;> rfl
  refine ⟨fun kind => ?_, fun kind l spawned => ?_, fun kind => ?_⟩
  · rw [blank]
  · change (if streams.enables kind then some ({} : Loop) else none) = some l at spawned
    split at spawned
    · obtain rfl := Option.some.inj spawned
      exact fun _ reading => by cases reading
    · cases spawned
  · rw [blank]
    refine iff_of_false (by simp) ?_
    rintro ⟨before, r, after, whole, -⟩
    exact absurd whole (by simp [World.start])

theorem reports_hear (reports : Reports streams w) {kind : StreamKind} {l : Loop}
    (spawned : w.loops kind = some l) {reply : Reply kind} (awaited : l.awaits reply = true)
    (nowMs : Int) : Reports streams (w.hear kind l reply nowMs) := by
  have heard : (w.hear kind l reply nowMs).heard kind = w.heard kind ++ [reply] :=
    Function.update_self ..
  have unheard : ∀ other, other ≠ kind → (w.hear kind l reply nowMs).heard other = w.heard other :=
    fun other apart => Function.update_of_ne apart ..
  have own := report_own w.metrics kind nowMs (l.step w.gone reply).2
  have others : ∀ other, other ≠ kind → (w.hear kind l reply nowMs).metrics other = w.metrics other :=
    fun other apart => report_other w.metrics apart nowMs _
  refine ⟨fun other => ?_, fun other l' found => ?_, fun other => ?_⟩
  · by_cases here : other = kind
    · subst here
      exact own.1.trans (reports.enabled other)
    · rw [others other here]
      exact reports.enabled other
  · by_cases here : other = kind
    · subst here
      have next : (w.hear other l reply nowMs).loops other = some (l.step w.gone reply).1 :=
        Function.update_self ..
      rw [next] at found
      obtain rfl := Option.some.inj found
      rw [heard]
      exact aware_step awaited _
    · rw [unheard other here]
      exact reports.aware other l' ((Function.update_of_ne here ..).symm.trans found)
  · by_cases here : other = kind
    · subst here
      rw [heard, refused_concat, ← reports.state,
        ← state_step w.gone awaited (reports.aware other l spawned)]
      exact iff_of_eq (congrArg (· = _) own.2)
    · rw [others other here, unheard other here]
      exact reports.state other

theorem reports_act (reports : Reports streams w) (a : Writer.StreamLoops.Act) :
    Reports streams (w.act a) := by
  cases a with
  | node kind reply nowMs =>
      rcases w.act_node kind reply nowMs with idle | ⟨l, spawned, awaited, hears⟩
      · rw [idle]
        exact reports
      · rw [hears]
        exact reports_hear reports spawned awaited nowMs
  | tick =>
      dsimp only [World.act]
      split
      · exact reports
      · exact { reports with }
  | bulk e =>
      dsimp only [World.act]
      split
      · exact reports
      · exact { reports with }
  | closeBulk => exact { reports with }
  | poll nowMs =>
      dsimp only [World.act]
      split
      · exact reports
      · exact { reports with }
  | stop => exact { reports with }

/-- **The process reports itself degraded exactly while the last word of the node on some enabled
stream is that it does not serve it**: a subscription refused as unimplemented, or a transfers
stream that ended before its first message, with nothing heard since that says otherwise. A lost
connection says otherwise. -/
theorem degraded_iff_unimplemented (db : Db) (streams : Streams) (acts : List Writer.StreamLoops.Act) :
    (run World.act (.start db streams) acts).metrics.streamsDegraded = true ↔
      ∃ kind, streams.enables kind = true ∧
        Refused ((run World.act (.start db streams) acts).heard kind) := by
  have reports : Reports streams (run World.act (.start db streams) acts) :=
    invariant_of_step (P := Reports streams) (fun _ a reports => reports_act reports a) acts
      (reports_start db streams)
  generalize run World.act (.start db streams) acts = w at reports ⊢
  simp only [Metrics.streamsDegraded, List.any_eq_true, Bool.and_eq_true, decide_eq_true_eq,
    reports.enabled, reports.state]
  constructor
  · rintro ⟨kind, -, enabled, refused⟩
    exact ⟨kind, enabled, refused⟩
  · rintro ⟨kind, enabled, refused⟩
    exact ⟨kind, by cases kind <;> decide, enabled, refused⟩

end Worlds

/-! ## Pauses -/

section Pauses

variable {kind : StreamKind}

def isConnected : Reply kind → Bool
  | .connected => true
  | _ => false

/-- The replies after which a loop pauses and connects again. -/
def fails : Reply kind → Bool
  | .connectFailed => true
  | .rpcFailed _ => true
  | .ended => true
  | .broken => true
  | _ => false

/-- The failures since the last connection that succeeded. -/
def streak (heard : List (Reply kind)) : Nat :=
  (heard.reverse.takeWhile fun r => !isConnected r).countP fails

theorem streak_concat (heard : List (Reply kind)) (r : Reply kind) :
    streak (heard ++ [r]) = if isConnected r then 0 else streak heard + if fails r then 1 else 0 := by
  unfold streak
  rw [List.reverse_append, List.reverse_singleton, List.singleton_append]
  cases connected : isConnected r with
  | true => simp [connected]
  | false =>
      rw [List.takeWhile_cons_of_pos (by simp [connected]), List.countP_cons]
      simp only [Bool.false_eq_true, if_false]

/-- Each failure is followed by a pause, of a length that goes by the failures before it. -/
def Waits (heard : List (Reply kind)) (pauses : List Nat) : Prop :=
  pauses.length = heard.countP fails ∧ ∀ before r after, heard = before ++ r :: after → fails r = true →
    pauses[before.countP fails]? = some (backoffBounds.after (streak before))

theorem waits_concat {heard : List (Reply kind)} {pauses : List Nat} (waits : Waits heard pauses)
    (r : Reply kind) : Waits (heard ++ [r])
      (pauses ++ (if fails r then [backoffBounds.after (streak heard)] else [])) := by
  obtain ⟨length, places⟩ := waits
  refine ⟨?_, fun before last after whole failed => ?_⟩
  · rw [List.length_append, List.countP_append, length, List.countP_singleton]
    cases fails r <;> rfl
  · rcases List.eq_nil_or_concat after with rfl | ⟨init, x, rfl⟩
    · obtain ⟨rfl, same⟩ := List.append_inj' whole rfl
      obtain rfl := (List.cons.inj same).1
      rw [if_pos failed, List.getElem?_append_right length.le, length, Nat.sub_self]
      rfl
    · rw [List.concat_eq_append, ← List.cons_append, ← List.append_assoc] at whole
      obtain ⟨rfl, -⟩ := List.append_inj' whole rfl
      have found := places before last init rfl failed
      rw [List.getElem?_append_left (List.getElem?_eq_some_iff.mp found).1]
      exact found

theorem bump_within {pause : Nat} (within : backoffBounds.least ≤ pause) :
    backoffBounds.least ≤ backoffBounds.bump pause ∧ backoffBounds.bump pause ≤ backoffBounds.most := by
  have ordered := backoffBounds.ordered
  unfold Bounds.bump
  split <;> omega

/-- A pause of any loop is within the bounds. -/
def Within (pause : Nat) : Prop := backoffBounds.least ≤ pause ∧ pause ≤ backoffBounds.most

theorem pause_step (gone : Bool) {l : Loop} (reply : Reply kind) (within : Within l.backoff) :
    Within (l.step gone reply).1.backoff ∧ ∀ pause ∈ (l.step gone reply).2.pause, Within pause := by
  have again : ∀ pause, Within pause → Within (backoffBounds.bump pause) := fun pause h =>
      bump_within h.1
  have least : Within backoffBounds.least := ⟨le_rfl, backoffBounds.ordered⟩
  have retry : ∀ (l : Loop) report, Within l.backoff →
      Within (l.retry report).1.backoff ∧ ∀ pause ∈ (l.retry report).2.pause, Within pause := by
    intro l report within
    refine ⟨again _ within, fun pause named => ?_⟩
    obtain rfl := Option.some.inj named
    exact within
  have forward : ∀ (l : Loop) e, Within l.backoff →
      Within (l.forward gone e).1.backoff ∧ ∀ pause ∈ (l.forward gone e).2.pause, Within pause := by
    intro l e within
    refine ⟨?_, fun pause named => by cases named⟩
    unfold Loop.forward
    split <;> exact within
  have still : ∀ l : Loop, Within l.backoff →
      Within (l, ({} : Deed)).1.backoff ∧ ∀ pause ∈ (l, ({} : Deed)).2.pause, Within pause :=
    fun l within => ⟨within, fun pause named => by cases named⟩
  have plain : ∀ {kind : StreamKind} (reply : Reply kind), Within (l.plainStep gone reply).1.backoff ∧
      ∀ pause ∈ (l.plainStep gone reply).2.pause, Within pause := by
    intro kind reply
    unfold Loop.plainStep
    split
    · exact retry l _ within
    · exact still _ least
    · exact retry l _ within
    · exact still _ within
    · split
      · exact forward l _ within
      · exact still l within
    · exact retry l _ within
    · exact retry l _ within
    · exact still l within
  cases kind with
  | blocks => exact plain reply
  | exec => exact plain reply
  | transfers =>
      show Within (l.transfersStep gone reply).1.backoff ∧
        ∀ pause ∈ (l.transfersStep gone reply).2.pause, Within pause
      unfold Loop.transfersStep
      split
      · exact retry l _ within
      · refine still _ ?_
        dsimp only
        split
        · exact within
        · exact least
      · exact retry _ _ within
      · exact still _ within
      · exact forward _ _ within
      · split
        · exact retry l _ within
        · exact retry _ _ (again _ within)
      · split
        · exact retry l _ within
        · exact retry _ _ (again _ within)
      · exact still l within

/-- **The pauses of the two plain loops**: the pause in hand is that of the streak, and it is taken
when a reply fails. -/
theorem plain_step {gone : Bool} {l : Loop} {reply : Reply kind} (plain : kind ≠ .transfers)
    (awaited : l.awaits reply = true) {heard : List (Reply kind)}
    (streaks : l.backoff = backoffBounds.after (streak heard)) :
    (l.step gone reply).1.backoff = backoffBounds.after (streak (heard ++ [reply])) ∧
      (l.step gone reply).2.pause.toList =
        if fails reply then [backoffBounds.after (streak heard)] else [] := by
  have same : (l.step gone reply) = l.plainStep gone reply := by
    cases kind <;> first | rfl | exact absurd rfl plain
  rw [same, streak_concat, ← streaks]
  cases reply with
  | message m =>
      have phase : l.phase = .reading := by simpa [Loop.awaits] using awaited
      cases brought : m.event <;> cases gone <;>
        simp [Loop.plainStep, Loop.forward, phase, brought, isConnected, fails, streaks]
  | _ =>
      simp only [Loop.awaits, decide_eq_true_eq] at awaited
      simp [Loop.plainStep, Loop.retry, awaited, isConnected, fails, streaks, Bounds.bump_after]

end Pauses

structure Paces (w : World) : Prop where
  backoff : ∀ kind l, w.loops kind = some l → Within l.backoff ∧
    (kind ≠ .transfers → l.backoff = backoffBounds.after (streak (w.heard kind)))
  within : ∀ kind, ∀ pause ∈ w.pauses kind, Within pause
  waits : ∀ kind, kind ≠ .transfers → Waits (w.heard kind) (w.pauses kind)

section Worlds

variable [Bs58Check] [DenunciationDigest] {w : World}

omit [Bs58Check] [DenunciationDigest] in
theorem paces_start (db : Db) (streams : Streams) : Paces (.start db streams) := by
  refine ⟨fun kind l spawned => ?_, fun kind pause named => ?_, fun kind _ => ⟨rfl, ?_⟩⟩
  · change (if streams.enables kind then some ({} : Loop) else none) = some l at spawned
    split at spawned
    · obtain rfl := Option.some.inj spawned
      exact ⟨⟨le_rfl, backoffBounds.ordered⟩, fun _ => backoffBounds.after_zero.symm⟩
    · cases spawned
  · cases named
  · intro before r after whole
    exact absurd whole (by simp [World.start])

theorem paces_hear (paces : Paces w) {kind : StreamKind} {l : Loop} (spawned : w.loops kind = some l)
    {reply : Reply kind} (awaited : l.awaits reply = true) (nowMs : Int) :
    Paces (w.hear kind l reply nowMs) := by
  obtain ⟨within, streaks⟩ := paces.backoff kind l spawned
  obtain ⟨within', paused⟩ := pause_step w.gone reply within
  have heard : (w.hear kind l reply nowMs).heard kind = w.heard kind ++ [reply] :=
    Function.update_self ..
  have pauses : (w.hear kind l reply nowMs).pauses kind =
      w.pauses kind ++ (l.step w.gone reply).2.pause.toList := Function.update_self ..
  refine ⟨fun other l' found => ?_, fun other pause named => ?_, fun other plain => ?_⟩
  · by_cases here : other = kind
    · subst here
      have next : (w.hear other l reply nowMs).loops other = some (l.step w.gone reply).1 :=
        Function.update_self ..
      rw [next] at found
      obtain rfl := Option.some.inj found
      rw [heard]
      exact ⟨within', fun plain => (plain_step plain awaited (streaks plain)).1⟩
    · have unheard : (w.hear kind l reply nowMs).heard other = w.heard other :=
        Function.update_of_ne here ..
      rw [unheard]
      exact paces.backoff other l' ((Function.update_of_ne here ..).symm.trans found)
  · by_cases here : other = kind
    · subst here
      rw [pauses] at named
      rcases List.mem_append.mp named with earlier | last
      · exact paces.within other pause earlier
      · exact paused pause (Option.mem_toList.mp last)
    · have same : (w.hear kind l reply nowMs).pauses other = w.pauses other :=
        Function.update_of_ne here ..
      rw [same] at named
      exact paces.within other pause named
  · by_cases here : other = kind
    · subst here
      rw [heard, pauses, (plain_step plain awaited (streaks plain)).2]
      exact waits_concat (paces.waits other plain) reply
    · have unheard : (w.hear kind l reply nowMs).heard other = w.heard other :=
        Function.update_of_ne here ..
      have same : (w.hear kind l reply nowMs).pauses other = w.pauses other :=
        Function.update_of_ne here ..
      rw [unheard, same]
      exact paces.waits other plain

theorem paces_act (paces : Paces w) (a : Writer.StreamLoops.Act) : Paces (w.act a) := by
  cases a with
  | node kind reply nowMs =>
      rcases w.act_node kind reply nowMs with idle | ⟨l, spawned, awaited, hears⟩
      · rw [idle]
        exact paces
      · rw [hears]
        exact paces_hear paces spawned awaited nowMs
  | tick =>
      dsimp only [World.act]
      split
      · exact paces
      · exact { paces with }
  | bulk e =>
      dsimp only [World.act]
      split
      · exact paces
      · exact { paces with }
  | closeBulk => exact { paces with }
  | poll nowMs =>
      dsimp only [World.act]
      split
      · exact paces
      · exact { paces with }
  | stop => exact { paces with }

/-- **How long a loop waits before it connects again**: never under 500 ms and never over 30 s; and
for blocks and execution outputs 500 ms, doubled for each failure since the last connection that
succeeded. So a node that accepts connections and refuses the subscription is asked again every 500
ms. -/
theorem pauses_double (db : Db) (streams : Streams) (acts : List Writer.StreamLoops.Act)
    (kind : StreamKind) :
    (∀ pause ∈ (run World.act (.start db streams) acts).pauses kind, 500 ≤ pause ∧ pause ≤ 30000) ∧
    (kind ≠ .transfers → ∀ before r after,
      (run World.act (.start db streams) acts).heard kind = before ++ r :: after → fails r = true →
        ((run World.act (.start db streams) acts).pauses kind)[before.countP fails]? =
          some (min (500 * 2 ^ streak before) 30000)) := by
  have paces : Paces (run World.act (.start db streams) acts) :=
    invariant_of_step (P := Paces) (fun _ a paces => paces_act paces a) acts (paces_start db streams)
  exact ⟨fun pause named => paces.within kind pause named,
    fun plain before r after whole failed => (paces.waits kind plain).2 before r after whole failed⟩

end Worlds

end MassaIndexer.Laws.StreamDelivery
