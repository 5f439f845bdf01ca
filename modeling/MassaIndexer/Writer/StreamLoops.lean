/-
# Writer.StreamLoops -- the node's three streams

Each enabled stream of the node has a loop of its own: connect, subscribe, forward every message to
the live lane, and start over with a longer pause when anything fails. A loop is a machine that is
told one reply of the node at a time; it reports its health and names the pause it takes before it
connects again. The `World` runs the loops beside the two-lane writer, in any order.
`transfers_info_loop` is not like the other two: it keeps track of whether the node serves the
stream at all.
-/
import MassaIndexer.Theory.Backoff
import MassaIndexer.Writer.Lanes

namespace MassaIndexer.Writer.StreamLoops

open MassaIndexer.Theory.Backoff
open MassaIndexer.Data.Ids MassaIndexer.Store.ColumnFamilies
open MassaIndexer.Writer.NodeProto MassaIndexer.Writer.Shared MassaIndexer.Writer.Step
open MassaIndexer.Writer.Lanes

set_option autoImplicit false

/-! ## Stream health -/

inductive StreamKind where
  | blocks
  | exec
  | transfers
deriving DecidableEq

def StreamKind.all : List StreamKind := [.blocks, .exec, .transfers]

inductive StreamState where
  | idle
  | streaming
  | reconnecting
  | unimplemented
deriving DecidableEq

structure StreamHealth where
  enabled : Bool := false
  state : StreamState := .idle
  lastEventMs : Int := 0

/-- The health arrays of `Metrics`, by kind. -/
abbrev Metrics := StreamKind → StreamHealth

namespace Metrics

def streamSetEnabled (m : Metrics) (kind : StreamKind) (enabled : Bool) : Metrics :=
  Function.update m kind { m kind with enabled := enabled }

def streamSetState (m : Metrics) (kind : StreamKind) (state : StreamState) : Metrics :=
  Function.update m kind { m kind with state := state }

/-- A delivered frame also flips the state to `Streaming`. -/
def streamEvent (m : Metrics) (kind : StreamKind) (nowMs : Int) : Metrics :=
  Function.update m kind { m kind with state := .streaming, lastEventMs := nowMs }

def streamsDegraded (m : Metrics) : Bool :=
  StreamKind.all.any fun k => (m k).enabled && (m k).state = .unimplemented

end Metrics

/-! ## Loops -/

/-- Pauses in milliseconds: `BACKOFF_MIN` and `BACKOFF_MAX`. -/
def backoffBounds : Bounds := ⟨500, 30000, by decide⟩

/-- What the node sends on a stream; the first two may be empty responses. -/
def Message : StreamKind → Type
  | .blocks => Option FilledBlock
  | .exec => Option SlotExecutionOutput
  | .transfers => NewTransfersInfoServerResponse

/-- The event a message becomes. -/
def Message.event : {kind : StreamKind} → Message kind → Option Event
  | .blocks, fb => Option.map Event.block fb
  | .exec, out => Option.map Event.exec out
  | .transfers, resp => some (.transfers resp)

/-- What a loop hears: how connecting ended, how subscribing ended, and then the stream. -/
inductive Reply (kind : StreamKind) where
  | connectFailed
  | connected
  | rpcFailed (unimplemented : Bool)
  | opened
  | message (m : Message kind)
  | ended
  | broken

inductive Phase where
  | connecting
  | calling
  | reading
  | stopped
deriving DecidableEq

structure Loop where
  phase : Phase := .connecting
  backoff : Nat := backoffBounds.least
  /-- `unsupported_since.is_some()`; only the transfers loop sets it. -/
  unsupported : Bool := false
  /-- Has this stream delivered a message? Only the transfers loop asks. -/
  gotAny : Bool := false

/-- What else a reply makes a loop do. -/
structure Deed where
  report : Option StreamState := none
  /-- The event of a delivered frame; it is sent if the writer is still there. -/
  frame : Option Event := none
  /-- How long it sleeps before it connects again. -/
  pause : Option Nat := none

/-- `StreamReporter::rpc_failed`. -/
def rpcFailed (unimplemented : Bool) : StreamState :=
  if unimplemented then .unimplemented else .reconnecting

namespace Loop

/-- Sleep, lengthen the next pause and connect again. -/
def retry (l : Loop) (report : StreamState) : Loop × Deed :=
  ({ l with phase := .connecting, backoff := backoffBounds.bump l.backoff },
    { report := some report, pause := some l.backoff })

/-- A loop ends when it cannot send: the writer is gone. -/
def forward (l : Loop) (gone : Bool) (e : Event) : Loop × Deed :=
  (if gone then { l with phase := .stopped } else l, { frame := some e })

/-- `filled_blocks_loop` and `slot_exec_loop`. -/
def plainStep {kind : StreamKind} (gone : Bool) (l : Loop) (reply : Reply kind) : Loop × Deed :=
  match l.phase, reply with
  | .connecting, .connectFailed => l.retry .reconnecting
  | .connecting, .connected => ({ l with phase := .calling, backoff := backoffBounds.least }, {})
  | .calling, .rpcFailed unimplemented => l.retry (StreamLoops.rpcFailed unimplemented)
  | .calling, .opened => ({ l with phase := .reading }, {})
  | .reading, .message m =>
      match m.event with
      | some e => l.forward gone e
      | none => (l, {})
  | .reading, .ended => l.retry .reconnecting
  | .reading, .broken => l.retry .reconnecting
  | _, _ => (l, {})

/-- `transfers_info_loop`: a subscription that fails, or ends without a message, flags the stream,
and while it is flagged a connection does not shorten the pauses; a stream that stops without a
message lengthens them once more. -/
def transfersStep (gone : Bool) (l : Loop) (reply : Reply .transfers) : Loop × Deed :=
  match l.phase, reply with
  | .connecting, .connectFailed => l.retry .reconnecting
  | .connecting, .connected =>
      ({ l with
          phase := .calling
          backoff := if l.unsupported then l.backoff else backoffBounds.least }, {})
  | .calling, .rpcFailed unimplemented =>
      { l with unsupported := true }.retry (StreamLoops.rpcFailed unimplemented)
  | .calling, .opened => ({ l with phase := .reading, gotAny := false }, {})
  | .reading, .message m =>
      { l with unsupported := l.unsupported && l.gotAny, gotAny := true }.forward gone (.transfers m)
  | .reading, .ended =>
      if l.gotAny then l.retry .reconnecting
      else { l with unsupported := true, backoff := backoffBounds.bump l.backoff }.retry .unimplemented
  | .reading, .broken =>
      if l.gotAny then l.retry .reconnecting
      else { l with backoff := backoffBounds.bump l.backoff }.retry .reconnecting
  | _, _ => (l, {})

def step (gone : Bool) (l : Loop) : {kind : StreamKind} → Reply kind → Loop × Deed
  | .blocks, reply => l.plainStep gone reply
  | .exec, reply => l.plainStep gone reply
  | .transfers, reply => l.transfersStep gone reply

/-- The replies a loop can be given where it is. -/
def awaits (l : Loop) {kind : StreamKind} : Reply kind → Bool
  | .connectFailed => l.phase = .connecting
  | .connected => l.phase = .connecting
  | .rpcFailed _ => l.phase = .calling
  | .opened => l.phase = .calling
  | .message _ => l.phase = .reading
  | .ended => l.phase = .reading
  | .broken => l.phase = .reading

end Loop

/-! ## The loops beside the writer -/

/-- `[streams]`: which streams are subscribed to. -/
structure Streams where
  filledBlocks : Bool := true
  slotExecutionOutputs : Bool := true
  transfers : Bool := true

def Streams.enables (streams : Streams) : StreamKind → Bool
  | .blocks => streams.filledBlocks
  | .exec => streams.slotExecutionOutputs
  | .transfers => streams.transfers

structure World where
  writer : Ingest
  /-- The writer's task has ended, and its receivers with it. -/
  gone : Bool := false
  /-- The loops that were spawned. -/
  loops : StreamKind → Option Loop
  metrics : Metrics
  /-- What each loop has heard, and how long each of its pauses was. -/
  heard : (kind : StreamKind) → List (Reply kind) := fun _ => []
  pauses : StreamKind → List Nat := fun _ => []

/-- `run_consumers`: a loop and a reporter for each enabled stream. -/
def World.start (db : Db) (streams : Streams) : World where
  writer := .init db true
  loops := fun kind => if streams.enables kind then some {} else none
  metrics := StreamKind.all.foldl
    (fun m kind => if streams.enables kind then m.streamSetEnabled kind true else m) fun _ => {}

inductive Act where
  /-- The node tells a loop something. -/
  | node (kind : StreamKind) (reply : Reply kind) (nowMs : Int)
  /-- The ticker of the process. -/
  | tick
  /-- A producer of the bulk lane. -/
  | bulk (e : Event)
  | closeBulk
  | poll (nowMs : Int)
  | stop

namespace World

/-- The health a deed reports. -/
def report (m : Metrics) (kind : StreamKind) (nowMs : Int) (deed : Deed) : Metrics :=
  let m := deed.report.elim m (m.streamSetState kind)
  if deed.frame.isSome then m.streamEvent kind nowMs else m

variable [Bs58Check] [DenunciationDigest]

/-- The live lane after a deed: nothing reaches a writer that is gone. -/
def sends (w : World) (deed : Deed) : Ingest :=
  if w.gone then w.writer else deed.frame.elim w.writer fun e => w.writer.act (.send .live e)

/-- Loop `l` of a stream hears a reply. -/
def hear (w : World) (kind : StreamKind) (l : Loop) (reply : Reply kind) (nowMs : Int) : World :=
  let next := l.step w.gone reply
  { w with
    loops := Function.update w.loops kind (some next.1)
    metrics := report w.metrics kind nowMs next.2
    writer := w.sends next.2
    heard := Function.update w.heard kind (w.heard kind ++ [reply])
    pauses := Function.update w.pauses kind (w.pauses kind ++ next.2.pause.toList) }

def act (w : World) : Act → World
  | .node kind reply nowMs =>
      match w.loops kind with
      | none => w
      | some l => if l.awaits reply then w.hear kind l reply nowMs else w
  | .tick => if w.gone then w else { w with writer := w.writer.act (.send .live .tick) }
  | .bulk e => if w.gone then w else { w with writer := w.writer.act (.send .bulk e) }
  | .closeBulk => { w with writer := w.writer.act (.close .bulk) }
  | .poll nowMs => if w.gone then w else { w with writer := w.writer.act (.poll nowMs) }
  | .stop => { w with gone := true }

/-- A reply is heard by the loop it is for, if that loop is waiting for it. -/
theorem act_node (w : World) (kind : StreamKind) (reply : Reply kind) (nowMs : Int) :
    w.act (.node kind reply nowMs) = w ∨ ∃ l, w.loops kind = some l ∧ l.awaits reply = true ∧
      w.act (.node kind reply nowMs) = w.hear kind l reply nowMs := by
  cases spawned : w.loops kind with
  | none => exact .inl (by simp [act, spawned])
  | some l =>
      by_cases awaited : l.awaits reply = true
      · exact .inr ⟨l, rfl, awaited, by simp [act, spawned, awaited]⟩
      · exact .inl (by simp [act, spawned, awaited])

end World

end MassaIndexer.Writer.StreamLoops
