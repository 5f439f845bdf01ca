/-
# Repair.Importer -- the one-shot import

A pass of the importer takes the slots of its range from the top down, keeps some of them in flight at once
and takes what is done in any order (`buffer_unordered`). A lookup first reads the local row, then asks the
archive until it answers, eight times at most; the one consumer counts the outcomes and ships the patches.
Passes repeat until one ends without an error.

Everything around the importer is free: what the store holds at each moment, what the archive answers to
each attempt, which lookup moves next, and when the channel closes.
-/
import MassaIndexer.Repair.Checkpoints

namespace MassaIndexer.Repair.Importer

open MassaIndexer.Theory.Sweep
open MassaIndexer.Data.Ids MassaIndexer.Data.Model MassaIndexer.Data.Proto
open MassaIndexer.Store.ColumnFamilies MassaIndexer.Peer.Backfill
open MassaIndexer.Repair.Producers MassaIndexer.Repair.Checkpoints

set_option autoImplicit false

/-- Tunables of `run_oneshot_import`, less the pause before each lookup. -/
structure OneShotConfig where
  maxPeriod : Option UInt64
  minPeriod : Option UInt64
  threadCount : UInt8
  concurrency : Nat

/-- `FETCH_ATTEMPTS`. -/
def fetchAttempts : Nat := 8

/-- What `fetch_slot` of a source returns. -/
abbrev Answer := Except String (Option FinalSlotResponse)

inductive FetchKind where
  | filled (resp : FinalSlotResponse)
  | empty
  | skipped
  | error (message : String)

/-! ## Lookups -/

/-- The attempts left, the last error, and the answers to come. It waits where they run out. -/
def fetchSlotResilient : Nat → String → List Answer → Option FetchKind
  | 0, lastErr, _ => some (.error lastErr)
  | _ + 1, _, [] => none
  | _ + 1, _, .ok (some resp) :: _ => some (.filled resp)
  | _ + 1, _, .ok none :: _ => some .empty
  | left + 1, _, .error e :: rest => fetchSlotResilient left e rest

/-- A slot in flight: what its row was, once that is read, and what the archive has answered. -/
structure Lookup where
  slot : Slot
  row : Option (Option SlotState) := none
  answers : List Answer := []

def Lookup.outcome (l : Lookup) : Option FetchKind :=
  match l.row with
  | none => none
  | some row =>
      if row.any slotAlreadyCovered then some .skipped
      else fetchSlotResilient fetchAttempts "" l.answers

/-! ## Passes -/

/-- A lookup that was taken, and what its row was then. -/
structure Handled where
  lookup : Lookup
  kind : FetchKind
  row : Option SlotState

/-- What is shipped for an outcome. An empty answer is a miss unless the row has a block by now. -/
def Handled.sent (h : Handled) : Option FinalSlotResponse :=
  match h.kind with
  | .skipped => none
  | .error _ => none
  | .empty => if h.row.any keepsBlock then none else some (missPatch h.lookup.slot)
  | .filled resp => some resp

def FetchKind.isError : FetchKind → Bool
  | .error _ => true
  | _ => false

structure Pass where
  waiting : List Slot
  inFlight : List Lookup := []
  handled : List Handled := []
  errored : Nat := 0
  /-- The loop was left on a closed channel. -/
  broken : Bool := false

/-- The periods of the range from the top down, in each the threads upwards. -/
def slotSeq (cfg : OneShotConfig) (headPeriod : UInt64) : List Slot :=
  (downTo (cfg.minPeriod.getD 0).toNat headPeriod.toNat).flatMap fun p =>
    threadsAt cfg.threadCount (UInt64.ofNat p)

def Pass.start (cfg : OneShotConfig) (headPeriod : UInt64) : Pass where
  waiting := slotSeq cfg headPeriod

/-- The stream of the pass is exhausted. -/
def Pass.drained (pass : Pass) : Bool := pass.waiting.isEmpty && pass.inFlight.isEmpty

/-- The next slot starts while there is room. -/
def Pass.pull (cfg : OneShotConfig) (pass : Pass) : Pass :=
  match pass.waiting with
  | [] => pass
  | slot :: rest =>
      if pass.inFlight.length < max cfg.concurrency 1 then
        { pass with waiting := rest, inFlight := pass.inFlight ++ [{ slot }] }
      else pass

/-- A lookup in flight goes on, if it is not done. -/
def Pass.advance (pass : Pass) (i : Nat) (go : Lookup → Lookup) : Pass :=
  match pass.inFlight[i]? with
  | none => pass
  | some l => if l.outcome.isSome then pass else { pass with inFlight := pass.inFlight.set i (go l) }

/-- The local check comes first, and once. -/
def Lookup.check (db : Db) (l : Lookup) : Lookup :=
  if l.row.isNone then { l with row := some (db.readSlot l.slot) } else l

def Lookup.answer (a : Answer) (l : Lookup) : Lookup :=
  if l.row.isSome then { l with answers := l.answers ++ [a] } else l

/-- A lookup is taken and counted. -/
def Pass.took (pass : Pass) (i : Nat) (h : Handled) : Pass :=
  { pass with
    inFlight := pass.inFlight.eraseIdx i
    handled := pass.handled ++ [h]
    errored := pass.errored + if h.kind.isError then 1 else 0 }

/-! ## The importer -/

inductive Stage where
  | waitingForHead
  | sweeping (head : UInt64) (pass : Pass)
  | pausing (head : UInt64) (pass : Pass)
  | complete (head : UInt64) (pass : Pass)
  | stopped

structure World where
  db : Db
  closed : Bool := false
  lane : List FinalSlotResponse := []
  stage : Stage := .waitingForHead

inductive Act where
  /-- The head is looked for. -/
  | begin_
  | pull
  | check (i : Nat)
  | answer (i : Nat) (a : Answer)
  /-- The consumer takes a lookup that is done; the lane accepts what it ships or is found closed. -/
  | take (i : Nat) (accepted : Bool)
  | endPass
  | resume
  /-- Another task writes the store. -/
  | write (db : Db)
  | close

/-- A new pass, unless the channel is closed. -/
def World.sweep (cfg : OneShotConfig) (w : World) (head : UInt64) : World :=
  { w with stage := if w.closed then .stopped else .sweeping head (.start cfg head) }

/-- The period the walk starts from: the operator's, or that of the newest FINAL slot. -/
def headOf (cfg : OneShotConfig) (db : Db) : Option UInt64 :=
  cfg.maxPeriod.or (db.readLastFinalSlot.map (·.period))

/-- What the consumer makes of the lookup it takes. -/
def World.consume (w : World) (head : UInt64) (pass : Pass) (i : Nat) (accepted : Bool) : World :=
  match pass.inFlight[i]? with
  | none => w
  | some l =>
      match l.outcome with
      | none => w
      | some kind =>
          if w.closed then { w with stage := .sweeping head { pass with broken := true } }
          else
            let h : Handled := ⟨l, kind, w.db.readSlot l.slot⟩
            if h.sent.isSome && !accepted then
              { w with closed := true, stage := .sweeping head { pass with broken := true } }
            else
              { w with lane := w.lane ++ h.sent.toList, stage := .sweeping head (pass.took i h) }

/-- A step of a pass whose loop was not left. -/
def World.inPass (w : World) (go : UInt64 → Pass → World) : World :=
  match w.stage with
  | .sweeping head pass => if pass.broken then w else go head pass
  | _ => w

def World.next (cfg : OneShotConfig) (w : World) : Act → World
  | .begin_ =>
      match w.stage with
      | .waitingForHead =>
          if w.closed then { w with stage := .stopped }
          else
            match headOf cfg w.db with
            | none => w
            | some head => w.sweep cfg head
      | _ => w
  | .pull => w.inPass fun head pass => { w with stage := .sweeping head (pass.pull cfg) }
  | .check i => w.inPass fun head pass =>
      { w with stage := .sweeping head (pass.advance i (Lookup.check w.db)) }
  | .answer i a => w.inPass fun head pass =>
      { w with stage := .sweeping head (pass.advance i (Lookup.answer a)) }
  | .take i accepted => w.inPass fun head pass => w.consume head pass i accepted
  | .endPass =>
      match w.stage with
      | .sweeping head pass =>
          if pass.broken || pass.drained then
            if w.closed then { w with stage := .stopped }
            else if pass.errored = 0 then { w with stage := .complete head pass }
            else { w with stage := .pausing head pass }
          else w
      | _ => w
  | .resume =>
      match w.stage with
      | .pausing head _ => w.sweep cfg head
      | _ => w
  | .write db => { w with db }
  | .close => { w with closed := true }

def World.run (cfg : OneShotConfig) (w : World) (acts : List Act) : World :=
  acts.foldl (World.next cfg) w

end MassaIndexer.Repair.Importer
