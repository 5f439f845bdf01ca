/- # Peer.SyncSession -- calls for a slot over a session of frames

A session carries frames both ways between two indexers, and either end may ask the other for a
slot: `get_final_slot` files a waiter under a fresh number and sends the request. The task of an end
hands over what its callers send, answers the requests of the other end from its own store, and
gives a response to the waiter of its number. Sessions are dialled, refused, cut and dropped at any
moment, any task may act between two steps of another, and a peer that is no indexer may send any
frame.

`did_act` says all that a step can do to the calls and to the frames on their way. -/
import MassaIndexer.Peer.Service
import MassaIndexer.Writer.Step
import Mathlib.Logic.Function.Basic

namespace MassaIndexer.Peer.SyncSession

open MassaIndexer.Data.Ids MassaIndexer.Data.Model MassaIndexer.Data.Proto
open MassaIndexer.Data.Codec MassaIndexer.Store.ColumnFamilies
open MassaIndexer.Writer.Shared MassaIndexer.Writer.Step MassaIndexer.Peer.Service

set_option autoImplicit false

/-! ## Frames -/

structure SessionHello where
  peerId : String := ""
  network : String := ""
  buildVersion : String := ""
  schemaVersion : UInt32 := 0
  advertiseUrl : String := ""

inductive Body where
  | hello (h : SessionHello)
  | slotRequest (req : FinalSlotRequest)
  | slotResponse (resp : FinalSlotResponse)

structure SessionMessage where
  id : UInt64
  body : Option Body

structure LocalPeerIdentity where
  peerId : String
  network : String
  buildVersion : String
  advertiseUrl : String

def schemaVersion : UInt32 := 2

def makeHello (self : LocalPeerIdentity) : SessionMessage where
  id := 0
  body := some (.hello
    { peerId := self.peerId
      network := self.network
      buildVersion := self.buildVersion
      schemaVersion := schemaVersion
      advertiseUrl := self.advertiseUrl })

/-- What `sync_session` asks of the first frame. -/
def admitHello (self : LocalPeerIdentity) (first : SessionMessage) : Except String SessionHello :=
  match first.body with
  | some (.hello hello) =>
      if hello.peerId = "" then .error "sync session: empty peer_id"
      else if hello.network ≠ "" ∧ hello.network ≠ self.network then
        .error ("sync session: network mismatch (got " ++ hello.network ++ ", expected " ++
          self.network ++ ")")
      else if hello.peerId = self.peerId then .error "sync session: self-dial refused"
      else .ok hello
  | _ => .error "sync session: first message must be SessionHello"

/-! ## Ends and calls -/

/-- An end of a session: that of the indexer that dialled, or the other one. -/
structure EndId where
  session : Nat
  dialer : Bool
deriving DecidableEq

def EndId.other (e : EndId) : EndId := { e with dialer := !e.dialer }

/-- How far the task of an end has come. A session that could not be opened is gone at once. -/
inductive Task where
  | opening
  | running
  | leaving
  | failed
  | gone
deriving DecidableEq

/-- The bridge of an end, the queue behind its `to_remote`, and the frames on their way from it. A
peer that is no indexer has no owner. -/
structure Endpoint (ι : Type) where
  owner : Option ι
  peerId : String
  pending : UInt64 → Option Nat := fun _ => none
  toRemote : List SessionMessage := []
  sink : List SessionMessage := []
  task : Task

/-- The arguments of a call, and the number `CORR_IDS` gave it before it wraps. -/
structure Asked where
  endpoint : EndId
  serial : Nat
  period : UInt64
  thread : UInt8
  parts : FinalSlotParts

namespace Asked

/-- The counter starts at one. -/
def corr (q : Asked) : UInt64 := UInt64.ofNat (q.serial + 1)

def frame (q : Asked) : SessionMessage where
  id := q.corr
  body := some (.slotRequest
    { period := q.period, thread := q.thread.toUInt32, parts := some q.parts })

end Asked

inductive Oneshot where
  | empty
  | filled (resp : FinalSlotResponse)
  | dropped

/-- How far a call has come. A call whose frame was refused, or whose time is up, still has to take
its waiter back. -/
inductive Phase where
  | sending
  | waiting
  | unsent
  | expired
  | returned (result : Except String FinalSlotResponse)

structure Call where
  asked : Asked
  oneshot : Oneshot := .empty
  phase : Phase := .sending

def Call.Returned (call : Call) : Prop := ∃ result, call.phase = .returned result

structure Mesh (ι : Type) where
  identity : ι → LocalPeerIdentity
  db : ι → Db
  corrIds : ι → Nat := fun _ => 0
  ends : EndId → Option (Endpoint ι) := fun _ => none
  calls : Nat → Option Call := fun _ => none

inductive Act (ι : Type) where
  | ingest (i : ι) (event : Timed)
  | dial (s : Nat) (i : ι) (peerId : String)
  | dialForeign (s : Nat) (peerId : String)
  | accept (s : Nat) (i : ι)
  | acceptForeign (s : Nat) (peerId : String)
  | opened (s : Nat)
  | openFailed (s : Nat)
  | foreign (e : EndId) (frame : SessionMessage)
  | getFinalSlot (c : Nat) (e : EndId) (period : UInt64) (thread : UInt8) (parts : FinalSlotParts)
  | send (c : Nat)
  | forward (e : EndId)
  | receive (e : EndId)
  | hangUp (e : EndId)
  | failPending (e : EndId)
  | dropRx (e : EndId)
  | resume (c : Nat)
  | expire (c : Nat)
  | forget (c : Nat)

variable {ι : Type}

/-! ## Steps -/

namespace Mesh

variable (w : Mesh ι)

def setEnd (e : EndId) (p : Endpoint ι) : Mesh ι :=
    { w with ends := Function.update w.ends e (some p) }

def setCall (c : Nat) (call : Call) : Mesh ι :=
    { w with calls := Function.update w.calls c (some call) }

@[simp, grind =] theorem ends_setEnd (e d : EndId) (p : Endpoint ι) :
    (w.setEnd e p).ends d = if d = e then some p else w.ends d := Function.update_apply ..

@[simp, grind =] theorem calls_setEnd (e : EndId) (p : Endpoint ι) :
    (w.setEnd e p).calls = w.calls := rfl

@[simp, grind =] theorem corrIds_setEnd (e : EndId) (p : Endpoint ι) :
    (w.setEnd e p).corrIds = w.corrIds := rfl

@[simp, grind =] theorem calls_setCall (c d : Nat) (call : Call) :
    (w.setCall c call).calls d = if d = c then some call else w.calls d := Function.update_apply ..

@[simp, grind =] theorem ends_setCall (c : Nat) (call : Call) :
    (w.setCall c call).ends = w.ends := rfl

@[simp, grind =] theorem corrIds_setCall (c : Nat) (call : Call) :
    (w.setCall c call).corrIds = w.corrIds := rfl

/-- An end that is there takes a new form. -/
def editEnd (e : EndId) (f : Endpoint ι → Endpoint ι) : Mesh ι :=
  match w.ends e with
  | none => w
  | some p => w.setEnd e (f p)

/-- A new end, unless there is one. -/
def newEnd (e : EndId) (p : Endpoint ι) : Mesh ι :=
  match w.ends e with
  | none => w.setEnd e p
  | some _ => w

/-- The task of an end goes on from where it stands. -/
def moveTask (e : EndId) (old new : Task) : Mesh ι :=
  w.editEnd e fun p => if p.task = old then { p with task := new } else p

/-- The sender of a waiter is used, or dropped. -/
def resolve (c : Nat) (outcome : Oneshot) : Mesh ι :=
  match w.calls c with
  | none => w
  | some call => w.setCall c { call with oneshot := outcome }

/-- A waiter that is filed over loses its sender. -/
def replace : Option Nat → Mesh ι
  | none => w
  | some old => w.resolve old .dropped

@[simp] theorem ends_replace (old : Option Nat) : (w.replace old).ends = w.ends := by
  unfold replace resolve
  split
  · rfl
  · split <;> rfl

@[simp] theorem corrIds_replace (old : Option Nat) : (w.replace old).corrIds = w.corrIds := by
  unfold replace resolve
  split
  · rfl
  · split <;> rfl

end Mesh

variable [DecidableEq ι]

/-- `sync_session`: the first frame of the dialer decides. -/
def accept (w : Mesh ι) (s : Nat) (i : ι) : Mesh ι :=
  match w.ends ⟨s, true⟩, w.ends ⟨s, false⟩ with
  | some dialer, none =>
      match dialer.sink with
      | [] => w
      | first :: rest =>
          let w := w.setEnd ⟨s, true⟩ { dialer with sink := rest }
          match admitHello (w.identity i) first with
          | .error _ => w
          | .ok hello =>
              w.setEnd ⟨s, false⟩
                { owner := some i, peerId := hello.peerId, sink := [makeHello (w.identity i)],
                  task := .running }
  | _, _ => w

def getFinalSlot (w : Mesh ι) (c : Nat) (e : EndId) (period : UInt64) (thread : UInt8)
    (parts : FinalSlotParts) : Mesh ι :=
  match w.calls c, w.ends e with
  | none, some p =>
      match p.owner with
      | none => w
      | some i =>
          let asked : Asked := { endpoint := e, serial := w.corrIds i, period, thread, parts }
          let w := w.replace (p.pending asked.corr)
          ({ w with corrIds := Function.update w.corrIds i (w.corrIds i + 1) }.setEnd e
            { p with pending := Function.update p.pending asked.corr (some c) }).setCall c { asked }
  | _, _ => w

def send (w : Mesh ι) (c : Nat) : Mesh ι :=
  match w.calls c with
  | none => w
  | some call =>
      match call.phase, w.ends call.asked.endpoint with
      | .sending, some p =>
          if p.task = .gone then w.setCall c { call with phase := .unsent }
          else (w.setEnd call.asked.endpoint
              { p with toRemote := p.toRemote ++ [call.asked.frame] }).setCall c
            { call with phase := .waiting }
      | _, _ => w

def forward (w : Mesh ι) (e : EndId) : Mesh ι :=
  w.editEnd e fun p =>
    match p.task, p.toRemote with
    | .running, frame :: rest => { p with toRemote := rest, sink := p.sink ++ [frame] }
    | _, _ => p

variable [Bs58Check]

/-- What the task of an end does with a frame. -/
def handleFrame (w : Mesh ι) (e : EndId) (p : Endpoint ι) (i : ι) (frame : SessionMessage) : Mesh ι :=
  match frame.body with
  | some (.slotRequest req) =>
      match threadFromPb req.thread with
      | .error _ => w
      | .ok thread =>
          let resp := buildFinalSlotResponse (w.db i) ⟨req.period, thread⟩ (req.parts.getD {})
          w.setEnd e { p with sink := p.sink ++ [⟨frame.id, some (.slotResponse resp)⟩] }
  | some (.slotResponse resp) =>
      match p.pending frame.id with
      | none => w
      | some c =>
          (w.setEnd e { p with pending := Function.update p.pending frame.id none }).resolve c
            (.filled resp)
  | _ => w

def receive (w : Mesh ι) (e : EndId) : Mesh ι :=
  match w.ends e, w.ends e.other with
  | some p, some remote =>
      match p.owner, p.task, remote.sink with
      | some i, .running, frame :: rest =>
          handleFrame (w.setEnd e.other { remote with sink := rest }) e p i frame
      | _, _, _ => w
  | _, _ => w

omit [DecidableEq ι] [Bs58Check] in
/-- `fail_pending` drops the sender of every waiter that is filed. -/
def failPending (w : Mesh ι) (e : EndId) : Mesh ι :=
  match w.ends e with
  | none => w
  | some p =>
      if p.task = .leaving then
        { w.setEnd e { p with pending := fun _ => none, task := .failed } with
          calls := fun c => (w.calls c).map fun call =>
            if call.asked.endpoint = e ∧ p.pending call.asked.corr = some c then
              { call with oneshot := .dropped }
            else call }
      else w

omit [DecidableEq ι] [Bs58Check] in
/-- The waiter is polled. -/
def resume (w : Mesh ι) (c : Nat) : Mesh ι :=
  match w.calls c with
  | none => w
  | some call =>
      match call.phase, call.oneshot with
      | .waiting, .filled resp => w.setCall c { call with phase := .returned (.ok resp) }
      | .waiting, .dropped =>
          let peerId := ((w.ends call.asked.endpoint).map (·.peerId)).getD ""
          w.setCall c
            { call with phase := .returned (.error ("peer " ++ peerId ++ " sync session cancelled")) }
      | _, _ => w

omit [DecidableEq ι] [Bs58Check] in
/-- The time of a call is up; a response that is there is taken first. -/
def expire (w : Mesh ι) (c : Nat) : Mesh ι :=
  match w.calls c with
  | none => w
  | some call =>
      match call.phase, call.oneshot with
      | .waiting, .empty => w.setCall c { call with phase := .expired }
      | _, _ => w

omit [DecidableEq ι] [Bs58Check] in
/-- A call takes its waiter back and fails. -/
def giveUp (w : Mesh ι) (c : Nat) (call : Call) (outcome : String) : Mesh ι :=
  let peerId := ((w.ends call.asked.endpoint).map (·.peerId)).getD ""
  (w.editEnd call.asked.endpoint fun p =>
    { p with pending := Function.update p.pending call.asked.corr none }).setCall c
      { call with phase := .returned (.error ("peer " ++ peerId ++ " sync session " ++ outcome)) }

omit [DecidableEq ι] [Bs58Check] in
def forget (w : Mesh ι) (c : Nat) : Mesh ι :=
  match w.calls c with
  | none => w
  | some call =>
      match call.phase with
      | .unsent => giveUp w c call "closed"
      | .expired => giveUp w c call "timed out"
      | _ => w

omit [DecidableEq ι] [Bs58Check] in
/-- A bridge is filed under the name the dialer goes by, before the other side has answered. -/
def dial (w : Mesh ι) (s : Nat) (i : ι) (peerId : String) : Mesh ι :=
  match w.ends ⟨s, false⟩ with
  | none =>
      w.newEnd ⟨s, true⟩
        { owner := some i, peerId, sink := [makeHello (w.identity i)], task := .opening }
  | some _ => w

omit [DecidableEq ι] [Bs58Check] in
def opened (w : Mesh ι) (s : Nat) : Mesh ι :=
  match w.ends ⟨s, false⟩ with
  | none => w
  | some _ => w.moveTask ⟨s, true⟩ .opening .running

omit [DecidableEq ι] [Bs58Check] in
def foreign (w : Mesh ι) (e : EndId) (frame : SessionMessage) : Mesh ι :=
  w.editEnd e fun p => if p.owner.isNone then { p with sink := p.sink ++ [frame] } else p

/-! ## What a step does -/

/-- What a step does to an end that neither gains nor loses a waiter and answers nothing. -/
inductive EndMove : Option (Endpoint ι) → Option (Endpoint ι) → Prop where
  | absent : EndMove none none
  | new (p : Endpoint ι) (noWaiter : p.pending = fun _ => none) (unsent : p.toRemote = [])
      (greeting : ∀ m ∈ p.sink, ∃ h, m.body = some (.hello h)) : EndMove none (some p)
  | kept {p p' : Endpoint ι} (owner : p'.owner = p.owner) (pending : p'.pending = p.pending)
      (queued : ∀ m ∈ p'.toRemote, m ∈ p.toRemote)
      (sent : ∀ m ∈ p'.sink, m ∈ p.toRemote ∨ m ∈ p.sink ∨ p.owner = none) :
      EndMove (some p) (some p')

omit [DecidableEq ι] [Bs58Check] in
theorem EndMove.refl (p : Option (Endpoint ι)) : EndMove p p := by
  cases p with
  | none => exact .absent
  | some p => exact .kept rfl rfl (fun _ => id) fun _ member => .inr (.inl member)

/-- **What a step does** to the calls, to the waiters and to the frames on their way. -/
inductive Did (w : Mesh ι) : Mesh ι → Prop where
  | quiet {w' : Mesh ι} (calls : w'.calls = w.calls) (corrIds : w'.corrIds = w.corrIds)
      (ends : ∀ e, EndMove (w.ends e) (w'.ends e)) : Did w w'
  | called {c : Nat} {e : EndId} {p : Endpoint ι} {i : ι} (q : Asked) (fresh : w.calls c = none)
      (here : w.ends e = some p) (owner : p.owner = some i) (endpoint : q.endpoint = e)
      (serial : q.serial = w.corrIds i) (unfiled : p.pending q.corr = none) :
      Did w (({ w with corrIds := Function.update w.corrIds i (w.corrIds i + 1) }.setEnd e
        { p with pending := Function.update p.pending q.corr (some c) }).setCall c { asked := q })
  | sent {c : Nat} {call : Call} {p : Endpoint ι} (found : w.calls c = some call)
      (sending : call.phase = .sending) (here : w.ends call.asked.endpoint = some p) :
      Did w ((w.setEnd call.asked.endpoint
          { p with toRemote := p.toRemote ++ [call.asked.frame] }).setCall c
        { call with phase := .waiting })
  | stalled {c : Nat} {call : Call} {phase : Phase} (found : w.calls c = some call)
      (open_ : ¬ call.Returned) (still : ∀ result, phase ≠ .returned result) :
      Did w (w.setCall c { call with phase })
  | served {e : EndId} {p remote : Endpoint ι} {i : ι} {frame : SessionMessage}
      {rest : List SessionMessage} {req : FinalSlotRequest} {thread : UInt8}
      (here : w.ends e = some p) (there : w.ends e.other = some remote) (owner : p.owner = some i)
      (arrived : remote.sink = frame :: rest) (asks : frame.body = some (.slotRequest req))
      (named : threadFromPb req.thread = .ok thread) :
      Did w ((w.setEnd e.other { remote with sink := rest }).setEnd e
        { p with sink := p.sink ++ [⟨frame.id, some (.slotResponse
            (buildFinalSlotResponse (w.db i) ⟨req.period, thread⟩ (req.parts.getD {})))⟩] })
  | completed {e : EndId} {p remote : Endpoint ι} {frame : SessionMessage}
      {rest : List SessionMessage} {resp : FinalSlotResponse} {c : Nat} {call : Call}
      (here : w.ends e = some p) (there : w.ends e.other = some remote)
      (arrived : remote.sink = frame :: rest) (answers : frame.body = some (.slotResponse resp))
      (filed : p.pending frame.id = some c) (found : w.calls c = some call)
      (open_ : ¬ call.Returned) :
      Did w (((w.setEnd e.other { remote with sink := rest }).setEnd e
        { p with pending := Function.update p.pending frame.id none }).setCall c
          { call with oneshot := .filled resp })
  | drained {e : EndId} {p : Endpoint ι} (here : w.ends e = some p)
      (open_ : ∀ c call, w.calls c = some call → p.pending call.asked.corr = some c →
          ¬ call.Returned) :
      Did w { w.setEnd e { p with pending := fun _ => none, task := .failed } with
        calls := fun c => (w.calls c).map fun call =>
          if call.asked.endpoint = e ∧ p.pending call.asked.corr = some c then
            { call with oneshot := .dropped }
          else call }
  | resumed {c : Nat} {call : Call} {result : Except String FinalSlotResponse}
      (found : w.calls c = some call) (open_ : ¬ call.Returned)
      (told : ∀ resp, result = .ok resp → call.oneshot = .filled resp)
      (resolved : call.oneshot ≠ .empty) :
      Did w (w.setCall c { call with phase := .returned result })
  | forgot {c : Nat} {call : Call} {p : Endpoint ι} {outcome : String} (found : w.calls c = some call)
      (open_ : ¬ call.Returned) (here : w.ends call.asked.endpoint = some p) :
      Did w ((w.setEnd call.asked.endpoint
        { p with pending := Function.update p.pending call.asked.corr none }).setCall c
          { call with phase := .returned (.error outcome) })

omit [DecidableEq ι] [Bs58Check] in
theorem other_ne (e : EndId) : e.other ≠ e := by
  intro same
  have flipped := congrArg EndId.dialer same
  simp [EndId.other] at flipped

omit [DecidableEq ι] [Bs58Check] in
@[simp] theorem other_other (e : EndId) : e.other.other = e := by
  simp [EndId.other]

section Quiet

variable {w : Mesh ι}

theorem Did.refl (w : Mesh ι) : Did w w := .quiet rfl rfl fun e => .refl (w.ends e)

/-- One end moves, the rest stays. -/
theorem did_setEnd {e : EndId} {p : Endpoint ι} (moved : EndMove (w.ends e) (some p)) :
    Did w (w.setEnd e p) := by
  refine .quiet rfl rfl fun e' => ?_
  by_cases here : e' = e
  · subst here
    simpa [Mesh.setEnd] using moved
  · simpa [Mesh.setEnd, Function.update_of_ne here] using EndMove.refl (w.ends e')

theorem did_editEnd {e : EndId} {f : Endpoint ι → Endpoint ι}
    (moved : ∀ p, w.ends e = some p → EndMove (some p) (some (f p))) : Did w (w.editEnd e f) := by
  unfold Mesh.editEnd
  split
  · exact .refl w
  · next p here => exact did_setEnd (here ▸ moved p here)

theorem did_newEnd {e : EndId} {p : Endpoint ι} (new : EndMove none (some p)) :
    Did w (w.newEnd e p) := by
  unfold Mesh.newEnd
  split
  · next absent => exact did_setEnd (absent ▸ new)
  · exact .refl w

theorem did_moveTask (e : EndId) (old new : Task) : Did w (w.moveTask e old new) := by
  refine did_editEnd fun p _ => ?_
  split
  · exact .kept rfl rfl (fun _ => id) fun _ member => .inr (.inl member)
  · exact .refl _

theorem did_accept (s : Nat) (i : ι) : Did w (accept w s i) := by
  unfold accept
  split
  · next dialer there absent =>
      split
      · exact .refl w
      · next first rest arrived =>
          have taken : EndMove (w.ends ⟨s, true⟩) (some { dialer with sink := rest }) := by
            rw [there]
            refine .kept rfl rfl (fun _ => id) fun m member => .inr (.inl ?_)
            rw [arrived]
            exact List.mem_cons_of_mem _ member
          dsimp only
          split
          · exact did_setEnd taken
          · next hello admitted =>
              refine .quiet rfl rfl fun e => ?_
              by_cases listener : e = ⟨s, false⟩
              · subst listener
                simp only [Mesh.setEnd, Function.update_self, absent]
                refine .new _ rfl rfl fun m member => ?_
                obtain rfl := List.mem_singleton.mp member
                exact ⟨_, rfl⟩
              · by_cases dialled : e = ⟨s, true⟩
                · subst dialled
                  simpa [Mesh.setEnd] using taken
                · simpa [Mesh.setEnd, Function.update_of_ne listener, Function.update_of_ne dialled]
                    using EndMove.refl (w.ends e)
  · exact .refl w

theorem did_getFinalSlot (c : Nat) (e : EndId) (period : UInt64) (thread : UInt8)
    (parts : FinalSlotParts)
    (free : ∀ p i, w.calls c = none → w.ends e = some p → p.owner = some i →
      p.pending (UInt64.ofNat (w.corrIds i + 1)) = none) :
    Did w (getFinalSlot w c e period thread parts) := by
  unfold getFinalSlot
  split
  · next p fresh here =>
      split
      · exact .refl w
      · next i owner =>
          have unfiled : p.pending (Asked.corr ⟨e, w.corrIds i, period, thread, parts⟩) = none :=
            free p i fresh here owner
          dsimp only
          rw [unfiled]
          exact .called ⟨e, w.corrIds i, period, thread, parts⟩ fresh here owner rfl rfl unfiled
  · exact .refl w

theorem did_send (c : Nat) : Did w (send w c) := by
  unfold send
  split
  · exact .refl w
  · next call found =>
      split
      · next p sending here =>
          split
          · exact .stalled found (by rintro ⟨result, same⟩; rw [sending] at same; cases same)
              fun result => by rintro ⟨⟩
          · exact .sent found sending here
      · exact .refl w

theorem did_forward (e : EndId) : Did w (forward w e) := by
  refine did_editEnd fun p _ => ?_
  split
  · next frame rest _ queued =>
      refine .kept rfl rfl (fun m member => ?_) fun m member => ?_
      · rw [queued]
        exact List.mem_cons_of_mem frame member
      · rcases List.mem_append.mp member with before | now
        · exact .inr (.inl before)
        · obtain rfl := List.mem_singleton.mp now
          exact .inl (queued ▸ List.mem_cons_self)
  · exact .refl _

theorem did_receive (e : EndId) (filed : ∀ p n c, w.ends e = some p → p.pending n = some c →
      ∃ call, w.calls c = some call ∧ ¬ call.Returned) :
    Did w (receive w e) := by
  unfold receive
  split
  · next p remote here there =>
      split
      · next i frame rest owner _ arrived =>
          have taken : Did w (w.setEnd e.other { remote with sink := rest }) := by
            refine did_setEnd ?_
            rw [there]
            refine .kept rfl rfl (fun _ => id) fun m member => .inr (.inl ?_)
            rw [arrived]
            exact List.mem_cons_of_mem _ member
          unfold handleFrame
          split
          · next req asks =>
              split
              · exact taken
              · next thread named => exact .served here there owner arrived asks named
          · next resp answers =>
              split
              · exact taken
              · next c waits =>
                  obtain ⟨call, found, open_⟩ := filed p frame.id c here waits
                  have resolved := Did.completed here there arrived answers waits found open_
                  simpa only [Mesh.resolve, Mesh.setEnd, found] using resolved
          · exact taken
      · exact .refl w
  · exact .refl w

theorem did_failPending (e : EndId) (filed : ∀ p n c, w.ends e = some p → p.pending n = some c →
      ∃ call, w.calls c = some call ∧ ¬ call.Returned) : Did w (failPending w e) := by
  unfold failPending
  split
  · exact .refl w
  · next p here =>
      split
      · refine .drained here fun c call found waits => ?_
        obtain ⟨call', found', open_⟩ := filed p call.asked.corr c here waits
        obtain rfl := Option.some.inj (found.symm.trans found')
        exact open_
      · exact .refl w

theorem did_resume (c : Nat) : Did w (resume w c) := by
  unfold resume
  split
  · exact .refl w
  · next call found =>
      have waits : ∀ {phase : Phase}, call.phase = phase → (∀ result, phase ≠ .returned result) →
          ¬ call.Returned := by
        rintro phase rfl never ⟨result, same⟩
        exact never result same
      split
      · next resp waiting filled =>
          refine .resumed found (waits waiting fun result => by rintro ⟨⟩) ?_ (by simp [filled])
          rintro _ ⟨⟩
          exact filled
      · next waiting dropped =>
          refine .resumed found (waits waiting fun result => by rintro ⟨⟩) ?_ (by simp [dropped])
          rintro _ ⟨⟩
      · exact .refl w

theorem did_expire (c : Nat) : Did w (expire w c) := by
  unfold expire
  split
  · exact .refl w
  · next call found =>
      split
      · next waiting _ =>
          exact .stalled found (by rintro ⟨result, same⟩; rw [waiting] at same; cases same)
            fun result => by rintro ⟨⟩
      · exact .refl w

theorem did_giveUp {c : Nat} {call : Call} {p : Endpoint ι} (outcome : String)
    (found : w.calls c = some call)
    (open_ : ¬ call.Returned) (here : w.ends call.asked.endpoint = some p) :
    Did w (giveUp w c call outcome) := by
  unfold giveUp Mesh.editEnd
  rw [here]
  exact .forgot found open_ here

theorem did_forget (c : Nat)
    (asked : ∀ call, w.calls c = some call → ∃ p, w.ends call.asked.endpoint = some p) :
    Did w (forget w c) := by
  unfold forget
  split
  · exact .refl w
  · next call found =>
      obtain ⟨p, here⟩ := asked call found
      split
      · next unsent =>
          exact did_giveUp "closed" found
            (by rintro ⟨result, same⟩; rw [unsent] at same; cases same) here
      · next expired =>
          exact did_giveUp "timed out" found
            (by rintro ⟨result, same⟩; rw [expired] at same; cases same) here
      · exact .refl w

theorem did_dial (s : Nat) (i : ι) (peerId : String) : Did w (dial w s i peerId) := by
  unfold dial
  split
  · refine did_newEnd (.new _ rfl rfl fun m member => ?_)
    obtain rfl := List.mem_singleton.mp member
    exact ⟨_, rfl⟩
  · exact .refl w

theorem did_opened (s : Nat) : Did w (opened w s) := by
  unfold opened
  split
  · exact .refl w
  · exact did_moveTask ..

theorem did_foreign (e : EndId) (frame : SessionMessage) : Did w (foreign w e frame) := by
  refine did_editEnd fun p _ => ?_
  split
  · next unowned =>
      exact .kept rfl rfl (fun _ => id) fun m _ => .inr (.inr (Option.isNone_iff_eq_none.mp unowned))
  · exact .refl _

end Quiet

/-! ## Steps of the mesh -/

variable [DenunciationDigest]

def act (w : Mesh ι) : Act ι → Mesh ι
  | .ingest i event => { w with db := Function.update w.db i (step (w.db i) event) }
  | .dial s i peerId => dial w s i peerId
  | .dialForeign s peerId => w.newEnd ⟨s, true⟩ { owner := none, peerId, task := .running }
  | .accept s i => accept w s i
  | .acceptForeign s peerId => w.newEnd ⟨s, false⟩ { owner := none, peerId, task := .running }
  | .opened s => opened w s
  | .openFailed s => w.moveTask ⟨s, true⟩ .opening .gone
  | .foreign e frame => foreign w e frame
  | .getFinalSlot c e period thread parts => getFinalSlot w c e period thread parts
  | .send c => send w c
  | .forward e => forward w e
  | .receive e => receive w e
  | .hangUp e => w.moveTask e .running .leaving
  | .failPending e => failPending w e
  | .dropRx e => w.moveTask e .failed .gone
  | .resume c => resume w c
  | .expire c => expire w c
  | .forget c => forget w c

theorem identity_act (w : Mesh ι) (a : Act ι) : (act w a).identity = w.identity := by
  cases a
  all_goals
    simp only [act, dial, Mesh.newEnd, accept, opened, Mesh.moveTask, Mesh.editEnd, foreign,
      getFinalSlot, Mesh.replace, send, forward, receive, handleFrame, failPending, resume, expire,
      forget, giveUp, Mesh.resolve]
    repeat' split
  all_goals rfl

/-- Only a new call counts. -/
theorem corrIds_act (w : Mesh ι) (a : Act ι) (i : ι) : w.corrIds i ≤ (act w a).corrIds i := by
  cases a with
  | getFinalSlot c e period thread parts =>
      dsimp only [act, getFinalSlot]
      split
      · split
        · exact le_rfl
        · next j _ =>
            by_cases same : i = j
            · subst same
              simp
            · simp [Function.update_of_ne same]
      · exact le_rfl
  | _ =>
      refine le_of_eq ?_
      simp only [act, dial, Mesh.newEnd, accept, opened, Mesh.moveTask, Mesh.editEnd, foreign, send,
        forward, receive, handleFrame, failPending, resume, expire, forget, giveUp, Mesh.resolve]
      repeat' split
      all_goals rfl

/-- Waiters are filed for open calls, and the number of a new call is free. -/
theorem did_act {w : Mesh ι}
    (filed : ∀ e p n c, w.ends e = some p → p.pending n = some c →
      ∃ call, w.calls c = some call ∧ ¬ call.Returned)
    (asked : ∀ c call, w.calls c = some call → ∃ p, w.ends call.asked.endpoint = some p)
    (a : Act ι) (free : ∀ c e period thread parts p i, a = .getFinalSlot c e period thread parts →
      w.calls c = none → w.ends e = some p → p.owner = some i →
      p.pending (UInt64.ofNat (w.corrIds i + 1)) = none) : Did w (act w a) := by
  cases a with
  | ingest i event => exact .quiet rfl rfl fun e => .refl (w.ends e)
  | dial s i peerId => exact did_dial s i peerId
  | dialForeign s peerId => exact did_newEnd (.new _ rfl rfl (by simp))
  | accept s i => exact did_accept s i
  | acceptForeign s peerId => exact did_newEnd (.new _ rfl rfl (by simp))
  | opened s => exact did_opened s
  | openFailed s => exact did_moveTask ..
  | foreign e frame => exact did_foreign e frame
  | getFinalSlot c e period thread parts =>
      exact did_getFinalSlot c e period thread parts fun p i => free c e period thread parts p i rfl
  | send c => exact did_send c
  | forward e => exact did_forward e
  | receive e => exact did_receive e (filed e)
  | hangUp e => exact did_moveTask ..
  | failPending e => exact did_failPending e (filed e)
  | dropRx e => exact did_moveTask ..
  | resume c => exact did_resume c
  | expire c => exact did_expire c
  | forget c => exact did_forget c (asked c)

end MassaIndexer.Peer.SyncSession
