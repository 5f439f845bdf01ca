/-
# Peer.Sessions -- health checks, session attempts and the registry

Handles are dialled, health checks and Hello frames move the entry of a remote from its old name to the
one it gives, and session bridges are attempted, opened and closed, in any order: between two calls on
the registry any other task may make one. A session attempt remembers the name it was filed under.

`bridge_step` says all that a step can do to one bridge: it leaves it alone, lists it, gives its attempt
up or closes it, with the registry call that goes with each.
-/
import MassaIndexer.Theory.Runs
import MassaIndexer.Peer.Registry

namespace MassaIndexer.Peer.Sessions

open MassaIndexer.Theory.Runs MassaIndexer.Peer.Registry

set_option autoImplicit false

structure PeerHandle where
  name : String
  url : String
  openSyncSession : Bool
  remotePeerId : Option String := none
  sessionStarted : Bool := false

/-- What a task that has learned a name still has to do. -/
inductive Todo where
  | learn (h : Nat) (peerId : String)
  | migrate (source target : String)
  | addUrl (peerId url : String)

def Todo.call : Todo → Option RegistryCall
  | .learn _ _ => none
  | .migrate source target => some (.migratePeerId source target)
  | .addUrl peerId url => some (.addUrl peerId url)

/-- How far a session bridge has come. `live` holds the name its task goes by and what the last Hello
left it to do; a bridge that the remote opened is `inbound`. -/
inductive Phase where
  | unused
  | opening (h : Nat) (remote : String)
  | attempting (h : Nat) (remote : String)
  | live (h : Nat) (peerId : String) (todo : List Todo)
  | greeted (peerId : String)
  | inbound
  | failed
  | closed

structure World where
  localPeerId : String
  now : Nat := 0
  registry : PeerRegistry := {}
  handles : Nat → Option PeerHandle := fun _ => none
  checks : Nat → List Todo := fun _ => []
  bridges : Nat → Phase := fun _ => .unused

inductive Step where
  | wait (ms : Nat)
  | dial (h : Nat) (name url : String) (openSyncSession : Bool)
  | healthReply (c h : Nat) (peerId : String)
  | healthWork (c : Nat)
  | openSession (h b : Nat)
  | register (b : Nat)
  | openFailed (b : Nat)
  | opened (b : Nat)
  | hello (b : Nat) (peerId advertiseUrl : String)
  | sessionWork (b : Nat)
  | close (b : Nat)
  | greet (b : Nat) (peerId advertiseUrl : String)
  | accept (b : Nat)
  | advertised (peerId url : String)
  | unreachable (peerId url : String)

/-- What `health` does with the id in a reply: it learns it, and moves the names it went by before. -/
def healthTodo (h : Nat) (handle : PeerHandle) (peerId : String) : List Todo :=
  .learn h peerId ::
    (handle.remotePeerId.toList.map (Todo.migrate · peerId) ++
      ((if handle.name ≠ peerId then [.migrate handle.name peerId] else []) ++
        [.addUrl peerId handle.url]))

def helloTodo (h : Nat) (handle : PeerHandle) (old peerId advertiseUrl : String) : List Todo :=
  [.migrate old peerId, .migrate handle.name peerId] ++
    ((if advertiseUrl ≠ "" then [.addUrl peerId advertiseUrl] else []) ++ [.learn h peerId])

namespace World

variable (w : World)

def setHandle (h : Nat) (handle : PeerHandle) : World :=
  { w with handles := Function.update w.handles h (some handle) }

def setBridge (b : Nat) (phase : Phase) : World :=
  { w with bridges := Function.update w.bridges b phase }

/-- The flag that keeps a handle to one outbound session. -/
def setStarted (h : Nat) (started : Bool) : World :=
  match w.handles h with
  | none => w
  | some handle => w.setHandle h { handle with sessionStarted := started }

def learn : Todo → World
  | .learn h peerId =>
      match w.handles h with
      | none => w
      | some handle => w.setHandle h { handle with remotePeerId := some peerId }
  | _ => w

end World

/-- The call a step makes on the registry. -/
def callOf (w : World) : Step → Option RegistryCall
  | .dial h name url _ => if (w.handles h).isNone then some (.addUrl name url) else none
  | .healthWork c =>
      match w.checks c with
      | [] => none
      | todo :: _ => todo.call
  | .register b =>
      match w.bridges b with
      | .opening _ remote => some (.setSession remote b)
      | _ => none
  | .openFailed b =>
      match w.bridges b with
      | .attempting _ remote => some (.clearSessionById remote b)
      | _ => none
  | .sessionWork b =>
      match w.bridges b with
      | .live _ _ (todo :: _) => todo.call
      | _ => none
  | .close b =>
      match w.bridges b with
      | .live _ _ [] => some (.clearSessionByBridgeId b)
      | .inbound => some (.clearSessionByBridgeId b)
      | _ => none
  | .greet b peerId advertiseUrl =>
      match w.bridges b with
      | .unused =>
          if peerId = "" ∨ peerId = w.localPeerId ∨ advertiseUrl = "" then none
          else some (.addUrl peerId advertiseUrl)
      | _ => none
  | .accept b =>
      match w.bridges b with
      | .greeted peerId => some (.setSession peerId b)
      | _ => none
  | .advertised peerId url =>
      if peerId = "" ∨ peerId = w.localPeerId ∨ url = "" then none else some (.addUrl peerId url)
  | .unreachable peerId url => some (.removeUrl peerId url)
  | _ => none

/-- What a step does beside that call. -/
def progress (w : World) : Step → World
  | .wait ms => { w with now := w.now + ms }
  | .dial h name url openSyncSession =>
      if (w.handles h).isNone then w.setHandle h { name, url, openSyncSession } else w
  | .healthReply c h peerId =>
      match w.handles h, w.checks c with
      | some handle, [] =>
          if peerId = "" then w
          else { w with checks := Function.update w.checks c (healthTodo h handle peerId) }
      | _, _ => w
  | .healthWork c =>
      match w.checks c with
      | [] => w
      | todo :: rest => { w.learn todo with checks := Function.update w.checks c rest }
  | .openSession h b =>
      match w.handles h, w.bridges b with
      | some handle, .unused =>
          if handle.openSyncSession && !handle.sessionStarted then
            (w.setStarted h true).setBridge b
              (.opening h (handle.remotePeerId.getD handle.name))
          else w
      | _, _ => w
  | .register b =>
      match w.bridges b with
      | .opening h remote => w.setBridge b (.attempting h remote)
      | _ => w
  | .openFailed b =>
      match w.bridges b with
      | .attempting h _ => (w.setStarted h false).setBridge b .failed
      | _ => w
  | .opened b =>
      match w.bridges b with
      | .attempting h remote => w.setBridge b (.live h remote [])
      | _ => w
  | .hello b peerId advertiseUrl =>
      match w.bridges b with
      | .live h old [] =>
          match w.handles h with
          | none => w
          | some handle =>
              if peerId ≠ "" ∧ peerId ≠ old then
                w.setBridge b (.live h peerId (helloTodo h handle old peerId advertiseUrl))
              else w
      | _ => w
  | .sessionWork b =>
      match w.bridges b with
      | .live h peerId (todo :: rest) => (w.learn todo).setBridge b (.live h peerId rest)
      | _ => w
  | .close b =>
      match w.bridges b with
      | .live h _ [] => (w.setStarted h false).setBridge b .closed
      | .inbound => w.setBridge b .closed
      | _ => w
  | .greet b peerId _ =>
      match w.bridges b with
      | .unused =>
          if peerId = "" ∨ peerId = w.localPeerId then w else w.setBridge b (.greeted peerId)
      | _ => w
  | .accept b =>
      match w.bridges b with
      | .greeted _ => w.setBridge b .inbound
      | _ => w
  | .advertised _ _ => w
  | .unreachable _ _ => w

def step (w : World) (e : Step) : World :=
  { progress w e with registry := (callOf w e).elim w.registry (w.registry.apply w.now) }

/-! ## What a step does to a bridge -/

/-- Where the registry stands with a bridge. -/
inductive Stage where
  | early
  | listed
  | failed
  | closed
deriving DecidableEq

def Phase.stage : Phase → Stage
  | .unused => .early
  | .opening _ _ => .early
  | .attempting _ _ => .listed
  | .live _ _ _ => .listed
  | .greeted _ => .early
  | .inbound => .listed
  | .failed => .failed
  | .closed => .closed

@[simp] theorem bridges_setHandle (w : World) (h : Nat) (handle : PeerHandle) :
    (w.setHandle h handle).bridges = w.bridges := rfl

@[simp] theorem bridges_setStarted (w : World) (h : Nat) (started : Bool) :
    (w.setStarted h started).bridges = w.bridges := by
  unfold World.setStarted
  split <;> rfl

@[simp] theorem bridges_learn (w : World) (todo : Todo) : (w.learn todo).bridges = w.bridges := by
  unfold World.learn
  split
  · split <;> rfl
  · rfl

@[simp] theorem bridges_setBridge (w : World) (b : Nat) (phase : Phase) :
    (w.setBridge b phase).bridges = Function.update w.bridges b phase := rfl

/-- The session a call files or clears. -/
def sessionOf : RegistryCall → Option Nat
  | .setSession _ b => some b
  | .clearSessionById _ b => some b
  | .clearSessionByBridgeId b => some b
  | _ => none

theorem Todo.sessionOf_call (todo : Todo) (b : Nat) : todo.call.bind sessionOf ≠ some b := by
  cases todo <;> rintro ⟨⟩

/-- What a step does to a bridge, with the call that goes with it. -/
inductive BridgeStep (b : Nat) (call : Option RegistryCall) : Stage → Stage → Prop where
  | quiet (stage : Stage) : call.bind sessionOf ≠ some b → BridgeStep b call stage stage
  | enters (p : String) : call = some (.setSession p b) → BridgeStep b call .early .listed
  | fails (p : String) : call = some (.clearSessionById p b) → BridgeStep b call .listed .failed
  | closes : call = some (.clearSessionByBridgeId b) → BridgeStep b call .listed .closed

/-- A step that changes one bridge leaves the others alone. -/
theorem bridgeStep_update {w : World} {c : Nat} {phase : Phase} {call : Option RegistryCall}
    (atC : BridgeStep c call (w.bridges c).stage phase.stage)
    (others : ∀ b, b ≠ c → call.bind sessionOf ≠ some b) (b : Nat) :
    BridgeStep b call (w.bridges b).stage ((Function.update w.bridges c phase) b).stage := by
  by_cases here : b = c
  · subst here
    rw [Function.update_self]
    exact atC
  · rw [Function.update_of_ne here]
    exact .quiet _ (others b here)

theorem bridgeStep_addUrl {w : World} {b : Nat} {rejected : Prop} [Decidable rejected]
    (peerId url : String) :
    BridgeStep b (if rejected then none else some (.addUrl peerId url)) (w.bridges b).stage
      (w.bridges b).stage := by
  refine .quiet _ ?_
  split <;> rintro ⟨⟩

/-- **What a step does to a bridge.** -/
theorem bridge_step (w : World) (e : Step) (b : Nat) :
    BridgeStep b (callOf w e) (w.bridges b).stage ((step w e).bridges b).stage := by
  change BridgeStep b (callOf w e) (w.bridges b).stage ((progress w e).bridges b).stage
  cases e with
  | wait ms => exact .quiet _ (by rintro ⟨⟩)
  | dial h name url openSyncSession =>
      dsimp only [callOf, progress]
      split
      · exact .quiet _ (by rintro ⟨⟩)
      · exact .quiet _ (by rintro ⟨⟩)
  | healthReply c h peerId =>
      dsimp only [callOf, progress]
      split
      · split <;> exact .quiet _ (by rintro ⟨⟩)
      · exact .quiet _ (by rintro ⟨⟩)
  | healthWork c =>
      dsimp only [callOf, progress]
      cases w.checks c with
      | nil => exact .quiet _ (by rintro ⟨⟩)
      | cons todo rest =>
          dsimp only
          rw [bridges_learn]
          exact .quiet _ (todo.sessionOf_call b)
  | openSession h c =>
      dsimp only [callOf, progress]
      split
      · next handle _ unused =>
          split
          · rw [bridges_setBridge, bridges_setStarted]
            refine bridgeStep_update ?_ ?_ b
            · rw [unused]
              exact .quiet _ (by rintro ⟨⟩)
            · rintro _ _ ⟨⟩
          · exact .quiet _ (by rintro ⟨⟩)
      · exact .quiet _ (by rintro ⟨⟩)
  | register c =>
      dsimp only [callOf, progress]
      split
      · next h remote opening =>
          refine bridgeStep_update ?_ (fun b other same => ?_) b
          · rw [opening]
            exact .enters remote rfl
          · exact other (Option.some.inj same).symm
      · exact .quiet _ (by rintro ⟨⟩)
  | openFailed c =>
      dsimp only [callOf, progress]
      split
      · next h remote attempting =>
          rw [bridges_setBridge, bridges_setStarted]
          refine bridgeStep_update ?_ ?_ b
          · rw [attempting]
            exact .fails remote rfl
          · intro b other same
            exact other (Option.some.inj same).symm
      · exact .quiet _ (by rintro ⟨⟩)
  | opened c =>
      dsimp only [callOf, progress]
      split
      · next h remote attempting =>
          refine bridgeStep_update ?_ ?_ b
          · rw [attempting]
            exact .quiet _ (by rintro ⟨⟩)
          · rintro _ _ ⟨⟩
      · exact .quiet _ (by rintro ⟨⟩)
  | hello c peerId advertiseUrl =>
      dsimp only [callOf, progress]
      split
      · next h old live =>
          split
          · exact .quiet _ (by rintro ⟨⟩)
          · split
            · refine bridgeStep_update ?_ ?_ b
              · rw [live]
                exact .quiet _ (by rintro ⟨⟩)
              · rintro _ _ ⟨⟩
            · exact .quiet _ (by rintro ⟨⟩)
      · exact .quiet _ (by rintro ⟨⟩)
  | sessionWork c =>
      dsimp only [callOf, progress]
      split
      · next h peerId todo rest live =>
          rw [bridges_setBridge, bridges_learn]
          refine bridgeStep_update ?_ (fun b _ => todo.sessionOf_call b) b
          rw [live]
          exact .quiet _ (todo.sessionOf_call c)
      · exact .quiet _ (by rintro ⟨⟩)
  | close c =>
      dsimp only [callOf, progress]
      split
      · next h peerId live =>
          rw [bridges_setBridge, bridges_setStarted]
          refine bridgeStep_update ?_ ?_ b
          · rw [live]
            exact .closes rfl
          · intro b other same
            exact other (Option.some.inj same).symm
      · next inbound =>
          refine bridgeStep_update ?_ ?_ b
          · rw [inbound]
            exact .closes rfl
          · intro b other same
            exact other (Option.some.inj same).symm
      · exact .quiet _ (by rintro ⟨⟩)
  | greet c peerId advertiseUrl =>
      dsimp only [callOf, progress]
      split
      · next unused =>
          by_cases refused : peerId = "" ∨ peerId = w.localPeerId
          · rw [if_pos refused]
            exact bridgeStep_addUrl peerId advertiseUrl
          · rw [if_neg refused, bridges_setBridge]
            refine bridgeStep_update ?_ (fun b other => ?_) b
            · rw [unused]
              refine .quiet _ ?_
              split <;> rintro ⟨⟩
            · split <;> rintro ⟨⟩
      · exact .quiet _ (by rintro ⟨⟩)
  | accept c =>
      dsimp only [callOf, progress]
      split
      · next peerId greeted =>
          refine bridgeStep_update ?_ (fun b other same => ?_) b
          · rw [greeted]
            exact .enters peerId rfl
          · exact other (Option.some.inj same).symm
      · exact .quiet _ (by rintro ⟨⟩)
  | advertised peerId url => exact bridgeStep_addUrl peerId url
  | unreachable peerId url => exact .quiet _ (by rintro ⟨⟩)

end MassaIndexer.Peer.Sessions
