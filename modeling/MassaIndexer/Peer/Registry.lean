/-
# Peer.Registry -- logical peers and the routes to them

`PeerRegistry` lists, under the name of each logical peer, the URLs it can be dialled at and the
sessions that are open with it. `lists` is the registry seen as a directory of routes: every operation
is one move of it (`lists_apply`), and no operation leaves an entry without a route (`Useful.apply`).
-/
import MassaIndexer.Theory.Labels

namespace MassaIndexer.Peer.Registry

open MassaIndexer.Theory.Labels

set_option autoImplicit false

/-- Milliseconds a URL stays suppressed after a transport failure. -/
def urlDemoteTtl : Nat := 30 * 60 * 1000

/-- How a remote peer can be reached. A session stands for its bridge id. -/
structure PeerRoutes where
  urls : List String := []
  sessions : List Nat := []

structure PeerRegistry where
  inner : String → Option PeerRoutes := fun _ => none
  demotedUrls : String → Option Nat := fun _ => none

/-- Append unless it is there. -/
def pushNew {α : Type} [DecidableEq α] (xs : List α) (x : α) : List α :=
  if x ∈ xs then xs else xs ++ [x]

/-- An entry with neither a URL nor a session is removed. -/
def keepRouted (e : PeerRoutes) : Option PeerRoutes :=
  if e.sessions.isEmpty && e.urls.isEmpty then none else some e

namespace PeerRegistry

def edit (r : PeerRegistry) (peerId : String) (e : Option PeerRoutes) : PeerRegistry :=
  { r with inner := Function.update r.inner peerId e }

/-- Suppressions whose deadline has passed are dropped before the URL is looked up. -/
def retainDemoted (r : PeerRegistry) (now : Nat) : PeerRegistry :=
  { r with demotedUrls := fun url => (r.demotedUrls url).filter (now < ·) }

def isDemoted (r : PeerRegistry) (now : Nat) (url : String) : Bool :=
  ((r.retainDemoted now).demotedUrls url).isSome

def addUrl (r : PeerRegistry) (now : Nat) (peerId url : String) : PeerRegistry :=
  if peerId = "" ∨ url = "" then r
  else if r.isDemoted now url then r.retainDemoted now
  else
    let r := r.retainDemoted now
    let e := (r.inner peerId).getD {}
    r.edit peerId (some { e with urls := pushNew e.urls url })

def removeUrl (r : PeerRegistry) (now : Nat) (peerId url : String) : PeerRegistry :=
  if peerId = "" ∨ url = "" then r
  else
    let r := { r with demotedUrls := Function.update r.demotedUrls url (some (now + urlDemoteTtl)) }
    r.edit peerId ((r.inner peerId).bind fun e =>
      keepRouted { e with urls := e.urls.filter (· ≠ url) })

def setSession (r : PeerRegistry) (peerId : String) (session : Nat) : PeerRegistry :=
  if peerId = "" then r
  else
    let e := (r.inner peerId).getD {}
    r.edit peerId (some { e with sessions := pushNew e.sessions session })

def clearSessionById (r : PeerRegistry) (peerId : String) (bridgeId : Nat) : PeerRegistry :=
  r.edit peerId ((r.inner peerId).bind fun e =>
    keepRouted { e with sessions := e.sessions.filter (· ≠ bridgeId) })

def clearSessionByBridgeId (r : PeerRegistry) (bridgeId : Nat) : PeerRegistry :=
  { r with inner := fun peerId => (r.inner peerId).bind fun e =>
      keepRouted { e with sessions := e.sessions.filter (· ≠ bridgeId) } }

def migratePeerId (r : PeerRegistry) (source target : String) : PeerRegistry :=
  if source = "" ∨ target = "" ∨ source = target then r
  else
    match r.inner source with
    | none => r
    | some old =>
        let r := r.edit source none
        let e := (r.inner target).getD {}
        r.edit target (some
          { urls := old.urls.foldl pushNew e.urls
            sessions := old.sessions.foldl pushNew e.sessions })

end PeerRegistry

/-- One call on the registry, under its lock. -/
inductive RegistryCall where
  | addUrl (peerId url : String)
  | removeUrl (peerId url : String)
  | setSession (peerId : String) (session : Nat)
  | clearSessionById (peerId : String) (bridgeId : Nat)
  | clearSessionByBridgeId (bridgeId : Nat)
  | migratePeerId (source target : String)

namespace PeerRegistry

def apply (r : PeerRegistry) (now : Nat) : RegistryCall → PeerRegistry
  | .addUrl peerId url => r.addUrl now peerId url
  | .removeUrl peerId url => r.removeUrl now peerId url
  | .setSession peerId session => r.setSession peerId session
  | .clearSessionById peerId bridgeId => r.clearSessionById peerId bridgeId
  | .clearSessionByBridgeId bridgeId => r.clearSessionByBridgeId bridgeId
  | .migratePeerId source target => r.migratePeerId source target

end PeerRegistry

/-! ## The registry as a directory of routes -/

inductive Route where
  | url (url : String)
  | session (bridgeId : Nat)

def PeerRoutes.has (e : PeerRoutes) : Route → Prop
  | .url url => url ∈ e.urls
  | .session bridgeId => bridgeId ∈ e.sessions

/-- What an entry has; a missing one has nothing. -/
def hasIn (e : Option PeerRoutes) (x : Route) : Prop := ∃ routes, e = some routes ∧ routes.has x

def PeerRegistry.lists (r : PeerRegistry) (peerId : String) (x : Route) : Prop :=
  hasIn (r.inner peerId) x

@[simp] theorem hasIn_none (x : Route) : ¬ hasIn none x := by
  rintro ⟨_, ⟨⟩, _⟩

@[simp] theorem hasIn_some (e : PeerRoutes) (x : Route) : hasIn (some e) x ↔ e.has x := by
  simp [hasIn]

@[simp] theorem has_getD (e : Option PeerRoutes) (x : Route) : (e.getD {}).has x ↔ hasIn e x := by
  cases e with
  | none => cases x <;> simp [PeerRoutes.has]
  | some e => simp

@[simp] theorem mem_pushNew {α : Type} [DecidableEq α] {xs : List α} {x y : α} :
    y ∈ pushNew xs x ↔ y ∈ xs ∨ y = x := by
  unfold pushNew
  split
  · next listed =>
      constructor
      · exact .inl
      · rintro (here | rfl)
        · exact here
        · exact listed
  · simp

@[simp] theorem mem_foldl_pushNew {α : Type} [DecidableEq α] (new xs : List α) {y : α} :
    y ∈ new.foldl pushNew xs ↔ y ∈ xs ∨ y ∈ new := by
  induction new generalizing xs with
  | nil => simp
  | cons x new ih => simp [ih, or_assoc]

@[simp] theorem hasIn_keepRouted (e : PeerRoutes) (x : Route) :
    hasIn (keepRouted e) x ↔ e.has x := by
  unfold keepRouted
  split
  · next empty =>
      simp only [Bool.and_eq_true, List.isEmpty_iff] at empty
      cases x <;> simp [PeerRoutes.has, empty]
  · simp

theorem hasIn_bind (e : Option PeerRoutes) (f : PeerRoutes → Option PeerRoutes) (x : Route) :
    hasIn (e.bind f) x ↔ ∃ routes, e = some routes ∧ hasIn (f routes) x := by
  cases e <;> simp

theorem lists_edit (r : PeerRegistry) (peerId : String) (e : Option PeerRoutes) (p : String)
    (x : Route) :
    (r.edit peerId e).lists p x ↔ if p = peerId then hasIn e x else r.lists p x := by
  unfold PeerRegistry.lists PeerRegistry.edit
  by_cases here : p = peerId
  · subst here
    simp
  · simp [here]

namespace PeerRegistry

/-- The move a call makes. -/
def moveOf (r : PeerRegistry) (now : Nat) : RegistryCall → Move String Route
  | .addUrl peerId url =>
      if peerId = "" ∨ url = "" ∨ r.isDemoted now url then .keep else .insert peerId (.url url)
  | .removeUrl peerId url =>
      if peerId = "" ∨ url = "" then .keep else .eraseAt peerId (.url url)
  | .setSession peerId session => if peerId = "" then .keep else .insert peerId (.session session)
  | .clearSessionById peerId bridgeId => .eraseAt peerId (.session bridgeId)
  | .clearSessionByBridgeId bridgeId => .erase (.session bridgeId)
  | .migratePeerId source target =>
      if source = "" ∨ target = "" ∨ source = target then .keep else .collapse source target

variable (r : PeerRegistry) (now : Nat)

@[simp] theorem lists_retainDemoted : (r.retainDemoted now).lists = r.lists := rfl

theorem lists_addUrl (peerId url p : String) (x : Route) :
    (r.addUrl now peerId url).lists p x ↔
      (r.moveOf now (.addUrl peerId url)).run r.lists p x := by
  unfold addUrl
  dsimp only [moveOf]
  by_cases empty : peerId = "" ∨ url = ""
  · rw [if_pos empty, if_pos (or_assoc.mp (.inl empty))]
    rfl
  · rw [if_neg empty]
    by_cases demoted : r.isDemoted now url = true
    · rw [if_pos demoted, if_pos (.inr (.inr demoted))]
      rfl
    · have accepted : ¬ (peerId = "" ∨ url = "" ∨ r.isDemoted now url = true) := by
        rw [← or_assoc]
        exact not_or.mpr ⟨empty, demoted⟩
      rw [if_neg demoted, if_neg accepted, lists_edit, lists_retainDemoted, Move.run]
      have entry : hasIn (some { ((r.retainDemoted now).inner peerId).getD {} with
          urls := pushNew (((r.retainDemoted now).inner peerId).getD {}).urls url }) x ↔
            r.lists peerId x ∨ x = .url url := by
        rw [hasIn_some, lists, ← has_getD]
        cases x <;> simp [PeerRoutes.has, retainDemoted]
      by_cases here : p = peerId
      · subst here
        simp [entry]
      · simp [here]

theorem lists_setSession (peerId : String) (session : Nat) (p : String) (x : Route) :
    (r.setSession peerId session).lists p x ↔
      (r.moveOf now (.setSession peerId session)).run r.lists p x := by
  unfold setSession
  dsimp only [moveOf]
  by_cases empty : peerId = ""
  · rw [if_pos empty, if_pos empty]
    rfl
  · rw [if_neg empty, if_neg empty]
    rw [lists_edit, Move.run]
    have entry : hasIn (some { (r.inner peerId).getD {} with
        sessions := pushNew ((r.inner peerId).getD {}).sessions session }) x ↔
          r.lists peerId x ∨ x = .session session := by
      rw [hasIn_some, lists, ← has_getD]
      cases x <;> simp [PeerRoutes.has]
    by_cases here : p = peerId
    · subst here
      simp [entry]
    · simp [here]

/-- Taking a route out of an entry. -/
theorem hasIn_without (e : Option PeerRoutes) {without : PeerRoutes → PeerRoutes} {x y : Route}
    (rest : ∀ routes : PeerRoutes, (without routes).has y ↔ routes.has y ∧ y ≠ x) :
    hasIn (e.bind fun routes => keepRouted (without routes)) y ↔ hasIn e y ∧ y ≠ x := by
  cases e with
  | none => simp
  | some routes => simp [rest]

theorem has_withoutUrl (url : String) (e : PeerRoutes) (x : Route) :
    ({ e with urls := e.urls.filter (· ≠ url) } : PeerRoutes).has x ↔ e.has x ∧ x ≠ .url url := by
  cases x <;> simp [PeerRoutes.has]

theorem has_withoutSession (bridgeId : Nat) (e : PeerRoutes) (x : Route) :
    ({ e with sessions := e.sessions.filter (· ≠ bridgeId) } : PeerRoutes).has x ↔
      e.has x ∧ x ≠ .session bridgeId := by
  cases x <;> simp [PeerRoutes.has]

theorem lists_removeUrl (peerId url p : String) (x : Route) :
    (r.removeUrl now peerId url).lists p x ↔
      (r.moveOf now (.removeUrl peerId url)).run r.lists p x := by
  unfold removeUrl
  dsimp only [moveOf]
  by_cases empty : peerId = "" ∨ url = ""
  · rw [if_pos empty, if_pos empty]
    rfl
  · rw [if_neg empty, if_neg empty]
    rw [lists_edit, Move.run, hasIn_without _ (fun e => has_withoutUrl url e x)]
    by_cases here : p = peerId
    · subst here
      simp [lists]
    · simp [here, lists]

theorem lists_clearSessionById (peerId : String) (bridgeId : Nat) (p : String) (x : Route) :
    (r.clearSessionById peerId bridgeId).lists p x ↔
      (r.moveOf now (.clearSessionById peerId bridgeId)).run r.lists p x := by
  unfold clearSessionById
  dsimp only [moveOf]
  rw [lists_edit, Move.run, hasIn_without _ (fun e => has_withoutSession bridgeId e x)]
  by_cases here : p = peerId
  · subst here
    simp [lists]
  · simp [here]

theorem lists_clearSessionByBridgeId (bridgeId : Nat) (p : String) (x : Route) :
    (r.clearSessionByBridgeId bridgeId).lists p x ↔
      (r.moveOf now (.clearSessionByBridgeId bridgeId)).run r.lists p x :=
  hasIn_without _ fun e => has_withoutSession bridgeId e x

theorem lists_migratePeerId (source target p : String) (x : Route) :
    (r.migratePeerId source target).lists p x ↔
      (r.moveOf now (.migratePeerId source target)).run r.lists p x := by
  unfold migratePeerId
  dsimp only [moveOf]
  by_cases still : source = "" ∨ target = "" ∨ source = target
  · rw [if_pos still, if_pos still]
    rfl
  · have differ : source ≠ target := fun same => still (.inr (.inr same))
    rw [if_neg still, if_neg still, Move.run]
    cases found : r.inner source with
    | none =>
        have nothing : ∀ y, ¬ r.lists source y := by
          intro y
          rw [lists, found]
          exact hasIn_none y
        simp only [nothing, and_false, or_false]
        exact ⟨fun here => ⟨fun same => nothing x (same ▸ here), here⟩, And.right⟩
    | some old =>
        have atSource : ∀ y, r.lists source y ↔ old.has y := by
          intro y
          rw [lists, found, hasIn_some]
        dsimp only
        rw [lists_edit, lists_edit, atSource]
        have kept : (r.edit source none).inner target = r.inner target :=
          Function.update_of_ne differ.symm _ _
        rw [kept]
        have merged : hasIn (some
            { urls := old.urls.foldl pushNew ((r.inner target).getD {}).urls
              sessions := old.sessions.foldl pushNew ((r.inner target).getD {}).sessions }) x ↔
              r.lists target x ∨ old.has x := by
          rw [hasIn_some, lists, ← has_getD]
          cases x <;> simp [PeerRoutes.has]
        by_cases here : p = target
        · subst here
          simp [merged, differ.symm]
        · by_cases old' : p = source
          · subst old'
            simp [here]
          · simp [here, old']

/-- **Every call is one move of the directory.** -/
theorem lists_apply (call : RegistryCall) :
    (r.apply now call).lists = (r.moveOf now call).run r.lists := by
  funext p x
  apply propext
  cases call with
  | addUrl peerId url => exact lists_addUrl r now peerId url p x
  | removeUrl peerId url => exact lists_removeUrl r now peerId url p x
  | setSession peerId session => exact lists_setSession r now peerId session p x
  | clearSessionById peerId bridgeId => exact lists_clearSessionById r now peerId bridgeId p x
  | clearSessionByBridgeId bridgeId => exact lists_clearSessionByBridgeId r now bridgeId p x
  | migratePeerId source target => exact lists_migratePeerId r now source target p x

end PeerRegistry

/-! ## No entry without a route -/

/-- Every entry has a URL or a session. -/
def Useful (r : PeerRegistry) : Prop :=
  ∀ p e, r.inner p = some e → e.urls ≠ [] ∨ e.sessions ≠ []

namespace Useful

variable {r : PeerRegistry} (useful : Useful r)

include useful

theorem edit {peerId : String} {e : Option PeerRoutes}
    (routed : ∀ routes, e = some routes → routes.urls ≠ [] ∨ routes.sessions ≠ []) :
    Useful (r.edit peerId e) := by
  intro p routes found
  unfold PeerRegistry.edit at found
  by_cases here : p = peerId
  · subst here
    simp only [Function.update_self] at found
    exact routed routes found
  · simp only [Function.update_of_ne here] at found
    exact useful p routes found

omit useful in
theorem of_keepRouted {e routes : PeerRoutes} (kept : keepRouted e = some routes) :
    routes.urls ≠ [] ∨ routes.sessions ≠ [] := by
  unfold keepRouted at kept
  split at kept
  · cases kept
  · next some_ =>
      obtain rfl := Option.some.inj kept
      simp only [Bool.and_eq_true, List.isEmpty_iff, not_and_or] at some_
      exact some_.symm

omit useful in
theorem of_bind {e : Option PeerRoutes} {without : PeerRoutes → PeerRoutes} {routes : PeerRoutes}
    (kept : (e.bind fun old => keepRouted (without old)) = some routes) :
    routes.urls ≠ [] ∨ routes.sessions ≠ [] := by
  obtain ⟨old, -, left⟩ := Option.bind_eq_some_iff.mp kept
  exact of_keepRouted left

omit useful in
theorem pushNew_ne_nil {α : Type} [DecidableEq α] (xs : List α) (x : α) : pushNew xs x ≠ [] :=
  List.ne_nil_of_mem (mem_pushNew.mpr (.inr rfl) : x ∈ pushNew xs x)

omit useful in
theorem foldl_pushNew_ne_nil {α : Type} [DecidableEq α] {new : List α} (some_ : new ≠ [])
    (xs : List α) : new.foldl pushNew xs ≠ [] := by
  obtain ⟨x, rest, rfl⟩ := List.exists_cons_of_ne_nil some_
  have listed : x ∈ (x :: rest).foldl pushNew xs :=
    (mem_foldl_pushNew _ _).mpr (.inr List.mem_cons_self)
  exact List.ne_nil_of_mem listed

theorem migratePeerId (source target : String) : Useful (r.migratePeerId source target) := by
  unfold PeerRegistry.migratePeerId
  split
  · exact useful
  · split
    · exact useful
    · next old found =>
        have without : Useful (r.edit source none) := useful.edit (by rintro _ ⟨⟩)
        refine without.edit fun routes merged => ?_
        obtain rfl := Option.some.inj merged
        rcases useful source old found with urls | sessions
        · exact .inl (foldl_pushNew_ne_nil urls _)
        · exact .inr (foldl_pushNew_ne_nil sessions _)

/-- **No call leaves an entry without a route.** -/
theorem apply (now : Nat) (call : RegistryCall) : Useful (r.apply now call) := by
  cases call with
  | addUrl peerId url =>
      change Useful (r.addUrl now peerId url)
      unfold PeerRegistry.addUrl
      split
      · exact useful
      · split
        · exact useful
        · refine edit (r := r.retainDemoted now) useful fun routes added => ?_
          obtain rfl := Option.some.inj added
          exact .inl (pushNew_ne_nil _ _)
  | removeUrl peerId url =>
      change Useful (r.removeUrl now peerId url)
      unfold PeerRegistry.removeUrl
      split
      · exact useful
      · exact edit (r := { r with demotedUrls := _ }) useful fun routes => of_bind
  | setSession peerId session =>
      change Useful (r.setSession peerId session)
      unfold PeerRegistry.setSession
      split
      · exact useful
      · refine useful.edit fun routes added => ?_
        obtain rfl := Option.some.inj added
        exact .inr (pushNew_ne_nil _ _)
  | clearSessionById peerId bridgeId => exact useful.edit fun routes => of_bind
  | clearSessionByBridgeId bridgeId => exact fun p routes found => of_bind found
  | migratePeerId source target => exact useful.migratePeerId source target

end Useful

end MassaIndexer.Peer.Registry
