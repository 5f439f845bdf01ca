/-
# Laws.SessionRoutes -- which routes the registry lists

A session is to be listed while it is attempted or open, under one name, and a URL under one name.
`routes_sound_iff` says exactly when that stays so in every interleaving: a URL is filed when no other
name has it, and an attempt is given up while its session is still under the name that the attempt
remembers. `failed_session_listed` runs a health check that renames the peer in between: the clean-up
looks under the old name, and the dead session stays.
-/
import MassaIndexer.Peer.Sessions

namespace MassaIndexer.Laws.SessionRoutes

open MassaIndexer.Theory.Runs MassaIndexer.Theory.Labels
open MassaIndexer.Peer.Registry MassaIndexer.Peer.Sessions

set_option autoImplicit false

/-- Each URL and each session is under one name, every entry has a route, and a session that was not
filed yet, whose attempt failed or that was closed is nowhere. -/
structure Sound (w : World) : Prop where
  single : Single w.registry.lists
  useful : Useful w.registry
  listed : ∀ b, (w.bridges b).stage ≠ .listed → Absent w.registry.lists (.session b)

/-- A URL that is taken is under no other name, and an attempt that is given up under no other name
than the one it remembers. -/
def Clean (w : World) (e : Step) : Prop :=
  match callOf w e with
  | some (.addUrl peerId url) =>
      w.registry.moveOf w.now (.addUrl peerId url) = .insert peerId (.url url) →
        ∀ p, w.registry.lists p (.url url) → p = peerId
  | some (.clearSessionById peerId b) => ∀ p, w.registry.lists p (.session b) → p = peerId
  | _ => True

/-- A migration empties the old name, and gives the new one what both had and nothing else. -/
def MigrationMerges (r : PeerRegistry) (source target : String) : Prop :=
  source ≠ "" → target ≠ "" → source ≠ target →
    (r.migratePeerId source target).inner source = none ∧
      (∀ x, (r.migratePeerId source target).lists target x ↔ r.lists source x ∨ r.lists target x) ∧
        ∀ p, p ≠ source → p ≠ target → (r.migratePeerId source target).inner p = r.inner p

theorem migrationMerges (r : PeerRegistry) (source target : String) :
    MigrationMerges r source target := by
  intro named named' differ
  have goes : ¬ (source = "" ∨ target = "" ∨ source = target) := by simp [named, named', differ]
  refine ⟨?_, fun x => ?_, fun p notSource notTarget => ?_⟩
  · unfold PeerRegistry.migratePeerId
    rw [if_neg goes]
    split
    · next nothing => exact nothing
    · simp [PeerRegistry.edit, differ]
  · have moved := r.lists_migratePeerId 0 source target target x
    dsimp only [PeerRegistry.moveOf] at moved
    rw [if_neg goes] at moved
    exact moved.trans (collapse_to differ x)
  · unfold PeerRegistry.migratePeerId
    rw [if_neg goes]
    split
    · rfl
    · simp [PeerRegistry.edit, notSource, notTarget]

/-! ## One step -/

variable {w : World} {e : Step}

/-- The move of the directory that a step makes. -/
def moveBy (w : World) (call : Option RegistryCall) : Move String Route :=
  call.elim .keep (w.registry.moveOf w.now)

theorem lists_step (w : World) (e : Step) :
    (step w e).registry.lists = (moveBy w (callOf w e)).run w.registry.lists := by
  change ((callOf w e).elim w.registry (w.registry.apply w.now)).lists = _
  cases callOf w e with
  | none => rfl
  | some call => exact w.registry.lists_apply w.now call

theorem useful_step (useful : Useful w.registry) : Useful (step w e).registry := by
  change Useful ((callOf w e).elim w.registry (w.registry.apply w.now))
  cases callOf w e with
  | none => exact useful
  | some call => exact useful.apply w.now call

/-- What files a session. -/
theorem setSession_of_insert {call : Option RegistryCall} {p : String} {b : Nat}
    (files : moveBy w call = .insert p (.session b)) : call = some (.setSession p b) := by
  cases call with
  | none => cases files
  | some call =>
      change w.registry.moveOf w.now call = _ at files
      cases call with
      | addUrl peerId url =>
          dsimp only [PeerRegistry.moveOf] at files
          split at files <;> simp at files
      | removeUrl peerId url =>
          dsimp only [PeerRegistry.moveOf] at files
          split at files <;> simp at files
      | setSession peerId session =>
          dsimp only [PeerRegistry.moveOf] at files
          split at files
          · simp at files
          · simpa using files
      | clearSessionById peerId bridgeId => simp [PeerRegistry.moveOf] at files
      | clearSessionByBridgeId bridgeId => simp [PeerRegistry.moveOf] at files
      | migratePeerId source target =>
          dsimp only [PeerRegistry.moveOf] at files
          split at files <;> simp at files

/-- What files a URL. -/
theorem addUrl_of_insert {call : Option RegistryCall} {p url : String}
    (files : moveBy w call = .insert p (.url url)) : call = some (.addUrl p url) := by
  cases call with
  | none => cases files
  | some call =>
      change w.registry.moveOf w.now call = _ at files
      cases call with
      | addUrl peerId url =>
          dsimp only [PeerRegistry.moveOf] at files
          split at files
          · simp at files
          · simpa using files
      | removeUrl peerId url =>
          dsimp only [PeerRegistry.moveOf] at files
          split at files <;> simp at files
      | setSession peerId session =>
          dsimp only [PeerRegistry.moveOf] at files
          split at files <;> simp at files
      | clearSessionById peerId bridgeId => simp [PeerRegistry.moveOf] at files
      | clearSessionByBridgeId bridgeId => simp [PeerRegistry.moveOf] at files
      | migratePeerId source target =>
          dsimp only [PeerRegistry.moveOf] at files
          split at files <;> simp at files

/-- A session is filed once, before it was listed. -/
theorem unlisted_of_setSession {p : String} {b : Nat} (files : callOf w e = some (.setSession p b)) :
    (w.bridges b).stage ≠ .listed := by
  have moved := bridge_step w e b
  rw [files] at moved
  generalize (w.bridges b).stage = before, ((step w e).bridges b).stage = after at moved ⊢
  cases moved with
  | quiet stage silent => exact absurd rfl silent
  | enters p' filed => rintro ⟨⟩
  | fails p' clears => cases clears
  | closes clears => cases clears

/-- Only an attempt that is given up looks under one name. -/
theorem unlisted_of_clearSessionById {p : String} {b : Nat}
    (clears : callOf w e = some (.clearSessionById p b)) :
    ((step w e).bridges b).stage ≠ .listed := by
  have moved := bridge_step w e b
  rw [clears] at moved
  generalize (w.bridges b).stage = before, ((step w e).bridges b).stage = after at moved ⊢
  cases moved with
  | quiet stage silent => exact absurd rfl silent
  | enters p' filed => cases filed
  | fails p' clears => rintro ⟨⟩
  | closes clears => rintro ⟨⟩

/-- **A clean step keeps the routes sound.** -/
theorem sound_step (sound : Sound w) (clean : Clean w e) : Sound (step w e) where
  single := by
    rw [lists_step, single_run_iff sound.single]
    intro k x files l held
    cases x with
    | url url =>
        have call := addUrl_of_insert files
        rw [Clean, call] at clean
        rw [call] at files
        exact clean files l held
    | session b =>
        have call := setSession_of_insert files
        exact absurd held (sound.listed b (unlisted_of_setSession call) l)
  useful := useful_step sound.useful
  listed b unlisted := by
    rw [lists_step]
    have moved := bridge_step w e b
    have before := sound.listed b
    generalize (w.bridges b).stage = old, ((step w e).bridges b).stage = new
      at moved before unlisted
    cases moved with
    | quiet stage silent =>
        refine (before unlisted).run _ fun k files => silent ?_
        rw [setSession_of_insert files]
        rfl
    | enters p files => exact absurd rfl unlisted
    | fails p clears =>
        rw [Clean, clears] at clean
        rw [clears]
        exact (absent_eraseAt_iff p (Route.session b)).mpr clean
    | closes clears =>
        rw [clears]
        exact absent_erase (Route.session b)

/-- **A step that keeps the routes sound is clean.** -/
theorem clean_of_sound (sound : Sound w) (after : Sound (step w e)) : Clean w e := by
  unfold Clean
  split
  · next peerId url call =>
      intro files p held
      have single := after.single
      rw [lists_step, single_run_iff sound.single, call] at single
      exact single peerId (.url url) files p held
  · next peerId b call =>
      have absent := after.listed b (unlisted_of_clearSessionById call)
      rw [lists_step, call] at absent
      exact (absent_eraseAt_iff peerId (Route.session b)).mp absent
  · trivial

theorem sound_step_iff (sound : Sound w) : Sound (step w e) ↔ Clean w e :=
  ⟨clean_of_sound sound, sound_step sound⟩

/-! ## Over a run -/

theorem sound_init (localPeerId : String) : Sound { localPeerId } where
  single x k l here := by
    obtain ⟨routes, found, -⟩ := here
    cases found
  useful p e found := by cases found
  listed b _ p here := by
    obtain ⟨routes, found, -⟩ := here
    cases found

/-- **In every reachable state the routes are sound if and only if every step is clean**, and a
migration gives the new name the routes of both. -/
theorem routes_sound_iff (localPeerId : String) (steps : List Step) :
    ((∀ w, Visits step { localPeerId } steps w → Sound w) ↔ Along step Clean { localPeerId } steps) ∧
      ∀ r source target, MigrationMerges r source target :=
  ⟨forall_visits_iff_along (fun _ _ => sound_step_iff) (sound_init localPeerId), migrationMerges⟩

/-! ## A peer renamed during an attempt -/

/-- A health check learns that `indexer2` is `massa-7`, and a session is attempted under that name. The
peer comes back as `massa-8`, which the next health check learns; then the attempt fails. -/
def renamedMeanwhile : List Step :=
  [.dial 0 "indexer2" "http://b:9443" true,
    .healthReply 0 0 "massa-7", .healthWork 0, .healthWork 0, .healthWork 0,
    .openSession 0 0, .register 0,
    .healthReply 1 0 "massa-8", .healthWork 1, .healthWork 1, .healthWork 1, .healthWork 1,
    .openFailed 0]

/-- **The dead session stays, under the new name.** -/
theorem failed_session_listed : ¬ ∀ (localPeerId : String) (steps : List Step) (w : World),
    Visits step { localPeerId } steps w → Sound w := by
  intro sound
  have last := sound "indexer1" renamedMeanwhile _ (visits_run _ _)
  have failed : ((run step { localPeerId := "indexer1" } renamedMeanwhile).bridges 0).stage = .failed := by
    decide +kernel
  have listed : ((run step { localPeerId := "indexer1" } renamedMeanwhile).registry.inner "massa-8").map
      PeerRoutes.sessions = some [0] := by
    decide +kernel
  obtain ⟨routes, found, sessions⟩ := Option.map_eq_some_iff.mp listed
  refine last.listed 0 (by rw [failed]; rintro ⟨⟩) "massa-8" ⟨routes, found, ?_⟩
  change 0 ∈ routes.sessions
  rw [sessions]
  exact List.mem_singleton.mpr rfl

end MassaIndexer.Laws.SessionRoutes
