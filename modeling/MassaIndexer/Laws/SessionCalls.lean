/- # Laws.SessionCalls -- a call over a session reads the other store once

Whatever frames are on their way, whichever sessions are cut, and whatever other peers send: a call
that returns a response returns what the indexer at the other end read from its own store for that
very call, at a moment when the call was open, and the two are of one network (`answers_are_reads`).
A waiter is filed exactly as long as its call is open and has heard nothing, and closing a session
leaves none of the calls made on it before without a word (`waiters_settled`). Both hold while no
indexer has made more than 2^64 calls, which is when its counter comes round. -/
import MassaIndexer.Theory.Runs
import MassaIndexer.Chain.Snapshot
import MassaIndexer.Peer.SessionInvariant

namespace MassaIndexer.Laws.SessionCalls

open MassaIndexer.Theory.Runs
open MassaIndexer.Data.Ids MassaIndexer.Data.Model MassaIndexer.Data.Proto MassaIndexer.Data.Codec
open MassaIndexer.Store.ColumnFamilies MassaIndexer.Writer.Shared MassaIndexer.Writer.Step
open MassaIndexer.Peer.Service MassaIndexer.Peer.SyncSession MassaIndexer.Peer.SessionInvariant

set_option autoImplicit false

variable {ι : Type}

/-! ## Who is let in -/

/-- A dialer that has not been let in is not at work, and all that it has sent is its Hello. -/
structure Greeted (w : Mesh ι) : Prop where
  unanswered : ∀ s p i, w.ends ⟨s, true⟩ = some p → p.owner = some i → w.ends ⟨s, false⟩ = none →
    (∀ m ∈ p.sink, m = makeHello (w.identity i)) ∧ (p.task = .opening ∨ p.task = .gone)
  admitted : ∀ s p i q j, w.ends ⟨s, true⟩ = some p → p.owner = some i → w.ends ⟨s, false⟩ = some q →
    q.owner = some j → ∃ hello, admitHello (w.identity j) (makeHello (w.identity i)) = .ok hello

section Greeting

variable {w : Mesh ι}

/-- A move of an end that a dialer may make before it is let in, or that no such dialer makes. -/
def Allowed (w : Mesh ι) (e : EndId) (p p₁ : Endpoint ι) : Prop :=
  p₁.owner = p.owner ∧ (p.owner = none ∨ w.ends e.other ≠ none ∨
    (p.task ≠ .opening ∧ p.task ≠ .gone) ∨
    (p₁.task = p.task ∨ p₁.task = .gone) ∧ ∀ m ∈ p₁.sink, m ∈ p.sink)

theorem Allowed.refl (e : EndId) (p : Endpoint ι) : Allowed w e p p :=
  ⟨rfl, .inr (.inr (.inr ⟨.inl rfl, fun _ => id⟩))⟩

theorem absent_of_setEnd {e d : EndId} {p : Endpoint ι} (absent : (w.setEnd e p).ends d = none) :
    w.ends d = none := by
  rw [Mesh.ends_setEnd] at absent
  split at absent
  · cases absent
  · exact absent

theorem Greeted.setEnd (greeted : Greeted w) {e : EndId} {p p₁ : Endpoint ι}
    (here : w.ends e = some p)
    (allowed : Allowed w e p p₁) : Greeted (w.setEnd e p₁) where
  unanswered s p' i dialer owner absent := by
    have alone := absent_of_setEnd absent
    rcases end_of_setEnd dialer with ⟨rfl, rfl⟩ | ⟨-, before⟩
    · obtain ⟨sent, idle⟩ := greeted.unanswered s p i here (allowed.1 ▸ owner) alone
      rcases allowed.2 with unowned | answered | ⟨notOpening, notGone⟩ | ⟨task, fewer⟩
      · rw [allowed.1, unowned] at owner
        cases owner
      · exact absurd alone answered
      · exact absurd idle (by simp [notOpening, notGone])
      · refine ⟨fun m member => sent m (fewer m member), ?_⟩
        rcases task with same | gone
        · rwa [same]
        · exact .inr gone
    · exact greeted.unanswered s p' i before owner alone
  admitted s p' i q j dialer ownerD listener ownerL := by
    have kept : ∀ {d : EndId} {r : Endpoint ι} {k : ι}, (w.setEnd e p₁).ends d = some r →
        r.owner = some k → ∃ r₀, w.ends d = some r₀ ∧ r₀.owner = some k := by
      intro d r k there owner
      rcases end_of_setEnd there with ⟨rfl, rfl⟩ | ⟨-, before⟩
      · exact ⟨p, here, allowed.1 ▸ owner⟩
      · exact ⟨r, before, owner⟩
    obtain ⟨p₀, before, owner⟩ := kept dialer ownerD
    obtain ⟨q₀, before', owner'⟩ := kept listener ownerL
    exact greeted.admitted s p₀ i q₀ j before owner before' owner'

theorem Greeted.editEnd (greeted : Greeted w) {e : EndId} {f : Endpoint ι → Endpoint ι}
    (allowed : ∀ p, w.ends e = some p → Allowed w e p (f p)) : Greeted (w.editEnd e f) := by
  unfold Mesh.editEnd
  split
  · exact greeted
  · next p here => exact greeted.setEnd here (allowed p here)

theorem Greeted.moveTask (greeted : Greeted w) (e : EndId) {old new : Task}
    (late : w.ends e.other ≠ none ∨ new = .gone ∨ old ≠ .opening ∧ old ≠ .gone) :
    Greeted (w.moveTask e old new) := by
  refine greeted.editEnd fun p _ => ?_
  split
  · next at_ =>
      refine ⟨rfl, .inr ?_⟩
      rcases late with answered | rfl | other
      · exact .inl answered
      · exact .inr (.inr ⟨.inr rfl, fun _ => id⟩)
      · exact .inr (.inl (at_ ▸ other))
  · exact .refl e p

/-- New calls, and what becomes of them, leave the ends as they are but for their waiters. -/
theorem Greeted.setCall (greeted : Greeted w) (c : Nat) (call : Call) : Greeted (w.setCall c call) :=
  ⟨greeted.unanswered, greeted.admitted⟩

theorem Greeted.resolve (greeted : Greeted w) (c : Nat) (outcome : Oneshot) :
    Greeted (w.resolve c outcome) := by
  unfold Mesh.resolve
  split
  · exact greeted
  · exact greeted.setCall _ _

theorem Greeted.replace (greeted : Greeted w) (old : Option Nat) : Greeted (w.replace old) := by
  unfold Mesh.replace
  split
  · exact greeted
  · exact greeted.resolve _ _

/-- A new end of a peer that is no indexer. -/
theorem Greeted.newEnd (greeted : Greeted w) {e : EndId} {p : Endpoint ι} (unowned : p.owner = none) :
    Greeted (w.newEnd e p) := by
  unfold Mesh.newEnd
  split
  · constructor
    · intro s p' i dialer owner absent
      rcases end_of_setEnd dialer with ⟨rfl, rfl⟩ | ⟨-, before⟩
      · rw [unowned] at owner
        cases owner
      · exact greeted.unanswered s p' i before owner (absent_of_setEnd absent)
    · intro s p' i q j dialer owner listener owner'
      rcases end_of_setEnd dialer with ⟨rfl, rfl⟩ | ⟨-, before⟩
      · rw [unowned] at owner
        cases owner
      · rcases end_of_setEnd listener with ⟨rfl, rfl⟩ | ⟨-, before'⟩
        · rw [unowned] at owner'
          cases owner'
        · exact greeted.admitted s p' i q j before owner before' owner'
  · exact greeted

theorem greeted_dial (greeted : Greeted w) (s : Nat) (i : ι) (peerId : String) :
    Greeted (dial w s i peerId) := by
  unfold dial Mesh.newEnd
  split
  · next alone =>
      split
      · constructor
        · intro s' p' i' dialer owner absent
          rcases end_of_setEnd dialer with ⟨same, rfl⟩ | ⟨-, before⟩
          · obtain rfl : i = i' := by simpa using owner
            exact ⟨fun m member => List.mem_singleton.mp member, .inl rfl⟩
          · exact greeted.unanswered s' p' i' before owner (absent_of_setEnd absent)
        · intro s' p' i' q j dialer owner listener owner'
          rcases end_of_setEnd listener with ⟨side, -⟩ | ⟨-, before'⟩
          · simp at side
          · rcases end_of_setEnd dialer with ⟨same, rfl⟩ | ⟨-, before⟩
            · obtain rfl : s' = s := by simpa using same
              rw [alone] at before'
              cases before'
            · exact greeted.admitted s' p' i' q j before owner before' owner'
      · exact greeted
  · exact greeted

/-- The first frame of an indexer that dials is its Hello. -/
theorem greeted_accept [DecidableEq ι] (greeted : Greeted w) (s : Nat) (i : ι) :
    Greeted (accept w s i) := by
  unfold accept
  split
  · next dialer there absent =>
      split
      · exact greeted
      · next first rest arrived =>
          have taken : Greeted (w.setEnd ⟨s, true⟩ { dialer with sink := rest }) := by
            refine greeted.setEnd there ⟨rfl, .inr (.inr (.inr ⟨.inl rfl, fun m member => ?_⟩))⟩
            rw [arrived]
            exact List.mem_cons_of_mem first member
          dsimp only
          split
          · exact taken
          · next hello admitted =>
              constructor
              · intro s' p' i' dialled owner alone
                rcases end_of_setEnd dialled with ⟨side, -⟩ | ⟨-, before⟩
                · simp at side
                · exact taken.unanswered s' p' i' before owner (absent_of_setEnd alone)
              · intro s' p' i' q j dialled owner listener owner'
                rcases end_of_setEnd dialled with ⟨side, -⟩ | ⟨-, before⟩
                · simp at side
                · rcases end_of_setEnd listener with ⟨same, rfl⟩ | ⟨-, before'⟩
                  · obtain rfl : s' = s := by simpa using same
                    obtain rfl : i = j := by simpa using owner'
                    obtain rfl : _ = p' := by simpa using before
                    have sent := (greeted.unanswered s' dialer i' there owner absent).1 first
                      (arrived ▸ List.mem_cons_self)
                    exact ⟨hello, sent ▸ admitted⟩
                  · exact taken.admitted s' p' i' q j before owner before' owner'
  · exact greeted

theorem greeted_receive [DecidableEq ι] [Bs58Check] (greeted : Greeted w) (e : EndId) :
    Greeted (receive w e) := by
  unfold receive
  split
  · next p remote here there =>
      split
      · next i frame rest owner running arrived =>
          have taken : Greeted (w.setEnd e.other { remote with sink := rest }) :=
            greeted.setEnd there ⟨rfl, .inr (.inl (by simp [here]))⟩
          have here' : (w.setEnd e.other { remote with sink := rest }).ends e = some p := by
            simpa [(other_ne e).symm] using here
          have allowed : ∀ p₁ : Endpoint ι, p₁.owner = p.owner →
              Allowed (w.setEnd e.other { remote with sink := rest }) e p p₁ := fun p₁ same =>
            ⟨same, .inr (.inl (by simp))⟩
          unfold handleFrame
          split
          · split
            · exact taken
            · exact taken.setEnd here' (allowed _ rfl)
          · split
            · exact taken
            · refine Greeted.resolve (taken.setEnd here' ?_) _ _
              exact allowed _ rfl
          · exact taken
      · exact greeted
  · exact greeted

theorem greeted_act [DecidableEq ι] [Bs58Check] [DenunciationDigest] (greeted : Greeted w)
    (a : Act ι) :
    Greeted (act w a) := by
  -- what only files, sends or drops leaves the owner, the task and the frames on their way
  have quiet : ∀ (e : EndId) {p p₁ : Endpoint ι}, p₁.owner = p.owner → p₁.task = p.task →
      p₁.sink = p.sink → Allowed w e p p₁ := fun e p p₁ owner task sink =>
    ⟨owner, .inr (.inr (.inr ⟨.inl task, fun m member => sink ▸ member⟩))⟩
  have busy : ∀ (e : EndId) {p p₁ : Endpoint ι} {old : Task}, p₁.owner = p.owner → p.task = old →
      old ≠ .opening ∧ old ≠ .gone → Allowed w e p p₁ := fun e p p₁ old owner at_ other =>
    ⟨owner, .inr (.inr (.inl (at_ ▸ other)))⟩
  cases a with
  | ingest i event => exact ⟨greeted.unanswered, greeted.admitted⟩
  | dial s i peerId => exact greeted_dial greeted s i peerId
  | dialForeign s peerId => exact greeted.newEnd rfl
  | accept s i => exact greeted_accept greeted s i
  | acceptForeign s peerId => exact greeted.newEnd rfl
  | opened s =>
      dsimp only [act, opened]
      split
      · exact greeted
      · next answered => exact greeted.moveTask _ (.inl (by simp [EndId.other, answered]))
  | openFailed s => exact greeted.moveTask _ (.inr (.inl rfl))
  | foreign e frame =>
      refine greeted.editEnd fun p _ => ?_
      split
      · next unowned => exact ⟨rfl, .inl (Option.isNone_iff_eq_none.mp unowned)⟩
      · exact .refl e p
  | getFinalSlot c e period thread parts =>
      dsimp only [act, getFinalSlot]
      split
      · split
        · exact greeted
        · next p fresh here _ i owner =>
            have replaced := greeted.replace (p.pending
                (Asked.corr ⟨e, w.corrIds i, period, thread, parts⟩))
            have counted : Greeted { w.replace (p.pending
                (Asked.corr ⟨e, w.corrIds i, period, thread, parts⟩)) with
                corrIds := Function.update w.corrIds i (w.corrIds i + 1) } :=
              ⟨replaced.unanswered, replaced.admitted⟩
            simp only [Mesh.corrIds_replace]
            refine Greeted.setCall (counted.setEnd (p := p) (by simpa using here) ?_) _ _
            exact ⟨rfl, .inr (.inr (.inr ⟨.inl rfl, fun _ => id⟩))⟩
      · exact greeted
  | send c =>
      dsimp only [act, send]
      split
      · exact greeted
      · split
        · next here =>
            split
            · exact greeted.setCall _ _
            · refine Greeted.setCall (greeted.setEnd here ?_) _ _
              exact quiet _ rfl rfl rfl
        · exact greeted
  | forward e =>
      refine greeted.editEnd fun p _ => ?_
      split
      · next running _ => exact busy e rfl running (by simp)
      · exact .refl e p
  | receive e => exact greeted_receive greeted e
  | hangUp e => exact greeted.moveTask e (.inr (.inr (by simp)))
  | failPending e =>
      dsimp only [act, failPending]
      split
      · exact greeted
      · next p here =>
          split
          · next leaving =>
              have failed :
                  Greeted (w.setEnd e { p with pending := fun _ => none, task := .failed }) :=
                greeted.setEnd here (busy e rfl leaving (by simp))
              exact ⟨failed.unanswered, failed.admitted⟩
          · exact greeted
  | dropRx e => exact greeted.moveTask e (.inr (.inl rfl))
  | resume c =>
      dsimp only [act, resume]
      split
      · exact greeted
      · split
        · exact greeted.setCall _ _
        · exact greeted.setCall _ _
        · exact greeted
  | expire c =>
      dsimp only [act, expire]
      split
      · exact greeted
      · split
        · exact greeted.setCall _ _
        · exact greeted
  | forget c =>
      dsimp only [act, forget, giveUp]
      split
      · exact greeted
      · split
        · refine Greeted.setCall (greeted.editEnd fun p _ => ?_) _ _
          exact quiet _ rfl rfl rfl
        · refine Greeted.setCall (greeted.editEnd fun p _ => ?_) _ _
          exact quiet _ rfl rfl rfl
        · exact greeted

end Greeting

section Mesh

/-! ## Runs -/

variable [DecidableEq ι] [Bs58Check] [DenunciationDigest]

/-- No session and no call yet. -/
def start (identity : ι → LocalPeerIdentity) (db : ι → Db) : Mesh ι := { identity, db }

/-- The number of a new call is free while the counter has not wrapped. -/
theorem number_free {Read : ι → Nat → Asked → FinalSlotResponse → Prop} {w : Mesh ι}
    (sound : Sound Read w)
    {a : Act ι} (fits : Fits (act w a)) (c : Nat) (e : EndId) (period : UInt64) (thread : UInt8)
    (parts : FinalSlotParts) (p : Endpoint ι) (i : ι)
        (asks : a = .getFinalSlot c e period thread parts)
    (fresh : w.calls c = none) (here : w.ends e = some p) (owner : p.owner = some i) :
    p.pending (UInt64.ofNat (w.corrIds i + 1)) = none := by
  rw [Option.eq_none_iff_forall_ne_some]
  intro d waits
  obtain ⟨call, found, rfl, number, -⟩ := (sound.filed e p _ d here).mp waits
  have below := sound.earlier found here owner
  have counted : w.corrIds i + 1 ≤ 2 ^ 64 := by
    have total := fits i
    rw [asks] at total
    simpa [act, getFinalSlot, fresh, here, owner] using total
  have small : w.corrIds i < 2 ^ 64 := by omega
  have small' :
      (Asked.mk call.asked.endpoint (w.corrIds i) period thread parts).serial < 2 ^ 64 := small
  have same : call.asked.serial = w.corrIds i := serial_eq_of_corr (by omega) small' number
  omega

theorem did_of_sound {Read : ι → Nat → Asked → FinalSlotResponse → Prop} {w : Mesh ι}
    (sound : Sound Read w)
    {a : Act ι} (fits : Fits (act w a)) : Did w (act w a) := by
  refine did_act (fun e p n c here waits => ?_) (fun c call found => ?_) a (number_free sound fits)
  · obtain ⟨call, found, -, -, open_, -⟩ := (sound.filed e p n c here).mp waits
    exact ⟨call, found, open_⟩
  · obtain ⟨p, -, here, -⟩ := sound.asker c call found
    exact ⟨p, here⟩

variable (identity : ι → LocalPeerIdentity) (db : ι → Db)

/-- At some moment of the run. -/
def ReadIn (acts : List (Act ι)) (j : ι) (c : Nat) (q : Asked) (resp : FinalSlotResponse) : Prop :=
  ∃ w, Visits act (start identity db) acts w ∧ ReadNow w j c q resp

theorem sound_run (acts : List (Act ι)) (fits : Fits (run act (start identity db) acts)) :
    Sound (ReadIn identity db acts) (run act (start identity db) acts) := by
  induction acts using List.reverseRecOn with
  | nil =>
      constructor <;> simp [start, Waits]
  | append_singleton acts a ih =>
      rw [run_append, run_cons, run_nil] at fits ⊢
      have fitted : Fits (run act (start identity db) acts) :=
        fun i => (corrIds_act _ a i).trans (fits i)
      have later : ∀ j c q resp, ReadIn identity db acts j c q resp →
          ReadIn identity db (acts ++ [a]) j c q resp := by
        rintro j c q resp ⟨_, ⟨before, after, rfl, rfl⟩, read⟩
        exact ⟨_, ⟨before, after ++ [a], by simp, rfl⟩, read⟩
      have sound := (ih fitted).mono later
      refine sound.step fitted (fun j c q resp read => ⟨_, ⟨acts, [a], rfl, rfl⟩, read⟩) ?_
      exact did_of_sound (ih fitted) fits

theorem greeted_run (acts : List (Act ι)) : Greeted (run act (start identity db) acts) :=
  invariant_of_step (P := Greeted) (fun _ a greeted => greeted_act greeted a) acts
    ⟨by simp [start], by simp [start]⟩

theorem identity_run (acts : List (Act ι)) : (run act (start identity db) acts).identity = identity :=
  invariant_of_step (P := fun w => w.identity = identity)
      (fun w a same => (identity_act w a).trans same)
    acts rfl

/-- The network of the indexer that dialled, as the other one takes it. -/
def SameNetwork (dialer listener : ι) : Prop :=
  (identity dialer).network = "" ∨ (identity dialer).network = (identity listener).network

omit [DecidableEq ι] [Bs58Check] [DenunciationDigest] in
theorem sameNetwork_of_admit {i j : ι} {hello : SessionHello}
    (admitted : admitHello (identity j) (makeHello (identity i)) = .ok hello) :
        SameNetwork identity i j := by
  simp only [admitHello, makeHello] at admitted
  split at admitted
  · cases admitted
  · split at admitted
    · cases admitted
    · next mismatch => exact or_iff_not_imp_left.mpr (not_and_not_right.mp mismatch)

/-- **A call that returns a response returns one reading of the other indexer's store**, made for it
while it was open; the two indexers are of one network, unless the one that dialled names none. -/
theorem answers_are_reads (acts : List (Act ι)) (fits : Fits (run act (start identity db) acts))
    {c : Nat} {call : Call} {resp : FinalSlotResponse}
    (made : (run act (start identity db) acts).calls c = some call)
    (answered : call.phase = .returned (.ok resp)) {remote : Endpoint ι} {j : ι}
    (there : (run act (start identity db) acts).ends call.asked.endpoint.other = some remote)
    (owner : remote.owner = some j) :
    (∃ before after during, acts = before ++ after ∧
      (run act (start identity db) before).calls c = some during ∧ during.asked = call.asked ∧
      ¬ during.Returned ∧ resp = buildFinalSlotResponse ((run act (start identity db) before).db j)
        ⟨call.asked.period, call.asked.thread⟩ call.asked.parts) ∧
    ∃ here i, (run act (start identity db) acts).ends call.asked.endpoint = some here ∧
      here.owner = some i ∧
      if call.asked.endpoint.dialer then SameNetwork identity i j else SameNetwork identity j i := by
  have sound := sound_run identity db acts fits
  constructor
  · obtain ⟨p, here, read⟩ := sound.answered c call resp made answered
    obtain rfl := Option.some.inj (there.symm.trans here)
    obtain ⟨_, ⟨before, after, rfl, rfl⟩, ⟨during, found, asked, open_⟩, -, reading⟩ := read j owner
    exact ⟨before, after, during, rfl, found, asked, open_, reading⟩
  · obtain ⟨here, i, asker, owned, -⟩ := sound.asker c call made
    refine ⟨here, i, asker, owned, ?_⟩
    have greeted := greeted_run identity db acts
    have identities := identity_run identity db acts
    obtain ⟨⟨⟨s, dialer⟩, serial, period, thread, parts⟩, oneshot, phase⟩ := call
    cases dialer with
    | true =>
        obtain ⟨hello, admitted⟩ := greeted.admitted s here i remote j asker owned there owner
        rw [identities] at admitted
        exact sameNetwork_of_admit identity admitted
    | false =>
        obtain ⟨hello, admitted⟩ := greeted.admitted s remote j here i there owner asker owned
        rw [identities] at admitted
        exact sameNetwork_of_admit identity admitted

theorem fits_of_run {w : Mesh ι} (acts : List (Act ι)) (fits : Fits (run act w acts)) : Fits w := by
  intro i
  refine le_trans ?_ (fits i)
  exact invariant_of_step (P := fun v => w.corrIds i ≤ v.corrIds i)
    (fun v a below => below.trans (corrIds_act v a i)) acts le_rfl

/-- What a call has heard is there in every later state. -/
theorem spoken_run {w : Mesh ι} (acts : List (Act ι))
    (sound : Sound (fun _ _ _ _ => True) w) (fits : Fits (run act w acts))
    {c : Nat} {call call' : Call}
    (found : w.calls c = some call) (spoken : call.Returned ∨ call.oneshot ≠ .empty)
    (found' : (run act w acts).calls c = some call') : call'.Returned ∨ call'.oneshot ≠ .empty := by
  induction acts generalizing w call with
  | nil =>
      obtain rfl := Option.some.inj (found.symm.trans found')
      exact spoken
  | cons a acts ih =>
      have fits' : Fits (act w a) := fits_of_run acts fits
      have did := did_of_sound sound fits'
      obtain ⟨between, there, -⟩ := (grown_of_did did).calls c call found
      have sound' := sound.step (fits_of_run [a] fits') (fun _ _ _ _ _ => trivial) did
      exact ih sound' fits there (spoken_of_did did found spoken there) found'

/-- A waiter is filed at an end exactly as long as its call is open and has heard nothing; and a call
that was made before its end dropped the waiters has heard something from then on, or is done. -/
theorem waiters_settled (acts : List (Act ι)) (fits : Fits (run act (start identity db) acts)) :
    (∀ e p n c, (run act (start identity db) acts).ends e = some p →
      (p.pending n = some c ↔ Waits (run act (start identity db) acts) e n c)) ∧
    ∀ before after e p c call call', acts = before ++ .failPending e :: after →
      (run act (start identity db) before).ends e = some p → p.task = .leaving →
      (run act (start identity db) before).calls c = some call → call.asked.endpoint = e →
      (run act (start identity db) acts).calls c = some call' →
      call'.Returned ∨ call'.oneshot ≠ .empty := by
  refine ⟨(sound_run identity db acts fits).filed, ?_⟩
  rintro before after e p c call call' rfl here leaving made rfl found'
  rw [run_append, run_cons] at fits found'
  have fits' := fits_of_run after fits
  have fitted := fits_of_run [.failPending call.asked.endpoint] fits'
  have sound : Sound (fun _ _ _ _ => True) (run act (start identity db) before) :=
    (sound_run identity db before fitted).mono fun _ _ _ _ _ => trivial
  have did := did_of_sound sound fits'
  obtain ⟨between, there, -⟩ := (grown_of_did did).calls c call made
  refine spoken_run after (sound.step fitted (fun _ _ _ _ _ => trivial) did) fits there ?_ found'
  by_cases spoken : call.Returned ∨ call.oneshot ≠ .empty
  · exact spoken_of_did did made spoken there
  · obtain ⟨open_, empty⟩ := not_or.mp spoken
    have waits := (sound.filed _ p call.asked.corr c here).mpr
      ⟨call, made, rfl, rfl, open_, not_not.mp empty⟩
    rw [show act _ (.failPending call.asked.endpoint) = failPending _ call.asked.endpoint from rfl]
        at there
    simp only [failPending, here, leaving, if_true, made, Option.map_some, waits, and_self,
      Option.some.injEq] at there
    subst there
    exact .inr (by simp)

end Mesh

section OneCall

attribute [local instance] Bs58Check.doubleSha Chain.noDenunciations

/-- Two indexers of one network. -/
def pair (i : Bool) : LocalPeerIdentity where
  peerId := if i then "a" else "b"
  network := "mainnet"
  buildVersion := ""
  advertiseUrl := ""

/-- A dials B, asks for a slot, and is answered. -/
def oneCall : List (Act Bool) :=
  [.dial 0 true "b", .accept 0 false, .opened 0, .getFinalSlot 0 ⟨0, true⟩ 5 1 {}, .send 0,
    .forward ⟨0, true⟩, .receive ⟨0, false⟩, .receive ⟨0, true⟩, .receive ⟨0, true⟩, .resume 0]

def emptyAnswer : FinalSlotResponse := buildFinalSlotResponse Db.empty ⟨5, 1⟩ {}

theorem calls_oneCall : (run act (start pair fun _ => Db.empty) oneCall).calls 0 =
    some { asked := ⟨⟨0, true⟩, 0, 5, 1, {}⟩, oneshot := .filled emptyAnswer,
           phase := .returned (.ok emptyAnswer) } := by
  rfl

theorem fits_oneCall : Fits (run act (start pair fun _ => Db.empty) oneCall) := by
  intro i
  cases i with
  | false => exact Nat.zero_le _
  | true => exact Nat.one_le_two_pow

theorem answers_are_reads_pair :
    (∃ before after during, oneCall = before ++ after ∧
      (run act (start pair fun _ => Db.empty) before).calls 0 = some during ∧
      during.asked = ⟨⟨0, true⟩, 0, 5, 1, {}⟩ ∧ ¬ during.Returned ∧
      emptyAnswer = buildFinalSlotResponse ((run act (start pair fun _ => Db.empty) before).db false)
        ⟨5, 1⟩ {}) ∧
    ∃ here i, (run act (start pair fun _ => Db.empty) oneCall).ends ⟨0, true⟩ = some here ∧
      here.owner = some i ∧ SameNetwork pair i false :=
  answers_are_reads pair (fun _ => Db.empty) oneCall fits_oneCall calls_oneCall rfl (j := false) rfl rfl

/-- A asks, and the session ends before the frame is sent. -/
def cutCall : List (Act Bool) :=
  [.dial 0 true "b", .accept 0 false, .opened 0, .getFinalSlot 0 ⟨0, true⟩ 5 1 {}, .hangUp ⟨0, true⟩,
    .failPending ⟨0, true⟩]

theorem waiters_settled_cut : ∃ call,
    (run act (start pair fun _ => Db.empty) cutCall).calls 0 = some call ∧
    (call.Returned ∨ call.oneshot ≠ .empty) := by
  have fits : Fits (run act (start pair fun _ => Db.empty) cutCall) := by
    intro i
    cases i with
    | false => exact Nat.zero_le _
    | true => exact Nat.one_le_two_pow
  refine ⟨_, rfl, ?_⟩
  exact (waiters_settled pair (fun _ => Db.empty) cutCall fits).2
    [.dial 0 true "b", .accept 0 false, .opened 0, .getFinalSlot 0 ⟨0, true⟩ 5 1 {}, .hangUp ⟨0, true⟩]
    [] ⟨0, true⟩ _ 0 _ _ rfl rfl rfl rfl rfl rfl

end OneCall

end MassaIndexer.Laws.SessionCalls
