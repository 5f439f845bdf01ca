/-
# Laws.HeadMarker -- the last final slot

The head should be the latest slot that a frame or a patch has settled. Patches move it only forward;
a FINAL frame moves it to its own slot, wherever the head stands. `NotBehind` is the guard the frame
lacks, and a run keeps the head where it belongs exactly when every frame that settles a slot meets
it.
-/
import MassaIndexer.Chain.Snapshot

namespace MassaIndexer.Laws.HeadMarker

open MassaIndexer.Theory.Runs
open MassaIndexer.Data.Ids MassaIndexer.Data.Model MassaIndexer.Chain
open MassaIndexer.Store.ColumnFamilies MassaIndexer.Writer.Shared MassaIndexer.Writer.Step
open MassaIndexer.Peer.Arbiter MassaIndexer.Peer.Patch

set_option autoImplicit false

/-! ## On the ledger -/

/-- The slot that an act settles: a frame or a patch for an open slot. -/
def settles (L : Ledger) : Act → Option Slot
  | .final s _ _ _ => if (L.reg s).status = .final then none else some s
  | .peer o => if (L.reg o.slot).status = .final then none else some o.slot
  | .legacy o => if (L.reg o.slot).status = .final then none else some o.slot
  | _ => none

/-- A frame that settles a slot is not for a slot before the head. -/
def NotBehind (L : Ledger) : Act → Prop
  | .final s _ _ _ => (L.reg s).status ≠ .final → ∀ h, L.head = some h → ¬ s.lt h
  | _ => True

/-- The later of two slots. -/
def later (a b : Slot) : Slot := if a.lt b then b else a

theorem not_later_lt_left (a b : Slot) : ¬ (later a b).lt a := by
  unfold later
  split
  · next lt => exact Slot.not_lt_of_lt lt
  · exact Slot.lt_irrefl a

theorem not_later_lt_right (a b : Slot) : ¬ (later a b).lt b := by
  unfold later
  split
  · exact Slot.lt_irrefl b
  · next notLt => exact notLt

/-- The head raised to a slot. -/
def raised (head : Option Slot) (s : Slot) : Slot := head.elim s fun h => later h s

theorem head_raiseHead (L : Ledger) (s : Slot) : (L.raiseHead s).head = some (raised L.head s) := by
  unfold Ledger.raiseHead raised
  cases head : L.head with
  | none => rfl
  | some h =>
      dsimp only [Option.elim, later]
      split
      · rfl
      · exact head

theorem head_ite_raiseHead (L : Ledger) (s : Slot) (c : Prop) [Decidable c] :
    (if c then L else L.raiseHead s).head =
      (if c then none else some s).elim L.head fun s => some (raised L.head s) := by
  split
  · rfl
  · exact head_raiseHead L s

/-- Every act but the frame keeps the head or raises it. -/
theorem head_step_of_not_final {L : Ledger} {a : Act} (notFrame : ∀ s m b t, a ≠ .final s m b t) :
    (L.step a).head = (settles L a).elim L.head fun s => some (raised L.head s) := by
  cases a with
  | final s m b t => exact absurd rfl (notFrame s m b t)
  | idle => rfl
  | body shipped => rfl
  | candidate s trail => rfl
  | transfers s => rfl
  | peer o =>
      rw [Ledger.step, settles]
      cases reconciled : L.reconcile o with
      | some r =>
          rw [Ledger.peerOffer, reconciled]
          dsimp only
          rw [Ledger.head_setReg, Ledger.head_receive, head_ite_raiseHead]
      | none =>
          have settled : (L.reg o.slot).status = .final := by
            by_contra open_
            rw [reconcile_of_open open_] at reconciled
            simp at reconciled
          simp [Ledger.peerOffer, reconciled, settled]
  | legacy o =>
      rw [Ledger.step, Ledger.legacyOffer, settles, Ledger.head_setReg, Ledger.head_receive,
        head_ite_raiseHead]
  | forced s v trail =>
      rw [Ledger.step]
      split <;> rfl

theorem head_step_final (L : Ledger) (s : Slot) (m : Bool) (b : Option BlockId) (t : Option String) :
    (L.step (.final s m b t)).head = (settles L (.final s m b t)).elim L.head some := by
  rw [Ledger.step, settles]
  split <;> rfl

/-- A frame that is not behind raises the head as a patch does. -/
theorem head_step {L : Ledger} {a : Act} (notBehind : NotBehind L a) :
    (L.step a).head = (settles L a).elim L.head fun s => some (raised L.head s) := by
  by_cases frame : ∃ s m b t, a = .final s m b t
  · obtain ⟨s, m, b, t, rfl⟩ := frame
    rw [head_step_final, settles]
    split
    · rfl
    · next open_ =>
        dsimp only [Option.elim]
        cases head : L.head with
        | none => rfl
        | some h =>
            have after := notBehind open_ h head
            dsimp only [raised, Option.elim, later]
            split
            · rfl
            · next notBefore => rw [Slot.eq_of_not_lt after notBefore]
  · exact head_step_of_not_final fun s m b t same => frame ⟨s, m, b, t, same⟩

/-- The head does not move back. -/
def Rises (head head' : Option Slot) : Prop :=
  ∀ h, head = some h → ∃ h', head' = some h' ∧ ¬ h'.lt h

/-- **One act moves the head back exactly when it is a frame behind it.** -/
theorem rises_iff {L : Ledger} {a : Act} : Rises L.head (L.step a).head ↔ NotBehind L a := by
  constructor
  · intro rises
    cases a with
    | final s m b t =>
        intro open_ h head
        obtain ⟨h', moved, notBefore⟩ := rises h head
        rw [head_step_final, settles, if_neg open_] at moved
        obtain rfl : s = h' := Option.some.inj moved
        exact notBefore
    | _ => trivial
  · intro notBehind h head
    rw [head_step notBehind]
    cases settles L a with
    | none => exact ⟨h, head, Slot.lt_irrefl h⟩
    | some s =>
        refine ⟨_, rfl, ?_⟩
        rw [raised, head]
        exact not_later_lt_left h s

theorem ite_eq_some_iff {c : Prop} [Decidable c] {t s : Slot} :
    (if c then none else some t) = some s ↔ ¬ c ∧ t = s := by
  split
  · next holds => simp [holds]
  · next fails => simp [fails]

theorem settles_of_regMove {L : Ledger} {a : Act} {s : Slot} {r : Register}
    (moved : RegMove L s a r) (unforced : ∀ s v t, a ≠ .forced s v t)
    (open_ : (L.reg s).status ≠ .final) (final : r.status = .final) : settles L a = some s := by
  cases moved with
  | same => exact absurd final open_
  | body shipped here =>
      unfold Register.sawBody at final
      dsimp only at final
      split at final
      · exact absurd final (by decide)
      · exact absurd final open_
  | candidate trail =>
      unfold Register.sawCandidate at final
      rw [if_neg open_] at final
      exact absurd final (by simp)
  | final isMiss block trail => exact if_neg open_
  | transfers => exact absurd final open_
  | peer o r here reconciled =>
      subst here
      exact if_neg open_
  | legacy o here =>
      subst here
      exact if_neg open_
  | forced v trail moved => exact absurd rfl (unforced s v trail)

/-- An act settles exactly the slot it makes FINAL, the operator's verdict apart. -/
theorem settles_eq_some_iff {L : Ledger} {a : Act} (unforced : ∀ s v t, a ≠ .forced s v t)
    {s : Slot} : settles L a = some s ↔
      (L.reg s).status ≠ .final ∧ ((L.step a).reg s).status = .final := by
  constructor
  · intro settled
    cases a with
    | final t m b trail =>
        obtain ⟨open_, rfl⟩ := ite_eq_some_iff.mp settled
        refine ⟨open_, ?_⟩
        simp [Ledger.step, Register.sawFinal, open_]
    | peer o =>
        obtain ⟨open_, rfl⟩ := ite_eq_some_iff.mp settled
        refine ⟨open_, ?_⟩
        simp [Ledger.step, Ledger.peerOffer, reconcile_of_open open_, Register.settleParts,
          Register.promoted]
    | legacy o =>
        obtain ⟨open_, rfl⟩ := ite_eq_some_iff.mp settled
        refine ⟨open_, ?_⟩
        simp [Ledger.step, Ledger.legacyOffer, open_, Register.settleParts, Register.promoted]
    | _ => exact absurd settled (by simp [settles])
  · rintro ⟨open_, final⟩
    exact settles_of_regMove (regMove_step L a s) unforced open_ final

/-! ## On the store -/

/-- The slot has a FINAL row. -/
def IsFinal (db : Db) (s : Slot) : Prop := ∃ row, db.readSlot s = some row ∧ row.status = .final

theorem isFinal_iff {db : Db} {s : Slot} : IsFinal db s ↔ ((ledgerOf db).reg s).status = .final := by
  constructor
  · rintro ⟨row, found, final⟩
    rw [← registerOf_of_readSlot found]
    exact final
  · intro final
    obtain ⟨row, found, here⟩ := exists_row_of_final final
    refine ⟨row, found, ?_⟩
    rw [← here] at final
    exact final

section Writers

variable [Bs58Check] [DenunciationDigest]

/-- An Exec, PeerPatch or LegacyPatch event that makes a slot FINAL. -/
def Promotes (db : Db) (e : Timed) (s : Slot) : Prop :=
  (match e.event with
    | .exec _ | .peerPatch _ | .legacyPatch _ => True
    | _ => False) ∧ ¬ IsFinal db s ∧ IsFinal (step db e) s

/-- Some event of the run promoted the slot. -/
def Promoted (events : List Timed) (s : Slot) : Prop :=
  ∃ before e after, events = before ++ e :: after ∧ Promotes (ingest before) e s

theorem promotes_iff {db : Db} {e : Timed} {s : Slot} :
    Promotes db e s ↔ settles (ledgerOf db) (actOf db e) = some s := by
  unfold Promotes
  rw [isFinal_iff, isFinal_iff, ledgerOf_step]
  have patched : ∀ a, (∀ s v t, a ≠ .forced s v t) →
      ((True ∧ ((ledgerOf db).reg s).status ≠ .final ∧
        (((ledgerOf db).step a).reg s).status = .final) ↔ settles (ledgerOf db) a = some s) :=
    fun a unforced => (and_iff_right trivial).trans (settles_eq_some_iff unforced).symm
  have offered : ∀ (o : Option Offer) (act : Offer → Act), (∀ o s v t, act o ≠ .forced s v t) →
      ∀ s v t, o.elim .idle act ≠ .forced s v t := by
    intro o act unforced s v t
    cases o with
    | none => simp
    | some o => exact unforced o s v t
  obtain ⟨event, nowMs⟩ := e
  cases event with
  | exec out =>
      refine patched _ fun s v t => ?_
      simp only [actOf, execAct]
      split
      · simp
      · split <;> simp
  | peerPatch resp => exact patched _ (offered _ _ (by simp))
  | legacyPatch resp => exact patched _ (offered _ _ (by simp))
  | block fb =>
      simp only [actOf]
      split <;> simp [settles]
  | transfers resp =>
      simp only [actOf, transfersAct]
      split <;> simp [settles]
  | forcedVerdict resp =>
      simp only [actOf, forcedAct]
      split <;> simp [settles]
  | tick => simp [actOf, settles]

theorem promoted_concat {events : List Timed} {e : Timed} {s : Slot} :
    Promoted (events ++ [e]) s ↔ Promoted events s ∨ Promotes (ingest events) e s := by
  constructor
  · rintro ⟨before, d, after, whole, promotes⟩
    rcases List.eq_nil_or_concat after with rfl | ⟨rest, last, rfl⟩
    · obtain ⟨rfl, same⟩ := List.append_inj' whole rfl
      obtain rfl := List.singleton_inj.mp same
      exact .inr promotes
    · rw [List.concat_eq_append, ← List.cons_append, ← List.append_assoc] at whole
      obtain ⟨rfl, -⟩ := List.append_inj' whole rfl
      exact .inl ⟨before, d, rest, rfl, promotes⟩
  · rintro (⟨before, d, after, rfl, promotes⟩ | promotes)
    · exact ⟨before, d, after ++ [e], by simp, promotes⟩
    · exact ⟨events, e, [], rfl, promotes⟩

/-- The step of the head, in terms of the store. -/
theorem lastFinalSlot_step {db : Db} {e : Timed} (notBehind : NotBehind (ledgerOf db) (actOf db e)) :
    (step db e).lastFinalSlot = (settles (ledgerOf db) (actOf db e)).elim db.lastFinalSlot
      fun s => some (raised db.lastFinalSlot s) := by
  have moved := head_step notBehind
  rw [← ledgerOf_step] at moved
  exact moved

/-- The head is the latest promoted slot, and there is none as long as no slot was promoted. -/
def HeadIsLatest (events : List Timed) : Prop :=
  match (ingest events).lastFinalSlot with
  | none => ∀ s, ¬ Promoted events s
  | some h => Promoted events h ∧ ∀ s, Promoted events s → ¬ h.lt s

theorem headIsLatest_nil : HeadIsLatest [] := by
  rintro s ⟨before, e, after, whole, -⟩
  exact absurd whole (by simp)

/-- An event that is not behind keeps the head at the latest promoted slot. -/
theorem headIsLatest_concat {events : List Timed} {e : Timed} (latest : HeadIsLatest events)
    (notBehind : NotBehind (ledgerOf (ingest events)) (actOf (ingest events) e)) :
    HeadIsLatest (events ++ [e]) := by
  have moved := lastFinalSlot_step notBehind
  have promoted := @promoted_concat _ _ events e
  have whole : ingest (events ++ [e]) = step (ingest events) e := by simp [ingest]
  unfold HeadIsLatest at latest ⊢
  rw [whole, moved]
  simp only [promoted, promotes_iff]
  cases settled : settles (ledgerOf (ingest events)) (actOf (ingest events) e) with
  | none => simpa using latest
  | some s =>
      cases head : (ingest events).lastFinalSlot with
      | none =>
          rw [head] at latest
          refine ⟨.inr rfl, ?_⟩
          rintro t (before | same)
          · exact absurd before (latest t)
          · obtain rfl := Option.some.inj same
            exact Slot.lt_irrefl s
      | some h =>
          rw [head] at latest
          obtain ⟨reached, top⟩ := latest
          dsimp only [Option.elim, raised]
          constructor
          · unfold later
            split
            · exact .inr rfl
            · exact .inl reached
          · rintro t (before | same)
            · exact Slot.not_lt_trans (top t before) (not_later_lt_left h s)
            · obtain rfl := Option.some.inj same
              exact not_later_lt_right h s

/-! ## Over a run -/

/-- The head never moves back in a run, and is the latest promoted slot in every state of it. -/
def HeadTracks (events : List Timed) : Prop :=
  (∀ before e after, events = before ++ e :: after →
    Rises (ingest before).lastFinalSlot (step (ingest before) e).lastFinalSlot) ∧
  ∀ before after, events = before ++ after → HeadIsLatest before

/-- **The head tracks the latest promoted slot exactly in the runs whose frames are never behind.** -/
theorem head_tracks_iff (events : List Timed) :
    HeadTracks events ↔
      Along step (fun db e => NotBehind (ledgerOf db) (actOf db e)) Db.empty events := by
  have rises : ∀ db e, Rises db.lastFinalSlot (step db e).lastFinalSlot ↔
      NotBehind (ledgerOf db) (actOf db e) := by
    intro db e
    rw [← rises_iff, ← ledgerOf_step]
    rfl
  rw [along_iff_forall_split]
  constructor
  · intro tracks before e after whole
    exact (rises _ _).mp (tracks.1 before e after whole)
  · intro good
    refine ⟨fun before e after whole => ?_, fun before after whole => ?_⟩
    · exact (rises _ _).mpr (good before e after whole)
    · -- the prefixes are reached one event at a time
      induction before using List.reverseRecOn generalizing after with
      | nil => exact headIsLatest_nil
      | append_singleton before e ih =>
          rw [List.append_assoc] at whole
          exact headIsLatest_concat (ih _ whole) (good before e after whole)

end Writers

/-! ## A frame behind the head -/

section Behind

attribute [local instance] Bs58Check.doubleSha noDenunciations

/-- A peer's answer for a slot, and the node's frame for an earlier one. -/
def lateFrame : List Timed :=
  [⟨.peerPatch (answerOf ⟨15, 0⟩ .miss none), 0⟩, ⟨.exec (frameOf ⟨11, 0⟩ .miss), 0⟩]

/-- **A late frame pulls the head back.** -/
theorem head_moves_back : ¬ ∀ events : List Timed, HeadTracks events := by
  intro tracks
  have back := (tracks lateFrame).1 [⟨.peerPatch (answerOf ⟨15, 0⟩ .miss none), 0⟩]
    ⟨.exec (frameOf ⟨11, 0⟩ .miss), 0⟩ [] rfl
  have head : ∀ db : Db, db.lastFinalSlot = (ledgerOf db).head := fun _ => rfl
  rw [head, head, ledgerOf_step_exec, ingest, run_cons, run_nil, ledgerOf_step_peerPatch,
    ledgerOf_empty] at back
  obtain ⟨h, moved, notBefore⟩ := back ⟨15, 0⟩ (by decide +kernel)
  obtain rfl : (⟨11, 0⟩ : Slot) = h := Option.some.inj (Eq.trans (by decide +kernel) moved)
  exact notBefore (by decide)

end Behind

end MassaIndexer.Laws.HeadMarker
