/- # Peer.SessionInvariant -- waiters, frames and answers in order

What holds of the calls and the sessions of the mesh between any two steps (`Sound`): a waiter is
filed exactly as long as its call is open and has heard nothing, requests on their way were asked,
and a response on its way was read for the call whose number it carries. `Read` says which readings
have taken place. Every step keeps it (`Sound.step`), as long as no counter of call numbers has
wrapped. -/
import MassaIndexer.Peer.SyncSession

namespace MassaIndexer.Peer.SessionInvariant

open MassaIndexer.Data.Ids MassaIndexer.Data.Model MassaIndexer.Data.Proto MassaIndexer.Data.Codec
open MassaIndexer.Store.ColumnFamilies MassaIndexer.Writer.Shared MassaIndexer.Writer.Step
open MassaIndexer.Peer.Service MassaIndexer.Peer.SyncSession

set_option autoImplicit false

variable {ι : Type}

/-! ## What stays -/

/-- Calls keep what they asked, ends keep their owner, and a call that has returned is done. -/
structure Grown (w w' : Mesh ι) : Prop where
  calls : ∀ c call, w.calls c = some call →
    ∃ call', w'.calls c = some call' ∧ call'.asked = call.asked ∧ (call.Returned → call' = call)
  ends : ∀ e p, w.ends e = some p → ∃ p', w'.ends e = some p' ∧ p'.owner = p.owner
  corrIds : ∀ i, w.corrIds i ≤ w'.corrIds i

theorem Grown.refl (w : Mesh ι) : Grown w w :=
  ⟨fun _ call found => ⟨call, found, rfl, fun _ => rfl⟩, fun _ p here => ⟨p, here, rfl⟩,
    fun _ => le_rfl⟩

section Grown

variable {w v : Mesh ι} (grown : Grown w v)

include grown

/-- An open call takes another form. -/
theorem Grown.setCall {c : Nat} {call call' : Call} (found : v.calls c = some call)
    (open_ : ¬ call.Returned) (asked : call'.asked = call.asked) : Grown w (v.setCall c call') where
  calls d before here := by
    obtain ⟨after, there, same, done⟩ := grown.calls d before here
    by_cases changed : d = c
    · subst changed
      obtain rfl := Option.some.inj (found.symm.trans there)
      refine ⟨call', by simp, asked.trans same, fun returned => ?_⟩
      exact absurd (done returned ▸ returned) open_
    · exact ⟨after, by simpa [changed] using there, same, done⟩
  ends := grown.ends
  corrIds := grown.corrIds

theorem Grown.setEnd {e : EndId} {p p' : Endpoint ι} (here : v.ends e = some p)
    (owner : p'.owner = p.owner) : Grown w (v.setEnd e p') where
  calls := grown.calls
  ends d q there := by
    obtain ⟨q', after, same⟩ := grown.ends d q there
    by_cases changed : d = e
    · subst changed
      obtain rfl := Option.some.inj (here.symm.trans after)
      exact ⟨p', by simp, owner.trans same⟩
    · exact ⟨q', by simpa [changed] using after, same⟩
  corrIds := grown.corrIds

end Grown

/-! ## The invariant of a run -/

/-- No counter has wrapped. -/
def Fits (w : Mesh ι) : Prop := ∀ i, w.corrIds i ≤ 2 ^ 64

/-- The call is open, and this is what the indexer at the other end reads for it. -/
def ReadNow [Bs58Check] (w : Mesh ι) (j : ι) (c : Nat) (q : Asked) (resp : FinalSlotResponse) :
    Prop :=
  (∃ call, w.calls c = some call ∧ call.asked = q ∧ ¬ call.Returned) ∧
    (∃ p, w.ends q.endpoint.other = some p ∧ p.owner = some j) ∧
    resp = buildFinalSlotResponse (w.db j) ⟨q.period, q.thread⟩ q.parts

/-- The response of a call has been read for it, unless the other end has no owner. -/
def Known (Read : ι → Nat → Asked → FinalSlotResponse → Prop) (w : Mesh ι) (c : Nat) (q : Asked)
    (resp : FinalSlotResponse) : Prop :=
  ∃ p, w.ends q.endpoint.other = some p ∧ ∀ j, p.owner = some j → Read j c q resp

/-- A call that was made at an end and sent this frame. -/
def Asks (w : Mesh ι) (e : EndId) (m : SessionMessage) : Prop :=
  ∃ c call, w.calls c = some call ∧ call.asked.endpoint = e ∧ m = call.asked.frame

/-- The call waits at an end, under a number. -/
def Waits (w : Mesh ι) (e : EndId) (n : UInt64) (c : Nat) : Prop :=
  ∃ call, w.calls c = some call ∧ call.asked.endpoint = e ∧ call.asked.corr = n ∧ ¬ call.Returned ∧
    call.oneshot = .empty

structure Sound (Read : ι → Nat → Asked → FinalSlotResponse → Prop) (w : Mesh ι) : Prop where
  asker : ∀ c call, w.calls c = some call →
    ∃ p i, w.ends call.asked.endpoint = some p ∧ p.owner = some i ∧ call.asked.serial < w.corrIds i
  distinct : ∀ c d call other, w.calls c = some call → w.calls d = some other →
    other.asked.endpoint = call.asked.endpoint → other.asked.serial = call.asked.serial → d = c
  filed : ∀ e p n c, w.ends e = some p → (p.pending n = some c ↔ Waits w e n c)
  queued : ∀ e p, w.ends e = some p → ∀ m ∈ p.toRemote, Asks w e m
  requests : ∀ e p, w.ends e = some p → p.owner ≠ none → ∀ m ∈ p.sink, ∀ req,
    m.body = some (.slotRequest req) → Asks w e m
  responses : ∀ e p, w.ends e = some p → p.owner ≠ none → ∀ m ∈ p.sink, ∀ resp,
    m.body = some (.slotResponse resp) → ∃ q, w.ends e.other = some q ∧ (q.owner ≠ none →
      ∃ c call, w.calls c = some call ∧ call.asked.endpoint = e.other ∧ m.id = call.asked.corr ∧
        (¬ call.Returned → Known Read w c call.asked resp))
  heard : ∀ c call resp, w.calls c = some call → ¬ call.Returned → call.oneshot = .filled resp →
    Known Read w c call.asked resp
  answered : ∀ c call resp, w.calls c = some call → call.phase = .returned (.ok resp) →
    Known Read w c call.asked resp

section Kept

variable {Read : ι → Nat → Asked → FinalSlotResponse → Prop} {w w' : Mesh ι}

theorem Known.grown {c : Nat} {q : Asked} {resp : FinalSlotResponse} (known : Known Read w c q resp)
    (grown : Grown w w') : Known Read w' c q resp := by
  obtain ⟨p, here, read⟩ := known
  obtain ⟨p', here', owner⟩ := grown.ends _ p here
  exact ⟨p', here', fun j owned => read j (owner ▸ owned)⟩

theorem Asks.grown {e : EndId} {m : SessionMessage} (asks : Asks w e m) (grown : Grown w w') :
    Asks w' e m := by
  obtain ⟨c, call, found, rfl, rfl⟩ := asks
  obtain ⟨call', found', asked, -⟩ := grown.calls c call found
  exact ⟨c, call', found', by rw [asked], by rw [asked]⟩

theorem serial_eq_of_corr {q q' : Asked} (small : q.serial < 2 ^ 64) (small' : q'.serial < 2 ^ 64)
    (same : q.corr = q'.corr) : q.serial = q'.serial := by
  have numbers := congrArg UInt64.toNat same
  simp only [Asked.corr, UInt64.toNat_ofNat'] at numbers
  omega

/-- A call that is there has an earlier number than a new call of its end. -/
theorem Sound.earlier (sound : Sound Read w) {c : Nat} {call : Call} (found : w.calls c = some call)
    {p : Endpoint ι} {i : ι} (here : w.ends call.asked.endpoint = some p) (owner : p.owner = some i) :
    call.asked.serial < w.corrIds i := by
  obtain ⟨p', i', here', owner', below⟩ := sound.asker c call found
  obtain rfl := Option.some.inj (here.symm.trans here')
  obtain rfl := Option.some.inj (owner.symm.trans owner')
  exact below

/-- No two calls of an end go by one number. -/
theorem Sound.unique (sound : Sound Read w) (fits : Fits w) {c d : Nat} {call other : Call}
    (found : w.calls c = some call) (found' : w.calls d = some other)
    (endpoint : other.asked.endpoint = call.asked.endpoint)
        (corr : other.asked.corr = call.asked.corr) :
    d = c := by
  obtain ⟨p, i, here, owner, below⟩ := sound.asker c call found
  obtain ⟨p', i', here', owner', below'⟩ := sound.asker d other found'
  refine sound.distinct c d call other found found' endpoint (serial_eq_of_corr ?_ ?_ corr)
  · exact below'.trans_le (fits i')
  · exact below.trans_le (fits i)

theorem waits_setCall (v : Mesh ι) (c₀ : Nat) (call₀ : Call) (e : EndId) (n : UInt64) (c : Nat) :
    Waits (v.setCall c₀ call₀) e n c ↔
      (c = c₀ ∧ call₀.asked.endpoint = e ∧ call₀.asked.corr = n ∧ ¬ call₀.Returned ∧
        call₀.oneshot = .empty) ∨ (c ≠ c₀ ∧ Waits v e n c) := by
  by_cases same : c = c₀
  · subst same
    simp [Waits]
  · simp [Waits, same]

/-- A call that goes on with the waiter it has. -/
theorem waits_kept {v : Mesh ι} {c₀ : Nat} {call call₀ : Call} (found : v.calls c₀ = some call)
    (asked : call₀.asked = call.asked) (open_ : ¬ call.Returned) (open₀ : ¬ call₀.Returned)
    (oneshot : call₀.oneshot = call.oneshot) (e : EndId) (n : UInt64) (c : Nat) :
    Waits (v.setCall c₀ call₀) e n c ↔ Waits v e n c := by
  rw [waits_setCall]
  by_cases same : c = c₀
  · subst same
    simp [Waits, found, asked, open_, open₀, oneshot]
  · simp [same]

/-- A call that has heard something, or is done. -/
theorem waits_gone {v : Mesh ι} {c₀ : Nat} {call₀ : Call}
    (done : call₀.oneshot = .empty → call₀.Returned) (e : EndId) (n : UInt64) (c : Nat) :
    Waits (v.setCall c₀ call₀) e n c ↔ c ≠ c₀ ∧ Waits v e n c := by
  rw [waits_setCall]
  refine or_iff_right ?_
  rintro ⟨-, -, -, open_, empty⟩
  exact open_ (done empty)

/-- A call that does not wait there. -/
theorem waits_other {c₀ : Nat} {call : Call} {e : EndId} {n : UInt64} (found : w.calls c₀ = some call)
    (elsewhere : call.asked.endpoint = e → call.asked.corr = n → call.oneshot ≠ .empty) (c : Nat) :
    Waits w e n c ↔ c ≠ c₀ ∧ Waits w e n c := by
  refine ⟨fun waiting => ⟨?_, waiting⟩, And.right⟩
  rintro rfl
  obtain ⟨call', found', at_, number, -, empty⟩ := waiting
  obtain rfl := Option.some.inj (found.symm.trans found')
  exact elsewhere at_ number empty

/-- An end whose waiters stay. -/
theorem pending_setEnd {v : Mesh ι} {e₀ e : EndId} {p p₁ p' : Endpoint ι}
    (here' : (v.setEnd e₀ p₁).ends e = some p') (here : v.ends e₀ = some p)
    (same : p₁.pending = p.pending) : ∃ p₀, v.ends e = some p₀ ∧ p'.pending = p₀.pending := by
  rw [Mesh.ends_setEnd] at here'
  split at here'
  · next at_ =>
      obtain rfl := Option.some.inj here'
      exact ⟨p, at_ ▸ here, same⟩
  · exact ⟨p', here', rfl⟩

theorem end_of_setEnd {v : Mesh ι} {e₀ e : EndId} {p₁ p' : Endpoint ι}
    (here' : (v.setEnd e₀ p₁).ends e = some p') :
    e = e₀ ∧ p' = p₁ ∨ e ≠ e₀ ∧ v.ends e = some p' := by
  rw [Mesh.ends_setEnd] at here'
  split at here'
  · next at_ => exact .inl ⟨at_, (Option.some.inj here').symm⟩
  · next apart => exact .inr ⟨apart, here'⟩

theorem call_of_setCall {v : Mesh ι} {c₀ c : Nat} {call₀ call' : Call}
    (found' : (v.setCall c₀ call₀).calls c = some call') :
    c = c₀ ∧ call' = call₀ ∨ c ≠ c₀ ∧ v.calls c = some call' := by
  rw [Mesh.calls_setCall] at found'
  split at found'
  · next at_ => exact .inl ⟨at_, (Option.some.inj found').symm⟩
  · next apart => exact .inr ⟨apart, found'⟩

/-- A call that is open after a step was open before. -/
theorem open_of_grown (grown : Grown w w') {c : Nat} {call call' : Call}
    (found : w.calls c = some call)
    (found' : w'.calls c = some call') (open_ : ¬ call'.Returned) : ¬ call.Returned := by
  intro returned
  obtain ⟨after, there, -, done⟩ := grown.calls c call found
  obtain rfl := Option.some.inj (found'.symm.trans there)
  exact open_ (done returned ▸ returned)

/-- The other end asks, and what is read for it now is the response. -/
theorem known_of_request [Bs58Check] (sound : Sound Read w)
    (now : ∀ j c q resp, ReadNow w j c q resp → Read j c q resp) {e : EndId} {p remote : Endpoint ι}
    {i : ι} {frame : SessionMessage} {req : FinalSlotRequest} {thread : UInt8}
        (here : w.ends e = some p)
    (owner : p.owner = some i) (there : w.ends e.other = some remote) (owned : remote.owner ≠ none)
    (arrived : frame ∈ remote.sink) (asks : frame.body = some (.slotRequest req))
    (named : threadFromPb req.thread = .ok thread) :
    ∃ c call, w.calls c = some call ∧ call.asked.endpoint = e.other ∧ frame.id = call.asked.corr ∧
      (¬ call.Returned → Known Read w c call.asked
        (buildFinalSlotResponse (w.db i) ⟨req.period, thread⟩ (req.parts.getD {}))) := by
  obtain ⟨c, call, found, endpoint, rfl⟩ := sound.requests _ remote there owned frame arrived req asks
  refine ⟨c, call, found, endpoint, rfl, fun open_ => ?_⟩
  obtain rfl : _ = req := by simpa [Asked.frame] using asks
  rw [threadFromPb_toUInt32] at named
  obtain rfl := Except.ok.inj named
  have behind : call.asked.endpoint.other = e := by rw [endpoint, other_other]
  refine ⟨p, behind ▸ here, fun j owned => now j c _ _ ⟨⟨call, found, rfl, open_⟩, ?_, ?_⟩⟩
  · exact ⟨p, behind ▸ here, owned⟩
  · obtain rfl := Option.some.inj (owner.symm.trans owned)
    rfl

/-- A response that reaches the waiter of its number has been read for that call. -/
theorem known_of_response (sound : Sound Read w) (fits : Fits w) {e : EndId} {p remote : Endpoint ι}
    {frame : SessionMessage} {resp : FinalSlotResponse} {c : Nat} {call : Call}
    (here : w.ends e = some p) (there : w.ends e.other = some remote) (arrived : frame ∈ remote.sink)
    (answers : frame.body = some (.slotResponse resp)) (waits : p.pending frame.id = some c)
    (found : w.calls c = some call) : Known Read w c call.asked resp := by
  obtain ⟨call', found', rfl, number, open_, -⟩ := (sound.filed e p frame.id c here).mp waits
  obtain rfl := Option.some.inj (found.symm.trans found')
  by_cases owned : remote.owner = none
  · exact ⟨remote, there, fun j owner => by rw [owned] at owner; cases owner⟩
  obtain ⟨q, asks, known⟩ := sound.responses _ remote there owned frame arrived resp answers
  rw [other_other] at asks known
  obtain ⟨p', i, here', owner, -⟩ := sound.asker c call found
  obtain rfl := Option.some.inj (here'.symm.trans asks)
  obtain ⟨d, other, there', endpoint, number', read⟩ := known (by simp [owner])
  obtain rfl := sound.unique fits found there' endpoint (number'.symm.trans number.symm)
  obtain rfl := Option.some.inj (found.symm.trans there')
  exact read open_

theorem Sound.mono (sound : Sound Read w) {Read' : ι → Nat → Asked → FinalSlotResponse → Prop}
    (more : ∀ j c q resp, Read j c q resp → Read' j c q resp) : Sound Read' w where
  asker := sound.asker
  distinct := sound.distinct
  filed := sound.filed
  queued := sound.queued
  requests := sound.requests
  responses e p here owned m member resp answers := by
    obtain ⟨q, there, known⟩ := sound.responses e p here owned m member resp answers
    refine ⟨q, there, fun owned => ?_⟩
    obtain ⟨c, call, found, endpoint, number, read⟩ := known owned
    refine ⟨c, call, found, endpoint, number, fun open_ => ?_⟩
    obtain ⟨p, here, read⟩ := read open_
    exact ⟨p, here, fun j owner => more _ _ _ _ (read j owner)⟩
  heard c call resp found open_ filled := by
    obtain ⟨p, here, read⟩ := sound.heard c call resp found open_ filled
    exact ⟨p, here, fun j owner => more _ _ _ _ (read j owner)⟩
  answered c call resp found done := by
    obtain ⟨p, here, read⟩ := sound.answered c call resp found done
    exact ⟨p, here, fun j owner => more _ _ _ _ (read j owner)⟩

end Kept

/-! ## What a step keeps -/

variable [DecidableEq ι] [Bs58Check]

theorem grown_of_did {w w' : Mesh ι} (did : Did w w') : Grown w w' := by
  cases did with
  | quiet calls corrIds ends =>
      refine ⟨fun c call found => ⟨call, by rw [calls, found], rfl, fun _ => rfl⟩, fun e p here => ?_,
        fun i => by rw [corrIds]⟩
      have moved := ends e
      rw [here] at moved
      generalize w'.ends e = after at moved ⊢
      cases moved with
      | kept owner => exact ⟨_, rfl, owner⟩
  | @called c e p i q fresh here owner =>
      constructor
      · intro d call found
        have other : d ≠ c := by
          rintro rfl
          exact absurd (fresh.symm.trans found) (by simp)
        exact ⟨call, by simpa [other] using found, rfl, fun _ => rfl⟩
      · refine (Grown.setEnd (.refl w) (e := e) here ?_).ends
        rfl
      · intro j
        by_cases same : j = i
        · subst same
          simp
        · simp [Function.update_of_ne same]
  | sent found sending here =>
      refine .setCall (.setEnd (.refl w) here (by rfl)) found ?_ (by rfl)
      rintro ⟨result, same⟩
      exact absurd (sending.symm.trans same) (by simp)
  | stalled found open_ => exact .setCall (.refl w) found open_ (by rfl)
  | @served e p remote i frame rest req thread here there =>
      refine .setEnd (p := p) (.setEnd (.refl w) there (by rfl)) ?_ (by rfl)
      simpa [(other_ne _).symm] using here
  | @completed e p remote frame rest resp c call here there arrived answers filed found open_ =>
      refine .setCall (.setEnd (p := p) (.setEnd (.refl w) there (by rfl)) ?_ (by rfl)) found open_
          (by rfl)
      simpa [(other_ne _).symm] using here
  | @drained e p here open_ =>
      constructor
      · intro c call found
        refine ⟨if call.asked.endpoint = e ∧ p.pending call.asked.corr = some c then
          { call with oneshot := .dropped } else call, by simp [found], ?_, fun returned => if_neg ?_⟩
        · split <;> rfl
        · rintro ⟨-, waits⟩
          exact open_ c call found waits returned
      · refine (Grown.setEnd (.refl w) (e := e) here ?_).ends
        rfl
      · exact fun _ => le_rfl
  | resumed found open_ => exact .setCall (.refl w) found open_ (by rfl)
  | forgot found open_ here => exact .setCall (.setEnd (.refl w) here (by rfl)) found open_ (by rfl)

section Steps

variable {Read : ι → Nat → Asked → FinalSlotResponse → Prop} {w w' : Mesh ι}

/-- A call is as it was but for its waiter and its phase, or it is new. -/
theorem call_of_did (did : Did w w') {c : Nat} {call' : Call} (found' : w'.calls c = some call') :
    (∃ call, w.calls c = some call ∧ call'.asked = call.asked) ∨
      ∃ p i, w.calls c = none ∧ w.ends call'.asked.endpoint = some p ∧ p.owner = some i ∧
        call'.asked.serial = w.corrIds i ∧ w'.corrIds i = w.corrIds i + 1 ∧
        ∀ d, d ≠ c → w'.calls d = w.calls d := by
  have kept : ∀ {call}, w.calls c = some call →
      ∃ call, w.calls c = some call ∧ call'.asked = call.asked := by
    intro call found
    obtain ⟨call'', found'', asked, -⟩ := (grown_of_did did).calls c call found
    obtain rfl := Option.some.inj (found'.symm.trans found'')
    exact ⟨call, found, asked⟩
  cases before : w.calls c with
  | some call => exact .inl (before ▸ kept before)
  | none =>
      right
      cases did with
      | quiet calls => simp [calls, before] at found'
      | @called d e p i q fresh here owner endpoint serial =>
          by_cases new : c = d
          · subst new
            obtain rfl : { asked := q } = call' := by simpa using found'
            exact ⟨p, i, rfl, endpoint ▸ here, owner, serial, by simp, fun d other => by simp [other]⟩
          · simp [new, before] at found'
      | sent found => grind
      | stalled found => grind
      | served => simp [before] at found'
      | completed here there arrived answers filed found => grind
      | drained => simp [before] at found'
      | resumed found => grind
      | forgot found => grind

theorem Sound.asker_step (sound : Sound Read w) (did : Did w w') (c : Nat) (call : Call)
    (found : w'.calls c = some call) :
    ∃ p i, w'.ends call.asked.endpoint = some p ∧ p.owner = some i ∧
      call.asked.serial < w'.corrIds i := by
  have grown := grown_of_did did
  rcases call_of_did did found with
    ⟨call₀, found₀, asked⟩ | ⟨p, i, -, here, owner, serial, counted, -⟩
  · obtain ⟨p, i, here, owner, below⟩ := sound.asker c call₀ found₀
    obtain ⟨p', here', owner'⟩ := grown.ends _ p here
    rw [asked]
    exact ⟨p', i, here', owner'.trans owner, below.trans_le (grown.corrIds i)⟩
  · obtain ⟨p', here', owner'⟩ := grown.ends _ p here
    exact ⟨p', i, here', owner'.trans owner, by omega⟩

theorem Sound.distinct_step (sound : Sound Read w) (did : Did w w') (c d : Nat) (call other : Call)
    (found : w'.calls c = some call) (found' : w'.calls d = some other)
    (endpoint : other.asked.endpoint = call.asked.endpoint)
    (serial : other.asked.serial = call.asked.serial) : d = c := by
  rcases call_of_did did found with ⟨call₀, found₀, asked⟩ | ⟨p, i, fresh, here, owner, new, -, alone⟩
  · rcases call_of_did did found' with ⟨other₀, found₀', asked'⟩ | ⟨p, i, -, here, owner, new, -, -⟩
    · exact sound.distinct c d call₀ other₀ found₀ found₀' (by rw [← asked, ← asked', endpoint])
        (by rw [← asked, ← asked', serial])
    · have below := sound.earlier found₀ (p := p) (by rw [← asked, ← endpoint, here]) owner
      rw [← asked, ← serial] at below
      omega
  · rcases call_of_did did found' with ⟨other₀, found₀', asked'⟩ | ⟨-, -, fresh', -, -, -, -, -⟩
    · have below := sound.earlier found₀' (p := p) (by rw [← asked', endpoint, here]) owner
      rw [← asked', serial] at below
      omega
    · by_contra apart
      rw [alone d apart, fresh'] at found'
      cases found'

theorem Sound.filed_step (sound : Sound Read w) (fits : Fits w) (did : Did w w') (e : EndId)
    (p' : Endpoint ι) (n : UInt64) (c : Nat) (here' : w'.ends e = some p') :
    p'.pending n = some c ↔ Waits w' e n c := by
  cases did with
  | quiet calls corrIds ends =>
      have moved := ends e
      rw [here'] at moved
      unfold Waits
      rw [calls]
      generalize before : w.ends e = p at moved
      cases moved with
      | new _ noWaiter =>
          refine iff_of_false (by simp [noWaiter]) ?_
          rintro ⟨call, found, rfl, -⟩
          obtain ⟨p, -, here, -⟩ := sound.asker c call found
          exact absurd (before.symm.trans here) (by simp)
      | kept _ pending =>
          rw [pending]
          exact sound.filed e _ n c before
  | @called c₀ e₀ p i q fresh here owner endpoint serial unfiled =>
      have absent : ∀ n, ¬ Waits w e n c₀ := by
        rintro n ⟨call, found, -⟩
        exact absurd (fresh.symm.trans found) (by simp)
      refine Iff.trans ?_ (waits_setCall _ c₀ _ e n c).symm
      change _ ↔ _ ∨ (_ ∧ Waits w e n c)
      by_cases same : e = e₀
      · subst same
        obtain rfl : _ = p' := by simpa using here'
        have filed := sound.filed e p n c here
        by_cases number : n = q.corr
        · subst number
          rw [unfiled] at filed
          simp [endpoint, ← filed, Call.Returned, eq_comm]
        · have other : ¬ q.corr = n := fun same => number same.symm
          simp only [Function.update_of_ne number, filed, other, false_and, and_false, false_or]
          exact ⟨fun waits => ⟨fun same => absent n (same ▸ waits), waits⟩, And.right⟩
      · have filed := sound.filed e p' n c (by simpa [same] using here')
        have elsewhere : ¬ q.endpoint = e := fun at_ => same (at_.symm.trans endpoint)
        simp only [filed, elsewhere, false_and, and_false, false_or]
        exact ⟨fun waits => ⟨fun same => absent n (same ▸ waits), waits⟩, And.right⟩
  | @sent c₀ call p found sending here =>
      have open_ : ¬ call.Returned := by
        rintro ⟨result, same⟩
        exact absurd (sending.symm.trans same) (by simp)
      have waits : Waits (w.setCall c₀ { call with phase := .waiting }) e n c ↔ Waits w e n c :=
        waits_kept found (by rfl) open_ (by rintro ⟨result, ⟨⟩⟩) (by rfl) e n c
      obtain ⟨p₀, here₀, pending⟩ := pending_setEnd here' here rfl
      rw [pending, sound.filed e p₀ n c here₀]
      exact waits.symm
  | @stalled c₀ call phase found open_ still =>
      rw [waits_kept found (by rfl) open_ (by rintro ⟨result, same⟩; exact still result same)
          (by rfl)]
      exact sound.filed e p' n c here'
  | @served e₀ p remote i frame rest req thread here there =>
      obtain ⟨p₁, here₁, pending₁⟩ := pending_setEnd (p := p) here'
        (by simpa [(other_ne e₀).symm] using here) rfl
      obtain ⟨p₀, here₀, pending₀⟩ := pending_setEnd here₁ there rfl
      rw [pending₁, pending₀]
      exact sound.filed e p₀ n c here₀
  | @completed e₀ p remote frame rest resp c₀ call here there arrived answers waits found open_ =>
      refine Iff.trans ?_ (waits_gone (fun empty => by cases empty) e n c).symm
      change _ ↔ _ ∧ Waits w e n c
      obtain ⟨call', found', rfl, number, -⟩ := (sound.filed e₀ p frame.id c₀ here).mp waits
      obtain rfl := Option.some.inj (found.symm.trans found')
      by_cases same : e = call.asked.endpoint
      · subst same
        obtain rfl : _ = p' := by simpa using here'
        have filed := sound.filed _ p n c here
        by_cases at_ : n = frame.id
        · subst at_
          rw [waits] at filed
          simp [← filed, eq_comm]
        · dsimp only
          rw [Function.update_of_ne at_, filed]
          exact waits_other found (fun _ number' => absurd (number'.symm.trans number) at_) c
      · have elsewhere :
            (w.setEnd call.asked.endpoint.other { remote with sink := rest }).ends e = some p' := by
          simpa [same] using here'
        obtain ⟨p₀, here₀, pending⟩ := pending_setEnd elsewhere there rfl
        rw [pending, sound.filed e p₀ n c here₀]
        exact waits_other found (fun at_ => absurd at_.symm same) c
  | @drained e₀ p here open_ =>
      by_cases same : e = e₀
      · subst same
        obtain rfl : _ = p' := by simpa using here'
        refine iff_of_false (by simp) ?_
        rintro ⟨call', found', at_, number, still, empty⟩
        obtain ⟨call, found, rfl⟩ := Option.map_eq_some_iff.mp found'
        split at empty
        · cases empty
        · next other =>
            simp only [other, if_false] at at_ number still
            have filed := (sound.filed e p n c here).mpr ⟨call, found, at_, number, still, empty⟩
            exact other ⟨at_, number ▸ filed⟩
      · have before : w.ends e = some p' := by simpa [same] using here'
        rw [sound.filed e p' n c before]
        constructor
        · rintro ⟨call, found, at_, rest⟩
          have other : ¬ (call.asked.endpoint = e₀ ∧ p.pending call.asked.corr = some c) :=
            fun both => same (at_.symm.trans both.1)
          exact ⟨call, by simp [found, other], at_, rest⟩
        · rintro ⟨call', found', at_, rest⟩
          obtain ⟨call, found, rfl⟩ := Option.map_eq_some_iff.mp found'
          have other : ¬ (call.asked.endpoint = e₀ ∧ p.pending call.asked.corr = some c) := by
            rintro ⟨here₀, waits⟩
            simp only [here₀, waits, and_self, if_true] at at_
            exact same at_.symm
          simp only [other, if_false] at at_ rest
          exact ⟨call, found, at_, rest⟩
  | @resumed c₀ call result found open_ told resolved =>
      rw [waits_gone (fun _ => ⟨result, rfl⟩), sound.filed e p' n c here']
      exact waits_other found (fun _ _ => resolved) c
  | @forgot c₀ call p outcome found open_ here =>
      refine Iff.trans ?_ (waits_gone (fun _ => ⟨_, rfl⟩) e n c).symm
      change _ ↔ _ ∧ Waits w e n c
      by_cases same : e = call.asked.endpoint
      · subst same
        obtain rfl : _ = p' := by simpa using here'
        by_cases at_ : n = call.asked.corr
        · subst at_
          refine iff_of_false (by simp) ?_
          rintro ⟨other, call', found', endpoint, number, -⟩
          exact other (sound.unique fits found found' endpoint number)
        · dsimp only
          rw [Function.update_of_ne at_, sound.filed _ p n c here]
          exact waits_other found (fun _ number => absurd number.symm at_) c
      · rw [sound.filed e p' n c (by simpa [same] using here')]
        exact waits_other found (fun at_ => absurd at_.symm same) c

/-! ### Frames -/

theorem queued_of_did (did : Did w w') {e : EndId} {p' : Endpoint ι} (here' : w'.ends e = some p')
    {m : SessionMessage} (member : m ∈ p'.toRemote) :
    (∃ p, w.ends e = some p ∧ m ∈ p.toRemote) ∨ Asks w' e m := by
  cases did with
  | quiet calls corrIds ends =>
      have moved := ends e
      rw [here'] at moved
      generalize before : w.ends e = p at moved
      cases moved with
      | new _ _ unsent => simp [unsent] at member
      | kept _ _ queued => exact .inl ⟨_, rfl, queued m member⟩
  | called q fresh here =>
      rcases end_of_setEnd here' with ⟨rfl, rfl⟩ | ⟨-, before⟩
      · exact .inl ⟨_, here, member⟩
      · exact .inl ⟨p', before, member⟩
  | @sent c call p found sending here =>
      rcases end_of_setEnd here' with ⟨rfl, rfl⟩ | ⟨-, before⟩
      · rcases List.mem_append.mp member with old | new
        · exact .inl ⟨p, here, old⟩
        · obtain rfl := List.mem_singleton.mp new
          exact .inr ⟨c, { call with phase := .waiting }, by simp, rfl, rfl⟩
      · exact .inl ⟨p', before, member⟩
  | stalled => exact .inl ⟨p', here', member⟩
  | served here there =>
      rcases end_of_setEnd here' with ⟨rfl, rfl⟩ | ⟨-, between⟩
      · exact .inl ⟨_, here, member⟩
      · rcases end_of_setEnd between with ⟨rfl, rfl⟩ | ⟨-, before⟩
        · exact .inl ⟨_, there, member⟩
        · exact .inl ⟨p', before, member⟩
  | completed here there =>
      rcases end_of_setEnd here' with ⟨rfl, rfl⟩ | ⟨-, between⟩
      · exact .inl ⟨_, here, member⟩
      · rcases end_of_setEnd between with ⟨rfl, rfl⟩ | ⟨-, before⟩
        · exact .inl ⟨_, there, member⟩
        · exact .inl ⟨p', before, member⟩
  | drained here =>
      rcases end_of_setEnd here' with ⟨rfl, rfl⟩ | ⟨-, before⟩
      · exact .inl ⟨_, here, member⟩
      · exact .inl ⟨p', before, member⟩
  | resumed => exact .inl ⟨p', here', member⟩
  | forgot found open_ here =>
      rcases end_of_setEnd here' with ⟨rfl, rfl⟩ | ⟨-, before⟩
      · exact .inl ⟨_, here, member⟩
      · exact .inl ⟨p', before, member⟩

/-- A frame on its way from an indexer. -/
theorem sent_of_did (did : Did w w') {e : EndId} {p' : Endpoint ι} (here' : w'.ends e = some p')
    (owned : p'.owner ≠ none) {m : SessionMessage} (member : m ∈ p'.sink) :
    (∃ p, w.ends e = some p ∧ p.owner ≠ none ∧ (m ∈ p.sink ∨ m ∈ p.toRemote)) ∨
      (∃ h, m.body = some (.hello h)) ∨
      ∃ p i remote frame req thread, w.ends e = some p ∧ p.owner = some i ∧
        w.ends e.other = some remote ∧ frame ∈ remote.sink ∧ frame.body = some (.slotRequest req) ∧
        threadFromPb req.thread = .ok thread ∧ m = ⟨frame.id, some (.slotResponse
          (buildFinalSlotResponse (w.db i) ⟨req.period, thread⟩ (req.parts.getD {})))⟩ := by
  have kept : ∀ {p}, w.ends e = some p → p.owner ≠ none → m ∈ p.sink →
      ∃ p, w.ends e = some p ∧ p.owner ≠ none ∧ (m ∈ p.sink ∨ m ∈ p.toRemote) :=
    fun here owned member => ⟨_, here, owned, .inl member⟩
  cases did with
  | quiet calls corrIds ends =>
      have moved := ends e
      rw [here'] at moved
      generalize before : w.ends e = p at moved
      cases moved with
      | new _ _ _ greeting => exact .inr (.inl (greeting m member))
      | kept owner _ _ sent =>
          rw [owner] at owned
          rcases sent m member with queued | old | unowned
          · exact .inl ⟨_, rfl, owned, .inr queued⟩
          · exact .inl ⟨_, rfl, owned, .inl old⟩
          · exact absurd unowned owned
  | called q fresh here =>
      rcases end_of_setEnd here' with ⟨rfl, rfl⟩ | ⟨-, before⟩
      · exact .inl (kept here owned member)
      · exact .inl (kept before owned member)
  | sent found sending here =>
      rcases end_of_setEnd here' with ⟨rfl, rfl⟩ | ⟨-, before⟩
      · exact .inl (kept here owned member)
      · exact .inl (kept before owned member)
  | stalled => exact .inl (kept here' owned member)
  | @served e₀ p remote i frame rest req thread here there owner arrived asks named =>
      rcases end_of_setEnd here' with ⟨rfl, rfl⟩ | ⟨-, between⟩
      · rcases List.mem_append.mp member with old | new
        · exact .inl (kept here owned old)
        · obtain rfl := List.mem_singleton.mp new
          exact .inr (.inr ⟨p, i, remote, frame, req, thread, here, owner, there,
            arrived ▸ List.mem_cons_self, asks, named, rfl⟩)
      · rcases end_of_setEnd between with ⟨rfl, rfl⟩ | ⟨-, before⟩
        · exact .inl (kept there owned (arrived ▸ List.mem_cons_of_mem frame member))
        · exact .inl (kept before owned member)
  | @completed e₀ p remote frame rest resp c call here there arrived =>
      rcases end_of_setEnd here' with ⟨rfl, rfl⟩ | ⟨-, between⟩
      · exact .inl (kept here owned member)
      · rcases end_of_setEnd between with ⟨rfl, rfl⟩ | ⟨-, before⟩
        · exact .inl (kept there owned (arrived ▸ List.mem_cons_of_mem frame member))
        · exact .inl (kept before owned member)
  | drained here =>
      rcases end_of_setEnd here' with ⟨rfl, rfl⟩ | ⟨-, before⟩
      · exact .inl (kept here owned member)
      · exact .inl (kept before owned member)
  | resumed => exact .inl (kept here' owned member)
  | forgot found open_ here =>
      rcases end_of_setEnd here' with ⟨rfl, rfl⟩ | ⟨-, before⟩
      · exact .inl (kept here owned member)
      · exact .inl (kept before owned member)

theorem Sound.queued_step (sound : Sound Read w) (did : Did w w') (e : EndId) (p' : Endpoint ι)
    (here' : w'.ends e = some p') (m : SessionMessage) (member : m ∈ p'.toRemote) : Asks w' e m := by
  rcases queued_of_did did here' member with ⟨p, here, old⟩ | asks
  · exact (sound.queued e p here m old).grown (grown_of_did did)
  · exact asks

theorem Sound.requests_step (sound : Sound Read w) (did : Did w w') (e : EndId) (p' : Endpoint ι)
    (here' : w'.ends e = some p') (owned : p'.owner ≠ none) (m : SessionMessage)
        (member : m ∈ p'.sink)
    (req : FinalSlotRequest) (asks : m.body = some (.slotRequest req)) : Asks w' e m := by
  rcases sent_of_did did here' owned member with
    ⟨p, here, owned, sent | queued⟩ | ⟨h, greets⟩ |
      ⟨p, i, remote, frame, _, thread, -, -, -, -, -, -, rfl⟩
  · exact (sound.requests e p here owned m sent req asks).grown (grown_of_did did)
  · exact (sound.queued e p here m queued).grown (grown_of_did did)
  · exact absurd (greets.symm.trans asks) (by simp)
  · exact absurd asks (by simp)

theorem Sound.responses_step (sound : Sound Read w) (did : Did w w')
    (now : ∀ j c q resp, ReadNow w j c q resp → Read j c q resp) (e : EndId) (p' : Endpoint ι)
    (here' : w'.ends e = some p') (owned : p'.owner ≠ none) (m : SessionMessage)
        (member : m ∈ p'.sink)
    (resp : FinalSlotResponse) (answers : m.body = some (.slotResponse resp)) :
    ∃ q, w'.ends e.other = some q ∧ (q.owner ≠ none →
      ∃ c call, w'.calls c = some call ∧ call.asked.endpoint = e.other ∧ m.id = call.asked.corr ∧
        (¬ call.Returned → Known Read w' c call.asked resp)) := by
  have grown := grown_of_did did
  -- what is known of the end that asks stays known
  have later : ∀ {q : Endpoint ι} {n : UInt64} {r : FinalSlotResponse}, w.ends e.other = some q →
      (q.owner ≠ none → ∃ c call, w.calls c = some call ∧ call.asked.endpoint = e.other ∧
        n = call.asked.corr ∧ (¬ call.Returned → Known Read w c call.asked r)) →
      ∃ q, w'.ends e.other = some q ∧ (q.owner ≠ none →
        ∃ c call, w'.calls c = some call ∧ call.asked.endpoint = e.other ∧ n = call.asked.corr ∧
          (¬ call.Returned → Known Read w' c call.asked r)) := by
    intro q n r there known
    obtain ⟨q', there', owner'⟩ := grown.ends _ q there
    refine ⟨q', there', fun owned => ?_⟩
    obtain ⟨c, call, found, endpoint, number, read⟩ := known (owner' ▸ owned)
    obtain ⟨call', found', asked, -⟩ := grown.calls c call found
    rw [← asked] at endpoint number read
    exact ⟨c, call', found', endpoint, number, fun open_ =>
      (read (open_of_grown grown found found' open_)).grown grown⟩
  rcases sent_of_did did here' owned member with
    ⟨p, here, owned, sent | queued⟩ | ⟨h, greets⟩ |
      ⟨p, i, remote, frame, req, thread, here, owner, there, arrived, asks, named, rfl⟩
  · obtain ⟨q, there, known⟩ := sound.responses e p here owned m sent resp answers
    exact later there known
  · obtain ⟨c, call, -, -, rfl⟩ := sound.queued e p here m queued
    exact absurd answers (by simp [Asked.frame])
  · exact absurd (greets.symm.trans answers) (by simp)
  · obtain rfl : _ = resp := by simpa using answers
    exact later (n := frame.id) there fun owned =>
      known_of_request sound now here owner there owned arrived asks named

/-! ### Answers -/

/-- A frame on its way carries the response to the waiter of the call. -/
def Brings (w : Mesh ι) (c : Nat) (resp : FinalSlotResponse) : Prop :=
  ∃ e p remote frame, w.ends e = some p ∧ w.ends e.other = some remote ∧ frame ∈ remote.sink ∧
    frame.body = some (.slotResponse resp) ∧ p.pending frame.id = some c

/-- What an open call has heard it heard before, or a frame brings it. -/
theorem heard_of_did (did : Did w w') {c : Nat} {call' : Call} {resp : FinalSlotResponse}
    (found' : w'.calls c = some call') (open' : ¬ call'.Returned)
    (filled : call'.oneshot = .filled resp) :
    ∃ call, w.calls c = some call ∧ call'.asked = call.asked ∧ ¬ call.Returned ∧
      (call.oneshot = .filled resp ∨ Brings w c resp) := by
  have kept : ∀ {call}, w.calls c = some call → call'.asked = call.asked → ¬ call.Returned →
      call.oneshot = .filled resp → ∃ call, w.calls c = some call ∧ call'.asked = call.asked ∧
        ¬ call.Returned ∧ (call.oneshot = .filled resp ∨ Brings w c resp) :=
    fun found asked open_ filled => ⟨_, found, asked, open_, .inl filled⟩
  cases did with
  | quiet calls => exact kept (calls ▸ found') rfl open' filled
  | called q fresh =>
      rcases call_of_setCall found' with ⟨rfl, rfl⟩ | ⟨-, before⟩
      · cases filled
      · exact kept before rfl open' filled
  | sent found sending =>
      rcases call_of_setCall found' with ⟨rfl, rfl⟩ | ⟨-, before⟩
      · refine kept found rfl ?_ filled
        rintro ⟨result, same⟩
        exact absurd (sending.symm.trans same) (by simp)
      · exact kept before rfl open' filled
  | stalled found open_ =>
      rcases call_of_setCall found' with ⟨rfl, rfl⟩ | ⟨-, before⟩
      · exact kept found rfl open_ filled
      · exact kept before rfl open' filled
  | served => exact kept found' rfl open' filled
  | @completed e p remote frame rest resp' c₀ call here there arrived answers waits found open_ =>
      rcases call_of_setCall found' with ⟨rfl, rfl⟩ | ⟨-, before⟩
      · obtain rfl : resp' = resp := by simpa using filled
        exact ⟨call, found, rfl, open_, .inr ⟨e, p, remote, frame, here, there,
          arrived ▸ List.mem_cons_self, answers, waits⟩⟩
      · exact kept before rfl open' filled
  | drained here open_ =>
      obtain ⟨call, found, rfl⟩ := Option.map_eq_some_iff.mp found'
      split at filled
      · cases filled
      · next other =>
          simp only [other, if_false] at open' ⊢
          exact ⟨call, found, rfl, open', .inl filled⟩
  | resumed found =>
      rcases call_of_setCall found' with ⟨rfl, rfl⟩ | ⟨-, before⟩
      · exact absurd ⟨_, rfl⟩ open'
      · exact kept before rfl open' filled
  | forgot found =>
      rcases call_of_setCall found' with ⟨rfl, rfl⟩ | ⟨-, before⟩
      · exact absurd ⟨_, rfl⟩ open'
      · exact kept before rfl open' filled

theorem answered_of_did (did : Did w w') {c : Nat} {call' : Call} {resp : FinalSlotResponse}
    (found' : w'.calls c = some call') (done : call'.phase = .returned (.ok resp)) :
    ∃ call, w.calls c = some call ∧ call'.asked = call.asked ∧
      (call.phase = .returned (.ok resp) ∨ ¬ call.Returned ∧ call.oneshot = .filled resp) := by
  cases did with
  | quiet calls => exact ⟨call', calls ▸ found', rfl, .inl done⟩
  | called q fresh =>
      rcases call_of_setCall found' with ⟨rfl, rfl⟩ | ⟨-, before⟩
      · cases done
      · exact ⟨call', before, rfl, .inl done⟩
  | sent found =>
      rcases call_of_setCall found' with ⟨rfl, rfl⟩ | ⟨-, before⟩
      · cases done
      · exact ⟨call', before, rfl, .inl done⟩
  | stalled found open_ still =>
      rcases call_of_setCall found' with ⟨rfl, rfl⟩ | ⟨-, before⟩
      · exact absurd done (still _)
      · exact ⟨call', before, rfl, .inl done⟩
  | served => exact ⟨call', found', rfl, .inl done⟩
  | completed here there arrived answers waits found =>
      rcases call_of_setCall found' with ⟨rfl, rfl⟩ | ⟨-, before⟩
      · exact ⟨_, found, rfl, .inl done⟩
      · exact ⟨call', before, rfl, .inl done⟩
  | drained here open_ =>
      obtain ⟨call, found, rfl⟩ := Option.map_eq_some_iff.mp found'
      split at done
      · next both =>
          rw [if_pos both]
          exact ⟨call, found, rfl, .inl done⟩
      · next other =>
          rw [if_neg other]
          exact ⟨call, found, rfl, .inl done⟩
  | @resumed c₀ call result found open_ told =>
      rcases call_of_setCall found' with ⟨rfl, rfl⟩ | ⟨-, before⟩
      · obtain rfl : result = .ok resp := by simpa using done
        exact ⟨call, found, rfl, .inr ⟨open_, told resp rfl⟩⟩
      · exact ⟨call', before, rfl, .inl done⟩
  | forgot found =>
      rcases call_of_setCall found' with ⟨rfl, rfl⟩ | ⟨-, before⟩
      · simp at done
      · exact ⟨call', before, rfl, .inl done⟩

/-- What a call has heard, or that it is done, is not taken back. -/
theorem spoken_of_did (did : Did w w') {c : Nat} {call call' : Call} (found : w.calls c = some call)
    (spoken : call.Returned ∨ call.oneshot ≠ .empty) (found' : w'.calls c = some call') :
    call'.Returned ∨ call'.oneshot ≠ .empty := by
  have kept : w.calls c = some call' → call'.Returned ∨ call'.oneshot ≠ .empty := fun before =>
    Option.some.inj (found.symm.trans before) ▸ spoken
  have open_ : ∀ {other : Call}, w.calls c = some other → ¬ other.Returned →
      other.oneshot ≠ .empty := by
    intro other there open_
    obtain rfl := Option.some.inj (found.symm.trans there)
    exact spoken.resolve_left open_
  cases did with
  | quiet calls => exact kept (calls ▸ found')
  | called q fresh =>
      rcases call_of_setCall found' with ⟨rfl, -⟩ | ⟨-, before⟩
      · exact absurd (fresh.symm.trans found) (by simp)
      · exact kept before
  | sent there sending =>
      rcases call_of_setCall found' with ⟨rfl, rfl⟩ | ⟨-, before⟩
      · have unreturned : ¬ call.Returned := by
          obtain rfl := Option.some.inj (found.symm.trans there)
          rintro ⟨result, same⟩
          exact absurd (sending.symm.trans same) (by simp)
        obtain rfl := Option.some.inj (found.symm.trans there)
        have silent := open_ found unreturned
        exact .inr silent
      · exact kept before
  | stalled there unreturned =>
      rcases call_of_setCall found' with ⟨rfl, rfl⟩ | ⟨-, before⟩
      · have silent := open_ there unreturned
        exact .inr silent
      · exact kept before
  | served => exact kept found'
  | completed =>
      rcases call_of_setCall found' with ⟨rfl, rfl⟩ | ⟨-, before⟩
      · exact .inr (by simp)
      · exact kept before
  | drained =>
      obtain ⟨before, there, rfl⟩ := Option.map_eq_some_iff.mp found'
      obtain rfl := Option.some.inj (found.symm.trans there)
      split
      · exact .inr (by simp)
      · exact spoken
  | resumed =>
      rcases call_of_setCall found' with ⟨rfl, rfl⟩ | ⟨-, before⟩
      · exact .inl ⟨_, rfl⟩
      · exact kept before
  | forgot =>
      rcases call_of_setCall found' with ⟨rfl, rfl⟩ | ⟨-, before⟩
      · exact .inl ⟨_, rfl⟩
      · exact kept before

theorem Sound.step (sound : Sound Read w) (fits : Fits w)
    (now : ∀ j c q resp, ReadNow w j c q resp → Read j c q resp) (did : Did w w') :
        Sound Read w' where
  asker := sound.asker_step did
  distinct := sound.distinct_step did
  filed := sound.filed_step fits did
  queued := sound.queued_step did
  requests := sound.requests_step did
  responses := sound.responses_step did now
  heard c call' resp found' open' filled := by
    obtain ⟨call, found, asked, -,
      before | ⟨e, p, remote, frame, here, there, arrived, answers, waits⟩⟩ :=
      heard_of_did did found' open' filled
    · have open_ := open_of_grown (grown_of_did did) found found' open'
      exact asked ▸ (sound.heard c call resp found open_ before).grown (grown_of_did did)
    · exact asked ▸ (known_of_response sound fits here there arrived answers waits found).grown
        (grown_of_did did)
  answered c call' resp found' done := by
    obtain ⟨call, found, asked, before | ⟨open_, filled⟩⟩ := answered_of_did did found' done
    · exact asked ▸ (sound.answered c call resp found before).grown (grown_of_did did)
    · exact asked ▸ (sound.heard c call resp found open_ filled).grown (grown_of_did did)

end Steps

end MassaIndexer.Peer.SessionInvariant
