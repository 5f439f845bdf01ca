/-
# Repair.Interleaving -- the invariant along a run of passes and writer

Sending only moves a patch, a crash only loses patches; what needs an argument is the writer. It takes
the head of the lane, which fits the store, so every row stays under its number with its id. What the
other queued patches and the slots that are done rest on is left alone: nothing else is queued for the
slot, and the producers find there what they found before (`sameSource_apply`).
-/
import MassaIndexer.Repair.Additivity

namespace MassaIndexer.Repair.Interleaving

open MassaIndexer.Theory.Additive
open MassaIndexer.Data.Ids MassaIndexer.Data.Model MassaIndexer.Data.Proto
open MassaIndexer.Store.ColumnFamilies
open MassaIndexer.Writer.Shared MassaIndexer.Writer.Families MassaIndexer.Peer.Patch
open MassaIndexer.Repair.Producers MassaIndexer.Repair.Numbering MassaIndexer.Repair.Applied
open MassaIndexer.Repair.Passes MassaIndexer.Repair.Settling MassaIndexer.Repair.Additivity

set_option autoImplicit false

variable [Bs58Check] {passes : Passes} {w : World} {s : Slot}

/-! ## Queued patches -/

theorem missPatch_of_isMiss {q : Queued} (item : Item passes w q) (miss : q.resp.isMiss = true) :
    q.resp = missPatch q.slot := by
  cases item.kind with
  | miss same => exact same
  | rebuilt pass seen built distinct =>
      obtain ⟨blockId, opIds, -, same⟩ := reconstructSlot_some built
      rw [same] at miss
      exact absurd miss (by simp [transfersPatch])
  | listed pass seen light present => exact absurd (present.symm.trans miss) (by simp)
  | imported pass present => exact absurd (present.symm.trans miss) (by simp)

theorem decodedTransfers_of_isMiss {q : Queued} (item : Item passes w q)
    (miss : q.resp.isMiss = true) : decodedTransfers q.resp = [] := by
  rw [missPatch_of_isMiss item miss]
  rfl

omit [Bs58Check] in
theorem status_of_eligible {db : Db} {pair : BlockId × List OperationId}
    (offers : eligibleAt db s = some pair) (nowMs : Int) : (rowAt db s nowMs).status = .final := by
  unfold eligibleAt at offers
  unfold rowAt
  cases found : db.readSlot s with
  | none =>
      rw [found] at offers
      exact absurd offers (by simp)
  | some row =>
      rw [found, Option.bind_some, eligible] at offers
      split at offers
      · exact absurd offers (by simp)
      · next guard =>
          by_contra open_
          exact guard (.inl open_)

/-- A queued patch keeps what it is in a world with the same store and marks. -/
theorem item_requeued {q : Queued} (item : Item passes w q) (drafts : List Draft)
    (lane : List Queued) : Item passes { w with drafts := drafts, lane := lane } q where
  about := item.about
  known := item.known
  slot := item.slot
  plain := item.plain
  fits := item.fits
  kind := by
    cases item.kind with
    | miss same => exact .miss same
    | rebuilt pass seen built distinct => exact .rebuilt pass seen built distinct
    | listed pass seen light present target free complete =>
        exact .listed pass seen light present target free complete
    | imported pass present block ahead => exact .imported pass present block ahead

theorem item_missPatch (pass : Pass) (s : Slot) : Item passes w ⟨pass, s, missPatch s⟩ where
  about := slotOf_thread rfl rfl
  known := rfl
  slot := fun _ member => absurd member List.not_mem_nil
  plain := fun _ member => absurd member List.not_mem_nil
  fits := ⟨fun _ member => absurd member List.not_mem_nil,
    fun _ member => absurd member List.not_mem_nil⟩
  kind := .miss rfl

/-! ## Sending -/

theorem inv_requeued {drafts : List Draft} {lane : List Queued} (inv : Inv passes w)
    (from_ : ∀ q ∈ drafts.filterMap Draft.patch? ++ lane,
      q ∈ w.pending ∨ q.resp = missPatch q.slot)
    (into : ∀ q ∈ w.pending, q ∈ drafts.filterMap Draft.patch? ++ lane)
    (count : ∀ u, (drafts.filterMap Draft.patch? ++ lane).countP (brings u) ≤
      w.pending.countP (brings u)) :
    Inv passes { w with drafts := drafts, lane := lane } where
  item q member := by
    rcases from_ q member with before | miss
    · exact item_requeued (inv.item q before) drafts lane
    · have item : Item passes { w with drafts := drafts, lane := lane }
          ⟨q.pass, q.slot, missPatch q.slot⟩ := item_missPatch q.pass q.slot
      rw [← miss] at item
      exact item
  alone u := (count u).trans (inv.alone u)
  once op p p' t t' holds holds' := by
    have back : ∀ {p t}, Holds { w with drafts := drafts, lane := lane } p t → Holds w p t := by
      rintro p t (stored | ⟨place, q, member, listed⟩)
      · exact .inl stored
      · rcases from_ q member with before | miss
        · exact .inr ⟨place, q, before, listed⟩
        · rw [miss] at listed
          exact absurd listed List.not_mem_nil
    exact inv.once op p p' t t' (back holds) (back holds')
  done pass u seen := by
    rcases inv.done pass u seen with ⟨q, queued, isOf⟩ | done
    · exact .inl ⟨q, into q queued, isOf⟩
    · exact .inr done

/-- A draft that is sent brings its slot no more than it did. -/
theorem inv_send (inv : Inv passes w) {i : Nat} {draft : Draft} (here : w.drafts[i]? = some draft) :
    Inv passes { w with
      drafts := w.drafts.eraseIdx i
      lane := w.lane ++ (draft.sent w.db).toList } := by
  obtain ⟨inside, rfl⟩ := List.getElem?_eq_some_iff.mp here
  have shuffled : (w.drafts[i] :: w.drafts.eraseIdx i).Perm w.drafts :=
    List.getElem_cons_eraseIdx_perm inside
  have patches := (shuffled.filterMap Draft.patch?).append_right w.lane
  generalize w.drafts[i] = draft at patches
  cases draft with
  | patch q =>
      have moved : ((w.drafts.eraseIdx i).filterMap Draft.patch? ++ (w.lane ++ [q])).Perm
          w.pending := by
        refine List.Perm.trans ?_ patches
        rw [List.filterMap_cons, ← List.append_assoc]
        exact List.perm_append_singleton q _
      exact inv_requeued inv (fun q' member => .inl (moved.mem_iff.mp member))
        (fun q' member => moved.mem_iff.mpr member) fun u => (moved.countP_eq _).le
  | empty s =>
      rw [List.filterMap_cons_none rfl] at patches
      have grown : (w.drafts.eraseIdx i).filterMap Draft.patch? ++
          (w.lane ++ (Draft.sent w.db (.empty s)).toList) =
          ((w.drafts.eraseIdx i).filterMap Draft.patch? ++ w.lane) ++
            (Draft.sent w.db (.empty s)).toList := (List.append_assoc _ _ _).symm
      have misses : ∀ q ∈ (Draft.sent w.db (.empty s)).toList, q.resp = missPatch q.slot := by
        intro q member
        rw [Draft.sent] at member
        split at member
        · exact absurd member (by simp)
        · obtain rfl : q = ⟨.oneShot, s, missPatch s⟩ := by simpa using member
          rfl
      refine inv_requeued inv (fun q member => ?_) (fun q member => ?_) fun u => ?_
      · rw [grown] at member
        rcases List.mem_append.mp member with before | miss
        · exact .inl (patches.mem_iff.mp before)
        · exact .inr (misses q miss)
      · rw [grown]
        exact List.mem_append_left _ (patches.mem_iff.mpr member)
      · have none : (Draft.sent w.db (.empty s)).toList.countP (brings u) = 0 := by
          refine List.countP_eq_zero.mpr fun q member brought => ?_
          rw [brings, misses q member] at brought
          simp [missPatch] at brought
        rw [grown, List.countP_append, patches.countP_eq, none, Nat.add_zero]
        exact Nat.le_refl _

/-! ## Crashing -/

omit [Bs58Check] in
theorem mark_of_mem_pending {q : Queued} (queued : q ∈ w.pending) :
    (q.pass, q.slot) ∈ w.drafts.map Draft.mark ++ w.lane.map fun q => (q.pass, q.slot) := by
  rcases List.mem_append.mp queued with drafted | sent
  · obtain ⟨draft, member, same⟩ := List.mem_filterMap.mp drafted
    refine List.mem_append_left _ (List.mem_map.mpr ⟨draft, member, ?_⟩)
    cases draft with
    | patch q' =>
        obtain rfl := Option.some.inj same
        rfl
    | empty s => exact absurd same (by simp [Draft.patch?])
  · exact List.mem_append_right _ (List.mem_map.mpr ⟨q, sent, rfl⟩)

theorem inv_crash (inv : Inv passes w) : Inv passes { w with
    drafts := []
    lane := []
    seen := w.seen.filter fun mark =>
      mark ∉ w.drafts.map Draft.mark ++ w.lane.map fun q => (q.pass, q.slot) } where
  item q member := absurd member List.not_mem_nil
  alone u := Nat.zero_le 1
  once op p p' t t' holds holds' := by
    rcases holds with stored | ⟨-, q, member, -⟩
    · rcases holds' with stored' | ⟨-, q, member, -⟩
      · exact inv.once op p p' t t' (.inl stored) (.inl stored')
      · exact absurd member List.not_mem_nil
    · exact absurd member List.not_mem_nil
  done pass u seen := by
    obtain ⟨before, kept⟩ := List.mem_filter.mp seen
    rcases inv.done pass u before with ⟨q, queued, isOf⟩ | done
    · refine absurd (mark_of_mem_pending queued) ?_
      rw [isOf.pass, isOf.slot]
      simpa using kept
    · exact .inr done

/-! ## Applying -/

section Apply

variable [DenunciationDigest] {q : Queued} {lane : List Queued} (inv : Inv passes w)
  (next : w.lane = q :: lane) (nowMs : Int)

omit [Bs58Check] [DenunciationDigest] in
include next in
theorem mem_pending_of_head {q' : Queued} : q' ∈ w.pending ↔
    q' = q ∨ q' ∈ ({ w with lane := lane } : World).pending := by
  unfold World.pending
  rw [next, List.mem_append, List.mem_append, List.mem_cons]
  tauto

omit [DenunciationDigest] in
include inv next in
/-- Nothing else is queued for the slot of the head, unless the head is a miss. -/
theorem isMiss_of_beside {q' : Queued} (present : q.resp.isMiss = false)
    (queued : q' ∈ ({ w with lane := lane } : World).pending) (same : q'.slot = q.slot) :
    q'.resp.isMiss = true := by
  have counted := inv.alone q.slot
  have apart : w.pending.countP (brings q.slot) =
      ({ w with lane := lane } : World).pending.countP (brings q.slot) + 1 := by
    have here : brings q.slot q = true := by simp [brings, present]
    unfold World.pending
    rw [next, List.countP_append, List.countP_append, List.countP_cons, if_pos here]
    dsimp only
    omega
  have none : ({ w with lane := lane } : World).pending.countP (brings q.slot) = 0 := by omega
  have quiet := List.countP_eq_zero.mp none q' queued
  rw [brings, same] at quiet
  simpa using quiet

variable (item : Item passes w q)

include item

theorem storedAt_item : storedAt (applied w.db q.resp nowMs) =
    fill placeOf (storedAt w.db) (decodedTransfers q.resp) := by
  rw [storedAt_apply item.about item.known, map_readBackTransfer item.plain]

/-- **Every row stays under its number with its id.** -/
theorem keeps_item {p : Place} {t : StoredTransfer} (found : storedAt w.db p = some t) :
    ∃ t', storedAt (applied w.db q.resp nowMs) p = some t' ∧ t'.id = t.id := by
  rw [storedAt_item nowMs item]
  exact item.fits.keeps found

theorem storedAt_item_other {p : Place} (other : p.1 ≠ q.slot ∨ q.resp.isMiss = true) :
    storedAt (applied w.db q.resp nowMs) p = storedAt w.db p := by
  rw [storedAt_item nowMs item]
  rcases other with elsewhere | miss
  · refine fill_of_forall_ne fun t member same => elsewhere ?_
    rw [← same]
    exact item.slot t member
  · rw [decodedTransfers_of_isMiss item miss, fill_nil]

theorem keeps_listed {t : StoredTransfer} (member : t ∈ w.db.transfersForSlot s) :
    ∃ t' ∈ (applied w.db q.resp nowMs).transfersForSlot s, t'.id = t.id := by
  obtain ⟨t', found, id⟩ := keeps_item nowMs item (mem_transfersForSlot.mp member)
  have number : t'.indexInSlot = t.indexInSlot := congrArg Prod.snd (placeOf_of_storedAt found)
  exact ⟨t', mem_transfersForSlot.mpr (number ▸ found), id⟩

/-- The producers find the same where a repair pass has been. -/
theorem sameSource_item {u : Slot} (repaired : Repaired w u) :
    SameSource w.db (applied w.db q.resp nowMs) u := by
  cases item.kind with
  | miss same =>
      refine sameSource_of_light item.about item.known nowMs ?_ (.inl ?_) u
      · exact light_of_blank (by rw [same]; rfl) (by rw [same]; rfl)
      · rw [same]
        rfl
  | rebuilt pass seen built distinct =>
      obtain ⟨blockId, opIds, offers, same⟩ := reconstructSlot_some built
      refine sameSource_of_light item.about item.known nowMs ?_ (.inr ?_) u
      · exact light_of_blank (by rw [same]; rfl) (by rw [same]; rfl)
      · exact status_of_eligible offers nowMs
  | listed pass seen light present target free complete =>
      refine sameSource_of_light item.about item.known nowMs light (.inr ?_) u
      rw [subTransfersTarget_eq] at target
      obtain ⟨found, built⟩ := Option.isSome_iff_exists.mp target
      obtain ⟨pair, offers, -⟩ := Option.bind_eq_some_iff.mp built
      exact status_of_eligible offers nowMs
  | imported pass present block ahead =>
      exact sameSource_of_unconcerned item.about item.known nowMs (ahead u repaired)

/-- What a patch was built for is done once it is applied. -/
theorem done_item {pass : Pass} (isOf : IsOf pass s q) :
    Done passes (applied w.db q.resp nowMs) pass s := by
  obtain ⟨rfl, rfl, present⟩ := isOf
  cases item.kind with
  | miss same =>
      rw [same] at present
      exact absurd present (by simp [missPatch])
  | rebuilt pass seen built distinct =>
      rw [pass]
      have source := sameSource_item nowMs item (.inl seen)
      obtain ⟨blockId, opIds, offers, same⟩ := reconstructSlot_some built
      have decoded : decodedTransfers q.resp =
          reconstructed w.db passes.reconstruct q.slot blockId opIds := by
        rw [same]
        refine decodedTransfers_plain _ rfl fun t member => .inl ?_
        obtain ⟨n, op, -, made⟩ := mem_transactionRows member
        exact (movementOf_of_made made).origin
      intro blockId' opIds' offers' t member
      rw [source.eligible, offers] at offers'
      obtain ⟨rfl, rfl⟩ := Prod.mk.inj (Option.some.inj offers')
      rw [reconstructed_same source offers, ← decoded] at member
      rw [storedAt_item nowMs item]
      exact fill_of_mem member (distinct t member)
  | listed pass seen light present target free complete =>
      rw [pass]
      intro isTarget hash listed
      rcases complete hash listed with ⟨t, stored, rfl⟩ | ⟨t, shipped, rfl⟩
      · exact keeps_listed nowMs item stored
      · obtain ⟨t', found, id⟩ := item.fits.lands shipped
        rw [← storedAt_item nowMs item] at found
        have place : placeOf t' = (q.slot, t.indexInSlot) :=
          (placeOf_of_storedAt found).trans (Prod.ext (item.slot t shipped) rfl)
        refine ⟨t', mem_transfersForSlot.mpr ?_, id⟩
        rw [show t'.indexInSlot = t.indexInSlot from congrArg Prod.snd place,
          ← item.slot t shipped]
        exact found
  | imported pass present block ahead =>
      rw [pass]
      obtain ⟨body, delivered⟩ := block
      exact .inr (coveredAt_of_block item.about item.known nowMs delivered)

/-- What is done stays done. -/
theorem done_kept {pass : Pass} (seen : (pass, s) ∈ w.seen) (done : Done passes w.db pass s) :
    Done passes (applied w.db q.resp nowMs) pass s := by
  cases pass with
  | reconstructTransfers =>
      have source := sameSource_item nowMs item (.inl seen)
      by_cases other : s ≠ q.slot ∨ q.resp.isMiss = true
      · refine Rebuilt.kept done source fun p t here found => ?_
        rw [storedAt_item_other nowMs item (here.symm ▸ other)]
        exact found
      · obtain ⟨rfl, present⟩ : s = q.slot ∧ q.resp.isMiss = false := by
          simpa only [not_or, not_not, Bool.not_eq_true] using other
        cases item.kind with
        | miss same =>
            rw [same] at present
            exact absurd present (by simp [missPatch])
        | rebuilt pass _ built distinct => exact done_item nowMs item ⟨pass, rfl, present⟩
        | listed pass _ light _ target free complete =>
            refine Rebuilt.kept done source fun p t _ found => ?_
            rw [storedAt_item nowMs item, fill_of_forall_ne]
            · exact found
            · rintro r member rfl
              exact absurd ((free r member).symm.trans found) (by simp)
        | imported pass _ block ahead => exact absurd (.inl rfl) (ahead _ (.inl seen))
  | legacySubTransfers =>
      exact Listed.kept done (sameSource_item nowMs item (.inr seen)) fun t stored =>
        keeps_listed nowMs item stored
  | oneShot =>
      rcases done with none | covered
      · exact .inl none
      · exact .inr (coveredAt_apply item.about item.known nowMs covered)

omit item

include inv next

/-- The rows of the other queued patches meet what they met. -/
theorem storedAt_beside {q' : Queued} (queued : q' ∈ ({ w with lane := lane } : World).pending)
    {t : StoredTransfer} (member : t ∈ decodedTransfers q'.resp) :
    storedAt (applied w.db q.resp nowMs) (placeOf t) = storedAt w.db (placeOf t) := by
  have item := inv.item q ((mem_pending_of_head next).mpr (.inl rfl))
  have item' := inv.item q' ((mem_pending_of_head next).mpr (.inr queued))
  refine storedAt_item_other nowMs item ?_
  by_contra both
  obtain ⟨here, present⟩ := not_or.mp both
  have miss := isMiss_of_beside inv next (by simpa using present) queued
    ((item'.slot t member).symm.trans (not_not.mp here))
  rw [decodedTransfers_of_isMiss item' miss] at member
  exact absurd member List.not_mem_nil

theorem item_beside {q' : Queued} (queued : q' ∈ ({ w with lane := lane } : World).pending) :
    Item passes { w with db := applied w.db q.resp nowMs, lane := lane } q' := by
  have item := inv.item q ((mem_pending_of_head next).mpr (.inl rfl))
  have item' := inv.item q' ((mem_pending_of_head next).mpr (.inr queued))
  exact {
    about := item'.about
    known := item'.known
    slot := item'.slot
    plain := item'.plain
    fits := item'.fits.of_agree fun t member => storedAt_beside inv next nowMs queued member
    kind := by
      cases item'.kind with
      | miss same => exact .miss same
      | rebuilt pass seen built distinct =>
          refine .rebuilt pass seen ?_ distinct
          exact (reconstructSlot_same (sameSource_item nowMs item (.inl seen)) _).trans built
      | listed pass seen light present target free complete =>
          refine .listed pass seen light present ?_ ?_ ?_
          · exact (isSome_target_same (sameSource_item nowMs item (.inr seen))).trans target
          · intro t member
            exact (storedAt_beside inv next nowMs queued member).trans (free t member)
          · intro hash listed
            rcases complete hash listed with ⟨t, stored, rfl⟩ | shipped
            · exact .inl (keeps_listed nowMs item stored)
            · exact .inr shipped
      | imported pass present block ahead =>
          refine .imported pass present block fun u repaired => ?_
          rintro (here | ⟨id, listed, carried⟩)
          · exact ahead u repaired (.inl here)
          · refine ahead u repaired (.inr ⟨id, ?_, carried⟩)
            rw [← (sameSource_item nowMs item repaired).executed]
            exact listed }

/-- **The writer applies the head of the lane.** -/
theorem inv_apply : Inv passes { w with db := applied w.db q.resp nowMs, lane := lane } := by
  have item := inv.item q ((mem_pending_of_head next).mpr (.inl rfl))
  exact {
    item := fun q' queued => item_beside inv next nowMs queued
    alone := fun u => by
      refine Nat.le_trans ?_ (inv.alone u)
      unfold World.pending
      rw [next, List.countP_append, List.countP_append, List.countP_cons]
      dsimp only
      omega
    once := fun op p p' t t' holds holds' => by
      have back : ∀ {p t}, Holds { w with db := applied w.db q.resp nowMs, lane := lane } p t →
          Holds w p t := by
        rintro p t (stored | ⟨place, q', queued, member⟩)
        · change storedAt (applied w.db q.resp nowMs) p = some t at stored
          rw [storedAt_item nowMs item] at stored
          rcases mem_or_of_fill stored with ⟨shipped, place⟩ | ⟨before, -⟩
          · exact .inr ⟨place, q, (mem_pending_of_head next).mpr (.inl rfl), shipped⟩
          · exact .inl before
        · exact .inr ⟨place, q', (mem_pending_of_head next).mpr (.inr queued), member⟩
      exact inv.once op p p' t t' (back holds) (back holds')
    done := fun pass u seen => by
      rcases inv.done pass u seen with ⟨q', queued, isOf⟩ | done
      · rcases (mem_pending_of_head next).mp queued with rfl | beside
        · exact .inr (done_item nowMs item isOf)
        · exact .inl ⟨q', beside, isOf⟩
      · exact .inr (done_kept nowMs item seen done) }

end Apply

/-! ## Once all passes are through -/

/-- A queued patch that changes no transfer, and nothing a producer goes by. -/
structure Idle (w : World) (q : Queued) : Prop where
  about : slotOf q.resp = some q.slot
  known : q.resp.finalKnown = true
  light : Light q.resp
  inert : q.resp.isMiss = true ∨ (eligibleAt w.db q.slot).isSome
  plain : ∀ t ∈ decodedTransfers q.resp, Plain t
  stored : ∀ t ∈ decodedTransfers q.resp, storedAt w.db (placeOf t) = some t

/-- Every pass is done with every slot of its range. -/
structure Over (passes : Passes) (w : World) : Prop where
  done : ∀ pass s, passes.covers pass s = true → Done passes w.db pass s
  idle : ∀ q ∈ w.pending, Idle w q
  once : ∀ op p p' t t', storedAt w.db p = some t → storedAt w.db p' = some t' →
    IsMovement op t → IsMovement op t' → p = p'

theorem over_of_inv (inv : Inv passes w) (nothing : w.pending = [])
    (seen : ∀ pass s, passes.covers pass s = true → (pass, s) ∈ w.seen) (finished : Bool) :
    Over passes { w with finished := finished } where
  done pass s covered := by
    rcases inv.done pass s (seen pass s covered) with ⟨q, queued, -⟩ | done
    · rw [nothing] at queued
      exact absurd queued List.not_mem_nil
    · exact done
  idle q queued := by
    change q ∈ w.pending at queued
    rw [nothing] at queued
    exact absurd queued List.not_mem_nil
  once op p p' t t' stored stored' := inv.once op p p' t t' (.inl stored) (.inl stored')

theorem over_looked (still : Over passes w) {pass : Pass} {draft : Option Draft}
    (idle : ∀ q, draft = some (.patch q) → Idle w q) : Over passes (w.looked pass s draft) where
  done := still.done
  idle q queued := by
    have idle : Idle w q := (mem_pending_looked.mp queued).elim (still.idle q) (idle q)
    exact ⟨idle.about, idle.known, idle.light, idle.inert, idle.plain, idle.stored⟩
  once := still.once

theorem idle_reconstruct (still : Over passes w)
    (covered : passes.covers .reconstructTransfers s = true) {q : Queued}
    (built : builtBy .reconstructTransfers s (reconstructSlot w.db passes.reconstruct s) =
      some (.patch q)) : Idle w q := by
  obtain ⟨resp, made, same⟩ := Option.map_eq_some_iff.mp built
  obtain rfl := Draft.patch.inj same
  obtain ⟨blockId, opIds, offers, rfl⟩ := reconstructSlot_some made
  have plain : ∀ t ∈ reconstructed w.db passes.reconstruct s blockId opIds, Plain t := by
    intro t member
    obtain ⟨n, op, -, made⟩ := mem_transactionRows member
    exact .inl (movementOf_of_made made).origin
  have decoded : decodedTransfers (transfersPatch s blockId
      (reconstructed w.db passes.reconstruct s blockId opIds)) =
        reconstructed w.db passes.reconstruct s blockId opIds := decodedTransfers_plain _ rfl plain
  exact {
    about := slotOf_thread rfl rfl
    known := rfl
    light := light_of_blank rfl rfl
    inert := .inr (Option.isSome_iff_exists.mpr ⟨_, offers⟩)
    plain := fun t member => plain t (decoded ▸ member)
    stored := fun t member =>
      still.done .reconstructTransfers s covered blockId opIds offers t (decoded ▸ member) }

theorem over_send (still : Over passes w) {i : Nat} {draft : Draft}
    (here : w.drafts[i]? = some draft) : Over passes { w with
      drafts := w.drafts.eraseIdx i
      lane := w.lane ++ (draft.sent w.db).toList } where
  done := still.done
  idle q queued := by
    have idle : Idle w q := by
      rcases List.mem_append.mp queued with drafted | sent
      · obtain ⟨d, member, same⟩ := List.mem_filterMap.mp drafted
        exact still.idle q (List.mem_append_left _
          (List.mem_filterMap.mpr ⟨d, List.mem_of_mem_eraseIdx member, same⟩))
      · rcases List.mem_append.mp sent with before | new
        · exact still.idle q (List.mem_append_right _ before)
        · cases draft with
          | patch q' =>
              obtain rfl : q = q' := by simpa [Draft.sent] using new
              exact still.idle q (List.mem_append_left _
                (List.mem_filterMap.mpr ⟨_, List.mem_of_getElem? here, rfl⟩))
          | empty u =>
              rw [Draft.sent] at new
              split at new
              · exact absurd new (by simp)
              · obtain rfl : q = ⟨.oneShot, u, missPatch u⟩ := by simpa using new
                exact ⟨slotOf_thread rfl rfl, rfl, light_of_blank rfl rfl, .inl rfl,
                  fun _ member => absurd member List.not_mem_nil,
                  fun _ member => absurd member List.not_mem_nil⟩
    exact ⟨idle.about, idle.known, idle.light, idle.inert, idle.plain, idle.stored⟩
  once := still.once

section Apply

variable [DenunciationDigest] {q : Queued}

theorem storedAt_idle (idle : Idle w q) (nowMs : Int) :
    storedAt (applied w.db q.resp nowMs) = storedAt w.db := by
  rw [storedAt_apply idle.about idle.known, map_readBackTransfer idle.plain,
    fill_of_stored idle.stored]

theorem sameSource_idle (idle : Idle w q) (nowMs : Int) (u : Slot) :
    SameSource w.db (applied w.db q.resp nowMs) u := by
  refine sameSource_of_light idle.about idle.known nowMs idle.light (idle.inert.imp_right ?_) u
  intro offers
  obtain ⟨pair, found⟩ := Option.isSome_iff_exists.mp offers
  exact status_of_eligible found nowMs

theorem over_apply (still : Over passes w) {lane : List Queued} (next : w.lane = q :: lane)
    (nowMs : Int) : Over passes { w with db := applied w.db q.resp nowMs, lane := lane } := by
  have idle := still.idle q ((mem_pending_of_head next).mpr (.inl rfl))
  have same := storedAt_idle idle nowMs
  exact {
    done := fun pass s covered => by
      have source := sameSource_idle idle nowMs s
      have done := still.done pass s covered
      cases pass with
      | reconstructTransfers =>
          refine Rebuilt.kept done source fun p t _ found => ?_
          rw [same]
          exact found
      | legacySubTransfers =>
          refine Listed.kept done source fun t stored => ⟨t, ?_, rfl⟩
          rw [mem_transfersForSlot, same]
          exact mem_transfersForSlot.mp stored
      | oneShot => exact Or.imp_right (coveredAt_apply idle.about idle.known nowMs) done
    idle := fun q' queued => by
      have idle' := still.idle q' ((mem_pending_of_head next).mpr (.inr queued))
      refine ⟨idle'.about, idle'.known, idle'.light, ?_, idle'.plain, ?_⟩
      · rw [(sameSource_idle idle nowMs q'.slot).eligible]
        exact idle'.inert
      · dsimp only
        rw [same]
        exact idle'.stored
    once := by
      dsimp only
      rw [same]
      exact still.once }

end Apply

/-! ## Runs -/

/-- Before the passes are through the invariant holds, and then there is nothing new to ship. -/
def Sane (passes : Passes) (w : World) : Prop :=
  (w.finished = false ∧ Inv passes w) ∨ (w.finished = true ∧ Over passes w)

variable [DenunciationDigest]

theorem inv_next (inv : Inv passes w) (unfinished : w.finished = false) {act : Act}
    (sound : Sound passes w act) : Sane passes (w.next passes act) := by
  have sound := sound.resolve_left (by rw [unfinished]; simp)
  cases act with
  | reconstruct s =>
      refine .inl ?_
      dsimp only [World.next]
      split
      · exact ⟨unfinished, inv.reconstruct sound.1 sound.2⟩
      · exact ⟨unfinished, inv⟩
  | subTransfers s =>
      refine .inl ?_
      dsimp only [World.next]
      split
      · exact ⟨unfinished, inv.subTransfers sound.1 sound.2⟩
      · exact ⟨unfinished, inv⟩
  | lookUp s nowMs =>
      refine .inl ?_
      dsimp only [World.next]
      split
      · exact ⟨unfinished, inv.lookUp nowMs sound⟩
      · exact ⟨unfinished, inv⟩
  | send i =>
      refine .inl ?_
      dsimp only [World.next]
      cases here : w.drafts[i]? with
      | none => exact ⟨unfinished, inv⟩
      | some draft => exact ⟨unfinished, inv_send inv here⟩
  | apply nowMs =>
      refine .inl ?_
      dsimp only [World.next]
      cases next : w.lane with
      | nil => exact ⟨unfinished, inv⟩
      | cons q lane => exact ⟨unfinished, inv_apply inv next nowMs⟩
  | crash => exact .inl ⟨unfinished, inv_crash inv⟩
  | finish =>
      dsimp only [World.next]
      split
      · next idle =>
          rw [Bool.and_eq_true, List.isEmpty_iff, List.isEmpty_iff] at idle
          refine .inr ⟨rfl, over_of_inv inv ?_ sound true⟩
          rw [World.pending, idle.1, idle.2]
          rfl
      · exact .inl ⟨unfinished, inv⟩

theorem over_next (still : Over passes w) (finished : w.finished = true) (act : Act) :
    Over passes (w.next passes act) := by
  cases act with
  | reconstruct s =>
      dsimp only [World.next]
      split
      · next covered => exact over_looked still fun q built => idle_reconstruct still covered built
      · exact still
  | subTransfers s =>
      dsimp only [World.next]
      split
      · next covered =>
          rw [subTransfersPatch_of_listed (still.done .legacySubTransfers s covered)]
          exact over_looked still fun q built => absurd built (by simp [builtBy])
      · exact still
  | lookUp s nowMs =>
      dsimp only [World.next]
      split
      · next covered =>
          refine over_looked still fun q built => ?_
          unfold lookedUp at built
          rcases still.done .oneShot s covered with none | done
          · rw [none] at built
            split at built <;> exact absurd built (by simp)
          · rw [if_pos done] at built
            exact absurd built (by simp)
      · exact still
  | send i =>
      dsimp only [World.next]
      cases here : w.drafts[i]? with
      | none => exact still
      | some draft => exact over_send still here
  | apply nowMs =>
      dsimp only [World.next]
      cases next : w.lane with
      | nil => exact still
      | cons q lane => exact over_apply still next nowMs
  | crash => exact ⟨still.done, fun q queued => absurd queued List.not_mem_nil, still.once⟩
  | finish =>
      dsimp only [World.next]
      split
      · exact ⟨still.done, fun q queued => by
          have idle := still.idle q queued
          exact ⟨idle.about, idle.known, idle.light, idle.inert, idle.plain, idle.stored⟩, still.once⟩
      · exact still

theorem finished_next (finished : w.finished = true) (act : Act) :
    (w.next passes act).finished = true := by
  cases act with
  | reconstruct s => dsimp only [World.next]; split <;> exact finished
  | subTransfers s => dsimp only [World.next]; split <;> exact finished
  | lookUp s nowMs => dsimp only [World.next]; split <;> exact finished
  | send i => dsimp only [World.next]; split <;> exact finished
  | apply nowMs => dsimp only [World.next]; split <;> exact finished
  | crash => exact finished
  | finish =>
      dsimp only [World.next]
      split
      · rfl
      · exact finished

/-- **One step.** -/
theorem sane_next (act : Act) (sane : Sane passes w) (sound : Sound passes w act) :
    Sane passes (w.next passes act) := by
  rcases sane with ⟨unfinished, inv⟩ | ⟨finished, still⟩
  · exact inv_next inv unfinished sound
  · exact .inr ⟨finished_next finished act, over_next still finished act⟩

end MassaIndexer.Repair.Interleaving
