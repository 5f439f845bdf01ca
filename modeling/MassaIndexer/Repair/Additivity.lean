/-
# Repair.Additivity -- what keeps the repair passes out of each other's way

A patch is built from the store as it is then and applied later, after whatever was queued before it.
`Sound` is the condition on the steps: a producer looks at a slot only when nothing queued would change
what it finds there, and the numbers it is about to give are free or hold what it will write. The
invariant (`Inv`) then says of every queued patch that it fits the store and of every slot a pass is
done with that it stays done; once all passes are through (`Over`) there is nothing new to ship.
-/
import MassaIndexer.Repair.Settling

namespace MassaIndexer.Repair.Additivity

open MassaIndexer.Theory.Additive
open MassaIndexer.Data.Ids MassaIndexer.Data.Model MassaIndexer.Data.Proto MassaIndexer.Data.Codec
open MassaIndexer.Data.RowCodec MassaIndexer.Store.ColumnFamilies
open MassaIndexer.Writer.Shared MassaIndexer.Writer.Families MassaIndexer.Peer.Patch
open MassaIndexer.Repair.Producers MassaIndexer.Repair.Numbering MassaIndexer.Repair.Applied
open MassaIndexer.Repair.Passes MassaIndexer.Repair.Settling

set_option autoImplicit false

variable [Bs58Check]

/-! ## Movements -/

/-- The movement of coins that an operation is. -/
def IsMovement (op : String) (t : StoredTransfer) : Prop :=
  t.origin = .opTransactionCoins ∧ t.operationId = some op

/-- A row that is stored at a place, or queued for it. -/
def Holds (w : World) (p : Place) (t : StoredTransfer) : Prop :=
  storedAt w.db p = some t ∨ (placeOf t = p ∧ ∃ q ∈ w.pending, t ∈ decodedTransfers q.resp)

/-! ## The condition on a step -/

/-- Nothing queued brings the slot, or an operation executed in it, anything. -/
def Fresh (w : World) (s : Slot) : Prop :=
  ∀ q ∈ w.pending, q.resp.isMiss = false → ¬ Concerned w.db q.slot (carriedOps q.resp) s

/-- The numbers are free in the slot or hold the operation's own row, the operation has no other
movement, and neither numbers nor operations repeat. -/
structure Free (w : World) (s : Slot) (numbered : Numbered) : Prop where
  number : ∀ n op, (n, op) ∈ numbered → ∀ t, storedAt w.db (s, n) = some t →
    t.id = transactionTransferId op.id n
  movement : ∀ n op, (n, op) ∈ numbered → ∀ p t, Holds w p t → IsMovement op.id.text t → p = (s, n)
  apart : ∀ x ∈ numbered, ∀ y ∈ numbered, x.1 = y.1 ∨ x.2.id = y.2.id → x.1 = y.1 ∧ x.2.id = y.2.id

/-- There are `count` numbers left after those of the slot. -/
def Room (db : Db) (s : Slot) (count : Nat) : Prop :=
  count < 2 ^ 32 ∧ ∀ t ∈ db.transfersForSlot s, t.indexInSlot.toNat + 1 + count < 2 ^ 32

/-- A repair pass has dealt with the slot. -/
def Repaired (w : World) (s : Slot) : Prop :=
  (.reconstructTransfers, s) ∈ w.seen ∨ (.legacySubTransfers, s) ∈ w.seen

/-- An archived slot can be imported: its body encodes, nothing is queued for it, it has no transfers
yet, what it carries is nothing a repair pass has dealt with, and its numbers do not meet. -/
structure Importable (w : World) (s : Slot) (a : ArchivedSlot) : Prop where
  encodes : a.block.isSome
  quiet : ∀ q ∈ w.pending, q.slot = s → q.resp.isMiss = true
  bare : w.db.transfersForSlot s = []
  ahead : ∀ u, Repaired w u → ¬ Concerned w.db s (a.ops.map (·.stored.id)) u
  free : Free w s (importNumbers a)
  room : (importNumbers a).length + (movedHashes a.items).length < 2 ^ 32
  beside : ∀ n op, (n, op) ∈ importNumbers a → n.toNat < (importNumbers a).length ∨
    (importNumbers a).length + (movedHashes a.items).length ≤ n.toNat

/-- Until the passes are through, a producer looks at a slot only when its patch will fit; and they
are through only when each has dealt with every slot of its range. -/
def Sound (passes : Passes) (w : World) (act : Act) : Prop :=
  w.finished = true ∨
    match act with
    | .reconstruct s => Fresh w s ∧ ∀ blockId opIds, eligibleAt w.db s = some (blockId, opIds) →
        Free w s (reconstructionNumbers w.db opIds)
    | .subTransfers s => Fresh w s ∧ Room w.db s (movedHashes (passes.archive.items s)).length
    | .lookUp s _ => coveredAt w.db s = true ∨
        ∀ a, passes.archive.slot s = some a → Importable w s a
    | .finish => ∀ pass s, passes.covers pass s = true → (pass, s) ∈ w.seen
    | _ => True

/-! ## Batches that join a world -/

/-- The rows of a batch for a slot fit the store and repeat no movement. -/
structure Joins (w : World) (s : Slot) (rows : List StoredTransfer) : Prop where
  slot : ∀ t ∈ rows, t.slot = s
  plain : ∀ t ∈ rows, Plain t
  fits : Fits placeOf (·.id) (storedAt w.db) rows
  outer : ∀ t ∈ rows, ∀ op, IsMovement op t → ∀ p t', Holds w p t' → IsMovement op t' → p = placeOf t
  inner : ∀ t ∈ rows, ∀ t' ∈ rows, ∀ op, IsMovement op t → IsMovement op t' → placeOf t' = placeOf t

variable {w : World} {s : Slot} {passes : Passes}

theorem joins_transactions {numbered : Numbered} (free : Free w s numbered) (blockId : String)
    (ts : Int) : Joins w s (transactionRows s blockId ts numbered) where
  slot t member := by
    obtain ⟨n, op, -, made⟩ := mem_transactionRows member
    exact (movementOf_of_made made).slot
  plain t member := by
    obtain ⟨n, op, -, made⟩ := mem_transactionRows member
    exact .inl (movementOf_of_made made).origin
  fits := by
    refine ⟨fun t member r found => ?_, fun t member r member' same => ?_⟩
    · obtain ⟨n, op, listed, made⟩ := mem_transactionRows member
      have row := movementOf_of_made made
      have place : placeOf t = (s, n) := Prod.ext row.slot row.number
      rw [row.id]
      exact free.number n op listed r (place ▸ found)
    · obtain ⟨n, op, listed, made⟩ := mem_transactionRows member
      obtain ⟨n', op', listed', made'⟩ := mem_transactionRows member'
      have row := movementOf_of_made made
      have row' := movementOf_of_made made'
      have number : n' = n := row'.number.symm.trans ((congrArg Prod.snd same).trans row.number)
      obtain ⟨-, id⟩ := free.apart _ listed' _ listed (.inl number)
      rw [row.id, row'.id, number, id]
  outer t member op moves p t' holds moves' := by
    obtain ⟨n, op', listed, made⟩ := mem_transactionRows member
    have row := movementOf_of_made made
    obtain rfl : op'.id.text = op := Option.some.inj (row.operation.symm.trans moves.2)
    rw [free.movement n op' listed p t' holds moves']
    exact (Prod.ext row.slot row.number).symm
  inner t member t' member' op moves moves' := by
    obtain ⟨n, op₁, listed, made⟩ := mem_transactionRows member
    obtain ⟨n', op₂, listed', made'⟩ := mem_transactionRows member'
    have row := movementOf_of_made made
    have row' := movementOf_of_made made'
    have text : op₂.id.text = op₁.id.text := Option.some.inj <|
      (row'.operation.symm.trans moves'.2).trans (moves.2.symm.trans row.operation)
    obtain ⟨number, -⟩ := free.apart _ listed' _ listed (.inr (FamilyId.text_injective text))
    exact Prod.ext (row'.slot.trans row.slot.symm) (row'.number.trans (number.trans row.number.symm))

/-- Sub-transfers on free numbers, one after the other. -/
theorem joins_subTransfers (blockId : Option String) (ts : Int) (skipIds : List String)
    (items : List OperationsItem) (n : UInt32)
    (room : n.toNat + (movedHashes items).length < 2 ^ 32)
    (above : ∀ t ∈ w.db.transfersForSlot s, t.indexInSlot.toNat < n.toNat) :
    Joins w s (subTransferRows s blockId ts skipIds items n) ∧
      (∀ t ∈ subTransferRows s blockId ts skipIds items n, storedAt w.db (placeOf t) = none) ∧
      ∀ t ∈ subTransferRows s blockId ts skipIds items n, n.toNat ≤ t.indexInSlot.toNat ∧
        t.indexInSlot.toNat < n.toNat + (movedHashes items).length := by
  have numbered : ∀ i t, (subTransferRows s blockId ts skipIds items n)[i]? = some t →
      i < (movedHashes items).length ∧ t.indexInSlot.toNat = n.toNat + i := by
    intro i t found
    have inside : i < (movedHashes items).length :=
      (List.getElem?_eq_some_iff.mp found).1.trans_le (length_subTransferRows_le items n)
    exact ⟨inside, (subTransferOf_of_getElem found).2 (by omega)⟩
  have free : ∀ t ∈ subTransferRows s blockId ts skipIds items n,
      storedAt w.db (placeOf t) = none := by
    intro t member
    obtain ⟨i, found⟩ := List.mem_iff_getElem?.mp member
    obtain ⟨-, number⟩ := numbered i t found
    refine Option.eq_none_iff_forall_ne_some.mpr fun r stored => ?_
    have place := placeOf_of_storedAt stored
    have own := (subTransferOf_of_mem member).slot
    have there : r ∈ w.db.transfersForSlot s := by
      rw [mem_transfersForSlot, ← own, show r.indexInSlot = t.indexInSlot from congrArg Prod.snd place]
      exact stored
    have below := above r there
    rw [show r.indexInSlot = t.indexInSlot from congrArg Prod.snd place] at below
    omega
  refine ⟨?_, free, fun t member => ?_⟩
  · have still : ∀ t ∈ subTransferRows s blockId ts skipIds items n, ∀ op, ¬ IsMovement op t := by
      rintro t member op ⟨origin, -⟩
      exact absurd ((subTransferOf_of_mem member).origin.symm.trans origin) (by simp)
    exact {
      slot := fun t member => (subTransferOf_of_mem member).slot
      plain := fun t member => .inr (subTransferOf_of_mem member).origin
      fits := {
        stored := fun t member r found => absurd ((free t member).symm.trans found) (by simp)
        apart := fun t member r member' same => by
          obtain ⟨i, found⟩ := List.mem_iff_getElem?.mp member
          obtain ⟨j, found'⟩ := List.mem_iff_getElem?.mp member'
          have number : r.indexInSlot = t.indexInSlot := congrArg Prod.snd same
          have position : j = i := by
            have left := (numbered j r found').2
            have right := (numbered i t found).2
            rw [number] at left
            omega
          subst position
          rw [Option.some.inj (found'.symm.trans found)] }
      outer := fun t member op moves => absurd moves (still t member op)
      inner := fun t member t' _ op moves => absurd moves (still t member op) }
  · obtain ⟨i, found⟩ := List.mem_iff_getElem?.mp member
    obtain ⟨inside, number⟩ := numbered i t found
    omega

/-- Two batches for one slot that do not meet. -/
theorem Joins.append {rows more : List StoredTransfer} (first : Joins w s rows)
    (second : Joins w s more) (apart : ∀ t ∈ rows, ∀ r ∈ more, placeOf t ≠ placeOf r)
    (still : ∀ t ∈ more, ∀ op, ¬ IsMovement op t) : Joins w s (rows ++ more) where
  slot t member := (List.mem_append.mp member).elim (first.slot t) (second.slot t)
  plain t member := (List.mem_append.mp member).elim (first.plain t) (second.plain t)
  fits := by
    refine ⟨fun t member => (List.mem_append.mp member).elim (first.fits.stored t)
      (second.fits.stored t), fun t member r member' same => ?_⟩
    rcases List.mem_append.mp member with here | here <;>
      rcases List.mem_append.mp member' with there | there
    · exact first.fits.apart t here r there same
    · exact absurd same.symm (apart t here r there)
    · exact absurd same (apart r there t here)
    · exact second.fits.apart t here r there same
  outer t member op moves := (List.mem_append.mp member).elim
    (fun here => first.outer t here op moves) fun here => absurd moves (still t here op)
  inner t member t' member' op moves moves' := by
    rcases List.mem_append.mp member with here | here
    · rcases List.mem_append.mp member' with there | there
      · exact first.inner t here t' there op moves moves'
      · exact absurd moves' (still t' there op)
    · exact absurd moves (still t here op)

/-! ## The invariant -/

/-- A queued patch that brings the slot something. -/
def brings (s : Slot) (q : Queued) : Bool := q.slot = s && !q.resp.isMiss

/-- The patch of a pass for a slot, not a miss. -/
structure IsOf (pass : Pass) (s : Slot) (q : Queued) : Prop where
  pass : q.pass = pass
  slot : q.slot = s
  present : q.resp.isMiss = false

/-- What a queued patch is, and what it still finds as it was when it was built. -/
inductive Kind (passes : Passes) (w : World) (q : Queued) : Prop where
  | miss (same : q.resp = missPatch q.slot)
  | rebuilt (pass : q.pass = .reconstructTransfers) (seen : (.reconstructTransfers, q.slot) ∈ w.seen)
      (built : reconstructSlot w.db passes.reconstruct q.slot = some q.resp)
      (distinct : ∀ t ∈ decodedTransfers q.resp, ∀ r ∈ decodedTransfers q.resp,
        placeOf r = placeOf t → r = t)
  | listed (pass : q.pass = .legacySubTransfers) (seen : (.legacySubTransfers, q.slot) ∈ w.seen)
      (light : Light q.resp) (present : q.resp.isMiss = false)
      (target : (subTransfersTarget w.db q.slot).isSome)
      (free : ∀ t ∈ decodedTransfers q.resp, storedAt w.db (placeOf t) = none)
      (complete : ∀ hash ∈ movedHashes (passes.archive.items q.slot),
        (∃ t ∈ w.db.transfersForSlot q.slot, t.id = hash) ∨
          ∃ t ∈ decodedTransfers q.resp, t.id = hash)
  | imported (pass : q.pass = .oneShot) (present : q.resp.isMiss = false)
      (block : ∃ block, deliveredBlock q.resp = some block)
      (ahead : ∀ u, Repaired w u → ¬ Concerned w.db q.slot (carriedOps q.resp) u)

structure Item (passes : Passes) (w : World) (q : Queued) : Prop where
  about : slotOf q.resp = some q.slot
  known : q.resp.finalKnown = true
  slot : ∀ t ∈ decodedTransfers q.resp, t.slot = q.slot
  plain : ∀ t ∈ decodedTransfers q.resp, Plain t
  fits : Fits placeOf (·.id) (storedAt w.db) (decodedTransfers q.resp)
  kind : Kind passes w q

/-- A pass is done with a slot. -/
def Done (passes : Passes) (db : Db) : Pass → Slot → Prop
  | .reconstructTransfers => Rebuilt passes db
  | .legacySubTransfers => Listed passes db
  | .oneShot => Imported passes db

structure Inv (passes : Passes) (w : World) : Prop where
  item : ∀ q ∈ w.pending, Item passes w q
  alone : ∀ s, w.pending.countP (brings s) ≤ 1
  once : ∀ op p p' t t', Holds w p t → Holds w p' t' → IsMovement op t → IsMovement op t' → p = p'
  done : ∀ pass s, (pass, s) ∈ w.seen →
    (∃ q ∈ w.pending, IsOf pass s q) ∨ Done passes w.db pass s

/-! ## Looking at a slot -/

section Look

variable {pass : Pass} {draft : Option Draft}

theorem mem_pending_looked {q : Queued} : q ∈ (w.looked pass s draft).pending ↔
    q ∈ w.pending ∨ draft = some (.patch q) := by
  have shipped : q ∈ draft.toList.filterMap Draft.patch? ↔ draft = some (.patch q) := by
    rcases draft with - | draft
    · simp
    · cases draft <;> simp [Draft.patch?, eq_comm]
  unfold World.pending World.looked
  rw [List.filterMap_append, List.mem_append, List.mem_append, List.mem_append, shipped]
  tauto

theorem countP_pending_looked (u : Slot) : (w.looked pass s draft).pending.countP (brings u) =
    w.pending.countP (brings u) + (draft.toList.filterMap Draft.patch?).countP (brings u) := by
  unfold World.pending World.looked
  rw [List.filterMap_append, List.countP_append, List.countP_append, List.countP_append]
  dsimp only
  omega

theorem holds_looked {p : Place} {t : StoredTransfer} : Holds (w.looked pass s draft) p t ↔
    Holds w p t ∨ (placeOf t = p ∧ ∃ q, draft = some (.patch q) ∧ t ∈ decodedTransfers q.resp) := by
  unfold Holds
  simp only [mem_pending_looked]
  constructor
  · rintro (stored | ⟨place, q, queued | new, member⟩)
    · exact .inl (.inl stored)
    · exact .inl (.inr ⟨place, q, queued, member⟩)
    · exact .inr ⟨place, q, new, member⟩
  · rintro ((stored | ⟨place, q, queued, member⟩) | ⟨place, q, new, member⟩)
    · exact .inl stored
    · exact .inr ⟨place, q, .inl queued, member⟩
    · exact .inr ⟨place, q, .inr new, member⟩

omit [Bs58Check] in
theorem repaired_looked {u : Slot} (repaired : Repaired (w.looked pass s draft) u) :
    Repaired w u ∨ (u = s ∧ pass ≠ .oneShot) := by
  rcases repaired with seen | seen <;> rcases List.mem_cons.mp seen with new | old
  · obtain ⟨rfl, rfl⟩ := Prod.mk.inj new
    exact .inr ⟨rfl, by simp⟩
  · exact .inl (.inl old)
  · obtain ⟨rfl, rfl⟩ := Prod.mk.inj new
    exact .inr ⟨rfl, by simp⟩
  · exact .inl (.inr old)

/-- A queued patch stays what it is when a pass looks at a slot that it does not concern. -/
theorem Item.looked {q : Queued} (item : Item passes w q) (queued : q ∈ w.pending)
    (fresh : pass ≠ .oneShot → Fresh w s) : Item passes (w.looked pass s draft) q where
  about := item.about
  known := item.known
  slot := item.slot
  plain := item.plain
  fits := item.fits
  kind := by
    cases item.kind with
    | miss same => exact .miss same
    | rebuilt pass seen built distinct =>
        exact .rebuilt pass (List.mem_cons_of_mem _ seen) built distinct
    | listed pass seen light present target free complete =>
        exact .listed pass (List.mem_cons_of_mem _ seen) light present target free complete
    | imported pass present block ahead =>
        refine .imported pass present block fun u repaired => ?_
        rcases repaired_looked repaired with before | ⟨rfl, repairs⟩
        · exact ahead u before
        · exact fresh repairs q queued present

/-- **A pass looks at a slot.** -/
theorem Inv.looked (inv : Inv passes w) (fresh : pass ≠ .oneShot → Fresh w s)
    (new : ∀ q, draft = some (.patch q) → IsOf pass s q ∧
      (∀ q' ∈ w.pending, q'.slot = s → q'.resp.isMiss = true) ∧
      Item passes (w.looked pass s draft) q ∧ Joins w s (decodedTransfers q.resp))
    (done : (∃ q, draft = some (.patch q)) ∨ Done passes w.db pass s) :
    Inv passes (w.looked pass s draft) where
  item q member := by
    rcases mem_pending_looked.mp member with queued | here
    · exact (inv.item q queued).looked queued fresh
    · exact (new q here).2.2.1
  alone u := by
    rw [countP_pending_looked]
    rcases draft with - | draft
    · exact inv.alone u
    · cases draft with
      | empty s => exact inv.alone u
      | patch q =>
          obtain ⟨isOf, quiet, -, -⟩ := new q rfl
          change _ + [q].countP (brings u) ≤ 1
          rw [List.countP_singleton]
          by_cases here : s = u
          · have none : w.pending.countP (brings u) = 0 := by
              refine List.countP_eq_zero.mpr fun q' queued here' => ?_
              rw [brings, Bool.and_eq_true, decide_eq_true_eq] at here'
              have miss := quiet q' queued (here'.1.trans here.symm)
              rw [miss] at here'
              exact absurd here'.2 (by simp)
            rw [none]
            split <;> omega
          · have other : brings u q = false := by
              rw [brings, isOf.slot]
              simp [here]
            rw [other, if_neg (by simp)]
            exact inv.alone u
  once op p p' t t' holds holds' moves moves' := by
    rcases holds_looked.mp holds with old | ⟨place, q, here, member⟩
    · rcases holds_looked.mp holds' with old' | ⟨place', q', here', member'⟩
      · exact inv.once op p p' t t' old old' moves moves'
      · rw [← place']
        exact (new q' here').2.2.2.outer t' member' op moves' p t old moves
    · rcases holds_looked.mp holds' with old' | ⟨place', q', here', member'⟩
      · rw [← place]
        exact ((new q here).2.2.2.outer t member op moves p' t' old' moves').symm
      · obtain rfl : q = q' := by simpa using here.symm.trans here'
        rw [← place, ← place']
        exact ((new q here).2.2.2.inner t member t' member' op moves moves').symm
  done pass' u seen := by
    rcases List.mem_cons.mp seen with here | before
    · obtain ⟨rfl, rfl⟩ := Prod.mk.inj here
      rcases done with ⟨q, built⟩ | done
      · exact .inl ⟨q, mem_pending_looked.mpr (.inr built), (new q built).1⟩
      · exact .inr done
    · rcases inv.done pass' u before with ⟨q, queued, isOf⟩ | done
      · exact .inl ⟨q, mem_pending_looked.mpr (.inl queued), isOf⟩
      · exact .inr done

end Look

/-! ## The producers -/

theorem item_transfersPatch (passes : Passes) (w' : World) (pass : Pass) (blockId : BlockId)
    {rows : List StoredTransfer} (joins : Joins w s rows) (same : w'.db = w.db)
    (kind : decodedTransfers (transfersPatch s blockId rows) = rows →
      Kind passes w' ⟨pass, s, transfersPatch s blockId rows⟩) :
    Item passes w' ⟨pass, s, transfersPatch s blockId rows⟩ ∧
      decodedTransfers (transfersPatch s blockId rows) = rows := by
  have decoded : decodedTransfers (transfersPatch s blockId rows) = rows :=
    decodedTransfers_plain _ rfl joins.plain
  refine ⟨?_, decoded⟩
  exact {
    about := slotOf_thread rfl rfl
    known := rfl
    slot := fun t member => joins.slot t (decoded ▸ member)
    plain := fun t member => joins.plain t (decoded ▸ member)
    fits := by
      rw [same]
      dsimp only
      rw [decoded]
      exact joins.fits
    kind := kind decoded }

/-- What is fresh has nothing queued of its own. -/
theorem quiet_of_fresh (fresh : Fresh w s) : ∀ q ∈ w.pending, q.slot = s → q.resp.isMiss = true := by
  intro q queued here
  by_contra present
  exact fresh q queued (by simpa using present) (.inl here)

theorem Inv.reconstruct (inv : Inv passes w) (fresh : Fresh w s)
    (free : ∀ blockId opIds, eligibleAt w.db s = some (blockId, opIds) →
      Free w s (reconstructionNumbers w.db opIds)) :
    Inv passes (w.looked .reconstructTransfers s
      (builtBy .reconstructTransfers s (reconstructSlot w.db passes.reconstruct s))) := by
  refine inv.looked (fun _ => fresh) ?_ ?_
  · intro q built
    obtain ⟨resp, made, rfl⟩ : ∃ resp, reconstructSlot w.db passes.reconstruct s = some resp ∧
        q = ⟨.reconstructTransfers, s, resp⟩ := by
      obtain ⟨resp, made, same⟩ := Option.map_eq_some_iff.mp built
      exact ⟨resp, made, (Draft.patch.inj same).symm⟩
    obtain ⟨blockId, opIds, offers, rfl⟩ := reconstructSlot_some made
    have free := free blockId opIds offers
    have joins : Joins w s (reconstructed w.db passes.reconstruct s blockId opIds) :=
      joins_transactions free _ _
    obtain ⟨item, decoded⟩ := item_transfersPatch passes
      (w.looked .reconstructTransfers s
        (builtBy .reconstructTransfers s (reconstructSlot w.db passes.reconstruct s)))
      .reconstructTransfers blockId joins rfl fun decoded => by
        refine .rebuilt rfl List.mem_cons_self made ?_
        dsimp only
        rw [decoded]
        intro t member r member' same
        obtain ⟨n, op, listed, made⟩ := mem_transactionRows member
        obtain ⟨n', op', listed', made'⟩ := mem_transactionRows member'
        have number : n' = n := (movementOf_of_made made').number.symm.trans
          ((congrArg Prod.snd same).trans (movementOf_of_made made).number)
        obtain ⟨-, id⟩ := free.apart _ listed' _ listed (.inl number)
        have row := (readOp_of_mem_reconstructionNumbers listed).1
        have row' := (readOp_of_mem_reconstructionNumbers listed').1
        obtain rfl : op' = op := Option.some.inj (row'.symm.trans ((congrArg _ id).trans row))
        subst number
        exact Option.some.inj (made'.symm.trans made)
    exact ⟨⟨rfl, rfl, rfl⟩, quiet_of_fresh fresh, item, decoded.symm ▸ joins⟩
  · cases built : reconstructSlot w.db passes.reconstruct s with
    | none => exact .inr (rebuilt_of_none built)
    | some resp => exact .inl ⟨_, rfl⟩

theorem Inv.subTransfers (inv : Inv passes w) (fresh : Fresh w s)
    (room : Room w.db s (movedHashes (passes.archive.items s)).length) :
    Inv passes (w.looked .legacySubTransfers s (builtBy .legacySubTransfers s
      (subTransfersPatch w.db passes.subTransfers s (passes.archive.items s)))) := by
  refine inv.looked (fun _ => fresh) ?_ ?_
  · intro q built
    obtain ⟨resp, made, rfl⟩ : ∃ resp,
        subTransfersPatch w.db passes.subTransfers s (passes.archive.items s) = some resp ∧
          q = ⟨.legacySubTransfers, s, resp⟩ := by
      obtain ⟨resp, made, same⟩ := Option.map_eq_some_iff.mp built
      exact ⟨resp, made, (Draft.patch.inj same).symm⟩
    rw [subTransfersPatch_eq] at made
    obtain ⟨target, found, made⟩ := Option.bind_eq_some_iff.mp made
    split at made
    · exact absurd made (by simp)
    obtain rfl := Option.some.inj made
    have next := nextIndex_spec (w.db.transfersForSlot s)
      (2 ^ 32 - 1 - (movedHashes (passes.archive.items s)).length) (by omega) fun t member => by
        have := room.2 t member
        omega
    rw [← (ids_of_target found).2] at next
    obtain ⟨joins, free, -⟩ := joins_subTransfers (w := w) (s := s)
      (some target.blockId.text) (slotTimestampMs passes.subTransfers.timing s) target.ids
      (passes.archive.items s) target.nextIndex (by have := room.1; omega) next.1
    obtain ⟨item, decoded⟩ := item_transfersPatch passes
      (w.looked .legacySubTransfers s (builtBy .legacySubTransfers s
        (subTransfersPatch w.db passes.subTransfers s (passes.archive.items s))))
      .legacySubTransfers target.blockId joins rfl fun decoded => by
        refine .listed rfl List.mem_cons_self (light_of_blank rfl rfl) rfl ?_ ?_ ?_
        · exact Option.isSome_iff_exists.mpr ⟨target, found⟩
        · dsimp only
          rw [decoded]
          exact free
        · dsimp only
          rw [decoded]
          intro hash listed
          exact hash_stored_or_shipped found listed
    exact ⟨⟨rfl, rfl, rfl⟩, quiet_of_fresh fresh, item, decoded.symm ▸ joins⟩
  · cases built : subTransfersPatch w.db passes.subTransfers s (passes.archive.items s) with
    | none => exact .inr (listed_of_none built)
    | some resp => exact .inl ⟨_, rfl⟩

/-- The rows of an importable slot. -/
theorem joins_archivedRows {a : ArchivedSlot} (importable : Importable w s a) (nowMs : Int) :
    Joins w s (archivedRows s a nowMs) := by
  have counted := length_transactionRows s a.blockHash.text nowMs
    fun n op (listed : (n, op) ∈ importNumbers a) => movesCoins_of_mem_importNumbers listed
  have room := importable.room
  have start : (UInt32.ofNat (importNumbers a).length).toNat = (importNumbers a).length := by
    rw [UInt32.toNat_ofNat']
    exact Nat.mod_eq_of_lt (by omega)
  unfold archivedRows
  dsimp only
  rw [synthesisedRows_eq, counted]
  obtain ⟨joins, -, between⟩ := joins_subTransfers (w := w) (s := s)
    (some a.blockHash.text) nowMs [] a.items (UInt32.ofNat (importNumbers a).length) (by rw [start]; exact room) (by
      rw [importable.bare]
      simp)
  refine (joins_transactions importable.free a.blockHash.text nowMs).append joins ?_ ?_
  · intro t member r member' same
    obtain ⟨n, op, listed, made⟩ := mem_transactionRows member
    have number : n = r.indexInSlot :=
      (movementOf_of_made made).number.symm.trans (congrArg Prod.snd same)
    have range := between r member'
    rw [start, ← number] at range
    rcases importable.beside n op listed with below | beyond <;> omega
  · rintro t member op ⟨origin, -⟩
    exact absurd ((subTransferOf_of_mem member).origin.symm.trans origin) (by simp)

theorem Inv.lookUp (inv : Inv passes w) (nowMs : Int)
    (importable : coveredAt w.db s = true ∨
      ∀ a, passes.archive.slot s = some a → Importable w s a) :
    Inv passes (w.looked .oneShot s (lookedUp passes w.db s nowMs)) := by
  have cases : (coveredAt w.db s = true ∧ lookedUp passes w.db s nowMs = none) ∨
      (passes.archive.slot s = none ∧ lookedUp passes w.db s nowMs = some (.empty s)) ∨
      ∃ a, passes.archive.slot s = some a ∧ Importable w s a ∧
        lookedUp passes w.db s nowMs = some (.patch ⟨.oneShot, s, fetchSlot s a nowMs⟩) := by
    unfold lookedUp
    cases covered : coveredAt w.db s with
    | true => exact .inl ⟨rfl, rfl⟩
    | false =>
        refine .inr ?_
        cases held : passes.archive.slot s with
        | none => exact .inl ⟨rfl, rfl⟩
        | some a =>
            have importable := importable.resolve_left (by rw [covered]; simp)
            exact .inr ⟨a, rfl, importable a held, rfl⟩
  refine inv.looked (fun other => absurd rfl other) ?_ ?_
  · intro q built
    rcases cases with ⟨-, none⟩ | ⟨-, blank⟩ | ⟨a, held, importable, shipped⟩
    · exact absurd (none.symm.trans built) (by simp)
    · exact absurd (blank.symm.trans built) (by simp)
    · obtain rfl : q = ⟨.oneShot, s, fetchSlot s a nowMs⟩ := by
        simpa using (shipped.symm.trans built).symm
      have joins := joins_archivedRows importable nowMs
      have decoded : decodedTransfers (fetchSlot s a nowMs) = archivedRows s a nowMs :=
        decodedTransfers_plain _ rfl joins.plain
      refine ⟨⟨rfl, rfl, rfl⟩, importable.quiet, ?_, decoded.symm ▸ joins⟩
      exact {
        about := slotOf_thread rfl rfl
        known := rfl
        slot := fun t member => joins.slot t (decoded ▸ member)
        plain := fun t member => joins.plain t (decoded ▸ member)
        fits := by
          dsimp only
          rw [decoded]
          exact joins.fits
        kind := by
          refine .imported rfl rfl (deliveredBlock_fetchSlot importable.encodes nowMs)
            fun u repaired => ?_
          dsimp only
          rw [carriedOps_fetchSlot]
          rcases repaired_looked repaired with before | ⟨-, other⟩
          · exact importable.ahead u before
          · exact absurd rfl other }
  · rcases cases with ⟨covered, -⟩ | ⟨held, -⟩ | ⟨a, -, -, shipped⟩
    · exact .inr (.inr covered)
    · exact .inr (.inl held)
    · exact .inl ⟨_, shipped⟩

end MassaIndexer.Repair.Additivity
