/-
# Laws.Attribution -- the walk over a slot's transfers, and the filter before it

The node names the operation of a root transfer only; the handler walks the slot's transfers in order
and gives each child the operation running where it stands, until a boundary (another root, a row of an
async message, of a deferred call or of a denunciation, a reward). It drops the transfers of value zero
first. A dropped boundary no longer ends anything: the rows after it ride with the operation before.
-/
import MassaIndexer.Writer.Moves

namespace MassaIndexer.Laws.Attribution

open MassaIndexer.Theory.KeyedTable
open MassaIndexer.Data.Ids MassaIndexer.Data.Model MassaIndexer.Data.RowCodec
open MassaIndexer.Store.ColumnFamilies MassaIndexer.Store.SlotRows
open MassaIndexer.Writer MassaIndexer.Writer.NodeProto MassaIndexer.Writer.NodeDecode
open MassaIndexer.Writer.Shared MassaIndexer.Writer.Step MassaIndexer.Writer.Moves

set_option autoImplicit false

/-! ## The walk, row by row -/

/-- What a boundary row sets the running operation to. -/
def boundaryOf (r : StoredTransfer) : Option (Option String) :=
  if r.operationId.isSome then some r.operationId
  else if r.asyncMsgId.isSome || r.deferredCallId.isSome || r.denunciationIndex.isSome then some none
  else if isRewardOrigin r.origin then some none
  else none

/-- A row that is no boundary and takes the running operation. -/
def rides (r : StoredTransfer) : Bool := (boundaryOf r).isNone && isOpChildOrigin r.origin

/-- The operation running after some rows: the one the last boundary among them sets. -/
def runningAfter (current : Option String) (rows : List StoredTransfer) : Option String :=
  (rows.filterMap boundaryOf).getLast?.getD current

def attributed (current : Option String) (r : StoredTransfer) : StoredTransfer :=
  if rides r then { r with operationId := current } else r

theorem attributeOps_cons (current : Option String) (r : StoredTransfer) (rows : List StoredTransfer) :
    attributeOps current (r :: rows) =
      attributed current r :: attributeOps ((boundaryOf r).getD current) rows := by
  rw [attributeOps]
  unfold attributed rides boundaryOf
  by_cases root : r.operationId.isSome
  · simp [root]
  · by_cases owned : r.asyncMsgId.isSome || r.deferredCallId.isSome || r.denunciationIndex.isSome
    · simp [root, owned]
    · by_cases reward : isRewardOrigin r.origin
      · simp [root, owned, reward]
      · cases child : isOpChildOrigin r.origin <;> simp [root, owned, reward]

theorem runningAfter_cons (current : Option String) (r : StoredTransfer) (rows : List StoredTransfer) :
    runningAfter current (r :: rows) = runningAfter ((boundaryOf r).getD current) rows := by
  unfold runningAfter
  rw [List.filterMap_cons]
  cases boundaryOf r with
  | none => rfl
  | some op =>
      rw [List.getLast?_cons]
      cases (rows.filterMap boundaryOf).getLast? <;> rfl

theorem value_attributed (current : Option String) (r : StoredTransfer) :
    (attributed current r).value = r.value := by
  unfold attributed
  split <;> rfl

/-- Two walks give a row the same operation exactly when the row does not ride or the running
operations are the same. -/
theorem operationId_attributed_iff (c d : Option String) (r : StoredTransfer) :
    (attributed c r).operationId = (attributed d r).operationId ↔ (rides r = true → c = d) := by
  unfold attributed
  cases rides r <;> simp

/-! ## The walk and the filter -/

def moves (r : StoredTransfer) : Bool := !isZeroValue r.value

/-- **A walk over all the rows and a walk over the rows that move something** agree on the latter exactly
when the operation running at each of them that rides is the same in both. -/
theorem walk_filter_iff (c d : Option String) (rows : List StoredTransfer) :
    ((attributeOps d (rows.filter moves)).map (·.operationId) =
      ((attributeOps c rows).filter moves).map (·.operationId)) ↔
    ∀ before r after, rows = before ++ r :: after → moves r = true → rides r = true →
      runningAfter c before = runningAfter d (before.filter moves) := by
  induction rows generalizing c d with
  | nil => simp [attributeOps]
  | cons r rows ih =>
      have same : moves (attributed c r) = moves r := by
        rw [moves, moves, value_attributed]
      have split : (∀ before x after, r :: rows = before ++ x :: after → moves x = true →
          rides x = true → runningAfter c before = runningAfter d (before.filter moves)) ↔
          (moves r = true → rides r = true → c = d) ∧
          ∀ before x after, rows = before ++ x :: after → moves x = true → rides x = true →
            runningAfter c (r :: before) = runningAfter d ((r :: before).filter moves) := by
        constructor
        · intro all
          refine ⟨fun kept child => all [] r rows rfl kept child, ?_⟩
          rintro before x after rfl kept child
          exact all (r :: before) x after rfl kept child
        · rintro ⟨here, later⟩ before x after whole kept child
          cases before with
          | nil =>
              obtain ⟨rfl, -⟩ := List.cons.inj whole
              exact here kept child
          | cons y before =>
              obtain ⟨rfl, rest⟩ := List.cons.inj whole
              exact later before x after rest kept child
      rw [split, attributeOps_cons]
      cases kept : moves r with
      | false =>
          rw [List.filter_cons_of_neg (by simp [kept]), List.filter_cons_of_neg (by simp [same, kept]), ih]
          simp only [Bool.false_eq_true, false_implies, true_and, List.filter_cons, kept, if_false,
            runningAfter_cons]
      | true =>
          rw [List.filter_cons_of_pos kept, List.filter_cons_of_pos (by rw [same, kept]),
            attributeOps_cons, List.map_cons, List.map_cons, List.cons_eq_cons,
            operationId_attributed_iff, ih, eq_comm (a := d)]
          simp only [true_implies, List.filter_cons, kept, if_true, runningAfter_cons]

/-! ## Places -/

/-- A row without its place: the walk does not look at it. -/
def unplaced (r : StoredTransfer) : StoredTransfer := { r with indexInSlot := 0 }

theorem attributeOps_unplaced (current : Option String) (rows : List StoredTransfer) :
    attributeOps current (rows.map unplaced) = (attributeOps current rows).map unplaced := by
  induction rows generalizing current with
  | nil => rfl
  | cons r rows ih =>
      have here : attributed current (unplaced r) = unplaced (attributed current r) := by
        unfold attributed
        rw [show rides (unplaced r) = rides r from rfl]
        split <;> rfl
      rw [List.map_cons, attributeOps_cons, attributeOps_cons, List.map_cons, ← ih, here]
      rfl

theorem indexes_attributeOps (current : Option String) (rows : List StoredTransfer) :
    (attributeOps current rows).map (·.indexInSlot) = rows.map (·.indexInSlot) := by
  induction rows generalizing current with
  | nil => rfl
  | cons r rows ih =>
      have here : (attributed current r).indexInSlot = r.indexInSlot := by
        unfold attributed
        split <;> rfl
      rw [attributeOps_cons, List.map_cons, List.map_cons, ih, here]

/-- The walk only fills in operations, and none where the node gave one. -/
theorem kept_attributeOps (current : Option String) (rows : List StoredTransfer) :
    List.Forall₂ (fun r out : StoredTransfer => { out with operationId := r.operationId } = r ∧
      (r.operationId.isSome → out.operationId = r.operationId)) rows (attributeOps current rows) := by
  induction rows generalizing current with
  | nil => exact .nil
  | cons r rows ih =>
      rw [attributeOps_cons]
      refine .cons ⟨?_, fun given => ?_⟩ (ih _)
      · unfold attributed
        split <;> rfl
      · have stays : rides r = false := by
          unfold rides boundaryOf
          rw [if_pos given]
          rfl
        rw [attributed, stays]
        rfl

/-! ## The handler's rows -/

section Rows

variable (resp : NewTransfersInfoServerResponse) (slot : Slot) (nowMs : Int)

/-- The node's transfers as rows, before the filter and in its order. -/
def nodeRows : List StoredTransfer :=
  resp.transfersInfo.mapIdx (transferRow resp slot nowMs)

/-- What the claim says of the rows the handler files: the operations are those of a walk over the whole
list, the rest of each row is what the node sent, in its order, an operation it gave is kept, and the
places are counted from 0. -/
structure Unaffected : Prop where
  operations : (decodeTransfers resp slot nowMs).map (·.operationId) =
    ((attributeOps none (nodeRows resp slot nowMs)).filter moves).map (·.operationId)
  sent : List.Forall₂ (fun r out : StoredTransfer =>
      unplaced { out with operationId := r.operationId } = unplaced r ∧
        (r.operationId.isSome → out.operationId = r.operationId))
    ((nodeRows resp slot nowMs).filter moves) (decodeTransfers resp slot nowMs)
  places : (decodeTransfers resp slot nowMs).map (·.indexInSlot) =
    (List.range (decodeTransfers resp slot nowMs).length).map UInt32.ofNat

theorem map_mapIdx_of_blind {α β γ : Type} {f : Nat → α → β} {g : β → γ} {h : α → γ}
    (blind : ∀ i x, g (f i x) = h x) (l : List α) : (l.mapIdx f).map g = l.map h := by
  refine List.ext_getElem? fun i => ?_
  rw [List.getElem?_map, List.getElem?_mapIdx, List.getElem?_map, Option.map_map]
  cases l[i]? with
  | none => rfl
  | some x => exact congrArg some (blind i x)

/-- Dropping transfers before the rows are made or after: the same but for the places. -/
theorem unplaced_kept : ((resp.transfersInfo.filter fun t =>
      !isZeroValue (valueFromProto t.value.join)).mapIdx (transferRow resp slot nowMs)).map unplaced =
    ((nodeRows resp slot nowMs).filter moves).map unplaced := by
  have blind : ∀ i t, unplaced (transferRow resp slot nowMs i t) = transferRow resp slot nowMs 0 t :=
    fun i t => rfl
  have late : ((nodeRows resp slot nowMs).filter moves).map unplaced =
      ((nodeRows resp slot nowMs).map unplaced).filter moves := by
    rw [List.filter_map]
    rfl
  rw [map_mapIdx_of_blind blind, late, nodeRows, map_mapIdx_of_blind blind, List.filter_map]
  rfl

theorem decodeTransfers_unplaced : (decodeTransfers resp slot nowMs).map unplaced =
    (attributeOps none ((nodeRows resp slot nowMs).filter moves)).map unplaced := by
  rw [decodeTransfers, ← attributeOps_unplaced, unplaced_kept, attributeOps_unplaced]

theorem places_decodeTransfers : (decodeTransfers resp slot nowMs).map (·.indexInSlot) =
    (List.range (decodeTransfers resp slot nowMs).length).map UInt32.ofNat := by
  have same := indexes_attributeOps none ((resp.transfersInfo.filter fun t =>
    !isZeroValue (valueFromProto t.value.join)).mapIdx (transferRow resp slot nowMs))
  have length : (decodeTransfers resp slot nowMs).length = (resp.transfersInfo.filter fun t =>
      !isZeroValue (valueFromProto t.value.join)).length := by
    have lengths := congrArg List.length same
    rw [List.length_map, List.length_map, List.length_mapIdx] at lengths
    exact lengths
  rw [length, decodeTransfers, same]
  refine List.ext_getElem? fun i => ?_
  simp only [List.getElem?_map, List.getElem?_mapIdx, Option.map_map]
  generalize (resp.transfersInfo.filter fun t => !isZeroValue (valueFromProto t.value.join)) = sent
  by_cases inside : i < sent.length
  · rw [List.getElem?_eq_getElem inside]
    simp [inside, transferRow]
  · rw [List.getElem?_eq_none (Nat.le_of_not_lt inside)]
    simp [Nat.le_of_not_lt inside]

theorem sent_decodeTransfers : List.Forall₂ (fun r out : StoredTransfer =>
      unplaced { out with operationId := r.operationId } = unplaced r ∧
        (r.operationId.isSome → out.operationId = r.operationId))
    ((nodeRows resp slot nowMs).filter moves) (decodeTransfers resp slot nowMs) := by
  have walked := kept_attributeOps none ((resp.transfersInfo.filter fun t =>
    !isZeroValue (valueFromProto t.value.join)).mapIdx (transferRow resp slot nowMs))
  have rows := unplaced_kept resp slot nowMs
  rw [← decodeTransfers] at walked
  generalize ((resp.transfersInfo.filter fun t =>
    !isZeroValue (valueFromProto t.value.join)).mapIdx (transferRow resp slot nowMs)) = placed
    at walked rows
  generalize (nodeRows resp slot nowMs).filter moves = sent at rows ⊢
  generalize decodeTransfers resp slot nowMs = out at walked ⊢
  induction walked generalizing sent with
  | nil =>
      rw [List.map_eq_nil_iff.mp rows.symm]
      exact .nil
  | @cons r out placed outs here _ ih =>
      cases sent with
      | nil => cases rows
      | cons x sent =>
          obtain ⟨first, rest⟩ := List.cons.inj rows
          have op := congrArg StoredTransfer.operationId first.symm
          change x.operationId = r.operationId at op
          refine .cons ⟨?_, ?_⟩ (ih sent rest)
          · rw [← first, op]
            exact congrArg unplaced here.1
          · rw [op]
            exact here.2

/-- **When the filter leaves the attribution alone**: at every row that moves something and rides, the
last boundary before it and the last boundary before it that moves something set the same operation. -/
theorem attribution_unaffected_iff : Unaffected resp slot nowMs ↔
    ∀ before r after, nodeRows resp slot nowMs = before ++ r :: after → moves r = true →
      rides r = true → runningAfter none before = runningAfter none (before.filter moves) := by
  have walked : (decodeTransfers resp slot nowMs).map (·.operationId) =
      (attributeOps none ((nodeRows resp slot nowMs).filter moves)).map (·.operationId) := by
    have same := congrArg (List.map (·.operationId)) (decodeTransfers_unplaced resp slot nowMs)
    rw [List.map_map, List.map_map] at same
    exact same
  rw [← walk_filter_iff, ← walked]
  exact ⟨(·.operations), fun operations =>
    ⟨operations, sent_decodeTransfers resp slot nowMs, places_decodeTransfers resp slot nowMs⟩⟩

end Rows

/-- The handler files these rows. -/
theorem readTransfer_step [Bs58Check] [DenunciationDigest] (db : Db)
    (resp : NewTransfersInfoServerResponse) (nowMs : Int) {pb : NodeSlot} (about : resp.slot = some pb)
    (i : UInt32) : (step db ⟨.transfers resp, nowMs⟩).readTransfer (NodeDecode.slotFromPb pb) i =
      (last transferFiling (decodeTransfers resp (NodeDecode.slotFromPb pb) nowMs)
        (NodeDecode.slotFromPb pb) i).map readBackTransfer := by
  have row := row_run transferFiling (transferMove db ⟨.transfers resp, nowMs⟩) (filedTransfers db)
    (NodeDecode.slotFromPb pb) i
  rw [← filedTransfers_step] at row
  refine row.trans ?_
  simp only [transferMove, about, Option.elim_some, if_true, Option.or_none]
  rfl

/-! ## A root without coins -/

/-- The call of operation A moves 5, the call of operation B moves nothing, and a child of B pays. -/
def twoCalls : NewTransfersInfoServerResponse where
  slot := some ⟨10, 0⟩
  transfersInfo :=
    [{ id := "t0", operationId := some "A", origin := 12,
       value := some (some (.coins { mantissa := 5 })) },
     { id := "t1", operationId := some "B", origin := 12,
       value := some (some (.coins { mantissa := 0 })) },
     { id := "t2", origin := 18, value := some (some (.coins { mantissa := 7 })) }]

/-- **The child's transfer goes to the operation before.** -/
theorem child_misattributed : ¬ Unaffected twoCalls ⟨10, 0⟩ 0 := by
  intro unaffected
  have kept : (decodeTransfers twoCalls ⟨10, 0⟩ 0).map (·.operationId) = [some "A", some "A"] := by
    decide
  have whole : ((attributeOps none (nodeRows twoCalls ⟨10, 0⟩ 0)).filter moves).map (·.operationId) =
      [some "A", some "B"] := by
    decide
  have same := unaffected.operations
  rw [kept, whole] at same
  exact absurd same (by decide)

end MassaIndexer.Laws.Attribution
