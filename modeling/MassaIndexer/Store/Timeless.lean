/-
# Store.Timeless -- stores without their clocks

Rows carry the wall-clock times at which they were first seen and last written; nothing else in the
store reads a clock. Two stores are the same but for the clock when every family has the same rows once
those times are blanked, and the same index entries (`SameButClock`). Where an index has exactly the
entries of its rows, the rows alone decide (`Exact.of_sameRows`).
-/
import MassaIndexer.Store.SlotRows
import MassaIndexer.Theory.IndexedTable

namespace MassaIndexer.Store.Timeless

open MassaIndexer.Theory.KeyedTable
open MassaIndexer.Data.Ids MassaIndexer.Data.Model MassaIndexer.Data.Keys
open MassaIndexer.Data.Codec MassaIndexer.Data.RowCodec
open MassaIndexer.Store.ColumnFamilies MassaIndexer.Store.Footprint MassaIndexer.Store.SlotRows

set_option autoImplicit false

/-! ## Rows -/

def timelessSlot (row : SlotState) : SlotState := { row with firstSeenTsMs := 0, lastUpdatedTsMs := 0 }

def timelessEndorsement (e : StoredEndorsement) : StoredEndorsement := { e with firstSeenTsMs := 0 }

/-- A block row carries its endorsements with their times. -/
def timelessBlock (b : StoredBlock) : StoredBlock :=
  { b with endorsements := b.endorsements.map timelessEndorsement, firstSeenTsMs := 0 }

def timelessOp (op : StoredOperation) : StoredOperation := { op with firstSeenTsMs := 0 }

def timelessDenunciation (d : StoredDenunciationEntry) : StoredDenunciationEntry :=
  { d with firstSeenTsMs := 0 }

def timelessTransfer (t : StoredTransfer) : StoredTransfer := { t with firstSeenTsMs := 0 }

def timelessAsyncMsg (m : StoredAsyncMsg) : StoredAsyncMsg :=
  { m with firstSeenTsMs := 0, lastUpdatedTsMs := 0 }

def timelessDeferredCall (d : StoredDeferredCall) : StoredDeferredCall :=
  { d with firstSeenTsMs := 0, lastUpdatedTsMs := 0 }

/-! ## Tables -/

section Tables

variable {V : Type} [Row V] {clear : V → V} {t u w : Table V}

/-- The same rows at the same keys, up to what `clear` blanks. -/
def SameRows (clear : V → V) (t u : Table V) : Prop := ∀ k, (t.get k).map clear = (u.get k).map clear

theorem SameRows.refl (clear : V → V) (t : Table V) : SameRows clear t t := fun _ => rfl

theorem SameRows.trans (first : SameRows clear t u) (second : SameRows clear u w) :
    SameRows clear t w := fun k => (first k).trans (second k)

/-- A key that no row has holds none on either side. -/
theorem sameRows_of_keys (same : ∀ v : V, (t.get (Row.key v)).map clear = (u.get (Row.key v)).map clear) :
    SameRows clear t u := by
  intro k
  cases left : t.get k with
  | some v =>
      obtain rfl : Row.key v = k := Table.key_of_get left
      rw [← left]
      exact same v
  | none =>
      cases right : u.get k with
      | none => rfl
      | some v =>
          obtain rfl : Row.key v = k := Table.key_of_get right
          rw [← left, ← right]
          exact same v

/-- **Exact indexes of the same rows are the same**, when the entries of a row do not name what is
blanked. -/
theorem index_eq_of_sameRows {keys : V → List Bytes} {idx idx' : Index} (exact_ : Exact keys t idx)
    (exact' : Exact keys u idx') (same : SameRows clear t u)
    (blind : ∀ v, keys (clear v) = keys v) : idx = idx' := by
  have within : ∀ {t u : Table V}, SameRows clear t u → ∀ {k}, (∃ v, t.Holds v ∧ k ∈ keys v) →
      ∃ v, u.Holds v ∧ k ∈ keys v := by
    rintro t u same k ⟨v, held, entered⟩
    have there := same (Row.key v)
    rw [show t.get (Row.key v) = some v from held] at there
    obtain ⟨w, found, alike⟩ := Option.map_eq_some_iff.mp there.symm
    exact ⟨w, Table.holds_of_get found, by rwa [← blind w, alike, blind v]⟩
  refine Std.ExtTreeSet.ext_mem fun k => ?_
  rw [exact_ k, exact' k]
  exact ⟨within same, within fun k => (same k).symm⟩

end Tables

/-! ## Stores -/

/-- The contents of a family, the same but for the clock. Events have no clock. -/
def SameContents : (f : Family) → Contents f → Contents f → Prop
  | .slots, c, c' => SameRows timelessSlot c c'
  | .blocks, c, c' => SameRows timelessBlock c.1 c'.1 ∧ c.2 = c'.2
  | .endorsements, c, c' => SameRows timelessEndorsement c.1 c'.1 ∧ c.2 = c'.2
  | .ops, c, c' => SameRows timelessOp c.1 c'.1 ∧ c.2 = c'.2
  | .scEvents, c, c' => c = c'
  | .denunciations, c, c' => SameRows timelessDenunciation c.1 c'.1 ∧ c.2 = c'.2
  | .transfers, c, c' => SameRows timelessTransfer c.1 c'.1 ∧ c.2 = c'.2
  | .asyncMsgs, c, c' => SameRows timelessAsyncMsg c.1 c'.1 ∧ c.2 = c'.2
  | .deferredCalls, c, c' => SameRows timelessDeferredCall c.1 c'.1 ∧ c.2 = c'.2
  | .heads, c, c' => c = c'

/-- All rows, index entries and head markers are the same, up to the times of the rows. -/
def SameButClock (db db' : Db) : Prop := ∀ f, SameContents f (contents db f) (contents db' f)

theorem sameContents_of_eq {f : Family} {c c' : Contents f} (same : c = c') : SameContents f c c' := by
  subst same
  cases f <;> first | exact ⟨.refl _ _, rfl⟩ | exact .refl _ _ | rfl

theorem sameButClock_refl (db : Db) : SameButClock db db := fun _ => sameContents_of_eq rfl

/-! ## Rows filed under slots -/

section Filed

variable {V : Type} [Row V] {F : Filing V} {clear : V → V}

/-- Two moves that bring the same rows, up to what `clear` blanks. -/
structure AlikeMoves (clear : V → V) (m m' : Move V) : Prop where
  cleared : m'.cleared = m.cleared
  rows : m'.rows.map clear = m.rows.map clear

/-- What is blanked plays no part in how a row is filed and read back. -/
structure Blanks (F : Filing V) (clear : V → V) : Prop where
  slot : ∀ v w, clear v = clear w → F.slot v = F.slot w
  place : ∀ v w, clear v = clear w → F.place v = F.place w
  keys : ∀ j v w, clear v = clear w → F.keys j v = F.keys j w
  stored : ∀ v w, clear v = clear w → clear (Row.stored v) = clear (Row.stored w)
  storedKeys : ∀ j v, F.keys j (Row.stored v) = F.keys j v

theorem map_filter_eq {α β : Type} {f : α → β} {p : α → Bool}
    (respects : ∀ v w, f v = f w → p v = p w) {l l' : List α}
    (same : l'.map f = l.map f) :
    (l'.filter p).map f = (l.filter p).map f := by
  induction l generalizing l' with
  | nil =>
      obtain rfl := List.map_eq_nil_iff.mp same
      rfl
  | cons v l ih =>
      cases l' with
      | nil => cases same
      | cons w l' =>
          obtain ⟨here, later⟩ := List.cons.inj same
          rw [List.filter_cons, List.filter_cons, respects w v here]
          split
          · rw [List.map_cons, List.map_cons, here, ih later]
          · exact ih later

section Again

variable (blanks : Blanks F clear) {m m' : Move V} (alike : AlikeMoves clear m m')

include blanks

theorem last_alike {rows rows' : List V} (same : rows'.map clear = rows.map clear) (s : Slot)
    (i : UInt32) : (last F rows' s i).map clear = (last F rows s i).map clear := by
  unfold last
  rw [← List.getLast?_map, ← List.getLast?_map]
  refine congrArg List.getLast? (map_filter_eq (fun v w here => ?_) same)
  rw [blanks.slot v w here, blanks.place v w here]

include alike

/-- **Filing the same rows again leaves the rows as they are.** -/
theorem sameRows_again (f : Filed V) : SameRows clear (m'.run F (m.run F f)).rows (m.run F f).rows := by
  refine sameRows_of_keys fun v => ?_
  rw [F.filed v]
  show ((m'.run F (m.run F f)).row (F.slot v) (F.place v)).map clear =
    ((m.run F f).row (F.slot v) (F.place v)).map clear
  have tails := last_alike blanks alike.rows (F.slot v) (F.place v)
  rw [row_run F m' (m.run F f), row_run F m f, alike.cleared]
  cases mine : last F m.rows (F.slot v) (F.place v) with
  | none =>
      rw [mine] at tails
      rw [Option.map_eq_none_iff.mp tails]
      simp only [Option.map_none, Option.none_or]
      split <;> rfl
  | some r =>
      rw [mine] at tails
      obtain ⟨r', found, here⟩ := Option.map_eq_some_iff.mp tails
      rw [found]
      exact congrArg some (blanks.stored r' r here)

/-- **And the index entries**: a slot that is cleared again loses the entries of the rows that come in again. -/
theorem entries_again (f : Filed V) (j : Fin 3) :
    (m'.run F (m.run F f)).entries j = (m.run F f).entries j := by
  have brings : ∀ {l l' : List V}, l'.map clear = l.map clear → ∀ {k},
      (∃ v ∈ l', k ∈ F.keys j v) → ∃ v ∈ l, k ∈ F.keys j v := by
    rintro l l' same k ⟨v, member, entered⟩
    have there : clear v ∈ l.map clear := same ▸ List.mem_map_of_mem member
    obtain ⟨w, member', here⟩ := List.mem_map.mp there
    exact ⟨w, member', blanks.keys j w v here ▸ entered⟩
  refine Std.ExtTreeSet.ext_mem fun k => ?_
  rw [entries_run F m' (m.run F f) j k]
  constructor
  · rintro (brought | ⟨there, -⟩)
    · exact (entries_run F m f j k).mpr (.inl (brings alike.rows brought))
    · exact there
  · intro there
    by_cases brought : ∃ v ∈ m.rows, k ∈ F.keys j v
    · exact .inl (brings alike.rows.symm brought)
    · refine .inr ⟨there, fun s cleared i v found entered => brought ?_⟩
      -- what the cleared slot holds by now came in with the move
      rw [row_run, if_pos (alike.cleared.symm.trans cleared), Option.or_none] at found
      obtain ⟨r, tail, rfl⟩ := Option.map_eq_some_iff.mp found
      exact ⟨r, (mem_of_last tail).1, blanks.storedKeys j r ▸ entered⟩

end Again

/-! ### One slot -/

section Slots

variable {m m' : Move V} {f f' g : Filed V} {u : Slot}

/-- The rows of a slot, up to what `clear` blanks, and its index entries are the same. -/
structure AlikeAt (F : Filing V) (clear : V → V) (f f' : Filed V) (u : Slot) : Prop where
  rows : ∀ i, (f.row u i).map clear = (f'.row u i).map clear
  entries : ∀ j k, F.entry j u k → (k ∈ f.entries j ↔ k ∈ f'.entries j)

theorem AlikeAt.refl (F : Filing V) (clear : V → V) (f : Filed V) (u : Slot) : AlikeAt F clear f f u :=
  ⟨fun _ => rfl, fun _ _ _ => Iff.rfl⟩

theorem AlikeAt.symm (alike : AlikeAt F clear f f' u) : AlikeAt F clear f' f u :=
  ⟨fun i => (alike.rows i).symm, fun j k entry => (alike.entries j k entry).symm⟩

theorem AlikeAt.of_sameAt (alike : AlikeAt F clear f f' u) (same : SameAt F f g u) :
    AlikeAt F clear g f' u := by
  refine ⟨fun i => ?_, fun j k entry => ?_⟩
  · rw [same.rows]
    exact alike.rows i
  · exact (same.entries j k entry).trans (alike.entries j k entry)

/-- A move that neither clears the slot nor brings a row for it leaves the slot alone. -/
theorem sameAt_spared (kept : m.cleared ≠ some u) (spared : ∀ v ∈ m.rows, F.slot v ≠ u) (f : Filed V) :
    SameAt F f (m.run F f) u := by
  refine (sameAt_run_iff kept).mpr ⟨fun i v found => ?_, fun j v member here => ?_⟩
  · obtain ⟨member, here, -⟩ := mem_of_last found
    exact absurd here (spared v member)
  · exact absurd here (spared v member)

/-- **Alike moves leave a slot alike**, wherever else they file rows. -/
theorem alikeAt_run (blanks : Blanks F clear) (moves : AlikeMoves clear m m')
    (alike : AlikeAt F clear f f' u) : AlikeAt F clear (m.run F f) (m'.run F f') u := by
  refine ⟨fun i => ?_, fun j k entry => ?_⟩
  · have tails := last_alike blanks moves.rows u i
    rw [row_run, row_run, moves.cleared]
    cases mine : last F m.rows u i with
    | none =>
        rw [mine] at tails
        rw [Option.map_eq_none_iff.mp tails]
        simp only [Option.map_none, Option.none_or]
        split
        · rfl
        · exact alike.rows i
    | some r =>
        rw [mine] at tails
        obtain ⟨r', found, here⟩ := Option.map_eq_some_iff.mp tails
        rw [found]
        exact congrArg some (blanks.stored r' r here).symm
  · have brings : ∀ {l l' : List V}, l'.map clear = l.map clear → (∃ v ∈ l', k ∈ F.keys j v) →
        ∃ v ∈ l, k ∈ F.keys j v := by
      rintro l l' same ⟨v, member, entered⟩
      have there : clear v ∈ l.map clear := same ▸ List.mem_map_of_mem member
      obtain ⟨w, member', here⟩ := List.mem_map.mp there
      exact ⟨w, member', blanks.keys j w v here ▸ entered⟩
    -- only rows of this slot hold entries of this slot
    have drops : ∀ {f f' : Filed V}, AlikeAt F clear f f' u →
        (∀ s, m.cleared = some s → ∀ i v, f.row s i = some v → k ∉ F.keys j v) →
        ∀ s, m.cleared = some s → ∀ i v, f'.row s i = some v → k ∉ F.keys j v := by
      intro f f' alike kept s cleared i v found entered
      have filed := Table.key_of_get found
      rw [F.filed] at filed
      obtain rfl : u = s := ((F.own j v u k entered).mp entry).symm.trans (scEventKey_injective filed).1
      have rows := alike.rows i
      rw [found] at rows
      obtain ⟨w, there, here⟩ := Option.map_eq_some_iff.mp rows
      exact kept u cleared i w there (blanks.keys j w v here ▸ entered)
    rw [entries_run, entries_run, moves.cleared]
    refine or_congr ⟨brings moves.rows.symm, brings moves.rows⟩ (and_congr ?_ ?_)
    · exact alike.entries j k entry
    · exact ⟨drops alike, drops alike.symm⟩

end Slots

/-! ### Events and transfers -/

theorem blanks_events : Blanks eventFiling id where
  slot _ _ same := congrArg _ same
  place _ _ same := congrArg _ same
  keys _ _ _ same := congrArg _ same
  stored _ _ same := same
  storedKeys _ _ := rfl

theorem blanks_transfers [Bs58Check] : Blanks transferFiling timelessTransfer where
  slot v w same := (congrArg StoredTransfer.slot same :)
  place v w same := (congrArg StoredTransfer.indexInSlot same :)
  keys j v w same := by
    have blind : ∀ t : StoredTransfer, transferFiling.keys j t = transferFiling.keys j (timelessTransfer t) := by
      intro t
      fin_cases j <;> rfl
    rw [blind v, blind w, same]
  stored v w same := congrArg (fun t : StoredTransfer => { t with origin := readBackOrigin t.origin }) same
  storedKeys j v := by fin_cases j <;> rfl

end Filed

end MassaIndexer.Store.Timeless
