/-
# Theory.Feed -- pages cut in entries, cursors that advance in rows

A request walks rows in batches. A row names ids, and an id the request has not met is read and what it
reads as is collected. The walk ends at the row that fills the page, or after so many rows; the next
request starts behind that row, and what is collected beyond the limit is dropped.

* `request_eq` -- one request walks one stretch of the rows.
* `reading_stretches` -- the requests end, and show the stretches one after another.
* `complete_iff` -- they show what every row names exactly when what each stretch drops is shown by some
  stretch.
* `length_shown_le` -- they show no more entries of a row than a page has room for.
-/
import MassaIndexer.Theory.PlaceCursor

namespace MassaIndexer.Theory.Feed

open MassaIndexer.Theory.Cursor

set_option autoImplicit false

/-! ## Requests -/

structure Feeder (ω κ ρ ι ν α : Type) where
  fetch : ω → Option κ → Nat → Page κ ρ
  key : ρ → κ
  named : ω → ρ → List ι
  label : ι → ν
  /-- Reading an id may change the world. -/
  read : ω → ι → ω × Option α

/-- How many entries a page shows, how many rows a request walks, and how many it fetches at once. -/
structure Budget where
  limit : Nat
  maxRows : Nat
  batch : Nat

structure Progress (ω ν α : Type) where
  world : ω
  seen : List ν := []
  out : List α := []

structure Walk (ω κ ν α : Type) where
  progress : Progress ω ν α
  cursor : Option κ
  scanned : Nat := 0
  next : Option κ := none

/-- The pages read from a cursor on, each in the world the one before left. -/
inductive Reading {ω κ α : Type} (call : ω → Option κ → ω × Page κ α) : ω → Option κ → List α → Prop where
  | done {w : ω} {c : Option κ} (last : (call w c).2.nextCursor = none) :
      Reading call w c (call w c).2.items
  | more {w : ω} {c : Option κ} {next : κ} {rest : List α} (goesOn : (call w c).2.nextCursor = some next)
      (later : Reading call (call w c).1 (some next) rest) :
      Reading call w c ((call w c).2.items ++ rest)

/-- A reading has one outcome. -/
theorem Reading.unique {ω κ α : Type} {call : ω → Option κ → ω × Page κ α} {w : ω} {c : Option κ}
    {read read' : List α} (walk : Reading call w c read) (walk' : Reading call w c read') :
    read = read' := by
  induction walk generalizing read' with
  | done last =>
      cases walk' with
      | done _ => rfl
      | more goesOn _ => rw [last] at goesOn; cases goesOn
  | more goesOn _ ih =>
      cases walk' with
      | done last => rw [last] at goesOn; cases goesOn
      | more goesOn' later' =>
          obtain rfl := Option.some.inj (goesOn.symm.trans goesOn')
          rw [ih later']

namespace Feeder

variable {ω κ ρ ι ν α : Type} (F : Feeder ω κ ρ ι ν α)

section Requests

variable [DecidableEq ν]

/-- The ids of a row, one after another. -/
def gather : List ι → Progress ω ν α → Progress ω ν α
  | [], st => st
  | id :: rest, st =>
      if F.label id ∈ st.seen then gather rest st
      else
        gather rest
          { world := (F.read st.world id).1
            seen := F.label id :: st.seen
            out := st.out ++ (F.read st.world id).2.toList }

/-- The rows of a batch, up to the one that fills the page. -/
def visit (limit : Nat) : List ρ → Walk ω κ ν α → Walk ω κ ν α
  | [], w => w
  | r :: rest, w =>
      let progress := F.gather (F.named w.progress.world r) w.progress
      if limit ≤ progress.out.length then
        { w with progress, scanned := w.scanned + 1, next := some (F.key r) }
      else visit limit rest { w with progress, scanned := w.scanned + 1 }

/-- Batch after batch; each has a row, so there are at most as many as rows to walk. -/
def walk (b : Budget) : Nat → Walk ω κ ν α → Walk ω κ ν α
  | 0, w => w
  | rounds + 1, w =>
      if w.scanned < b.maxRows then
        let page := F.fetch w.progress.world w.cursor (max 1 (min (b.maxRows - w.scanned) b.batch))
        if page.items.isEmpty then w
        else
          let visited := F.visit b.limit page.items w
          if visited.next.isSome then visited
          else if page.nextCursor.isNone then { visited with cursor := none }
          else walk b rounds { visited with cursor := page.nextCursor }
      else w

/-- Where the next request starts. -/
def nextOf (b : Budget) (w : Walk ω κ ν α) : Option κ :=
  if w.next.isNone && b.maxRows ≤ w.scanned then w.cursor else w.next

def request (b : Budget) (world : ω) (after : Option κ) : ω × Page κ α :=
  let walked := F.walk b b.maxRows { progress := { world }, cursor := after }
  (walked.progress.world, ⟨walked.progress.out.take b.limit, nextOf b walked⟩)

end Requests

/-! ## Stretches -/

section Stretches

variable [DecidableEq ι]

/-- The ids of a world, each a row that stands for itself. -/
def entries (w : ω) : PlacePager Unit ι ι α where
  key _ := ()
  before _ _ := false
  within _ := true
  place := some
  row id := (F.read w id).2

/-- What rows name reads as, each id once. -/
def found (w : ω) (rows : List ρ) : List α := (F.entries w).hits (rows.flatMap (F.named w)) []

/-- The rows one request walks after some it has walked, up to the one that fills the page. -/
def stretch (w : ω) (limit : Nat) : Nat → List ρ → List ρ → List ρ
  | 0, _, _ => []
  | _ + 1, _, [] => []
  | n + 1, before, r :: rest =>
      if limit ≤ (F.found w (before ++ [r])).length then [r]
      else r :: stretch w limit n (before ++ [r]) rest

variable {F} {w : ω} {limit : Nat}

theorem stretch_leads (n : Nat) (before rows : List ρ) : F.stretch w limit n before rows <+: rows := by
  induction n generalizing before rows with
  | zero => exact List.nil_prefix
  | succ n ih =>
      cases rows with
      | nil => exact List.nil_prefix
      | cons r rest =>
          rw [stretch]
          split
          · exact ⟨rest, rfl⟩
          · exact List.prefix_cons_inj r |>.mpr (ih _ _)

theorem stretch_ne_nil {n : Nat} {before rows : List ρ} (positive : 0 < n) (more : 0 < rows.length) :
    F.stretch w limit n before rows ≠ [] := by
  cases n with
  | zero => omega
  | succ n =>
      cases rows with
      | nil => simp at more
      | cons r rest =>
          rw [stretch]
          split <;> exact List.cons_ne_nil _ _

@[simp] theorem stretch_nil (n : Nat) (before : List ρ) : F.stretch w limit n before [] = [] := by
  cases n <;> rfl

theorem found_append (rows more : List ρ) :
    F.found w (rows ++ more) = F.found w rows ++
      (F.entries w).hits (more.flatMap (F.named w)) (rows.flatMap (F.named w)) := by
  have places : (rows.flatMap (F.named w)).filterMap (F.entries w).place = rows.flatMap (F.named w) :=
    List.filterMap_some
  rw [found, List.flatMap_append, PlacePager.hits_append, places, List.append_nil]
  rfl

theorem length_found_le (rows more : List ρ) :
    (F.found w rows).length ≤ (F.found w (rows ++ more)).length := by
  rw [found_append, List.length_append]
  exact Nat.le_add_right _ _

/-- A request walks over rows that do not fill the page. -/
theorem stretch_append {n : Nat} {before pre rest : List ρ} (within : pre.length ≤ n)
    (room : (F.found w (before ++ pre)).length < limit) :
    F.stretch w limit n before (pre ++ rest) =
      pre ++ F.stretch w limit (n - pre.length) (before ++ pre) rest := by
  induction pre generalizing n before with
  | nil => simp
  | cons r pre ih =>
      cases n with
      | zero => simp at within
      | succ n =>
          have split : before ++ r :: pre = (before ++ [r]) ++ pre := by simp
          rw [split] at room
          have here : ¬ limit ≤ (F.found w (before ++ [r])).length := by
            have grows := length_found_le (F := F) (w := w) (before ++ [r]) pre
            omega
          rw [List.cons_append, stretch, if_neg here, ih (by simpa using within) room, split]
          simp

/-- The row that fills the page ends the stretch. -/
theorem stretch_full {n : Nat} {before pre post : List ρ} {r : ρ} (within : pre.length < n)
    (room : (F.found w (before ++ pre)).length < limit)
    (full : limit ≤ (F.found w (before ++ (pre ++ [r]))).length) :
    F.stretch w limit n before (pre ++ r :: post) = pre ++ [r] := by
  rw [stretch_append (by omega) room]
  obtain ⟨m, left⟩ : ∃ m, n - pre.length = m + 1 := ⟨n - pre.length - 1, by omega⟩
  rw [← List.append_assoc] at full
  rw [left, stretch, if_pos full]

variable (F)

/-- The rows, cut where one request ends and the next begins. -/
def stretches (w : ω) (limit maxRows : Nat) (rows : List ρ) : List (List ρ) :=
  if _walks : 0 < maxRows ∧ 0 < rows.length then
    F.stretch w limit maxRows [] rows ::
      stretches w limit maxRows (rows.drop (F.stretch w limit maxRows [] rows).length)
  else []
termination_by rows.length
decreasing_by
  have walked : 0 < (F.stretch w limit maxRows [] rows).length :=
    List.length_pos_iff.mpr (stretch_ne_nil _walks.1 _walks.2)
  rw [List.length_drop]
  omega

end Stretches

/-! ## Worlds that look the same -/

structure Alike (w w' : ω) : Prop where
  fetch : F.fetch w' = F.fetch w
  named : F.named w' = F.named w
  value : ∀ id, (F.read w' id).2 = (F.read w id).2

variable {F}

theorem Alike.refl (w : ω) : F.Alike w w := ⟨rfl, rfl, fun _ => rfl⟩

theorem Alike.trans {w w' w'' : ω} (first : F.Alike w w') (second : F.Alike w' w'') :
    F.Alike w w'' where
  fetch := second.fetch.trans first.fetch
  named := second.named.trans first.named
  value id := (second.value id).trans (first.value id)

variable (F)

/-- Labels tell ids apart, and a read leaves a world that looks the same. -/
structure Steady : Prop where
  label : Function.Injective F.label
  read : ∀ w id, F.Alike w (F.read w id).1

/-- The page a fetch has of the rows that are left. -/
def pageOf (rest : List ρ) (n : Nat) : Page κ ρ :=
  ⟨rest.take n, if n < rest.length then (rest.take n).getLast?.map F.key else none⟩

/-- A cursor with these rows behind it. -/
def Stands (w : ω) (cursor : Option κ) (rest : List ρ) : Prop :=
  ∀ n, 0 < n → F.fetch w cursor n = F.pageOf rest n

/-- Fetches go through these rows, and go on behind any one of them. -/
structure Serves (w : ω) (rows : List ρ) : Prop where
  first : F.Stands w none rows
  after : ∀ pre r post, rows = pre ++ r :: post → F.Stands w (some (F.key r)) post

/-! ### Rows served by a scan -/

section Scan

variable {F} {w : ω} {σ : Type} [DecidableEq κ] {S : Pager κ σ ρ} {first : Option κ} {rows : List σ}
  {f : σ → ρ}

/-- A scan that keeps every row of a table serves its rows. -/
theorem serves_page (ordered : S.Ordered rows) (inside : ∀ r ∈ rows, S.within (S.key r) = true)
    (kept : ∀ r ∈ rows, S.hit r = some (f r)) (key : ∀ r ∈ rows, F.key (f r) = S.key r)
    (fetch : F.fetch w = S.page first rows) : F.Serves w ((S.seek rows first).map f) := by
  have part : ∀ r ∈ S.seek rows first, r ∈ rows := (Pager.seek_suffix rows first).subset
  have page : ∀ (rest : List σ) (n : Nat), (∀ r ∈ rest, r ∈ rows) → F.pageOf (rest.map f) n =
      ⟨(rest.map f).take n, if n < rest.length then (rest.take n).getLast?.map S.key else none⟩ := by
    intro rest n within
    have last : ((rest.map f).take n).getLast?.map F.key = (rest.take n).getLast?.map S.key := by
      rw [← List.map_take, List.getLast?_map, Option.map_map]
      exact Option.map_congr fun r ends =>
        key r (within r (List.mem_of_mem_take (List.mem_of_getLast? ends)))
    rw [pageOf, last, List.length_map]
  constructor
  · intro n positive
    rw [fetch, page _ n part, Pager.page, if_neg (Nat.pos_iff_ne_zero.mp positive), Option.none_or]
    exact Pager.loop_total positive (fun r member => inside r (part r member))
      (fun r member => kept r (part r member)) fun _ _ clash => by cases clash
  · intro pre v post split n positive
    obtain ⟨pre', rest, sought, rfl, behind⟩ := List.map_eq_append_iff.mp split
    obtain ⟨r, post', rfl, rfl, rfl⟩ := List.map_eq_cons_iff.mp behind
    obtain ⟨skipped, whole⟩ := Pager.seek_suffix (S := S) rows first
    rw [sought, ← List.append_assoc] at whole
    have within : ∀ x ∈ post', x ∈ rows := fun x member => by
      rw [← whole]
      simp [member]
    have stored : r ∈ rows := by
      rw [← whole]
      simp
    rw [fetch, page _ n within, key r stored]
    have inside' : S.within (S.key r) = true := inside r stored
    rw [← whole] at ordered ⊢
    rw [Pager.page_row positive ordered inside']
    exact Pager.loop_total positive (fun x member => inside x (within x member))
      (fun x member => kept x (within x member)) (Pager.fresh_behind ordered)

end Scan

/-! ## What a request collects -/

section Collect

variable [DecidableEq ι] [DecidableEq ν]

/-- A request that has met these ids. -/
structure Gathered (w : ω) (ids : List ι) (st : Progress ω ν α) : Prop where
  world : F.Alike w st.world
  seen : ∀ id, F.label id ∈ st.seen ↔ id ∈ ids
  out : st.out = (F.entries w).hits ids []

variable {F} {w : ω}

omit [DecidableEq ν] in
theorem gathered_start {world : ω} (alike : F.Alike w world) : F.Gathered w [] { world } where
  world := alike
  seen id := by simp
  out := rfl

omit [DecidableEq ν] in
theorem hits_snoc (ids : List ι) (id : ι) : (F.entries w).hits (ids ++ [id]) [] =
    (F.entries w).hits ids [] ++ if id ∈ ids then [] else (F.read w id).2.toList := by
  have places : ids.filterMap (F.entries w).place = ids := List.filterMap_some
  rw [PlacePager.hits_append, places, List.append_nil]
  congr 1
  split
  · next known => exact PlacePager.hits_seen rfl known
  · next new =>
      rw [PlacePager.hits_new rfl new]
      exact List.append_nil _

theorem gathered_gather (steady : F.Steady) {ids more : List ι} {st : Progress ω ν α}
    (gathered : F.Gathered w ids st) : F.Gathered w (ids ++ more) (F.gather more st) := by
  induction more generalizing ids st with
  | nil => simpa [gather] using gathered
  | cons id more ih =>
      have split : ids ++ id :: more = (ids ++ [id]) ++ more := by simp
      rw [split, gather]
      by_cases known : F.label id ∈ st.seen
      · rw [if_pos known]
        have met : id ∈ ids := (gathered.seen id).mp known
        refine ih ⟨gathered.world, fun x => ?_, ?_⟩
        · rw [gathered.seen, List.mem_append, List.mem_singleton]
          exact ⟨.inl, fun either => either.elim (fun old => old) (fun same => same ▸ met)⟩
        · rw [gathered.out, hits_snoc, if_pos met, List.append_nil]
      · rw [if_neg known]
        have new : id ∉ ids := fun met => known ((gathered.seen id).mpr met)
        refine ih ⟨gathered.world.trans (steady.read _ _), fun x => ?_, ?_⟩
        · rw [List.mem_cons, gathered.seen, List.mem_append, List.mem_singleton,
            steady.label.eq_iff, or_comm]
        · rw [gathered.out, hits_snoc, if_neg new, gathered.world.value]

/-- A batch ends open, or at the row that fills the page. -/
theorem visit_cases (steady : F.Steady) {limit : Nat} {before : List ρ} (items : List ρ)
    {v : Walk ω κ ν α}
    (gathered : F.Gathered w (before.flatMap (F.named w)) v.progress)
    (room : (F.found w before).length < limit) :
    (∃ progress, F.Gathered w ((before ++ items).flatMap (F.named w)) progress ∧
        (F.found w (before ++ items)).length < limit ∧
        F.visit limit items v = { v with progress, scanned := v.scanned + items.length }) ∨
      ∃ pre r post progress, items = pre ++ r :: post ∧
        (F.found w (before ++ pre)).length < limit ∧
        limit ≤ (F.found w (before ++ (pre ++ [r]))).length ∧
        F.Gathered w ((before ++ (pre ++ [r])).flatMap (F.named w)) progress ∧
        F.visit limit items v =
          { v with progress, scanned := v.scanned + (pre.length + 1), next := some (F.key r) } := by
  induction items generalizing before v with
  | nil =>
      refine .inl ⟨v.progress, ?_, ?_, rfl⟩
      · simpa using gathered
      · simpa using room
  | cons r items ih =>
      have here : F.Gathered w ((before ++ [r]).flatMap (F.named w))
          (F.gather (F.named v.progress.world r) v.progress) := by
        rw [List.flatMap_append, List.flatMap_singleton, gathered.world.named]
        exact gathered_gather steady gathered
      by_cases full : limit ≤ (F.found w (before ++ [r])).length
      · right
        refine ⟨[], r, items, _, rfl, by simpa using room, full, here, ?_⟩
        rw [visit, here.out]
        exact if_pos full
      · have goesOn : F.visit limit (r :: items) v = F.visit limit items { v with
            progress := F.gather (F.named v.progress.world r) v.progress
            scanned := v.scanned + 1 } := by
          rw [visit, here.out]
          exact if_neg full
        rw [goesOn]
        rcases ih (v := { v with
            progress := F.gather (F.named v.progress.world r) v.progress
            scanned := v.scanned + 1 }) here (Nat.not_le.mp full) with
          ⟨progress, after, open_, whole⟩ | ⟨pre, x, post, progress, rfl, open_, filled, after, whole⟩
        · left
          refine ⟨progress, by simpa using after, by simpa using open_, ?_⟩
          rw [whole, List.length_cons]
          simp only [Nat.add_assoc, Nat.add_comm 1]
        · right
          refine ⟨r :: pre, x, post, progress, rfl, by simpa using open_, by simpa using filled,
            by simpa using after, ?_⟩
          rw [whole, List.length_cons]
          simp only [Nat.add_assoc, Nat.add_comm 1]

/-- Where a request leaves its cursor that walked these rows, of more or no more. -/
def cursorAfter (F : Feeder ω κ ρ ι ν α) (w : ω) (limit : Nat) (walked rest : List ρ) : Option κ :=
  if limit ≤ (F.found w walked).length ∨ rest ≠ [] then walked.getLast?.map F.key else none

/-- A request between two batches. -/
structure Walking (F : Feeder ω κ ρ ι ν α) (w : ω) (b : Budget) (rows walked rest : List ρ)
    (v : Walk ω κ ν α) : Prop where
  behind : walked ++ rest <:+ rows
  stands : F.Stands w v.cursor rest
  gathered : F.Gathered w (walked.flatMap (F.named w)) v.progress
  room : (F.found w walked).length < b.limit
  scanned : v.scanned = walked.length
  inside : walked.length ≤ b.maxRows
  unfilled : v.next = none
  goesOn : walked ≠ [] → rest ≠ [] ∧ v.cursor = walked.getLast?.map F.key

/-! ### Between two batches -/

section Batches

variable {b : Budget} {rounds : Nat} {v : Walk ω κ ν α} {items : List ρ} {c : Option κ}

omit [DecidableEq ι] in
theorem walk_spent (spent : b.maxRows ≤ v.scanned) : F.walk b rounds v = v := by
  cases rounds with
  | zero => rfl
  | succ rounds => rw [walk, if_neg (Nat.not_lt.mpr spent)]

variable (left : v.scanned < b.maxRows)
  (page : F.fetch v.progress.world v.cursor (max 1 (min (b.maxRows - v.scanned) b.batch)) = ⟨items, c⟩)

include left page

omit [DecidableEq ι] in
theorem walk_empty (empty : items = []) : F.walk b (rounds + 1) v = v := by
  rw [walk, if_pos left, page, empty]
  rfl

omit [DecidableEq ι] in
theorem walk_nonempty (some_ : items ≠ []) : F.walk b (rounds + 1) v =
    if (F.visit b.limit items v).next.isSome then F.visit b.limit items v
    else if c.isNone then { F.visit b.limit items v with cursor := none }
    else F.walk b rounds { F.visit b.limit items v with cursor := c } := by
  have nonempty : items.isEmpty = false := by simpa using some_
  rw [walk, if_pos left, page]
  simp only [nonempty, Bool.false_eq_true, if_false]

end Batches

/-- A request that, with some rows walked, goes on to walk its stretch of the rest. -/
def EndsStretch (F : Feeder ω κ ρ ι ν α) (w : ω) (b : Budget) (walked rest : List ρ)
    (v : Walk ω κ ν α) : Prop :=
  ∃ here later, here = F.stretch w b.limit (b.maxRows - walked.length) walked rest ∧
    rest = here ++ later ∧ F.Gathered w ((walked ++ here).flatMap (F.named w)) v.progress ∧
    nextOf b v = F.cursorAfter w b.limit (walked ++ here) later

section Ends

variable {b : Budget} {rows walked rest : List ρ} {v : Walk ω κ ν α} {progress : Progress ω ν α}

omit [DecidableEq ν]

/-- It has walked what it may. -/
theorem Walking.spent (walking : F.Walking w b rows walked rest v) (positive : 0 < b.maxRows)
    (spent : b.maxRows ≤ walked.length) : F.EndsStretch w b walked rest v := by
  have none_ : b.maxRows - walked.length = 0 := by omega
  refine ⟨[], rest, ?_, rfl, ?_, ?_⟩
  · rw [none_]
    rfl
  · simpa using walking.gathered
  · have some_ : walked ≠ [] := by
      rintro rfl
      simp at spent
      omega
    obtain ⟨more, cursor⟩ := walking.goesOn some_
    rw [List.append_nil, cursorAfter, if_pos (.inr more), ← cursor, nextOf, walking.unfilled,
      walking.scanned]
    simp [spent]

/-- There is no row. -/
theorem Walking.empty (walking : F.Walking w b rows walked [] v) (positive : 0 < b.maxRows) :
    F.EndsStretch w b walked [] v := by
  refine ⟨[], [], (stretch_nil _ _).symm, rfl, ?_, ?_⟩
  · simpa using walking.gathered
  · have none_ : walked = [] := by
      by_contra some_
      exact (walking.goesOn some_).1 rfl
    have room := walking.room
    have open_ : ¬ (b.limit ≤ (F.found w (walked ++ [])).length ∨ ([] : List ρ) ≠ []) := by
      simpa using room
    rw [cursorAfter, if_neg open_, nextOf, walking.unfilled, walking.scanned, none_]
    simp
    omega

/-- A batch takes the rest, and the page is not full. -/
theorem Walking.ended (walking : F.Walking w b rows walked rest v)
    (inside : rest.length ≤ b.maxRows - walked.length)
    (gathered : F.Gathered w ((walked ++ rest).flatMap (F.named w)) progress)
    (room : (F.found w (walked ++ rest)).length < b.limit) (scanned : Nat) :
    F.EndsStretch w b walked rest { v with progress, scanned, cursor := none } := by
  refine ⟨rest, [], ?_, (List.append_nil _).symm, gathered, ?_⟩
  · have whole : F.stretch w b.limit (b.maxRows - walked.length) walked (rest ++ []) = rest ++ _ :=
      stretch_append inside room
    rw [stretch_nil, List.append_nil] at whole
    exact whole.symm
  · have open_ : ¬ (b.limit ≤ (F.found w (walked ++ rest)).length ∨ ([] : List ρ) ≠ []) := by
      simpa using room
    rw [cursorAfter, if_neg open_, nextOf]
    simp [walking.unfilled]

/-- A row of a batch fills the page. -/
theorem endsStretch_full {pre post : List ρ} {r : ρ} (within : pre.length < b.maxRows - walked.length)
    (room : (F.found w (walked ++ pre)).length < b.limit)
    (full : b.limit ≤ (F.found w (walked ++ (pre ++ [r]))).length)
    (gathered : F.Gathered w ((walked ++ (pre ++ [r])).flatMap (F.named w)) progress) (scanned : Nat) :
    F.EndsStretch w b walked (pre ++ r :: post)
      { v with progress, scanned, next := some (F.key r) } := by
  refine ⟨pre ++ [r], post, ?_, by simp, gathered, ?_⟩
  · rw [stretch_full within room full]
  · rw [cursorAfter, if_pos (.inl full), ← List.append_assoc, List.getLast?_concat, nextOf]
    rfl

/-- A batch leaves room, and rows behind it. -/
theorem Walking.onward {init : List ρ} {r : ρ} (serves : F.Serves w rows)
    (walking : F.Walking w b rows walked (init ++ [r] ++ rest) v)
    (inside : (init ++ [r]).length ≤ b.maxRows - walked.length)
    (gathered : F.Gathered w ((walked ++ (init ++ [r])).flatMap (F.named w)) progress)
    (room : (F.found w (walked ++ (init ++ [r]))).length < b.limit) (more : rest ≠ []) :
    F.Walking w b rows (walked ++ (init ++ [r])) rest
      { v with progress, scanned := v.scanned + (init ++ [r]).length, cursor := some (F.key r) } where
  behind := by
    rw [List.append_assoc]
    exact walking.behind
  stands := by
    obtain ⟨pre, whole⟩ := walking.behind
    exact serves.after (pre ++ (walked ++ init)) r rest (by rw [← whole]; simp)
  gathered := gathered
  room := room
  scanned := by rw [walking.scanned, ← List.length_append]
  inside := by
    have before := walking.inside
    rw [List.length_append]
    omega
  unfilled := walking.unfilled
  goesOn _ := ⟨more, by rw [← List.append_assoc, List.getLast?_concat]; rfl⟩

theorem EndsStretch.behind {batch : List ρ} (inside : batch.length ≤ b.maxRows - walked.length)
    (room : (F.found w (walked ++ batch)).length < b.limit)
    (ends : F.EndsStretch w b (walked ++ batch) rest v) : F.EndsStretch w b walked (batch ++ rest) v := by
  obtain ⟨here, later, stretched, split, gathered, next⟩ := ends
  refine ⟨batch ++ here, later, ?_, ?_, ?_, ?_⟩
  · rw [stretched, stretch_append inside room, List.length_append, Nat.sub_sub]
  · rw [List.append_assoc, ← split]
  · rw [← List.append_assoc]
    exact gathered
  · rw [← List.append_assoc]
    exact next

end Ends

/-- **Batches walk one stretch.** -/
theorem endsStretch_walk (steady : F.Steady) {b : Budget} {rows : List ρ} (serves : F.Serves w rows)
    (positive : 0 < b.maxRows) (rounds : Nat) {walked rest : List ρ} {v : Walk ω κ ν α}
    (walking : F.Walking w b rows walked rest v) (enough : b.maxRows ≤ walked.length + rounds) :
    F.EndsStretch w b walked rest (F.walk b rounds v) := by
  induction rounds generalizing walked rest v with
  | zero => exact walking.spent positive (by omega)
  | succ rounds ih =>
      by_cases spent : b.maxRows ≤ walked.length
      · rw [walk_spent (by rw [walking.scanned]; exact spent)]
        exact walking.spent positive spent
      · have left : v.scanned < b.maxRows := by rw [walking.scanned]; omega
        obtain ⟨n, batch⟩ : ∃ n, n = max 1 (min (b.maxRows - v.scanned) b.batch) := ⟨_, rfl⟩
        have some_ : 0 < n := by omega
        have few : n ≤ b.maxRows - walked.length := by
          rw [walking.scanned] at batch left
          omega
        have page : F.fetch v.progress.world v.cursor n = F.pageOf rest n := by
          rw [walking.gathered.world.fetch]
          exact walking.stands n some_
        rw [batch] at page
        have short : (rest.take n).length ≤ n := List.length_take_le n rest
        have parts : rest.take n ++ rest.drop n = rest := List.take_append_drop n rest
        rcases List.eq_nil_or_concat (rest.take n) with empty | ⟨init, x, filled⟩
        · have nothing : rest = [] := (List.take_eq_nil_iff.mp empty).resolve_left (by omega)
          rw [walk_empty left page (by rw [← batch]; exact empty)]
          subst nothing
          exact walking.empty positive
        · rw [List.concat_eq_append] at filled
          have nonempty : rest.take n ≠ [] := by simp [filled]
          rw [walk_nonempty left page (by rw [← batch]; exact nonempty), ← batch]
          rcases visit_cases steady (rest.take n) walking.gathered walking.room with
            ⟨progress, after, open_, visited⟩ | ⟨pre, y, post, progress, split, open_, full, after, visited⟩
          · have unfilled : (F.visit b.limit (rest.take n) v).next.isSome = false := by
              rw [visited]
              simp [walking.unfilled]
            rw [unfilled, visited]
            simp only [Bool.false_eq_true, if_false]
            by_cases more : n < rest.length
            · have goesOn : (rest.take n).getLast?.map F.key = some (F.key x) := by
                rw [filled, List.getLast?_concat]
                rfl
              have behind : rest.drop n ≠ [] := by
                rw [ne_eq, List.drop_eq_nil_iff]
                omega
              rw [if_pos more, goesOn]
              simp only [Option.isNone_some, Bool.false_eq_true, if_false]
              rw [filled] at after open_ short parts ⊢
              rw [← parts] at walking ⊢
              have onward := walking.onward serves (by omega) after open_ behind
              have grows : b.maxRows ≤ (walked ++ (init ++ [x])).length + rounds := by
                rw [List.length_append, List.length_append, List.length_singleton]
                omega
              exact (ih onward grows).behind (by omega) open_
            · have all : rest.take n = rest := List.take_of_length_le (Nat.not_lt.mp more)
              rw [all] at after open_ short
              rw [if_neg more, all]
              simp only [Option.isNone_none, if_true]
              exact walking.ended (Nat.le_trans short few) after open_ _
          · have whole : rest = pre ++ y :: (post ++ rest.drop n) := by
              rw [← List.cons_append, ← List.append_assoc, ← split, parts]
            have within : pre.length < b.maxRows - walked.length := by
              rw [split, List.length_append, List.length_cons] at short
              omega
            rw [visited]
            simp only [Option.isSome_some, if_true]
            rw [whole]
            exact endsStretch_full within open_ full after _

/-- **A request shows the head of its stretch**, and hands out a cursor while its page is full or rows are
left. -/
theorem request_eq (steady : F.Steady) {b : Budget} {rows rest : List ρ} (serves : F.Serves w rows)
    (limit : 0 < b.limit) (positive : 0 < b.maxRows) {world : ω} (alike : F.Alike w world)
    {cursor : Option κ} (behind : rest <:+ rows) (stands : F.Stands w cursor rest) :
    ∃ here later, here = F.stretch w b.limit b.maxRows [] rest ∧ rest = here ++ later ∧
      F.Alike w (F.request b world cursor).1 ∧
      (F.request b world cursor).2 =
        ⟨(F.found w here).take b.limit, F.cursorAfter w b.limit here later⟩ := by
  have walking : F.Walking w b rows [] rest { progress := { world }, cursor } := {
    behind := behind
    stands := stands
    gathered := gathered_start alike
    room := limit
    scanned := rfl
    inside := Nat.zero_le _
    unfilled := rfl
    goesOn := fun some_ => absurd rfl some_ }
  obtain ⟨here, later, stretched, split, gathered, next⟩ :=
    endsStretch_walk steady serves positive b.maxRows walking (by simp)
  refine ⟨here, later, stretched, split, gathered.world, ?_⟩
  show (⟨(F.walk b b.maxRows _).progress.out.take b.limit, nextOf b _⟩ : Page κ α) = _
  rw [gathered.out, next]
  rfl

/-! ## All requests -/

variable (F) in
/-- What the requests show. -/
def shown (w : ω) (b : Budget) (rows : List ρ) : List α :=
  (F.stretches w b.limit b.maxRows rows).flatMap fun st => (F.found w st).take b.limit

omit [DecidableEq ν] in
theorem stretches_cons {limit maxRows : Nat} {rows : List ρ} (positive : 0 < maxRows)
    (more : 0 < rows.length) : F.stretches w limit maxRows rows =
      F.stretch w limit maxRows [] rows ::
        F.stretches w limit maxRows (rows.drop (F.stretch w limit maxRows [] rows).length) := by
  rw [stretches, dif_pos ⟨positive, more⟩]

omit [DecidableEq ν] in
@[simp] theorem stretches_nil (limit maxRows : Nat) : F.stretches w limit maxRows [] = [] := by
  rw [stretches, dif_neg (by simp)]

/-- **The requests end, and show the stretches one after another.** -/
theorem reading_stretches (steady : F.Steady) {b : Budget} {rows rest : List ρ}
    (serves : F.Serves w rows) (limit : 0 < b.limit) (positive : 0 < b.maxRows) {world : ω}
    (alike : F.Alike w world) {cursor : Option κ} (behind : rest <:+ rows)
    (stands : F.Stands w cursor rest) : Reading (F.request b) world cursor (F.shown w b rest) := by
  induction size : rest.length using Nat.strong_induction_on generalizing rest world cursor with
  | _ n ih =>
      obtain ⟨here, later, stretched, split, alike', page⟩ :=
        request_eq steady serves limit positive alike behind stands
      rcases Nat.eq_zero_or_pos rest.length with none_ | some_
      · have nothing : rest = [] := List.eq_nil_of_length_eq_zero none_
        subst nothing
        obtain ⟨rfl, rfl⟩ := List.append_eq_nil_iff.mp split.symm
        have last : (F.request b world cursor).2.nextCursor = none := by
          rw [page]
          have open_ : ¬ (b.limit ≤ (F.found w []).length ∨ ([] : List ρ) ≠ []) := by
            simpa [found, PlacePager.hits] using Nat.pos_iff_ne_zero.mp limit
          exact if_neg open_
        have whole : Reading (F.request b) world cursor _ := .done last
        rw [page] at whole
        simpa [shown, found, PlacePager.hits] using whole
      · have taken : here ≠ [] := stretched ▸ stretch_ne_nil positive some_
        have whole : F.shown w b rest = (F.found w here).take b.limit ++ F.shown w b later := by
          rw [shown, stretches_cons positive some_, ← stretched, List.flatMap_cons, split,
            List.drop_left]
          rfl
        by_cases goesOn : b.limit ≤ (F.found w here).length ∨ later ≠ []
        · obtain ⟨init, x, rfl⟩ := (List.eq_nil_or_concat here).resolve_left taken
          rw [List.concat_eq_append] at *
          have next : (F.request b world cursor).2.nextCursor = some (F.key x) := by
            rw [page, cursorAfter, if_pos goesOn, List.getLast?_concat]
            rfl
          obtain ⟨pre, all⟩ := behind
          have behind' : later <:+ rows := ⟨pre ++ (init ++ [x]), by rw [← all, split]; simp⟩
          have stands' : F.Stands w (some (F.key x)) later :=
            serves.after (pre ++ init) x later (by rw [← all, split]; simp)
          have rest' := ih later.length (by rw [← size, split]; simp; omega) alike' behind' stands' rfl
          rw [whole]
          have read := Reading.more next rest'
          rwa [page] at read
        · obtain ⟨-, done⟩ := not_or.mp goesOn
          rw [not_not] at done
          subst done
          have last : (F.request b world cursor).2.nextCursor = none := by
            rw [page]
            exact if_neg goesOn
          have read : Reading (F.request b) world cursor _ := .done last
          rw [page] at read
          rw [whole]
          simpa [shown] using read

/-! ## What the requests show of the rows -/

omit [DecidableEq ν]

theorem flatten_stretches {limit maxRows : Nat} (positive : 0 < maxRows) (rows : List ρ) :
    (F.stretches w limit maxRows rows).flatten = rows := by
  induction size : rows.length using Nat.strong_induction_on generalizing rows with
  | _ n ih =>
      rcases Nat.eq_zero_or_pos rows.length with none_ | some_
      · rw [List.eq_nil_of_length_eq_zero none_, stretches_nil]
        rfl
      · have taken := List.length_pos_iff.mpr
          (stretch_ne_nil positive some_ : F.stretch w limit maxRows [] rows ≠ [])
        rw [stretches_cons positive some_, List.flatten_cons,
          ih _ (by rw [List.length_drop]; omega) _ rfl]
        exact List.prefix_iff_eq_append.mp (stretch_leads maxRows [] rows)

theorem mem_found {rows : List ρ} {v : α} :
    v ∈ F.found w rows ↔ ∃ r ∈ rows, ∃ id ∈ F.named w r, (F.read w id).2 = some v := by
  rw [found, PlacePager.mem_hits]
  constructor
  · rintro ⟨id, named, other, place, -, read⟩
    obtain rfl : id = other := Option.some.inj place
    obtain ⟨r, member, names⟩ := List.mem_flatMap.mp named
    exact ⟨r, member, id, names, read⟩
  · rintro ⟨r, member, id, names, read⟩
    exact ⟨id, List.mem_flatMap.mpr ⟨r, member, names⟩, id, rfl, List.not_mem_nil, read⟩

/-- **What the rows name is all shown exactly when what the stretches drop is shown by some stretch.** -/
theorem complete_iff {b : Budget} (positive : 0 < b.maxRows) (rows : List ρ) :
    (∀ r ∈ rows, ∀ id ∈ F.named w r, ∀ v, (F.read w id).2 = some v → v ∈ F.shown w b rows) ↔
      ∀ st ∈ F.stretches w b.limit b.maxRows rows, ∀ v ∈ (F.found w st).drop b.limit,
        v ∈ F.shown w b rows := by
  have whole : (F.stretches w b.limit b.maxRows rows).flatten = rows := flatten_stretches positive rows
  constructor
  · intro complete st member v dropped
    obtain ⟨r, row, id, names, read⟩ := mem_found.mp (List.mem_of_mem_drop dropped)
    refine complete r ?_ id names v read
    rw [← whole]
    exact List.mem_flatten.mpr ⟨st, member, row⟩
  · intro kept r row id names v read
    rw [← whole] at row
    obtain ⟨st, member, here⟩ := List.mem_flatten.mp row
    have found_ : v ∈ F.found w st := mem_found.mpr ⟨r, here, id, names, read⟩
    rw [← List.take_append_drop b.limit (F.found w st)] at found_
    rcases List.mem_append.mp found_ with first | dropped
    · exact List.mem_flatMap.mpr ⟨st, member, first⟩
    · exact kept st member v dropped

theorem hits_sublist (ids seen : List ι) :
    ((F.entries w).hits ids seen).Sublist (ids.filterMap fun id => (F.read w id).2) := by
  induction ids generalizing seen with
  | nil => exact List.Sublist.refl _
  | cons id ids ih =>
      rw [← List.singleton_append, List.filterMap_append]
      by_cases known : id ∈ seen
      · rw [List.singleton_append, PlacePager.hits_seen rfl known]
        exact (ih seen).trans (List.sublist_append_right _ _)
      · rw [List.singleton_append, PlacePager.hits_new rfl known]
        refine List.Sublist.append ?_ (ih (id :: seen))
        show (F.read w id).2.toList.Sublist ([id].filterMap fun id => (F.read w id).2)
        cases value : (F.read w id).2 <;> simp [value]

theorem length_stretches_le {limit maxRows : Nat} (positive : 0 < maxRows) (rows : List ρ) :
    (F.stretches w limit maxRows rows).length ≤ rows.length := by
  induction size : rows.length using Nat.strong_induction_on generalizing rows with
  | _ n ih =>
      rcases Nat.eq_zero_or_pos rows.length with none_ | some_
      · rw [List.eq_nil_of_length_eq_zero none_, stretches_nil]
        exact Nat.zero_le _
      · have taken := List.length_pos_iff.mpr
          (stretch_ne_nil positive some_ : F.stretch w limit maxRows [] rows ≠ [])
        have later := ih _ (by rw [List.length_drop]; omega)
          (rows.drop (F.stretch w limit maxRows [] rows).length) rfl
        rw [List.length_drop] at later
        rw [stretches_cons positive some_, List.length_cons]
        omega

/-- As many pages as rows can have entries, and no page has more than the limit. -/
theorem length_shown_le {b : Budget} (positive : 0 < b.maxRows) (rows : List ρ) :
    (F.shown w b rows).length ≤ rows.length * b.limit := by
  have pages : ∀ cuts : List (List ρ),
      (cuts.flatMap fun st => (F.found w st).take b.limit).length ≤ cuts.length * b.limit := by
    intro cuts
    induction cuts with
    | nil => exact Nat.zero_le _
    | cons st cuts ih =>
        have first := List.length_take_le b.limit (F.found w st)
        rw [List.flatMap_cons, List.length_append, List.length_cons, Nat.succ_mul]
        omega
  exact (pages _).trans (Nat.mul_le_mul_right _ (length_stretches_le positive rows))

/-- Entries are shown row by row. -/
theorem shown_sublist {b : Budget} (positive : 0 < b.maxRows) (rows : List ρ) :
    (F.shown w b rows).Sublist
      (rows.flatMap fun r => (F.named w r).filterMap fun id => (F.read w id).2) := by
  have whole : (F.stretches w b.limit b.maxRows rows).flatten = rows := flatten_stretches positive rows
  rw [shown]
  conv_rhs => rw [← whole]
  generalize F.stretches w b.limit b.maxRows rows = cuts
  induction cuts with
  | nil => exact List.Sublist.refl _
  | cons st cuts ih =>
      rw [List.flatMap_cons, List.flatten_cons, List.flatMap_append]
      refine List.Sublist.append ((List.take_sublist _ _).trans ?_) ih
      show (F.found w st).Sublist _
      rw [← List.filterMap_flatMap]
      exact hits_sublist _ []

end Collect

end Feeder

end MassaIndexer.Theory.Feed
