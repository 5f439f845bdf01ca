/-
# Theory.Cursor -- reading an ordered table page by page

A scan seeks to a key, reads rows in order until one lies outside its range, and keeps what the rows
resolve to. A page that is full when another row of the range comes up names the key of the last row
it kept; the next call seeks to that key and passes over the row itself. Rows that resolve to nothing
are passed over and are no cursor, so they are read again by the next call.

* `loop_cases` -- a page ends with its range, or at a kept row that has more of the range behind it.
* `follows_all` -- following the cursors ends, and reads what the range holds: each row once, in order.
* `page_unlimited` -- so does one call that no limit cuts short.
-/
import Mathlib.Data.List.TakeWhile
import Mathlib.Tactic.Common

namespace MassaIndexer.Theory.Cursor

set_option autoImplicit false

structure Page (κ α : Type) where
  items : List α := []
  nextCursor : Option κ := none
deriving DecidableEq

/-- The pages read from a cursor on, each call at the cursor of the one before, until one has none. -/
inductive Follows {κ α : Type} (call : Option κ → Page κ α) : Option κ → List α → Prop where
  | done {c : Option κ} (last : (call c).nextCursor = none) : Follows call c (call c).items
  | more {c : Option κ} {next : κ} {rest : List α} (goesOn : (call c).nextCursor = some next)
      (later : Follows call (some next) rest) : Follows call c ((call c).items ++ rest)

/-- A walk from a cursor has one outcome. -/
theorem Follows.unique {κ α : Type} {call : Option κ → Page κ α} {c : Option κ} {read read' : List α}
    (walk : Follows call c read) (walk' : Follows call c read') : read = read' := by
  induction walk generalizing read' with
  | done last =>
      cases walk' with
      | done _ => rfl
      | more goesOn _ => rw [last] at goesOn; cases goesOn
  | more goesOn _ ih =>
      cases walk' with
      | done last => rw [last] at goesOn; cases goesOn
      | more goesOn' later' =>
          obtain rfl := Option.some.inj (goesOn.symm.trans goesOn')
          rw [ih later']

/-- Pages whose items are shown differently. -/
theorem Follows.map {κ α β : Type} {call : Option κ → Page κ α} {c : Option κ} {read : List α} (f : α → β)
    (walk : Follows call c read) :
    Follows (fun c => ⟨(call c).items.map f, (call c).nextCursor⟩) c (read.map f) := by
  induction walk with
  | done last => exact .done last
  | more goesOn _ ih =>
      rw [List.map_append]
      exact .more goesOn ih

/-- One kind of scan: the key of a row, the keys an iterator skips when it seeks to a start, the range
it stays in, and what a row resolves to. -/
structure Pager (κ ρ α : Type) where
  key : ρ → κ
  before : κ → κ → Bool
  within : κ → Bool
  hit : ρ → Option α

namespace Pager

variable {κ ρ α : Type} (S : Pager κ ρ α)

def seek (rows : List ρ) : Option κ → List ρ
  | none => rows
  | some start => rows.dropWhile fun r => S.before (S.key r) start

/-- The rows at the head of a list that a scan reads. -/
def range (rows : List ρ) : List ρ := rows.takeWhile fun r => S.within (S.key r)

def hits (rows : List ρ) : List α := (S.range rows).filterMap S.hit

/-- Rows in the order in which an iterator meets them. -/
structure Ordered (rows : List ρ) : Prop where
  irrefl : ∀ k, S.before k k = false
  sorted : rows.Pairwise fun r r' => S.before (S.key r) (S.key r') = true

section Range

variable {S}

theorem seek_suffix (rows : List ρ) (start : Option κ) : S.seek rows start <:+ rows := by
  cases start with
  | none => exact List.suffix_rfl
  | some start => exact List.dropWhile_suffix _

@[simp] theorem range_nil : S.range [] = [] := rfl

theorem range_cons_of_within {r : ρ} {rest : List ρ} (inside : S.within (S.key r) = true) :
    S.range (r :: rest) = r :: S.range rest := List.takeWhile_cons_of_pos inside

theorem range_cons_of_not_within {r : ρ} {rest : List ρ} (outside : S.within (S.key r) = false) :
    S.range (r :: rest) = [] := List.takeWhile_cons_of_neg (by simp [outside])

theorem range_append {pre rest : List ρ} (inside : ∀ r ∈ pre, S.within (S.key r) = true) :
    S.range (pre ++ rest) = pre ++ S.range rest := by
  induction pre with
  | nil => rfl
  | cons r pre ih =>
      show S.range (r :: (pre ++ rest)) = _
      rw [range_cons_of_within (inside r List.mem_cons_self),
        ih fun x member => inside x (List.mem_cons_of_mem r member)]
      rfl

theorem hits_append {pre rest : List ρ} (inside : ∀ r ∈ pre, S.within (S.key r) = true) :
    S.hits (pre ++ rest) = pre.filterMap S.hit ++ S.hits rest := by
  show (S.range (pre ++ rest)).filterMap S.hit = _
  rw [range_append inside, List.filterMap_append]
  rfl

end Range

variable [DecidableEq κ]

def loop (after : Option κ) (limit : Nat) : List ρ → List α → Option κ → Page κ α
  | [], items, _ => { items }
  | r :: rest, items, lastKey =>
      if !S.within (S.key r) then { items }
      else if after = some (S.key r) then loop after limit rest items lastKey
      else if limit ≤ items.length then { items, nextCursor := lastKey }
      else
        match S.hit r with
        | some v => loop after limit rest (items ++ [v]) (some (S.key r))
        | none => loop after limit rest items lastKey

/-- One call: it starts at the cursor, or else at the start of the range. -/
def page (first : Option κ) (rows : List ρ) (after : Option κ) (limit : Nat) : Page κ α :=
  if limit = 0 then {} else S.loop after limit (S.seek rows (after.or first)) [] none

variable {S}

section Loop

variable {after : Option κ} {limit : Nat}

/-- A full page only looks whether the range goes on. -/
theorem loop_full {rows : List ρ} {items : List α} {lastKey : Option κ}
    (fresh : ∀ r ∈ rows, after ≠ some (S.key r)) (full : limit ≤ items.length) :
    S.loop after limit rows items lastKey =
      { items, nextCursor := if S.range rows = [] then none else lastKey } := by
  cases rows with
  | nil => rfl
  | cons r rest =>
      have other : after ≠ some (S.key r) := fresh r List.mem_cons_self
      cases inside : S.within (S.key r) with
      | false => simp [loop, inside, range_cons_of_not_within inside]
      | true => simp [loop, inside, other, full, range_cons_of_within inside]

/-- **A page ends with its range, or at a kept row that has more of the range behind it.** -/
theorem loop_cases {rows : List ρ} (items : List α) (lastKey : Option κ)
    (fresh : ∀ r ∈ rows, after ≠ some (S.key r)) (room : items.length < limit) :
    S.loop after limit rows items lastKey = { items := items ++ S.hits rows } ∨
      ∃ pre r post, rows = pre ++ r :: post ∧ (∀ x ∈ pre ++ [r], S.within (S.key x) = true) ∧
        S.range post ≠ [] ∧ (items ++ (pre ++ [r]).filterMap S.hit).length = limit ∧
        S.loop after limit rows items lastKey =
          { items := items ++ (pre ++ [r]).filterMap S.hit, nextCursor := some (S.key r) } := by
  induction rows generalizing items lastKey with
  | nil => exact .inl (by simp [loop, hits])
  | cons r rest ih =>
      have other : after ≠ some (S.key r) := fresh r List.mem_cons_self
      have freshRest : ∀ x ∈ rest, after ≠ some (S.key x) := fun x member =>
        fresh x (List.mem_cons_of_mem r member)
      cases inside : S.within (S.key r) with
      | false =>
          left
          have nothing : S.hits (r :: rest) = [] := by
            rw [hits, range_cons_of_not_within inside]
            rfl
          simp [loop, inside, nothing]
      | true =>
          have here : ∀ x ∈ [r], S.within (S.key x) = true := by simpa using inside
          have ahead : S.hits (r :: rest) = [r].filterMap S.hit ++ S.hits rest :=
            hits_append here
          cases hit : S.hit r with
          | none =>
              have skips : S.loop after limit (r :: rest) items lastKey =
                  S.loop after limit rest items lastKey := by
                simp [loop, inside, other, hit, Nat.not_le.mpr room]
              rw [skips, ahead, List.filterMap_cons_none hit]
              rcases ih items lastKey freshRest room with ends | ⟨pre, x, post, rfl, within, more, full, stops⟩
              · exact .inl ends
              · refine .inr ⟨r :: pre, x, post, rfl, ?_, more, ?_, ?_⟩
                · intro y member
                  rcases List.mem_cons.mp member with rfl | later
                  · exact inside
                  · exact within y later
                · simpa [List.filterMap_cons_none hit] using full
                · simpa [List.filterMap_cons_none hit] using stops
          | some v =>
              have keeps : S.loop after limit (r :: rest) items lastKey =
                  S.loop after limit rest (items ++ [v]) (some (S.key r)) := by
                simp [loop, inside, other, hit, Nat.not_le.mpr room]
              rw [keeps, ahead, List.filterMap_cons_some hit]
              by_cases last : limit ≤ (items ++ [v]).length
              · rw [loop_full freshRest last]
                by_cases ends : S.range rest = []
                · left
                  simp [hits, ends]
                · refine .inr ⟨[], r, rest, rfl, here, ends, ?_, ?_⟩
                  · rw [List.length_append, List.length_singleton] at last
                    simp [List.filterMap_cons_some hit]
                    omega
                  · simp [List.filterMap_cons_some hit, ends]
              · rcases ih (items ++ [v]) (some (S.key r)) freshRest (Nat.not_le.mp last) with
                  ends | ⟨pre, x, post, rfl, within, more, full, stops⟩
                · left
                  simpa using ends
                · refine .inr ⟨r :: pre, x, post, rfl, ?_, more, ?_, ?_⟩
                  · intro y member
                    rcases List.mem_cons.mp member with rfl | later
                    · exact inside
                    · exact within y later
                  · simpa [List.filterMap_cons_some hit] using full
                  · simpa [List.filterMap_cons_some hit] using stops

/-- A page's items are the first of the range, as many as there is room for. -/
theorem items_loop {rows : List ρ} {items : List α} {lastKey : Option κ}
    (fresh : ∀ r ∈ rows, after ≠ some (S.key r)) :
    (S.loop after limit rows items lastKey).items =
      items ++ (S.hits rows).take (limit - items.length) := by
  induction rows generalizing items lastKey with
  | nil => simp [loop, hits]
  | cons r rest ih =>
      have other : after ≠ some (S.key r) := fresh r List.mem_cons_self
      have freshRest : ∀ x ∈ rest, after ≠ some (S.key x) := fun x member =>
        fresh x (List.mem_cons_of_mem r member)
      cases inside : S.within (S.key r) with
      | false => simp [loop, inside, hits, range_cons_of_not_within inside]
      | true =>
          have here : ∀ x ∈ [r], S.within (S.key x) = true := by simpa using inside
          have ahead : S.hits (r :: rest) = [r].filterMap S.hit ++ S.hits rest := hits_append here
          by_cases full : limit ≤ items.length
          · simp [loop, inside, other, full]
          · have room : limit - items.length = (limit - (items.length + 1)) + 1 := by omega
            cases hit : S.hit r with
            | none =>
                have skips : S.loop after limit (r :: rest) items lastKey =
                    S.loop after limit rest items lastKey := by simp [loop, inside, other, hit, full]
                rw [skips, ih freshRest, ahead, List.filterMap_cons_none hit]
                rfl
            | some v =>
                have keeps : S.loop after limit (r :: rest) items lastKey =
                    S.loop after limit rest (items ++ [v]) (some (S.key r)) := by
                  simp [loop, inside, other, hit, full]
                rw [keeps, ih freshRest, ahead, List.filterMap_cons_some hit, room]
                simp

end Loop

section Pages

variable {first : Option κ} {rows : List ρ} {limit : Nat}

omit [DecidableEq κ] in
/-- A seek to the key of a row lands on that row. -/
theorem seek_key {pre post : List ρ} {r : ρ} (ordered : S.Ordered (pre ++ r :: post)) :
    S.seek (pre ++ r :: post) (some (S.key r)) = r :: post := by
  have earlier : ∀ x ∈ pre, S.before (S.key x) (S.key r) = true := fun x member =>
    (List.pairwise_append.mp ordered.sorted).2.2 x member r List.mem_cons_self
  show (pre ++ r :: post).dropWhile _ = _
  rw [List.dropWhile_append_of_pos earlier,
    List.dropWhile_cons_of_neg (by simp [ordered.irrefl])]

omit [DecidableEq κ] in
/-- The rows behind one have other keys. -/
theorem fresh_behind {pre post : List ρ} {r : ρ} (ordered : S.Ordered (pre ++ r :: post)) :
    ∀ x ∈ post, some (S.key r) ≠ some (S.key x) := by
  intro x member same
  have later := (List.pairwise_cons.mp (List.pairwise_append.mp ordered.sorted).2.1).1 x member
  rw [Option.some.inj same, ordered.irrefl] at later
  cases later

/-- A call at a row's key reads what is behind the row. -/
theorem page_row (positive : 0 < limit) {pre post : List ρ} {r : ρ}
    (ordered : S.Ordered (pre ++ r :: post)) (inside : S.within (S.key r) = true) :
    S.page first (pre ++ r :: post) (some (S.key r)) limit =
      S.loop (some (S.key r)) limit post [] none := by
  have lands : S.seek (pre ++ r :: post) ((some (S.key r)).or first) = r :: post := seek_key ordered
  rw [page, if_neg (Nat.pos_iff_ne_zero.mp positive), lands]
  simp [loop, inside]

/-- Reading on from a row that was kept. -/
theorem follows_row (positive : 0 < limit) {pre post : List ρ} {r : ρ}
    (ordered : S.Ordered (pre ++ r :: post)) (inside : S.within (S.key r) = true) :
    Follows (S.page first (pre ++ r :: post) · limit) (some (S.key r)) (S.hits post) := by
  generalize whole : pre ++ r :: post = rows at ordered ⊢
  induction size : post.length using Nat.strong_induction_on generalizing pre r post with
  | _ n ih =>
      subst whole
      have fresh := fresh_behind ordered
      have call : S.page first (pre ++ r :: post) (some (S.key r)) limit =
          S.loop (some (S.key r)) limit post [] none := page_row positive ordered inside
      rcases loop_cases [] none fresh positive with
        ends | ⟨passed, x, rest, rfl, within, -, -, stops⟩
      · rw [← call] at ends
        have walk : Follows (S.page first (pre ++ r :: post) · limit) (some (S.key r)) _ :=
          .done (by rw [ends])
        rwa [ends] at walk
      · rw [← call] at stops
        have split : (pre ++ r :: passed) ++ x :: rest = pre ++ r :: (passed ++ x :: rest) := by simp
        have later := ih rest.length (by simp at size; omega) (within x (by simp)) split rfl
        have walk : Follows (S.page first (pre ++ r :: (passed ++ x :: rest)) · limit)
          (some (S.key r)) _ := .more (by rw [stops]) later
        rw [stops] at walk
        have read : S.hits (passed ++ x :: rest) = (passed ++ [x]).filterMap S.hit ++ S.hits rest := by
          rw [← hits_append within, List.append_assoc]
          rfl
        rw [read]
        simpa using walk

/-- Reading from a cursor that is no row of its own. -/
theorem follows_from (ordered : S.Ordered rows) (positive : 0 < limit) {after : Option κ}
    (fresh : ∀ r ∈ S.seek rows (after.or first), after ≠ some (S.key r)) :
    Follows (S.page first rows · limit) after (S.hits (S.seek rows (after.or first))) := by
  have call : S.page first rows after limit =
      S.loop after limit (S.seek rows (after.or first)) [] none := by
    rw [page, if_neg (Nat.pos_iff_ne_zero.mp positive)]
  obtain ⟨skipped, whole⟩ := seek_suffix (S := S) rows (after.or first)
  generalize S.seek rows (after.or first) = sought at call fresh whole ⊢
  rcases loop_cases [] none fresh positive with
    ends | ⟨pre, r, post, rfl, within, -, -, stops⟩
  · rw [← call] at ends
    have walk : Follows (S.page first rows · limit) after _ := .done (by rw [ends])
    rwa [ends] at walk
  · rw [← call] at stops
    have split : (skipped ++ pre) ++ r :: post = rows := by rw [← whole, List.append_assoc]
    have later : Follows (S.page first rows · limit) (some (S.key r)) (S.hits post) := by
      rw [← split] at ordered ⊢
      exact follows_row positive ordered (within r (by simp))
    have walk : Follows (S.page first rows · limit) after _ := .more (by rw [stops]) later
    rw [stops] at walk
    have read : S.hits (pre ++ r :: post) = (pre ++ [r]).filterMap S.hit ++ S.hits post := by
      rw [← hits_append within, List.append_assoc]
      rfl
    rw [read]
    simpa using walk

/-- **Following the cursors ends and reads the whole range.** -/
theorem follows_all (ordered : S.Ordered rows) (positive : 0 < limit) :
    Follows (S.page first rows · limit) none (S.hits (S.seek rows first)) :=
  follows_from ordered positive fun _ _ clash => by cases clash

/-- **One call that no limit cuts short reads the whole range.** -/
theorem page_unlimited {after : Option κ} (positive : 0 < limit) (roomy : rows.length ≤ limit)
    (fresh : ∀ r ∈ S.seek rows (after.or first), after ≠ some (S.key r)) :
    S.page first rows after limit = { items := S.hits (S.seek rows (after.or first)) } := by
  have short := (seek_suffix (S := S) rows (after.or first)).length_le
  rw [page, if_neg (Nat.pos_iff_ne_zero.mp positive)]
  generalize S.seek rows (after.or first) = sought at fresh short ⊢
  rcases loop_cases [] none fresh positive with
    ends | ⟨pre, r, post, rfl, -, more, full, -⟩
  · simpa using ends
  · exfalso
    have kept : ((pre ++ [r]).filterMap S.hit).length ≤ (pre ++ [r]).length :=
      List.length_filterMap_le _ _
    have behind : 0 < post.length := by
      rw [List.length_pos_iff]
      rintro rfl
      exact more rfl
    simp only [List.nil_append, List.length_append, List.length_cons, List.length_nil] at full kept short
    omega

/-- **A call returns the first of the range, up to its limit.** -/
theorem items_page {after : Option κ}
    (fresh : ∀ r ∈ S.seek rows (after.or first), after ≠ some (S.key r)) :
    (S.page first rows after limit).items = (S.hits (S.seek rows (after.or first))).take limit := by
  rw [page]
  split
  · next nothing => rw [nothing, List.take_zero]
  · rw [items_loop fresh]
    rfl

/-- A scan that keeps every row stops behind as many as there is room for. -/
theorem loop_total {after : Option κ} {f : ρ → α} (positive : 0 < limit)
    (inside : ∀ r ∈ rows, S.within (S.key r) = true) (kept : ∀ r ∈ rows, S.hit r = some (f r))
    (fresh : ∀ r ∈ rows, after ≠ some (S.key r)) :
    S.loop after limit rows [] none =
      ⟨(rows.map f).take limit,
        if limit < rows.length then (rows.take limit).getLast?.map S.key else none⟩ := by
  have all : ∀ part : List ρ, (∀ r ∈ part, r ∈ rows) → part.filterMap S.hit = part.map f := by
    intro part within
    induction part with
    | nil => rfl
    | cons r part ih =>
        rw [List.filterMap_cons_some (kept r (within r List.mem_cons_self)), List.map_cons,
          ih fun x member => within x (List.mem_cons_of_mem r member)]
  have whole : S.hits rows = rows.map f := by
    rw [hits, range, List.takeWhile_eq_self_iff.mpr inside]
    exact all rows fun _ member => member
  rcases loop_cases [] none fresh positive with ends | ⟨pre, r, post, rfl, -, more, full, stops⟩
  · have items := congrArg Page.items ends
    rw [items_loop fresh, whole, List.nil_append, List.nil_append, List.length_nil, Nat.sub_zero] at items
    have short : rows.length ≤ limit := by
      have lengths := congrArg List.length items
      rw [List.length_take, List.length_map] at lengths
      omega
    rw [ends, whole, if_neg (by omega), List.nil_append, items]
  · have behind : post ≠ [] := by
      rintro rfl
      exact more rfl
    have kept' := all (pre ++ [r]) fun x member => by
      rw [← List.singleton_append, ← List.append_assoc]
      exact List.mem_append_left _ member
    rw [List.nil_append, kept', List.length_map] at full
    have split : pre ++ r :: post = (pre ++ [r]) ++ post := by simp
    have longer : limit < (pre ++ r :: post).length := by
      have some_ := List.length_pos_iff.mpr behind
      rw [split, List.length_append]
      omega
    rw [stops, List.nil_append, kept', if_pos longer, ← List.map_take, split, ← full, List.take_left,
      List.getLast?_concat]
    rfl

end Pages

end Pager

end MassaIndexer.Theory.Cursor
