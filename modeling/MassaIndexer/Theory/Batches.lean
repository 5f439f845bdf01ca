/-
# Theory.Batches -- a list read in batches that can repeat a row

A reader that collects batches up to a cap (`collect`) asks for the smaller of a batch and what is
missing, and stops at a batch that is empty or has no cursor. Over rows that share places a full
batch can end at a value with a further row; the next batch begins with that value again, and the
repeat counts like any other. `listing` is the list with these repeats, and `collect` gives its
first `cap` values (`collect_eq_take`).
-/
import MassaIndexer.Theory.PlaceCursor

namespace MassaIndexer.Theory.Batches

open MassaIndexer.Theory.Cursor

set_option autoImplicit false

/-! ## Collecting -/

section Collect

variable {κ α : Type}

/-- Batches behind a cursor, for as many values as are missing. -/
def collect (scan : Option κ → Nat → Page κ α) (batch : Nat) (c : Option κ) (missing : Nat) : List α :=
  if missing = 0 then []
  else
    let page := scan c (min batch missing)
    if page.items.isEmpty then []
    else page.items ++
      match page.nextCursor with
      | some c => collect scan batch (some c) (missing - page.items.length)
      | none => []
termination_by missing
decreasing_by
  have read : 0 < page.items.length := by
    rw [List.length_pos_iff]
    simpa using ‹¬page.items.isEmpty = true›
  show missing - page.items.length < missing
  omega

variable {scan : Option κ → Nat → Page κ α} {batch : Nat} {c : Option κ} {missing : Nat}

theorem collect_zero : collect scan batch c 0 = [] := by
  rw [collect, if_pos rfl]

theorem collect_of_last (wanted : 0 < missing) (last : (scan c (min batch missing)).nextCursor = none) :
    collect scan batch c missing = (scan c (min batch missing)).items := by
  rw [collect, if_neg (by omega)]
  dsimp only
  split
  · next nothing => exact (List.isEmpty_iff.mp nothing).symm
  · rw [last, List.append_nil]

theorem collect_of_more (wanted : 0 < missing) {c' : κ}
    (some_ : (scan c (min batch missing)).items ≠ [])
    (more : (scan c (min batch missing)).nextCursor = some c') : collect scan batch c missing =
      (scan c (min batch missing)).items ++
        collect scan batch (some c') (missing - (scan c (min batch missing)).items.length) := by
  rw [collect, if_neg (by omega)]
  dsimp only
  rw [if_neg (by simpa using some_), more]

end Collect

/-! ## The list with its repeats -/

section Listing

variable {α : Type} (batch : Nat) (again : α → Bool)

/-- The values in batches, the first of them with room for `room`: the last value of a full batch is
listed again at the head of the next one, if it has a further row. -/
def listing : Nat → List α → List α
  | _, [] => []
  | room, v :: vs =>
      if room ≠ 1 then v :: listing (room - 1) vs
      else if again v then v :: v :: listing (batch - 1) vs
      else v :: listing batch vs

variable {batch again}

theorem listing_cons {room : Nat} (v : α) (vs : List α) (roomy : room ≠ 1) :
    listing batch again room (v :: vs) = v :: listing batch again (room - 1) vs := if_pos roomy

theorem listing_last {v : α} (vs : List α) (once : again v = false) :
    listing batch again 1 (v :: vs) = v :: listing batch again batch vs := by
  rw [listing, if_neg (by simp), once]
  rfl

theorem listing_repeat {v : α} (vs : List α) (twice : again v = true) :
    listing batch again 1 (v :: vs) = v :: v :: listing batch again (batch - 1) vs := by
  rw [listing, if_neg (by simp), if_pos twice]

/-- Before a batch is full nothing is repeated. -/
theorem listing_append {front : List α} {room : Nat} (roomy : front.length < room) (vs : List α) :
    listing batch again room (front ++ vs) = front ++ listing batch again (room - front.length) vs := by
  induction front generalizing room with
  | nil => rfl
  | cons v front ih =>
      rw [List.length_cons] at roomy
      rw [List.cons_append, listing_cons v _ (by omega), ih (by omega), List.length_cons,
          List.cons_append,
        Nat.sub_sub, Nat.add_comm 1]

theorem listing_congr {again' : α → Bool} {vs : List α} (alike : ∀ v ∈ vs, again v = again' v)
    (room : Nat) :
    listing batch again room vs = listing batch again' room vs := by
  induction vs generalizing room with
  | nil => rfl
  | cons v vs ih =>
      obtain ⟨first, rest⟩ := List.forall_mem_cons.mp alike
      unfold listing
      rw [ih rest, ih rest, ih rest, first]

theorem subset_listing {vs : List α} {room : Nat} : listing batch again room vs ⊆ vs := by
  induction vs generalizing room with
  | nil => exact List.Subset.refl []
  | cons v vs ih =>
      have rest : ∀ room, listing batch again room vs ⊆ v :: vs := by
        intro room
        exact List.Subset.trans ih (List.subset_cons_self v vs)
      by_cases roomy : room = 1
      · subst roomy
        cases twice : again v with
        | true =>
            rw [listing_repeat vs twice]
            exact List.cons_subset.mpr ⟨List.mem_cons_self, List.cons_subset.mpr
              ⟨List.mem_cons_self, rest _⟩⟩
        | false =>
            rw [listing_last vs twice]
            exact List.cons_subset.mpr ⟨List.mem_cons_self, rest _⟩
      · rw [listing_cons v vs roomy]
        exact List.cons_subset.mpr ⟨List.mem_cons_self, rest _⟩

/-- To split a list at a value is to split it at its head or behind it. -/
theorem forall_split_cons {v : α} {vs : List α} {Q : List α → α → Prop} :
    (∀ front w back, v :: vs = front ++ w :: back → Q front w) ↔
      Q [] v ∧ ∀ front w back, vs = front ++ w :: back → Q (v :: front) w := by
  constructor
  · intro all
    exact ⟨all [] v vs rfl, fun front w back split => all (v :: front) w back (by rw [split]; rfl)⟩
  · rintro ⟨head, rest⟩ front w back split
    cases front with
    | nil =>
        obtain ⟨rfl, rfl⟩ := List.cons.inj split
        exact head
    | cons x front =>
        obtain ⟨rfl, below⟩ := List.cons.inj split
        exact rest front w back below

theorem exists_split_cons {v : α} {vs : List α} {Q : List α → α → Prop} :
    (∃ front w back, v :: vs = front ++ w :: back ∧ Q front w) ↔
      Q [] v ∨ ∃ front w back, vs = front ++ w :: back ∧ Q (v :: front) w := by
  have negated := @forall_split_cons _ v vs fun front w => ¬ Q front w
  constructor
  · rintro ⟨front, w, back, split, here⟩
    by_contra neither
    rw [not_or] at neither
    refine negated.mpr ⟨neither.1, fun front w back split there => ?_⟩ front w back split here
    exact neither.2 ⟨front, w, back, split, there⟩
  · rintro (head | ⟨front, w, back, split, here⟩)
    · exact ⟨[], v, vs, rfl, head⟩
    · exact ⟨v :: front, w, back, by rw [split]; rfl, here⟩

/-- A value is among the first `m` when fewer are listed before it. -/
theorem mem_take_listing {vs : List α} {room m : Nat} {x : α} :
    x ∈ (listing batch again room vs).take m ↔
      ∃ front w back, vs = front ++ w :: back ∧ w = x ∧ (listing batch again room front).length < m := by
  induction vs generalizing room m with
  | nil => simp [listing]
  | cons v vs ih =>
      rw [exists_split_cons (Q := fun front w => w = x ∧ (listing batch again room front).length < m)]
      by_cases roomy : room = 1
      · subst roomy
        cases twice : again v with
        | true =>
            simp only [listing_repeat _ twice, List.length_cons]
            rcases m with _ | _ | m
            · simp
            · simp [listing, eq_comm]
            · rw [List.take_succ_cons, List.take_succ_cons, List.mem_cons, List.mem_cons, ih]
              simp [listing, eq_comm]
        | false =>
            simp only [listing_last _ twice, List.length_cons]
            cases m with
            | zero => simp
            | succ m =>
                rw [List.take_succ_cons, List.mem_cons, ih]
                simp [listing, eq_comm]
      · simp only [listing_cons v _ roomy, List.length_cons]
        cases m with
        | zero => simp
        | succ m =>
            rw [List.take_succ_cons, List.mem_cons, ih]
            simp [listing, eq_comm]

/-- **Repeats.** Of the first `m` those that count are in order exactly when none of them that ends
a batch is listed again within the first `m`. -/
theorem pairwise_take_listing {R : α → α → Prop} (irrefl : ∀ x, ¬ R x x) (wide : 2 ≤ batch)
    (counts : α → Bool) {vs : List α} (ordered : vs.Pairwise R) {room : Nat} (some_ : 0 < room)
    (fits : room ≤ batch) (m : Nat) :
    (((listing batch again room vs).take m).filter counts).Pairwise R ↔
      ∀ front v back, vs = front ++ v :: back → counts v = true → again v = true →
        batch ∣ (listing batch again room front).length + (batch - room) + 1 →
          m ≤ (listing batch again room front).length + 1 := by
  induction vs generalizing room m with
  | nil => simp [listing]
  | cons v vs ih =>
      obtain ⟨later, rest⟩ := List.pairwise_cons.mp ordered
      -- the head stands in order before what is left of the tail
      have head : ∀ room m, (v :: ((listing batch again room vs).take m).filter counts).Pairwise R ↔
          (((listing batch again room vs).take m).filter counts).Pairwise R := by
        intro room m
        rw [List.pairwise_cons]
        refine and_iff_right fun w member => later w ?_
        exact subset_listing (List.mem_of_mem_take (List.mem_filter.mp member).1)
      have kept : ∀ room m, ((v :: (listing batch again room vs).take m).filter counts).Pairwise R ↔
          (((listing batch again room vs).take m).filter counts).Pairwise R := by
        intro room m
        cases counted : counts v with
        | true => rw [List.filter_cons_of_pos counted, head]
        | false => rw [List.filter_cons_of_neg (by simp [counted])]
      rw [forall_split_cons (Q := fun front v => counts v = true → again v = true →
        batch ∣ (listing batch again room front).length + (batch - room) + 1 →
          m ≤ (listing batch again room front).length + 1)]
      by_cases roomy : room = 1
      · subst roomy
        cases twice : again v with
        | true =>
            simp only [listing_repeat _ twice, List.length_cons]
            rcases m with _ | _ | m
            · simp
            · simp only [List.take_succ_cons, List.take_zero]
              refine iff_of_true ?_ ⟨fun _ _ _ => Nat.le_refl 1, fun _ _ _ _ _ _ _ => by omega⟩
              exact (List.pairwise_singleton R v).filter _
            · rw [List.take_succ_cons, List.take_succ_cons]
              cases counted : counts v with
              | true =>
                  refine iff_of_false ?_ ?_
                  · intro ordered
                    rw [List.filter_cons_of_pos counted, List.filter_cons_of_pos counted] at ordered
                    exact irrefl v ((List.pairwise_cons.mp ordered).1 v List.mem_cons_self)
                  · rintro ⟨now, -⟩
                    have bound := now rfl trivial ⟨1, by simp [listing]; omega⟩
                    simp [listing] at bound
              | false =>
                  rw [List.filter_cons_of_neg (by simp [counted]), kept,
                    ih rest (by omega) (by omega)]
                  refine (forall_congr' fun front => forall_congr' fun w => forall_congr' fun back =>
                    forall_congr' fun _ => imp_congr_right fun _ => imp_congr_right fun _ => ?_).trans
                      (and_iff_right fun absurd_ => by cases absurd_).symm
                  generalize (listing batch again (batch - 1) front).length = n
                  have same : n + 1 + 1 + (batch - 1) + 1 = batch + (n + (batch - (batch - 1)) + 1) := by
                    omega
                  rw [same, Nat.dvd_add_right (Nat.dvd_refl batch)]
                  exact imp_congr_right fun _ => by omega
        | false =>
            simp only [listing_last _ twice, List.length_cons]
            cases m with
            | zero => simp
            | succ m =>
                rw [List.take_succ_cons, kept, ih rest (by omega) (Nat.le_refl batch)]
                refine (forall_congr' fun front => forall_congr' fun w => forall_congr' fun back =>
                  forall_congr' fun _ => imp_congr_right fun _ => imp_congr_right fun _ => ?_).trans
                    (and_iff_right fun _ absurd_ => by cases absurd_).symm
                generalize (listing batch again batch front).length = n
                have same : n + 1 + (batch - 1) + 1 = batch + (n + (batch - batch) + 1) := by omega
                rw [same, Nat.dvd_add_right (Nat.dvd_refl batch)]
                exact imp_congr_right fun _ => by omega
      · simp only [listing_cons v _ roomy, List.length_cons]
        cases m with
        | zero => simp
        | succ m =>
            rw [List.take_succ_cons, kept, ih rest (by omega) (by omega)]
            refine (forall_congr' fun front => forall_congr' fun w => forall_congr' fun back =>
              forall_congr' fun _ => imp_congr_right fun _ => imp_congr_right fun _ => ?_).trans
                (and_iff_right fun _ _ divides => ?_).symm
            · generalize (listing batch again (room - 1) front).length = n
              have same : n + 1 + (batch - room) + 1 = n + (batch - (room - 1)) + 1 := by omega
              rw [same]
              exact imp_congr_right fun _ => by omega
            · -- a batch with room behind the head does not end at it
              have bound := Nat.le_of_dvd (Nat.succ_pos _) divides
              simp only [listing, List.length_nil] at bound
              omega

end Listing

/-! ## Batches of a scan -/

section Scan

variable {κ ρ π α : Type} [DecidableEq π] {P : PlacePager κ ρ π α} {less : π → π → Prop} {placeOf : α → π}

/-- The value has a further row. -/
def again (P : PlacePager κ ρ π α) (placeOf : α → π) (rows : List ρ) (v : α) : Bool :=
  1 < P.count (placeOf v) rows

/-- **A full batch.** Behind it the list goes on with what stands behind its last row. -/
theorem listing_full {batch : Nat} (wide : 2 ≤ batch) (owned : P.Owned placeOf) {pre post : List ρ}
    {r : ρ}
    {p : π} {v : α} (placed : P.Placed less (pre ++ r :: post)) (here : P.place r = some p)
    (value : P.row p = some v) (new : p ∉ pre.filterMap P.place)
    (full : (P.hits pre []).length + 1 = batch) :
    listing batch (again P placeOf (pre ++ r :: post)) batch (P.hits (pre ++ r :: post) []) =
      P.hits pre [] ++ v :: listing batch (again P placeOf post) batch (P.hits post []) := by
  have whole : P.hits (pre ++ r :: post) [] =
      P.hits pre [] ++ v :: P.hits post (p :: pre.filterMap P.place) := by
    rw [PlacePager.hits_append, List.append_nil, PlacePager.hits_new here new, value]
    rfl
  have inPre : P.count p pre = 0 := PlacePager.count_eq_zero.mpr fun x member at_ =>
    new (List.mem_filterMap.mpr ⟨x, member, at_⟩)
  have counted : ∀ q, P.count q (pre ++ r :: post) = P.count q pre + P.count q [r] + P.count q post := by
    intro q
    have cons : P.count q (r :: post) = P.count q [r] + P.count q post := PlacePager.count_append q
        [r] post
    rw [PlacePager.count_append, cons, Nat.add_assoc]
  have flag : again P placeOf (pre ++ r :: post) v = decide (0 < P.count p post) := by
    rw [again, owned.own p v value, counted, inPre, PlacePager.count_singleton here]
    exact decide_eq_decide.mpr (by omega)
  have alike : ∀ w ∈ P.hits post (p :: pre.filterMap P.place),
      again P placeOf (pre ++ r :: post) w = again P placeOf post w := by
    intro w member
    obtain ⟨x, -, q, -, unseen, value'⟩ := PlacePager.mem_hits.mp member
    rw [List.mem_cons, not_or] at unseen
    have before : P.count q pre = 0 := PlacePager.count_eq_zero.mpr fun y inPre' atY =>
      unseen.2 (List.mem_filterMap.mpr ⟨y, inPre', atY⟩)
    have atR : P.count q [r] = 0 := PlacePager.count_eq_zero.mpr fun y atHead atY => by
      rw [List.mem_singleton.mp atHead, here] at atY
      exact unseen.1 (Option.some.inj atY).symm
    rw [again, again, owned.own q w value', counted, before, atR]
    exact decide_eq_decide.mpr (by omega)
  have room : batch - (P.hits pre []).length = 1 := by omega
  rw [whole, listing_append (by omega), room]
  congr 1
  by_cases further : 0 < P.count p post
  · -- the next batch begins with the value this one ended with
    have laterPost : ∀ x ∈ post, ∀ q, P.place x = some q → p = q ∨ less p q := fun x member q at_ =>
      (List.pairwise_cons.mp placed.right.sorted).1 x member p q here at_
    have placedPost : P.Placed less post := placed.right.sublist (List.sublist_cons_self r post)
    have same : P.hits post [p] = P.hits post (p :: pre.filterMap P.place) := by
      refine PlacePager.hits_congr fun x member q at_ _ => ?_
      rw [List.mem_cons, List.mem_cons]
      constructor
      · rintro (rfl | none)
        · exact .inl rfl
        · exact absurd none List.not_mem_nil
      · rintro (rfl | before)
        · exact .inl rfl
        · exact .inl (placed.between here before member at_)
    rw [listing_repeat _ (flag.trans (decide_eq_true further)),
      PlacePager.hits_first placedPost value further laterPost, same, listing_cons v _ (by omega),
      listing_congr alike]
  · have fresh : P.hits post (p :: pre.filterMap P.place) = P.hits post [] := by
      refine PlacePager.hits_congr fun x member q at_ _ => iff_of_false (fun known => ?_) List.not_mem_nil
      have same : q = p := by
        rcases List.mem_cons.mp known with same | before
        · exact same
        · exact placed.between here before member at_
      exact PlacePager.count_eq_zero.mp (by omega) x member (same ▸ at_)
    rw [listing_last _ (flag.trans (decide_eq_false further)), listing_congr alike, fresh]

variable [DecidableEq κ] {first : Option κ} {rows : List ρ} {batch : Nat}

/-- What the batches behind a cursor collect. -/
theorem collect_behind (wide : 2 ≤ batch) (owned : P.Owned placeOf) (ordered : P.plain.Ordered rows)
    (placed : P.Placed less (P.inside rows)) {c : Option κ} {behind : List ρ} (tail : behind <:+ rows)
    (call : ∀ limit, 0 < limit → P.page first rows c limit = P.loop c limit behind [] none [])
    (fresh : ∀ x ∈ behind, c ≠ some (P.key x)) (missing : Nat) :
    collect (P.page first rows) batch c missing =
      (listing batch (again P placeOf (P.plain.range behind)) batch
        (P.hits (P.plain.range behind) [])).take missing := by
  induction missing using Nat.strong_induction_on generalizing c behind with
  | _ missing ih =>
      by_cases wanted : missing = 0
      · rw [wanted, collect_zero, List.take_zero]
      have positive : 0 < min batch missing := by omega
      have page := call (min batch missing) positive
      rcases PlacePager.loop_cases [] none [] fresh positive with
        ⟨ends, short⟩ | ⟨pre, x, post, p, v, rfl, within, here, value, new, full, stops⟩
      · rw [List.nil_append] at short
        rw [← page] at ends
        have whole : listing batch (again P placeOf (P.plain.range behind)) batch
            (P.hits (P.plain.range behind) []) = P.hits (P.plain.range behind) [] := by
          have all : listing batch (again P placeOf (P.plain.range behind)) batch
              (P.hits (P.plain.range behind) [] ++ []) = P.hits (P.plain.range behind) [] ++ [] :=
            listing_append (by omega) []
          rwa [List.append_nil] at all
        rw [collect_of_last (by omega) (by rw [ends]), ends, whole, List.nil_append,
          List.take_of_length_le (by omega)]
      · rw [← page] at stops
        rw [List.append_nil] at new
        rw [List.nil_append] at full
        obtain ⟨skipped, position⟩ := tail
        have split : rows = (skipped ++ pre) ++ x :: post := by rw [← position, List.append_assoc]
        have range : P.plain.range (pre ++ x :: post) = pre ++ x :: P.plain.range post := by
          have cut : pre ++ x :: post = (pre ++ [x]) ++ post := by simp
          rw [cut, Pager.range_append within, List.append_assoc]
          rfl
        have placedRange : P.Placed less (pre ++ x :: P.plain.range post) := by
          rw [← range]
          refine placed.sublist (PlacePager.range_sublist_inside ?_)
          rw [← position]
          exact List.sublist_append_right skipped _
        have items : (P.page first rows c (min batch missing)).items = P.hits pre [] ++ [v] := by
          rw [stops]
          rfl
        have size : (P.hits pre [] ++ [v]).length = min batch missing := by
          rw [List.length_append, List.length_singleton]
          exact full
        rw [range]
        by_cases whole : batch ≤ missing
        · rw [Nat.min_eq_left whole] at full size
          rw [listing_full wide owned placedRange here value new full, List.append_cons, List.take_append,
            List.take_of_length_le (by omega), size]
          by_cases over_ : P.plain.range post = []
          · rw [collect_of_last (by omega) (by rw [stops, if_pos over_]), items, over_]
            simp [PlacePager.hits, listing]
          · have more : (P.page first rows c (min batch missing)).nextCursor = some (P.key x) := by
              rw [stops, if_neg over_]
            have some_ : (P.page first rows c (min batch missing)).items ≠ [] := by
              rw [items]
              simp
            rw [collect_of_more (by omega) some_ more, items, size]
            congr 1
            refine ih (missing - batch) (by omega) ⟨skipped ++ pre ++ [x], by rw [split]; simp⟩ ?_
              (PlacePager.fresh_row ordered split)
            intro limit positive
            exact PlacePager.call_row ordered split (within x (by simp)) positive
        · -- the cap is reached inside the batch
          have last : min batch missing = missing := by omega
          rw [last] at full size
          have roomy : (P.hits pre []).length < batch := by omega
          have parts : P.hits (pre ++ x :: P.plain.range post) [] =
              P.hits pre [] ++ v :: P.hits (P.plain.range post) (p :: pre.filterMap P.place) := by
            rw [PlacePager.hits_append, List.append_nil, PlacePager.hits_new here new, value]
            rfl
          rw [parts, listing_append roomy, listing_cons v _ (by omega), List.append_cons,
              List.take_append,
            List.take_of_length_le (by omega), size, Nat.sub_self, List.take_zero, List.append_nil]
          by_cases over_ : P.plain.range post = []
          · rw [collect_of_last (by omega) (by rw [stops, if_pos over_]), items]
          · have more : (P.page first rows c (min batch missing)).nextCursor = some (P.key x) := by
              rw [stops, if_neg over_]
            have some_ : (P.page first rows c (min batch missing)).items ≠ [] := by
              rw [items]
              simp
            rw [collect_of_more (by omega) some_ more, items, size, Nat.sub_self, collect_zero,
              List.append_nil]

/-- **From the first batch on.** -/
theorem collect_eq_take (wide : 2 ≤ batch) (owned : P.Owned placeOf) (ordered : P.plain.Ordered rows)
    (placed : P.Placed less (P.inside rows)) (cap : Nat) : collect (P.page first rows) batch none cap =
      (listing batch (again P placeOf (P.plain.range (P.plain.seek rows first))) batch
        (P.hits (P.plain.range (P.plain.seek rows first)) [])).take cap := by
  refine collect_behind wide owned ordered placed (Pager.seek_suffix _ _) ?_ ?_ cap
  · intro limit positive
    rw [PlacePager.page, if_neg (by omega)]
    rfl
  · intro x member clash
    cases clash

end Scan

end MassaIndexer.Theory.Batches
