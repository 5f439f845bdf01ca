/-
# Rest.Search -- what the search box looks for

A query is trimmed and classified: two numbers around a separator are a slot, a first letter makes it
an id or an address, and whatever else can be a name is put to the name service of the node. What is
found is read from the store as the page of that thing reads it.

`Spells` says which queries name a slot, with no order among the separators; of the four at most one
can cut a query into two numbers (`slotAt_unique`), so trying them in turn comes to the same
(`slotIn_eq_some`).
-/
import MassaIndexer.Theory.Trimming
import MassaIndexer.Repair.Checkpoints
import MassaIndexer.Store.Scans

namespace MassaIndexer.Rest.Search

open MassaIndexer.Theory.Trimming
open MassaIndexer.Data.Ids MassaIndexer.Data.Model MassaIndexer.Store.ColumnFamilies
open MassaIndexer.Store.Scans MassaIndexer.Repair.Checkpoints

set_option autoImplicit false

/-! ## Texts -/

/-- `char::is_whitespace`: the characters with the property White_Space. -/
def isWhitespace (c : Char) : Bool :=
  let n := c.toNat
  (9 ≤ n && n ≤ 13) || n = 0x20 || n = 0x85 || n = 0xA0 || n = 0x1680 ||
    (0x2000 ≤ n && n ≤ 0x200A) || n = 0x2028 || n = 0x2029 || n = 0x202F || n = 0x205F || n = 0x3000

/-- `str::trim`. -/
def trimmed (text : String) : String := String.ofList (trim isWhitespace text.toList)

@[simp] theorem toList_trimmed (text : String) :
    (trimmed text).toList = trim isWhitespace text.toList := String.toList_ofList

/-- The number a text spells, below a bound. -/
def readBelow (size : Nat) (text : String) : Option Nat :=
  let digits := unsigned text.toList
  let value := Nat.ofDigitChars 10 digits 0
  if digits ≠ [] ∧ digits.all Char.isDigit ∧ value < size then some value else none

theorem parseU64_eq (text : String) :
    parseU64 text = (readBelow UInt64.size text).map UInt64.ofNat := by
  unfold parseU64 readBelow
  dsimp only
  split <;> rfl

/-- `str::parse::<u8>`. -/
def parseU8 (text : String) : Option UInt8 := (readBelow UInt8.size text).map UInt8.ofNat

/-! ## Queries -/

inductive QueryKind where
  | block
  | operation
  | address
  | slot (period : UInt64) (thread : UInt8)
  | mnsName (name : String)
  | unknown

def separators : List Char := [',', '/', ' ', ':']

/-- The slot a query spells around a separator. -/
def slotAt (sep : Char) (q : String) : Option Slot :=
  (splitOnce sep q.toList).bind fun parts =>
    (parseU64 (trimmed (String.ofList parts.1))).bind fun period =>
      (parseU8 (trimmed (String.ofList parts.2))).map fun thread => ⟨period, thread⟩

/-- Letters, digits, `-` and `_`, with a letter among them. -/
def isDnsFriendly (q : String) : Bool :=
  !q.toList.isEmpty && q.utf8ByteSize ≤ 64 &&
    q.toList.all (fun c => c.isAlphanum || c = '-' || c = '_') && q.toList.any Char.isAlpha

def massaSuffix : List Char := ['.', 'm', 'a', 's', 's', 'a']

/-- The name in front of the suffix, unless it is blank. -/
def nameBefore (q : String) : Option String :=
  ((stripSuffix massaSuffix q.toList).map fun name => trimmed (String.ofList name)).filter (· ≠ "")

/-- The first separator that cuts the query into two numbers. -/
def slotIn (q : String) : Option Slot := separators.findSome? (slotAt · q)

/-- The name a query asks for: in front of the suffix, or else the whole query. -/
def nameIn (q : String) : Option String :=
  (nameBefore q).or (if isDnsFriendly q then some q else none)

def classify (q : String) : QueryKind × String :=
  match slotIn q with
  | some s => (.slot s.period s.thread, "")
  | none =>
      if ['B'] <+: q.toList then (.block, q)
      else if ['O'] <+: q.toList then (.operation, q)
      else if ['A', 'U'] <+: q.toList ∨ ['A', 'S'] <+: q.toList then (.address, q)
      else match nameIn q with
        | some name => (.mnsName name, "")
        | none => (.unknown, q)

/-! ## Numerals -/

/-- A text of blanks around a number in decimal digits, which may have a plus in front. -/
def IsNumeral (l : List Char) (n : Nat) : Prop :=
  ∃ pre sign digits post, l = pre ++ (sign ++ digits) ++ post ∧
    (∀ c ∈ pre, isWhitespace c = true) ∧ (∀ c ∈ post, isWhitespace c = true) ∧
    (sign = [] ∨ sign = ['+']) ∧ digits ≠ [] ∧ (∀ c ∈ digits, c.isDigit = true) ∧
    Nat.ofDigitChars 10 digits 0 = n

/-- What a numeral is made of. -/
def numeric (c : Char) : Bool := isWhitespace c || c.isDigit || c = '+'

theorem toNat_of_isDigit {c : Char} (digit : c.isDigit = true) : 48 ≤ c.toNat ∧ c.toNat ≤ 57 := by
  simpa [Char.isDigit, UInt32.le_iff_toNat_le] using digit

theorem toNat_of_isAlpha {c : Char} (letter : c.isAlpha = true) :
    (65 ≤ c.toNat ∧ c.toNat ≤ 90) ∨ (97 ≤ c.toNat ∧ c.toNat ≤ 122) := by
  have ranges : (decide (c.val ≥ 65 ∧ c.val ≤ 90) || (c.val ≥ 97 && c.val ≤ 122)) = true := letter
  simpa [UInt32.le_iff_toNat_le] using ranges

theorem not_blank_of_isAlphanum {c : Char} (either : c.isAlphanum = true) :
    isWhitespace c = false := by
  have bounds : 48 ≤ c.toNat ∧ c.toNat ≤ 122 := by
    rcases Bool.or_eq_true_iff.mp either with letter | digit
    · have := toNat_of_isAlpha letter
      omega
    · have := toNat_of_isDigit digit
      omega
  obtain ⟨low, high⟩ := bounds
  simp only [isWhitespace, Bool.or_eq_false_iff, Bool.and_eq_false_iff, decide_eq_false_iff_not]
  omega

theorem not_blank_of_isDigit {c : Char} (digit : c.isDigit = true) : isWhitespace c = false :=
  not_blank_of_isAlphanum (Bool.or_eq_true_iff.mpr (.inr digit))

/-- No letter stands in a numeral, and none separates two. -/
theorem foreign_of_isAlpha {c : Char} (letter : c.isAlpha = true) :
    numeric c = false ∧ c ∉ separators := by
  have place := toNat_of_isAlpha letter
  have undigit : c.isDigit = false := by
    refine Bool.eq_false_iff.mpr fun digit => ?_
    have := toNat_of_isDigit digit
    omega
  have unplus : ∀ d : Char, d.toNat < 65 → c ≠ d := by
    rintro d low rfl
    omega
  refine ⟨?_, ?_⟩
  · have unblank := not_blank_of_isAlphanum (Bool.or_eq_true_iff.mpr (.inl letter))
    simp [numeric, undigit, unblank, unplus '+' (by decide)]
  · simp [separators, unplus ',' (by decide), unplus '/' (by decide), unplus ' ' (by decide),
      unplus ':' (by decide)]

theorem unsigned_of_digits {sign digits : List Char} (signed : sign = [] ∨ sign = ['+'])
    (all : ∀ c ∈ digits, c.isDigit = true) : unsigned (sign ++ digits) = digits := by
  rcases signed with rfl | rfl
  · rw [List.nil_append]
    unfold unsigned
    split
    · next rest => exact absurd (all '+' List.mem_cons_self) (by decide)
    · rfl
  · rfl

theorem exists_sign (l : List Char) :
    ∃ sign, (sign = [] ∨ sign = ['+']) ∧ l = sign ++ unsigned l := by
  unfold unsigned
  split
  · exact ⟨['+'], .inr rfl, rfl⟩
  · exact ⟨[], .inl rfl, rfl⟩

/-- The middle of a numeral is found by trimming. -/
theorem bare_digits {sign digits : List Char} (signed : sign = [] ∨ sign = ['+'])
    (all : ∀ c ∈ digits, c.isDigit = true) : ∀ c ∈ sign ++ digits, isWhitespace c = false := by
  intro c member
  rcases List.mem_append.mp member with first | digit
  · rcases signed with rfl | rfl
    · cases first
    · obtain rfl := List.mem_singleton.mp first
      decide
  · exact not_blank_of_isDigit (all c digit)

/-- **Exactly the numerals below the bound are read.** -/
theorem readBelow_eq_some {size n : Nat} {l : List Char} :
    readBelow size (trimmed (String.ofList l)) = some n ↔ IsNumeral l n ∧ n < size := by
  unfold readBelow
  simp only [toList_trimmed, String.toList_ofList]
  constructor
  · intro read
    split at read
    · next good =>
        obtain ⟨some_, all, fits⟩ := good
        obtain rfl := Option.some.inj read
        obtain ⟨pre, post, whole, before, after⟩ := exists_pad isWhitespace l
        obtain ⟨sign, signed, middle⟩ := exists_sign (trim isWhitespace l)
        exact ⟨⟨pre, sign, _, post, middle ▸ whole, before, after, signed, some_,
          List.all_eq_true.mp all, rfl⟩, fits⟩
    · cases read
  · rintro ⟨⟨pre, sign, digits, post, rfl, before, after, signed, some_, all, rfl⟩, fits⟩
    rw [trim_pad before after (.of_none (bare_digits signed all)), unsigned_of_digits signed all]
    exact if_pos ⟨some_, List.all_eq_true.mpr all, fits⟩

theorem numeric_of_mem {l : List Char} {n : Nat} (numeral : IsNumeral l n) {c : Char}
    (member : c ∈ l) : numeric c = true := by
  obtain ⟨pre, sign, digits, post, rfl, before, after, signed, -, all, -⟩ := numeral
  simp only [List.mem_append] at member
  rcases member with (blank | first | digit) | blank
  · simp [numeric, before c blank]
  · rcases signed with rfl | rfl
    · cases first
    · obtain rfl := List.mem_singleton.mp first
      rfl
  · simp [numeric, all c digit]
  · simp [numeric, after c blank]

/-- A numeral keeps its value when it is padded further. -/
theorem IsNumeral.pad {l pre post : List Char} {n : Nat} (numeral : IsNumeral l n)
    (before : ∀ c ∈ pre, isWhitespace c = true) (after : ∀ c ∈ post, isWhitespace c = true) :
    IsNumeral (pre ++ l ++ post) n := by
  obtain ⟨pre', sign, digits, post', rfl, before', after', rest⟩ := numeral
  refine ⟨pre ++ pre', sign, digits, post' ++ post, by simp, ?_, ?_, rest⟩
  · intro c member
    exact (List.mem_append.mp member).elim (before c) (before' c)
  · intro c member
    exact (List.mem_append.mp member).elim (after' c) (after c)

/-! ## Slots -/

/-- A query that spells a slot: two numbers around a separator. -/
def Spells (q : String) (s : Slot) : Prop :=
  ∃ sep ∈ separators, ∃ a b, q.toList = a ++ sep :: b ∧
    IsNumeral a s.period.toNat ∧ IsNumeral b s.thread.toNat

theorem slotAt_eq_some {sep : Char} {q : String} {s : Slot} : slotAt sep q = some s ↔
    ∃ a b, q.toList = a ++ sep :: b ∧ sep ∉ a ∧
      IsNumeral a s.period.toNat ∧ IsNumeral b s.thread.toNat := by
  have period : ∀ a, parseU64 (trimmed (String.ofList a)) = some s.period ↔
      IsNumeral a s.period.toNat := by
    intro a
    rw [parseU64_eq, Option.map_eq_some_iff]
    constructor
    · rintro ⟨n, read, same⟩
      obtain ⟨numeral, fits⟩ := readBelow_eq_some.mp read
      rwa [← same, UInt64.toNat_ofNat_of_lt' fits]
    · intro numeral
      exact ⟨_, readBelow_eq_some.mpr ⟨numeral, s.period.toNat_lt⟩, UInt64.ofNat_toNat⟩
  have thread : ∀ b, parseU8 (trimmed (String.ofList b)) = some s.thread ↔
      IsNumeral b s.thread.toNat := by
    intro b
    rw [parseU8, Option.map_eq_some_iff]
    constructor
    · rintro ⟨n, read, same⟩
      obtain ⟨numeral, fits⟩ := readBelow_eq_some.mp read
      rwa [← same, UInt8.toNat_ofNat_of_lt' fits]
    · intro numeral
      exact ⟨_, readBelow_eq_some.mpr ⟨numeral, s.thread.toNat_lt⟩, UInt8.ofNat_toNat⟩
  unfold slotAt
  simp only [Option.bind_eq_some_iff, Option.map_eq_some_iff, Prod.exists, splitOnce_eq_some]
  constructor
  · rintro ⟨a, b, ⟨whole, first⟩, p, readP, t, readT, rfl⟩
    exact ⟨a, b, whole, first, (period a).mp readP, (thread b).mp readT⟩
  · rintro ⟨a, b, whole, first, numeralP, numeralT⟩
    exact ⟨a, b, ⟨whole, first⟩, _, (period a).mpr numeralP, _, (thread b).mpr numeralT, rfl⟩

/-- Of the separators only the space can stand in a numeral. -/
theorem space_of_numeric {sep : Char} (among : sep ∈ separators) (inside : numeric sep = true) :
    sep = ' ' := by
  simp only [separators, List.mem_cons, List.not_mem_nil, or_false] at among
  rcases among with rfl | rfl | rfl | rfl
  · exact absurd inside (by decide)
  · exact absurd inside (by decide)
  · rfl
  · exact absurd inside (by decide)

/-- **At most one separator cuts a query into two numbers.** -/
theorem slotAt_unique {sep sep' : Char} {q : String} {s s' : Slot} (among : sep ∈ separators)
    (among' : sep' ∈ separators) (cut : slotAt sep q = some s) (cut' : slotAt sep' q = some s') :
    sep = sep' := by
  obtain ⟨a, b, whole, -, numeralA, numeralB⟩ := slotAt_eq_some.mp cut
  obtain ⟨a', b', whole', -, numeralA', numeralB'⟩ := slotAt_eq_some.mp cut'
  by_contra distinct
  have within : ∀ {x y : Char} {l m n n'}, x ≠ y → q.toList = l ++ x :: m → IsNumeral l n →
      IsNumeral m n' → y ∈ q.toList → numeric y = true := by
    intro x y l m n n' ne whole left right member
    rw [whole, List.mem_append, List.mem_cons] at member
    rcases member with first | same | second
    · exact numeric_of_mem left first
    · exact absurd same.symm ne
    · exact numeric_of_mem right second
  have space := space_of_numeric among
    (within (Ne.symm distinct) whole' numeralA' numeralB' (by rw [whole]; simp))
  have space' := space_of_numeric among'
    (within distinct whole numeralA numeralB (by rw [whole']; simp))
  exact distinct (space.trans space'.symm)

/-- A query that no blank begins is cut at its first separator as well as at any other. -/
theorem slotAt_of_cut {sep : Char} (among : sep ∈ separators) {q : String} {s : Slot}
    (bare : ∀ c ∈ q.toList.head?, isWhitespace c = false) {a b : List Char}
    (whole : q.toList = a ++ sep :: b) (period : IsNumeral a s.period.toNat)
    (thread : IsNumeral b s.thread.toNat) : slotAt sep q = some s := by
  by_cases again : sep ∈ a
  · obtain rfl := space_of_numeric among (numeric_of_mem period again)
    obtain ⟨pre, sign, digits, post, rfl, before, after, signed, some_, all, value⟩ := period
    have unblank := bare_digits signed all
    have first : pre = [] := by
      cases pre with
      | nil => rfl
      | cons c pre =>
          have blank := before c List.mem_cons_self
          rw [bare c (by rw [whole]; rfl)] at blank
          cases blank
    subst first
    obtain ⟨front, rest, parted, absent⟩ := List.eq_append_cons_of_mem again
    -- the first space stands behind the digits
    have behind : ∃ gap, front = sign ++ digits ++ gap ∧ post = gap ++ ' ' :: rest := by
      rw [List.nil_append] at parted
      rcases List.append_eq_append_iff.mp parted with ⟨gap, here, there⟩ | ⟨gap, here, there⟩
      · exact ⟨gap, here, there⟩
      · cases gap with
        | nil => exact ⟨[], by simpa using here.symm, by simpa using there.symm⟩
        | cons c gap =>
            obtain ⟨rfl, -⟩ := List.cons.inj there
            exact absurd (unblank ' ' (by rw [here]; simp)) (by decide)
    obtain ⟨gap, rfl, rfl⟩ := behind
    refine slotAt_eq_some.mpr ⟨_, rest ++ ' ' :: b, ?_, absent, ?_, ?_⟩
    · rw [whole]
      simp
    · refine ⟨[], sign, digits, gap, by simp, by simp, ?_, signed, some_, all, value⟩
      exact fun c member => after c (List.mem_append_left _ member)
    · have blanks : ∀ c ∈ rest ++ [' '], isWhitespace c = true := by
        intro c member
        rcases List.mem_append.mp member with early | last
        · exact after c (List.mem_append_right _ (List.mem_cons_of_mem _ early))
        · obtain rfl := List.mem_singleton.mp last
          decide
      have padded : IsNumeral (rest ++ [' '] ++ b ++ []) s.thread.toNat := thread.pad blanks (by simp)
      simpa using padded
  · exact slotAt_eq_some.mpr ⟨a, b, whole, again, period, thread⟩

/-- **Trying the separators in turn finds what the query spells.** -/
theorem slotIn_eq_some {q : String} {s : Slot}
    (bare : ∀ c ∈ q.toList.head?, isWhitespace c = false) : slotIn q = some s ↔ Spells q s := by
  constructor
  · intro found
    obtain ⟨sep, among, cut⟩ := List.exists_of_findSome?_eq_some found
    obtain ⟨a, b, whole, -, period, thread⟩ := slotAt_eq_some.mp cut
    exact ⟨sep, among, a, b, whole, period, thread⟩
  · rintro ⟨sep, among, a, b, whole, period, thread⟩
    have cut := slotAt_of_cut among bare whole period thread
    cases found : slotIn q with
    | none => exact absurd cut (by simp [List.findSome?_eq_none_iff.mp found sep among])
    | some s' =>
        obtain ⟨sep', among', cut'⟩ := List.exists_of_findSome?_eq_some found
        obtain rfl := slotAt_unique among among' cut cut'
        exact cut'.symm.trans cut

theorem slotIn_eq_none {q : String} (bare : ∀ c ∈ q.toList.head?, isWhitespace c = false) :
    slotIn q = none ↔ ∀ s, ¬ Spells q s := by
  rw [Option.eq_none_iff_forall_ne_some]
  exact forall_congr' fun s => not_congr (slotIn_eq_some bare)

/-- A slot is not spelled with a character that no numeral has. -/
theorem slotIn_of_foreign {q : String} {c : Char} (member : c ∈ q.toList)
    (foreign : numeric c = false) (ordinary : c ∉ separators) : slotIn q = none := by
  cases found : slotIn q with
  | none => rfl
  | some s =>
      obtain ⟨sep, among, cut⟩ := List.exists_of_findSome?_eq_some found
      obtain ⟨a, b, whole, -, period, thread⟩ := slotAt_eq_some.mp cut
      rw [whole, List.mem_append, List.mem_cons] at member
      rcases member with first | same | second
      · exact absurd (numeric_of_mem period first) (by simp [foreign])
      · exact absurd (same ▸ among) ordinary
      · exact absurd (numeric_of_mem thread second) (by simp [foreign])

/-! ## Names -/

/-- A query asks for a name, with the suffix or, as a label, without it. -/
def Asks (q name : String) : Prop :=
  (∃ text, q.toList = text ++ massaSuffix ∧ name = trimmed (String.ofList text) ∧ name ≠ "") ∨
    (isDnsFriendly q = true ∧ name = q)

theorem nameBefore_eq_some {q name : String} : nameBefore q = some name ↔
    ∃ text, q.toList = text ++ massaSuffix ∧ name = trimmed (String.ofList text) ∧ name ≠ "" := by
  simp only [nameBefore, Option.filter_eq_some_iff, Option.map_eq_some_iff, stripSuffix_eq_some,
    decide_eq_true_eq]
  constructor
  · rintro ⟨⟨text, whole, rfl⟩, some_⟩
    exact ⟨text, whole, rfl, some_⟩
  · rintro ⟨text, whole, rfl, some_⟩
    exact ⟨⟨text, whole, rfl⟩, some_⟩

theorem char_of_isDnsFriendly {q : String} (label : isDnsFriendly q = true) {c : Char}
    (member : c ∈ q.toList) : c.isAlphanum = true ∨ c = '-' ∨ c = '_' := by
  simp only [isDnsFriendly, Bool.and_eq_true, List.all_eq_true, Bool.or_eq_true,
    decide_eq_true_eq] at label
  exact or_assoc.mp (label.1.2 c member)

theorem letter_of_isDnsFriendly {q : String} (label : isDnsFriendly q = true) :
    ∃ c ∈ q.toList, c.isAlpha = true := by
  simp only [isDnsFriendly, Bool.and_eq_true, List.any_eq_true] at label
  exact label.2

theorem nameBefore_of_isDnsFriendly {q : String} (label : isDnsFriendly q = true) :
    nameBefore q = none := by
  have undotted : '.' ∉ q.toList := fun dot =>
    absurd (char_of_isDnsFriendly label dot) (by decide)
  have uncut : stripSuffix massaSuffix q.toList = none :=
    stripSuffix_of_not_mem List.mem_cons_self undotted
  rw [nameBefore, uncut]
  rfl

/-- A label has no suffix, so the two ways to ask for a name exclude each other. -/
theorem nameIn_eq_some {q name : String} : nameIn q = some name ↔ Asks q name := by
  unfold nameIn Asks
  rw [← nameBefore_eq_some]
  by_cases label : isDnsFriendly q = true
  · rw [nameBefore_of_isDnsFriendly label, if_pos label]
    simp [label, eq_comm]
  · simp [label]

/-! ## Answers -/

inductive Hit where
  | block (row : Option StoredBlock)
  | operation (row : Option StoredOperation)
  | address (a : Address) (mnsName : Option String) (blocks : List BlockId) (ops : List OperationId)
  | slot (s : Slot) (row : Option SlotState)

inductive ApiErr where
  | notFound (what : String)
  | bad (message : String)
  | internal (message : String)

/-- The address with the newest of its blocks and operations. -/
def addressHit (db : Db) (a : Address) (mnsName : Option String) : Hit :=
  .address a mnsName (iterBlocksByCreator db a none 5).items (iterOpsByCreator db a none 5).items

section Searches

variable [Bs58Check]

def findBlock (db : Db) (value : String) : Except ApiErr Hit :=
  match BlockId.parse value with
  | .error e => .error (.bad e)
  | .ok id => .ok (.block (db.readBlock id))

def findOperation (db : Db) (value : String) : Except ApiErr Hit :=
  match OperationId.parse value with
  | .error e => .error (.bad e)
  | .ok id => .ok (.operation (db.readOp id))

def findAddress (db : Db) (value : String) : Except ApiErr Hit :=
  match Address.parse value with
  | .error e => .error (.bad e)
  | .ok a => .ok (addressHit db a none)

/-- A name is looked up at the node, and the address it gives has to be one. -/
def findNamed (db : Db) (mnsResolve : String → Except String (Option String)) (name : String) :
    Except ApiErr Hit :=
  match mnsResolve name with
  | .error e => .error (.internal s!"MNS lookup for '{name}.massa' failed: {e}")
  | .ok none => .error (.notFound s!"MNS '{name}.massa' not registered")
  | .ok (some resolved) =>
      match Address.parse resolved with
      | .error e => .error (.bad s!"MNS '{name}.massa' resolved to a non-address value: {e}")
      | .ok a => .ok (addressHit db a (some (name ++ ".massa")))

def search (db : Db) (mnsResolve : String → Except String (Option String)) (text : String) :
    Except ApiErr Hit :=
  let q := trimmed text
  match classify q with
  | (.block, value) => findBlock db value
  | (.operation, value) => findOperation db value
  | (.address, value) => findAddress db value
  | (.slot period thread, _) => .ok (.slot ⟨period, thread⟩ (db.readSlot ⟨period, thread⟩))
  | (.mnsName name, _) => findNamed db mnsResolve name
  | (.unknown, _) => .error (.bad s!"could not classify query: {q}")

end Searches

end MassaIndexer.Rest.Search
