/-
# Laws.SearchHits -- the search box finds exactly what a query names

A query comes to an answer exactly when it names something: as the id of a block or an operation, as
an address, as a slot around any of the separators, or as a name that the node resolves; and the
answer is what the store has of that very thing (`search_exact`). The order in which the kinds are
tried never shows: no two of them fit one query.

A name can be asked for with its suffix or without it (`search_suffixed`), unless it begins like an
id; where the name contract of the node's chain has an address under it, the search comes to that
address (`search_registered`).
-/
import MassaIndexer.Rest.NameService

namespace MassaIndexer.Laws.SearchHits

open MassaIndexer.Theory.Trimming
open MassaIndexer.Data.Ids MassaIndexer.Data.Model MassaIndexer.Store.ColumnFamilies
open MassaIndexer.Data.Keys MassaIndexer.Rest.Search MassaIndexer.Rest.NameService

set_option autoImplicit false

/-! ## Kinds of queries -/

/-- The query begins as no id and no address does. -/
structure Unlettered (q : String) : Prop where
  block : ¬ ['B'] <+: q.toList
  operation : ¬ ['O'] <+: q.toList
  address : ¬ (['A', 'U'] <+: q.toList ∨ ['A', 'S'] <+: q.toList)

/-- A query with a letter in front spells no slot. -/
theorem slotIn_of_prefix {q : String} {c : Char} {front : List Char}
    (starts : c :: front <+: q.toList) (foreign : numeric c = false) (ordinary : c ∉ separators) :
    slotIn q = none :=
  slotIn_of_foreign (starts.subset List.mem_cons_self) foreign ordinary

theorem slotIn_of_letter {q : String} (lettered : ∃ c ∈ q.toList, c.isAlpha = true) :
    slotIn q = none := by
  obtain ⟨c, inside, letter⟩ := lettered
  exact slotIn_of_foreign inside (foreign_of_isAlpha letter).1 (foreign_of_isAlpha letter).2

theorem classify_slot {q : String} {s : Slot} (found : slotIn q = some s) :
    classify q = (.slot s.period s.thread, "") := by
  rw [classify, found]

theorem classify_block {q : String} (starts : ['B'] <+: q.toList) : classify q = (.block, q) := by
  rw [classify, slotIn_of_prefix starts (by decide) (by decide)]
  exact if_pos starts

theorem classify_operation {q : String} (starts : ['O'] <+: q.toList) :
    classify q = (.operation, q) := by
  have other : ¬ ['B'] <+: q.toList := by
    intro both
    obtain ⟨rest, whole⟩ := starts
    rw [← whole, List.singleton_append, List.cons_prefix_cons] at both
    exact absurd both.1 (by decide)
  rw [classify, slotIn_of_prefix starts (by decide) (by decide)]
  exact (if_neg other).trans (if_pos starts)

theorem classify_address {q : String} (starts : ['A', 'U'] <+: q.toList ∨ ['A', 'S'] <+: q.toList) :
    classify q = (.address, q) := by
  have first : ['A'] <+: q.toList := by
    rcases starts with user | sc
    · exact List.IsPrefix.trans ⟨['U'], rfl⟩ user
    · exact List.IsPrefix.trans ⟨['S'], rfl⟩ sc
  have other : ∀ c : Char, c ≠ 'A' → ¬ [c] <+: q.toList := by
    intro c ne both
    obtain ⟨rest, whole⟩ := first
    rw [← whole, List.singleton_append, List.cons_prefix_cons] at both
    exact ne both.1
  rw [classify, slotIn_of_prefix first (by decide) (by decide)]
  exact (if_neg (other 'B' (by decide))).trans
    ((if_neg (other 'O' (by decide))).trans (if_pos starts))

theorem classify_rest {q : String} (none_ : slotIn q = none) (free : Unlettered q) :
    classify q = (nameIn q).elim (.unknown, q) fun name => (.mnsName name, "") := by
  rw [classify, none_]
  refine (if_neg free.block).trans ((if_neg free.operation).trans ((if_neg free.address).trans ?_))
  cases nameIn q <;> rfl

section Searches

variable [Bs58Check]

/-! ## What a query names -/

/-- What the store and the node have under a query. -/
inductive Shows (db : Db) (mnsResolve : String → Except String (Option String)) (q : String) :
    Hit → Prop where
  | block (id : BlockId) (spelled : q = id.text) : Shows db mnsResolve q (.block (db.readBlock id))
  | operation (id : OperationId) (spelled : q = id.text) :
      Shows db mnsResolve q (.operation (db.readOp id))
  | address (a : Address) (spelled : Address.parse q = .ok a) :
      Shows db mnsResolve q (addressHit db a none)
  | slot (s : Slot) (spelled : Spells q s) : Shows db mnsResolve q (.slot s (db.readSlot s))
  | named (name resolved : String) (a : Address) (slotless : ∀ s, ¬ Spells q s) (free : Unlettered q)
      (asked : Asks q name) (answered : mnsResolve name = .ok (some resolved))
      (spelled : Address.parse resolved = .ok a) :
      Shows db mnsResolve q (addressHit db a (some (name ++ ".massa")))

theorem findBlock_eq_ok {db : Db} {value : String} {hit : Hit} : findBlock db value = .ok hit ↔
    ∃ id : BlockId, value = id.text ∧ hit = .block (db.readBlock id) := by
  unfold findBlock
  constructor
  · intro found
    split at found
    · cases found
    · next id parsed => exact ⟨id, (FamilyId.text_of_parse parsed).symm, (Except.ok.inj found).symm⟩
  · rintro ⟨id, rfl, rfl⟩
    rw [show BlockId.parse id.text = .ok id from FamilyId.parse_text id]

theorem findOperation_eq_ok {db : Db} {value : String} {hit : Hit} :
    findOperation db value = .ok hit ↔
      ∃ id : OperationId, value = id.text ∧ hit = .operation (db.readOp id) := by
  unfold findOperation
  constructor
  · intro found
    split at found
    · cases found
    · next id parsed => exact ⟨id, (FamilyId.text_of_parse parsed).symm, (Except.ok.inj found).symm⟩
  · rintro ⟨id, rfl, rfl⟩
    rw [show OperationId.parse id.text = .ok id from FamilyId.parse_text id]

theorem findAddress_eq_ok {db : Db} {value : String} {hit : Hit} : findAddress db value = .ok hit ↔
    ∃ a, Address.parse value = .ok a ∧ hit = addressHit db a none := by
  unfold findAddress
  cases Address.parse value with
  | error e => simp
  | ok a => simp [eq_comm]

theorem findNamed_eq_ok {db : Db} {mnsResolve : String → Except String (Option String)}
    {name : String} {hit : Hit} : findNamed db mnsResolve name = .ok hit ↔
      ∃ resolved a, mnsResolve name = .ok (some resolved) ∧ Address.parse resolved = .ok a ∧
        hit = addressHit db a (some (name ++ ".massa")) := by
  unfold findNamed
  cases mnsResolve name with
  | error e => simp
  | ok answer =>
      cases answer with
      | none => simp
      | some resolved =>
          dsimp only
          cases parsed : Address.parse resolved with
          | error e => simp [parsed]
          | ok a => simp [parsed, eq_comm]

/-- Only a text with the letters of a category in front is an address. -/
theorem prefix_of_parse {q : String} {a : Address} (parsed : Address.parse q = .ok a) :
    ['A', 'U'] <+: q.toList ∨ ['A', 'S'] <+: q.toList := by
  unfold Address.parse Address.decodeAddress at parsed
  split at parsed
  · next second payload chars =>
      rw [chars]
      by_cases user : second = 'U'
      · exact .inl (by simp [user])
      · by_cases sc : second = 'S'
        · exact .inr (by simp [sc])
        · simp [user, sc, Except.mapError] at parsed
  · simp [Except.mapError] at parsed

omit [Bs58Check] in
theorem bare_trimmed (text : String) :
    ∀ c ∈ (trimmed text).toList.head?, isWhitespace c = false := by
  rw [toList_trimmed]
  exact head_trim

section Exactness

variable {db : Db} {mnsResolve : String → Except String (Option String)} {text : String} {hit : Hit}

/-- The kinds are tried in the order of `classify`; each answers with what it names. -/
theorem shows_of_search (found : search db mnsResolve text = .ok hit) :
    Shows db mnsResolve (trimmed text) hit := by
  have bare := bare_trimmed text
  unfold search at found
  generalize trimmed text = q at bare found ⊢
  dsimp only at found
  cases slot : slotIn q with
  | some s =>
      rw [classify_slot slot] at found
      obtain rfl := Except.ok.inj found
      exact .slot s ((slotIn_eq_some bare).mp slot)
  | none =>
      by_cases block : ['B'] <+: q.toList
      · rw [classify_block block] at found
        obtain ⟨id, spelled, rfl⟩ := findBlock_eq_ok.mp found
        exact .block id spelled
      by_cases operation : ['O'] <+: q.toList
      · rw [classify_operation operation] at found
        obtain ⟨id, spelled, rfl⟩ := findOperation_eq_ok.mp found
        exact .operation id spelled
      by_cases address : ['A', 'U'] <+: q.toList ∨ ['A', 'S'] <+: q.toList
      · rw [classify_address address] at found
        obtain ⟨a, spelled, rfl⟩ := findAddress_eq_ok.mp found
        exact .address a spelled
      have free : Unlettered q := ⟨block, operation, address⟩
      rw [classify_rest slot free] at found
      cases named : nameIn q with
      | none =>
          rw [named] at found
          cases found
      | some name =>
          rw [named] at found
          obtain ⟨resolved, a, answered, spelled, rfl⟩ := findNamed_eq_ok.mp found
          exact .named name resolved a ((slotIn_eq_none bare).mp slot) free (nameIn_eq_some.mp named)
            answered spelled

/-- What a query names is of one kind, and the search comes to that kind. -/
theorem search_of_shows (shows : Shows db mnsResolve (trimmed text) hit) :
    search db mnsResolve text = .ok hit := by
  have bare := bare_trimmed text
  unfold search
  generalize trimmed text = q at bare shows ⊢
  dsimp only
  cases shows with
  | block id spelled =>
      rw [classify_block (by rw [spelled, FamilyId.text, String.toList_ofList]; simp)]
      exact findBlock_eq_ok.mpr ⟨id, spelled, rfl⟩
  | operation id spelled =>
      rw [classify_operation (by rw [spelled, FamilyId.text, String.toList_ofList]; simp)]
      exact findOperation_eq_ok.mpr ⟨id, spelled, rfl⟩
  | address a spelled =>
      rw [classify_address (prefix_of_parse spelled)]
      exact findAddress_eq_ok.mpr ⟨a, spelled, rfl⟩
  | slot s spelled => rw [classify_slot ((slotIn_eq_some bare).mpr spelled)]
  | named name resolved a slotless free asked answered spelled =>
      rw [classify_rest ((slotIn_eq_none bare).mpr slotless) free, nameIn_eq_some.mpr asked]
      exact findNamed_eq_ok.mpr ⟨resolved, a, answered, spelled, rfl⟩

end Exactness

/-- **A search finds exactly what its query names**, whatever the store holds and whatever the node
answers. -/
theorem search_exact (db : Db) (mnsResolve : String → Except String (Option String)) (text : String)
    (hit : Hit) :
    search db mnsResolve text = .ok hit ↔ Shows db mnsResolve (trimmed text) hit :=
  ⟨shows_of_search, search_of_shows⟩

/-! ## Names with and without the suffix -/

theorem search_of_name (db : Db) (mnsResolve : String → Except String (Option String))
    {text name : String} (slotless : slotIn (trimmed text) = none) (free : Unlettered (trimmed text))
    (asked : Asks (trimmed text) name) :
    search db mnsResolve text = findNamed db mnsResolve name := by
  rw [search, classify_rest slotless free, nameIn_eq_some.mpr asked]
  rfl

omit [Bs58Check] in
theorem not_blank_of_isDnsFriendly {label : String} (friendly : isDnsFriendly label = true) :
    ∀ c ∈ label.toList, isWhitespace c = false := by
  intro c member
  rcases char_of_isDnsFriendly friendly member with letter | rfl | rfl
  · exact not_blank_of_isAlphanum letter
  · decide
  · decide

omit [Bs58Check] in
theorem trimmed_of_not_blank {text : String} (bare : ∀ c ∈ text.toList, isWhitespace c = false) :
    trimmed text = text := by
  rw [trimmed, trim_of_bare (.of_none bare), String.ofList_toList]

omit [Bs58Check] in
theorem toList_suffixed (label : String) :
    (label ++ ".massa").toList = label.toList ++ massaSuffix := by
  simp [massaSuffix]

omit [Bs58Check] in
/-- The suffix does not make an id of a label. -/
theorem Unlettered.suffixed {label : String} (some_ : label.toList ≠ []) (free : Unlettered label) :
    Unlettered (label ++ ".massa") := by
  have single : ∀ c : Char, [c] <+: label.toList ++ massaSuffix → [c] <+: label.toList := by
    intro c starts
    cases chars : label.toList with
    | nil => exact absurd chars some_
    | cons d rest =>
        rw [chars] at starts
        simpa using starts
  have double : ∀ d : Char, d ≠ '.' → ['A', d] <+: label.toList ++ massaSuffix →
      ['A', d] <+: label.toList := by
    intro d ne starts
    cases chars : label.toList with
    | nil => exact absurd chars some_
    | cons c rest =>
        rw [chars] at starts
        cases rest with
        | nil =>
            obtain ⟨tail, same⟩ := starts
            exact absurd (List.cons.inj (List.cons.inj same).2).1 ne
        | cons e rest => simpa using starts
  have whole := toList_suffixed label
  exact {
    block := fun starts => free.block (single 'B' (whole ▸ starts))
    operation := fun starts => free.operation (single 'O' (whole ▸ starts))
    address := by
      rw [whole]
      rintro (user | sc)
      · exact free.address (.inl (double 'U' (by decide) user))
      · exact free.address (.inr (double 'S' (by decide) sc)) }

section Labels

variable (db : Db) (mnsResolve : String → Except String (Option String)) {label : String}
  (friendly : isDnsFriendly label = true) (free : Unlettered label)

include friendly free

/-- A label is looked up under its own name. -/
theorem search_label : search db mnsResolve label = findNamed db mnsResolve label := by
  have plain := trimmed_of_not_blank (not_blank_of_isDnsFriendly friendly)
  refine search_of_name db mnsResolve ?_ ?_ ?_ <;> rw [plain]
  · exact slotIn_of_letter (letter_of_isDnsFriendly friendly)
  · exact free
  · exact .inr ⟨friendly, rfl⟩

theorem search_label_suffixed :
    search db mnsResolve (label ++ ".massa") = findNamed db mnsResolve label := by
  have bare := not_blank_of_isDnsFriendly friendly
  have whole := toList_suffixed label
  obtain ⟨c, member, letter⟩ := letter_of_isDnsFriendly friendly
  have nonempty : label.toList ≠ [] := List.ne_nil_of_mem member
  have unblank : ∀ d ∈ massaSuffix, isWhitespace d = false := by simp [massaSuffix, isWhitespace]
  have named : trimmed (String.ofList label.toList) = label := by
    rw [String.ofList_toList, trimmed_of_not_blank bare]
  have plain : trimmed (label ++ ".massa") = label ++ ".massa" := by
    refine trimmed_of_not_blank fun d inside => ?_
    rw [whole, List.mem_append] at inside
    rcases inside with own | added
    · exact bare d own
    · exact unblank d added
  refine search_of_name db mnsResolve ?_ ?_ ?_ <;> rw [plain]
  · exact slotIn_of_letter ⟨c, by rw [whole]; exact List.mem_append_left _ member, letter⟩
  · exact free.suffixed nonempty
  · refine .inl ⟨label.toList, whole, named.symm, ?_⟩
    rintro rfl
    exact nonempty rfl

end Labels

/-- **A name is the same with its suffix and without**: a label that does not begin like an id or an
address is looked up under the same name either way. -/
theorem search_suffixed (db : Db) (mnsResolve : String → Except String (Option String))
    (label : String) (friendly : isDnsFriendly label = true) (free : Unlettered label) :
    search db mnsResolve (label ++ ".massa") = search db mnsResolve label := by
  rw [search_label_suffixed db mnsResolve friendly free, search_label db mnsResolve friendly free]

/-! ## Registered names -/

omit [Bs58Check] in
theorem passes_of_isDnsFriendly {label : String} (friendly : isDnsFriendly label = true) :
    label ≠ "" ∧ Passes label := by
  obtain ⟨c, member, -⟩ := letter_of_isDnsFriendly friendly
  have short : label.utf8ByteSize ≤ 64 := by
    simp only [isDnsFriendly, Bool.and_eq_true, decide_eq_true_eq] at friendly
    exact friendly.1.1.2
  have bytes : (textBytes label).length = label.utf8ByteSize := rfl
  refine ⟨?_, ?_⟩
  · rintro rfl
    cases member
  · rw [Passes, bytes]
    exact Nat.lt_of_le_of_lt short (by decide)

/-- **A registered name is found, with its suffix or without.** Where the name contract of the node's
chain keeps a table of names, a label comes to the address under it, and to "not registered" where
there is none. -/
theorem search_registered (db : Db) {node : Node} {table : String → Option String}
    (keeps : Keeps node table) {label : String} (friendly : isDnsFriendly label = true)
    (free : Unlettered label)
    (good : ∀ text, table label = some text → (∃ a, Address.parse text = .ok a) ∧ Passes text)
    (query : String) (asked : query = label ∨ query = label ++ ".massa") :
    (∀ text a, table label = some text → Address.parse text = .ok a →
      search db (mnsResolve node) query = .ok (addressHit db a (some (label ++ ".massa")))) ∧
    (table label = none → search db (mnsResolve node) query =
      .error (.notFound s!"MNS '{label}.massa' not registered")) := by
  have found : search db (mnsResolve node) query = findNamed db (mnsResolve node) label := by
    rcases asked with rfl | rfl
    · exact search_label db _ friendly free
    · exact search_label_suffixed db _ friendly free
  obtain ⟨named, passes⟩ := passes_of_isDnsFriendly friendly
  have resolved : mnsResolve node label = .ok (table label) := by
    refine mnsResolve_of_keeps keeps named passes fun text entry => ?_
    obtain ⟨⟨a, parsed⟩, short⟩ := good text entry
    refine ⟨?_, short⟩
    rintro rfl
    cases parsed
  rw [found, findNamed, resolved]
  constructor
  · intro text a entry parsed
    rw [entry]
    dsimp only
    rw [parsed]
  · intro missing
    rw [missing]

end Searches

/-! ## One name -/

section Registry

attribute [local instance] Bs58Check.doubleSha

def zeroAddress : Address := ⟨List.replicate addrKeyLen 0, Address.width_zeros⟩

/-- A table of one name. -/
def registry (name : String) : Option String :=
  if name = "alice" then some zeroAddress.text else none

/-- A node of the main network whose contract keeps the table. -/
def registrar : Node where
  connect := .ok ()
  getStatus := .ok (some 77658377)
  executeReadOnlyCall := fun _ _ parameter =>
    ((decodeScString parameter).bind registry).map fun text => some (argsString text)

theorem keeps_registrar : Keeps registrar registry where
  connects := rfl
  serves := by
    refine ⟨77658377, mnsMainnet, rfl, rfl, fun name passes => ?_⟩
    show ((decodeScString (argsString name)).bind registry).map _ = _
    rw [decodeScString_argsString passes]
    rfl

theorem passes_zeroAddress : Passes zeroAddress.text := by
  show (textBytes zeroAddress.text).length < UInt32.size
  decide +kernel

theorem unlettered_alice : Unlettered "alice" := ⟨by decide, by decide, by decide⟩

theorem search_suffixed_alice : search Db.empty (mnsResolve registrar) ("alice" ++ ".massa") =
    search Db.empty (mnsResolve registrar) "alice" :=
  search_suffixed Db.empty (mnsResolve registrar) "alice" (by decide) unlettered_alice

theorem search_registered_alice : search Db.empty (mnsResolve registrar) "alice.massa" =
    .ok (addressHit Db.empty zeroAddress (some "alice.massa")) := by
  have named : zeroAddress.Named := .inl rfl
  have entry : registry "alice" = some zeroAddress.text := rfl
  refine (search_registered Db.empty keeps_registrar (by decide) unlettered_alice ?_ "alice.massa"
    (.inr rfl)).1 zeroAddress.text zeroAddress entry (Address.parse_text named)
  intro text same
  obtain rfl := Option.some.inj (entry.symm.trans same)
  exact ⟨⟨zeroAddress, Address.parse_text named⟩, passes_zeroAddress⟩

end Registry

end MassaIndexer.Laws.SearchHits
