/-
# Store.TransferScan -- the transfers of an address, page by page

`iter_transfers_by_addr` walks the entries of an address and fetches the transfer each of them
names. A transfer can have two entries there, one as sent and one as received; a page passes over
the second, but what a page has passed over the next one does not know.

Over an index that has all the entries of its rows (`Covers`) and only such as were built, the pages
list the transfers of the address exactly under two conditions (`pagesRight_iff`): no entry leads to
a transfer that no longer names the address, and no page ends at a transfer that has both entries.
-/
import MassaIndexer.Theory.PlaceCursor
import MassaIndexer.Data.KeyParsing
import MassaIndexer.Store.Indexes
import MassaIndexer.Store.Listings

namespace MassaIndexer.Store.TransferScan

open MassaIndexer.Theory.KeyedTable MassaIndexer.Theory.Cursor
open MassaIndexer.Data.Ids MassaIndexer.Data.Model MassaIndexer.Data.Keys MassaIndexer.Data.KeyOrder
open MassaIndexer.Data.KeyParsing
open MassaIndexer.Store.ColumnFamilies MassaIndexer.Store.Indexes MassaIndexer.Store.Scans
open MassaIndexer.Store.Listings

set_option autoImplicit false

/-! ## The scan -/

/-- Slot and index, which a page remembers in `seen_keys`. -/
abbrev Place := Slot × UInt32

def transferPager (db : Db) (addr : Address) : PlacePager Bytes Bytes Place StoredTransfer where
  key := id
  before := forward
  within := addr.bytes.isPrefixOf
  place k := (parseIdxTransferByAddr k).map fun parsed => (parsed.1, parsed.2.1)
  row p := db.transfers.get (transferKey p.1 p.2)

def iterTransfersByAddr (db : Db) (addr : Address) : Option Bytes → Nat → Page Bytes StoredTransfer :=
  (transferPager db addr).page (some addr.bytes) db.transferByAddr.toList

/-! ## Places in order -/

/-- Newest slot first, then by index. -/
def placeLess (p q : Place) : Prop :=
  compare (rslotKey p.1 ++ indexBytes p.2) (rslotKey q.1 ++ indexBytes q.2) = .lt

instance (p q : Place) : Decidable (placeLess p q) := inferInstanceAs (Decidable (_ = _))

def placeOf (t : StoredTransfer) : Place := (t.slot, t.indexInSlot)

theorem placeLess_irrefl (p : Place) : ¬ placeLess p p := by
  intro less
  have same : compare (rslotKey p.1 ++ indexBytes p.2) (rslotKey p.1 ++ indexBytes p.2) = .eq :=
    Std.ReflCmp.compare_self
  rw [placeLess, same] at less
  cases less

theorem placeLess_trans {p q o : Place} (first : placeLess p q) (second : placeLess q o) :
    placeLess p o := Std.TransCmp.lt_trans first second

/-- A place in a newer slot comes first. -/
theorem placeLess_iff {p q : Place} : placeLess p q ↔
    q.1.lt p.1 = true ∨ p.1 = q.1 ∧ compare (indexBytes p.2) (indexBytes q.2) = .lt :=
  compare_idx_eq_lt []

/-- Entries of one address are in the order of their places. -/
theorem place_of_less {a : Address} {p q : Place} {x y : UInt8}
    (less : compare (idxTransferByAddr a.bytes p.1 p.2 x) (idxTransferByAddr a.bytes q.1 q.2 y) = .lt) :
    p = q ∨ placeLess p q := by
  have shape : ∀ (p : Place) (x : UInt8), idxTransferByAddr a.bytes p.1 p.2 x =
      a.bytes ++ ((rslotKey p.1 ++ indexBytes p.2) ++ [x]) := by
    intro p x
    simp [idxTransferByAddr]
  have same : compare a.bytes a.bytes = .eq := Std.ReflCmp.compare_self
  rw [shape, shape, compare_append rfl, same, Ordering.eq_then, compare_append (by simp)] at less
  cases order : compare (rslotKey p.1 ++ indexBytes p.2) (rslotKey q.1 ++ indexBytes q.2) with
  | lt => exact .inr order
  | gt => rw [order] at less; cases less
  | eq =>
      obtain ⟨slots, indices⟩ := List.append_inj (Std.LawfulEqOrd.eq_of_compare order) (by simp)
      exact .inl (Prod.ext (rslotKey_injective slots) (indexBytes_injective indices))

/-! ## Built entries -/

/-- The address index holds nothing but entries of transfers: tag 1 as sent, tag 2 as received. -/
def Built (idx : Index) : Prop :=
  ∀ k ∈ idx, ∃ (a : Address) (p : Place) (tag : UInt8), (tag = 1 ∨ tag = 2) ∧
    idxTransferByAddr a.bytes p.1 p.2 tag = k

variable {db : Db} {a : Address}

theorem place_build (p : Place) (tag : UInt8) :
    (transferPager db a).place (idxTransferByAddr a.bytes p.1 p.2 tag) = some p := by
  show (parseIdxTransferByAddr _).map _ = _
  rw [parseIdxTransferByAddr_build]
  rfl

theorem ordered_transferPager : (transferPager db a).plain.Ordered db.transferByAddr.toList :=
  ⟨(ordered_index db.transferByAddr a.bytes fun _ => (none : Option Unit)).irrefl,
    (ordered_index db.transferByAddr a.bytes fun _ => (none : Option Unit)).sorted⟩

theorem owned_transferPager : (transferPager db a).Owned placeOf where
  own p t found := by
    obtain ⟨slot, index⟩ := transferKey_inj.mp (Table.key_of_get found)
    exact Prod.ext slot index

/-- An entry under an address is one of the address. -/
theorem built_under (built : Built db.transferByAddr) {k : Bytes}
    (under : k ∈ entriesUnder db.transferByAddr a.bytes) :
    ∃ (p : Place) (tag : UInt8), (tag = 1 ∨ tag = 2) ∧ idxTransferByAddr a.bytes p.1 p.2 tag = k := by
  obtain ⟨entered, below⟩ := mem_entriesUnder.mp under
  obtain ⟨b, p, tag, tags, rfl⟩ := built k entered
  rw [idxTransferByAddr, List.append_assoc, List.append_assoc] at below
  have same : a = b :=
    Address.ext ((isPrefix_append_iff (a.width.trans b.width.symm)).mp below)
  exact ⟨p, tag, tags, by rw [same]⟩

/-- An entry under an address that names a place. -/
theorem entry_of_place {k : Bytes} {p : Place} (under : k ∈ entriesUnder db.transferByAddr a.bytes)
    (here : (transferPager db a).place k = some p) : ∃ tag, k =
        idxTransferByAddr a.bytes p.1 p.2 tag := by
  obtain ⟨parts, parsed, rfl⟩ := Option.map_eq_some_iff.mp here
  obtain ⟨s, i, tag⟩ := parts
  obtain ⟨addr, width, rfl⟩ := parseIdxTransferByAddr_eq_some.mp parsed
  have below := (mem_entriesUnder.mp under).2
  rw [idxTransferByAddr, List.append_assoc, List.append_assoc,
    isPrefix_append_iff (a.width.trans width.symm)] at below
  exact ⟨tag, by rw [below]⟩

theorem placed_transferPager :
    (transferPager db a).Placed placeLess (entriesUnder db.transferByAddr a.bytes) where
  irrefl := placeLess_irrefl
  trans _ _ _ := placeLess_trans
  sorted := by
    refine sorted_entriesUnder.imp_of_mem ?_
    intro k k' inK inK' less p q here there
    obtain ⟨x, rfl⟩ := entry_of_place inK here
    obtain ⟨y, rfl⟩ := entry_of_place inK' there
    exact place_of_less less

theorem range_transferPager :
    (transferPager db a).plain.range
      ((transferPager db a).plain.seek db.transferByAddr.toList (some a.bytes)) =
        entriesUnder db.transferByAddr a.bytes := walk_eq_entriesUnder db.transferByAddr a.bytes

/-- A place has at most one entry exactly when it does not have both. -/
theorem count_le_one_iff (built : Built db.transferByAddr) (p : Place) :
    (transferPager db a).count p (entriesUnder db.transferByAddr a.bytes) ≤ 1 ↔
      ¬ (idxTransferByAddr a.bytes p.1 p.2 1 ∈ db.transferByAddr ∧
        idxTransferByAddr a.bytes p.1 p.2 2 ∈ db.transferByAddr) := by
  have under : ∀ tag : UInt8, idxTransferByAddr a.bytes p.1 p.2 tag ∈ db.transferByAddr →
      idxTransferByAddr a.bytes p.1 p.2 tag ∈ entriesUnder db.transferByAddr a.bytes := by
    intro tag entered
    refine mem_entriesUnder.mpr ⟨entered, ?_⟩
    rw [idxTransferByAddr, List.append_assoc, List.append_assoc]
    exact List.prefix_append _ _
  have single : (entriesUnder db.transferByAddr a.bytes).Nodup :=
    sorted_entriesUnder.imp fun {x y} (less : compare x y = .lt) (same : x = y) => by
      have equal : compare x y = .eq := same ▸ Std.ReflCmp.compare_self
      rw [equal] at less
      cases less
  let here := (entriesUnder db.transferByAddr a.bytes).filter fun k =>
    (transferPager db a).place k = some p
  have hereNodup : here.Nodup := single.filter _
  have mem_here : ∀ k, k ∈ here ↔ k ∈ db.transferByAddr ∧
      (k = idxTransferByAddr a.bytes p.1 p.2 1 ∨ k = idxTransferByAddr a.bytes p.1 p.2 2) := by
    intro k
    simp only [here, List.mem_filter, decide_eq_true_eq]
    constructor
    · rintro ⟨member, place⟩
      obtain ⟨q, tag, tags, rfl⟩ := built_under built member
      rw [place_build] at place
      obtain rfl := Option.some.inj place
      refine ⟨(mem_entriesUnder.mp member).1, ?_⟩
      rcases tags with rfl | rfl
      · exact .inl rfl
      · exact .inr rfl
    · rintro ⟨entered, rfl | rfl⟩
      · exact ⟨under 1 entered, place_build p 1⟩
      · exact ⟨under 2 entered, place_build p 2⟩
  have size : (transferPager db a).count p (entriesUnder db.transferByAddr a.bytes) = here.length :=
    List.countP_eq_length_filter
  rw [size]
  constructor
  · rintro few ⟨sent, received⟩
    have both : [idxTransferByAddr a.bytes p.1 p.2 1, idxTransferByAddr a.bytes p.1 p.2 2] ⊆ here := by
      intro k member
      rcases List.mem_pair.mp member with rfl | rfl
      · exact (mem_here _).mpr ⟨sent, .inl rfl⟩
      · exact (mem_here _).mpr ⟨received, .inr rfl⟩
    have apart : [idxTransferByAddr a.bytes p.1 p.2 1, idxTransferByAddr a.bytes p.1 p.2 2].Nodup := by
      simp [idxTransferByAddr_inj]
    have two := (apart.subperm both).length_le
    simp only [List.length_cons, List.length_nil] at two
    omega
  · intro notBoth
    have lone : ∃ k, here ⊆ [k] := by
      by_cases sent : idxTransferByAddr a.bytes p.1 p.2 1 ∈ db.transferByAddr
      · refine ⟨idxTransferByAddr a.bytes p.1 p.2 1, fun k member => ?_⟩
        obtain ⟨entered, rfl | rfl⟩ := (mem_here k).mp member
        · exact List.mem_singleton.mpr rfl
        · exact absurd ⟨sent, entered⟩ notBoth
      · refine ⟨idxTransferByAddr a.bytes p.1 p.2 2, fun k member => ?_⟩
        obtain ⟨entered, rfl | rfl⟩ := (mem_here k).mp member
        · exact absurd entered sent
        · exact List.mem_singleton.mpr rfl
    obtain ⟨k, among⟩ := lone
    exact (hereNodup.subperm among).length_le

/-! ## What the pages list -/

variable [Bs58Check]

/-- The transfer names the address, as its sender or its recipient. -/
def Mentions (a : Address) (t : StoredTransfer) : Prop :=
  (namesOf t).sender = some a ∨ (namesOf t).recipient = some a

instance (a : Address) (t : StoredTransfer) : Decidable (Mentions a t) :=
  inferInstanceAs (Decidable (_ ∨ _))

def newer (t u : StoredTransfer) : Prop := placeLess (placeOf t) (placeOf u)

instance (t u : StoredTransfer) : Decidable (newer t u) :=
  inferInstanceAs (Decidable (placeLess _ _))

/-- Following the cursors reads the transfers of the address, each once and newest first, and so does one
call that no limit cuts short. -/
def PagesRight (db : Db) (a : Address) (limit : Nat) : Prop :=
  ∃ rows, Lists db.transfers (Mentions a) newer rows ∧
    Follows (iterTransfersByAddr db a · limit) none rows ∧
    ∀ unlimited, db.transferByAddr.toList.length < unlimited →
      iterTransfersByAddr db a none unlimited = { items := rows }

/-- No entry of the address leads to a transfer that does not name it. -/
def NoStale (db : Db) (a : Address) : Prop :=
  ∀ (p : Place) (tag : UInt8), idxTransferByAddr a.bytes p.1 p.2 tag ∈ db.transferByAddr →
    ∀ t, db.readTransfer p.1 p.2 = some t → Mentions a t

/-- How many transfers of the address come before one. -/
def rank (db : Db) (a : Address) (t : StoredTransfer) : Nat :=
  (db.transfers.toList.filter fun u => Mentions a u ∧ newer u t).length

/-- No page of this size ends at a transfer with two entries. -/
def NoSplit (db : Db) (a : Address) (limit : Nat) : Prop :=
  ∀ t, db.transfers.Holds t → Mentions a t →
    idxTransferByAddr a.bytes t.slot t.indexInSlot 1 ∈ db.transferByAddr →
    idxTransferByAddr a.bytes t.slot t.indexInSlot 2 ∈ db.transferByAddr →
    ¬ limit ∣ rank db a t + 1

/-- The values the whole walk meets. -/
def met (db : Db) (a : Address) : List StoredTransfer :=
  (transferPager db a).hits (entriesUnder db.transferByAddr a.bytes) []

omit [Bs58Check] in
/-- One call that no limit cuts short returns them. -/
theorem unlimited_eq_met {limit : Nat} (roomy : db.transferByAddr.toList.length < limit) :
    iterTransfersByAddr db a none limit = { items := met db a } := by
  rw [met, ← range_transferPager]
  exact PlacePager.page_unlimited roomy

omit [Bs58Check] in
theorem mem_met {t : StoredTransfer} (built : Built db.transferByAddr) : t ∈ met db a ↔
    ∃ (p : Place) (tag : UInt8), (tag = 1 ∨ tag = 2) ∧
      idxTransferByAddr a.bytes p.1 p.2 tag ∈ db.transferByAddr ∧ db.readTransfer p.1 p.2 = some t := by
  rw [met, PlacePager.mem_hits]
  constructor
  · rintro ⟨k, member, p, here, -, found⟩
    obtain ⟨q, tag, tags, rfl⟩ := built_under built member
    rw [place_build] at here
    obtain rfl := Option.some.inj here
    exact ⟨q, tag, tags, (mem_entriesUnder.mp member).1, found⟩
  · rintro ⟨p, tag, -, entered, found⟩
    refine ⟨_, mem_entriesUnder.mpr ⟨entered, ?_⟩, p, place_build p tag, by simp, found⟩
    rw [idxTransferByAddr, List.append_assoc, List.append_assoc]
    exact List.prefix_append _ _

/-- **Without stale entries the walk meets the transfers of the address.** -/
theorem lists_met_iff (built : Built db.transferByAddr)
    (covers : Covers Db.transferAddrKeys db.transfers db.transferByAddr) :
    Lists db.transfers (Mentions a) newer (met db a) ↔ NoStale db a := by
  constructor
  · intro lists p tag entered t found
    have tags : tag = 1 ∨ tag = 2 := by
      obtain ⟨b, q, tag', tags, same⟩ := built _ entered
      rw [(idxTransferByAddr_inj.mp same).2.2.2] at tags
      exact tags
    exact ((lists.mem t).mp ((mem_met built).mpr ⟨p, tag, tags, entered, found⟩)).2
  · intro noStale
    refine ⟨fun t => ?_, ?_, fun t => placeLess_irrefl _⟩
    · rw [mem_met built]
      constructor
      · rintro ⟨p, tag, -, entered, found⟩
        exact ⟨Table.holds_of_get found, noStale p tag entered t found⟩
      · rintro ⟨held, sent | received⟩
        · exact ⟨placeOf t, 1, .inl rfl,
            covers t held _ (mem_transferAddrKeys.mpr (.inl ⟨a, sent, rfl⟩)), held⟩
        · exact ⟨placeOf t, 2, .inr rfl,
            covers t held _ (mem_transferAddrKeys.mpr (.inr ⟨a, received, rfl⟩)), held⟩
    · exact PlacePager.pairwise_hits owned_transferPager placed_transferPager []

/-- In such a list a transfer stands behind those that come before it. -/
theorem rank_of_lists {rows front back : List StoredTransfer} {t : StoredTransfer}
    (lists : Lists db.transfers (Mentions a) newer rows) (split : rows = front ++ t :: back) :
    rank db a t = front.length := by
  exact lists.rank placeLess_trans split

theorem clear_iff_noSplit (built : Built db.transferByAddr) {limit : Nat}
    (lists : Lists db.transfers (Mentions a) newer (met db a)) :
    (transferPager db a).Clear placeOf limit (entriesUnder db.transferByAddr a.bytes) ↔
      NoSplit db a limit := by
  constructor
  · intro clear t held mentions sent received multiple
    obtain ⟨front, back, split⟩ := List.append_of_mem ((lists.mem t).mpr ⟨held, mentions⟩)
    rw [rank_of_lists lists split] at multiple
    exact (count_le_one_iff built (placeOf t)).mp (clear front t back split multiple) ⟨sent, received⟩
  · intro noSplit front t back split multiple
    have listed : t ∈ met db a := by
      rw [met, split]
      simp
    obtain ⟨held, mentions⟩ := (lists.mem t).mp listed
    refine (count_le_one_iff built (placeOf t)).mpr fun both => ?_
    rw [← rank_of_lists lists split] at multiple
    exact noSplit t held mentions both.1 both.2 multiple

/-- **The pages are right exactly when nothing stale is met and no page ends at a transfer that has both
entries.** -/
theorem pagesRight_iff (built : Built db.transferByAddr)
    (covers : Covers Db.transferAddrKeys db.transfers db.transferByAddr) {limit : Nat}
    (positive : 0 < limit) : PagesRight db a limit ↔ NoStale db a ∧ NoSplit db a limit := by
  have placed : (transferPager db a).Placed placeLess
      ((transferPager db a).inside db.transferByAddr.toList) := placed_transferPager
  have pages : Follows (iterTransfersByAddr db a · limit) none (met db a) ↔
      (transferPager db a).Clear placeOf limit (entriesUnder db.transferByAddr a.bytes) := by
    rw [met, ← range_transferPager]
    exact PlacePager.follows_hits_iff owned_transferPager ordered_transferPager placed positive
  have unlimited : ∀ limit, db.transferByAddr.toList.length < limit →
      iterTransfersByAddr db a none limit = { items := met db a } := fun _ => unlimited_eq_met
  constructor
  · rintro ⟨rows, lists, follows, whole⟩
    have one := (whole _ (Nat.lt_succ_self _)).symm.trans (unlimited _ (Nat.lt_succ_self _))
    obtain rfl : rows = met db a := congrArg Page.items one
    exact ⟨(lists_met_iff built covers).mp lists, (clear_iff_noSplit built lists).mp (pages.mp follows)⟩
  · rintro ⟨noStale, noSplit⟩
    have lists := (lists_met_iff built covers).mpr noStale
    exact ⟨met db a, lists, pages.mpr ((clear_iff_noSplit built lists).mpr noSplit), unlimited⟩

end MassaIndexer.Store.TransferScan
