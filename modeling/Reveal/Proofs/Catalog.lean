import Std.Data.TreeMap.Lemmas
import Reveal.Catalog
/-!
# Catalogs follow their registrations

Whatever is registered and replaced, in whatever order, a catalog knows what the last registration
under each name left there (`last?`). One registration changes the answer for its own name only
(`get?_register`), and so a run of them leaves the last under each name (`get?_registerAll`). All else
that a catalog can be asked is read off these answers (`follows_of_get?`). It is what a map without an
order gives, once its entries are sorted (`Leaves.mergeSort_eq`). So two catalogs are told apart exactly if
some name was last registered otherwise (`Follows.alike_iff`).
-/
namespace Reveal

/-- Names are listed in the lexicographic order of their bytes. -/
theorem Text.byteOrder_eq_lt_iff {s t : String} : byteOrder s t = .lt ↔ bytes s < bytes t := by
  show compare (bytes s) (bytes t) = .lt ↔ _
  generalize bytes s = a
  generalize bytes t = b
  induction a generalizing b with
  | nil => cases b <;> simp
  | cons x a ih =>
    cases b with
    | nil => simp
    | cons y b =>
      rw [List.compare_cons_cons, Ordering.then_eq_lt, ih, Std.compare_eq_lt, Std.LawfulEqOrd.compare_eq_iff_eq,
        List.cons_lt_cons_iff]

/-- Whether a text may stand before another one when they are sorted. -/
def Text.byteLe (s t : String) : Bool :=
  (byteOrder s t).isLE

theorem Text.byteLe_trans {s t u : String} (h : byteLe s t = true) (h' : byteLe t u = true) : byteLe s u = true :=
  Std.TransCmp.isLE_trans h h'

theorem Text.byteLe_total (s t : String) : (byteLe s t || byteLe t s) = true := by
  have hswap : byteOrder t s = (byteOrder s t).swap := Std.OrientedCmp.eq_swap
  rw [byteLe, byteLe, hswap]
  cases byteOrder s t <;> rfl

theorem Text.byteLe_antisymm {s t : String} (h : byteLe s t = true) (h' : byteLe t s = true) : s = t :=
  Std.LawfulEqCmp.eq_of_compare (Std.OrientedCmp.isLE_antisymm h h')

namespace Catalog

variable {α : Type} {c d : Catalog α} {registered registered' before held : List (String × α)}
  {name other : String} {entry : α} {nameOf : α → String}

/-! ## Registering -/

/-- What the last of the registrations under a name left there. -/
def last? (registered : List (String × α)) (name : String) : Option α :=
  (registered.filter fun r => r.1 == name).getLast?.map Prod.snd

theorem last?_append_singleton :
    last? (registered ++ [(name, entry)]) other = if name = other then some entry else last? registered other := by
  unfold last?
  by_cases h : name = other <;> simp [h]

theorem mem_of_last? (h : last? registered name = some entry) : (name, entry) ∈ registered := by
  obtain ⟨r, hlast, rfl⟩ := Option.map_eq_some_iff.1 h
  obtain ⟨hmem, hname⟩ := List.mem_filter.1 (List.mem_of_getLast? hlast)
  obtain rfl : r.1 = name := eq_of_beq hname
  exact hmem

theorem exists_last?_iff :
    (∃ entry, last? registered name = some entry) ↔ ∃ entry, (name, entry) ∈ registered := by
  refine ⟨fun ⟨entry, h⟩ => ⟨entry, mem_of_last? h⟩, fun ⟨entry, hmem⟩ => ?_⟩
  have hne : (registered.filter fun r => r.1 == name) ≠ [] :=
    List.ne_nil_of_mem (List.mem_filter.2 ⟨hmem, beq_self_eq_true name⟩)
  rw [last?, List.getLast?_eq_some_getLast hne]
  exact ⟨_, rfl⟩

theorem get?_register :
    (c.register name entry).get? other = if name = other then some entry else c.get? other := by
  simp only [get?, register, Std.TreeMap.getElem?_insert, Std.LawfulEqCmp.compare_eq_iff_eq]

/-- Registrations go on behind those that were made before. -/
theorem get?_registerAll (hbefore : ∀ name, c.get? name = last? before name) (name : String) :
    (c.registerAll registered).get? name = last? (before ++ registered) name := by
  induction registered generalizing c before with
  | nil =>
    rw [List.append_nil]
    exact hbefore name
  | cons r registered ih =>
    rw [List.append_cons]
    refine ih fun other => ?_
    rw [get?_register, last?_append_singleton, hbefore]

/-! ## Listing -/

theorem has_eq_isSome : c.has name = (c.get? name).isSome :=
  Std.TreeMap.contains_eq_isSome_getElem?

theorem mem_names : name ∈ c.names ↔ ∃ entry, c.get? name = some entry := by
  rw [← Option.isSome_iff_exists]
  exact Std.TreeMap.mem_keys.trans Std.TreeMap.mem_iff_isSome_getElem?

theorem names_eq_map : c.names = c.entries.toList.map Prod.fst :=
  Std.TreeMap.map_fst_toList_eq_keys.symm

theorem all_eq_map : c.all = c.entries.toList.map Prod.snd := by
  show c.entries.foldr (fun _ entry l => entry :: l) [] = _
  rw [Std.TreeMap.foldr_eq_foldr_toList, List.foldr_cons_eq_append, List.append_nil]

theorem mem_toList_iff {r : String × α} : r ∈ c.entries.toList ↔ c.get? r.1 = some r.2 :=
  Std.TreeMap.mem_toList_iff_getElem?_eq_some

/-! ## Sorting -/

/-- Whether an entry may stand before another one when they are sorted by their names. -/
def nameLe (r r' : String × α) : Bool :=
  Text.byteLe r.1 r'.1

/-- What the registrations leave, the last one under each name, in the order of an unordered map: any. -/
structure Leaves (registered held : List (String × α)) : Prop where
  nodup : (held.map Prod.fst).Nodup
  mem : ∀ r, r ∈ held ↔ last? registered r.1 = some r.2

/-- The catalog holds them in its own order. -/
theorem leaves_toList (h : ∀ name, c.get? name = last? registered name) : Leaves registered c.entries.toList where
  nodup := by
    rw [← names_eq_map]
    exact Std.TreeMap.nodup_keys
  mem r := by rw [mem_toList_iff, h]

theorem Leaves.nodup_held (h : Leaves registered held) : held.Nodup :=
  List.Pairwise.of_map Prod.fst (fun _ _ hne heq => hne (congrArg Prod.fst heq)) h.nodup

/-- Sorted by their names, the entries stand as they do in the catalog. -/
theorem Leaves.mergeSort_eq (hheld : Leaves registered held) (h : ∀ name, c.get? name = last? registered name) :
    held.mergeSort nameLe = c.entries.toList := by
  have hsorted : (held.mergeSort nameLe).Pairwise fun r r' => nameLe r r' = true := by
    refine List.pairwise_mergeSort ?_ ?_ held
    · exact fun _ _ _ => Text.byteLe_trans
    · exact fun r r' => Text.byteLe_total r.1 r'.1
  have hentries : c.entries.toList.Pairwise fun r r' => nameLe r r' = true :=
    Std.TreeMap.ordered_keys_toList.imp Ordering.isLE_of_eq_lt
  have hsame : held.Perm c.entries.toList :=
    (List.perm_ext_iff_of_nodup hheld.nodup_held (leaves_toList h).nodup_held).2 fun r =>
      (hheld.mem r).trans ((leaves_toList h).mem r).symm
  have hperm : (held.mergeSort nameLe).Perm c.entries.toList := (List.mergeSort_perm held nameLe).trans hsame
  refine List.Perm.eq_of_pairwise (fun r r' hr hr' hle hge => ?_) hsorted hentries hperm
  have hname : r.1 = r'.1 := Text.byteLe_antisymm hle hge
  have hentry : some r.2 = some r'.2 := by
    rw [← mem_toList_iff.1 (hperm.mem_iff.1 hr), ← mem_toList_iff.1 hr', hname]
  exact Prod.ext hname (Option.some.inj hentry)

/-! ## What a catalog answers -/

/-- The catalog gives the answers that the registrations give, told from the first one on. -/
structure Follows (c : Catalog α) (registered : List (String × α)) : Prop where
  get? : ∀ name, c.get? name = last? registered name
  has : ∀ name, c.has name = true ↔ ∃ entry, c.get? name = some entry
  ascending : c.names.Pairwise fun a b => Text.bytes a < Text.bytes b
  nodup : c.names.Nodup
  mem_names : ∀ name, name ∈ c.names ↔ ∃ entry, (name, entry) ∈ registered
  all : c.all.map some = c.names.map c.get?
  /-- Sorting gives the lists, in whatever order the entries are held. -/
  sorts : ∀ held, Leaves registered held →
    (held.map Prod.fst).mergeSort Text.byteLe = c.names ∧
    (held.mergeSort nameLe).map Prod.snd = c.all

/-- No question tells the catalogs apart. -/
structure Alike (c d : Catalog α) : Prop where
  get? : ∀ name, c.get? name = d.get? name
  has : ∀ name, c.has name = d.has name
  names : c.names = d.names
  all : c.all = d.all

/-- Under each name the last registration is the same. -/
def SameLast (registered registered' : List (String × α)) : Prop :=
  ∀ name, last? registered name = last? registered' name

/-- It is enough to look at the names that were registered. -/
theorem sameLast_iff_forall_mem : SameLast registered registered' ↔
    ∀ r ∈ registered ++ registered', last? registered r.1 = last? registered' r.1 := by
  refine ⟨fun h r _ => h r.1, fun h name => Option.ext fun entry => ?_⟩
  constructor <;> intro hlast
  · rw [← h _ (List.mem_append_left _ (mem_of_last? hlast)), hlast]
  · rw [h _ (List.mem_append_right _ (mem_of_last? hlast)), hlast]

instance [DecidableEq α] : Decidable (SameLast registered registered') :=
  decidable_of_iff _ sameLast_iff_forall_mem.symm

theorem follows_of_get? (h : ∀ name, c.get? name = last? registered name) : c.Follows registered where
  get? := h
  has name := by rw [has_eq_isSome, Option.isSome_iff_exists]
  ascending := Std.TreeMap.ordered_keys.imp Text.byteOrder_eq_lt_iff.1
  nodup := Std.TreeMap.nodup_keys
  mem_names name := by rw [mem_names, h, exists_last?_iff]
  all := by
    rw [all_eq_map, names_eq_map, List.map_map, List.map_map]
    exact List.map_congr_left fun r hr => (mem_toList_iff.1 hr).symm
  sorts held hheld := by
    have hfst : (held.mergeSort nameLe).map Prod.fst = (held.map Prod.fst).mergeSort Text.byteLe :=
      List.map_mergeSort fun _ _ _ _ => rfl
    rw [← hfst, hheld.mergeSort_eq h, names_eq_map, all_eq_map]
    exact ⟨rfl, rfl⟩

theorem alike_of_get? (h : ∀ name, c.get? name = d.get? name) : c.Alike d := by
  -- The trees may have grown into other shapes, but they hold the same entries.
  have hentries : c.entries.Equiv d.entries := .of_forall_constGet?_eq h
  refine ⟨h, fun name => ?_, hentries.keys_eq, hentries.values_eq⟩
  rw [has_eq_isSome, has_eq_isSome, h]

theorem Follows.alike_iff (hc : c.Follows registered) (hd : d.Follows registered') :
    c.Alike d ↔ SameLast registered registered' := by
  constructor
  · intro h name
    rw [← hc.get?, h.get?, hd.get?]
  · intro h
    refine alike_of_get? fun name => ?_
    rw [hc.get?, h, hd.get?]

/-- Entries that are registered under their own names are listed in the order of these. -/
theorem Follows.map_all (h : c.Follows registered) (hnames : ∀ r ∈ registered, nameOf r.2 = r.1) :
    c.all.map nameOf = c.names := by
  rw [all_eq_map, names_eq_map, List.map_map]
  refine List.map_congr_left fun r hr => hnames r (mem_of_last? ?_)
  rw [← h.get?, mem_toList_iff.1 hr]

/-- And so they are listed as sorting them by their own names lists them. -/
theorem Follows.mergeSort_all (h : c.Follows registered) (hnames : ∀ r ∈ registered, nameOf r.2 = r.1)
    (hheld : Leaves registered held) :
    (held.map Prod.snd).mergeSort (fun a b => Text.byteLe (nameOf a) (nameOf b)) = c.all := by
  have hown : ∀ r ∈ held, nameOf r.2 = r.1 := fun r hr => hnames r (mem_of_last? ((hheld.mem r).1 hr))
  rw [← (h.sorts held hheld).2]
  refine (List.map_mergeSort fun r hr r' hr' => ?_).symm
  rw [hown r hr, hown r' hr', nameLe]

end Catalog

/-! ## Histories -/

/-- Entries registered one after the other, from an empty catalog on or from the standard one. -/
inductive History (α : Type) where
  | fromEmpty (entries : List α)
  | fromStandard (entries : List α)

namespace History

variable {α : Type} (nameOf : α → String) (builtin : List α)

/-- The catalog that a history leads to. -/
def catalog (register : Catalog α → α → Catalog α) (empty standard : Catalog α) : History α → Catalog α
  | fromEmpty entries => entries.foldl register empty
  | fromStandard entries => entries.foldl register standard

/-- All registrations of a history, each under the entry's own name. The standard catalog is one in which
the built-in entries were registered first. -/
def registered : History α → List (String × α)
  | fromEmpty entries => entries.map fun e => (nameOf e, e)
  | fromStandard entries => (builtin ++ entries).map fun e => (nameOf e, e)

theorem nameOf_of_mem_registered {h : History α} {r : String × α} (hr : r ∈ h.registered nameOf builtin) :
    nameOf r.2 = r.1 := by
  cases h <;> obtain ⟨e, -, rfl⟩ := List.mem_map.1 hr <;> rfl

theorem catalog_eq_registerAll (h : History α) :
    h.catalog (fun c e => c.register (nameOf e) e) {} (builtin.foldl (fun c e => c.register (nameOf e) e) {}) =
      Catalog.registerAll {} (h.registered nameOf builtin) := by
  cases h with
  | fromEmpty entries => rw [catalog, registered, Catalog.registerAll, List.foldl_map]
  | fromStandard entries => rw [catalog, registered, Catalog.registerAll, List.foldl_map, List.foldl_append]

theorem follows_catalog (h : History α) :
    (h.catalog (fun c e => c.register (nameOf e) e) {}
      (builtin.foldl (fun c e => c.register (nameOf e) e) {})).Follows (h.registered nameOf builtin) := by
  rw [catalog_eq_registerAll]
  have hempty : ∀ name, ({} : Catalog α).get? name = Catalog.last? [] name :=
    fun _ => Std.TreeMap.getElem?_emptyc
  exact Catalog.follows_of_get? (Catalog.get?_registerAll hempty)

end History

end Reveal
