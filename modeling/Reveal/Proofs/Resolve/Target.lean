import Mathlib.Data.List.Nodup
import Reveal.Proofs.Ident.Print
import Reveal.Proofs.Parse
import Reveal.Proofs.Resolve.Step
/-!
# What links open

No two links of a document open the same. Links with a target are kept apart by the targets taken so
far and the others by their numbers, and neither kind gets in the way of the other (`Separate`). All
of these identifiers are printed differently, so a printed one names a link as well.
-/
namespace Reveal

namespace Ident

/-- What a link can open: something with a name, or the fragment of its own number. -/
def IsTarget (id : Ident) : Prop :=
  id.isAddressable = true ∨ ∃ n, id = .auto n

theorem isAddressable_ofName (name : String) (depth : Nat) : (ofName name depth).isAddressable = true := by
  unfold ofName
  split <;> rfl

theorem IsTarget.ne_unreferenced {id : Ident} (h : id.IsTarget) (n : Nat) : id ≠ .unreferenced n := by
  rintro rfl
  rcases h with h | ⟨m, h⟩ <;> cases h

theorem IsTarget.ne_anonymous {id : Ident} (h : id.IsTarget) : id ≠ .anonymous := by
  rintro rfl
  rcases h with h | ⟨m, h⟩ <;> cases h

/-- Among targets a print stands for one only. -/
theorem IsTarget.eq_of_print {a b : Ident} (ha : a.IsTarget) (h : a.print = b.print) : a = b := by
  rcases print_eq_print_iff.1 h with h | ⟨m, n, rfl, -⟩
  · exact h
  · exact absurd rfl (ha.ne_unreferenced m)

end Ident

namespace Resolution

/-- What the links so far open. -/
def opened (r : Resolution) : List Ident :=
  r.emitted.filterMap Event.opens?

/-- The links so far open different things, which are known as targets or as numbers given out. -/
structure Separate (r : Resolution) : Prop where
  nodup : r.opened.Nodup
  known : ∀ id ∈ r.opened, id ∈ r.targets ∨ ∃ n < r.nextAuto, id = .auto n
  addressable : ∀ id ∈ r.targets, id.isAddressable = true

variable {r r' : Resolution} {p : Position} {t : Token}

theorem separate_start : start.Separate where
  nodup := .nil
  known := by simp [opened, start, emit, Event.opens?]
  addressable := by simp [start, emit]

/-- Events other than links change nothing. -/
theorem Separate.inert (h : r.Separate) (hopened : r'.opened = r.opened) (htargets : r'.targets = r.targets)
    (hauto : r'.nextAuto = r.nextAuto) : r'.Separate := by
  obtain ⟨hnodup, hknown, haddressable⟩ := h
  refine ⟨by rwa [hopened], ?_, by rwa [htargets]⟩
  rwa [hopened, htargets, hauto]

theorem Separate.step (h : r.Separate) (hs : Step r p t r') : r'.Separate := by
  cases hs with
  | paragraph | namedFragment | awaitedFragment | unreferencedFragment | fragmentClose | text =>
    exact h.inert rfl rfl rfl
  | targetedLink caption name kind fresh =>
    have hspelled := Ident.isAddressable_ofName name r.level
    generalize Ident.ofName name r.level = id at fresh hspelled ⊢
    have hfresh : id ∉ r.targets := by
      rw [Std.TreeMap.mem_iff_isSome_getElem?, fresh]
      simp
    refine ⟨List.nodup_cons.2 ⟨fun hmem => ?_, h.nodup⟩, fun other hother => ?_, fun other hother => ?_⟩
    · rcases h.known id hmem with hmem | ⟨n, -, rfl⟩
      · exact hfresh hmem
      · cases hspelled
    · rw [Std.TreeMap.mem_insert, Ident.order_eq_iff]
      rcases List.mem_cons.1 hother with rfl | hother
      · exact .inl (.inl rfl)
      · exact (h.known other hother).imp_left .inr
    · rw [Std.TreeMap.mem_insert, Ident.order_eq_iff] at hother
      rcases hother with rfl | hother
      · exact hspelled
      · exact h.addressable other hother
  | autoLink caption kind =>
    refine ⟨List.nodup_cons.2 ⟨fun hmem => ?_, h.nodup⟩, fun other hother => ?_, h.addressable⟩
    · rcases h.known _ hmem with hmem | ⟨n, hlt, heq⟩
      · cases h.addressable _ hmem
      · cases heq
        exact Nat.lt_irrefl _ hlt
    · rcases List.mem_cons.1 hother with rfl | hother
      · exact .inr ⟨r.nextAuto, Nat.lt_succ_self _, rfl⟩
      · rcases h.known other hother with hmem | ⟨n, hlt, rfl⟩
        · exact .inl hmem
        · exact .inr ⟨n, Nat.lt_succ_of_lt hlt, rfl⟩

theorem Separate.isTarget {id : Ident} (h : r.Separate) (hid : id ∈ r.opened) : id.IsTarget := by
  rcases h.known id hid with hmem | ⟨n, -, rfl⟩
  · exact .inl (h.addressable id hmem)
  · exact .inr ⟨n, rfl⟩

end Resolution

variable {source : String} {d : Document} {id : Ident}

/-- What a document's links open is what those of a resolution do. -/
theorem exists_separate (h : parse source = .ok d) : ∃ r : Resolution, r.Separate ∧ d.links = r.opened.reverse := by
  obtain ⟨events, hr, -, rfl⟩ := parse_eq_ok_iff.1 h
  obtain ⟨r, hs, -, rfl⟩ := Resolution.resolve_reaches (P := fun _ r => r.Separate)
    Resolution.separate_start Resolution.Separate.step hr
  refine ⟨r, hs, ?_⟩
  simp only [Document.links, Cascade.fill_eq_map, List.filterMap_map, Function.comp_def,
    Event.opens?_withDescendants, Resolution.opened, List.filterMap_reverse]
  rfl

theorem links_nodup (h : parse source = .ok d) : d.links.Nodup := by
  obtain ⟨r, hs, hlinks⟩ := exists_separate h
  rw [hlinks, List.nodup_reverse]
  exact hs.nodup

theorem isTarget_of_mem_links (h : parse source = .ok d) (hid : id ∈ d.links) : id.IsTarget := by
  obtain ⟨r, hs, hlinks⟩ := exists_separate h
  rw [hlinks, List.mem_reverse] at hid
  exact hs.isTarget hid

theorem isTarget_of_kind {link : Event} {caption text : String} {descendants : List Ident}
    (h : parse source = .ok d) (hlink : link ∈ d.events)
    (hkind : link.kind = .revealLink id caption text descendants) : id.IsTarget := by
  have hopens : link.opens? = some id := by simp [Event.opens?, hkind]
  exact isTarget_of_mem_links h (List.mem_filterMap.2 ⟨link, hlink, hopens⟩)

namespace Document

theorem linkTo?_eq_none (h : id ∉ d.links) : d.linkTo? id = none := by
  rw [linkTo?, List.find?_eq_none]
  intro e he hopens
  exact h (List.mem_filterMap.2 ⟨e, he, by simpa using hopens⟩)

/-- Where no two links open the same, a link is found and no other opens what it opens. -/
theorem linkTo?_unique (hnodup : d.links.Nodup) (hid : id ∈ d.links) : ∃ before e after,
    d.events = before ++ e :: after ∧ e.opens? = some id ∧ d.linkTo? id = some e ∧
      ∀ other ∈ before ++ after, other.opens? ≠ some id := by
  have hsome : (d.linkTo? id).isSome := by
    obtain ⟨e, he, hopens⟩ := List.mem_filterMap.1 hid
    rw [linkTo?, List.find?_isSome]
    exact ⟨e, he, by simp [hopens]⟩
  obtain ⟨e, hfound⟩ := Option.isSome_iff_exists.1 hsome
  obtain ⟨hopens, before, after, hevents, hbefore⟩ := List.find?_eq_some_iff_append.1 hfound
  rw [beq_iff_eq] at hopens
  refine ⟨before, e, after, hevents, hopens, hfound, fun other hother heq => ?_⟩
  rcases List.mem_append.1 hother with hother | hother
  · simpa [heq] using hbefore other hother
  · rw [links, hevents, List.filterMap_append, List.filterMap_cons_some hopens] at hnodup
    have hnotMem := (List.nodup_cons.1 (List.nodup_append.1 hnodup).2.1).1
    exact hnotMem (List.mem_filterMap.2 ⟨other, hother, heq⟩)

end Document

/-- The links of a document open different identifiers, which are printed differently. So for what a
link opens, that link is found, and it is the only one; for all else none is found. -/
theorem links_unique (h : parse source = .ok d) :
    d.links.Nodup ∧ (d.links.map Ident.print).Nodup ∧
    (∀ id ∈ d.links, ∃ before e after, d.events = before ++ e :: after ∧ e.opens? = some id ∧
      d.linkTo? id = some e ∧ ∀ other ∈ before ++ after, other.opens? ≠ some id) ∧
    ∀ id, id ∉ d.links → d.linkTo? id = none := by
  have hnodup := links_nodup h
  refine ⟨hnodup, hnodup.map_on ?_, fun id => Document.linkTo?_unique hnodup, fun id => Document.linkTo?_eq_none⟩
  intro a ha b _ hprint
  exact (isTarget_of_mem_links h ha).eq_of_print hprint

/-- Links without target, one named by digits at two depths, and a name that needs escaping. -/
theorem links_unique_mixed :
    ∃ d, parse "[a]#007[b]>[c]#7[d]#it's[e]" = .ok d ∧
      d.links.map Ident.print = ["0-7", "0", "1-7", "_it&#39;s", "1"] ∧
      d.links.Nodup ∧ (d.links.map Ident.print).Nodup ∧
      (∀ id ∈ d.links, ∃ before e after, d.events = before ++ e :: after ∧ e.opens? = some id ∧
        d.linkTo? id = some e ∧ ∀ other ∈ before ++ after, other.opens? ≠ some id) ∧
      ∀ id, id ∉ d.links → d.linkTo? id = none := by
  obtain ⟨d, hd, hprints⟩ : ∃ d, parse "[a]#007[b]>[c]#7[d]#it's[e]" = .ok d ∧
      d.links.map Ident.print = ["0-7", "0", "1-7", "_it&#39;s", "1"] := by decide +kernel
  exact ⟨d, hd, hprints, links_unique hd⟩

end Reveal
