import Reveal.Html
import Reveal.Proofs.Cascade.Preorder
import Reveal.Proofs.Cascade.TargetFirst
import Reveal.Proofs.Ident.Print
import Reveal.Proofs.Resolve.Origin
/-!
# Reading a list of identifiers back

What a link reveals is written with commas between the printed identifiers, each print once. The list
can be read back: no link reveals an anonymous paragraph, which would be printed as nothing, no name
holds a comma, and only unreferenced fragments are printed alike. So cutting the list at its commas gives
the prints in their order (`idList_reads_back`).
-/
namespace Reveal

namespace Ident

/-- Whether no link opens the fragment. -/
def isUnreferenced : Ident → Bool
  | unreferenced _ => true
  | _ => false

/-- An identifier whose print can stand in a list: it is not empty and holds no comma. -/
def Listable : Ident → Prop
  | named name => Token.IsName name
  | anonymous => False
  | numbered _ _ | auto _ | unreferenced _ => True

variable {id : Ident}

theorem Listable.ne_anonymous (h : id.Listable) : id ≠ .anonymous := by
  rintro rfl
  exact h

theorem comma_notMem_toString (n : Nat) : ',' ∉ (toString n).toList := by
  intro h
  have := isDigit_of_mem_toString h
  revert this
  decide

theorem comma_notMem_entity {c : Char} (h : c ≠ ',') : ',' ∉ Prose.entity c := by
  unfold Prose.entity
  split
  case h_6 => simpa using h.symm
  all_goals decide

theorem comma_notMem_escape {name : String} (h : Token.IsName name) : ',' ∉ (Prose.escape name).toList := by
  rw [Prose.escape, String.toList_ofList, Prose.escapeChars, List.mem_flatMap]
  rintro ⟨c, hc, hmem⟩
  refine comma_notMem_entity ?_ hmem
  rintro rfl
  exact absurd (h _ hc) (by decide)

theorem Listable.comma_notMem_print (h : id.Listable) : ',' ∉ id.print.toList := by
  cases id with
  | named name => simpa [print, namedMark] using comma_notMem_escape h
  | numbered depth number =>
    rw [print, String.toList_append, String.toList_append, List.mem_append, List.mem_append, not_or, not_or]
    exact ⟨⟨comma_notMem_toString depth, by decide⟩, comma_notMem_toString number⟩
  | auto ordinal => exact comma_notMem_toString ordinal
  | unreferenced ordinal => exact (by decide : ',' ∉ unreferencedText.toList)
  | anonymous => cases h

theorem print_eq_empty_iff : id.print = "" ↔ id = .anonymous := by
  have h := print_eq_print_iff (a := id) (b := .anonymous)
  simpa [print] using h

end Ident

/-! ## What links reveal -/

namespace Cascade

/-- An anonymous paragraph is filed under nothing but itself: it stands in no fragment, and no link and
no fragment is anonymous. -/
theorem ne_anonymous_of_edge {tokens : List Token} {e : Event} {parent child : Ident} (hfrom : e.FromTokens tokens)
    (hchain : e.OpensOnChain) (hedge : (parent, child) ∈ edges e) (hparent : parent ≠ .anonymous) :
    child ≠ .anonymous := by
  rintro rfl
  obtain ⟨hmem, hopens⟩ := mem_edges hedge
  unfold Event.FromTokens at hfrom
  unfold Event.OpensOnChain at hchain
  unfold Event.opens? Event.openedBy? at hopens
  cases hkind : e.kind with
  | paragraphOpen id =>
    simp only [hkind, reduceCtorEq, Option.some.injEq, false_or] at hopens hchain
    subst hopens
    rcases hchain with ⟨-, hnone⟩ | hone
    · rw [hnone] at hmem
      cases hmem
    · rw [hone, List.mem_singleton] at hmem
      exact hparent hmem
  | fragmentOpen id =>
    simp only [hkind, reduceCtorEq, Option.some.injEq, false_or] at hopens hfrom
    subst hopens
    exact hfrom
  | revealLink id caption text descendants =>
    simp only [hkind, reduceCtorEq, Option.some.injEq, or_false] at hopens hfrom
    subst hopens
    exact hfrom
  | paragraphClose | fragmentClose | text => simp [hkind] at hopens

theorem listable_of_edge {source : String} {events : List Event} {e : Event} {parent child : Ident}
    (h : resolve source (tokenize source) = .ok events) (he : e ∈ events) (hedge : (parent, child) ∈ edges e)
    (hparent : parent ≠ .anonymous) : child.Listable := by
  have hne := ne_anonymous_of_edge (fromTokens_of_resolve h e he) (opensOnChain_of_resolve h e he) hedge hparent
  cases child with
  | named name => exact isName_of_resolve h he (mem_edges hedge).2
  | anonymous => exact hne rfl
  | numbered | auto | unreferenced => trivial

/-- What is revealed along with something that is not anonymous can stand in a list. -/
theorem listable_of_mem_descendantsOf {source : String} {events : List Event} {target id : Ident}
    (h : resolve source (tokenize source) = .ok events) (htarget : target ≠ .anonymous)
    (hid : id ∈ descendantsOf events target) : id.Listable := by
  have hclosed : ∀ x, x = target ∨ x.Listable → ∀ child ∈ (Index.ofEvents events).children x, child.Listable := by
    intro x hx child hchild
    obtain ⟨e, he, hedge⟩ := Index.mem_children_ofEvents.1 hchild
    apply listable_of_edge h he hedge
    rcases hx with rfl | hx
    · exact htarget
    · exact hx.ne_anonymous
  exact (walk_least (Index.ofEvents events) target).2 hclosed hid

end Cascade

namespace Html

/-! ## Prints that are left out -/

/-- The identifiers without the unreferenced ones behind the first of these. -/
def onceUnreferenced : List Ident → List Ident
  | [] => []
  | id :: rest =>
    if id.isUnreferenced then id :: rest.filter (!·.isUnreferenced)
    else id :: onceUnreferenced rest

theorem print_eq_unreferencedText_iff {id : Ident} :
    id.print = Ident.unreferencedText ↔ id.isUnreferenced = true := by
  have h := Ident.print_eq_print_iff (a := id) (b := .unreferenced 0)
  have hprint : (Ident.unreferenced 0).print = Ident.unreferencedText := rfl
  rw [← hprint, h]
  cases id <;> simp [Ident.isUnreferenced]

/-- Of different identifiers only unreferenced ones are printed alike. -/
theorem unreferenced_of_print_eq {a b : Ident} (hne : a ≠ b) (h : a.print = b.print) :
    a.isUnreferenced = true ∧ b.isUnreferenced = true := by
  rcases Ident.print_eq_print_iff.1 h with h | ⟨m, n, rfl, rfl⟩
  · exact absurd h hne
  · exact ⟨rfl, rfl⟩

section FirstOccurrences

variable {seen : List String} {id : Ident} {ids : List Ident}

/-- What is left out as seen before is unreferenced. -/
def Fresh (seen : List String) (ids : List Ident) : Prop :=
  ∀ id ∈ ids, id.isUnreferenced = false → id.print ∉ seen

theorem Fresh.behind (h : Fresh seen (id :: ids)) (hid : id ∉ ids) : Fresh (id.print :: seen) ids := by
  intro x hx hother hmem
  rcases List.mem_cons.1 hmem with hprint | hmem
  · have hne : x ≠ id := by
      rintro rfl
      exact hid hx
    rw [(unreferenced_of_print_eq hne hprint).1] at hother
    cases hother
  · exact h x (List.mem_cons_of_mem id hx) hother hmem

theorem firstOccurrences_cons_of_mem {s : String} (h : s ∈ seen) (rest : List String) :
    firstOccurrences seen (s :: rest) = firstOccurrences seen rest := by
  rw [firstOccurrences, if_pos (List.contains_iff_mem.2 h)]

theorem firstOccurrences_cons_of_notMem {s : String} (h : s ∉ seen) (rest : List String) :
    firstOccurrences seen (s :: rest) = s :: firstOccurrences (s :: seen) rest := by
  rw [firstOccurrences, if_neg (mt List.contains_iff_mem.1 h)]

/-- Behind the first unreferenced identifier all the others are left out. -/
theorem firstOccurrences_of_seen (hids : ids.Nodup) (hfresh : Fresh seen ids)
    (hseen : Ident.unreferencedText ∈ seen) : firstOccurrences seen (ids.map Ident.print) =
      (ids.filter (!·.isUnreferenced)).map Ident.print := by
  induction ids generalizing seen with
  | nil => rfl
  | cons id ids ih =>
    obtain ⟨hid, hids⟩ := List.nodup_cons.1 hids
    rw [List.map_cons]
    cases hid' : id.isUnreferenced with
    | true =>
      rw [print_eq_unreferencedText_iff.2 hid', firstOccurrences_cons_of_mem hseen,
        List.filter_cons_of_neg (by simp [hid'])]
      exact ih hids (fun x hx => hfresh x (List.mem_cons_of_mem id hx)) hseen
    | false =>
      rw [firstOccurrences_cons_of_notMem (hfresh id List.mem_cons_self hid'),
        List.filter_cons_of_pos (by simp [hid']), List.map_cons,
        ih hids (hfresh.behind hid) (List.mem_cons_of_mem _ hseen)]

theorem firstOccurrences_print (hids : ids.Nodup) (hfresh : Fresh seen ids)
    (hseen : Ident.unreferencedText ∉ seen) : firstOccurrences seen (ids.map Ident.print) =
      (onceUnreferenced ids).map Ident.print := by
  induction ids generalizing seen with
  | nil => rfl
  | cons id ids ih =>
    obtain ⟨hid, hids⟩ := List.nodup_cons.1 hids
    have hnext := hfresh.behind hid
    rw [List.map_cons, onceUnreferenced]
    by_cases hunreferenced : id.isUnreferenced = true
    · have hprint := print_eq_unreferencedText_iff.2 hunreferenced
      rw [if_pos hunreferenced, List.map_cons, firstOccurrences_cons_of_notMem (hprint ▸ hseen),
        firstOccurrences_of_seen hids hnext (by simp [hprint])]
    · have hprint := mt print_eq_unreferencedText_iff.1 hunreferenced
      have hnew := hfresh id List.mem_cons_self (by simpa using hunreferenced)
      rw [if_neg hunreferenced, List.map_cons, firstOccurrences_cons_of_notMem hnew, ih hids hnext]
      intro hmem
      rcases List.mem_cons.1 hmem with heq | hmem
      · exact hprint heq.symm
      · exact hseen hmem

end FirstOccurrences

theorem idList_eq {ids : List Ident} (h : ids.Nodup) :
    idList ids = String.intercalate "," ((onceUnreferenced ids).map Ident.print) := by
  rw [idList, firstOccurrences_print h (fun _ _ _ => List.not_mem_nil) List.not_mem_nil]

theorem mem_of_mem_onceUnreferenced {ids : List Ident} {id : Ident} (h : id ∈ onceUnreferenced ids) : id ∈ ids := by
  induction ids with
  | nil => cases h
  | cons x ids ih =>
    rw [onceUnreferenced] at h
    split at h
    · rcases List.mem_cons.1 h with rfl | h
      · exact List.mem_cons_self
      · exact List.mem_cons_of_mem x (List.mem_of_mem_filter h)
    · rcases List.mem_cons.1 h with rfl | h
      · exact List.mem_cons_self
      · exact List.mem_cons_of_mem x (ih h)

theorem exists_onceUnreferenced_cons (id : Ident) (ids : List Ident) :
    ∃ rest, onceUnreferenced (id :: ids) = id :: rest := by
  rw [onceUnreferenced]
  split
  · exact ⟨_, rfl⟩
  · exact ⟨_, rfl⟩

/-! ## Lists that can be read back -/

section Listable

variable {ids : List Ident} (hids : ids.Nodup) (hlistable : ∀ id ∈ ids, id.Listable)
include hids hlistable

theorem idList_eq_empty_iff : idList ids = "" ↔ ids = [] := by
  constructor
  · intro hempty
    cases ids with
    | nil => rfl
    | cons id ids =>
      obtain ⟨rest, hrest⟩ := exists_onceUnreferenced_cons id ids
      rw [idList_eq hids, hrest, List.map_cons] at hempty
      have hprint : id.print = "" := by
        cases rest with
        | nil => simpa using hempty
        | cons other rest =>
          rw [List.map_cons, String.intercalate_cons_cons, String.append_eq_empty_iff,
            String.append_eq_empty_iff] at hempty
          exact hempty.1.1
      exact absurd (Ident.print_eq_empty_iff.1 hprint) (hlistable id List.mem_cons_self).ne_anonymous
  · rintro rfl
    rfl

theorem split_idList (hne : ids ≠ []) :
    ((idList ids).split ',').toList.map String.Slice.copy = (onceUnreferenced ids).map Ident.print := by
  have hcomma : ∀ s ∈ (onceUnreferenced ids).map Ident.print, ',' ∉ s.toList := by
    intro s hs
    obtain ⟨id, hid, rfl⟩ := List.mem_map.1 hs
    exact (hlistable id (mem_of_mem_onceUnreferenced hid)).comma_notMem_print
  have hprints : (onceUnreferenced ids).map Ident.print ≠ [] := by
    obtain ⟨id, rest, rfl⟩ := List.exists_cons_of_ne_nil hne
    obtain ⟨more, hmore⟩ := exists_onceUnreferenced_cons id rest
    simp [hmore]
  have hsplit := String.toList_split_intercalate hcomma
  rw [if_neg hprints] at hsplit
  rw [idList_eq hids]
  exact hsplit

end Listable

/-- The list of what a link reveals is empty exactly if the link reveals nothing. Cutting it at its commas
gives the prints in the order of discovery, and the only ones that are left out are those of unreferenced
fragments behind the first: no print is empty or holds a comma, and no others are alike. -/
theorem idList_reads_back {source : String} {d : Document} {link : Event} {id : Ident} {caption text : String}
    {descendants : List Ident} (h : parse source = .ok d) (hlink : link ∈ d.events)
    (hkind : link.kind = .revealLink id caption text descendants) :
    (idList descendants = "" ↔ descendants = []) ∧
    (descendants ≠ [] → ((idList descendants).split ',').toList.map String.Slice.copy =
      (onceUnreferenced descendants).map Ident.print) ∧
    (∀ x ∈ descendants, x ≠ .anonymous ∧ x.print ≠ "" ∧ ',' ∉ x.print.toList) ∧
    descendants.Pairwise fun a b => a.print = b.print → a.isUnreferenced = true ∧ b.isUnreferenced = true := by
  have htarget := isTarget_of_kind h hlink hkind
  obtain ⟨events, hr, -, rfl⟩ := exists_descendantsOf h hlink hkind
  have hnodup : (Cascade.descendantsOf events id).Nodup := Cascade.walk_nodup _ _
  have hlistable : ∀ x ∈ Cascade.descendantsOf events id, x.Listable := by
    intro x hx
    exact Cascade.listable_of_mem_descendantsOf hr htarget.ne_anonymous hx
  refine ⟨idList_eq_empty_iff hnodup hlistable, split_idList hnodup hlistable, ?_, ?_⟩
  · intro x hx
    have hne := (hlistable x hx).ne_anonymous
    exact ⟨hne, mt Ident.print_eq_empty_iff.1 hne, (hlistable x hx).comma_notMem_print⟩
  · exact hnodup.imp fun hne => unreferenced_of_print_eq hne

/-- A link to a fragment whose name needs escaping and in which two fragments stand that no link opens. -/
theorem idList_reads_back_twice :
    ∃ d, parse "[x]#it's\x7bit's:\x7b\x7d\x7b\x7d\x7d" = .ok d ∧
      ∃ link ∈ d.events, ∃ caption text descendants,
        link.kind = .revealLink (.named "it's") caption text descendants ∧
        descendants = [.named "it's", .unreferenced 0, .unreferenced 1] ∧
        ((idList descendants).split ',').toList.map String.Slice.copy = ["_it&#39;s", "nothing"] := by
  obtain ⟨d, hd, link, hlink, hopens⟩ : ∃ d, parse "[x]#it's\x7bit's:\x7b\x7d\x7b\x7d\x7d" = .ok d ∧
      ∃ link ∈ d.events, link.opens? = some (.named "it's") := by decide +kernel
  obtain ⟨caption, text, descendants, hkind⟩ := Event.kind_of_opens? hopens
  obtain ⟨events, hr, -, hdescendants⟩ := exists_descendantsOf hd hlink hkind
  obtain ⟨events', hr', hname, hfirst, hsecond⟩ : ∃ events, resolve "[x]#it's\x7bit's:\x7b\x7d\x7b\x7d\x7d"
      (tokenize "[x]#it's\x7bit's:\x7b\x7d\x7b\x7d\x7d") = .ok events ∧
        Cascade.filedUnder events (.named "it's") = [.named "it's", .unreferenced 0, .unreferenced 1] ∧
        Cascade.filedUnder events (.unreferenced 0) = [.unreferenced 0] ∧
        Cascade.filedUnder events (.unreferenced 1) = [.unreferenced 1] := by decide +kernel
  obtain rfl := Except.ok.inj (hr'.symm.trans hr)
  have hdrains : Cascade.Drains (Cascade.filedUnder events') ∅ (Cascade.filedUnder events' (.named "it's"))
      [.named "it's", .unreferenced 0, .unreferenced 1] := by
    rw [hname]
    refine .take (by simp) ?_
    rw [hname]
    refine .skip (by simp) (.take (by simp) ?_)
    rw [hfirst]
    refine .skip (by simp) (.take (by simp) ?_)
    rw [hsecond]
    exact .skip (by simp) (.skip (by simp) (.skip (by simp) (.done _)))
  rw [← hdrains.eq_descendantsOf] at hdescendants
  have hprints := (idList_reads_back hd hlink hkind).2.1 (by simp [hdescendants])
  refine ⟨d, hd, link, hlink, caption, text, descendants, hkind, hdescendants, hprints.trans ?_⟩
  rw [hdescendants]
  decide +kernel

end Html

end Reveal
