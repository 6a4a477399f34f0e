/-!
# Nested tags

The tags of an html text are read off its characters, wherever they stand, and `nest` runs over them
with the names that are open. An element whose name does not occur inside it is nested as soon as what
is inside it is, whatever is open around it (`nest_element`).
-/
namespace Reveal.Html

inductive Tag where
  | start (name : List Char)
  | stop (name : List Char)
  deriving DecidableEq, Repr

def Tag.name : Tag → List Char
  | .start name | .stop name => name

/-- The name of a tag, which ends at a blank or with the tag. -/
def tagName (s : List Char) : List Char :=
  s.takeWhile fun c => c != ' ' && c != '>'

/-- The tags of an html text in their order. An `img` has no end tag and is left out. -/
def tags : List Char → List Tag
  | [] => []
  | '<' :: '/' :: s => .stop (tagName s) :: tags s
  | '<' :: s => if tagName s = ['i', 'm', 'g'] then tags s else .start (tagName s) :: tags s
  | _ :: s => tags s

/-- The names that are open behind some tags, latest first, if every end tag has closed the latest one
that was open. -/
def nest : List Tag → List (List Char) → Option (List (List Char))
  | [], names => some names
  | .start n :: ts, names => nest ts (n :: names)
  | .stop n :: ts, m :: names => if m = n then nest ts names else none
  | .stop _ :: _, [] => none

/-- Every end tag closes the latest tag that is open, and none is left open. -/
def WellNested (html : List Char) : Prop :=
  nest (tags html) [] = some []

instance (html : List Char) : Decidable (WellNested html) :=
  inferInstanceAs (Decidable (nest (tags html) [] = some []))

/-! ## Reading tags -/

variable {c : Char} {s u : List Char}

theorem tags_cons_of_ne (hc : c ≠ '<') : tags (c :: s) = tags s := by
  rw [tags]
  · intro s' h
    exact absurd h hc
  · exact hc

theorem tags_append_of_notMem (hu : '<' ∉ u) : tags (u ++ s) = tags s := by
  induction u with
  | nil => rfl
  | cons c u ih =>
    rw [List.mem_cons, not_or] at hu
    rw [List.cons_append, tags_cons_of_ne (Ne.symm hu.1), ih hu.2]

/-! ## Nesting -/

variable {ts us : List Tag} {n : List Char} {names names' above below : List (List Char)}

theorem nest_append (ts us : List Tag) (names : List (List Char)) :
    nest (ts ++ us) names = (nest ts names).bind (nest us) := by
  fun_induction nest ts names <;> simp_all [nest]

/-- What lies open further out does not matter to tags that close only what they opened. -/
theorem nest_frame (h : nest ts above = some names) : nest ts (above ++ below) = some (names ++ below) := by
  fun_induction nest ts above with
  | case1 above => rw [nest, Option.some.inj h]
  | case2 n ts above ih => exact ih h
  | case3 n ts above ih => rw [List.cons_append, nest, if_pos rfl, ih h]
  | case4 => cases h
  | case5 => cases h

/-- Tags that are nested by themselves can stand in front of any others. -/
theorem nest_append_of_nested (hts : nest ts [] = some []) : nest (ts ++ us) names = nest us names := by
  have hframe : nest ts ([] ++ names) = some ([] ++ names) := nest_frame hts
  rw [List.nil_append] at hframe
  rw [nest_append, hframe, Option.bind_some]

/-- Tags of other names cannot close an open name, nor what lies further out. -/
theorem nest_above (hts : ∀ t ∈ ts, t.name ≠ n) (habove : n ∉ above)
    (h : nest ts (above ++ n :: below) = some names) :
    ∃ above', names = above' ++ n :: below ∧ n ∉ above' ∧ nest ts above = some above' := by
  induction ts generalizing above with
  | nil => exact ⟨above, (Option.some.inj h).symm, habove, rfl⟩
  | cons t ts ih =>
    rw [List.forall_mem_cons] at hts
    cases t with
    | start m =>
      have hm : n ∉ m :: above := List.not_mem_cons_of_ne_of_not_mem (Ne.symm hts.1) habove
      exact ih hts.2 hm h
    | stop m =>
      cases above with
      | nil =>
        have hne : n ≠ m := Ne.symm hts.1
        rw [List.nil_append, nest, if_neg hne] at h
        cases h
      | cons k above =>
        rw [List.mem_cons, not_or] at habove
        rw [List.cons_append, nest] at h
        split at h
        · rename_i hkm
          rw [nest, if_pos hkm]
          exact ih hts.2 habove.2 h
        · cases h

/-- An element in which its own name does not occur. -/
theorem nest_element (hts : ∀ t ∈ ts, t.name ≠ n) :
    nest (.start n :: (ts ++ .stop n :: us)) names = some names' ↔
      nest ts [] = some [] ∧ nest us names = some names' := by
  rw [nest]
  constructor
  · intro h
    rw [nest_append] at h
    obtain ⟨inner, hinner, hstop⟩ := Option.bind_eq_some_iff.1 h
    have hframe : nest ts ([] ++ n :: names) = some inner := hinner
    obtain ⟨above, rfl, hn, habove⟩ := nest_above hts List.not_mem_nil hframe
    cases above with
    | nil => exact ⟨habove, by simpa [nest] using hstop⟩
    | cons m above =>
      rw [List.mem_cons, not_or] at hn
      rw [List.cons_append, nest, if_neg (Ne.symm hn.1)] at hstop
      cases hstop
  · rintro ⟨hinner, hus⟩
    rw [nest_append_of_nested hinner, nest, if_pos rfl]
    exact hus

end Reveal.Html
