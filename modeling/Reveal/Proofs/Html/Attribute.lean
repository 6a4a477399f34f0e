import Reveal.Html
import Reveal.Proofs.Html.Nesting
import Reveal.Proofs.Ident.Print
import Reveal.Proofs.Prose.Item
/-!
# Attributes

Whatever identifiers and positions an element carries, its attributes hold no character that html
reads as markup. So an event is written with the tags of its kind and no others (`Written`), and a
start tag is read as its name and nothing else (`tags_startTag`).
-/
namespace Reveal.Html

/-- A text that can stand between the quotes of an attribute. -/
def Bare (s : String) : Prop :=
  ∀ c ∈ s.toList, c ≠ '<' ∧ c ≠ '>' ∧ c ≠ '"'

instance (s : String) : Decidable (Bare s) :=
  List.decidableBAll (fun c => c ≠ '<' ∧ c ≠ '>' ∧ c ≠ '"') s.toList

theorem Bare.append {s t : String} (hs : Bare s) (ht : Bare t) : Bare (s ++ t) := by
  intro c hc
  rw [String.toList_append, List.mem_append] at hc
  exact hc.elim (hs c) (ht c)

theorem bare_toString (n : Nat) : Bare (toString n) := by
  intro c hc
  have hdigit := Ident.isDigit_of_mem_toString hc
  refine ⟨?_, ?_, ?_⟩ <;> (rintro rfl; revert hdigit; decide)

theorem bare_escape (s : String) : Bare (Prose.escape s) := by
  intro c hc
  exact Prose.safe_escape s.toList c (by simpa [Prose.plain, Prose.escape] using hc)

theorem bare_print (id : Ident) : Bare id.print := by
  cases id with
  | named name => exact Bare.append (by decide) (bare_escape name)
  | numbered depth number =>
    exact ((bare_toString depth).append (by decide)).append (bare_toString number)
  | auto ordinal => exact bare_toString ordinal
  | unreferenced ordinal => exact (by decide : Bare Ident.unreferencedText)
  | anonymous => exact (by decide : Bare "")

theorem bare_attr (p : Position) : Bare p.attr :=
  ((bare_toString p.line).append (by decide)).append (bare_toString p.column)

theorem mem_of_mem_firstOccurrences {s : String} {seen l : List String} (h : s ∈ firstOccurrences seen l) : s ∈ l := by
  induction l generalizing seen with
  | nil => cases h
  | cons t l ih =>
    unfold firstOccurrences at h
    split at h
    · exact List.mem_cons_of_mem _ (ih h)
    · rcases List.mem_cons.1 h with rfl | h
      · exact List.mem_cons_self
      · exact List.mem_cons_of_mem _ (ih h)

theorem bare_intercalate {l : List String} (h : ∀ s ∈ l, Bare s) : Bare (String.intercalate "," l) := by
  intro c hc
  rw [String.toList_intercalate] at hc
  induction l with
  | nil => cases hc
  | cons s l ih =>
    rw [List.forall_mem_cons] at h
    cases l with
    | nil => exact h.1 c (by simpa [List.intercalate] using hc)
    | cons t l =>
      simp only [List.intercalate, List.map_cons, List.intersperse_cons_cons, List.flatten_cons, List.mem_append]
        at hc ih
      rcases hc with hc | hc | hc
      · exact h.1 c hc
      · rw [List.mem_singleton.1 hc]
        decide
      · exact ih h.2 hc

theorem bare_idList (ids : List Ident) : Bare (idList ids) := by
  refine bare_intercalate fun s hs => ?_
  obtain ⟨id, -, rfl⟩ := List.mem_map.1 (mem_of_mem_firstOccurrences hs)
  exact bare_print id

theorem attributes_cons (name : String) (value : Option String) (pairs : List (String × Option String)) :
    (attributes ((name, value) :: pairs)).toList =
      (match value with
        | some value => ' ' :: (name.toList ++ ('=' :: '"' :: (value.toList ++ ['"'])))
        | none => []) ++ (attributes pairs).toList := by
  cases value <;> simp [attributes]

/-- What can stand behind the name of a start tag: a blank comes first, if anything does, and no tag is in it. -/
structure Trailing (attrs : List Char) : Prop where
  lt_notMem : '<' ∉ attrs
  head : attrs = [] ∨ ∃ s, attrs = ' ' :: s

theorem trailing_attributes (pairs : List (String × Option String)) (hnames : ∀ pair ∈ pairs, Bare pair.1)
    (hvalues : ∀ pair ∈ pairs, ∀ value ∈ pair.2, Bare value) : Trailing (attributes pairs).toList := by
  induction pairs with
  | nil => exact ⟨by decide, .inl rfl⟩
  | cons pair pairs ih =>
    obtain ⟨name, value⟩ := pair
    rw [List.forall_mem_cons] at hnames hvalues
    obtain ⟨hlt, hhead⟩ := ih hnames.2 hvalues.2
    rw [attributes_cons]
    cases value with
    | none => exact ⟨hlt, hhead⟩
    | some value =>
      refine ⟨fun hmem => ?_, .inr ⟨_, rfl⟩⟩
      have hname : '<' ∉ name.toList := fun h => (hnames.1 _ h).1 rfl
      have hvalue : '<' ∉ value.toList := fun h => (hvalues.1 value rfl _ h).1 rfl
      simp [hname, hvalue, hlt] at hmem

/-! ## How events are written -/

/-- `Written kind html`: an event is written with the tags of its kind. All that changes within the tags is
attributes, and none of them holds a tag. -/
inductive Written : Event.Kind → List Char → Prop
  | paragraphOpen (id : Ident) {attrs : List Char} (trailing : Trailing attrs) :
    Written (.paragraphOpen id) ('<' :: 'p' :: (attrs ++ ['>']))
  | paragraphClose : Written .paragraphClose ['<', '/', 'p', '>']
  | fragmentOpen (id : Ident) {attrs : List Char} (trailing : Trailing attrs) :
    Written (.fragmentOpen id) ('<' :: 's' :: 'p' :: 'a' :: 'n' :: (attrs ++ ['>']))
  | fragmentClose : Written .fragmentClose ['<', '/', 's', 'p', 'a', 'n', '>']
  | revealLink (opens : Ident) (caption source : String) (descendants : List Ident) {attrs : List Char}
      (trailing : Trailing attrs) :
    Written (.revealLink opens caption source descendants)
      (['<', 'a', ' ', 'h', 'r', 'e', 'f', '=', '"', '#', '"'] ++
        (attrs ++ '>' :: (caption.toList ++ ['<', '/', 'a', '>'])))
  | text (html source : String) : Written (.text html source) html.toList

theorem bare_of_mem_ite {b : Bool} {value v : String} (hv : Bare v) (h : value ∈ if b then some v else none) :
    Bare value := by
  split at h
  · cases h
    exact hv
  · cases h

theorem written_writeEvent (debug : Bool) (e : Event) : Written e.kind (writeEvent debug e).toList := by
  have hposition : ∀ value ∈ if debug then some e.position.attr else none, Bare value :=
    fun value => bare_of_mem_ite (bare_attr e.position)
  unfold writeEvent
  cases e.kind with
  | paragraphOpen id =>
    have htrailing := trailing_attributes [("data-opened-by", if id.isAnonymous then none else some id.print),
      ("data-source-pos", if debug then some e.position.attr else none)] (by simp; decide)
      (List.forall_mem_cons.2 ⟨by simp [bare_print], List.forall_mem_singleton.2 hposition⟩)
    simpa using Written.paragraphOpen id htrailing
  | paragraphClose => simpa using Written.paragraphClose
  | fragmentOpen id =>
    have htrailing := trailing_attributes [("data-opened-by", some id.print),
      ("data-source-pos", if debug then some e.position.attr else none)] (by simp; decide)
      (List.forall_mem_cons.2 ⟨by simp [bare_print], List.forall_mem_singleton.2 hposition⟩)
    simpa using Written.fragmentOpen id htrailing
  | fragmentClose => simpa using Written.fragmentClose
  | revealLink opens caption source descendants =>
    have hbelow : ∀ value ∈ if debug then some (idList descendants) else none, Bare value :=
      fun value => bare_of_mem_ite (bare_idList descendants)
    have htrailing := trailing_attributes [("data-opens", some opens.print),
      ("data-source-pos", if debug then some e.position.attr else none),
      ("data-descendants", if debug then some (idList descendants) else none)] (by simp; decide)
      (List.forall_mem_cons.2
        ⟨by simp [bare_print], List.forall_mem_cons.2 ⟨hposition, List.forall_mem_singleton.2 hbelow⟩⟩)
    simpa using Written.revealLink opens caption source descendants htrailing
  | text html source => exact .text html source

/-- A document is written as one element around its events. -/
theorem exists_toList_write (debug : Bool) (d : Document) : ∃ attrs, Trailing attrs ∧
    (write debug d).toList = '<' :: 'd' :: 'i' :: 'v' :: (attrs ++ '>' ::
      (d.events.flatMap (fun e => (writeEvent debug e).toList) ++ ['<', '/', 'd', 'i', 'v', '>'])) := by
  refine ⟨(attributes [("data-russiandoll", some version)]).toList,
    trailing_attributes _ (by simp; decide) (by simp; decide), ?_⟩
  simp [write, List.flatMap_map]

/-! ## Tags with attributes -/

/-- A start tag is read as its name, whatever attributes it has. -/
theorem tags_startTag (name attrs s : List Char) (hname : ∀ c ∈ name, c ≠ ' ' ∧ c ≠ '>' ∧ c ≠ '<' ∧ c ≠ '/')
    (himg : name ≠ ['i', 'm', 'g']) (h : Trailing attrs) :
    tags ('<' :: (name ++ (attrs ++ '>' :: s))) = .start name :: tags s := by
  obtain ⟨hlt, hhead⟩ := h
  have hread : tagName (name ++ (attrs ++ '>' :: s)) = name := by
    unfold tagName
    rw [List.takeWhile_append_of_pos (by
      intro c hc
      simp [(hname c hc).1, (hname c hc).2.1])]
    rcases hhead with rfl | ⟨t, rfl⟩ <;> simp
  have hslash : ∀ t, name ++ (attrs ++ '>' :: s) = '/' :: t → False := by
    intro t ht
    cases name with
    | nil => rcases hhead with rfl | ⟨u, rfl⟩ <;> cases ht
    | cons c name => exact (hname c List.mem_cons_self).2.2.2 (List.cons.inj ht).1
  have hfree : '<' ∉ name ++ (attrs ++ ['>']) := by
    have hname' : '<' ∉ name := fun h => (hname _ h).2.2.1 rfl
    simp [hname', hlt]
  rw [tags, hread, if_neg himg]
  · congr 1
    have hsplit : name ++ (attrs ++ '>' :: s) = (name ++ (attrs ++ ['>'])) ++ s := by simp
    rw [hsplit, tags_append_of_notMem hfree]
  · exact fun t ht => hslash t ht

end Reveal.Html
