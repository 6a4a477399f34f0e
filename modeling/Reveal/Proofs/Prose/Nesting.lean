import Reveal.Proofs.Html.Nesting
import Reveal.Proofs.Prose.Rewrite
/-!
# When rendered text is nested

Four of the rules put an element around what they match, and none of them looks at the elements that
the earlier ones have put there: a match may begin inside an element and end outside of it. Whether
the tags of a rendered text are nested is therefore decided match by match. They are nested exactly if
what is written for every single match is (`nest_render_iff`).
-/
namespace Reveal.Prose

open Html (nest tags WellNested)

/-- What a rule writes for its matches. -/
def Rule.outputs (rule : Rule) (places : List (List Char)) : List (List Char) :=
  places.filterMap fun place => (rule.matchAt place).map Match.output

/-- What rules write for their matches, each applied to the output of the one before. -/
def outputs : List Rule → List Char → List (List Char)
  | [], _ => []
  | rule :: rules, s => rule.outputs (rule.places s) ++ outputs rules (rule.apply s)

/-- The rules that put an element around what they match. -/
def Rule.wrapping : List Rule :=
  [strikethrough, bold, italic, link]

/-- No match cuts through an element that stands there already. -/
def Uncrossed (s : List Char) : Prop :=
  ∀ html ∈ outputs Rule.wrapping (escapeChars s), WellNested html

instance (s : List Char) : Decidable (Uncrossed s) :=
  inferInstanceAs (Decidable (∀ html ∈ _, WellNested html))

/-! ## The tags of a marked text -/

def Piece.tags : Piece → List Html.Tag
  | delStart => [.start ['d', 'e', 'l']]
  | delStop => [.stop ['d', 'e', 'l']]
  | strongStart => [.start ['s', 't', 'r', 'o', 'n', 'g']]
  | strongStop => [.stop ['s', 't', 'r', 'o', 'n', 'g']]
  | emStart => [.start ['e', 'm']]
  | emStop => [.stop ['e', 'm']]
  | linkStart => [.start ['a']]
  | linkStop => [.stop ['a']]
  | linkMiddle | imageStart | imageStop => []

def Item.tags : Item → List Html.Tag
  | .char _ => []
  | .piece p => p.tags

def tagsOf (xs : List Item) : List Html.Tag :=
  xs.flatMap Item.tags

variable {rule : Rule} {edit : List Char → List Exchange → Prop} {xs ys : List Item} {places : List (List Char)}
  {s : List Char} {n : List Char} {names names' : List (List Char)}

@[simp] theorem tagsOf_char (c : Char) (xs : List Item) : tagsOf (.char c :: xs) = tagsOf xs := rfl

@[simp] theorem tagsOf_piece (p : Piece) (xs : List Item) : tagsOf (.piece p :: xs) = p.tags ++ tagsOf xs := rfl

@[simp] theorem tagsOf_nil : tagsOf [] = [] := rfl

@[simp] theorem tagsOf_append (xs ys : List Item) : tagsOf (xs ++ ys) = tagsOf xs ++ tagsOf ys := by
  simp [tagsOf]

@[simp] theorem tagsOf_plain (s : List Char) : tagsOf (plain s) = [] := by
  induction s with
  | nil => rfl
  | cons c s ih => rw [plain_cons, tagsOf_char, ih]

theorem tags_piece (p : Piece) (s : List Char) : tags (p.html ++ s) = p.tags ++ tags s := by
  cases p <;> rfl

/-- In a safe text the tags are those of the pieces, and none is left to be read on behind it. -/
theorem tags_write_append (h : Safe xs) (s : List Char) : tags (write xs ++ s) = tagsOf xs ++ tags s := by
  induction xs with
  | nil => rfl
  | cons i xs ih =>
    have hxs := ih (h.subset (List.subset_cons_self i xs))
    cases i with
    | char c => rw [write_char, List.cons_append, Html.tags_cons_of_ne (h c List.mem_cons_self).1, hxs, tagsOf_char]
    | piece p => rw [write_piece, List.append_assoc, tags_piece, hxs, tagsOf_piece, List.append_assoc]

theorem tags_write (h : Safe xs) : tags (write xs) = tagsOf xs := by
  simpa [tags] using tags_write_append h []

/-! ## Rules and nesting -/

theorem Rule.outputs_cons {place : List Char} {m : Match} (h : rule.matchAt place = some m) :
    rule.outputs (place :: places) = m.output :: rule.outputs places := by
  simp [Rule.outputs, h]

/-- A rule that puts an element around what it matches, of a name that is not there yet. -/
theorem nest_rewrites_iff (h : Rewrites rule edit xs ys places)
    (hedit : ∀ place e, edit place e → tagsOf (put e) = .start n :: (tagsOf (taken e) ++ [.stop n]))
    (hsafe : Safe ys) (hname : ∀ t ∈ tagsOf xs, t.name ≠ n) (names names' : List (List Char)) :
    nest (tagsOf ys) names = some names' ↔
      nest (tagsOf xs) names = some names' ∧ ∀ html ∈ rule.outputs places, WellNested html := by
  induction h generalizing names with
  | nil => simp [Rule.outputs]
  | @keep xs ys _ i _ _ ih =>
    have hrest := hsafe.subset (List.subset_cons_self i ys)
    have htags : ∀ zs, tagsOf (i :: zs) = i.tags ++ tagsOf zs := fun zs => by simp [tagsOf]
    rw [htags] at hname
    rw [htags, htags, Html.nest_append, Html.nest_append, Option.bind_eq_some_iff, Option.bind_eq_some_iff]
    simp only [ih hrest (fun t ht => hname t (List.mem_append_right _ ht)), ← and_assoc, exists_and_right]
  | @replace xs ys _ e hit valid _ ih =>
    have hput := hsafe.subset (List.subset_append_left (put e) ys)
    have hrest := hsafe.subset (List.subset_append_right (put e) ys)
    rw [tagsOf_append, List.forall_mem_append] at hname
    have hself : WellNested (write (put e)) ↔ nest (tagsOf (taken e)) [] = some [] := by
      rw [WellNested, tags_write hput, hedit _ e valid, Html.nest_element hname.1]
      simp [nest]
    rw [Rule.outputs_cons hit, List.forall_mem_cons, hself, tagsOf_append, tagsOf_append, hedit _ e valid,
      List.cons_append, List.append_assoc, List.singleton_append, Html.nest_element hname.1, ih hrest hname.2]
    constructor
    · rintro ⟨hinner, hrest, hall⟩
      exact ⟨by rwa [Html.nest_append_of_nested hinner], hinner, hall⟩
    · rintro ⟨hrest, hinner, hall⟩
      exact ⟨hinner, by rwa [Html.nest_append_of_nested hinner] at hrest, hall⟩

/-- A rule that inserts no tag that counts. -/
theorem tagsOf_rewrites (h : Rewrites rule edit xs ys places)
    (hedit : ∀ place e, edit place e → tagsOf (put e) = tagsOf (taken e)) : tagsOf ys = tagsOf xs := by
  induction h with
  | nil => rfl
  | keep i _ _ ih =>
    simp only [tagsOf, List.flatMap_cons] at ih ⊢
    rw [ih]
  | replace e _ valid _ ih => rw [tagsOf_append, tagsOf_append, hedit _ e valid, ih]

theorem tagsOf_emphasisEdit {start stop : Piece} (hstart : start.tags = [.start n]) (hstop : stop.tags = [.stop n]) :
    ∀ place e, EmphasisEdit start stop place e → tagsOf (put e) = .start n :: (tagsOf (taken e) ++ [.stop n]) := by
  rintro _ _ ⟨fence, body, rfl⟩
  simp [put, taken, hstart, hstop]

theorem tagsOf_linkEdit :
    ∀ place e, LinkEdit place e → tagsOf (put e) = .start ['a'] :: (tagsOf (taken e) ++ [.stop ['a']]) := by
  rintro _ _ ⟨opening, url, space, caption, rfl, -⟩
  simp [put, taken, Piece.tags]

theorem tagsOf_imageEdit : ∀ place e, ImageEdit place e → tagsOf (put e) = tagsOf (taken e) := by
  rintro _ _ ⟨opening, url, rfl, -⟩
  simp [put, taken, Piece.tags]

/-- Rules use different names, so a name is not there before its rule has been applied. -/
theorem name_ne_of_marked {rank : Nat} (h : Marked rank xs)
    (hn : ∀ p : Piece, p.rank < rank → ∀ t ∈ p.tags, t.name ≠ n) : ∀ t ∈ tagsOf xs, t.name ≠ n := by
  intro t ht
  obtain ⟨i, hi, hti⟩ := List.mem_flatMap.1 ht
  cases i with
  | char c => cases hti
  | piece p => exact hn p (h.rank_lt p hi) t hti

/-- Whatever is open around a rendered text, it leaves the same open, and reaches its end exactly if no
match cuts through an element. -/
theorem nest_render_iff (s : List Char) (names names' : List (List Char)) :
    nest (tags (renderChars s)) names = some names' ↔ Uncrossed s ∧ names' = names := by
  obtain ⟨course⟩ := nonempty_course s
  have hdel := nest_rewrites_iff course.strike (tagsOf_emphasisEdit rfl rfl) course.struck_marked.safe (by simp)
  have hstrong := nest_rewrites_iff course.bolden (tagsOf_emphasisEdit rfl rfl) course.bolded_marked.safe
    (name_ne_of_marked course.struck_marked fun p => by cases p <;> decide)
  have hem := nest_rewrites_iff course.slant (tagsOf_emphasisEdit rfl rfl) course.slanted_marked.safe
    (name_ne_of_marked course.bolded_marked fun p => by cases p <;> decide)
  have ha := nest_rewrites_iff course.link tagsOf_linkEdit course.linked_marked.safe
    (name_ne_of_marked course.slanted_marked fun p => by cases p <;> decide)
  rw [course.renderChars_eq, tags_write course.final_marked.safe, tagsOf_rewrites course.image tagsOf_imageEdit,
    ha, hem, hstrong, hdel, tagsOf_plain]
  simp only [Uncrossed, outputs, Rule.wrapping, List.forall_mem_append, course.write_struck, course.write_bolded,
    course.write_slanted, nest, Option.some.injEq]
  constructor
  · rintro ⟨⟨⟨⟨rfl, hdel⟩, hstrong⟩, hem⟩, ha⟩
    exact ⟨⟨hdel, hstrong, hem, ha, by simp⟩, rfl⟩
  · rintro ⟨⟨hdel, hstrong, hem, ha, -⟩, rfl⟩
    exact ⟨⟨⟨⟨rfl, hdel⟩, hstrong⟩, hem⟩, ha⟩

end Reveal.Prose
