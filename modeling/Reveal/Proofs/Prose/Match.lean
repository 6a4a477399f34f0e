import Mathlib.Data.List.TakeWhile
import Reveal.Prose
/-!
# What a rule matches

For each rule, how the text reads at the head of which it has a match, and what is written there. A
text in which no match starts is kept, and behind a match the rule goes on with what the match has
left (`apply_of_match`).
-/
namespace Reveal.Prose

namespace Rule

/-- The places at which a rule replaces a match, each given as the text from there on. -/
def places (rule : Rule) : List Char → List (List Char)
  | [] => []
  | c :: rest =>
    match rule.matchAt (c :: rest) with
    | some m => (c :: rest) :: places rule (rest.drop (m.length - 1))
    | none => places rule rest
termination_by s => s.length
decreasing_by all_goals simp; try omega

variable {rule : Rule} {s t u out : List Char} {c : Char} {m : Match}

@[simp] theorem apply_nil : rule.apply [] = [] := by rw [apply]

@[simp] theorem places_nil : rule.places [] = [] := by rw [places]

theorem apply_cons_of_none (h : rule.matchAt (c :: s) = none) : rule.apply (c :: s) = c :: rule.apply s := by
  rw [apply, h]

theorem places_cons_of_none (h : rule.matchAt (c :: s) = none) : rule.places (c :: s) = rule.places s := by
  rw [places, h]

/-- Where no match starts, nothing changes. -/
theorem apply_append_of_none (h : ∀ c ∈ u, ∀ s, rule.matchAt (c :: s) = none) :
    rule.apply (u ++ s) = u ++ rule.apply s ∧ rule.places (u ++ s) = rule.places s := by
  induction u with
  | nil => exact ⟨rfl, rfl⟩
  | cons c u ih =>
    rw [List.forall_mem_cons] at h
    obtain ⟨happly, hplaces⟩ := ih h.2
    rw [List.cons_append, apply_cons_of_none (h.1 _), places_cons_of_none (h.1 _), happly, hplaces]
    exact ⟨rfl, rfl⟩

theorem apply_of_match (hu : u ≠ []) (h : rule.matchAt (u ++ s) = some ⟨u.length, out⟩) :
    rule.apply (u ++ s) = out ++ rule.apply s ∧ rule.places (u ++ s) = (u ++ s) :: rule.places s := by
  cases u with
  | nil => exact absurd rfl hu
  | cons c u =>
    rw [List.cons_append] at h ⊢
    rw [apply, places, h]
    simp

/-! ## Emphasis -/

theorem exists_of_emphasisAt {mark : Char} {width : Nat} {start stop : List Char}
    (h : emphasisAt mark width start stop s = some m) :
    ∃ body rest, s = List.replicate width mark ++ (body ++ (List.replicate width mark ++ rest)) ∧ mark ∉ body ∧
      m = ⟨2 * width + body.length, start ++ body ++ stop⟩ := by
  unfold emphasisAt at h
  simp only at h
  split at h
  · rename_i hopen
    obtain ⟨inner, rfl⟩ := List.isPrefixOf_iff_prefix.1 hopen
    rw [List.drop_left' (List.length_replicate ..)] at h
    split at h
    · rename_i hclose
      rw [Bool.and_eq_true] at hclose
      obtain ⟨rest, hrest⟩ := List.isPrefixOf_iff_prefix.1 hclose.2
      cases h
      refine ⟨inner.takeWhile (· != mark), rest, ?_, ?_, rfl⟩
      · rw [hrest, List.takeWhile_append_dropWhile]
      · intro hmem
        simpa using List.mem_takeWhile_imp hmem
    · cases h
  · cases h

theorem emphasisAt_eq_none {mark : Char} {width : Nat} {start stop : List Char} (hw : 0 < width) (hc : c ≠ mark) :
    emphasisAt mark width start stop (c :: s) = none := by
  obtain ⟨width, rfl⟩ := Nat.exists_eq_add_of_lt hw
  unfold emphasisAt
  rw [if_neg]
  simp [List.replicate_succ, Ne.symm hc]

/-! ## Links and images -/

/-- The address that a link's match takes. -/
def linkAddress (place : List Char) : List Char :=
  ((place.drop 6).dropWhile Text.isBlank).takeWhile (!Text.isBlank ·)

/-- The address that an image's match takes. -/
def imageAddress (place : List Char) : List Char :=
  ((place.drop 7).dropWhile Text.isBlank).takeWhile (· != ')')

theorem exists_of_callAt {opening : List Char} {bodyAt : List Char → Option Match}
    (h : callAt opening bodyAt s = some m) :
    ∃ gap address body, s = opening ++ (gap ++ address) ∧ (∀ c ∈ gap, Text.isBlank c = true) ∧
      (s.drop opening.length).dropWhile Text.isBlank = address ∧ bodyAt address = some body ∧
      m = ⟨opening.length + gap.length + body.length, body.output⟩ := by
  unfold callAt at h
  split at h
  · rename_i hopen
    obtain ⟨inner, rfl⟩ := List.isPrefixOf_iff_prefix.1 hopen
    rw [List.drop_left] at h ⊢
    obtain ⟨body, hbody, rfl⟩ := Option.map_eq_some_iff.1 h
    refine ⟨inner.takeWhile Text.isBlank, _, body, ?_, ?_, rfl, hbody, rfl⟩
    · rw [List.takeWhile_append_dropWhile]
    · exact fun c hc => List.mem_takeWhile_imp hc
  · cases h

theorem callAt_eq_none {opening : List Char} {bodyAt : List Char → Option Match} (hc : c ≠ '(') :
    callAt ('(' :: opening) bodyAt (c :: s) = none := by
  unfold callAt
  rw [if_neg]
  simp [Ne.symm hc]

/-- The blanks in front of a caption are dropped, all but the last one where there is nothing else. -/
theorem exists_of_captionOf {gap text caption : List Char} (h : captionOf gap text = some caption)
    (hgap : ∀ c ∈ gap, Text.isBlank c = true) (hne : gap ≠ []) :
    ∃ dropped, gap ++ text = dropped ++ caption ∧ dropped ≠ [] ∧ ∀ c ∈ dropped, Text.isBlank c = true := by
  unfold captionOf at h
  split at h
  · rename_i htext
    split at h
    · rename_i hlength
      cases h
      refine ⟨gap.take (gap.length - 1), ?_, ?_, fun c hc => hgap c (List.mem_of_mem_take hc)⟩
      · rw [List.isEmpty_iff.1 htext, List.append_nil, List.take_append_drop]
      · rw [← List.length_pos_iff, List.length_take]
        omega
    · cases h
  · cases h
    exact ⟨gap, rfl, hne, hgap⟩

/-- Behind the characters up to a mark stands the mark, if it comes at all. -/
theorem exists_dropWhile_ne {mark : Char} (h : s.dropWhile (· != mark) ≠ []) :
    ∃ rest, s.dropWhile (· != mark) = mark :: rest := by
  have hhead := List.head_dropWhile_not (· != mark) h
  refine ⟨(s.dropWhile (· != mark)).tail, ?_⟩
  rw [← List.cons_head_tail h, bne_eq_false_iff_eq.1 hhead, List.tail_cons]

theorem exists_of_linkBodyAt (h : linkBodyAt s = some m) : ∃ dropped caption rest,
    s = s.takeWhile (!Text.isBlank ·) ++ (dropped ++ (caption ++ ')' :: rest)) ∧
    dropped ≠ [] ∧ (∀ c ∈ dropped, Text.isBlank c = true) ∧
    m = ⟨(s.takeWhile (!Text.isBlank ·)).length + (dropped ++ caption).length + 1,
      linkHtml (s.takeWhile (!Text.isBlank ·)) caption⟩ := by
  unfold linkBodyAt at h
  simp only at h
  split at h
  · rename_i hcond
    obtain ⟨caption, hcaption, rfl⟩ := Option.map_eq_some_iff.1 h
    simp only [Bool.and_eq_true, Bool.not_eq_true', List.isEmpty_eq_false_iff] at hcond
    obtain ⟨rest, hrest⟩ := exists_dropWhile_ne hcond.2
    have hgap : (s.dropWhile (!Text.isBlank ·)).takeWhile Text.isBlank ≠ [] := by
      have hne : s.dropWhile (!Text.isBlank ·) ≠ [] := by
        intro hnil
        simp [hnil] at hrest
      have hhead := List.head_dropWhile_not (!Text.isBlank ·) hne
      rw [← List.cons_head_tail hne, List.takeWhile_cons_of_pos (by simpa using hhead)]
      simp
    obtain ⟨dropped, happend, hne, hblank⟩ :=
      exists_of_captionOf hcaption (fun c hc => List.mem_takeWhile_imp hc) hgap
    refine ⟨dropped, caption, rest, ?_, hne, hblank, ?_⟩
    · rw [← List.append_assoc dropped, ← happend, ← hrest, List.append_assoc, List.takeWhile_append_dropWhile,
        List.takeWhile_append_dropWhile, List.takeWhile_append_dropWhile]
    · rw [← happend, List.length_append]
      simp only [Nat.add_assoc]
  · cases h

theorem exists_of_linkAt (h : linkAt s = some m) : ∃ gap dropped caption rest,
    s = ['(', 'l', 'i', 'n', 'k', ':'] ++ (gap ++ (linkAddress s ++ (dropped ++ (caption ++ ')' :: rest)))) ∧
    (∀ c ∈ gap, Text.isBlank c = true) ∧ dropped ≠ [] ∧ (∀ c ∈ dropped, Text.isBlank c = true) ∧
    m = ⟨6 + gap.length + ((linkAddress s).length + (dropped ++ caption).length + 1),
      linkHtml (linkAddress s) caption⟩ := by
  obtain ⟨gap, address, body, hs, hgap, haddress, hbody, rfl⟩ := exists_of_callAt h
  obtain ⟨dropped, caption, rest, hrest, hne, hblank, rfl⟩ := exists_of_linkBodyAt hbody
  have hurl : linkAddress s = address.takeWhile (!Text.isBlank ·) := by rw [← haddress]; rfl
  rw [hurl]
  exact ⟨gap, dropped, caption, rest, by rw [← hrest, hs], hgap, hne, hblank, rfl⟩

/-- A scheme, and something behind it. -/
def IsAddress (url : List Char) : Prop :=
  schemeLength url ≠ 0 ∧ schemeLength url < url.length

theorem schemeLength_cases (h : schemeLength s ≠ 0) :
    (∃ rest, s = 'h' :: 't' :: 't' :: 'p' :: 's' :: ':' :: '/' :: '/' :: rest) ∨
      ∃ rest, s = 'h' :: 't' :: 't' :: 'p' :: ':' :: '/' :: '/' :: rest := by
  unfold schemeLength at h
  split at h
  · exact .inl ⟨_, rfl⟩
  · exact .inr ⟨_, rfl⟩
  · exact absurd rfl h

/-- Whether an address stands at the head of a text is decided in the address. -/
theorem isAddress_iff (url rest : List Char) : IsAddress url ↔
    schemeLength (url ++ rest) ≠ 0 ∧ schemeLength (url ++ rest) < url.length := by
  constructor
  · rintro ⟨hne, hlt⟩
    rcases schemeLength_cases hne with ⟨r, rfl⟩ | ⟨r, rfl⟩
    · exact ⟨hne, hlt⟩
    · exact ⟨hne, hlt⟩
  · rintro ⟨hne, hlt⟩
    have hurl : url <+: url ++ rest := List.prefix_append url rest
    rcases schemeLength_cases hne with ⟨r, hr⟩ | ⟨r, hr⟩
    · rw [hr] at hlt hurl
      obtain ⟨r', rfl⟩ : ['h', 't', 't', 'p', 's', ':', '/', '/'] <+: url :=
        List.prefix_of_prefix_length_le ⟨r, rfl⟩ hurl (Nat.le_of_lt hlt)
      exact ⟨by simp [schemeLength], hlt⟩
    · rw [hr] at hlt hurl
      obtain ⟨r', rfl⟩ : ['h', 't', 't', 'p', ':', '/', '/'] <+: url :=
        List.prefix_of_prefix_length_le ⟨r, rfl⟩ hurl (Nat.le_of_lt hlt)
      exact ⟨by simp [schemeLength], hlt⟩

theorem IsAddress.eq_append {url : List Char} (h : IsAddress url) : ∃ rest, url = ['h', 't', 't', 'p'] ++ rest := by
  rcases schemeLength_cases h.1 with ⟨rest, rfl⟩ | ⟨rest, rfl⟩ <;> exact ⟨_, rfl⟩

theorem isAddress_linkAddress (h : linkAt s = some m) : IsAddress (linkAddress s) := by
  obtain ⟨gap, address, body, -, -, haddress, hbody, -⟩ := exists_of_callAt h
  have hurl : linkAddress s = address.takeWhile (!Text.isBlank ·) := by rw [← haddress]; rfl
  unfold linkBodyAt at hbody
  simp only at hbody
  split at hbody
  · rename_i hcond
    simp only [Bool.and_eq_true, bne_iff_ne, decide_eq_true_eq] at hcond
    rw [hurl, isAddress_iff _ (address.dropWhile (!Text.isBlank ·)), List.takeWhile_append_dropWhile]
    exact hcond.1
  · cases hbody

theorem exists_of_imageAt (h : imageAt s = some m) : ∃ gap rest,
    s = ['(', 'i', 'm', 'a', 'g', 'e', ':'] ++ (gap ++ (imageAddress s ++ ')' :: rest)) ∧
    (∀ c ∈ gap, Text.isBlank c = true) ∧ IsAddress (imageAddress s) ∧ ')' ∉ imageAddress s ∧
    m = ⟨7 + gap.length + ((imageAddress s).length + 1), imageHtml (imageAddress s)⟩ := by
  obtain ⟨gap, address, body, hs, hgap, haddress, hbody, rfl⟩ := exists_of_callAt h
  have hurl : imageAddress s = address.takeWhile (· != ')') := by rw [← haddress]; rfl
  unfold imageBodyAt at hbody
  simp only at hbody
  split at hbody
  · rename_i hcond
    cases hbody
    simp only [Bool.and_eq_true, bne_iff_ne, decide_eq_true_eq, Bool.not_eq_true', List.isEmpty_eq_false_iff] at hcond
    obtain ⟨rest, hrest⟩ := exists_dropWhile_ne hcond.2
    rw [hurl]
    refine ⟨gap, rest, ?_, hgap, ?_, ?_, rfl⟩
    · rw [← hrest, List.takeWhile_append_dropWhile, hs]
    · rw [isAddress_iff _ (address.dropWhile (· != ')')), List.takeWhile_append_dropWhile]
      exact hcond.1
    · intro hmem
      simpa using List.mem_takeWhile_imp hmem
  · cases hbody

/-- An image's match depends on nothing behind it. -/
theorem imageAt_of_eq {gap url : List Char} (rest : List Char) (hgap : ∀ c ∈ gap, Text.isBlank c = true)
    (hurl : IsAddress url) (hclose : ')' ∉ url) :
    imageAt (['(', 'i', 'm', 'a', 'g', 'e', ':'] ++ (gap ++ (url ++ ')' :: rest))) =
      some ⟨7 + gap.length + (url.length + 1), imageHtml url⟩ := by
  have hhead : ∃ url', url = 'h' :: url' := by
    rcases schemeLength_cases hurl.1 with ⟨r, rfl⟩ | ⟨r, rfl⟩ <;> exact ⟨_, rfl⟩
  have hdrop : (gap ++ (url ++ ')' :: rest)).dropWhile Text.isBlank = url ++ ')' :: rest := by
    obtain ⟨url', rfl⟩ := hhead
    rw [List.dropWhile_append_of_pos hgap]
    exact List.dropWhile_cons_of_neg (by decide)
  have htake : (gap ++ (url ++ ')' :: rest)).takeWhile Text.isBlank = gap := by
    obtain ⟨url', rfl⟩ := hhead
    rw [List.takeWhile_append_of_pos hgap, List.cons_append, List.takeWhile_cons_of_neg (by decide), List.append_nil]
  have hfree : ∀ c ∈ url, (c != ')') = true := by
    intro c hc
    rw [bne_iff_ne]
    rintro rfl
    exact hclose hc
  have hbody : imageBodyAt (url ++ ')' :: rest) = some ⟨url.length + 1, imageHtml url⟩ := by
    have hcond := (isAddress_iff url (')' :: rest)).1 hurl
    unfold imageBodyAt
    rw [List.takeWhile_append_of_pos hfree, List.dropWhile_append_of_pos hfree,
      List.takeWhile_cons_of_neg (by decide), List.dropWhile_cons_of_neg (by decide), List.append_nil]
    simp [hcond]
  unfold imageAt callAt
  rw [if_pos (by simp), List.drop_left]
  simp [hdrop, htake, hbody]

theorem imageAt_take (h : imageAt s = some m) (t : List Char) : imageAt (s.take m.length ++ t) = some m := by
  obtain ⟨gap, rest, hs, hgap, hurl, hclose, hm⟩ := exists_of_imageAt h
  generalize imageAddress s = url at hs hurl hclose hm
  subst hm
  have htake : s.take (7 + gap.length + (url.length + 1)) =
      ['(', 'i', 'm', 'a', 'g', 'e', ':'] ++ (gap ++ (url ++ [')'])) := by
    rw [hs, show ['(', 'i', 'm', 'a', 'g', 'e', ':'] ++ (gap ++ (url ++ ')' :: rest)) =
      (['(', 'i', 'm', 'a', 'g', 'e', ':'] ++ (gap ++ (url ++ [')']))) ++ rest by simp]
    exact List.take_left' (by simp; omega)
  simpa [htake] using imageAt_of_eq t hgap hurl hclose

theorem imageAt_append (h : imageAt s = some m) (t : List Char) : imageAt (s ++ t) = some m := by
  have htake := imageAt_take h (s.drop m.length ++ t)
  rwa [← List.append_assoc, List.take_append_drop] at htake

/-- The image rule leaves a text as it is exactly if it has no match there. -/
theorem image_apply_cons_eq_iff : image.apply (c :: s) = c :: s ↔ imageAt (c :: s) = none ∧ image.apply s = s := by
  cases h : imageAt (c :: s) with
  | none =>
    rw [apply_cons_of_none h]
    simp
  | some m =>
    obtain ⟨gap, rest, hs, -, -, -, rfl⟩ := exists_of_imageAt h
    have hc : c = '(' := (List.cons.inj hs).1
    have hm : image.matchAt (c :: s) = _ := h
    rw [apply, hm]
    simp [imageHtml, Tag.imageStart, hc]

theorem image_apply_ne (h : imageAt s = some m) : image.apply s ≠ s := by
  cases s with
  | nil => cases h
  | cons c s =>
    intro heq
    rw [(image_apply_cons_eq_iff.1 heq).1] at h
    cases h

end Rule

end Reveal.Prose
