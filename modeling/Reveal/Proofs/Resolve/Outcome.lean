import Mathlib.Data.List.Induction
import Mathlib.Data.List.Pairwise
import Reveal.Proofs.Resolve.Step
import Reveal.Proofs.Split
import Reveal.Proofs.Token.Source
/-!
# The outcome of a resolution, read off the source

Whether a source is resolved, and with which fault it is refused if not, is told by the braces and
paragraph signs before each token and by the links before it. The resolution never looks back at the
source: `Tallied` says that its scopes, its level and its targets stand for what was there, so that a
token is refused exactly where it offends (`Tallied.refusal_iff`).
-/
namespace Reveal

/-! ## Offences -/

/-- How many more braces are opened than closed before the byte `offset`. -/
def depthAt (source : String) (offset : Nat) : Int :=
  (charsBefore source.toList offset).count '\x7b' - (charsBefore source.toList offset).count '\x7d'

/-- How many paragraph signs stand before the byte `offset`. -/
def marksAt (source : String) (offset : Nat) : Nat :=
  (charsBefore source.toList offset).count '>'

/-- What a link with a target opens, its name read at the depth where the link stands; nothing for
other tokens. -/
def targetAt? (source : String) (t : Token) : Option Ident :=
  match t.kind with
  | .revealLink _ (some name) => some (.ofName name (marksAt source t.start + depthAt source t.start).toNat)
  | _ => none

def positionAt (source : String) (t : Token) : Position :=
  (LineMap.ofString source).position t.start

theorem link_of_targetAt? {source : String} {t : Token} {id : Ident} (h : targetAt? source t = some id) :
    ∃ caption name, t.kind = .revealLink caption (some name) := by
  unfold targetAt? at h
  split at h
  · exact ⟨_, _, ‹_›⟩
  · cases h

/-- How a token offends, given the tokens before it. -/
inductive Offence (source : String) (before : List Token) (t : Token) : Fault → Prop
  | paragraph (name : Option String) (kind : t.kind = .paragraph name)
      (inside : 0 < depthAt source t.start) :
    Offence source before t (.paragraphInFragment (positionAt source t))
  | fragmentClose (kind : t.kind = .fragmentClose) (outside : depthAt source t.start = 0) :
    Offence source before t (.unmatchedClose (positionAt source t))
  | target (id : Ident) (first : Token) (earlier : first ∈ before) (taken : targetAt? source first = some id)
      (again : targetAt? source t = some id) :
    Offence source before t (.duplicateTarget id.print (positionAt source first) (positionAt source t))

/-- None of the tokens offends. -/
def Clean (source : String) (tokens : List Token) : Prop :=
  ∀ before t after, tokens = before ++ t :: after → ∀ f, ¬ Offence source before t f

/-- The first token that offends does so with this fault. -/
def FirstOffence (source : String) (tokens : List Token) (f : Fault) : Prop :=
  ∃ before t after, tokens = before ++ t :: after ∧ Clean source before ∧ Offence source before t f

variable {source : String} {before after taken tokens : List Token} {t : Token} {f f' : Fault}

theorem clean_nil : Clean source [] := by
  intro before t after h
  simp at h

theorem clean_concat : Clean source (taken ++ [t]) ↔ Clean source taken ∧ ∀ f, ¬ Offence source taken t f :=
  forall_split_concat

/-- Without offences no two links have one target. -/
theorem Clean.nodup (h : Clean source tokens) : (tokens.filterMap (targetAt? source)).Nodup := by
  induction tokens using List.reverseRecOn with
  | nil => exact .nil
  | append_singleton taken t ih =>
    obtain ⟨hclean, ht⟩ := clean_concat.1 h
    rw [List.filterMap_append]
    refine List.nodup_append.2 ⟨ih hclean, ?_, ?_⟩
    · cases hid : targetAt? source t <;> simp [hid]
    · rintro id hid id' hid' rfl
      obtain ⟨first, hfirst, htaken⟩ := List.mem_filterMap.1 hid
      have hagain : targetAt? source t = some id := by simpa using hid'
      exact ht _ (.target id first hfirst htaken hagain)

theorem eq_of_targetAt? {id : Ident} {u v : Token} (h : (tokens.filterMap (targetAt? source)).Nodup)
    (hu : u ∈ tokens) (hv : v ∈ tokens) (htu : targetAt? source u = some id)
    (htv : targetAt? source v = some id) : u = v := by
  have : Std.Symm fun u v : Token =>
      ∀ a, targetAt? source u = some a → ∀ b, targetAt? source v = some b → a ≠ b :=
    ⟨fun u v huv a ha b hb => (huv b hb a ha).symm⟩
  by_contra hne
  exact (List.pairwise_filterMap.1 h).forall hu hv hne id htu id htv rfl

theorem Offence.unique (h : Offence source before t f) (h' : Offence source before t f')
    (hclean : Clean source before) : f = f' := by
  cases h with
  | paragraph name kind inside => cases h' <;> simp_all [targetAt?]
  | fragmentClose kind outside => cases h' <;> simp_all [targetAt?]
  | target id first earlier taken again =>
    cases h' with
    | paragraph name kind => simp [targetAt?, kind] at again
    | fragmentClose kind => simp [targetAt?, kind] at again
    | target id' first' earlier' taken' again' =>
      rw [again, Option.some.injEq] at again'
      subst again'
      rw [eq_of_targetAt? hclean.nodup earlier earlier' taken taken']

/-- Nothing clean reaches past an offence. -/
theorem Offence.length_le {before' rest : List Token} (ho : Offence source before t f)
    (hclean : Clean source before') (h : before ++ t :: after = before' ++ rest) :
    before'.length ≤ before.length := by
  rcases List.append_eq_append_iff.1 h with ⟨between, rfl, hb⟩ | ⟨between, rfl, -⟩
  · cases between with
    | nil => simp
    | cons u between =>
      cases hb
      exact absurd ho (hclean before t between rfl f)
  · simp

theorem FirstOffence.unique (h : FirstOffence source tokens f) (h' : FirstOffence source tokens f') : f = f' := by
  obtain ⟨before, t, after, rfl, hclean, ho⟩ := h
  obtain ⟨before', t', after', heq, hclean', ho'⟩ := h'
  have hlength : before.length = before'.length :=
    Nat.le_antisymm (ho'.length_le hclean heq.symm) (ho.length_le hclean' heq)
  obtain ⟨rfl, hrest⟩ := List.append_inj heq hlength
  cases hrest
  exact ho.unique ho' hclean

theorem FirstOffence.not_clean (h : FirstOffence source tokens f) : ¬ Clean source tokens := by
  obtain ⟨before, t, after, htokens, -, ho⟩ := h
  exact fun hclean => hclean before t after htokens f ho

/-! ## What the resolution keeps count of -/

namespace Resolution

/-- The targets are those of the links among the tokens, each with the position of its link. -/
def Targets (source : String) (taken : List Token) (targets : Std.TreeMap Ident Position Ident.order) : Prop :=
  ∀ id p, targets[id]? = some p ↔ ∃ u ∈ taken, targetAt? source u = some id ∧ positionAt source u = p

/-- Tokens that are no links with a target leave the targets alone. -/
theorem Targets.concat {targets : Std.TreeMap Ident Position Ident.order} (h : Targets source taken targets)
    (hnone : targetAt? source t = none) : Targets source (taken ++ [t]) targets := by
  intro id p
  rw [h]
  simp [or_and_right, exists_or, hnone]

theorem Targets.insert {targets : Std.TreeMap Ident Position Ident.order} {id : Ident}
    (h : Targets source taken targets) (hid : targetAt? source t = some id) (fresh : targets[id]? = none) :
    Targets source (taken ++ [t]) (targets.insert id (positionAt source t)) := by
  intro id' p
  have hold := h id' p
  rw [Std.TreeMap.getElem?_insert]
  simp only [Ident.order_eq_iff, List.mem_append, List.mem_singleton, or_and_right, exists_or, exists_eq_left, hid,
    ← hold]
  by_cases hne : id = id'
  · subst hne
    simp [fresh]
  · simp [hne]

/-- The scopes and the level of a resolution count the signs of the tokens taken so far, and its
targets are those of the links among them. -/
structure Tallied (source : String) (taken : List Token) (r : Resolution) : Prop where
  braces : (Token.chars taken).count '\x7b' = (Token.chars taken).count '\x7d' + r.outer.length
  level : r.level = (Token.chars taken).count '>' + r.outer.length
  targets : Targets source taken r.targets
  clean : Clean source taken

variable {r r' : Resolution}

theorem tallied_start (source : String) : Tallied source [] start where
  braces := rfl
  level := rfl
  targets := by simp [Targets, start, emit]
  clean := clean_nil

section Split

variable (hsplit : tokenize source = taken ++ t :: after) (h : Tallied source taken r)
include hsplit h

theorem Tallied.depthAt_eq : depthAt source t.start = r.outer.length := by
  rw [depthAt, charsBefore_start hsplit, h.braces]
  omega

theorem Tallied.targetAt?_eq {caption name : String} (kind : t.kind = .revealLink caption (some name)) :
    targetAt? source t = some (.ofName name r.level) := by
  have hlevel : (marksAt source t.start + depthAt source t.start).toNat = r.level := by
    rw [h.depthAt_eq hsplit, marksAt, charsBefore_start hsplit, h.level]
    omega
  simp only [targetAt?, kind, hlevel]

/-- A token is refused exactly if it offends. -/
theorem Tallied.refusal_iff : Refusal r (positionAt source t) t f ↔ Offence source taken t f := by
  have hdepth := h.depthAt_eq hsplit
  constructor
  · intro hr
    cases hr with
    | paragraph name kind inner =>
      have := List.length_pos_iff.2 inner
      exact .paragraph name kind (by omega)
    | fragmentClose kind inner => exact .fragmentClose kind (by simp [hdepth, inner])
    | targetedLink caption name first kind found =>
      obtain ⟨u, hu, hid, rfl⟩ := (h.targets _ _).1 found
      exact .target _ u hu hid (h.targetAt?_eq hsplit kind)
  · intro ho
    cases ho with
    | paragraph name kind inside => exact .paragraph name kind (List.length_pos_iff.1 (by omega))
    | fragmentClose kind outside => exact .fragmentClose kind (List.length_eq_zero_iff.1 (by omega))
    | target id first earlier found again =>
      obtain ⟨caption, name, kind⟩ := link_of_targetAt? again
      rw [h.targetAt?_eq hsplit kind, Option.some.injEq] at again
      subst again
      exact .targetedLink caption name _ kind ((h.targets _ _).2 ⟨first, earlier, found, rfl⟩)

theorem Tallied.clean_concat (hs : Step r (positionAt source t) t r') : Clean source (taken ++ [t]) :=
  Reveal.clean_concat.2 ⟨h.clean, fun _ ho => hs.not_refused ((h.refusal_iff hsplit).2 ho)⟩

/-- A step keeps the tally if it moves the scopes and the level by the token's signs. -/
theorem Tallied.concat (hclean : Clean source (taken ++ [t]))
    (hbraces : t.kind.signs.opens + r.outer.length = t.kind.signs.closes + r'.outer.length)
    (hlevel : r'.level + r.outer.length = r.level + t.kind.signs.marks + r'.outer.length)
    (htargets : Targets source (taken ++ [t]) r'.targets) : Tallied source (taken ++ [t]) r' := by
  have hb := h.braces
  have hl := h.level
  simp only [← signs_of_tokenize hsplit, Token.signs] at hbraces hlevel
  refine ⟨?_, ?_, htargets, hclean⟩
  · simp only [Token.chars_append, Token.chars_cons, Token.chars_nil, List.append_nil, List.count_append]
    omega
  · simp only [Token.chars_append, Token.chars_cons, Token.chars_nil, List.append_nil, List.count_append]
    omega

theorem Tallied.step (hs : Step r (positionAt source t) t r') : Tallied source (taken ++ [t]) r' := by
  have hclean := h.clean_concat hsplit hs
  have hlevel := h.level
  cases hs with
  | paragraph _ kind | autoLink _ kind | text kind =>
    exact h.concat hsplit hclean (by simp [kind, Token.Kind.signs]) (by simp [kind, Token.Kind.signs])
      (h.targets.concat (by simp [targetAt?, kind]))
  | namedFragment _ kind | awaitedFragment _ _ kind | unreferencedFragment kind =>
    exact h.concat hsplit hclean (by simp [kind, Token.Kind.signs, Nat.add_comm])
      (by simp [kind, Token.Kind.signs]; omega) (h.targets.concat (by simp [targetAt?, kind]))
  | fragmentClose waiting outer kind inner =>
    rw [inner, List.length_cons] at hlevel
    exact h.concat hsplit hclean (by simp [kind, Token.Kind.signs, inner, Nat.add_comm])
      (by simp [kind, Token.Kind.signs, inner]; omega) (h.targets.concat (by simp [targetAt?, kind]))
  | targetedLink caption name kind fresh =>
    exact h.concat hsplit hclean (by simp [kind, Token.Kind.signs]) (by simp [kind, Token.Kind.signs])
      (h.targets.insert (h.targetAt?_eq hsplit kind) fresh)

end Split

end Resolution

/-! ## The outcome -/

/-- Every source ends in one of three ways, with the reason for it. -/
theorem resolve_ends (source : String) :
    (∃ f, FirstOffence source (tokenize source) f ∧ resolve source (tokenize source) = .error f) ∨
    (∃ m, 0 < m ∧ Clean source (tokenize source) ∧
      source.toList.count '\x7b' = source.toList.count '\x7d' + m ∧
      resolve source (tokenize source) = .error (.unbalanced m (LineMap.ofString source).stop)) ∨
    (Clean source (tokenize source) ∧ source.toList.count '\x7b' = source.toList.count '\x7d' ∧
      ∃ events, resolve source (tokenize source) = .ok events) := by
  -- The tally speaks of tokens of the source, so it is kept only while those taken are the first of them.
  let P := fun taken r => ∀ after, tokenize source = taken ++ after → Resolution.Tallied source taken r
  have start : P [] .start := fun _ _ => Resolution.tallied_start source
  have keep : ∀ {taken r t r'}, P taken r →
      Resolution.Step r ((LineMap.ofString source).position t.start) t r' → P (taken ++ [t]) r' := by
    intro taken r t r' hp hs after hsplit
    rw [List.append_assoc] at hsplit
    exact (hp _ hsplit).step hsplit hs
  obtain ⟨r, ⟨done, t, after, f, hsplit, hp, hr, he⟩ | ⟨hp, ho, he⟩ | ⟨hp, ho, he⟩⟩ :=
    Resolution.resolve_cases start keep (tokenize source)
  · have ht := hp _ hsplit
    exact .inl ⟨f, ⟨done, t, after, hsplit, ht.clean, (ht.refusal_iff hsplit).1 hr⟩, he⟩
  · have ht := hp [] (List.append_nil _).symm
    have hb := ht.braces
    rw [chars_tokenize] at hb
    exact .inr (.inl ⟨r.outer.length, List.length_pos_iff.2 ho, ht.clean, hb, he⟩)
  · have ht := hp [] (List.append_nil _).symm
    have hb := ht.braces
    rw [chars_tokenize, ho] at hb
    exact .inr (.inr ⟨ht.clean, hb, _, he⟩)

theorem resolve_eq_error_iff {source : String} {f : Fault} :
    resolve source (tokenize source) = .error f ↔
      FirstOffence source (tokenize source) f ∨
        Clean source (tokenize source) ∧ ∃ m, 0 < m ∧
          source.toList.count '\x7b' = source.toList.count '\x7d' + m ∧
          f = .unbalanced m (LineMap.ofString source).stop := by
  rcases resolve_ends source with ⟨f', hf, he⟩ | ⟨m, hm, hclean, hb, he⟩ | ⟨hclean, hb, events, he⟩
  · rw [he, Except.error.injEq]
    constructor
    · rintro rfl
      exact .inl hf
    · rintro (hf' | ⟨hclean, -⟩)
      · exact hf.unique hf'
      · exact absurd hclean hf.not_clean
  · rw [he, Except.error.injEq]
    constructor
    · rintro rfl
      exact .inr ⟨hclean, m, hm, hb, rfl⟩
    · rintro (hf | ⟨-, m', -, hb', rfl⟩)
      · exact absurd hclean hf.not_clean
      · rw [show m' = m by omega]
  · simp only [he, reduceCtorEq, false_iff]
    rintro (hf | ⟨-, m', hm', hb', -⟩)
    · exact hf.not_clean hclean
    · omega

theorem exists_resolve_eq_ok_iff {source : String} :
    (∃ events, resolve source (tokenize source) = .ok events) ↔
      Clean source (tokenize source) ∧ source.toList.count '\x7b' ≤ source.toList.count '\x7d' := by
  rcases resolve_ends source with ⟨f', hf, he⟩ | ⟨m, hm, hclean, hb, he⟩ | ⟨hclean, hb, events, he⟩
  · simp only [he, reduceCtorEq, exists_false, false_iff]
    exact fun h => hf.not_clean h.1
  · simp only [he, reduceCtorEq, exists_false, false_iff]
    omega
  · exact ⟨fun _ => ⟨hclean, Nat.le_of_eq hb⟩, fun _ => ⟨events, he⟩⟩

/-- A source is refused for the first token that offends; without such a token, for the braces left
open; and it is resolved otherwise. Up to the first offence no two links have one target, so the
earlier link that a second one meets is the only one. -/
theorem resolve_outcome (source : String) :
    (∀ f, resolve source (tokenize source) = .error f ↔
      FirstOffence source (tokenize source) f ∨
        Clean source (tokenize source) ∧ ∃ m, 0 < m ∧
          source.toList.count '\x7b' = source.toList.count '\x7d' + m ∧
          f = .unbalanced m (LineMap.ofString source).stop) ∧
    ((∃ events, resolve source (tokenize source) = .ok events) ↔
      Clean source (tokenize source) ∧ source.toList.count '\x7b' ≤ source.toList.count '\x7d') ∧
    ∀ before after, tokenize source = before ++ after → Clean source before →
      (before.filterMap (targetAt? source)).Nodup :=
  ⟨fun _ => resolve_eq_error_iff, exists_resolve_eq_ok_iff, fun _ _ _ hclean => hclean.nodup⟩

example : (match resolve "[x]#1>[y]#1\x7b[z]#2\x7d[z]#1\x7d" (tokenize "[x]#1>[y]#1\x7b[z]#2\x7d[z]#1\x7d") with
    | .error f => some f
    | .ok _ => none) = some (.duplicateTarget "1-1" ⟨1, 7⟩ ⟨1, 19⟩) := by
  decide +kernel

end Reveal
