import Reveal.Resolve
/-!
# What a step of the resolution does

`step_ok` says once what a token can do to the resolution, and `step_error` when it is refused.
`run_reaches` is the induction over the tokens: whatever every step keeps holds of the tokens taken
so far, up to the end or up to the token that is refused.
-/
namespace Reveal.Resolution

variable {r r' : Resolution} {p : Position} {t : Token}

/-- The identifier of a paragraph. -/
def paragraphIdent : Option String → Ident
  | some name => .named name
  | none => .anonymous

/-- The resolution after a token at `p`, case by case. -/
inductive Step (r : Resolution) (p : Position) (t : Token) : Resolution → Prop
  | paragraph (name : Option String) (kind : t.kind = .paragraph name) (inner : r.outer = []) :
    Step r p t { r with
      chain := r.chain.parent.push (paragraphIdent name)
      level := r.level + 1
      emitted := ⟨p, r.chain.parent.push (paragraphIdent name), .paragraphOpen (paragraphIdent name)⟩ ::
        ⟨p, r.chain.parent, .paragraphClose⟩ :: r.emitted }
  | namedFragment (name : String) (kind : t.kind = .fragmentOpen (some name)) :
    Step r p t { r with
      chain := r.chain.push (.ofName name r.level)
      level := r.level + 1
      waiting := []
      outer := r.waiting :: r.outer
      emitted := ⟨p, r.chain.push (.ofName name r.level), .fragmentOpen (.ofName name r.level)⟩ :: r.emitted }
  | awaitedFragment (number : Nat) (waiting : List Nat) (kind : t.kind = .fragmentOpen none)
      (oldest : r.waiting = number :: waiting) :
    Step r p t { r with
      chain := r.chain.push (.auto number)
      level := r.level + 1
      waiting := []
      outer := waiting :: r.outer
      emitted := ⟨p, r.chain.push (.auto number), .fragmentOpen (.auto number)⟩ :: r.emitted }
  | unreferencedFragment (kind : t.kind = .fragmentOpen none) (idle : r.waiting = []) :
    Step r p t { r with
      chain := r.chain.push (.unreferenced r.nextUnreferenced)
      level := r.level + 1
      waiting := []
      outer := [] :: r.outer
      nextUnreferenced := r.nextUnreferenced + 1
      emitted := ⟨p, r.chain.push (.unreferenced r.nextUnreferenced),
        .fragmentOpen (.unreferenced r.nextUnreferenced)⟩ :: r.emitted }
  | fragmentClose (waiting : List Nat) (outer : List (List Nat)) (kind : t.kind = .fragmentClose)
      (inner : r.outer = waiting :: outer) :
    Step r p t { r with
      chain := r.chain.parent
      level := r.level - 1
      waiting := waiting
      outer := outer
      emitted := ⟨p, r.chain.parent, .fragmentClose⟩ :: r.emitted }
  | targetedLink (caption name : String) (kind : t.kind = .revealLink caption (some name))
      (fresh : r.targets[Ident.ofName name r.level]? = none) :
    Step r p t { r with
      targets := r.targets.insert (.ofName name r.level) p
      emitted := ⟨p, r.chain,
        .revealLink (.ofName name r.level) (Prose.render caption) caption []⟩ :: r.emitted }
  | autoLink (caption : String) (kind : t.kind = .revealLink caption none) :
    Step r p t { r with
      nextAuto := r.nextAuto + 1
      waiting := r.waiting ++ [r.nextAuto]
      emitted := ⟨p, r.chain, .revealLink (.auto r.nextAuto) (Prose.render caption) caption []⟩ ::
        r.emitted }
  | text (kind : t.kind = .text) :
    Step r p t { r with emitted := ⟨p, r.chain, .text (Prose.render t.text) t.text⟩ :: r.emitted }

/-- Why a token is refused, and with which fault. -/
inductive Refusal (r : Resolution) (p : Position) (t : Token) : Fault → Prop
  | paragraph (name : Option String) (kind : t.kind = .paragraph name) (inner : r.outer ≠ []) :
    Refusal r p t (.paragraphInFragment p)
  | fragmentClose (kind : t.kind = .fragmentClose) (inner : r.outer = []) :
    Refusal r p t (.unmatchedClose p)
  | targetedLink (caption name : String) (first : Position)
      (kind : t.kind = .revealLink caption (some name))
      (taken : r.targets[Ident.ofName name r.level]? = some first) :
    Refusal r p t (.duplicateTarget (Ident.ofName name r.level).print first p)

theorem Step.not_refused {f : Fault} (hs : Step r p t r') : ¬ Refusal r p t f := by
  intro hr
  cases hs <;> cases hr <;> simp_all

theorem paragraph_cases (r : Resolution) (p : Position) (t : Token) (name : Option String)
    (kind : t.kind = .paragraph name) :
    (∃ r', r.paragraph p name = .ok r' ∧ Step r p t r') ∨
      ∃ f, r.paragraph p name = .error f ∧ Refusal r p t f := by
  unfold paragraph openFragments
  by_cases h : r.outer = []
  · refine .inl ⟨_, if_pos (by simp [h]), ?_⟩
    cases name <;> exact .paragraph _ kind h
  · exact .inr ⟨_, if_neg (by simpa using h), .paragraph name kind h⟩

theorem fragmentOpen_step (r : Resolution) (p : Position) (t : Token) (name : Option String)
    (kind : t.kind = .fragmentOpen name) : Step r p t (r.fragmentOpen p name) := by
  obtain ⟨chain, level, waiting, outer⟩ := r
  cases name with
  | some name => exact .namedFragment name kind
  | none =>
    cases waiting with
    | nil => exact .unreferencedFragment kind rfl
    | cons number waiting => exact .awaitedFragment number waiting kind rfl

theorem fragmentClose_cases (r : Resolution) (p : Position) (t : Token) (kind : t.kind = .fragmentClose) :
    (∃ r', r.fragmentClose p = .ok r' ∧ Step r p t r') ∨
      ∃ f, r.fragmentClose p = .error f ∧ Refusal r p t f := by
  unfold fragmentClose
  cases h : r.outer with
  | nil => exact .inr ⟨_, rfl, .fragmentClose kind h⟩
  | cons waiting outer => exact .inl ⟨_, rfl, .fragmentClose waiting outer kind h⟩

theorem revealLink_cases (r : Resolution) (p : Position) (t : Token) (caption : String) (target : Option String)
    (kind : t.kind = .revealLink caption target) :
    (∃ r', r.revealLink p caption target = .ok r' ∧ Step r p t r') ∨
      ∃ f, r.revealLink p caption target = .error f ∧ Refusal r p t f := by
  unfold revealLink linkIdent
  cases target with
  | none => exact .inl ⟨_, rfl, .autoLink caption kind⟩
  | some name =>
    cases h : r.targets[Ident.ofName name r.level]? with
    | none => exact .inl ⟨_, by simp only [h]; rfl, .targetedLink caption name kind h⟩
    | some first => exact .inr ⟨_, by simp only [h]; rfl, .targetedLink caption name first kind h⟩

theorem step_cases (r : Resolution) (p : Position) (t : Token) :
    (∃ r', r.step p t = .ok r' ∧ Step r p t r') ∨ ∃ f, r.step p t = .error f ∧ Refusal r p t f := by
  unfold step
  cases kind : t.kind with
  | paragraph name => exact r.paragraph_cases p t name kind
  | fragmentOpen name => exact .inl ⟨_, rfl, r.fragmentOpen_step p t name kind⟩
  | fragmentClose => exact r.fragmentClose_cases p t kind
  | revealLink caption target => exact r.revealLink_cases p t caption target kind
  | text => exact .inl ⟨_, rfl, .text kind⟩

theorem step_ok (h : r.step p t = .ok r') : Step r p t r' := by
  obtain ⟨r'', h', hs⟩ | ⟨f, h', -⟩ := r.step_cases p t
  · rw [h, Except.ok.injEq] at h'
    exact h' ▸ hs
  · rw [h] at h'; cases h'

theorem step_error {f : Fault} (h : r.step p t = .error f) : Refusal r p t f := by
  obtain ⟨r', h', -⟩ | ⟨f', h', hf⟩ := r.step_cases p t
  · rw [h] at h'; cases h'
  · rw [h, Except.error.injEq] at h'
    exact h' ▸ hf

/-- Where a run stops: behind the last token, or in front of one that is refused. -/
inductive Stop (lines : LineMap) (r : Resolution) : Option Fault → List Token → Prop
  | finished : Stop lines r none []
  | refused {f : Fault} (t : Token) (after : List Token) (refusal : Refusal r (lines.position t.start) t f) :
    Stop lines r (some f) (t :: after)

/-- What every step keeps, and it may speak of the tokens taken so far, holds where the run stops. -/
theorem run_reaches {lines : LineMap} {P : List Token → Resolution → Prop}
    (keep : ∀ {taken r t r'}, P taken r → Step r (lines.position t.start) t r' → P (taken ++ [t]) r')
    {tokens taken : List Token} {fault : Option Fault} (start : P taken r)
    (h : r.run lines tokens = (r', fault)) :
    ∃ done rest, tokens = done ++ rest ∧ P (taken ++ done) r' ∧ Stop lines r' fault rest := by
  induction tokens generalizing r taken with
  | nil =>
    simp only [run, Prod.mk.injEq] at h
    obtain ⟨rfl, rfl⟩ := h
    exact ⟨[], [], rfl, by simpa using start, .finished⟩
  | cons t tokens ih =>
    simp only [run] at h
    split at h
    · rename_i hs
      obtain ⟨done, rest, rfl, hp, hr⟩ := ih (keep start (step_ok hs)) h
      exact ⟨t :: done, rest, rfl, by simpa using hp, hr⟩
    · rename_i hs
      simp only [Prod.mk.injEq] at h
      obtain ⟨rfl, rfl⟩ := h
      exact ⟨[], t :: tokens, rfl, by simpa using start, .refused t tokens (step_error hs)⟩

theorem finish_of_closed (h : r.outer = []) (stop : Position) :
    r.finish stop = .ok ({ r with chain := r.chain.parent }.emit stop .paragraphClose) := by
  simp [finish, openFragments, h]

theorem finish_of_open (h : r.outer ≠ []) (stop : Position) :
    r.finish stop = .error (.unbalanced r.outer.length stop) := by
  simp [finish, openFragments, h]

section Resolve

variable {P : List Token → Resolution → Prop} {source : String} {tokens : List Token} {events : List Event}
  (start : P [] Resolution.start)
  (keep : ∀ {taken r t r'}, P taken r →
    Step r ((LineMap.ofString source).position t.start) t r' → P (taken ++ [t]) r')
include start keep

/-- The three ways in which a resolution ends: at a token that is refused, with fragments left open,
or with all events. -/
theorem resolve_cases (tokens : List Token) : ∃ r,
    (∃ done t after f, tokens = done ++ t :: after ∧ P done r ∧
      Refusal r ((LineMap.ofString source).position t.start) t f ∧ resolve source tokens = .error f) ∨
    (P tokens r ∧ r.outer ≠ [] ∧
      resolve source tokens = .error (.unbalanced r.outer.length (LineMap.ofString source).stop)) ∨
    (P tokens r ∧ r.outer = [] ∧ resolve source tokens =
      .ok (⟨(LineMap.ofString source).stop, r.chain.parent, .paragraphClose⟩ :: r.emitted).reverse) := by
  unfold resolve
  rcases hr : Resolution.start.run (LineMap.ofString source) tokens with ⟨r, fault⟩
  obtain ⟨done, rest, rfl, hp, hs⟩ := run_reaches keep start hr
  refine ⟨r, ?_⟩
  cases hs with
  | refused t after refusal =>
    exact .inl ⟨done, t, after, _, rfl, by simpa using hp, refusal, by simp only [hr]⟩
  | finished =>
    simp only [List.append_nil, List.nil_append] at hr hp ⊢
    by_cases ho : r.outer = []
    · exact .inr (.inr ⟨hp, ho, by simp only [hr, finish_of_closed ho]; rfl⟩)
    · exact .inr (.inl ⟨hp, ho, by simp only [hr, finish_of_open ho]; rfl⟩)

/-- What every step keeps holds at the end of a source without faults. -/
theorem resolve_reaches (h : resolve source tokens = .ok events) :
    ∃ r, P tokens r ∧ r.outer = [] ∧
      events = (⟨(LineMap.ofString source).stop, r.chain.parent, .paragraphClose⟩ :: r.emitted).reverse := by
  obtain ⟨r, ⟨_, _, _, _, _, _, _, he⟩ | ⟨_, _, he⟩ | ⟨hp, ho, he⟩⟩ := resolve_cases start keep tokens
  · rw [h] at he; cases he
  · rw [h] at he; cases he
  · rw [h, Except.ok.injEq] at he
    exact ⟨r, hp, ho, he⟩

end Resolve

end Reveal.Resolution
