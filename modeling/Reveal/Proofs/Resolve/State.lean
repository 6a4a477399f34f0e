import Reveal.Proofs.Ident.Name
import Reveal.Proofs.Resolve.Pairing
import Reveal.Proofs.Resolve.Positions
import Reveal.Proofs.Resolve.Target
/-!
# What the state of a resolution says

The parts of a resolution's state are changed apart from each other, and each of them says something
about the tokens taken so far, whatever tokens they are (`Account`). The level and the chain count
paragraphs and open fragments (`Levels`), the queues are known from `Pairing`, the targets are those of
the links so far (`Filed`), and a name that counts at one depth only was read at the depth that the
tokens before it make (`ReadInDepth`). Every step keeps each of these, and so does a run.
-/
namespace Reveal

namespace Token

/-- How many fragments are open behind a token, given how many are open before it. -/
def moveOpen (t : Token) (n : Nat) : Nat :=
  match t.kind with
  | .fragmentOpen _ => n + 1
  | .fragmentClose => n - 1
  | _ => n

/-- How many fragments are open behind some tokens. -/
def openFragments (tokens : List Token) : Nat :=
  tokens.foldl (fun n t => t.moveOpen n) 0

/-- The marks of paragraphs among some tokens and the fragments that are open behind them. -/
def depthBehind (tokens : List Token) : Nat :=
  tokens.countP isParagraph + openFragments tokens

theorem openFragments_concat (tokens : List Token) (t : Token) :
    openFragments (tokens ++ [t]) = t.moveOpen (openFragments tokens) := by
  simp [openFragments]

end Token

variable {lines : LineMap} {taken : List Token} {t : Token} {p : Position} {events block : List Event} {e : Event}

namespace Resolution

variable {r r' : Resolution}

/-- The queues of all scopes, innermost first. -/
def scopes (r : Resolution) : List (List Nat) :=
  r.waiting :: r.outer

/-! ## Levels -/

/-- The scopes, the level and the chain count the tokens taken so far. -/
structure Levels (taken : List Token) (r : Resolution) : Prop where
  fragments : r.outer.length = Token.openFragments taken
  level : r.level = r.outer.length + taken.countP Token.isParagraph
  depth : r.chain.depth = r.outer.length + if taken.any Token.isParagraph then 1 else 0

theorem levels_start : Levels [] start := ⟨rfl, rfl, rfl⟩

theorem Levels.step (h : Levels taken r) (hs : Step r p t r') : Levels (taken ++ [t]) r' := by
  obtain ⟨hfragments, hlevel, hdepth⟩ := h
  cases hs with
  | paragraph name kind inner =>
    have hmark : t.isParagraph = true := by simp [Token.isParagraph, kind]
    have houtside : r.chain.depth ≤ 1 := by
      rw [hdepth, inner]
      split <;> simp
    refine ⟨?_, ?_, ?_⟩
    · simp [Token.openFragments_concat, Token.moveOpen, kind, hfragments]
    · simp [hlevel, hmark, Nat.add_assoc]
    · simp only [Chain.depth_push, Chain.depth_parent, inner, List.any_append, List.any_cons, hmark, Bool.true_or,
        Bool.or_true, if_true, List.length_nil]
      omega
  | namedFragment _ kind | awaitedFragment _ _ kind | unreferencedFragment kind =>
    have hmark : t.isParagraph = false := by simp [Token.isParagraph, kind]
    refine ⟨?_, ?_, ?_⟩
    · simp [Token.openFragments_concat, Token.moveOpen, kind, hfragments]
    · simp [hlevel, hmark, Nat.add_right_comm]
    · simp [hdepth, hmark, Nat.add_right_comm]
  | fragmentClose waiting outer kind inner =>
    have hmark : t.isParagraph = false := by simp [Token.isParagraph, kind]
    rw [inner, List.length_cons] at hfragments hlevel hdepth
    refine ⟨?_, ?_, ?_⟩
    · simp [Token.openFragments_concat, Token.moveOpen, kind, ← hfragments]
    · simp [hlevel, hmark, Nat.add_right_comm]
    · simp [Chain.depth_parent, hdepth, hmark]
  | targetedLink _ _ kind | autoLink _ kind | text kind =>
    have hmark : t.isParagraph = false := by simp [Token.isParagraph, kind]
    refine ⟨?_, ?_, ?_⟩
    · simp [Token.openFragments_concat, Token.moveOpen, kind, hfragments]
    · simp [hlevel, hmark]
    · simp [hdepth, hmark]

theorem Levels.level_eq (h : Levels taken r) : r.level = Token.depthBehind taken := by
  rw [h.level, h.fragments, Token.depthBehind, Nat.add_comm]

/-- What closes has opened before, so that neither the scopes nor the level run out. -/
theorem Levels.closing (h : Levels taken r) (hkind : t.kind = .fragmentClose) (hs : Step r p t r') :
    r.scopes.length = r'.scopes.length + 1 ∧ r.level = r'.level + 1 := by
  cases hs with
  | fragmentClose waiting outer _ inner =>
    have hlevel := h.level
    rw [inner, List.length_cons] at hlevel
    refine ⟨by simp [scopes, inner], ?_⟩
    show r.level = r.level - 1 + 1
    omega
  | paragraph _ kind | namedFragment _ kind | awaitedFragment _ _ kind | unreferencedFragment kind
  | targetedLink _ _ kind | autoLink _ kind | text kind =>
    rw [hkind] at kind
    cases kind

/-! ## Targets -/

/-- The targets are what the links so far open by name, each with the position of its link. -/
def Filed (r : Resolution) : Prop :=
  ∀ id p, r.targets[id]? = some p ↔
    ∃ e ∈ r.emitted, e.opens? = some id ∧ id.isAddressable = true ∧ e.position = p

theorem filed_start : start.Filed := by
  simp [Filed, start, emit, Event.opens?]

/-- Events that open nothing by name leave the targets alone. -/
theorem Filed.inert (h : r.Filed) (block : List Event) (htargets : r'.targets = r.targets)
    (hemitted : r'.emitted = block ++ r.emitted)
    (hblock : ∀ e ∈ block, ∀ id, e.opens? = some id → id.isAddressable = false) : r'.Filed := by
  intro id p
  rw [htargets, h id p, hemitted]
  constructor
  · rintro ⟨e, he, hopens⟩
    exact ⟨e, List.mem_append_right block he, hopens⟩
  · rintro ⟨e, he, hopens, haddressable, hposition⟩
    rcases List.mem_append.1 he with he | he
    · rw [hblock e he id hopens] at haddressable
      cases haddressable
    · exact ⟨e, he, hopens, haddressable, hposition⟩

/-- A link that opens something by name for the first time is added. -/
theorem Filed.link {id : Ident} (h : r.Filed) (htargets : r'.targets = r.targets.insert id e.position)
    (hemitted : r'.emitted = e :: r.emitted) (hopens : e.opens? = some id) (haddressable : id.isAddressable = true)
    (fresh : r.targets[id]? = none) : r'.Filed := by
  intro id' p
  rw [htargets, hemitted, Std.TreeMap.getElem?_insert]
  simp only [List.mem_cons, exists_eq_or_imp, hopens, ← h id' p]
  by_cases hid : id = id'
  · subst hid
    simp [fresh, haddressable]
  · simp [hid]

theorem Filed.step (h : r.Filed) (hs : Step r p t r') : r'.Filed := by
  cases hs with
  | paragraph name => exact h.inert [_, _] rfl rfl (by simp [Event.opens?])
  | namedFragment | awaitedFragment | unreferencedFragment | fragmentClose | text =>
    exact h.inert [_] rfl rfl (by simp [Event.opens?])
  | autoLink => exact h.inert [_] rfl rfl (by simp [Event.opens?, Ident.isAddressable])
  | targetedLink caption name kind fresh =>
    have haddressable := Ident.isAddressable_ofName name r.level
    exact h.link (e := ⟨p, r.chain, .revealLink _ _ caption []⟩) rfl rfl rfl haddressable fresh

end Resolution

/-! ## Queues -/

namespace Paired

variable {queues : List (List Nat)} {auto unreferenced : Nat} (h : Paired events queues auto unreferenced)
include h

theorem exists_queue {queue : List Nat} (hqueue : queue ∈ queues) : ∃ scope, Queue events scope queue := by
  obtain ⟨i, hi, rfl⟩ := List.getElem_of_mem hqueue
  have hi' : i < (openScopes events).length := by rwa [h.queues.length_eq]
  exact ⟨_, h.queues.get hi' hi⟩

theorem queue_ordered : ∀ queue ∈ queues, queue.Pairwise (· < ·) ∧ ∀ n ∈ queue, n < auto := by
  intro queue hqueue
  obtain ⟨scope, hq⟩ := h.exists_queue hqueue
  exact ⟨hq.sorted, fun n hn => h.lt_of_waits ((hq.mem n).1 hn)⟩

theorem queues_disjoint : queues.Pairwise List.Disjoint := by
  rw [List.pairwise_iff_getElem]
  intro i j hi hj hij n hni hnj
  have hi' : i < (openScopes events).length := by rwa [h.queues.length_eq]
  have hj' : j < (openScopes events).length := by rwa [h.queues.length_eq]
  have hwaits := ((h.queues.get hi' hi).mem n).1 hni
  have hscope := hwaits.scope_eq h.sorted (((h.queues.get hj' hj).mem n).1 hnj)
  exact absurd ((List.Nodup.getElem_inj_iff (openScopes_nodup events)).1 hscope) (Nat.ne_of_lt hij)

end Paired

/-! ## Depths -/

/-- If the event is named by digits, the name was read at this depth. -/
def Event.ReadAt (e : Event) (depth : Nat) : Prop :=
  ∀ level n, e.opens? = some (.numbered level n) ∨ e.openedBy? = some (.numbered level n) → level = depth

theorem readAt_of_ofName (name : String) {depth : Nat} (hopens : ∀ id, e.opens? = some id → id = .ofName name depth)
    (hopened : ∀ id, e.openedBy? = some id → id = .ofName name depth) : e.ReadAt depth := by
  rintro level n (h | h)
  · exact (Ident.ofName_eq_numbered_iff.1 (hopens _ h).symm).1.symm
  · exact (Ident.ofName_eq_numbered_iff.1 (hopened _ h).symm).1.symm

namespace Resolution

variable {r r' : Resolution}

theorem Step.readAt (h : Step r p t r') (hblock : r'.events = r.events ++ block) :
    ∀ e ∈ block, e.ReadAt r.level := by
  have hnew : ∀ new, r'.emitted = new ++ r.emitted → (∀ e ∈ new, e.ReadAt r.level) →
      ∀ e ∈ block, e.ReadAt r.level := by
    intro new hnew hread e he
    rw [events, events, hnew, List.reverse_append] at hblock
    rw [← List.append_cancel_left hblock, List.mem_reverse] at he
    exact hread e he
  cases h with
  | paragraph name =>
    refine hnew [_, _] rfl ?_
    cases name <;> simp [Event.ReadAt, Event.opens?, Event.openedBy?, paragraphIdent]
  | namedFragment name | targetedLink _ name =>
    refine hnew [_] rfl (List.forall_mem_singleton.2 (readAt_of_ofName name ?_ ?_)) <;>
      simp [Event.opens?, Event.openedBy?]
  | awaitedFragment | unreferencedFragment | fragmentClose | autoLink | text =>
    exact hnew [_] rfl (by simp [Event.ReadAt, Event.opens?, Event.openedBy?])

/-- The events so far are the first one and those of the tokens taken, and names made of digits were read at
the depth behind the tokens before theirs. -/
def ReadInDepth (lines : LineMap) (taken : List Token) (r : Resolution) : Prop :=
  ∃ blocks : List (List Event), r.events = ⟨.start, .empty, .paragraphOpen .anonymous⟩ :: blocks.flatten ∧
    List.Forall₂ (fun t block => Makes t (lines.position t.start) block) taken blocks ∧
    ∀ i (block : List Event), blocks[i]? = some block → ∀ e ∈ block, e.ReadAt (Token.depthBehind (taken.take i))

theorem ReadInDepth.step (h : ReadInDepth lines taken r) (hlevels : Levels taken r)
    (hs : Step r (lines.position t.start) t r') : ReadInDepth lines (taken ++ [t]) r' := by
  obtain ⟨blocks, hevents, hmakes, hread⟩ := h
  obtain ⟨block, happend, hblock⟩ := hs.makes
  have hlength := hmakes.length_eq
  refine ⟨blocks ++ [block], ?_, List.rel_append hmakes (.cons hblock .nil), fun i other hother => ?_⟩
  · rw [happend, hevents]
    simp
  · rcases Nat.lt_trichotomy i blocks.length with hlt | rfl | hlt
    · rw [List.getElem?_append_left hlt] at hother
      rw [List.take_append_of_le_length (by omega)]
      exact hread i other hother
    · rw [List.getElem?_concat_length, Option.some.injEq] at hother
      subst hother
      rw [← hlength, List.take_left, ← hlevels.level_eq]
      exact hs.readAt happend
    · rw [List.getElem?_eq_none (by simp; omega)] at hother
      cases hother

/-! ## The whole state -/

/-- What each part of the state says about the tokens taken so far. -/
structure Account (lines : LineMap) (taken : List Token) (r : Resolution) : Prop where
  /-- The outermost scope is never left. -/
  scopes : r.scopes ≠ []
  fragments : r.scopes.length = Token.openFragments taken + 1
  level : r.level = (r.scopes.length - 1) + taken.countP Token.isParagraph
  /-- The paragraph that every source starts in is not on the chain, any later one is. -/
  depth : r.chain.depth = (r.scopes.length - 1) + if taken.any Token.isParagraph then 1 else 0
  queues : ∀ queue ∈ r.scopes, queue.Pairwise (· < ·) ∧ ∀ n ∈ queue, n < r.nextAuto
  /-- No number waits in two scopes. -/
  disjoint : r.scopes.Pairwise List.Disjoint
  targets : ∀ id p, r.targets[id]? = some p ↔
    ∃ e ∈ r.events, e.opens? = some id ∧ id.isAddressable = true ∧ e.position = p
  /-- A fragment that closes leaves a scope and lowers a level that is not zero. -/
  closing : ∀ p t r', t.kind = .fragmentClose → r.step p t = .ok r' →
    r.scopes.length = r'.scopes.length + 1 ∧ r.level = r'.level + 1
  names : ReadInDepth lines taken r

/-- What every step keeps holds behind tokens of which none is refused. -/
theorem run_keeps {P : List Token → Resolution → Prop} (hstart : P [] start)
    (keep : ∀ {taken r t r'}, P taken r → Step r (lines.position t.start) t r' → P (taken ++ [t]) r')
    (h : start.run lines taken = (r, none)) : P taken r := by
  obtain ⟨done, rest, rfl, hdone, hstop⟩ := run_reaches keep hstart h
  cases hstop
  simpa using hdone

/-- Behind any tokens of which none is refused, whether they are those of a source or not, the parts of the
state fit together and tell what the tokens were. -/
theorem run_keeps_account (h : start.run lines taken = (r, none)) : Account lines taken r := by
  obtain ⟨hlevels, hnames⟩ := run_keeps (P := fun taken r => Levels taken r ∧ ReadInDepth lines taken r)
    ⟨levels_start, [], rfl, .nil, by simp⟩ (fun hp hs => ⟨hp.1.step hs, hp.2.step hp.1 hs⟩) h
  have hpairing := run_keeps (P := fun _ r => r.Pairing) pairing_start pairing_step h
  have hfiled := run_keeps (P := fun _ r => r.Filed) filed_start Filed.step h
  exact {
    scopes := List.cons_ne_nil _ _
    fragments := congrArg (· + 1) hlevels.fragments
    level := hlevels.level
    depth := hlevels.depth
    queues := Paired.queue_ordered hpairing
    disjoint := Paired.queues_disjoint hpairing
    targets := by
      simp only [events, List.mem_reverse]
      exact hfiled
    closing := fun p t r' hkind hs => hlevels.closing hkind (step_ok hs)
    names := hnames }

/-- Tokens without text that all start at one place are those of no source. -/
theorem run_keeps_account_textless :
    ∃ taken r, taken.map Token.kind = [.paragraph none, .revealLink "a" none, .fragmentOpen (some "1"),
        .revealLink "b" (some "007"), .fragmentClose, .revealLink "c" none, .fragmentOpen none] ∧
      start.run (LineMap.ofString "") taken = (r, none) ∧ Account (LineMap.ofString "") taken r ∧
      r.scopes = [[], [1]] ∧ r.level = 2 ∧ r.chain.depth = 2 ∧
      r.events.filterMap Event.opens? = [.auto 0, .numbered 2 7, .auto 1] := by
  let taken : List Token := [.paragraph none, .revealLink "a" none, .fragmentOpen (some "1"),
    .revealLink "b" (some "007"), .fragmentClose, .revealLink "c" none, .fragmentOpen none].map
      fun kind => ⟨kind, "", 0, 0⟩
  have hrun : start.run (LineMap.ofString "") taken = ((start.run (LineMap.ofString "") taken).1, none) :=
    Prod.ext rfl (by decide +kernel)
  exact ⟨taken, _, rfl, hrun, run_keeps_account hrun, by decide +kernel⟩

end Resolution

end Reveal
