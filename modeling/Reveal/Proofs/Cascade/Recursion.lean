import Mathlib.Data.List.Chain
import Reveal.Proofs.Parse
import Reveal.Proofs.Resolve.Numbers
import Reveal.Proofs.Resolve.Trail
/-!
# Links inside what they open, exactly

Where chains change by one identifier at a time, the counts that are kept while following them are
how often each identifier stands on the chain (`Counts.move`). So the check finds the first link that
stands inside what it opens, and no other fault. Resolved sources change their chains in this way.
-/
namespace Reveal

/-- A link that stands inside what it opens, which is `id`. -/
def Event.Reopens (e : Event) (id : Ident) : Prop := e.opens? = some id ∧ id ∈ e.chain.toList

namespace Cascade

/-- From one chain to the next, both given from the inside out: the same again, one identifier more,
one less, or another one in the innermost place. -/
inductive Move : List Ident → List Ident → Prop
  | stay (ids : List Ident) : Move ids ids
  | enter (ids : List Ident) (id : Ident) : Move ids (id :: ids)
  | leave (ids : List Ident) (id : Ident) : Move (id :: ids) ids
  | swap (ids : List Ident) (id id' : Ident) : Move (id :: ids) (id' :: ids)

/-- Every event's chain is one move from the chain before it, and the first one from `previous`. -/
def Stepwise (previous : Chain) (events : List Event) : Prop :=
  List.IsChain Move (previous.outward :: events.map fun e => e.chain.outward)

theorem stepwise_cons {previous : Chain} {e : Event} {events : List Event} :
    Stepwise previous (e :: events) ↔ Move previous.outward e.chain.outward ∧ Stepwise e.chain events :=
  List.isChain_cons_cons

theorem Stepwise.before {previous : Chain} {before rest : List Event}
    (h : Stepwise previous (before ++ rest)) : Stepwise previous before := by
  unfold Stepwise at h ⊢
  rw [List.map_append, ← List.cons_append] at h
  exact (List.isChain_append.1 h).1

/-- `e` is the first link that stands inside what it opens. -/
def FirstReopens (events : List Event) (e : Event) (id : Ident) : Prop :=
  ∃ before after, events = before ++ e :: after ∧ e.Reopens id ∧ ∀ e' ∈ before, ∀ id', ¬ e'.Reopens id'

/-! ## Counting what is open -/

namespace OpenCount

variable {count : OpenCount} {previous current : Chain} {ids : List Ident} {id : Ident}

/-- The identifier whose count goes down between two chains. -/
def left? (previous current : Chain) : Option Ident :=
  if current.isSame previous then none
  else if current.depth ≤ previous.depth then previous.innermost? else none

/-- The identifier whose count goes up between two chains. -/
def entered? (previous current : Chain) : Option Ident :=
  if current.isSame previous then none
  else if previous.depth ≤ current.depth then current.innermost? else none

theorem move_eq (count : OpenCount) (previous current : Chain) :
    count.move previous current = (count.leave (left? previous current)).enter (entered? previous current) := by
  unfold move left? entered?
  by_cases hs : current.isSame previous
  · simp [hs, leave, enter]
  · by_cases hl : current.depth ≤ previous.depth <;> by_cases he : previous.depth ≤ current.depth <;>
      simp [hs, hl, he, leave, enter]

/-- Every identifier's count is how often it is among `ids`. -/
def Counts (count : OpenCount) (ids : List Ident) : Prop := ∀ id, count.getD id 0 = (ids.count id : Int)

theorem counts_empty : Counts ∅ Chain.empty.outward := by
  intro id
  simp

theorem Counts.leave (h : Counts count (id :: ids)) : Counts (count.leave (some id)) ids := by
  intro x
  have hx := h x
  simp only [OpenCount.leave, Std.TreeMap.getD_modify, Ident.order_eq_iff]
  by_cases hi : id = x
  · subst hi
    rw [Std.TreeMap.getD_eq_getD_getElem?] at hx
    cases hc : count[id]? with
    | none => simp [hc] at hx; omega
    | some n => simp [hc] at hx ⊢; omega
  · simpa [hi] using hx

theorem Counts.enter (h : Counts count ids) : Counts (count.enter (some id)) (id :: ids) := by
  intro x
  have hx := h x
  simp only [OpenCount.enter, Std.TreeMap.getD_insert, Ident.order_eq_iff]
  by_cases hi : id = x
  · subst hi
    simp [hx]
  · simpa [hi] using hx

/-- Following a move keeps the counts right. -/
theorem Counts.move (h : Counts count previous.outward) (hm : Move previous.outward current.outward) :
    Counts (count.move previous current) current.outward := by
  rw [move_eq]
  by_cases hs : current.isSame previous
  · simpa [left?, entered?, hs, OpenCount.leave, OpenCount.enter, Chain.outward_eq_of_isSame hs] using h
  · have hl : left? previous current =
        if current.outward.length ≤ previous.outward.length then previous.outward.head? else none := by
      simp [left?, hs, Chain.depth_eq_length, Chain.innermost?_eq_head?]
    have he : entered? previous current =
        if previous.outward.length ≤ current.outward.length then current.outward.head? else none := by
      simp [entered?, hs, Chain.depth_eq_length, Chain.innermost?_eq_head?]
    rw [hl, he]
    generalize previous.outward = a at h hm
    generalize current.outward = b at hm
    cases hm with
    | stay =>
      cases a with
      | nil => simpa [OpenCount.leave, OpenCount.enter] using h
      | cons id ids => simpa using h.leave.enter
    | enter ids id =>
      rw [if_neg (by simp), if_pos (by simp)]
      exact h.enter
    | leave ids id =>
      rw [if_pos (by simp), if_neg (by simp)]
      exact h.leave
    | swap ids id id' => simpa using h.leave.enter

/-- No count goes down that is not above zero. -/
theorem Counts.left_pos (h : Counts count previous.outward) (hl : left? previous current = some id) :
    1 ≤ count.getD id 0 := by
  have hi : previous.outward.head? = some id := by
    rw [← Chain.innermost?_eq_head?]
    unfold left? at hl
    split at hl
    · cases hl
    · split at hl
      · exact hl
      · cases hl
  have := List.count_pos_iff.2 (List.mem_of_mem_head? hi)
  rw [h id]
  omega

/-- The count and the chain that are reached behind some events. -/
def follow (count : OpenCount) (previous : Chain) : List Event → OpenCount × Chain
  | [] => (count, previous)
  | e :: rest => follow (count.move previous e.chain) e.chain rest

/-- Where chains change by moves, the counts are right behind any number of events, and the next
chain is one move from the one that was reached. -/
theorem Counts.follow {before rest : List Event} (h : Counts count previous.outward)
    (hs : Stepwise previous (before ++ rest)) :
    Counts (follow count previous before).1 (follow count previous before).2.outward ∧
      Stepwise (OpenCount.follow count previous before).2 rest := by
  induction before generalizing count previous with
  | nil => exact ⟨h, hs⟩
  | cons e before ih =>
    rw [List.cons_append, stepwise_cons] at hs
    exact ih (h.move hs.1) hs.2

end OpenCount

open OpenCount

/-! ## The check -/

variable {count : OpenCount} {previous : Chain} {events : List Event}

/-- As long as no link is refused, the check goes on with the count and chain that it reached. -/
theorem firstRecursive_append {before : List Event} (rest : List Event)
    (h : firstRecursive count previous before = none) :
    firstRecursive count previous (before ++ rest) =
      firstRecursive (follow count previous before).1 (follow count previous before).2 rest := by
  induction before generalizing count previous with
  | nil => rfl
  | cons e before ih =>
    simp only [firstRecursive] at h
    split at h
    · cases h
    · rename_i hn
      simp only [List.cons_append, firstRecursive, hn, follow]
      exact ih h

theorem recursiveLink?_eq_some_iff {e : Event} {f : Fault} (h : Counts count e.chain.outward) :
    recursiveLink? count e = some f ↔ ∃ id, e.Reopens id ∧ f = .recursiveLink id.print e.position := by
  unfold recursiveLink? Event.Reopens
  cases ho : e.opens? with
  | none => simp
  | some id =>
    have hc : count.getD id 0 ≠ 0 ↔ id ∈ e.chain.toList := by
      rw [h id, Chain.mem_toList, ← List.count_pos_iff]
      omega
    by_cases hm : id ∈ e.chain.toList
    · simp [hc.2 hm, Chain.mem_toList.1 hm, eq_comm]
    · have := mt hc.1 hm
      rw [Chain.mem_toList] at hm
      simp_all

theorem firstRecursive_eq_none_iff (hc : Counts count previous.outward)
    (hs : Stepwise previous events) :
    firstRecursive count previous events = none ↔ ∀ e ∈ events, ∀ id, ¬ e.Reopens id := by
  induction events generalizing count previous with
  | nil => simp [firstRecursive]
  | cons e events ih =>
    rw [stepwise_cons] at hs
    have hc' := hc.move hs.1
    simp only [firstRecursive, List.forall_mem_cons, ← ih hc' hs.2]
    cases hr : recursiveLink? (count.move previous e.chain) e with
    | some f =>
      obtain ⟨id, hid, -⟩ := (recursiveLink?_eq_some_iff hc').1 hr
      simpa using fun h => absurd hid (h id)
    | none =>
      have : ∀ id, ¬ e.Reopens id := by
        intro id hid
        rw [(recursiveLink?_eq_some_iff hc').2 ⟨id, hid, rfl⟩] at hr
        cases hr
      simp [this]

theorem firstRecursive_of_firstReopens {e : Event} {id : Ident} (hc : Counts count previous.outward)
    (hs : Stepwise previous events)
    (h : FirstReopens events e id) :
    firstRecursive count previous events = some (.recursiveLink id.print e.position) := by
  obtain ⟨before, after, rfl, hid, hb⟩ := h
  rw [firstRecursive_append _ ((firstRecursive_eq_none_iff hc hs.before).2 hb)]
  obtain ⟨hc', hs'⟩ := hc.follow hs
  rw [stepwise_cons] at hs'
  simp only [firstRecursive, (recursiveLink?_eq_some_iff (hc'.move hs'.1)).2 ⟨id, hid, rfl⟩]

theorem exists_firstReopens (h : ∃ e ∈ events, ∃ id, e.Reopens id) : ∃ e id, FirstReopens events e id := by
  induction events with
  | nil => simp at h
  | cons x events ih =>
    by_cases hx : ∃ id, x.Reopens id
    · obtain ⟨id, hid⟩ := hx
      exact ⟨x, id, [], events, rfl, hid, by simp⟩
    · have h' : ∃ e ∈ events, ∃ id, e.Reopens id := by
        obtain ⟨e, he, hid⟩ := h
        rcases List.mem_cons.1 he with rfl | he
        · exact absurd hid hx
        · exact ⟨e, he, hid⟩
      obtain ⟨e, id, before, after, rfl, hid, hb⟩ := ih h'
      exact ⟨e, id, x :: before, after, rfl, hid, List.forall_mem_cons.2 ⟨not_exists.1 hx, hb⟩⟩

/-- The check reports the first link that stands inside what it opens, and nothing else. -/
theorem recursiveFault?_eq_some_iff {f : Fault} (hs : Stepwise .empty events) :
    recursiveFault? events = some f ↔
      ∃ e id, FirstReopens events e id ∧ f = .recursiveLink id.print e.position := by
  constructor
  · intro h
    have hex : ∃ e ∈ events, ∃ id, e.Reopens id := by
      by_contra hn
      push Not at hn
      rw [recursiveFault?, (firstRecursive_eq_none_iff counts_empty hs).2 hn] at h
      cases h
    obtain ⟨e, id, hf⟩ := exists_firstReopens hex
    rw [recursiveFault?, firstRecursive_of_firstReopens counts_empty hs hf, Option.some.injEq] at h
    exact ⟨e, id, hf, h.symm⟩
  · rintro ⟨e, id, hf, rfl⟩
    exact firstRecursive_of_firstReopens counts_empty hs hf

theorem exists_recursiveFault?_iff (hs : Stepwise .empty events) :
    (∃ f, recursiveFault? events = some f) ↔ ∃ e ∈ events, ∃ id, e.Reopens id := by
  constructor
  · rintro ⟨f, hf⟩
    obtain ⟨e, id, ⟨before, after, rfl, hid, -⟩, -⟩ := (recursiveFault?_eq_some_iff hs).1 hf
    exact ⟨e, by simp, id, hid⟩
  · intro h
    obtain ⟨e, id, hf⟩ := exists_firstReopens h
    exact ⟨_, (recursiveFault?_eq_some_iff hs).2 ⟨e, id, hf, rfl⟩⟩

/-! ## Resolved sources -/

theorem move_parent (c : Chain) : Move c.outward c.parent.outward := by
  cases c with
  | empty => exact .stay []
  | push c id number => exact .leave c.outward id

/-- Along a trail, latest event first, the chains change by moves from the empty chain on. -/
theorem moves_of_trail {es : List Event} {c : Chain} {n : Nat} (h : Trail es c n) :
    ∃ rest, es.map (fun e => e.chain.outward) = c.outward :: rest ∧
      List.IsChain (fun a b => Move b a) (c.outward :: rest ++ [[]]) := by
  induction h with
  | root p => exact ⟨[], rfl, by simpa using Move.stay []⟩
  | @paragraph es c p id before ih =>
    obtain ⟨rest, hm, hc⟩ := ih
    refine ⟨c.parent.outward :: c.outward :: rest, by simp [hm], ?_⟩
    simpa using ⟨Move.enter c.parent.outward id, move_parent c, hc⟩
  | @fragmentOpen es c n p id before ih =>
    obtain ⟨rest, hm, hc⟩ := ih
    refine ⟨c.outward :: rest, by simp [hm], ?_⟩
    simpa using ⟨Move.enter c.outward id, hc⟩
  | @fragmentClose es c n p before ih =>
    obtain ⟨rest, hm, hc⟩ := ih
    refine ⟨c.outward :: rest, by simp [hm], ?_⟩
    simpa using ⟨move_parent c, hc⟩
  | @link es c n p id caption source descendants before ih =>
    obtain ⟨rest, hm, hc⟩ := ih
    refine ⟨c.outward :: rest, by simp [hm], ?_⟩
    simpa using ⟨Move.stay c.outward, hc⟩
  | @text es c n p html source before ih =>
    obtain ⟨rest, hm, hc⟩ := ih
    refine ⟨c.outward :: rest, by simp [hm], ?_⟩
    simpa using ⟨Move.stay c.outward, hc⟩

theorem stepwise_of_resolve {source : String} {tokens : List Token}
    (h : resolve source tokens = .ok events) : Stepwise .empty events := by
  obtain ⟨es, c, p, ht, rfl⟩ := resolve_trail h
  obtain ⟨rest, hm, hc⟩ := moves_of_trail ht
  have hr : ([] : List Ident) :: ((⟨p, c.parent, .paragraphClose⟩ :: es).reverse.map fun e => e.chain.outward) =
      (c.parent.outward :: c.outward :: rest ++ [[]]).reverse := by
    simp [hm]
  unfold Stepwise
  rw [Chain.outward_empty, hr, List.isChain_reverse]
  simpa using ⟨move_parent c, hc⟩

/-! ## Links without target -/

/-- What `e` opens was spelled out by one of the tokens, at the place of `e`. -/
def SpelledOut (lines : LineMap) (tokens : List Token) (e : Event) (id : Ident) : Prop :=
  ∃ t ∈ tokens, ∃ caption name level, t.kind = .revealLink caption (some name) ∧
    e.position = lines.position t.start ∧ id = .ofName name level

/-- What one more token adds to the events: links inside what they open only with a target. -/
theorem spelledOut_step {lines : LineMap} {taken : List Token} {r r' : Resolution} {t : Token}
    (hn : r.Numbered) (h : ∀ e ∈ r.emitted, ∀ id, e.Reopens id → SpelledOut lines taken e id)
    (hs : Resolution.Step r (lines.position t.start) t r') :
    ∀ e ∈ r'.emitted, ∀ id, e.Reopens id → SpelledOut lines (taken ++ [t]) e id := by
  have old : ∀ e ∈ r.emitted, ∀ id, e.Reopens id → SpelledOut lines (taken ++ [t]) e id := by
    intro e he id hid
    obtain ⟨u, hu, h'⟩ := h e he id hid
    exact ⟨u, by simp [hu], h'⟩
  have other : ∀ (p : Position) (c : Chain) (kind : Event.Kind), Event.opens? ⟨p, c, kind⟩ = none →
      ∀ id, Event.Reopens ⟨p, c, kind⟩ id → SpelledOut lines (taken ++ [t]) ⟨p, c, kind⟩ id := by
    intro p c kind hk id hid
    rw [Event.Reopens, hk] at hid
    cases hid.1
  cases hs with
  | paragraph => exact List.forall_mem_cons.2 ⟨other _ _ _ rfl, List.forall_mem_cons.2 ⟨other _ _ _ rfl, old⟩⟩
  | namedFragment => exact List.forall_mem_cons.2 ⟨other _ _ _ rfl, old⟩
  | awaitedFragment => exact List.forall_mem_cons.2 ⟨other _ _ _ rfl, old⟩
  | unreferencedFragment => exact List.forall_mem_cons.2 ⟨other _ _ _ rfl, old⟩
  | fragmentClose => exact List.forall_mem_cons.2 ⟨other _ _ _ rfl, old⟩
  | targetedLink caption name kind fresh =>
    refine List.forall_mem_cons.2 ⟨fun id hid => ?_, old⟩
    cases hid.1
    exact ⟨t, by simp, caption, name, r.level, kind, rfl, rfl⟩
  | autoLink caption kind =>
    refine List.forall_mem_cons.2 ⟨fun id hid => ?_, old⟩
    cases hid.1
    exact absurd (hn.chain _ (Chain.mem_toList.1 hid.2)) (Nat.lt_irrefl _)
  | text => exact List.forall_mem_cons.2 ⟨other _ _ _ rfl, old⟩

theorem spelledOut_of_resolve {source : String} {tokens : List Token} (h : resolve source tokens = .ok events) :
    ∀ e ∈ events, ∀ id, e.Reopens id → SpelledOut (LineMap.ofString source) tokens e id := by
  let P (taken : List Token) (r : Resolution) : Prop := r.Numbered ∧
    ∀ e ∈ r.emitted, ∀ id, e.Reopens id → SpelledOut (LineMap.ofString source) taken e id
  have start : P [] Resolution.start := by
    refine ⟨Resolution.numbered_start, ?_⟩
    simp [Resolution.start, Resolution.emit, Event.Reopens, Event.opens?]
  obtain ⟨r, ⟨-, hl⟩, -, rfl⟩ := Resolution.resolve_reaches (P := P) start
    (fun hp hs => ⟨hp.1.step hs, spelledOut_step hp.1 hp.2 hs⟩) h
  intro e he id hid
  rcases List.mem_cons.1 (List.mem_reverse.1 he) with rfl | he
  · cases hid.1
  · exact hl e he id hid

/-- The resolution itself knows nothing of links inside what they open. -/
theorem resolve_ne_recursiveLink (source : String) (tokens : List Token) (target : String) (p : Position) :
    resolve source tokens ≠ .error (.recursiveLink target p) := by
  obtain ⟨r, ⟨_, _, _, f, _, _, hf, he⟩ | ⟨_, _, he⟩ | ⟨_, _, he⟩⟩ :=
    Resolution.resolve_cases (P := fun _ _ => True) trivial (fun _ _ => trivial) tokens
  · rw [he]
    cases hf <;> simp
  · simp [he]
  · simp [he]

theorem parse_recursive_iff {source : String} :
    (∃ target p, parse source = .error (.recursiveLink target p)) ↔
      ∃ events, resolve source (tokenize source) = .ok events ∧ ∃ e ∈ events, ∃ id, e.Reopens id := by
  constructor
  · rintro ⟨target, p, h⟩
    rcases parse_eq_error_iff.1 h with h | ⟨events, hr, hf⟩
    · exact absurd h (resolve_ne_recursiveLink _ _ _ _)
    · exact ⟨events, hr, (exists_recursiveFault?_iff (stepwise_of_resolve hr)).1 ⟨_, hf⟩⟩
  · rintro ⟨events, hr, h⟩
    obtain ⟨f, hf⟩ := (exists_recursiveFault?_iff (stepwise_of_resolve hr)).2 h
    obtain ⟨e, id, -, rfl⟩ := (recursiveFault?_eq_some_iff (stepwise_of_resolve hr)).1 hf
    exact ⟨_, _, parse_eq_error_iff.2 (.inr ⟨events, hr, hf⟩)⟩

/-- Where chains change by moves, the check fails exactly if some link stands inside what it opens,
reports the first such link, and never takes from a count that is zero. Resolved sources are such,
and a link inside what it opens was written with a target there. So a source is refused as recursive
exactly if it can be resolved and has such a link. -/
theorem recursion_exact :
    (∀ events, Stepwise .empty events →
      ((∃ f, recursiveFault? events = some f) ↔ ∃ e ∈ events, ∃ id, e.Reopens id) ∧
      (∀ f, recursiveFault? events = some f →
        ∃ e id, FirstReopens events e id ∧ f = .recursiveLink id.print e.position) ∧
      ∀ before e after count previous, events = before ++ e :: after →
        follow ∅ .empty before = (count, previous) →
        count.move previous e.chain =
          (count.leave (left? previous e.chain)).enter (entered? previous e.chain) ∧
        ∀ id, left? previous e.chain = some id → 1 ≤ count.getD id 0) ∧
    (∀ source events, resolve source (tokenize source) = .ok events → Stepwise .empty events ∧
      ∀ e ∈ events, ∀ id, e.Reopens id →
        SpelledOut (LineMap.ofString source) (tokenize source) e id ∧ ∀ n, id ≠ .auto n) ∧
    ∀ source, (∃ target p, parse source = .error (.recursiveLink target p)) ↔
      ∃ events, resolve source (tokenize source) = .ok events ∧ ∃ e ∈ events, ∃ id, e.Reopens id := by
  refine ⟨fun events hs => ⟨exists_recursiveFault?_iff hs, fun f => (recursiveFault?_eq_some_iff hs).1, ?_⟩,
    fun source events h => ⟨stepwise_of_resolve h, ?_⟩, fun source => parse_recursive_iff⟩
  · rintro before e after count previous rfl hf
    have hcounts := (counts_empty.follow hs).1
    rw [hf] at hcounts
    exact ⟨move_eq count previous e.chain, fun id => hcounts.left_pos⟩
  · intro e he id hid
    obtain ⟨t, ht, caption, name, level, hk, hp, rfl⟩ := spelledOut_of_resolve h e he id hid
    exact ⟨⟨t, ht, caption, name, level, hk, hp, rfl⟩, Ident.ofName_ne_auto name level⟩

/-- A link inside the second of two fragments of the name it opens. -/
theorem recursion_exact_reopened :
    (∃ events, resolve "\x7ba:x\x7d\x7ba:[in]#a\x7d" (tokenize "\x7ba:x\x7d\x7ba:[in]#a\x7d") = .ok events ∧
      Stepwise .empty events ∧ (∃ e ∈ events, e.Reopens (.named "a")) ∧
      ∃ f, recursiveFault? events = some f) ∧
    ∃ target p, parse "\x7ba:x\x7d\x7ba:[in]#a\x7d" = .error (.recursiveLink target p) := by
  obtain ⟨events, hr, e, he, hid⟩ : ∃ events,
      resolve "\x7ba:x\x7d\x7ba:[in]#a\x7d" (tokenize "\x7ba:x\x7d\x7ba:[in]#a\x7d") = .ok events ∧
        ∃ e ∈ events, e.opens? = some (.named "a") ∧ .named "a" ∈ e.chain.toList := by decide +kernel
  have hs := (recursion_exact.2.1 _ events hr).1
  exact ⟨⟨events, hr, hs, ⟨e, he, hid⟩, (recursion_exact.1 events hs).1.2 ⟨e, he, _, hid⟩⟩,
    (recursion_exact.2.2 _).2 ⟨events, hr, e, he, _, hid⟩⟩

end Cascade

end Reveal
