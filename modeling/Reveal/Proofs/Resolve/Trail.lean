import Reveal.Proofs.Parse
import Reveal.Proofs.Resolve.Step
/-!
# The trail of a resolution

A trail is all that the events of a source can be, apart from how their identifiers are found: which
chain each event carries, and how many fragments are open behind it. Every source without faults
leaves a trail (`resolve_trail`), and so does every document (`parse_trail`): a law of events that
speaks only of chains and of what opens and closes is an induction over trails.
-/
namespace Reveal

/-- `Trail events chain n`: events, latest first, behind which `chain` and `n` fragments are open. -/
inductive Trail : List Event → Chain → Nat → Prop
  | root (p : Position) : Trail [⟨p, .empty, .paragraphOpen .anonymous⟩] .empty 0
  | paragraph {es : List Event} {c : Chain} (p : Position) (id : Ident) (before : Trail es c 0) :
    Trail (⟨p, c.parent.push id, .paragraphOpen id⟩ :: ⟨p, c.parent, .paragraphClose⟩ :: es)
      (c.parent.push id) 0
  | fragmentOpen {es : List Event} {c : Chain} {n : Nat} (p : Position) (id : Ident)
      (before : Trail es c n) :
    Trail (⟨p, c.push id, .fragmentOpen id⟩ :: es) (c.push id) (n + 1)
  | fragmentClose {es : List Event} {c : Chain} {n : Nat} (p : Position) (before : Trail es c (n + 1)) :
    Trail (⟨p, c.parent, .fragmentClose⟩ :: es) c.parent n
  | link {es : List Event} {c : Chain} {n : Nat} (p : Position) (id : Ident) (caption source : String)
      (descendants : List Ident) (before : Trail es c n) :
    Trail (⟨p, c, .revealLink id caption source descendants⟩ :: es) c n
  | text {es : List Event} {c : Chain} {n : Nat} (p : Position) (html source : String)
      (before : Trail es c n) :
    Trail (⟨p, c, .text html source⟩ :: es) c n

/-- What opens is on the chain of its event: a fragment is innermost there, and a paragraph stands there
alone. Only the paragraph that every source starts in is on no chain. -/
def Event.OpensOnChain (e : Event) : Prop :=
  match e.kind with
  | .paragraphOpen id => id = .anonymous ∧ e.chain.outward = [] ∨ e.chain.outward = [id]
  | .fragmentOpen id => ∃ outer, e.chain.outward = id :: outer
  | _ => True

namespace Trail

variable {es : List Event} {c : Chain} {n : Nat}

/-- Around the open fragments there is at most a paragraph. -/
theorem length_outward_le (h : Trail es c n) : c.outward.length ≤ n + 1 := by
  induction h with
  | root p => simp
  | paragraph p id before ih =>
    rw [Chain.outward_push, List.length_cons, Chain.outward_parent, List.length_tail]
    omega
  | fragmentOpen p id before ih =>
    rw [Chain.outward_push, List.length_cons]
    omega
  | fragmentClose p before ih =>
    rw [Chain.outward_parent, List.length_tail]
    omega
  | link p id caption source descendants before ih => exact ih
  | text p html source before ih => exact ih

theorem opensOnChain (h : Trail es c n) : ∀ e ∈ es, e.OpensOnChain := by
  induction h with
  | root p => exact List.forall_mem_singleton.2 (.inl ⟨rfl, rfl⟩)
  | @paragraph es c p id before ih =>
    have houter : c.parent.outward = [] := by
      have hle := before.length_outward_le
      rw [Chain.outward_parent, ← List.length_eq_zero_iff, List.length_tail]
      omega
    have hopen : Event.OpensOnChain ⟨p, c.parent.push id, .paragraphOpen id⟩ := by
      right
      rw [Chain.outward_push, houter]
    exact List.forall_mem_cons.2 ⟨hopen, List.forall_mem_cons.2 ⟨trivial, ih⟩⟩
  | @fragmentOpen es c n p id before ih =>
    have hopen : Event.OpensOnChain ⟨p, c.push id, .fragmentOpen id⟩ := ⟨c.outward, rfl⟩
    exact List.forall_mem_cons.2 ⟨hopen, ih⟩
  | fragmentClose p before ih => exact List.forall_mem_cons.2 ⟨trivial, ih⟩
  | link p id caption source descendants before ih => exact List.forall_mem_cons.2 ⟨trivial, ih⟩
  | text p html source before ih => exact List.forall_mem_cons.2 ⟨trivial, ih⟩

end Trail

namespace Resolution

/-- The resolution has left a trail that ends where it stands. -/
def Trailing (r : Resolution) : Prop := Trail r.emitted r.chain r.outer.length

theorem trailing_start : start.Trailing := .root .start

theorem trailing_step {r r' : Resolution} {p : Position} {t : Token} (h : r.Trailing)
    (hs : Step r p t r') : r'.Trailing := by
  unfold Trailing at h ⊢
  cases hs with
  | paragraph name _ inner =>
    rw [inner] at h
    simpa [inner] using h.paragraph p (paragraphIdent name)
  | namedFragment => exact h.fragmentOpen p _
  | awaitedFragment => exact h.fragmentOpen p _
  | unreferencedFragment => exact h.fragmentOpen p _
  | fragmentClose waiting outer _ inner =>
    rw [inner] at h
    exact h.fragmentClose p
  | targetedLink => exact h.link p _ _ _ _
  | autoLink => exact h.link p _ _ _ _
  | text => exact h.text p _ _

end Resolution

/-- The events of a source without faults: a trail on which no fragment is left open, and the end of
the last paragraph. -/
theorem resolve_trail {source : String} {tokens : List Token} {events : List Event}
    (h : resolve source tokens = .ok events) :
    ∃ es c p, Trail es c 0 ∧ events = (⟨p, c.parent, .paragraphClose⟩ :: es).reverse := by
  obtain ⟨r, ht, ho, he⟩ := Resolution.resolve_reaches (P := fun _ r => r.Trailing)
    Resolution.trailing_start Resolution.trailing_step h
  unfold Resolution.Trailing at ht
  rw [ho] at ht
  exact ⟨r.emitted, r.chain, _, ht, he⟩

/-- What links reveal is no matter to a trail. -/
theorem Trail.withDescendants {es : List Event} {c : Chain} {n : Nat} (h : Trail es c n)
    (descendants : Event → List Ident) : Trail (es.map fun e => e.withDescendants (descendants e)) c n := by
  induction h with
  | root p => exact .root p
  | paragraph p id _ ih => exact ih.paragraph p id
  | fragmentOpen p id _ ih => exact ih.fragmentOpen p id
  | fragmentClose p _ ih => exact ih.fragmentClose p
  | link p id caption source _ _ ih => exact ih.link p id caption source _
  | text p html source _ ih => exact ih.text p html source

theorem parse_trail {source : String} {d : Document} (h : parse source = .ok d) :
    ∃ es c p, Trail es c 0 ∧ d.events = (⟨p, c.parent, .paragraphClose⟩ :: es).reverse := by
  obtain ⟨events, hr, -, rfl⟩ := parse_eq_ok_iff.1 h
  obtain ⟨es, c, p, ht, he⟩ := resolve_trail hr
  refine ⟨_, c, p, ht.withDescendants (Cascade.reveals events), ?_⟩
  rw [Cascade.fill_eq_map]
  generalize Cascade.reveals events = descendants
  rw [he, List.map_reverse]
  rfl

end Reveal
