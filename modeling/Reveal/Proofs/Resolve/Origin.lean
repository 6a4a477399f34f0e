import Reveal.Proofs.Resolve.Step
import Reveal.Proofs.Token.Source
/-!
# Where identifiers come from

A fragment and a link never go without an identifier, and only a paragraph can be anonymous. An
identifier with a name is spelled by a token, so in a source its name is made of name characters
(`isName_of_resolve`).
-/
namespace Reveal

/-- The identifier is one that tokens bring about: a name has to be spelled by one of them. -/
def Ident.FromTokens (tokens : List Token) : Ident → Prop
  | .named name => ∃ t ∈ tokens, t.kind.name? = some name
  | .anonymous => False
  | .numbered _ _ | .auto _ | .unreferenced _ => True

/-- What the event opens is brought about by tokens. Paragraphs may be anonymous. -/
def Event.FromTokens (tokens : List Token) (e : Event) : Prop :=
  match e.kind with
  | .paragraphOpen id => id = .anonymous ∨ id.FromTokens tokens
  | .fragmentOpen id | .revealLink id _ _ _ => id.FromTokens tokens
  | .paragraphClose | .fragmentClose | .text _ _ => True

variable {tokens more : List Token} {t : Token} {e : Event}

theorem Ident.FromTokens.mono {id : Ident} (h : id.FromTokens tokens) (hmore : ∀ t ∈ tokens, t ∈ more) :
    id.FromTokens more := by
  cases id with
  | named name =>
    obtain ⟨t, ht, hname⟩ := h
    exact ⟨t, hmore t ht, hname⟩
  | anonymous => exact h
  | numbered | auto | unreferenced => trivial

theorem Event.FromTokens.mono (h : e.FromTokens tokens) (hmore : ∀ t ∈ tokens, t ∈ more) : e.FromTokens more := by
  unfold FromTokens at h ⊢
  split at h
  · exact h.imp_right fun h => h.mono hmore
  · exact h.mono hmore
  · exact h.mono hmore
  · trivial
  · trivial
  · trivial

theorem Ident.fromTokens_ofName {name : String} (ht : t ∈ tokens) (hname : t.kind.name? = some name) (level : Nat) :
    (Ident.ofName name level).FromTokens tokens := by
  unfold Ident.ofName
  split
  · trivial
  · exact ⟨t, ht, hname⟩

theorem Event.fromTokens_step {r r' : Resolution} {p : Position} (h : ∀ e ∈ r.emitted, e.FromTokens tokens)
    (hs : Resolution.Step r p t r') : ∀ e ∈ r'.emitted, e.FromTokens (tokens ++ [t]) := by
  have ht : t ∈ tokens ++ [t] := by simp
  have hold : ∀ e ∈ r.emitted, e.FromTokens (tokens ++ [t]) := by
    intro e he
    exact (h e he).mono fun u hu => List.mem_append_left [t] hu
  cases hs with
  | paragraph name kind inner =>
    refine List.forall_mem_cons.2 ⟨?_, List.forall_mem_cons.2 ⟨trivial, hold⟩⟩
    cases name with
    | none => exact .inl rfl
    | some name => exact .inr ⟨t, ht, by rw [kind, Token.Kind.name?]⟩
  | namedFragment name kind =>
    have hname : t.kind.name? = some name := by rw [kind, Token.Kind.name?]
    exact List.forall_mem_cons.2 ⟨Ident.fromTokens_ofName ht hname r.level, hold⟩
  | awaitedFragment number waiting kind oldest => exact List.forall_mem_cons.2 ⟨trivial, hold⟩
  | unreferencedFragment kind idle => exact List.forall_mem_cons.2 ⟨trivial, hold⟩
  | fragmentClose waiting outer kind inner => exact List.forall_mem_cons.2 ⟨trivial, hold⟩
  | targetedLink caption name kind fresh =>
    have hname : t.kind.name? = some name := by rw [kind, Token.Kind.name?]
    exact List.forall_mem_cons.2 ⟨Ident.fromTokens_ofName ht hname r.level, hold⟩
  | autoLink caption kind => exact List.forall_mem_cons.2 ⟨trivial, hold⟩
  | text kind => exact List.forall_mem_cons.2 ⟨trivial, hold⟩

theorem fromTokens_of_resolve {source : String} {events : List Event} (h : resolve source tokens = .ok events) :
    ∀ e ∈ events, e.FromTokens tokens := by
  have hstart : ∀ e ∈ Resolution.start.emitted, e.FromTokens [] := List.forall_mem_singleton.2 (.inl rfl)
  obtain ⟨r, hr, -, rfl⟩ := Resolution.resolve_reaches
    (P := fun taken r => ∀ e ∈ r.emitted, e.FromTokens taken) hstart Event.fromTokens_step h
  intro e he
  rcases List.mem_cons.1 (List.mem_reverse.1 he) with rfl | he
  · trivial
  · exact hr e he

/-- The names of a source are made of name characters. -/
theorem isName_of_resolve {source : String} {events : List Event} {name : String}
    (h : resolve source (tokenize source) = .ok events) (he : e ∈ events)
    (hname : e.opens? = some (.named name) ∨ e.openedBy? = some (.named name)) : Token.IsName name := by
  have hfrom : (Ident.named name).FromTokens (tokenize source) := by
    have hall := fromTokens_of_resolve h e he
    unfold Event.FromTokens at hall
    unfold Event.opens? Event.openedBy? at hname
    cases hkind : e.kind <;> simp_all
  obtain ⟨t, ht, hspelled⟩ := hfrom
  exact isName_of_mem_tokenize ht hspelled

end Reveal
