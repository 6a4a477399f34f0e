import Reveal.Proofs.Resolve.Step
/-!
# The numbers of links without target

Numbers are given out in order. Only later do they get on a chain, so a fresh number is on none.
-/
namespace Reveal

theorem Ident.ofName_ne_auto (name : String) (level n : Nat) : Ident.ofName name level ≠ .auto n := by
  unfold Ident.ofName
  split <;> simp

namespace Resolution

/-- All numbers on the chain and in the scopes have been given out. -/
structure Numbered (r : Resolution) : Prop where
  chain : ∀ n, .auto n ∈ r.chain.outward → n < r.nextAuto
  waiting : ∀ n ∈ r.waiting, n < r.nextAuto
  outer : ∀ waiting ∈ r.outer, ∀ n ∈ waiting, n < r.nextAuto

theorem paragraphIdent_ne_auto (name : Option String) (n : Nat) :
    paragraphIdent name ≠ .auto n := by
  cases name <;> simp [paragraphIdent]

theorem numbered_start : start.Numbered := by
  constructor <;> simp [start, emit]

theorem Numbered.step {r r' : Resolution} {p : Position} {t : Token} (h : Numbered r)
    (hs : Step r p t r') : Numbered r' := by
  obtain ⟨hchain, hwaiting, houter⟩ := h
  cases hs with
  | paragraph name kind inner =>
    refine ⟨fun n hn => ?_, hwaiting, houter⟩
    rcases List.mem_cons.1 hn with hn | hn
    · exact absurd hn.symm (paragraphIdent_ne_auto name n)
    · exact hchain n (Chain.mem_of_mem_parent hn)
  | namedFragment name kind =>
    refine ⟨fun n hn => ?_, by simp, List.forall_mem_cons.2 ⟨hwaiting, houter⟩⟩
    rcases List.mem_cons.1 hn with hn | hn
    · exact absurd hn.symm (Ident.ofName_ne_auto name r.level n)
    · exact hchain n hn
  | awaitedFragment number waiting kind oldest =>
    rw [oldest, List.forall_mem_cons] at hwaiting
    refine ⟨fun n hn => ?_, by simp, List.forall_mem_cons.2 ⟨hwaiting.2, houter⟩⟩
    rcases List.mem_cons.1 hn with hn | hn
    · cases hn
      exact hwaiting.1
    · exact hchain n hn
  | unreferencedFragment kind idle =>
    refine ⟨fun n hn => ?_, by simp, List.forall_mem_cons.2 ⟨by simp, houter⟩⟩
    rcases List.mem_cons.1 hn with hn | hn
    · cases hn
    · exact hchain n hn
  | fragmentClose waiting outer kind inner =>
    rw [inner, List.forall_mem_cons] at houter
    exact ⟨fun n hn => hchain n (Chain.mem_of_mem_parent hn), houter.1, houter.2⟩
  | targetedLink caption name kind fresh => exact ⟨hchain, hwaiting, houter⟩
  | autoLink caption kind =>
    refine ⟨fun n hn => Nat.lt_succ_of_lt (hchain n hn), fun n hn => ?_,
      fun ns hns n hn => Nat.lt_succ_of_lt (houter ns hns n hn)⟩
    rcases List.mem_append.1 hn with hn | hn
    · exact Nat.lt_succ_of_lt (hwaiting n hn)
    · rw [List.mem_singleton.1 hn]
      exact Nat.lt_succ_self _
  | text kind => exact ⟨hchain, hwaiting, houter⟩

end Resolution

end Reveal
