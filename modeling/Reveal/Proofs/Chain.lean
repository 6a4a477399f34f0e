import Mathlib.Data.List.Basic
import Reveal.Chain
/-!
# Chains stand for lists

Chains are made from other chains and go on to share their links with them. Nothing of that is to be
seen: whatever is made in whatever order, each chain gives the answers that the list of its identifiers
gives (`Mirrors`), and making one more leaves those that are there as they were. The steps on chains
are matched by steps on lists one by one (`Making.map_chain?`), and so is a whole run (`map_makeAll`).
-/
namespace Reveal

namespace Chain

variable {c : Chain} {id : Ident}

theorem toList_foldl_push (c : Chain) (ids : List Ident) :
    (ids.foldl (fun c id => c.push id) c).toList = c.toList ++ ids := by
  induction ids generalizing c with
  | nil => simp
  | cons id ids ih => simp [ih]

@[simp] theorem toList_ofList (ids : List Ident) : (ofList ids).toList = ids :=
  toList_foldl_push empty ids

theorem beq_iff_toList_eq {a b : Chain} : (a == b) = true ↔ a.toList = b.toList := by
  rw [beq_iff, toList, toList, List.reverse_inj]

theorem contains_iff : c.contains id = true ↔ id ∈ c.toList := by
  rw [mem_toList]
  induction c with
  | empty =>
    have hempty : empty.contains id = false := rfl
    simp [hempty]
  | push c x number ih =>
    have hpush : (c.push x number).contains id = (x == id || c.contains id) := rfl
    rw [hpush, outward_push, Bool.or_eq_true, beq_iff_eq, ih, List.mem_cons, eq_comm]

/-- The chain gives the answers that a list of identifiers, outermost first, gives. -/
structure Mirrors (c : Chain) (ids : List Ident) : Prop where
  toList : c.toList = ids
  outward : c.outward = ids.reverse
  depth : c.depth = ids.length
  innermost : c.innermost? = ids.getLast?
  isEmpty : c.isEmpty = ids.isEmpty
  contains : ∀ id, c.contains id = true ↔ id ∈ ids
  push : ∀ id number, (c.push id number).toList = ids ++ [id]
  parent : c.parent.toList = ids.dropLast
  ofList : (ofList ids == c) = true

theorem mirrors_toList (c : Chain) : c.Mirrors c.toList where
  toList := rfl
  outward := (List.reverse_reverse _).symm
  depth := by rw [depth_eq_length, toList, List.length_reverse]
  innermost := by rw [innermost?_eq_head?, toList, List.getLast?_reverse]
  isEmpty := by cases c <;> simp [isEmpty, innermost?_eq_head?]
  contains _ := contains_iff
  push := toList_push c
  parent := toList_parent c
  ofList := beq_iff_toList_eq.2 (toList_ofList _)

end Chain

/-! ## Making chains from chains -/

/-- A step that makes one more chain, from the one at a place among those there are or from identifiers. -/
inductive Making where
  | push (place : Nat) (id : Ident) (number : Nat)
  | parent (place : Nat)
  | collect (ids : List Ident)

namespace Making

/-- The chain that a step makes. At a place where there is no chain it makes none. -/
def chain? (chains : List Chain) : Making → Option Chain
  | push place id number => chains[place]?.map fun c => c.push id number
  | parent place => chains[place]?.map Chain.parent
  | collect ids => some (.ofList ids)

/-- The list that a step makes from lists. -/
def list? (lists : List (List Ident)) : Making → Option (List Ident)
  | push place id _ => lists[place]?.map fun ids => ids ++ [id]
  | parent place => lists[place]?.map List.dropLast
  | collect ids => some ids

theorem map_chain? (chains : List Chain) (step : Making) :
    (step.chain? chains).map Chain.toList = step.list? (chains.map Chain.toList) := by
  cases step with
  | push place id number => simp [chain?, list?, Function.comp_def]
  | parent place => simp [chain?, list?, Function.comp_def, Chain.toList_parent]
  | collect ids => simp [chain?, list?]

end Making

/-- Puts what each step makes behind what there is. -/
def makeAll {α : Type} (make? : List α → Making → Option α) (made : List α) (steps : List Making) :
    Option (List α) :=
  steps.foldlM (fun made step => (make? made step).map fun x => made ++ [x]) made

variable {α : Type} {make? : List α → Making → Option α} {made made' : List α} {step : Making}
  {steps : List Making}

theorem makeAll_cons : makeAll make? made (step :: steps) =
    (make? made step).bind fun x => makeAll make? (made ++ [x]) steps := by
  rw [makeAll, List.foldlM_cons, Option.bind_eq_bind, Option.bind_map]
  rfl

/-- What is there stays there. -/
theorem prefix_makeAll (h : makeAll make? made steps = some made') : made <+: made' := by
  induction steps generalizing made with
  | nil =>
    cases h
    exact List.prefix_rfl
  | cons step steps ih =>
    rw [makeAll_cons] at h
    obtain ⟨x, -, hrest⟩ := Option.bind_eq_some_iff.1 h
    exact (List.prefix_append made [x]).trans (ih hrest)

/-- A run on chains is a run on their lists. -/
theorem map_makeAll (chains : List Chain) (steps : List Making) :
    (makeAll Making.chain? chains steps).map (List.map Chain.toList) =
      makeAll Making.list? (chains.map Chain.toList) steps := by
  induction steps generalizing chains with
  | nil => rfl
  | cons step steps ih =>
    rw [makeAll_cons, makeAll_cons, ← Making.map_chain?]
    cases step.chain? chains with
    | none => rfl
    | some c => simpa using ih (chains ++ [c])

/-- However chains are made from one another, they are made as the lists of their identifiers are. Those
that were there stay as they were, and each chain gives the answers of its list: two of them are equal
exactly if their lists are. -/
theorem chains_refine_lists (chains : List Chain) (steps : List Making) :
    (makeAll Making.chain? chains steps).map (List.map Chain.toList) =
      makeAll Making.list? (chains.map Chain.toList) steps ∧
    ∀ made, makeAll Making.chain? chains steps = some made →
      chains <+: made ∧ (∀ c ∈ made, c.Mirrors c.toList) ∧
        ∀ a ∈ made, ∀ b ∈ made, (a == b) = true ↔ a.toList = b.toList :=
  ⟨map_makeAll chains steps, fun _ hmade =>
    ⟨prefix_makeAll hmade, fun c _ => c.mirrors_toList, fun _ _ _ _ => Chain.beq_iff_toList_eq⟩⟩

/-- Two chains are made from one and share it, and the first of them is collected anew. -/
theorem chains_refine_lists_shared :
    ∃ made, makeAll Making.chain? [.empty] [.collect [.named "a"], .push 1 (.auto 0) 1, .push 1 (.auto 1) 2,
        .parent 2, .collect [.named "a", .auto 0]] = some made ∧
      made.map Chain.toList = [[], [.named "a"], [.named "a", .auto 0], [.named "a", .auto 1], [.named "a"],
        [.named "a", .auto 0]] ∧
      [.empty] <+: made ∧ (∀ c ∈ made, c.Mirrors c.toList) ∧
        ∀ a ∈ made, ∀ b ∈ made, (a == b) = true ↔ a.toList = b.toList := by
  obtain ⟨-, hmade⟩ := chains_refine_lists [.empty] [.collect [.named "a"], .push 1 (.auto 0) 1,
    .push 1 (.auto 1) 2, .parent 2, .collect [.named "a", .auto 0]]
  exact ⟨_, rfl, rfl, hmade _ rfl⟩

end Reveal
