import Reveal.Ident.Describe
/-!
# Nesting chains

The chain of an event holds the identifiers of the paragraph and the fragments around it. A chain
is built from the outside in and shares its outer part with the chains it was built from. Each link
remembers its depth, so comparing the depth of two chains takes one step.

Links can be numbered. A link that takes the place of another one with the same identifier is then
known as a new one, though the two chains are equal.
-/
namespace Reveal

/-- The links of a chain, each with the links around it. -/
inductive Links where
  | none
  | link (outer : Links) (id : Ident) (depth number : Nat)
  deriving Repr

namespace Links

def depth : Links → Nat
  | none => 0
  | link _ _ depth _ => depth

/-- Each link lies one deeper than the links around it. -/
def Counted : Links → Prop
  | none => True
  | link outer _ depth _ => depth = outer.depth + 1 ∧ outer.Counted

/-- The number of the innermost link. -/
def number : Links → Nat
  | none => 0
  | link _ _ _ number => number

def outer : Links → Links
  | none => none
  | link outer _ _ _ => outer

def innermost? : Links → Option Ident
  | none => .none
  | link _ id _ _ => some id

/-- The identifiers, innermost first. -/
def ids : Links → List Ident
  | none => []
  | link outer id _ _ => id :: outer.ids

def contains : Links → Ident → Bool
  | none, _ => false
  | link outer id _ _, x => id == x || outer.contains x

/-- Compares the identifiers link by link, innermost first. -/
def sameIds : Links → Links → Bool
  | none, none => true
  | link a x _ _, link b y _ _ => x == y && sameIds a b
  | _, _ => false

theorem sameIds_iff {a b : Links} : a.sameIds b = true ↔ a.ids = b.ids := by
  induction a generalizing b with
  | none => cases b <;> simp [sameIds, ids]
  | link a x _ _ ih => cases b <;> simp [sameIds, ids, ih]

theorem Counted.outer {l : Links} (h : l.Counted) : l.outer.Counted := by
  cases l with
  | none => trivial
  | link => exact h.2

end Links

structure Chain where
  links : Links
  counted : links.Counted
  deriving Repr

namespace Chain

def empty : Chain := ⟨.none, trivial⟩

def depth (c : Chain) : Nat :=
  c.links.depth

/-- The number of the innermost link. -/
def number (c : Chain) : Nat :=
  c.links.number

/-- The chain one step further in. -/
def push (c : Chain) (id : Ident) (number : Nat := 0) : Chain :=
  ⟨.link c.links id (c.depth + 1) number, rfl, c.counted⟩

/-- The chain one step further out. The empty chain stays as it is. -/
def parent (c : Chain) : Chain :=
  ⟨c.links.outer, c.counted.outer⟩

def innermost? (c : Chain) : Option Ident :=
  c.links.innermost?

def isEmpty (c : Chain) : Bool :=
  c.innermost?.isNone

/-- The identifiers, innermost first. -/
def outward (c : Chain) : List Ident :=
  c.links.ids

/-- The identifiers, outermost first. -/
def toList (c : Chain) : List Ident :=
  c.outward.reverse

/-- The chain of the given identifiers, outermost first. -/
def ofList (ids : List Ident) : Chain :=
  ids.foldl (fun c id => c.push id) empty

def contains (c : Chain) (id : Ident) : Bool :=
  c.links.contains id

/-- Compares the identifiers. Two chains that end in one and the same link are equal and chains of
different depth differ, which is seen at once. -/
def beq (a b : Chain) : Bool :=
  withPtrEq a.links b.links (fun _ => a.depth == b.depth && a.links.sameIds b.links) fun h => by
    simp [depth, h, Links.sameIds_iff]

instance : BEq Chain := ⟨beq⟩

/-- Whether two chains are equal and end in the same link. -/
def isSame (a b : Chain) : Bool :=
  a.number == b.number && a == b

def describe (c : Chain) : String :=
  "[" ++ String.intercalate ", " (c.toList.map Ident.describe) ++ "]"

/-! ## Chains as lists -/

@[elab_as_elim, induction_eliminator]
theorem induction {motive : Chain → Prop} (empty : motive empty)
    (push : ∀ c id number, motive c → motive (c.push id number)) (c : Chain) : motive c := by
  obtain ⟨links, counted⟩ := c
  induction links with
  | none => exact empty
  | link outer id depth number ih =>
    obtain ⟨rfl, h⟩ := counted
    exact push ⟨outer, h⟩ id number (ih h)

@[elab_as_elim, cases_eliminator]
theorem cases {motive : Chain → Prop} (empty : motive empty)
    (push : ∀ c id number, motive (push c id number)) (c : Chain) : motive c := by
  induction c with
  | empty => exact empty
  | push c id number _ => exact push c id number

@[simp] theorem outward_empty : empty.outward = [] := rfl

@[simp] theorem outward_push (c : Chain) (id : Ident) (number : Nat) :
    (c.push id number).outward = id :: c.outward := rfl

@[simp] theorem toList_empty : empty.toList = [] := rfl

@[simp] theorem toList_push (c : Chain) (id : Ident) (number : Nat) :
    (c.push id number).toList = c.toList ++ [id] := by
  simp [toList]

@[simp] theorem mem_toList {c : Chain} {id : Ident} : id ∈ c.toList ↔ id ∈ c.outward :=
  List.mem_reverse

@[simp] theorem parent_empty : empty.parent = empty := rfl

@[simp] theorem parent_push (c : Chain) (id : Ident) (number : Nat) :
    (c.push id number).parent = c := rfl

@[simp] theorem depth_empty : empty.depth = 0 := rfl

@[simp] theorem depth_push (c : Chain) (id : Ident) (number : Nat) :
    (c.push id number).depth = c.depth + 1 := rfl

theorem depth_parent (c : Chain) : c.parent.depth = c.depth - 1 := by
  cases c <;> rfl

theorem outward_parent (c : Chain) : c.parent.outward = c.outward.tail := by
  cases c <;> rfl

theorem toList_parent (c : Chain) : c.parent.toList = c.toList.dropLast := by
  rw [toList, outward_parent, toList, List.dropLast_reverse]

theorem mem_of_mem_parent {c : Chain} {id : Ident} (h : id ∈ c.parent.outward) : id ∈ c.outward := by
  rw [outward_parent] at h
  exact List.mem_of_mem_tail h

theorem depth_eq_length (c : Chain) : c.depth = c.outward.length := by
  induction c with
  | empty => rfl
  | push c id number ih => simp [ih]

theorem innermost?_eq_head? (c : Chain) : c.innermost? = c.outward.head? := by
  cases c <;> rfl

theorem beq_iff {a b : Chain} : (a == b) = true ↔ a.outward = b.outward := by
  show (a.depth == b.depth && a.links.sameIds b.links) = true ↔ _
  rw [Bool.and_eq_true, beq_iff_eq, Links.sameIds_iff, depth_eq_length, depth_eq_length]
  exact ⟨fun h => h.2, fun h => ⟨congrArg List.length h, h⟩⟩

theorem outward_eq_of_isSame {a b : Chain} (h : a.isSame b = true) : a.outward = b.outward := by
  rw [isSame, Bool.and_eq_true] at h
  exact beq_iff.1 h.2

end Chain

end Reveal
