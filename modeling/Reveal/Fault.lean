import Reveal.Ident.Basic
import Reveal.Position
/-!
# Faults of a source

Why a source is refused, and where.
-/
namespace Reveal

inductive Fault where
  /-- The source is not UTF-8. -/
  | invalidInput (reason : String) (position : Position)
  | paragraphInFragment (position : Position)
  | unmatchedClose (position : Position)
  /-- Two links have the same target. `first` is where the earlier one stands. -/
  | duplicateTarget (target : String) (first position : Position)
  | unbalanced (missing : Nat) (position : Position)
  /-- A link stands inside what it opens. -/
  | recursiveLink (target : String) (position : Position)
  deriving DecidableEq, Repr

namespace Fault

def position : Fault → Position
  | invalidInput _ p | paragraphInFragment p | unmatchedClose p | duplicateTarget _ _ p
  | unbalanced _ p | recursiveLink _ p => p

/-- What is wrong, without the place. -/
def reason : Fault → String
  | invalidInput reason _ => "Source must be valid UTF-8 text: " ++ reason
  | paragraphInFragment _ => "Unexpected paragraph in fragment"
  | unmatchedClose _ => "Unexpected fragment closing"
  | duplicateTarget target first _ =>
    "Fragment \"" ++ target ++ "\" was already opened at " ++ first.text
  | unbalanced missing _ =>
    "Missing " ++ toString missing ++ " closing curly bracket" ++ (if missing = 1 then "" else "s")
  | recursiveLink target _ => "Recursive fragment link \"" ++ target ++ "\""

def message (f : Fault) : String :=
  "Parse error at " ++ f.position.text ++ ": " ++ f.reason

/-- Whether a result comes out and has a property is decided by looking at what comes out. -/
instance decidableExistsOk {α : Type} {p : α → Prop} [DecidablePred p] (outcome : Except Fault α) :
    Decidable (∃ a, outcome = .ok a ∧ p a) :=
  match outcome with
  | .ok a => decidable_of_iff (p a) (by simp)
  | .error _ => isFalse (by simp)

end Fault

end Reveal
