import Reveal.Format
import Reveal.Profile
/-!
# Compiling

A compiler reads a source and writes it in the format that the options name.
-/
namespace Reveal

namespace Compiler

/-- Why a source could not be compiled. -/
inductive Fault where
  | source (fault : Reveal.Fault)
  | format (fault : Format.Fault)
  /-- The options could not be read. -/
  | options (reason : String)
  | profileNotFound (name : String)
  deriving DecidableEq, Repr

def Fault.message : Fault → String
  | source fault => fault.message
  | format fault => fault.message
  | options reason => "Invalid compile options: " ++ reason
  | profileNotFound name => "Profile '" ++ name ++ "' not found"

/-- The message of the fault behind this one. -/
def Fault.cause? (f : Fault) : Option String :=
  match f with
  | profileNotFound _ => none
  | _ => some f.message

end Compiler

structure Compiler where
  formats : Formats
  profiles : Profiles

namespace Compiler

def standard : Compiler := ⟨.standard, .standard⟩

/-- Compiles a source. An unknown format is told before any fault of the source. -/
def compile (c : Compiler) (options : Options) (source : String) : Except Fault String :=
  if c.formats.has options.format then
    match parse source with
    | .error fault => .error (.source fault)
    | .ok d => (Formats.write c.formats options.format options.debug d).mapError .format
  else .error (.format (.notFound options.format))

def compileBytes (c : Compiler) (options : Options) (bytes : List UInt8) : Except Fault String :=
  match decode bytes with
  | .error fault => .error (.source fault)
  | .ok source => c.compile options source

/-- Compiles a source with the options of a profile. -/
def compileProfile (c : Compiler) (profile source : String) : Except Fault String :=
  match c.profiles.get? profile with
  | some profile => c.compile profile.options source
  | none => .error (.profileNotFound profile)

/-- Compiles a source with options given in YAML. -/
def compileYaml (c : Compiler) (yaml source : String) : Except Fault String :=
  match Options.ofYaml yaml with
  | .ok options => c.compile options source
  | .error problem => .error (.options problem.message)

end Compiler

end Reveal
