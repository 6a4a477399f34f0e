import Reveal.Compiler
/-!
# What a compiler tells while it works

The log of a compilation. Each stage adds what it did; a fault ends the log.
-/
namespace Reveal.Journal

inductive Level where
  | debug
  | trace
  deriving DecidableEq, Repr

def Level.text : Level → String
  | debug => "DEBUG"
  | trace => "TRACE"

/-- The part of the work that an entry tells of. -/
inductive Stage where
  | tokens
  | resolution
  | cascade
  | output
  deriving DecidableEq, Repr

/-- The name under which a stage speaks. -/
def Stage.target : Stage → String
  | tokens => "russiandoll::lexing"
  | resolution => "russiandoll::parsing::resolver"
  | cascade => "russiandoll::closure"
  | output => "russiandoll::pipeline::executor"

structure Entry where
  level : Level
  stage : Stage
  message : String
  deriving DecidableEq, Repr

/-- What is told of a resolved event. -/
def ofEvent (e : Event) : Option Entry :=
  let tell (text : String) := some (⟨.trace, .resolution, e.position.text ++ ": " ++ text⟩ : Entry)
  match e.kind with
  | .paragraphOpen id => tell ("paragraph " ++ id.describe)
  | .fragmentOpen id => tell ("fragment open " ++ id.describe)
  | .fragmentClose => tell "fragment close"
  | .revealLink id _ _ _ => tell ("reveal link to " ++ id.describe)
  | .paragraphClose | .text _ _ => none

/-- What is told of links and their descendants. -/
def ofCascade (events : List Event) : List Entry :=
  let index := Cascade.Index.ofEvents events
  let links := events.filterMap Event.opens?
  let found := links.map fun id =>
    ⟨.trace, .cascade,
      "descendants of " ++ id.describe ++ ": " ++ toString (Cascade.walk index id).length ++ " ids"⟩
  found ++ [⟨.debug, .cascade,
    "computed descendants for " ++ toString links.length ++ " reveal links over "
      ++ toString index.size ++ " indexed ids"⟩]

/-- What is told of resolved events, up to the writing. -/
def ofEvents (options : Options) (events : List Event) : List Entry :=
  ⟨.debug, .resolution, "resolved " ++ toString events.length ++ " events"⟩ ::
    match Cascade.recursiveFault? events with
    | some _ => []
    | none =>
      ofCascade events ++ [⟨.debug, .output, "compiled " ++ toString events.length ++ " events to "
        ++ options.format ++ " (debug: " ++ toString options.debug ++ ")"⟩]

/-- What is told of reading a source. -/
def ofSource (options : Options) (source : String) : List Entry :=
  let tokens := tokenize source
  let lines := LineMap.ofString source
  let (r, fault) := Resolution.start.run lines tokens
  -- The paragraph every source starts in is not told.
  let steps := (r.events.drop 1).filterMap ofEvent
  let rest := match fault, r.finish lines.stop with
    | none, .ok r => ofEvents options r.events
    | _, _ => []
  ⟨.debug, .tokens,
    "tokenized " ++ toString lines.size ++ " bytes into " ++ toString tokens.length ++ " tokens"⟩ ::
      (steps ++ rest)

/-- The log of a compilation. -/
def ofCompile (c : Compiler) (options : Options) (source : String) : List Entry :=
  if c.formats.has options.format then ofSource options source else []

end Reveal.Journal
