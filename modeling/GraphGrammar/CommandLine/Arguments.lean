import GraphGrammar.Settings.Basic
import GraphGrammar.Text.Basic

/-!
Arguments of the program. They are read from the first to the last, and the first one that asks for the
version or for help, or that is wrong, decides. A value stands behind an equals sign or is the next
argument, which may then not look like an option. Only the verbosity may be given twice.
-/

namespace GraphGrammar.CommandLine

structure Arguments where
  overrides : Overrides := {}
  grammar : Option String := none
  graph : Option String := none
  config : Option String := none
  saveConfig : Bool := false
  verbosity : Nat := 0
deriving DecidableEq, Inhabited

inductive Refusal where
  | version
  | help
  | misuse
deriving DecidableEq

inductive ValueOption where
  | seed
  | steps
  | maxDepth
  | style
  | grammar
  | graph
  | format
  | config
deriving DecidableEq

namespace ValueOption

def all : List ValueOption := [seed, steps, maxDepth, style, grammar, graph, format, config]

def name : ValueOption → String
  | seed => "seed"
  | steps => "steps"
  | maxDepth => "max-depth"
  | style => "style"
  | grammar => "grammar"
  | graph => "graph"
  | format => "format"
  | config => "config"

def ofName? (s : String) : Option ValueOption := all.find? fun o => o.name == s

end ValueOption

/-- A depth: a numeral of either sign whose value is in the range of words of 32 bits. -/
def depth? (cs : List Char) : Option UInt32 := do
  let value ← match cs with
    | '-' :: cs => (Text.digits? cs).bind fun n => if n = 0 then some 0 else none
    | cs => Text.numeral? cs
  if value < UInt32.size then some (UInt32.ofNat value) else none

def path? (s : String) : Option String := if s.isEmpty then none else some s

def setOnce (old : Option α) (new : Option α) (set : Option α → Arguments) :
    Except Refusal Arguments :=
  match old, new with
  | none, some value => .ok (set (some value))
  | _, _ => .error .misuse

def Arguments.set (a : Arguments) (option : ValueOption) (value : String) :
    Except Refusal Arguments :=
  let o := a.overrides
  match option with
  | .seed => setOnce o.seed (Text.word? value.toList) fun seed =>
      { a with overrides := { o with seed } }
  | .steps => setOnce o.maxSteps (Text.word? value.toList) fun maxSteps =>
      { a with overrides := { o with maxSteps } }
  | .maxDepth => setOnce o.maxDepth (depth? value.toList) fun maxDepth =>
      { a with overrides := { o with maxDepth } }
  | .style => setOnce o.style (some value) fun style => { a with overrides := { o with style } }
  | .format => setOnce o.format (OutputFormat.ofName? value) fun format =>
      { a with overrides := { o with format } }
  | .grammar => setOnce a.grammar (path? value) fun grammar => { a with grammar }
  | .graph => setOnce a.graph (path? value) fun graph => { a with graph }
  | .config => setOnce a.config (path? value) fun config => { a with config }

inductive Shape where
  /-- Two hyphens, a name, and possibly a value behind an equals sign. -/
  | long (name : List Char) (value : Option (List Char))
  /-- A hyphen and letters. -/
  | short (letters : List Char)
  /-- Two hyphens alone, behind which no option is recognized. -/
  | separator
  | plain

def Shape.ofArgument (argument : String) : Shape :=
  match argument.toList with
  | ['-', '-'] => separator
  | '-' :: '-' :: rest =>
    match rest.dropWhile (· != '=') with
    | [] => long rest none
    | _ :: value => long (rest.takeWhile (· != '=')) (some value)
  | '-' :: c :: letters => short (c :: letters)
  | _ => plain

/-- Takes the letters behind a single hyphen. -/
def Arguments.takeLetters (a : Arguments) : List Char → Except Refusal Arguments
  | [] => .ok a
  | c :: rest =>
    if c = 'v' then takeLetters { a with verbosity := a.verbosity + 1 } rest
    else if c = 'V' then .error .version
    else if c = 'h' then .error .help
    else .error .misuse

def Arguments.takeFlag (a : Arguments) (name : String) : Except Refusal Arguments :=
  if name = "verbose" then .ok { a with verbosity := a.verbosity + 1 }
  else if name = "save-config" then
    if a.saveConfig then .error .misuse else .ok { a with saveConfig := true }
  else if name = "version" then .error .version
  else if name = "help" then .error .help
  else .error .misuse

def isValue (argument : String) : Bool :=
  match Shape.ofArgument argument with
  | .plain => true
  | _ => false

def Arguments.take (a : Arguments) : List String → Except Refusal Arguments
  | [] => .ok a
  | argument :: rest =>
    match Shape.ofArgument argument with
    | .separator => if rest.isEmpty then .ok a else .error .misuse
    | .plain => .error .misuse
    | .short letters => do (← a.takeLetters letters).take rest
    | .long name value =>
      match ValueOption.ofName? (String.ofList name), value with
      | some option, some value => do (← a.set option (String.ofList value)).take rest
      | some option, none =>
        match rest with
        | [] => .error .misuse
        | value :: rest =>
          if isValue value then do (← a.set option value).take rest else .error .misuse
      | none, none => do (← a.takeFlag (String.ofList name)).take rest
      | none, some _ => .error .misuse

def Arguments.parse (arguments : List String) : Except Refusal Arguments :=
  Arguments.take {} arguments

end GraphGrammar.CommandLine
