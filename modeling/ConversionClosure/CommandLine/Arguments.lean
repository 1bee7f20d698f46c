/-
Arguments of a command.

The first argument names a command.  Options and paths follow in any order; an option that
takes a value takes the next argument or what is attached to it, and the last of its values
counts.  After two hyphens everything is a path.  Arguments that do not fit are refused as a
whole.
-/
import ConversionClosure.Configuration

namespace ConversionClosure

/-- What can be asked for: to synthesize conversions, or to show the graph of declared ones. -/
inductive Command
  | synth
  | graph
deriving DecidableEq, Repr

/-- What a command is given. -/
structure Options where
  paths : List Path := []
  output : Option Path := none
  report : Option Path := none
  overrides : Overrides := {}
  language : Option String := none
  root : Path := {}
  config : Option Path := none
  explain : Bool := false
  check : Bool := false
deriving DecidableEq, Repr

/-- How an option changes what a command is given: with a value, or by being there. -/
inductive OptionKind
  | valued (set : String → Options → Options)
  | flag (set : Options → Options)

namespace Command

/-- The command of a name. -/
def named? (name : String) : Option Command :=
  [("synth", synth), ("graph", graph)].lookup name

/-- The options that every command has. -/
def sharedOptions : List (String × OptionKind) :=
  [("--construct-name",
      .valued fun v o => { o with overrides := { o.overrides with traitName := some v } }),
    ("--language", .valued fun v o => { o with language := some v }),
    ("--root", .valued fun v o => { o with root := .ofText v }),
    ("--config", .valued fun v o => { o with config := some (.ofText v) })]

/-- The options of the command that synthesizes. -/
def synthOptions : List (String × OptionKind) :=
  [("--output", .valued fun v o => { o with output := some (.ofText v) }),
    ("-o", .valued fun v o => { o with output := some (.ofText v) }),
    ("--json-report", .valued fun v o => { o with report := some (.ofText v) }),
    ("--trait-path",
      .valued fun v o => { o with overrides := { o.overrides with traitPath := some v } }),
    ("--header", .valued fun v o => { o with overrides := { o.overrides with header := some v } }),
    ("--no-prelude", .flag fun o => { o with overrides := { o.overrides with noPrelude := true } }),
    ("--explain", .flag fun o => { o with explain := true }),
    ("--check", .flag fun o => { o with check := true })]

/-- The options of a command. -/
def options : Command → List (String × OptionKind)
  | synth => sharedOptions ++ synthOptions
  | graph => sharedOptions

end Command

namespace Arguments

/-- An argument that is an option and no path: it starts with a hyphen and is more than that. -/
def isOption (arg : String) : Bool :=
  match arg.toList with
  | '-' :: _ :: _ => true
  | _ => false

/-- A long option and the value after its first equals sign. -/
def splitLong (cs : List Char) : String × Option String :=
  let name := cs.takeWhile (· != '=')
  (String.ofList name,
    if name.length = cs.length then none else some (String.ofList (cs.drop (name.length + 1))))

/-- The name of an option and the value attached to it: after an equals sign if the option is
long, and right after its letter if it is short. -/
def split (arg : String) : String × Option String :=
  match arg.toList with
  | '-' :: '-' :: cs => splitLong ('-' :: '-' :: cs)
  | '-' :: c :: cs =>
    (String.ofList ['-', c], if cs.isEmpty then none else some (String.ofList cs))
  | _ => (arg, none)

/-- What the arguments of a command change in what it is given. -/
def readFrom (c : Command) : List String → Options → Option Options
  | [], o => some o
  | arg :: rest, o =>
    if arg = "--" then some { o with paths := o.paths ++ rest.map Path.ofText }
    else if isOption arg then
      let (name, attached) := split arg
      match c.options.lookup name, attached, rest with
      | some (.valued set), some value, rest => readFrom c rest (set value o)
      | some (.valued set), none, value :: rest => readFrom c rest (set value o)
      | some (.flag set), none, rest => readFrom c rest (set o)
      | _, _, _ => none
    else readFrom c rest { o with paths := o.paths ++ [.ofText arg] }

/-- The options fit together: there is a path, and a check has an output to look at. -/
def areComplete (o : Options) : Bool := !o.paths.isEmpty && (!o.check || o.output.isSome)

/-- The command in some arguments, and what it is given. -/
def readCommand : List String → Option (Command × Options)
  | [] => none
  | name :: args => do
    let c ← Command.named? name
    let o ← readFrom c args {}
    if areComplete o then some (c, o) else none

/-- The command in all arguments, before which two hyphens may stand. -/
def read : List String → Option (Command × Options)
  | "--" :: args => readCommand args
  | args => readCommand args

end Arguments

end ConversionClosure
