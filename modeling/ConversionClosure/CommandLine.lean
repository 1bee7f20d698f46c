/-
Commands.

A command sees the files and leaves files, two streams of text and an ending.  Files that
cannot be loaded and time-outs end a command with a message before anything is written; other
faults end it where they arise.

The command that synthesizes writes the report first and the generated text last.  When it
checks it writes no generated text, and compares what it would have written with what the
output holds, as a reader of the file sees it.

No clock is given to a command, so only its budget can end it before its time.
-/
import ConversionClosure.CommandLine.Arguments
import ConversionClosure.Pass

namespace ConversionClosure

/-- How a command ends: with a code, with its arguments refused, or with a fault. -/
inductive Ending
  | exit (code : Nat)
  | refused
  | failed (fault : Fault)
deriving DecidableEq, Repr

/-- What a command leaves behind. -/
structure Outcome where
  ending : Ending
  files : FileSystem
  out : String := ""
  err : String := ""
deriving DecidableEq, Repr

namespace Command

/-- The code of a success. -/
def success : Nat := 0

/-- The code of a check that finds the output out of date. -/
def stale : Nat := 1

/-- The code of an input that cannot be used. -/
def badInput : Nat := 2

/-- Lines, each with its line end. -/
def unlines (lines : List String) : String := String.join (lines.map (· ++ "\n"))

/-- The outcome when a pass has no report. -/
def refusal (fs : FileSystem) (fault : Fault) : Outcome :=
  match fault with
  | .unit _ _ | .timeout _ =>
    { ending := .exit badInput, files := fs, err := unlines ["error: " ++ fault.message] }
  | fault => { ending := .failed fault, files := fs }

/-- The report that a command is about.  Faults of the configuration end the command as they are,
and only faults of the pass can be refusals. -/
def report (fs : FileSystem) (o : Options) : Except Outcome Report :=
  match Configuration.resolve fs (Configuration.path o.root o.config) o.overrides with
  | .error fault => .error { ending := .failed fault, files := fs }
  | .ok settings =>
    (Pass.runPaths settings .builtIn fs o.language o.paths).mapError (refusal fs)

/-! ### Synthesizing -/

/-- The line of a route. -/
def routeLine (source : Reference) (route : List Reference) : String :=
  "  route " ++ " -> ".intercalate ((source :: route).map Reference.render)

/-- What was left out, and why. -/
def explanation (r : Report) : List String :=
  (r.dropped.map fun d => "dropped " ++ d.render) ++
    (r.exclusions.flatMap fun e =>
      ("excluded " ++ e.render) :: e.routes.map (routeLine e.source)) ++
    r.warnings.map ("warning: " ++ ·)

/-- The files with a text written to a path. -/
def save (fs : FileSystem) (p : Path) (text : String) : Except Fault FileSystem :=
  (fs.write p text).mapError (.file p)

/-- The files with the report written, if a path is given for it. -/
def saveReport (fs : FileSystem) (p : Option Path) (r : Report) : Except Fault FileSystem :=
  match p with
  | none => .ok fs
  | some p => save fs p (Json.writeReport 0 r.toValue ++ "\n")

/-- The text at a path, if there is something. -/
def current (fs : FileSystem) (p : Path) : Except Fault (Option String) :=
  if fs.pathExists p then
    match fs.read p with
    | .error cause => .error (.file p cause)
    | .ok bytes => ((Utf8.readText bytes).map some).mapError .undecodable
  else .ok none

/-- The outcome of a check. -/
def checked (fs : FileSystem) (p : Path) (r : Report) : Outcome :=
  match current fs p with
  | .error fault => { ending := .failed fault, files := fs }
  | .ok text =>
    if text = some r.output then { ending := .exit success, files := fs }
    else
      { ending := .exit stale, files := fs, err := unlines [p.toText ++ " is out of date"] }

/-- The outcome of writing the generated text. -/
def written (fs : FileSystem) (p : Path) (r : Report) : Outcome :=
  match save fs p r.output with
  | .error fault => { ending := .failed fault, files := fs }
  | .ok fs =>
    { ending := .exit success
      files := fs
      out := unlines ["Wrote " ++ toString r.edges.length ++ " conversion(s) to " ++ p.toText] }

/-- The outcome once the report is saved. -/
def delivered (fs : FileSystem) (o : Options) (r : Report) : Outcome :=
  match o.output with
  | none => { ending := .exit success, files := fs, out := r.output }
  | some p => if o.check then checked fs p r else written fs p r

/-- Synthesizes conversions. -/
def runSynth (fs : FileSystem) (o : Options) : Outcome :=
  match report fs o with
  | .error outcome => outcome
  | .ok r =>
    let explained := if o.explain then unlines (explanation r) else ""
    match saveReport fs o.report r with
    | .error fault => { ending := .failed fault, files := fs, err := explained }
    | .ok fs =>
      let outcome := delivered fs o r
      { outcome with err := explained ++ outcome.err }

/-! ### Showing the graph -/

/-- The declared types and conversions, a line each. -/
def graphLines (r : Report) : List String :=
  ["Defined types:"] ++ (r.defined.sorted.map fun d => "- " ++ d.reference.render) ++
    ["Direct conversions:"] ++
    r.graph.sortedEdges.map fun e => "- " ++ Edge.render e.source e.target

/-- Shows the graph. -/
def runGraph (fs : FileSystem) (o : Options) : Outcome :=
  match report fs o with
  | .error outcome => outcome
  | .ok r => { ending := .exit success, files := fs, out := unlines (graphLines r) }

/-- Runs a command. -/
def run (c : Command) (fs : FileSystem) (o : Options) : Outcome :=
  match c with
  | synth => runSynth fs o
  | graph => runGraph fs o

end Command

/-- Runs the command in some arguments. -/
def runCommandLine (fs : FileSystem) (args : List String) : Outcome :=
  match Arguments.read args with
  | none => { ending := .refused, files := fs }
  | some (c, o) => c.run fs o

end ConversionClosure
