/-
A whole pass: from units to the report.

The stages follow each other under one deadline and one budget: the catalog of declared
types, the graph of declared conversions, its closure, and the text of what the closure adds.
Loading the units is a pass of its own before, with a deadline and a budget of its own.  Each
deadline has a clock; no time passes where none is given.
-/
import ConversionClosure.Language
import ConversionClosure.Settings

namespace ConversionClosure

/-- What a pass finds and makes. -/
structure Report where
  defined : Catalog
  graph : Graph
  edges : List Synthesized
  exclusions : List Exclusion
  dropped : List Dropped
  emission : Emission
  warnings : List String

namespace Report

/-- The generated text. -/
def output (r : Report) : String := r.emission.render

/-- A list of texts as a value. -/
def texts (ss : List String) : Value := .list (ss.map .text)

/-- The report as data. -/
def toValue (r : Report) : Value :=
  .table [
    ("defined_types", texts (r.defined.sorted.map fun d => d.reference.render)),
    ("direct_edges", .list (r.graph.sortedEdges.map fun e =>
      .table [("source", .text e.source.render), ("target", .text e.target.render)])),
    ("synthesized", .list (r.edges.map fun s =>
      .table [("source", .text s.source.render), ("target", .text s.target.render),
        ("via", .text s.via.render)])),
    ("exclusions", .list (r.exclusions.map fun e =>
      .table [("source", .text e.source.render), ("target", .text e.target.render),
        ("reason", .text e.reason.text),
        ("routes", .list (e.routes.map fun route => texts (route.map Reference.render)))])),
    ("dropped", .list (r.dropped.map fun d =>
      .table [("path", .text d.path.toText), ("source", .text d.source.render),
        ("target", .text d.target.render), ("reason", .text d.reason.text)])),
    ("warnings", texts r.warnings)]

/-- The warnings of a pass: what was skipped in each unit, and that nothing was synthesized. -/
def warningsOf (units : List SourceUnit) (edges : List Synthesized) : List String :=
  (units.flatMap fun unit =>
    unit.skipped.map fun note => unit.path.toText ++ ": skipped " ++ note) ++
    (if edges.isEmpty then ["No conversions qualified for synthesis."] else [])

end Report

namespace Pass

/-- Runs a computation under the deadline and a fresh budget of the settings, and gives the
budget after it as well. -/
def withBudget {α : Type} (settings : Settings) (stage : Stage) (x : Metered α)
    (clock : Clock := .still) : Except Fault (Except Fault α × Budget) := do
  let deadline ← Deadline.ofMilliseconds (.int settings.timeoutMs)
  let budget ← Budget.ofLimit (.int settings.workLimit)
  return x.runWith ⟨stage.text, ⟨deadline, clock⟩⟩ budget

/-- The stages of a pass. -/
def stages (settings : Settings) (units : List SourceUnit) : Metered Report := do
  let defined ← Metered.inStage Stage.catalog.text (Catalog.collect units)
  let registry ← Metered.inStage Stage.registry.text (Registry.build units settings.traitName)
  let closure ← Metered.inStage Stage.closure.text (Closure.synthesize registry.graph defined)
  let edges ← requireOrdered "build_transitivity.edges" Synthesized.key closure.edges
  let emission ← Metered.inStage Stage.emission.text (Emission.plan settings.style edges)
  return {
    defined
    graph := registry.graph
    edges
    exclusions := closure.exclusions
    dropped := registry.dropped
    emission
    warnings := Report.warningsOf units edges }

/-- The report on some units, and the budget after the pass. -/
def runMetered (settings : Settings) (units : List SourceUnit) (clock : Clock := .still) :
    Except Fault (Except Fault Report × Budget) :=
  withBudget settings .unscoped (stages settings units) clock

/-- The report on some units. -/
def run (settings : Settings) (units : List SourceUnit) (clock : Clock := .still) :
    Except Fault Report := do
  (← runMetered settings units clock).1

/-- The units of some files, and the budget after loading them. -/
def loadMetered (settings : Settings) (ls : Languages) (fs : FileSystem) (name : Option String)
    (paths : List Path) (clock : Clock := .still) :
    Except Fault (Except Fault (List SourceUnit) × Budget) :=
  withBudget settings .load (SourceUnit.loadAll ls fs name paths) clock

/-- The clocks of a pass over files: one while they are loaded, and one after that. -/
structure Clocks where
  loading : Clock := .still
  running : Clock := .still

/-- The report on some files.  All of them are loaded before anything else. -/
def runPaths (settings : Settings) (ls : Languages) (fs : FileSystem) (name : Option String)
    (paths : List Path) (clocks : Clocks := {}) : Except Fault Report := do
  let units ← (← loadMetered settings ls fs name paths clocks.loading).1
  run settings units clocks.running

end Pass

end ConversionClosure
