import HelpMiner.Build.Basic
import HelpMiner.Command.Document
import HelpMiner.CommandLine.Console
import HelpMiner.CommandLine.Request
import HelpMiner.Config.Document
import HelpMiner.Render.Entry
import HelpMiner.Stub.File

/-! The commands of the program. -/
namespace HelpMiner.CommandLine

open Document (Value)

/-- The settings of a run: those of the file, with those of the command line in their place. -/
def Globals.settings (g : Globals) : Console Config := do
  let c ← match g.config with
    | some p => Console.act (Config.load p)
    | none => pure .default
  return { c with
    dataDir := g.dataDir.getD c.dataDir
    format := g.format.getD c.format }

/-- Settings with those of a build. The archive is seen from the current directory. -/
def BuildOptions.settings (o : BuildOptions) (dir : Path) (c : Config) : Config :=
  { c with
    helpFile := (o.helpFile.map (Path.absolute dir)).or c.helpFile
    layout := o.layout.getD c.layout
    distributable := o.distributable || c.distributable }

def buildSummary (r : Build.Report) : List String :=
  ["Build summary:",
    "  Topics indexed: " ++ toString r.topicsIndexed,
    "  Topics kept: " ++ toString r.topicsKept,
    "  Bypassed names: " ++ toString r.bypassed.length] ++
    r.kindCounts.toList.map (fun e => "  " ++ e.1.name ++ ": " ++ toString e.2) ++
    ["  Overrides applied: " ++ toString r.overridesApplied,
      "  Decompiler: " ++ r.decompile.text] ++
    (if r.warnings.isEmpty then [] else ["  Warnings: " ++ toString r.warnings.length]) ++
    ["", "Wrote " ++ toString r.artifacts.length ++ " artifact(s):"] ++
    r.artifacts.map fun p => "  " ++ p.text

def stubSummary (c : Config) (s : Stub.Summary) : List String :=
  ["Generated " ++ toString s.written.length ++ " stub(s) in " ++ c.stubsPath.text ++ " (" ++
      toString s.skipped.length ++ " skipped)."] ++
    if s.removed.isEmpty then [] else ["Removed " ++ toString s.removed.length ++ " stale stub(s)."]

/-- Build, and tell of it. The answer has the settings of the build with its result. -/
def build (env : Environment) (c : Config) (o : BuildOptions) : Console (Config × Build) := do
  let t ← Console.files
  let c := o.settings t.currentPath c
  let b ← Console.act (Build.run env c)
  (buildSummary b.report).forM Console.printLine
  return (c, b)

def writeStubs (c : Config) (s : Schema) : Console Unit := do
  let summary ← Console.act (Stub.writeAll c s)
  (stubSummary c summary).forM Console.printLine

def topicValue (name : String) (t : Topic) (i : Signature.Inference) : Value := .map [
  ("name", .text name),
  ("keep", .bool t.keep),
  ("documentation", Documented.toValue t.doc),
  ("entry", Documented.toValue i.entry),
  ("low_confidence", .bool i.isUncertain),
  ("dropped_lines", .texts i.dropped)]

def parseTopic (c : Config) (input : Path) (name : Option String) : Console Unit := do
  let t ← Console.files
  match t.text input with
  | .error why => throw (.unreadable input why)
  | .ok page =>
    match name.or input.fileStem? with
    | none => throw .noName
    | some name =>
      let topic := Topic.parse page
      let i := Signature.infer name topic.doc c.nameLimit
      Console.print (c.format.renderValue (topicValue name topic i))

def validate (c : Config) (path : Path) : Console Unit := do
  let s ← Console.act (Schema.load path)
  match Schema.check s c.nameLimit with
  | [] => Console.printLine (path.text ++ ": " ++ toString s.size ++ " command(s), no issues.")
  | issues =>
    issues.forM fun i => Console.printLine ("  " ++ i.message)
    throw (.issues issues.length path)

def describe (path : Path) (name : String) (types : Rendering) : Console Unit := do
  let s ← Console.act (Schema.load path)
  match s.get? name with
  | none => throw (.noCommand name path)
  | some e =>
    match Render.entry name e types with
    | .ok text => Console.print text
    | .error type => throw (.error (.noHostType type))

def Request.perform (env : Environment) (r : Request) : Console Unit := do
  let c ← r.globals.settings
  match r.command with
  | .build o => discard (build env c o)
  | .stubs => writeStubs c (← Console.act (Schema.loadBuilt c))
  | .run o =>
    let (c, b) ← build env c o
    writeStubs c b.schema
  | .parseTopic input name => parseTopic c input name
  | .validate schema => validate c (schema.getD c.apiPath)
  | .describe schema name types => describe (schema.getD c.apiPath) name types

/-- What a run of the program leaves: its exit code, what it printed, and why it failed. -/
structure Reply where
  code : Nat
  printed : String
  failure : Option Failure
  deriving DecidableEq, Repr

def versionLine : String := "helpapi 0.1.0\n"

/-- The variables that a run may ask for. -/
def installVars (arguments : List String) (t : FileTree) : List String :=
  match Request.ofArguments arguments with
  | .error _ => []
  | .ok request =>
    match (request.globals.settings.run.run "").run t with
    | ((.ok c, _), _) => c.installVars
    | ((.error _, _), _) => []

def run (env : Environment) (arguments : List String) (t : FileTree) : Reply × FileTree :=
  match Request.ofArguments arguments with
  | .error .usage => (⟨2, "", none⟩, t)
  | .error .help => (⟨0, "", none⟩, t)
  | .error .version => (⟨0, versionLine, none⟩, t)
  | .ok request =>
    match ((request.perform env).run.run "").run t with
    | ((.ok _, printed), t) => (⟨0, printed, none⟩, t)
    | ((.error e, printed), t) => (⟨1, printed, some e⟩, t)

end HelpMiner.CommandLine
