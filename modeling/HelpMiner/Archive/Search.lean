import HelpMiner.Archive.Version
import HelpMiner.Config.Paths
import HelpMiner.Environment

/-! The search for the archive, and the places where it is searched for. -/
namespace HelpMiner.Archive

/-- The roots of installations: the values of the variables that have one, each once, ascending. -/
def installRoots (c : Config) (lookup : String → Option String) : List String :=
  let values := (c.installVars.filterMap lookup).filter (!·.isEmpty)
  (SortedTable.ofList (values.map fun v => (v, ()))).keys

/-- The places to search: under each root of an installation; without any, the search paths and
    the data directory. -/
def roots (c : Config) (lookup : String → Option String) : List Path :=
  match installRoots c lookup with
  | [] =>
    let places := c.searchRoots
    if places.any c.dataDir.same then places else places ++ [c.dataDir]
  | installs => installs.map fun root => Path.join ⟨root⟩ ⟨c.vendorDir⟩

/-- Whether the file of a path has a name, up to letter case. -/
def hasName (name : String) (p : Path) : Bool :=
  Text.sameLetters name.toList ((p.fileName?.getD p.text).toList)

/-- The files at or under a path that have a name, up to letter case. -/
def findIn (t : FileTree) (root : Path) (name : String) : List Path :=
  (t.filesUnder root).filter (hasName name)

/-- The newest archive in the first of the places that has one. -/
def search (t : FileTree) (name : String) : List Path → Option Path
  | [] => none
  | root :: rest =>
    match newest? (findIn t root name) with
    | some p => some p
    | none => search t name rest

/-- The archive to read: the one that is set, or else the one that is found. -/
def locate (env : Environment) (c : Config) : Action Path := do
  match c.helpPath? with
  | some p => if (← get).isFile p then return p else throw (.helpFileNotFound p.text [p])
  | none =>
    let places := roots c env.valueOf?
    match search (← get) c.helpFileName places with
    | some p => return p
    | none => throw (.helpFileNotFound c.helpFileName places)

end HelpMiner.Archive
