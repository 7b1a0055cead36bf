import HelpMiner.Command.Document
import HelpMiner.Config.Basic

/-! The files and directories of a run. -/
namespace HelpMiner

def allTopicsStem : String := "alldocs"

def Kind.renderingStem : Kind → String
  | .function => "allfuncts"
  | .subroutine => "allsubs"
  | .datastruct => "allstructs"
  | .unknown => "allunknowns"

namespace Config

/-- A path seen from the data directory, unless it is absolute. -/
def resolve (c : Config) (p : Path) : Path := if p.isAbsolute then p else c.dataDir.join p

def htmlPath (c : Config) : Path := c.resolve c.htmlDir

def stubsPath (c : Config) : Path := c.resolve c.stubDir

def overridePath (c : Config) : Path := c.resolve c.overrideFile

def helpPath? (c : Config) : Option Path := c.helpFile.map c.resolve

def searchRoots (c : Config) : List Path := c.searchPaths.map c.resolve

def dataFile (c : Config) (name : String) : Path := c.dataDir.join ⟨name⟩

def apiPath (c : Config) : Path := c.dataFile (c.apiStem ++ "." ++ c.format.name)

def rawApiPath (c : Config) : Path := c.dataFile (c.apiStem ++ "_no-override." ++ c.format.name)

def docPath (c : Config) : Path := c.dataFile (c.docStem ++ "." ++ c.format.name)

def renderingPath (c : Config) (stem : String) : Path := c.dataFile (stem ++ ".txt")

def reportPath (c : Config) : Path := c.dataFile "build-report.json"

def stubPath (c : Config) (command : String) : Path :=
  c.stubsPath.join ⟨command ++ "." ++ c.stubExtension⟩

end Config

/-- The schema of an earlier build. -/
def Schema.loadBuilt (c : Config) : Action Schema := loadAs c.format c.apiPath

end HelpMiner
