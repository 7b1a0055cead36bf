import HelpMiner.Command.Issue
import HelpMiner.Contents.Reader
import HelpMiner.Document.Format
import HelpMiner.Text.Basic

/-! The settings of a run. -/
namespace HelpMiner

/-- The program that unpacks an archive. -/
structure Decompiler where
  /-- Its name; nothing is run if it is blank. -/
  program : String
  /-- Its arguments, with placeholders for the archive and the output directory. -/
  args : List String
  timeoutSecs : Nat
  deriving DecidableEq, Repr

namespace Decompiler

def default : Decompiler := ⟨"hh.exe", ["-decompile", "\x7boutput\x7d", "\x7binput\x7d"], 300⟩

/-- An argument with the archive put in for its placeholder, and then the output directory. -/
def fillIn (input output : Path) (arg : String) : String :=
  Text.replace "\x7boutput\x7d" output.text (Text.replace "\x7binput\x7d" input.text arg)

def arguments (d : Decompiler) (input output : Path) : List String :=
  d.args.map (fillIn input output)

end Decompiler

/-- Settings. Relative paths are seen from `dataDir`. -/
structure Config where
  dataDir : Path
  htmlDir : Path
  stubDir : Path
  apiStem : String
  docStem : String
  overrideFile : Path
  /-- Name of the archive, in any letter case. -/
  helpFileName : String
  /-- The archive itself, which is then not searched for. -/
  helpFile : Option Path
  searchPaths : List Path
  /-- Variables that name the roots of installations. -/
  installVars : List String
  vendorDir : String
  decompiler : Decompiler
  /-- End of the name of a table of contents. -/
  contentsSuffix : String
  layout : Contents.Layout
  stubExtension : String
  wrapColumns : Nat
  nameLimit : Nat
  format : Format
  /-- Whether documentation is left out of the results. -/
  distributable : Bool
  deriving DecidableEq, Repr

namespace Config

/-- The settings of a run that sets nothing. -/
def default : Config where
  dataDir := ⟨"data"⟩
  htmlDir := ⟨"html"⟩
  stubDir := ⟨"stubs"⟩
  apiStem := "api_build"
  docStem := "alldocs"
  overrideFile := ⟨"api_overrides.yaml"⟩
  helpFileName := "Fred.chm"
  helpFile := none
  searchPaths := []
  installVars := ["PROGRAMW6432", "PROGRAMFILES", "PROGRAMFILES(X86)"]
  vendorDir := "Photon Engineering"
  decompiler := .default
  contentsSuffix := ".hhc"
  layout := .objects
  stubExtension := "frs"
  wrapColumns := 60
  nameLimit := defaultNameLimit
  format := .yaml
  distributable := false

def withDataDir (dir : Path) : Config := { default with dataDir := dir }

end Config

end HelpMiner
