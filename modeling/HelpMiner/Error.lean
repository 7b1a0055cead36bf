import HelpMiner.Document.Problem
import HelpMiner.Files.Path

/-! The failures that end an operation, and their wording. -/
namespace HelpMiner

inductive Error where
  | io (path : Path) (why : Trouble)
  | yaml (why : Document.Problem)
  | json (why : Document.Problem)
  /-- The archive is in none of the searched places. -/
  | helpFileNotFound (name : String) (searched : List Path)
  /-- A directory has no table of contents. -/
  | contentsNotFound (dir : Path) (suffix : String)
  /-- A topic in the table of contents has no page. -/
  | topicNotFound (name : String) (path : Path)
  /-- No build has written a schema. -/
  | schemaNotFound (path : Path)
  /-- An override table has names that the schema does not have. -/
  | unknownCommands (names : List String)
  | overrideTable (why : Document.Problem)
  | unsupportedFormat (text : String)
  | unsupportedLayout (text : String)
  | unsupportedRendering (text : String)
  | noHostType (type : String)
  | unknownKind (text : String)
  deriving DecidableEq, Repr

namespace Error

def roots (searched : List Path) : String :=
  if searched.isEmpty then "<no search roots>" else ", ".intercalate (searched.map Path.text)

def message : Error → String
  | io path why => "I/O error on '" ++ path.text ++ "': " ++ why.message
  | yaml why => "YAML error: " ++ why.message
  | json why => "JSON error: " ++ why.message
  | helpFileNotFound name searched =>
    "could not locate help file '" ++ name ++ "' (searched: " ++ roots searched ++ ")"
  | contentsNotFound dir suffix =>
    "no table of contents ending in '" ++ suffix ++ "' found in '" ++ dir.text ++ "'"
  | topicNotFound name path =>
    "topic '" ++ name ++ "' fragment not found at '" ++ path.text ++ "'"
  | schemaNotFound path => "schema file '" ++ path.text ++ "' not found; run `build` first"
  | unknownCommands names =>
    "override table references unknown command(s): " ++ ", ".intercalate names
  | overrideTable why => "invalid override table: " ++ why.message
  | unsupportedFormat text =>
    "unsupported output format '" ++ text ++ "' (expected yaml or json)"
  | unsupportedLayout text =>
    "unsupported table-of-contents mode '" ++ text ++ "' (expected objects or links)"
  | unsupportedRendering text =>
    "unsupported type rendering '" ++ text ++ "' (expected type, repr or str)"
  | noHostType type => type ++ " does not have an analogous host type"
  | unknownKind text =>
    "unknown command kind '" ++ text ++
      "' (expected function, subroutine, datastruct or unknown)"

end Error

end HelpMiner
