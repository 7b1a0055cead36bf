import HelpMiner.Config.Basic
import HelpMiner.Files.Action

/-! Settings in documents and in files. What a document does not set has its usual value. -/
namespace HelpMiner

open Document (Value Shape Fields Missing)

namespace Path

def toValue (p : Path) : Value := .text p.text

def ofValue? (v : Value) : Option Path := v.text?.map Path.mk

def listValue (ps : List Path) : Value := .list (ps.map toValue)

def list? (v : Value) : Option (List Path) := v.items?.bind fun vs => vs.mapM ofValue?

def optionValue : Option Path → Value
  | some p => p.toValue
  | none => .null

end Path

namespace Document

/-- Fields that have the members of a map as defaults. -/
def fieldsWithDefaults (defaults : Value) (fields : List (String × Shape)) : Fields :=
  .ofList (fields.map fun f => (f.1, f.2, .default ((defaults.member? f.1).getD .null)))

end Document

namespace Decompiler

def toValue (d : Decompiler) : Value := .map [
  ("program", .text d.program),
  ("args", .texts d.args),
  ("timeout_secs", .nat d.timeoutSecs)]

def ofValue? (v : Value) : Option Decompiler := do
  let program ← (← v.member? "program").text?
  let args ← (← v.member? "args").texts?
  let timeoutSecs ← (← v.member? "timeout_secs").nat?
  some ⟨program, args, timeoutSecs⟩

def shape : Shape := .record "DecompilerConfig" false <|
  Document.fieldsWithDefaults default.toValue [
    ("program", .text), ("args", .list .text), ("timeout_secs", .unsigned "u64")]

end Decompiler

namespace Contents.Layout

def shape : Shape := .selector fun text =>
  match ofName? text with
  | some l => .ok l.name
  | none => .error (Error.unsupportedLayout text).message

def ofName (text : String) : Except Error Layout :=
  match ofName? text with
  | some l => .ok l
  | none => .error (.unsupportedLayout text)

end Contents.Layout

def Format.shape : Shape := .selector fun text =>
  match ofName? text with
  | some f => .ok f.name
  | none => .error (Error.unsupportedFormat text).message

namespace Config

def toValue (c : Config) : Value := .map [
  ("data_dir", c.dataDir.toValue),
  ("html_dir", c.htmlDir.toValue),
  ("stub_dir", c.stubDir.toValue),
  ("api_file_stem", .text c.apiStem),
  ("doc_file_stem", .text c.docStem),
  ("override_file", c.overrideFile.toValue),
  ("help_file_name", .text c.helpFileName),
  ("help_file", Path.optionValue c.helpFile),
  ("search_paths", Path.listValue c.searchPaths),
  ("install_env_vars", .texts c.installVars),
  ("vendor_dir", .text c.vendorDir),
  ("decompiler", c.decompiler.toValue),
  ("toc_suffix", .text c.contentsSuffix),
  ("toc_mode", .text c.layout.name),
  ("stub_extension", .text c.stubExtension),
  ("wrap_columns", .nat c.wrapColumns),
  ("max_param_name_len", .nat c.nameLimit),
  ("format", .text c.format.name),
  ("distributable", .bool c.distributable)]

def ofValue? (v : Value) : Option Config := do
  let dataDir ← Path.ofValue? (← v.member? "data_dir")
  let htmlDir ← Path.ofValue? (← v.member? "html_dir")
  let stubDir ← Path.ofValue? (← v.member? "stub_dir")
  let apiStem ← (← v.member? "api_file_stem").text?
  let docStem ← (← v.member? "doc_file_stem").text?
  let overrideFile ← Path.ofValue? (← v.member? "override_file")
  let helpFileName ← (← v.member? "help_file_name").text?
  let helpFile ← (← v.member? "help_file").optional? Path.ofValue?
  let searchPaths ← Path.list? (← v.member? "search_paths")
  let installVars ← (← v.member? "install_env_vars").texts?
  let vendorDir ← (← v.member? "vendor_dir").text?
  let decompiler ← Decompiler.ofValue? (← v.member? "decompiler")
  let contentsSuffix ← (← v.member? "toc_suffix").text?
  let layout ← Contents.Layout.ofName? (← (← v.member? "toc_mode").text?)
  let stubExtension ← (← v.member? "stub_extension").text?
  let wrapColumns ← (← v.member? "wrap_columns").nat?
  let nameLimit ← (← v.member? "max_param_name_len").nat?
  let format ← Format.ofName? (← (← v.member? "format").text?)
  let distributable ← (← v.member? "distributable").bool?
  some {
    dataDir, htmlDir, stubDir, apiStem, docStem, overrideFile, helpFileName, helpFile,
    searchPaths, installVars, vendorDir, decompiler, contentsSuffix, layout, stubExtension,
    wrapColumns, nameLimit, format, distributable }

def shape : Shape := .record "PipelineConfig" false <|
  Document.fieldsWithDefaults default.toValue [
    ("data_dir", .path),
    ("html_dir", .path),
    ("stub_dir", .path),
    ("api_file_stem", .text),
    ("doc_file_stem", .text),
    ("override_file", .path),
    ("help_file_name", .text),
    ("help_file", .optional .path),
    ("search_paths", .list .path),
    ("install_env_vars", .list .text),
    ("vendor_dir", .text),
    ("decompiler", Decompiler.shape),
    ("toc_suffix", .text),
    ("toc_mode", Contents.Layout.shape),
    ("stub_extension", .text),
    ("wrap_columns", .unsigned "usize"),
    ("max_param_name_len", .unsigned "usize"),
    ("format", Format.shape),
    ("distributable", .bool)]

instance : Documented Config := ⟨shape, toValue, ofValue?⟩

/-- The settings in a YAML text. A blank text sets nothing. -/
def parse (text : String) : Except Error Config :=
  if Text.hasInk text.toList then Format.yaml.parse text else .ok default

def load (p : Path) : Action Config := do Action.ofExcept (parse (← Action.readText p))

end Config

end HelpMiner
