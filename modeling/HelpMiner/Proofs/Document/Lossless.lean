import HelpMiner.Override.Table
import HelpMiner.Proofs.Document.Json.Lossless
import HelpMiner.Proofs.Document.Kept
import HelpMiner.Proofs.Document.Yaml.Lossless
import HelpMiner.Render.Topic

/-! What is kept in a document is read back from it as it was. -/
namespace HelpMiner

open Document (Kept)

/-- A report of a build whose archive could not be unpacked, with the largest numbers. -/
def Build.Report.largest : Build.Report where
  generatedAt := "2024-01-01T00:00:00Z"
  helpFile := some ⟨"C:\\Photon\\Fred.chm"⟩
  decompile := .failed "\"hh.exe\" says:\n\tnull"
  contentsFile := none
  topicsIndexed := Nat.pow 2 64 - 1
  topicsKept := 0
  withoutHeadings := ["", " 12", "~"]
  bypassed := []
  kindCounts := ⟨some (Nat.pow 2 64 - 1), none, some 0, none⟩
  uncertain := ["true"]
  droppedLines := Nat.pow 2 64 - 1
  overridesApplied := Nat.pow 2 64 - 1
  warnings := ["- a: b # c\n\n"]
  digest := "0e1"
  artifacts := [⟨"data/api_build.yaml"⟩]

theorem Config.default_inRange : Config.default.InRange := by
  constructor <;> decide

theorem Build.Report.largest_inRange : Build.Report.largest.InRange := by
  constructor <;> decide

namespace Format

/-- A value that is nested no deeper than what is read of a document. -/
theorem parse_render_json {α : Type} [Documented α] {n : Nat} {a : α} (h : Kept n a)
    (hn : n ≤ Document.Json.maxDepth) : json.parse (json.render a) = .ok a := by
  obtain ⟨w, hstored, hvalue⟩ := h
  have hread : json.read (α := α) (json.render a) = .ok a := by
    simp only [read, render, renderValue, Document.Json.read_render hstored hn, bind, Except.bind,
      hvalue]
  rw [parse, hread]
  rfl

/-- A value that is written as a map. -/
theorem parse_render_yaml {α : Type} [Documented α] {n : Nat} {a : α} (h : Kept n a)
    {ms : List (String × Document.Value)} (hmap : Documented.toValue a = .map ms) :
    yaml.parse (yaml.render a) = .ok a := by
  obtain ⟨w, hstored, hvalue⟩ := h
  rw [hmap] at hstored
  have hread : yaml.read (α := α) (yaml.render a) = .ok a := by
    simp only [read, render, renderValue, hmap, Document.Yaml.read_render hstored, bind,
      Except.bind, hvalue]
  rw [parse, hread]
  rfl

/-- Everything that a run keeps is read back from its JSON document. -/
theorem json_lossless :
    (∀ s : Schema, json.parse (json.render s) = .ok s) ∧
    (∀ d : Doc, json.parse (json.render d) = .ok d) ∧
    (∀ d : Docs, json.parse (json.render d) = .ok d) ∧
    (∀ t : OverrideTable, json.parse (json.render t) = .ok t) ∧
    (∀ e : ContentsEntry, json.parse (json.render e) = .ok e) ∧
    (∀ c : Config, c.InRange → json.parse (json.render c) = .ok c) ∧
    (∀ r : Build.Report, r.InRange → json.parse (json.render r) = .ok r) :=
  ⟨fun s => parse_render_json (SortedTable.kept Entry.kept s) (by decide),
    fun d => parse_render_json d.kept (by decide),
    fun d => parse_render_json (SortedTable.kept Doc.kept d) (by decide),
    fun t => parse_render_json (SortedTable.kept Patch.kept t) (by decide),
    fun e => parse_render_json e.kept (by decide),
    fun _ hc => parse_render_json (Config.kept hc) (by decide),
    fun _ hr => parse_render_json (Build.Report.kept hr) (by decide)⟩

theorem json_lossless_largest :
    (Config.default.InRange ∧
      json.parse (json.render Config.default) = .ok Config.default) ∧
    (Build.Report.largest.InRange ∧
      json.parse (json.render Build.Report.largest) = .ok Build.Report.largest) := by
  obtain ⟨-, -, -, -, -, hconfig, hreport⟩ := json_lossless
  exact ⟨⟨Config.default_inRange, hconfig _ Config.default_inRange⟩,
    Build.Report.largest_inRange, hreport _ Build.Report.largest_inRange⟩

/-- Everything that a run keeps is read back from its YAML document. -/
theorem yaml_lossless :
    (∀ s : Schema, yaml.parse (yaml.render s) = .ok s) ∧
    (∀ d : Doc, yaml.parse (yaml.render d) = .ok d) ∧
    (∀ d : Docs, yaml.parse (yaml.render d) = .ok d) ∧
    (∀ t : OverrideTable, yaml.parse (yaml.render t) = .ok t) ∧
    (∀ e : ContentsEntry, yaml.parse (yaml.render e) = .ok e) ∧
    (∀ c : Config, c.InRange → yaml.parse (yaml.render c) = .ok c) ∧
    (∀ r : Build.Report, r.InRange → yaml.parse (yaml.render r) = .ok r) :=
  ⟨fun s => parse_render_yaml (SortedTable.kept Entry.kept s) rfl,
    fun d => parse_render_yaml d.kept rfl,
    fun d => parse_render_yaml (SortedTable.kept Doc.kept d) rfl,
    fun t => parse_render_yaml (SortedTable.kept Patch.kept t) rfl,
    fun e => parse_render_yaml e.kept rfl,
    fun _ hc => parse_render_yaml (Config.kept hc) rfl,
    fun _ hr => parse_render_yaml (Build.Report.kept hr) rfl⟩

theorem yaml_lossless_largest :
    (Config.default.InRange ∧
      yaml.parse (yaml.render Config.default) = .ok Config.default) ∧
    (Build.Report.largest.InRange ∧
      yaml.parse (yaml.render Build.Report.largest) = .ok Build.Report.largest) := by
  obtain ⟨-, -, -, -, -, hconfig, hreport⟩ := yaml_lossless
  exact ⟨⟨Config.default_inRange, hconfig _ Config.default_inRange⟩,
    Build.Report.largest_inRange, hreport _ Build.Report.largest_inRange⟩

end Format

end HelpMiner
