import HelpMiner.Proofs.Build.Refusal
import HelpMiner.Proofs.Files.Writing

/-! The files of a build: which of their paths can be the same, and what is left of them after a
build that succeeded. -/
namespace HelpMiner.Build

open HelpMiner.Action (runOn Meet Apart LastWrote)
open HelpMiner.Path (IsName EndsInName)

/-! ## File names -/

/-- The names of the renderings. -/
def renderingNames : List String :=
  (allTopicsStem :: Kind.all.map Kind.renderingStem).map (· ++ ".txt")

/-- The names of the files that have the same names in every build. -/
def fixedNames : List String := renderingNames ++ ["build-report.json"]

section Names

variable (c : Config)

theorem artifactPaths_eq :
    artifactPaths c = [c.rawApiPath, c.apiPath, c.docPath] ++ fixedNames.map c.dataFile := rfl

theorem fileName?_fixed {n : String} (h : n ∈ fixedNames) : (c.dataFile n).fileName? = some n := by
  have hnames : ∀ m ∈ fixedNames, IsName m := by decide
  exact Path.fileName?_join c.dataDir (hnames n h)

/-- Texts with different endings of the same length are different. -/
theorem append_ne_append {s t m n : String} (hlen : m.toList.length = n.toList.length)
    (hne : m ≠ n) : s ++ m ≠ t ++ n := by
  intro h
  have hchars : s.toList ++ m.toList = t.toList ++ n.toList := by
    rw [← String.toList_append, h, String.toList_append]
  exact hne (String.toList_inj.1 (List.append_inj' hchars hlen).2)

theorem format_name_chars (f : Format) : '/' ∉ f.name.toList ∧ ∃ d ∈ f.name.toList, d ≠ '.' := by
  cases f <;> simp [Format.name]

/-- The file names of a build's documents. -/
theorem exists_fileNames : ∃ api doc : String,
    c.rawApiPath.fileName? = some (api ++ "_no-override." ++ c.format.name) ∧
    c.apiPath.fileName? = some (api ++ "." ++ c.format.name) ∧
    c.docPath.fileName? = some (doc ++ "." ++ c.format.name) := by
  obtain ⟨api, hapi⟩ := c.dataDir.exists_fileName?_join c.apiStem
  obtain ⟨doc, hdoc⟩ := c.dataDir.exists_fileName?_join c.docStem
  obtain ⟨hslash, d, hd, hdot⟩ := format_name_chars c.format
  have hending : ∀ mark : String, '/' ∉ mark.toList →
      '/' ∉ (mark ++ c.format.name).toList ∧ ∃ d ∈ (mark ++ c.format.name).toList, d ≠ '.' := by
    intro mark hmark
    rw [String.toList_append]
    exact ⟨by simp [hmark, hslash], d, List.mem_append_right _ hd, hdot⟩
  obtain ⟨hraw, hrawDot⟩ := hending "_no-override." (by decide)
  obtain ⟨hplain, hplainDot⟩ := hending "." (by decide)
  refine ⟨api, doc, ?_, ?_, ?_⟩
  · rw [String.append_assoc, ← hapi _ hraw hrawDot, ← String.append_assoc]
    rfl
  · rw [String.append_assoc, ← hapi _ hplain hplainDot, ← String.append_assoc]
    rfl
  · rw [String.append_assoc, ← hdoc _ hplain hplainDot, ← String.append_assoc]
    rfl

/-- No document has the name of a rendering. -/
theorem ne_renderingName {n : String} (h : n ∈ renderingNames) (f : Format) (s : String) :
    s ++ f.name ≠ n := by
  obtain ⟨stem, -, rfl⟩ := List.mem_map.1 h
  apply append_ne_append
  · cases f <;> decide
  · cases f <;> decide

theorem fileName?_ne_rendering {p : Path} {s n : String}
    (hp : p.fileName? = some (s ++ c.format.name)) (hn : n ∈ renderingNames) :
    p.fileName? ≠ (c.dataFile n).fileName? := by
  rw [hp, fileName?_fixed c (List.mem_append_left _ hn)]
  exact fun h => ne_renderingName hn c.format s (Option.some.inj h)

theorem fileName?_reportPath : c.reportPath.fileName? = some "build-report.json" :=
  fileName?_fixed c (by decide)

theorem fileName?_raw_ne_api : c.rawApiPath.fileName? ≠ c.apiPath.fileName? := by
  obtain ⟨api, doc, hraw, hapi, -⟩ := exists_fileNames c
  rw [hraw, hapi]
  intro h
  have hlength := congrArg String.length (Option.some.inj h)
  simp only [String.length_append] at hlength
  have hmarks : ".".length < "_no-override.".length := by decide
  omega

/-- What the file name of the raw schema ends in is as long as the name of the report. -/
theorem fileName?_raw_ne_report : c.rawApiPath.fileName? ≠ c.reportPath.fileName? := by
  obtain ⟨api, doc, hraw, -, -⟩ := exists_fileNames c
  rw [hraw, fileName?_reportPath, String.append_assoc]
  intro h
  have hname : api ++ ("_no-override." ++ c.format.name) = "" ++ "build-report.json" :=
    Option.some.inj h
  refine append_ne_append ?_ ?_ hname
  · cases c.format <;> decide
  · cases c.format <;> decide

end Names

section Pairs

variable {R : Path → Path → Prop} (hR : ∀ p q : Path, p.fileName? ≠ q.fileName? → R p q)
  (c : Config)

include hR

theorem pairwise_fixed : (fixedNames.map c.dataFile).Pairwise R := by
  have hnodup : fixedNames.Nodup := by decide
  refine List.pairwise_map.2 (hnodup.imp_of_mem fun {m n} hm hn hne => hR _ _ ?_)
  rw [fileName?_fixed c hm, fileName?_fixed c hn]
  exact fun h => hne (Option.some.inj h)

theorem forall_fixed_iff {p : Path} {s : String} (hp : p.fileName? = some (s ++ c.format.name)) :
    (∀ q ∈ fixedNames.map c.dataFile, R p q) ↔ R p c.reportPath := by
  constructor
  · intro h
    exact h c.reportPath (List.mem_map_of_mem (by decide))
  · intro hreport q hq
    obtain ⟨n, hn, rfl⟩ := List.mem_map.1 hq
    obtain hn | hn := List.mem_append.1 hn
    · exact hR _ _ (fileName?_ne_rendering c hp hn)
    · rwa [List.mem_singleton.1 hn]

/-- Of all pairs of paths, only four can have the same file name. -/
theorem pairwise_artifactPaths_iff :
    (artifactPaths c).Pairwise R ↔ R c.rawApiPath c.docPath ∧ R c.apiPath c.docPath ∧
      R c.apiPath c.reportPath ∧ R c.docPath c.reportPath := by
  obtain ⟨api, doc, hraw, hapi, hdoc⟩ := exists_fileNames c
  have hrawApi := hR _ _ (fileName?_raw_ne_api c)
  have hrawReport := hR _ _ (fileName?_raw_ne_report c)
  have hfixed := pairwise_fixed hR c
  rw [artifactPaths_eq, List.pairwise_append]
  simp only [List.pairwise_cons, List.Pairwise.nil, List.mem_cons, List.not_mem_nil, or_false,
    forall_eq_or_imp, forall_eq, forall_fixed_iff hR c hraw, forall_fixed_iff hR c hapi,
    forall_fixed_iff hR c hdoc]
  constructor
  · rintro ⟨⟨⟨-, hrawDoc⟩, hapiDoc, -⟩, -, -, hapiReport, hdocReport⟩
    exact ⟨hrawDoc, hapiDoc, hapiReport, hdocReport⟩
  · rintro ⟨hrawDoc, hapiDoc, hapiReport, hdocReport⟩
    exact ⟨⟨⟨hrawApi, hrawDoc⟩, hapiDoc, by simp⟩, hfixed, hrawReport, hapiReport, hdocReport⟩

end Pairs

/-! ## Stems without a slash -/

/-- Stems that make different file names. -/
structure StemsApart (c : Config) : Prop where
  schema : c.docStem ≠ c.apiStem
  raw : c.docStem ≠ c.apiStem ++ "_no-override"
  report : c.format = .json → c.apiStem ≠ "build-report" ∧ c.docStem ≠ "build-report"

theorem stemsApart_iff {c : Config} : StemsApart c ↔
    c.apiStem ++ "_no-override." ++ c.format.name ≠ c.docStem ++ "." ++ c.format.name ∧
    c.apiStem ++ "." ++ c.format.name ≠ c.docStem ++ "." ++ c.format.name ∧
    c.apiStem ++ "." ++ c.format.name ≠ "build-report.json" ∧
    c.docStem ++ "." ++ c.format.name ≠ "build-report.json" := by
  -- The extension is the same on both sides but for the report, so only the stems count.
  have hmark : "_no-override." = "_no-override" ++ "." := rfl
  have hraw : c.apiStem ++ "_no-override." ++ c.format.name = c.docStem ++ "." ++ c.format.name ↔
      c.docStem = c.apiStem ++ "_no-override" := by
    rw [hmark, ← String.append_assoc, String.append_left_inj, String.append_left_inj, eq_comm]
  have hschema : c.apiStem ++ "." ++ c.format.name = c.docStem ++ "." ++ c.format.name ↔
      c.docStem = c.apiStem := by
    rw [String.append_left_inj, String.append_left_inj, eq_comm]
  have hreport : ∀ stem : String, stem ++ "." ++ c.format.name = "build-report.json" ↔
      c.format = .json ∧ stem = "build-report" := by
    intro stem
    have hsplit : "build-report.json" = "build-report" ++ "." ++ "json" := rfl
    rw [hsplit]
    cases c.format with
    | yaml =>
      have hne : stem ++ "." ++ Format.yaml.name ≠ "build-report" ++ "." ++ "json" :=
        append_ne_append (by decide) (by decide)
      exact ⟨fun h => absurd h hne, fun h => nomatch h.1⟩
    | json =>
      have hname : Format.json.name = "json" := rfl
      rw [hname, String.append_left_inj, String.append_left_inj]
      exact ⟨fun h => ⟨rfl, h⟩, And.right⟩
  rw [Ne, hraw, Ne, hschema, Ne, hreport, Ne, hreport]
  constructor
  · rintro ⟨hdoc, hrawDoc, hjson⟩
    exact ⟨hrawDoc, hdoc, fun h => (hjson h.1).1 h.2, fun h => (hjson h.1).2 h.2⟩
  · rintro ⟨hrawDoc, hdoc, hapi, hdocReport⟩
    exact ⟨hdoc, hrawDoc, fun hf => ⟨fun h => hapi ⟨hf, h⟩, fun h => hdocReport ⟨hf, h⟩⟩⟩

theorem isName_document {stem mark : String} (hstem : '/' ∉ stem.toList) (hmark : '/' ∉ mark.toList)
    (f : Format) : IsName (stem ++ mark ++ f.name) := by
  obtain ⟨hslash, d, hd, hdot⟩ := format_name_chars f
  have hchars : d ∈ (stem ++ mark ++ f.name).toList := by simp [hd]
  exact IsName.of_char (by simp [hstem, hmark, hslash]) hchars hdot

/-- Without slashes in the stems, all files are in one directory, where their names differ. -/
theorem pairwise_artifactPaths_plain_iff {R : Path → Path → Prop} {c : Config}
    (hR : ∀ p q : Path, p.fileName? ≠ q.fileName? → R p q)
    (hself : ∀ p, ¬ R p p) (hapi : '/' ∉ c.apiStem.toList) (hdoc : '/' ∉ c.docStem.toList) :
    (artifactPaths c).Pairwise R ↔ StemsApart c := by
  have hfile : ∀ m n : String, IsName m → IsName n →
      (R (c.dataFile m) (c.dataFile n) ↔ m ≠ n) := by
    intro m n hm hn
    constructor
    · rintro h rfl
      exact hself _ h
    · intro hne
      apply hR
      unfold Config.dataFile
      rw [Path.fileName?_join _ hm, Path.fileName?_join _ hn]
      exact fun h => hne (Option.some.inj h)
  have hraw : '/' ∉ "_no-override.".toList := by decide
  have hdot : '/' ∉ ".".toList := by decide
  have hrawName := isName_document hapi hraw c.format
  have hapiName := isName_document hapi hdot c.format
  have hdocName := isName_document hdoc hdot c.format
  have hreportName : IsName "build-report.json" := by decide
  rw [pairwise_artifactPaths_iff hR, stemsApart_iff]
  exact and_congr (hfile _ _ hrawName hdocName) <| and_congr (hfile _ _ hapiName hdocName) <|
    and_congr (hfile _ _ hapiName hreportName) (hfile _ _ hdocName hreportName)

/-! ## After a build -/

/-- A build that succeeded, with the files as it left them. -/
inductive Built (c : Config) (b : Build) (u : FileTree) : Prop where
  | ofRun {env : Environment} {t : FileTree} (h : runOn t (run env c) = (.ok b, u))
  | ofFinish {env : Environment} {x : Extraction} {t : FileTree}
      (h : runOn t (finish env c x) = (.ok b, u))

/-- What is left of the files of a build. -/
structure FilesLeft (c : Config) (b : Build) (u : FileTree) : Prop where
  listed : b.report.artifacts = artifactPaths c
  digest : b.report.digest = Digest.hexDigest (c.format.render b.schema)
  /-- Where several files lead to one place, the last of them is left. -/
  last : ∀ front e back, b.artifacts c = front ++ e :: back →
    ∀ p, Meet u p e.1 → (∀ x ∈ back, ¬ Meet u p x.1) → u.text p = .ok e.2
  found : ∀ e ∈ b.artifacts c, Meet u e.1 e.1
  schema : ¬ Meet u c.apiPath c.docPath → ¬ Meet u c.apiPath c.reportPath →
    u.text c.apiPath = .ok (c.format.render b.schema)
  all : (artifactPaths c).Pairwise (fun p q => p.fileName? ≠ q.fileName?) →
    ∀ e ∈ b.artifacts c, u.text e.1 = .ok e.2

section Built

variable {c : Config} {b : Build} {t u : FileTree}

theorem ofExtraction_report {now : String} {table : OverrideTable} {x : Extraction}
    (h : ofExtraction c now table x = .ok b) :
    b.report.digest = Digest.hexDigest (c.format.render b.schema) ∧
      b.report.artifacts = artifactPaths c := by
  obtain ⟨applied, -, hb⟩ := FileTree.bind_eq_ok.1 h
  obtain rfl := Except.ok.inj hb
  exact ⟨rfl, rfl⟩

theorem finish_ok {env : Environment} {x : Extraction}
    (h : runOn t (finish env c x) = (.ok b, u)) : ∃ table mid,
      runOn t (OverrideTable.load c.overridePath) = (.ok table, mid) ∧
      ofExtraction c env.now table x = .ok b ∧ runOn mid (b.save c) = (.ok (), u) := by
  obtain ⟨table, mid, hload, hrest⟩ := Action.exists_of_bind_ok h
  obtain ⟨built, _, hmade, hrest⟩ := Action.exists_of_bind_ok hrest
  obtain ⟨_, after, hsaved, hend⟩ := Action.exists_of_bind_ok hrest
  cases hend
  cases congrArg Prod.snd hmade
  exact ⟨table, _, hload, congrArg Prod.fst hmade, hsaved⟩

/-- A build comes to its end by saving its files. -/
theorem Built.exists_save (h : Built c b u) : ∃ t, runOn t (b.save c) = (.ok (), u) ∧
    b.report.digest = Digest.hexDigest (c.format.render b.schema) ∧
      b.report.artifacts = artifactPaths c := by
  have hfinish : ∃ env x t, runOn t (finish env c x) = (.ok b, u) := by
    cases h with
    | ofFinish h => exact ⟨_, _, _, h⟩
    | ofRun h =>
      obtain ⟨x, mid, -, hfinish⟩ := Action.exists_of_bind_ok h
      exact ⟨_, x, mid, hfinish⟩
  obtain ⟨env, x, t, hfinish⟩ := hfinish
  obtain ⟨table, mid, -, hof, hsave⟩ := finish_ok hfinish
  exact ⟨mid, hsave, ofExtraction_report hof⟩

/-- The documents of a build come first. -/
theorem exists_artifacts (c : Config) (b : Build) : ∃ rest,
    b.artifacts c = (c.rawApiPath, c.format.render b.rawSchema) ::
      (c.apiPath, c.format.render b.schema) :: (c.docPath, c.format.render b.docs) :: rest ∧
    rest.map Prod.fst = fixedNames.map c.dataFile := ⟨_, rfl, rfl⟩

theorem map_fst_artifacts (c : Config) (b : Build) :
    (b.artifacts c).map Prod.fst = artifactPaths c := by
  have hlength : (artifactPaths c).length = (artifactTexts c b).length := rfl
  exact List.map_fst_zip hlength.le

section Left

variable (h : LastWrote (b.artifacts c) t u)

include h

/-- The schema is left if neither the documentation nor the report is written in its place. -/
theorem text_apiPath (hdoc : ¬ Meet u c.apiPath c.docPath)
    (hreport : ¬ Meet u c.apiPath c.reportPath) :
    u.text c.apiPath = .ok (c.format.render b.schema) := by
  obtain ⟨api, -, -, hapi, -⟩ := exists_fileNames c
  obtain ⟨rest, hfiles, hrest⟩ := exists_artifacts c b
  have hmem : (c.apiPath, c.format.render b.schema) ∈ b.artifacts c := by simp [hfiles]
  have hsplit : b.artifacts c = [(c.rawApiPath, c.format.render b.rawSchema)] ++
      (c.apiPath, c.format.render b.schema) :: (c.docPath, c.format.render b.docs) :: rest :=
    hfiles
  have hself := h.meet_self hmem
  have hname := h.endsInName (c.apiPath, c.format.render b.schema) hmem
  have hapart : ∀ p q : Path, p.fileName? ≠ q.fileName? →
      EndsInName p → EndsInName q → ¬ Meet u p q := fun p q hne hp hq =>
    (Action.apart_of_fileName?_ne hne).not_meet hp hq u
  refine h.text hsplit hself fun x hx => ?_
  obtain rfl | hx := List.mem_cons.1 hx
  · exact hdoc
  · have hends := h.endsInName x (by simp [hfiles, hx])
    have hpath : x.1 ∈ fixedNames.map c.dataFile := by
      rw [← hrest]
      exact List.mem_map_of_mem hx
    exact (forall_fixed_iff hapart c hapi).2 (fun _ _ => hreport) x.1 hpath hname hends

/-- Files with different names are all left. -/
theorem text_artifact
    (hnames : (artifactPaths c).Pairwise fun p q => p.fileName? ≠ q.fileName?)
    {e : Path × String} (he : e ∈ b.artifacts c) : u.text e.1 = .ok e.2 := by
  rw [← map_fst_artifacts c b, List.pairwise_map] at hnames
  have hwrote := h.wrote (hnames.imp Action.apart_of_fileName?_ne)
  obtain ⟨place, hl, ha⟩ := hwrote.content e he
  exact FileTree.text_of_file hl ha

end Left

theorem Built.filesLeft (h : Built c b u) : FilesLeft c b u := by
  obtain ⟨t, hsave, hdigest, hlisted⟩ := h.exists_save
  have hlast := Action.lastWrote_forM hsave
  refine ⟨hlisted, hdigest, ?_, ?_, text_apiPath hlast, fun hnames e he => ?_⟩
  · intro front e back hsplit p hp hlater
    exact hlast.text hsplit hp hlater
  · intro e he
    exact hlast.meet_self he
  · exact text_artifact hlast hnames he

end Built

/-- The paths of a build's files are distinct just if four pairs of them are; without slashes in the
stems this is so just if the stems make different file names. After a build that succeeded, the last
of the files that lead to one place is left there, so that with different file names no file is
lost, and the schema, whose digest the report has, is at its path. -/
theorem artifactPaths_distinct_iff (c : Config) :
    ((artifactPaths c).Pairwise (fun p q => p.same q = false) ↔
      c.rawApiPath.same c.docPath = false ∧ c.apiPath.same c.docPath = false ∧
        c.apiPath.same c.reportPath = false ∧ c.docPath.same c.reportPath = false) ∧
    ('/' ∉ c.apiStem.toList → '/' ∉ c.docStem.toList →
      ((artifactPaths c).Pairwise (fun p q => p.same q = false) ↔ StemsApart c) ∧
      ((artifactPaths c).Pairwise (fun p q => p.fileName? ≠ q.fileName?) ↔ StemsApart c)) ∧
    ∀ b u, Built c b u → FilesLeft c b u := by
  have hsame : ∀ p q : Path, p.fileName? ≠ q.fileName? → p.same q = false := by
    intro p q hne
    rw [← Bool.not_eq_true]
    exact fun h => hne (Path.fileName?_eq_of_same h)
  refine ⟨pairwise_artifactPaths_iff hsame c, fun hapi hdoc => ⟨?_, ?_⟩, fun b u h => h.filesLeft⟩
  · apply pairwise_artifactPaths_plain_iff hsame _ hapi hdoc
    intro p
    simp [Path.same]
  · exact pairwise_artifactPaths_plain_iff (fun p q hne => hne) (fun p hne => hne rfl) hapi hdoc

/-- No files. -/
def emptyTree : FileTree := ⟨[], []⟩

/-- A build of one command with the usual settings leaves all its files. -/
theorem artifactPaths_distinct_default : ∃ b u,
    runOn emptyTree (finish bareEnvironment .default oneExtraction) = (.ok b, u) ∧
    ∀ e ∈ b.artifacts .default, u.text e.1 = .ok e.2 := by
  obtain ⟨-, hplain, hleft⟩ := artifactPaths_distinct_iff .default
  obtain ⟨-, hnames⟩ := hplain (by decide) (by decide)
  have hapart : StemsApart .default := ⟨by decide, by decide, by decide⟩
  have hok : (runOn emptyTree (finish bareEnvironment .default oneExtraction)).1.isOk = true := by
    decide +kernel
  cases hrun : runOn emptyTree (finish bareEnvironment .default oneExtraction) with
  | mk result u =>
    rw [hrun] at hok
    cases result with
    | error e => cases hok
    | ok b => exact ⟨b, u, rfl, (hleft b u (.ofFinish hrun)).all (hnames.2 hapart)⟩

/-- The usual settings, with the documentation under the name of the schema. -/
def sharedStem : Config := { Config.default with docStem := "api_build" }

/-- The documentation takes the place of the schema, and has another digest. -/
theorem documentation_over_schema :
    ¬ (artifactPaths sharedStem).Pairwise (fun p q => p.same q = false) ∧
    ∃ b u, runOn emptyTree (finish bareEnvironment sharedStem oneExtraction) = (.ok b, u) ∧
      u.text sharedStem.apiPath = .ok "Close: \x7b\x7d\n" ∧
      b.report.digest ≠ Digest.hexDigest "Close: \x7b\x7d\n" := by
  let s := "Close:\n  descr: No description found\n  sig: []\n  returns: []\n  cmdtype: unknown\n"
  have hrender : (ofExtraction sharedStem "now" .empty oneExtraction).map
      (fun b => sharedStem.format.render b.schema) = .ok s := by decide +kernel
  have habsent : emptyTree.text sharedStem.overridePath = .error .notFound := by decide +kernel
  have hok : (runOn emptyTree (finish bareEnvironment sharedStem oneExtraction)).1.isOk = true := by
    decide +kernel
  have hfile : (runOn emptyTree (finish bareEnvironment sharedStem oneExtraction)).2.text
      sharedStem.apiPath = .ok "Close: \x7b\x7d\n" := by decide +kernel
  refine ⟨by decide +kernel, ?_⟩
  cases hrun : runOn emptyTree (finish bareEnvironment sharedStem oneExtraction) with
  | mk result u =>
    rw [hrun] at hok hfile
    cases result with
    | error e => cases hok
    | ok b =>
      obtain ⟨table, mid, hload, hof, -⟩ := finish_ok hrun
      cases hload.symm.trans (runOn_load_absent emptyTree habsent)
      have hschema : sharedStem.format.render b.schema = s := by
        change ofExtraction sharedStem "now" .empty oneExtraction = .ok b at hof
        rw [hof] at hrender
        exact Except.ok.inj hrender
      refine ⟨b, u, rfl, hfile, ?_⟩
      rw [(ofExtraction_report hof).1, hschema]
      decide +kernel

end HelpMiner.Build
