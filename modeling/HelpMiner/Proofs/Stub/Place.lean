import HelpMiner.Contents.Document
import HelpMiner.Proofs.Files.Parent
import HelpMiner.Proofs.Stub.Directory

/-! The place of a stub: directly in the stub directory, unless the name of the command has a slash
or the file name is the step upwards. -/
namespace HelpMiner.Stub

open HelpMiner.Path (IsName DirectlyIn)

section FileName

variable {c : Config} {command : String}

theorem toList_fileName (c : Config) (command : String) :
    (fileName c command).toList = command.toList ++ '.' :: c.stubExtension.toList := by
  simp [fileName]

theorem fileName_eq_up (hc : command ≠ "") (h : fileName c command = "..") :
    command = "." ∧ c.stubExtension = "" := by
  have htext : ['.', '.'] = command.toList ++ '.' :: c.stubExtension.toList := by
    rw [← toList_fileName, h]
    rfl
  cases hl : command.toList with
  | nil => exact absurd (String.toList_eq_nil_iff.1 hl) hc
  | cons d rest =>
    rw [hl] at htext
    obtain ⟨rfl, htail⟩ := List.cons.inj htext
    change ['.'] = rest ++ '.' :: c.stubExtension.toList at htail
    obtain rfl : rest = [] := by
      have hlen := congrArg List.length htail
      simp only [List.length_append, List.length_cons, List.length_nil] at hlen
      exact List.eq_nil_of_length_eq_zero (by omega)
    exact ⟨String.toList_inj.1 hl, String.toList_eq_nil_iff.1 (List.cons.inj htail).2.symm⟩

/-- A file name has at least two characters, so of the steps it can be the one upwards only. -/
theorem isName_fileName_iff (hc : command ≠ "") (hext : '/' ∉ c.stubExtension.toList) :
    IsName (fileName c command) ↔
      '/' ∉ command.toList ∧ ¬ (command = "." ∧ c.stubExtension = "") := by
  have htext := toList_fileName c command
  constructor
  · intro h
    constructor
    · intro hm
      apply h.no_slash
      rw [htext]
      exact List.mem_append_left _ hm
    · rintro ⟨rfl, he⟩
      apply h.not_step
      simp [fileName, he]
  · rintro ⟨hslash, hup⟩
    have hlen : 2 ≤ (fileName c command).toList.length := by
      have hpos := List.length_pos_of_ne_nil (mt String.toList_eq_nil_iff.1 hc)
      rw [htext, List.length_append, List.length_cons]
      omega
    constructor
    · -- Too long to be empty or a dot; two dots are the excluded case.
      intro hstep
      simp only [List.mem_cons, List.not_mem_nil, or_false] at hstep
      obtain h | h | h := hstep
      · rw [h] at hlen
        exact absurd hlen (by decide)
      · rw [h] at hlen
        exact absurd hlen (by decide)
      · exact hup (fileName_eq_up hc h)
    · rw [htext]
      simp [hslash, hext]

end FileName

/-- The stub of a command stands directly in the stub directory, under the name of the command with
the extension, just if the name of the command has no slash and the file name is not the step
upwards. -/
theorem stubPath_directlyIn_iff (c : Config) {command : String}
    (hc : isCommandName command = true) (hext : '/' ∉ c.stubExtension.toList) :
    DirectlyIn (c.stubPath command) c.stubsPath (command ++ "." ++ c.stubExtension) ↔
      '/' ∉ command.toList ∧ ¬ (command = "." ∧ c.stubExtension = "") := by
  have hne : command ≠ "" := by
    rintro rfl
    cases hc
  exact (Path.directlyIn_join_iff c.stubsPath _).trans (isName_fileName_iff hne hext)

/-- Dots at the front of a name do no harm. -/
theorem stubPath_directlyIn_dots : isCommandName "..T" = true ∧
    DirectlyIn (Config.default.stubPath "..T") Config.default.stubsPath "..T.frs" := by
  have hname : isCommandName "..T" = true := by decide
  have hiff := stubPath_directlyIn_iff Config.default hname (by decide)
  exact ⟨hname, hiff.2 ⟨by decide, by decide⟩⟩

/-- A name that leads out of the stub directory is the name of a command. -/
theorem outside_stub : isCommandName "../Old" = true ∧
    '/' ∉ Config.default.stubExtension.toList ∧
    ¬ DirectlyIn (Config.default.stubPath "../Old") Config.default.stubsPath "../Old.frs" ∧
    (Config.default.stubPath "../Old").components =
      [.name "data", .name "stubs", .up, .name "Old.frs"] := by
  refine ⟨by decide, by decide, fun h => ?_, by decide⟩
  exact absurd h.name (by decide)

end HelpMiner.Stub
