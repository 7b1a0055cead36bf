import HelpMiner.Text.Basic

/-! Wrapping of free text: a line is cut at the first blank past the margin. -/
namespace HelpMiner.Text

/-- Cut one line at the first blank that more than `columns` characters come before, again and
    again. A blank at a cut is dropped. -/
def wrapLine (columns : Nat) (s : List Char) : List (List Char) :=
  if columns < s.length then
    let excess := s.drop (columns + 1)
    match _h : excess.dropWhile fun c => !isBlank c with
    -- Past the margin there is no blank to cut at.
    | [] => [s]
    | _ :: rest =>
      (s.take (columns + 1) ++ excess.takeWhile fun c => !isBlank c) :: wrapLine columns rest
  else [s]
termination_by s.length
decreasing_by
  have h := (List.dropWhile_suffix (l := s.drop (columns + 1)) fun c => !isBlank c).length_le
  rw [show List.dropWhile (fun c => !isBlank c) (s.drop (columns + 1)) = _ from _h] at h
  simp only [List.length_cons, List.length_drop] at h
  omega

/-- Wrap each line of a text. Pieces without characters are left out. -/
def wrap (text : String) (columns : Nat) : List String :=
  (((cutLines text.toList).flatMap (wrapLine columns)).filter (!·.isEmpty)).map String.ofList

end HelpMiner.Text
