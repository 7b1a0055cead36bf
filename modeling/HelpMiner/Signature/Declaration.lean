import HelpMiner.Signature.Line

/-! Declarations `name As Type`, and the return binding of a function. -/
namespace HelpMiner.Signature

/-- Words of the script language that cannot name a parameter, in lower case. -/
def reservedWords : List String := [
  "and", "as", "boolean", "byref", "byte", "byval", "call", "case", "class", "const",
  "currency", "dim", "do", "double", "each", "else", "elseif", "empty", "end", "eqv", "erase",
  "error", "exit", "false", "for", "function", "get", "goto", "if", "imp", "in", "integer",
  "is", "let", "like", "long", "loop", "me", "mod", "new", "next", "not", "nothing", "null",
  "on", "option", "optional", "or", "paramarray", "preserve", "private", "property", "public",
  "redim", "rem", "resume", "select", "set", "single", "static", "step", "stop", "string",
  "sub", "then", "to", "true", "type", "until", "variant", "wend", "while", "with", "xor"]

def isReserved (name : List Char) : Bool :=
  reservedWords.any fun w => w.toList == Text.lower name

def connectedByAs? (s : List Char) : Option (List Char × List Char) := (afterAs? s).bind type?

theorem connectedByAs?_length_lt {s t r : List Char} (h : connectedByAs? s = some (t, r)) :
    r.length < s.length := by
  obtain ⟨u, hu, ht⟩ := Option.bind_eq_some_iff.1 h
  exact Nat.lt_trans (type?_length_lt ht) (afterAs?_length_lt hu)

/-- The text before the first connector, and one text from each type on. -/
def splitAtConnectors (s : List Char) : List Char × List (List Char) :=
  match _h : connectedByAs? s with
  | some (type, rest) =>
    let more := splitAtConnectors rest
    ([], (type ++ more.1) :: more.2)
  | none =>
    match s with
    | [] => ([], [])
    | c :: rest =>
      let more := splitAtConnectors rest
      (c :: more.1, more.2)
termination_by s.length
decreasing_by
  · exact connectedByAs?_length_lt _h
  · simp

/-- Leave out each closing parenthesis that has blanks before it, with those blanks. -/
def dropSpacedClosings (s : List Char) : List Char :=
  match _h : s with
  | [] => []
  | c :: rest =>
    match if Text.isBlank c then s.dropWhile Text.isBlank else [] with
    | ')' :: _ => dropSpacedClosings (rest.dropWhile Text.isBlank).tail
    | _ => c :: dropSpacedClosings rest
termination_by s.length
decreasing_by
  · have := dropBlank_length_le rest
    simp only [List.length_tail, List.length_cons]
    omega
  · simp

/-- Leave out a closing parenthesis at the end that no parenthesis opens. -/
def dropLoneClosing (s : List Char) : List Char :=
  if s.getLast? == some ')' && !s.contains '(' then s.dropLast else s

/-- The name of a type as it stands in a declaration. -/
def cleanType (s : List Char) : List Char :=
  Text.trim (dropLoneClosing (dropSpacedClosings (Text.trim s)))

/-- A declared name, told apart from reserved words by an underscore. -/
def cleanName (name : List Char) : List Char := if isReserved name then name ++ ['_'] else name

/-- Read a normalized line as one declaration. The name has at most `limit` characters, and
    neither part has a period. -/
def declaration? (line : String) (limit : Nat) : Option Param :=
  match splitAtConnectors line.toList with
  -- One connector, no less and no more.
  | (before, [typed]) =>
    let name := Text.trim before
    let type := cleanType typed
    if name.isEmpty || limit < name.length then none
    else if name.contains '.' || typed.contains '.' then none
    else if type.isEmpty then none
    else some ⟨String.ofList (cleanName name), String.ofList type⟩
  | _ => none

/-- The words of a line, from letter to letter. -/
def wordsOf (line : List Char) : List String :=
  ((Text.cutWhere (fun c => !Text.isWord c) line).filter (!·.isEmpty)).map String.ofList

/-- The return binding in a normalized line: a name, and the other words as its type. -/
def returnBinding (line : String) : List String :=
  -- Only the first connector is left out; another one stays a word of the type.
  match (wordsOf line.toList).erase "As" with
  | name :: word :: rest => [name, " ".intercalate (word :: rest)]
  | words => words

end HelpMiner.Signature
