/-! Texts as lists of characters: blanks and trimming, letters up to case, cutting into pieces, and
replacement. -/
namespace HelpMiner.Text

/-! ## Blanks -/

/-- White space of any script. -/
def isBlank (c : Char) : Bool :=
  let n := c.toNat
  (0x09 ≤ n && n ≤ 0x0D) || n == 0x20 || n == 0x85 || n == 0xA0 || n == 0x1680 ||
    (0x2000 ≤ n && n ≤ 0x200A) || n == 0x2028 || n == 0x2029 || n == 0x202F || n == 0x205F ||
    n == 0x3000

/-- White space between the parts of a tag. -/
def isTagBlank (c : Char) : Bool :=
  c == ' ' || c == '\t' || c == '\n' || c == '\r' || c == '\x0c'

def dropBackWhile (p : Char → Bool) : List Char → List Char
  | [] => []
  | c :: rest =>
    match dropBackWhile p rest with
    | [] => if p c then [] else [c]
    | kept => c :: kept

def trimWhile (p : Char → Bool) (s : List Char) : List Char := dropBackWhile p (s.dropWhile p)

def trim (s : List Char) : List Char := trimWhile isBlank s

/-- A text with a character other than blanks. -/
def hasInk (s : List Char) : Bool := s.any fun c => !isBlank c

/-! ## Letters -/

/-- Lower the case of the letters A to Z. -/
def lower (s : List Char) : List Char := s.map Char.toLower

/-- Equality up to the case of the letters A to Z. -/
def sameLetters (s t : List Char) : Bool := lower s == lower t

/-- What follows `lead` at the front of `s`, up to the case of the letters A to Z. -/
def afterLetters? : List Char → List Char → Option (List Char)
  | [], s => some s
  | _ :: _, [] => none
  | l :: lead, c :: s => if l.toLower == c.toLower then afterLetters? lead s else none

/-- Whether `s` begins with `lead`, up to the case of the letters A to Z. -/
def startsWithLetters (lead s : List Char) : Bool := (afterLetters? lead s).isSome

/-! ## Pieces -/

/-- Cut at each character that satisfies `p`; there is always one more piece than there are cuts. -/
def cutWhere (p : Char → Bool) : List Char → List (List Char)
  | [] => [[]]
  | c :: rest =>
    match cutWhere p rest with
    | [] => [[c]]
    | piece :: pieces => if p c then [] :: piece :: pieces else (c :: piece) :: pieces

def cutLines (s : List Char) : List (List Char) := cutWhere (· == '\n') s

def words (s : List Char) : List (List Char) := (cutWhere isBlank s).filter (!·.isEmpty)

/-! ## Replacement -/

/-- Put `new` for each occurrence of a text, from left to right; occurrences do not overlap. -/
def replaceChars (needle new : List Char) (s : List Char) : List Char :=
  match s with
  | [] => []
  | c :: rest =>
    if needle.isPrefixOf (c :: rest) then
      new ++ replaceChars needle new (rest.drop (needle.length - 1))
    else c :: replaceChars needle new rest
termination_by s.length
decreasing_by all_goals simp only [List.length_drop, List.length_cons]; omega

/-- Put `new` for each occurrence of `needle`. -/
def replace (needle new s : String) : String :=
  String.ofList (replaceChars needle.toList new.toList s.toList)

end HelpMiner.Text
