import HelpMiner.Files.Path
import HelpMiner.Text.Digit

/-! The version in the path of an archive, and the newest of several archives. -/
namespace HelpMiner.Archive

structure Version where
  major : Nat
  minor : Nat
  patch : Nat
  deriving DecidableEq, Repr

namespace Version

def before (a b : Version) : Bool :=
  a.major < b.major || (a.major == b.major &&
    (a.minor < b.minor || (a.minor == b.minor && a.patch < b.patch)))

/-- The number of a run of digits; zero if they are not ASCII or reach 2^64. -/
def part (digits : List Char) : Nat :=
  ((Text.unsigned? 10 digits).filter (· < Nat.pow 2 64)).getD 0

def digits? (s : List Char) : Option (List Char × List Char) :=
  match s.takeWhile Text.isDigit with
  | [] => none
  | ds => some (ds, s.dropWhile Text.isDigit)

def point? : List Char → Option (List Char)
  | '.' :: rest => some rest
  | _ => none

def atFront? (s : List Char) : Option Version := do
  let (major, s) ← digits? s
  let (minor, s) ← digits? (← point? s)
  let (patch, _) ← digits? (← point? s)
  some ⟨part major, part minor, part patch⟩

def find? : List Char → Option Version
  | [] => none
  | c :: rest =>
    match atFront? (c :: rest) with
    | some v => some v
    | none => find? rest

/-- The version in a path; zero throughout if there is none. -/
def ofPath (p : Path) : Version := (find? p.text.toList).getD ⟨0, 0, 0⟩

end Version

/-- The later of two archives; the first if their versions are equal. -/
def later (a b : Path) : Path := if (Version.ofPath a).before (Version.ofPath b) then b else a

/-- The first archive of the greatest version. -/
def newest? : List Path → Option Path
  | [] => none
  | p :: rest => some (rest.foldl later p)

end HelpMiner.Archive
