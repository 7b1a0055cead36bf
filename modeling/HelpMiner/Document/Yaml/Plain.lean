import HelpMiner.Decimal.Shortest
import HelpMiner.Document.Problem
import HelpMiner.Text.Digit

/-! What plain scalars mean: null, truth values, integers and real numbers; all others are texts. -/
namespace HelpMiner.Document.Yaml

def isNull (s : List Char) : Bool :=
  ["~", "null", "Null", "NULL"].any fun w => w.toList == s

def bool? (s : List Char) : Option Bool :=
  if ["true", "True", "TRUE"].any fun w => w.toList == s then some true
  else if ["false", "False", "FALSE"].any fun w => w.toList == s then some false
  else none

/-- Digits that begin with a zero, after a sign or none: a text, not a number. -/
def hasLeadingZero (s : List Char) : Bool :=
  let digits := match s with
    | '-' :: rest => rest
    | '+' :: rest => rest
    | _ => s
  1 < digits.length && digits.head? == some '0' && digits.all Char.isDigit

def natural? (base : Nat) (s : List Char) : Option Nat :=
  if s.isEmpty then none else Text.digitsFrom? base 0 s

def based? : List Char → Option Nat
  | '0' :: 'x' :: rest => natural? 16 rest
  | '0' :: 'o' :: rest => natural? 8 rest
  | '0' :: 'b' :: rest => natural? 2 rest
  | _ => none

def unsigned? (limit : Nat) (s : List Char) : Option Nat :=
  let digits := match s with
    | '+' :: rest => rest
    | _ => s
  match (based? digits).filter (· < limit) with
  | some n => some n
  | none => if hasLeadingZero s then none else (natural? 10 digits).filter (· < limit)

/-- How far a negative number is below zero, at most `limit`. -/
def negative? (limit : Nat) (s : List Char) : Option Nat :=
  match s with
  | '-' :: digits =>
    match (based? digits).filter (· ≤ limit) with
    | some n => some n
    | none => if hasLeadingZero s then none else (natural? 10 digits).filter (· ≤ limit)
  | _ => none

/-- A decimal number `digits * 10 ^ exponent` with its sign. -/
structure Real where
  negative : Bool
  digits : Nat
  exponent : Int
  deriving Repr

def exponent? (s : List Char) : Option Int :=
  match s with
  | '+' :: digits => (natural? 10 digits).map Int.ofNat
  | '-' :: digits => (natural? 10 digits).map fun n => -Int.ofNat n
  | digits => (natural? 10 digits).map Int.ofNat

/-- A decimal number: digits with a point among them or none, and perhaps an exponent. -/
def real? (s : List Char) : Option Real := do
  let (negative, s) := match s with
    | '-' :: rest => (true, rest)
    | '+' :: rest => (false, rest)
    | _ => (false, s)
  let whole := s.takeWhile Char.isDigit
  let rest := s.dropWhile Char.isDigit
  let (fraction, rest) := match rest with
    | '.' :: more => (more.takeWhile Char.isDigit, more.dropWhile Char.isDigit)
    | _ => ([], rest)
  let digits ← natural? 10 (whole ++ fraction)
  let exponent ← match rest with
    | [] => some 0
    | 'e' :: more => exponent? more
    | 'E' :: more => exponent? more
    | _ => none
  some ⟨negative, digits, exponent - fraction.length⟩

namespace Real

/-- Whether the number rounds to a finite double-precision number. -/
def isFinite (r : Real) : Bool :=
  let digits : Int := (Nat.toDigits 10 r.digits).length
  if r.digits == 0 || digits + r.exponent < 300 then true
  else if 310 < digits + r.exponent then false
  else r.digits * Nat.pow 10 r.exponent.toNat <
      (Nat.pow 2 54 - 1) * Nat.pow 2 970 * Nat.pow 10 (-r.exponent).toNat

def toFloat (r : Real) : Float :=
  let digits : Int := (Nat.toDigits 10 r.digits).length
  let x :=
    if r.digits == 0 || digits + r.exponent < -400 then 0.0
    else Float.ofScientific r.digits (r.exponent < 0) r.exponent.natAbs
  if r.negative then -x else x

end Real

def realText? (s : List Char) : Option String :=
  let (plus, unsigned) := match s with
    | '+' :: rest => (true, rest)
    | _ => (false, s)
  let is (words : List String) (t : List Char) : Bool := words.any fun w => w.toList == t
  if plus && unsigned.head?.any fun c => c == '+' || c == '-' then none
  else if is [".inf", ".Inf", ".INF"] unsigned then some "inf"
  else if is ["-.inf", "-.Inf", "-.INF"] s then some "-inf"
  else if is [".nan", ".NaN", ".NAN"] s then some "NaN"
  else ((real? unsigned).filter Real.isFinite).map fun r => Decimal.plainText r.toFloat

def integer? (s : List Char) : Option Found :=
  match unsigned? (Nat.pow 2 64) s, negative? (Nat.pow 2 63) s, unsigned? (Nat.pow 2 128) s,
      negative? (Nat.pow 2 127) s with
  | some n, _, _, _ => some (.integer n)
  | _, some n, _, _ => some (.integer (-n))
  | _, _, some n, _ => some (.wideInteger n "u128")
  | _, _, _, some n => some (.wideInteger (-n) "i128")
  | _, _, _, _ => none

def plainFound (s : List Char) : Found :=
  if s.isEmpty || isNull s then .absent "unit value"
  else match bool? s, integer? s, realText? s with
    | some b, _, _ => .bool b
    | _, some n, _ => n
    | _, _, some r => if hasLeadingZero s then .string (String.ofList s) else .real r
    | _, _, _ => .string (String.ofList s)

/-- Whether a plain scalar is read as something else than a text, or could be taken for it. -/
def isAmbiguous (s : List Char) : Bool :=
  s.isEmpty || isNull s || (bool? s).isSome || (integer? s).isSome || hasLeadingZero s ||
    (realText? s).isSome

end HelpMiner.Document.Yaml
