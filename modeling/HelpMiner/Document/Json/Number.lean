import HelpMiner.Decimal.Shortest
import HelpMiner.Document.Problem
import HelpMiner.Text.Digit

/-! JSON numbers: integers of 64 bits, and all others as double-precision numbers. -/
namespace HelpMiner.Document.Json

inductive Number where
  /-- A number below 2^64 without sign. -/
  | unsigned (n : Nat)
  /-- A negative number not below -2^63. -/
  | negative (n : Int)
  | real (x : Float)

/-- What a number is called where something else was expected. -/
def Number.found : Number → Found
  | unsigned n => .integer n
  | negative n => .integer n
  | real x => .real (Decimal.compactText x)

/-- The longest leading digits whose number is below 2^64, continuing from `n`, and the rest. -/
def significand (n : Nat) : List Char → Nat × List Char
  | [] => (n, [])
  | c :: rest =>
    if c.isDigit then
      let m := n * 10 + (c.toNat - '0'.toNat)
      if m < Nat.pow 2 64 then significand m rest else (n, c :: rest)
    else (n, c :: rest)

/-- `x * 10 ^ exponent`, by one multiplication or division when the power is a number itself. -/
def scaled (x : Float) (exponent : Int) : Option Float :=
  let power (k : Nat) : Float := Float.ofScientific 1 false k
  if 0 ≤ exponent then
    if 308 < exponent then (if x == 0 then some x else none)
    else
      let y := x * power exponent.toNat
      if y.isInf then none else some y
  else
    -- A power beyond 10^308 is no number, so the division goes by one power after another.
    let k := (-exponent).toNat
    if k ≤ 308 then some (x / power k)
    else if k ≤ 616 then some (x / power 308 / power (k - 308))
    else some (x / power 308 / power 308 / power 308)

def real (negative : Bool) (digits : Nat) (exponent : Int) : Except Problem Number :=
  match scaled (UInt64.ofNat digits).toFloat exponent with
  | some x => .ok (.real (if negative then -x else x))
  | none => .error .malformed

/-- The digits of an exponent after its sign. Its size matters only below 2^31. -/
def exponentDigits (negative : Bool) (digits : Nat) (start : Int) (minus : Bool)
    (s : List Char) : Except Problem (Number × List Char) :=
  match s with
  | [] => .error .unfinished
  | c :: _ =>
    if c.isDigit then
      let ds := s.takeWhile Char.isDigit
      let rest := s.dropWhile Char.isDigit
      let value := (Text.digitsFrom? 10 0 ds).getD 0
      -- So large an exponent leaves zero, or a number that is too large.
      if Nat.pow 2 31 ≤ value then
        if digits == 0 || minus then .ok (.real (if negative then -0.0 else 0.0), rest)
        else .error .malformed
      else (real negative digits (if minus then start - value else start + value)).map (·, rest)
    else .error .malformed

def exponent (negative : Bool) (digits : Nat) (start : Int) :
    List Char → Except Problem (Number × List Char)
  | '+' :: rest => exponentDigits negative digits start false rest
  | '-' :: rest => exponentDigits negative digits start true rest
  | rest => exponentDigits negative digits start false rest

/-- What follows the digits of a real number: an exponent or nothing. -/
def realEnd (negative : Bool) (digits : Nat) (start : Int) :
    List Char → Except Problem (Number × List Char)
  | 'e' :: rest => exponent negative digits start rest
  | 'E' :: rest => exponent negative digits start rest
  | rest => (real negative digits start).map (·, rest)

/-- A fraction after its point. Digits past the significand are left out. -/
def fraction (negative : Bool) (digits : Nat) (start : Int) (s : List Char) :
    Except Problem (Number × List Char) :=
  match s with
  | [] => .error .unfinished
  | c :: _ =>
    if c.isDigit then
      let (all, rest) := significand digits s
      let places : Int := Int.ofNat s.length - Int.ofNat rest.length
      realEnd negative all (start - places) (rest.dropWhile Char.isDigit)
    else .error .malformed

/-- The parts of a number after the digits before its point, some of which may be left excess. -/
def afterWhole (negative : Bool) (digits : Nat) (s : List Char) :
    Except Problem (Number × List Char) :=
  let excess := s.takeWhile Char.isDigit
  match s.dropWhile Char.isDigit with
  | '.' :: rest => fraction negative digits excess.length rest
  | 'e' :: rest => exponent negative digits excess.length rest
  | 'E' :: rest => exponent negative digits excess.length rest
  | rest =>
    if !excess.isEmpty then (real negative digits excess.length).map (·, rest)
    else if !negative then .ok (.unsigned digits, rest)
    -- Minus zero and what is below -2^63 are no integers here.
    else if digits == 0 || Nat.pow 2 63 < digits then
      .ok (.real (-(UInt64.ofNat digits).toFloat), rest)
    else .ok (.negative (-digits), rest)

def number (negative : Bool) (s : List Char) : Except Problem (Number × List Char) :=
  match s with
  | [] => .error .unfinished
  | '0' :: rest =>
    if rest.head?.any Char.isDigit then .error .malformed else afterWhole negative 0 rest
  | c :: _ =>
    if c.isDigit then
      let (digits, rest) := significand 0 s
      afterWhole negative digits rest
    else .error .malformed

def skipExponent (s : List Char) : Except Problem (List Char) :=
  let digits := match s with
    | '+' :: rest => rest
    | '-' :: rest => rest
    | _ => s
  if digits.head?.any Char.isDigit then .ok (digits.dropWhile Char.isDigit) else .error .malformed

/-- What follows the whole part of a number that is passed over. -/
def skipFraction (s : List Char) : Except Problem (List Char) :=
  match s with
  | '.' :: rest =>
    if rest.head?.any Char.isDigit then
      match rest.dropWhile Char.isDigit with
      | 'e' :: more => skipExponent more
      | 'E' :: more => skipExponent more
      | more => .ok more
    else .error .malformed
  | 'e' :: rest => skipExponent rest
  | 'E' :: rest => skipExponent rest
  | _ => .ok s

def skipNumber (s : List Char) : Except Problem (List Char) :=
  match s with
  | '0' :: rest => if rest.head?.any Char.isDigit then .error .malformed else skipFraction rest
  | c :: rest =>
    if c.isDigit then skipFraction (rest.dropWhile Char.isDigit) else .error .malformed
  | [] => .error .malformed

end HelpMiner.Document.Json
