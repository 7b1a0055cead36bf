/-! The shortest decimal that reads back as a given binary number. -/
namespace HelpMiner.Decimal

/-- The positive number `digits * 10 ^ exponent`. -/
structure Scientific where
  digits : Nat
  exponent : Int
  deriving DecidableEq, Repr

/-- A positive fraction, and the ends of the interval of numbers that round to it. -/
structure Target where
  num : Nat
  low : Nat
  high : Nat
  den : Nat
  /-- Whether the ends belong to the interval. -/
  closed : Bool
  deriving Repr

/-- The target of `mantissa * 2 ^ exponent`; `halved` says that the gap below is half the gap
    above. Ends belong to it if the mantissa is even. -/
def Target.ofBinary (mantissa : Nat) (exponent : Int) (halved : Bool) : Target :=
  let up := Nat.pow 2 (exponent - 2).toNat
  { num := 4 * mantissa * up
    low := (4 * mantissa - if halved then 1 else 2) * up
    high := (4 * mantissa + 2) * up
    den := Nat.pow 2 (2 - exponent).toNat
    closed := mantissa % 2 == 0 }

def Target.holds (t : Target) (d : Nat) (k : Int) : Bool :=
  let x := d * Nat.pow 10 k.toNat * t.den
  let scale := Nat.pow 10 (-k).toNat
  if t.closed then t.low * scale ≤ x && x ≤ t.high * scale
  else t.low * scale < x && x < t.high * scale

/-- The point of the grid of step `10 ^ k` below the number, and twice what it falls short by,
    against a whole step. -/
def Target.below (t : Target) (k : Int) : Nat × Ordering :=
  let n := t.num * Nat.pow 10 (-k).toNat
  let d := t.den * Nat.pow 10 k.toNat
  (n / d, compare (2 * (n % d)) d)

/-- The point of a grid nearest to the number, if it is in the interval; the upper one of two. -/
def Target.onGrid? (t : Target) (k : Int) : Option Scientific :=
  let (d, side) := t.below k
  let order := if side == .lt then [d, d + 1] else [d + 1, d]
  (order.find? fun x => t.holds x k).map fun x => ⟨x, k⟩

/-- How many digits the number has before the point, or how few zeros after it, as the least `e`
    with the number below `10 ^ e`. -/
def Target.magnitude (t : Target) : Int :=
  if t.den ≤ t.num then (Nat.toDigits 10 (t.num / t.den)).length
  else 1 - ((List.range 400).find? fun j => t.den ≤ t.num * Nat.pow 10 j).getD 400

/-- The shortest decimal in the interval: the first grid that has one, from coarse to fine. -/
def Target.shortest (t : Target) : Scientific :=
  ((List.range 17).findSome? fun n : Nat => t.onGrid? (t.magnitude - 1 - n)).getD
    ⟨(t.below (t.magnitude - 17)).1, t.magnitude - 17⟩

/-- Trailing zeros moved from the digits into the exponent. -/
def Scientific.trimmed (s : Scientific) : Scientific :=
  let zeros := ((Nat.toDigits 10 s.digits).reverse.takeWhile (· == '0')).length
  if s.digits == 0 then s else ⟨s.digits / Nat.pow 10 zeros, s.exponent + zeros⟩

def ofFloat (x : Float) : Scientific :=
  let bits := x.toBits.toNat
  let biased : Nat := bits / Nat.pow 2 52 % 2048
  let fraction : Nat := bits % Nat.pow 2 52
  let target : Target :=
    if biased == 0 then .ofBinary fraction (-1074) false
    else .ofBinary (Nat.pow 2 52 + fraction) ((biased : Int) - 1075) (fraction == 0 && biased != 1)
  target.shortest.trimmed

/-- Digits with the point in its place: no exponent, and a zero before a leading point. -/
def Scientific.positional (s : Scientific) : String :=
  let ds := Nat.toDigits 10 s.digits
  if 0 ≤ s.exponent then String.ofList (ds ++ List.replicate s.exponent.toNat '0')
  else
    let places := (-s.exponent).toNat
    let padded := List.replicate (places + 1 - ds.length) '0' ++ ds
    let whole := padded.length - places
    String.ofList (padded.take whole ++ '.' :: padded.drop whole)

/-- One digit before the point, the others after it, and an exponent of ten with its sign. -/
def Scientific.withExponent (s : Scientific) : String :=
  let ds := Nat.toDigits 10 s.digits
  let exponent : Int := s.exponent + Int.ofNat (ds.length - 1)
  let fraction := if ds.length ≤ 1 then [] else '.' :: ds.drop 1
  let sign := if exponent < 0 then "-" else "+"
  String.ofList (ds.take 1 ++ fraction) ++ "e" ++ sign ++ toString exponent.natAbs

/-- A text with a point, if it has none, and a zero after it. -/
def pointed (s : String) : String := if s.toList.contains '.' then s else s ++ ".0"

def isNegative (x : Float) : Bool := Nat.pow 2 63 ≤ x.toBits.toNat

/-- How to write a finite number: its sign, and zero or the shortest decimal by `write`. -/
def finiteText (write : Scientific → String) (x : Float) : String :=
  (if isNegative x then "-" else "") ++ if x == 0 then "0.0" else write (ofFloat x.abs)

def plainText (x : Float) : String :=
  if x.isNaN then "NaN"
  else if x.isInf then (if isNegative x then "-inf" else "inf")
  else finiteText (fun s => pointed s.positional) x

/-- A number with a point, or with an exponent unless its first digit stands at most five places
    after the point and at most sixteen before it. -/
def compactText (x : Float) : String :=
  finiteText (fun s =>
    let digits := (Nat.toDigits 10 s.digits).length
    let point : Int := s.exponent + digits
    if -5 < point && point ≤ 16 then pointed s.positional else s.withExponent) x

end HelpMiner.Decimal
