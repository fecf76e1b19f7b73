import ServiceDirectory.Decimal.Double

/-! # The fewest digits that read back

A binary number stands for all reals that round to it. `shortest` looks for the coarsest decimal
grid with a point among them, and takes the point nearest to the number itself. Where two points are
equally near, a `Tie` decides.
-/

namespace ServiceDirectory.Decimal

/-- The number `significand · 10 ^ exponent`. -/
structure Digits where
  significand : Nat
  exponent : Int
  deriving DecidableEq

/-- Which of two neighbours is taken by a number halfway between them. -/
inductive Tie
  | toEven | up
  deriving DecidableEq

def Tie.pick (t : Tie) (down : Nat) : Nat :=
  match t with
  | toEven => if down % 2 = 0 then down else down + 1
  | up => down + 1

/-- The reals `n / d` with `low / d ≤ n / d ≤ high / d`, without the ends unless `closed`. -/
structure Interval where
  low : Nat
  centre : Nat
  high : Nat
  denominator : Nat
  closed : Bool

namespace Interval

/-- The reals that round to `m · 2 ^ q`. Below a power of two the neighbour is half as far. -/
def around (m : Nat) (q : Int) : Interval :=
  let below := if m = 1 <<< 52 ∧ -1074 < q then 1 else 2
  let up := 1 <<< (q - 2).toNat
  ⟨(4 * m - below) * up, 4 * m * up, (4 * m + 2) * up, 1 <<< (2 - q).toNat, m % 2 == 0⟩

/-- The same reals in units of `10 ^ e`. -/
def scale (i : Interval) (e : Int) : Interval :=
  let up := Nat.pow 10 (-e).toNat
  ⟨i.low * up, i.centre * up, i.high * up, i.denominator * Nat.pow 10 e.toNat, i.closed⟩

def contains (i : Interval) (n : Nat) : Bool :=
  let x := n * i.denominator
  if i.closed then i.low ≤ x && x ≤ i.high else i.low < x && x < i.high

def nearest? (i : Interval) (tie : Tie) : Option Nat :=
  let down := i.centre / i.denominator
  match i.contains down, i.contains (down + 1) with
  | true, true => match compare (2 * i.centre) ((2 * down + 1) * i.denominator) with
    | .lt => some down
    | .eq => some (tie.pick down)
    | .gt => some (down + 1)
  | true, false => some down
  | false, true => some (down + 1)
  | false, false => none

/-- The least `k` with the centre below `10 ^ k`. -/
def magnitude (i : Interval) : Int :=
  if i.denominator ≤ i.centre then (Nat.toDigits 10 (i.centre / i.denominator)).length
  else
    let n := (Nat.toDigits 10 (i.denominator / i.centre)).length - 1
    if i.denominator = i.centre * Nat.pow 10 n then 1 - n else -n

end Interval

def stripZeros : (fuel : Nat) → Digits → Digits
  | 0, d => d
  | fuel + 1, d =>
    if d.significand ≠ 0 ∧ d.significand % 10 = 0 then
      stripZeros fuel ⟨d.significand / 10, d.exponent + 1⟩
    else d

/-- The number `m · 2 ^ q` in the fewest digits that read back as it; seventeen always do. -/
def shortest (tie : Tie) (m : Nat) (q : Int) : Digits :=
  let i := Interval.around m q
  let k := i.magnitude
  let found := (List.range 17).findSome? fun n =>
    let e := k - (n + 1 : Nat)
    ((i.scale e).nearest? tie).map fun s => Digits.mk s e
  stripZeros 20 (found.getD ⟨0, 0⟩)

/-- How a number is laid out: positionally while the exponent of its first digit is from `low` up to
and not including `high`, with `.0` after a whole number if `pointed`. -/
structure Layout where
  low : Int
  high : Int
  pointed : Bool
  tie : Tie

namespace Layout

def positional (l : Layout) (ds : List Char) (e : Int) : List Char :=
  let whole := if 0 ≤ e then (ds ++ List.replicate e.toNat '0').take (e.toNat + 1) else ['0']
  let part := if 0 ≤ e then ds.drop (e.toNat + 1) else List.replicate (-e - 1).toNat '0' ++ ds
  if part.isEmpty then whole ++ (if l.pointed then ['.', '0'] else []) else whole ++ '.' :: part

def scientific (ds : List Char) (e : Int) : List Char :=
  let exponent := (if e < 0 then '-' else '+') :: Nat.toDigits 10 e.natAbs
  (match ds with
    | d :: r => if r.isEmpty then [d] else d :: '.' :: r
    | [] => []) ++ 'e' :: exponent

def text (l : Layout) (x : Double) : String :=
  let signed (negative : Bool) (s : List Char) := String.ofList (if negative then '-' :: s else s)
  match x.value with
  | .nan => "NaN"
  | .infinite negative => signed negative ['i', 'n', 'f']
  | .finite negative 0 _ => signed negative (l.positional ['0'] 0)
  | .finite negative m q =>
    let d := shortest l.tie m q
    let ds := Nat.toDigits 10 d.significand
    let e := d.exponent + ds.length - 1
    signed negative (if l.low ≤ e ∧ e < l.high then l.positional ds e else scientific ds e)

end Layout

end ServiceDirectory.Decimal
