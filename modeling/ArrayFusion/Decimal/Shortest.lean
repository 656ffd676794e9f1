/-
ArrayFusion/Decimal/Shortest.lean

The shortest decimal text of a double that reads back as the same double.

The reals that round to a double form an interval round it, whose ends
belong to it exactly when the double's word is even.  For one digit, two
digits and so on the two neighbours of the value on that decimal grid are
tested against the interval in exact arithmetic.  The first grid with a
neighbour inside wins, the nearer neighbour if both are, and of two equally
near ones the upper.

Numbers from `1e-4` up to `1e16` are written positionally and always with a
fraction; all others in scientific notation, without a plus sign and
without a forced fraction.
-/
import ArrayFusion.Binary64.Format

namespace ArrayFusion.Decimal

/-- The `k`-th power of ten. -/
def pow10 (k : Nat) : Nat :=
  Nat.pow 10 k

/-- A positive rational. -/
structure Ratio where
  num : Nat
  den : Nat

/-- `r * 10 ^ k`. -/
def Ratio.shift (r : Ratio) (k : Int) : Ratio :=
  match k with
  | .ofNat n => ⟨r.num * pow10 n, r.den⟩
  | .negSucc n => ⟨r.num, r.den * pow10 (n + 1)⟩

/-- Whether `r < n`. -/
def Ratio.ltNat (r : Ratio) (n : Nat) : Bool :=
  decide (r.num < n * r.den)

/-- The digits of `0.ddd * 10 ^ exponent`, as one number and their count. -/
structure Digits where
  value : Nat
  count : Nat
  exponent : Int

/-- Least `k`, from `start` on, with `r < 10 ^ k`. -/
def exponentFrom (r : Ratio) : (tries : Nat) → (start : Int) → Int
  | 0, k => k
  | n + 1, k => if (r.shift (-k)).ltNat 1 then k else exponentFrom r n (k + 1)

/-- The exponent of the first digit after the point.  Three tenths of the
binary exponent, rounded down, is at most a few short of it. -/
def leadExponent (r : Ratio) : Int :=
  let binary : Int := (r.num.log2 : Int) - (r.den.log2 : Int)
  exponentFrom r 6 (Int.fdiv (binary * 30103) 100000 - 1)

/-- An interval round a value, with a common denominator. -/
structure Interval where
  low : Nat
  mid : Nat
  high : Nat
  den : Nat
  closed : Bool

/-- Whether the grid point `c` of width `10 ^ e` lies in the interval. -/
def Interval.holds (i : Interval) (c : Nat) (e : Int) : Bool :=
  let low := Ratio.shift ⟨i.low, i.den⟩ (-e)
  let high := Ratio.shift ⟨i.high, i.den⟩ (-e)
  if i.closed then decide (low.num ≤ c * low.den) && decide (c * high.den ≤ high.num)
  else decide (low.num < c * low.den) && decide (c * high.den < high.num)

/-- The best grid point with `n` digits, if one lies in the interval. -/
def Interval.digits? (i : Interval) (k : Int) (n : Nat) : Option Nat :=
  let e := k - n
  let mid := Ratio.shift ⟨i.mid, i.den⟩ (-e)
  let below := mid.num / mid.den
  let rest := mid.num % mid.den
  match i.holds below e, i.holds (below + 1) e with
  | true, true => some (if 2 * rest < mid.den then below else below + 1)
  | true, false => some below
  | false, true => some (below + 1)
  | false, false => none

/-- Tries `n`, `n + 1`, … digits.  Seventeen always suffice. -/
def Interval.shortestFrom (i : Interval) (k : Int) : (tries n : Nat) → Digits
  | 0, n => ⟨Ratio.num (Ratio.shift ⟨i.mid, i.den⟩ (n - k)) / i.den, n, k⟩
  | t + 1, n =>
    match i.digits? k n with
    | some c => if c = pow10 n then ⟨1, 1, k + 1⟩ else ⟨c, n, k⟩
    | none => i.shortestFrom k t (n + 1)

/-- The shortest digits of a positive finite word. -/
def shortest (word : Nat) : Digits :=
  let at_ := FloatFormat.binary64.magnitudeOf
  let i : Interval :=
    ⟨at_ (word - 1) + at_ word, 2 * at_ word, at_ word + at_ (word + 1), pow2 1075, word % 2 == 0⟩
  i.shortestFrom (leadExponent ⟨i.mid, i.den⟩) 17 1

/-- `n` zeros. -/
def zeros (n : Nat) : String :=
  String.ofList (List.replicate n '0')

/-- Decimal digits, left-padded with zeros to `count`. -/
def padded (value count : Nat) : String :=
  let text := toString value
  zeros (count - text.length) ++ text

/-- Writes digits positionally, with at least one digit after the point. -/
def Digits.positional (d : Digits) : String :=
  if d.exponent ≤ 0 then "0." ++ zeros (-d.exponent).toNat ++ padded d.value d.count
  else
    let k := d.exponent.toNat
    if d.count ≤ k then toString d.value ++ zeros (k - d.count) ++ ".0"
    else
      let unit := pow10 (d.count - k)
      toString (d.value / unit) ++ "." ++ padded (d.value % unit) (d.count - k)

/-- Writes digits with one digit before the point and a power of ten. -/
def Digits.scientific (d : Digits) : String :=
  let unit := pow10 (d.count - 1)
  let lead := toString (d.value / unit)
  let fraction := if d.count ≤ 1 then "" else "." ++ padded (d.value % unit) (d.count - 1)
  lead ++ fraction ++ "e" ++ toString (d.exponent - 1)

/-- The text of a positive finite word. -/
def wordText (word : Nat) : String :=
  let d := shortest word
  if -4 < d.exponent && d.exponent ≤ 16 then d.positional else d.scientific

/-- The text of a double. -/
def text (x : Float) : String :=
  if x.isNaN then "NaN"
  else
    let signText := if Binary64.isNegative x then "-" else ""
    if x.isInf then signText ++ "inf"
    else if Binary64.word x = 0 then signText ++ "0.0"
    else signText ++ wordText (Binary64.word x)

end ArrayFusion.Decimal
