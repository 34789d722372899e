/-! # Binary floating-point numbers by their exact value

A number is kept as the rational that it stands for.  Every operation computes exactly and then
takes the nearest number with 53 significant binary places (fewer near zero), a tie going to the
even neighbour: `Binary64.nearest`.  Infinite values do not occur.
-/

namespace SuiteAudit

/-- The integer nearest to a rational, a tie going to the even one. -/
def roundEven (r : Rat) : Int :=
  let below := r.floor
  let excess := r - below
  if excess < 1 / 2 then below
  else if 1 / 2 < excess then below + 1
  else if below % 2 = 0 then below else below + 1

/-- A base to an integer power, as a rational. -/
def ratPow (base : Nat) (e : Int) : Rat :=
  if 0 ≤ e then (base.pow e.toNat : Rat) else 1 / (base.pow (-e).toNat : Rat)

/-- The largest `e` such that `base ^ e` is at most `r`, for a positive rational `r`, given that it
is `guess` or the integer below. -/
def settleExponent (base : Nat) (r : Rat) (guess : Int) : Int :=
  if ratPow base guess ≤ r then guess else guess - 1

/-- The exponent of the leading binary place of a positive rational. -/
def binaryExponent (r : Rat) : Int :=
  settleExponent 2 r ((Nat.log2 r.num.natAbs : Int) - Nat.log2 r.den)

/-- A finite binary floating-point number. -/
structure Binary64 where
  value : Rat
  deriving DecidableEq

namespace Binary64

/-- The distance between the numbers around a positive rational, as a power of two. -/
def spacing (r : Rat) : Int := max (binaryExponent r - 52) (-1074)

/-- The number nearest to a rational, a tie going to the one with an even last place. -/
def nearest (r : Rat) : Binary64 :=
  if r = 0 then ⟨0⟩
  else
    let unit := ratPow 2 (spacing r.abs)
    ⟨roundEven (r / unit) * unit⟩

def ofInt (n : Int) : Binary64 := nearest n

def ofNat (n : Nat) : Binary64 := nearest n

/-- The number nearest to a decimal fraction with the given denominator. -/
def ofRatio (num : Int) (den : Nat) : Binary64 := nearest (mkRat num den)

instance : Add Binary64 := ⟨fun a b => nearest (a.value + b.value)⟩
instance : Sub Binary64 := ⟨fun a b => nearest (a.value - b.value)⟩
instance : Mul Binary64 := ⟨fun a b => nearest (a.value * b.value)⟩
instance : Div Binary64 := ⟨fun a b => nearest (a.value / b.value)⟩
instance : LE Binary64 := ⟨fun a b => a.value ≤ b.value⟩
instance : LT Binary64 := ⟨fun a b => a.value < b.value⟩
instance (a b : Binary64) : Decidable (a ≤ b) := inferInstanceAs (Decidable (a.value ≤ b.value))
instance (a b : Binary64) : Decidable (a < b) := inferInstanceAs (Decidable (a.value < b.value))

def zero : Binary64 := ⟨0⟩

def min (a b : Binary64) : Binary64 := if b < a then b else a

def max (a b : Binary64) : Binary64 := if a < b then b else a

/-- The sum of some numbers from left to right. -/
def sum (xs : List Binary64) : Binary64 := xs.foldl (· + ·) zero

/-- The number nearest to the decimal with `places` places that is nearest to `x`. -/
def roundTo (places : Nat) (x : Binary64) : Binary64 :=
  let scale : Rat := ratPow 10 places
  nearest (roundEven (x.value * scale) / scale)

end Binary64
end SuiteAudit
