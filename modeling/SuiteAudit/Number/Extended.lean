import SuiteAudit.Number.Binary64
import SuiteAudit.Text.Basic

/-! # Values beside the finite numbers

A floating-point value is a finite number, a zero with a minus, an infinity or no number at all.
`Extended.ofRat` rounds a rational to the nearest value, `≤` and `<` never hold for what is no
number, and a whole number or a finite mean may be asked for and refused with a `NumberFault`.
-/

namespace SuiteAudit

/-- Why a number cannot be had. -/
inductive NumberFault where
  /-- A whole number is beyond the finite numbers. -/
  | tooLarge
  /-- A quotient of whole numbers is beyond the finite numbers. -/
  | largeQuotient
  | infinite
  | undefined
  deriving DecidableEq, Repr

def NumberFault.message : NumberFault → Text
  | tooLarge => "int too large to convert to float"
  | largeQuotient => "integer division result too large for a float"
  | infinite => "cannot convert float infinity to integer"
  | undefined => "cannot convert float NaN to integer"

/-- A floating-point value. -/
inductive Extended where
  | finite (x : Binary64)
  | negativeZero
  | infinite (negative : Bool)
  | undefined
  deriving DecidableEq

namespace Extended

instance : Coe Binary64 Extended := ⟨finite⟩

def zero : Extended := finite .zero

/-- The number that a value stands for, and zero when there is none. -/
def value : Extended → Rat
  | finite x => x.value
  | _ => 0

/-- A whole number to compare with, which is not rounded. -/
def ofWhole (n : Int) : Extended := finite ⟨n⟩

/-- Finite numbers are smaller. -/
def bound : Rat := ratPow 2 1024

/-- The value nearest to a rational; a negative one that is too near to zero keeps its sign. -/
def ofRat (r : Rat) : Extended :=
  let x := Binary64.nearest r
  if bound ≤ x.value.abs then infinite (r < 0)
  else if x.value = 0 ∧ r < 0 then negativeZero
  else finite x

/-- The number nearest to a whole number, if one is near. -/
def ofInt (n : Int) : Except NumberFault Binary64 :=
  match ofRat n with
  | finite x => .ok x
  | _ => .error .tooLarge

/-- Whether a value has a minus in front. -/
def isNegative : Extended → Bool
  | finite x => x.value < 0
  | negativeZero => true
  | infinite negative => negative
  | undefined => false

/-! ### Order -/

/-- Whether a value is a number and at most another one. -/
def atMost : Extended → Extended → Bool
  | undefined, _ => false
  | _, undefined => false
  | infinite true, _ => true
  | _, infinite false => true
  | infinite false, _ => false
  | _, infinite true => false
  | a, b => a.value ≤ b.value

instance : LE Extended := ⟨fun a b => a.atMost b = true⟩
instance : LT Extended := ⟨fun a b => a.atMost b = true ∧ b.atMost a = false⟩
instance (a b : Extended) : Decidable (a ≤ b) := inferInstanceAs (Decidable (a.atMost b = true))
instance (a b : Extended) : Decidable (a < b) :=
  inferInstanceAs (Decidable (a.atMost b = true ∧ b.atMost a = false))

/-! ### Means -/

def add : Extended → Extended → Extended
  | undefined, _ => undefined
  | _, undefined => undefined
  | infinite a, infinite b => if a = b then infinite a else undefined
  | infinite a, _ => infinite a
  | _, infinite b => infinite b
  | a, b => ofRat (a.value + b.value)

/-- The sum of some values from left to right, starting at zero. -/
def sum (xs : List Extended) : Extended := xs.foldl add zero

/-- A value divided by a positive number. -/
def divide (n : Nat) : Extended → Extended
  | finite x => ofRat (x.value / n)
  | x => x

/-- The mean of some values. -/
def mean (xs : List Extended) : Extended := (sum xs).divide xs.length

/-- The value nearest to the decimal with `places` places that is nearest to `x`. -/
def roundTo (places : Nat) : Extended → Extended
  | finite x =>
    let rounded := Binary64.roundTo places x
    if rounded.value = 0 ∧ x.value < 0 then negativeZero else finite rounded
  | x => x

/-- The whole number nearest to a value, a tie going to the even one. -/
def round : Extended → Except NumberFault Int
  | infinite _ => .error .infinite
  | undefined => .error .undefined
  | x => .ok (roundEven x.value)

/-- The quotient of two whole numbers, rounded to a whole number. -/
def roundedQuotient (total : Int) (count : Nat) : Except NumberFault Int :=
  match ofRat (mkRat total count) with
  | infinite _ => .error .largeQuotient
  | x => x.round

end Extended
end SuiteAudit
