import DrillCycles.Binary64.Basic

/-!
# Arithmetic on double-precision numbers

Each operation takes the exact result on the values of its operands and rounds it once, to the
nearest number of the format.  What is left is the arithmetic of signs, infinities and `nan`:

* **`sub`**, **`mul`**, **`div`** round the exact difference, product and quotient.
* **`rem`** is what is left after taking the second operand away as often as it fits, with the sign
  of the first; it is always exact.
* **`floor`** and **`round`** give whole numbers.  A zero result keeps the sign of the operand.
* **`key?`** places numbers on the integer line in numeric order, both zeros in one place.  `nan`
  has no place, so it is neither below nor above any number.
-/

namespace DrillCycles

namespace Binary64

/-- The value of a finite number in units, with its sign. -/
def signedUnits (negative : Bool) (rank : Nat) : Int :=
  if negative then -(units rank : Int) else units rank

/-- The place of a number in numeric order. -/
def key? : Binary64 → Option Int
  | .nan => none
  | .infinite negative => some (if negative then -(rankLimit : Int) else rankLimit)
  | .finite negative rank => some (if negative then -(rank.val : Int) else rank.val)

/-- Whether the first number is below the second. -/
def less (x y : Binary64) : Bool :=
  match x.key?, y.key? with
  | some i, some j => i < j
  | _, _ => false

/-- Whether the first number is below the second or equal to it. -/
def lessEq (x y : Binary64) : Bool :=
  match x.key?, y.key? with
  | some i, some j => i ≤ j
  | _, _ => false

instance : LT Binary64 := ⟨fun x y => less x y = true⟩

instance : LE Binary64 := ⟨fun x y => lessEq x y = true⟩

instance (x y : Binary64) : Decidable (x < y) :=
  inferInstanceAs (Decidable (less x y = true))

instance (x y : Binary64) : Decidable (x ≤ y) :=
  inferInstanceAs (Decidable (lessEq x y = true))

/-- The difference.  Equal operands give positive zero, except that negative zero less positive zero
is negative zero. -/
def sub : Binary64 → Binary64 → Binary64
  | .nan, _ => .nan
  | _, .nan => .nan
  | .infinite s, .infinite t => if s = t then .nan else .infinite s
  | .infinite s, .finite .. => .infinite s
  | .finite .., .infinite t => .infinite !t
  | .finite s x, .finite t y =>
    let difference := signedUnits s x - signedUnits t y
    if difference = 0 then ofRank (s && !t) 0
    else nearest (decide (difference < 0)) difference.natAbs 1

/-- The exact product of two finite magnitudes, in units, rounded with the given sign. -/
def mulFinite (negative : Bool) (x y : Nat) : Binary64 :=
  nearest negative ((significand x * significand y) <<< (shift x + shift y - 1074))
    (1 <<< (1074 - (shift x + shift y)))

/-- The exact quotient of two finite magnitudes, in units, rounded with the given sign. -/
def divFinite (negative : Bool) (x y : Nat) : Binary64 :=
  nearest negative (significand x <<< (shift x + 1074 - shift y))
    (significand y <<< (shift y - (shift x + 1074)))

/-- The product. -/
def mul : Binary64 → Binary64 → Binary64
  | .nan, _ => .nan
  | _, .nan => .nan
  | .infinite s, .infinite t => .infinite (s != t)
  | .infinite s, .finite t y => if y.val = 0 then .nan else .infinite (s != t)
  | .finite s x, .infinite t => if x.val = 0 then .nan else .infinite (s != t)
  | .finite s x, .finite t y => mulFinite (s != t) x y

/-- The quotient. -/
def div : Binary64 → Binary64 → Binary64
  | .nan, _ => .nan
  | _, .nan => .nan
  | .infinite _, .infinite _ => .nan
  | .infinite s, .finite t _ => .infinite (s != t)
  | .finite s _, .infinite t => ofRank (s != t) 0
  | .finite s x, .finite t y =>
    if y.val = 0 then if x.val = 0 then .nan else .infinite (s != t)
    else divFinite (s != t) x y

/-- What is left of the first number after taking the second away as often as it fits. -/
def rem : Binary64 → Binary64 → Binary64
  | .finite s x, .finite _ y =>
    if y.val = 0 then .nan else nearest s (units x % units y) 1
  | .finite s x, .infinite _ => .finite s x
  | _, _ => .nan

instance : Sub Binary64 := ⟨sub⟩

instance : Mul Binary64 := ⟨mul⟩

instance : Div Binary64 := ⟨div⟩

instance : Mod Binary64 := ⟨rem⟩

/-- The largest whole number that is not above the number. -/
def floor : Binary64 → Binary64
  | .finite negative rank =>
    let n := units rank
    let whole := n / unitsPerOne
    if n % unitsPerOne = 0 then .finite negative rank
    else nearest negative ((if negative then whole + 1 else whole) * unitsPerOne) 1
  | x => x

/-- The whole number nearest to the number; half-way, the one further from zero. -/
def round : Binary64 → Binary64
  | .finite negative rank =>
    nearest negative (divHalfUp (units rank) unitsPerOne * unitsPerOne) 1
  | x => x

/-- The whole part of a positive finite number; zero for every other number. -/
def toNat : Binary64 → Nat
  | .finite false rank => units rank / unitsPerOne
  | _ => 0

end Binary64

end DrillCycles
