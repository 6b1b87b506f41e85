import DrillCycles.Binary64.Basic
import DrillCycles.Text.Basic

/-!
# Words: letters with numbers

A word is one of seven letters directly followed by a decimal numeral, such as `Z-5` or `Q.5`.
Reading never fails.  **`Address.valueIn?`** looks at the occurrences of the letter from the left and
takes the first one that a numeral of finite value follows, so the `Z` of `(Z axis) Z-2` is `-2`.

A numeral is an optional sign, then digits with or without a point among or behind them, or a point
and digits: **`Numeral.leading?`** reads the longest one at the start of a text.  There are no
exponents.
-/

namespace DrillCycles

/-- The letters that are read from drilling lines. -/
inductive Address where
  | x
  | y
  | z
  | r
  | f
  | p
  | q
  deriving DecidableEq, Repr

/-- The letter of an address. -/
def Address.letter : Address → Char
  | .x => 'X'
  | .y => 'Y'
  | .z => 'Z'
  | .r => 'R'
  | .f => 'F'
  | .p => 'P'
  | .q => 'Q'

/-- A written decimal number. -/
structure Numeral where
  /-- Whether a minus sign stands before it. -/
  negative : Bool
  /-- The digits before the point. -/
  whole : Text
  /-- The digits behind the point. -/
  fraction : Text
  deriving DecidableEq, Repr

namespace Numeral

/-- The double-precision number nearest to a numeral. -/
def value (n : Numeral) : Binary64 :=
  .ofDecimal n.negative (Nat.ofDigitChars 10 (n.whole ++ n.fraction) 0) n.fraction.length

/-- The numeral without a sign at the start of a text. -/
def leadingUnsigned? (negative : Bool) (t : Text) : Option Numeral :=
  let whole := t.takeWhile Char.isDigit
  let fraction :=
    match t.dropWhile Char.isDigit with
    | '.' :: rest => rest.takeWhile Char.isDigit
    | _ => []
  if whole.isEmpty && fraction.isEmpty then none else some ⟨negative, whole, fraction⟩

/-- The longest numeral at the start of a text. -/
def leading? : Text → Option Numeral
  | '-' :: t => leadingUnsigned? true t
  | '+' :: t => leadingUnsigned? false t
  | t => leadingUnsigned? false t

/-- The value of the longest numeral at the start of a text, if it is finite. -/
def leadingValue? (t : Text) : Option Binary64 :=
  ((leading? t).map value).filter Binary64.isFinite

end Numeral

/-- The value of the first word with this letter in a text. -/
def Address.valueIn? (address : Address) : Text → Option Binary64
  | [] => none
  | c :: t =>
    match if c = address.letter then Numeral.leadingValue? t else none with
    | some value => some value
    | none => address.valueIn? t

/-- The values of all words that a hole line may carry. -/
structure HoleWords where
  x : Option Binary64 := none
  y : Option Binary64 := none
  z : Option Binary64 := none
  r : Option Binary64 := none
  f : Option Binary64 := none
  p : Option Binary64 := none
  q : Option Binary64 := none
  deriving DecidableEq, Repr

/-- Reads all words of a line. -/
def HoleWords.read (line : Text) : HoleWords where
  x := Address.x.valueIn? line
  y := Address.y.valueIn? line
  z := Address.z.valueIn? line
  r := Address.r.valueIn? line
  f := Address.f.valueIn? line
  p := Address.p.valueIn? line
  q := Address.q.valueIn? line

end DrillCycles
