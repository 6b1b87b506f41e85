import DrillCycles.Text.Basic

/-!
# Scalars of a settings file

Settings files are written in TOML.  This module reads the smallest parts of that format: layout,
keys, strings and whole numbers.  Every reader takes the text from where it stands and gives what it
has read together with the rest of the text, or nothing when the text does not have the right form.

Fractions, dates and times are values of the format too.  No setting has such a value, so a file that
contains one is refused anyway, and there are no readers for them.
-/

namespace DrillCycles.SettingsFile

/-! ## Layout -/

/-- Whether a character must not stand in a comment or a string as it is. -/
def isControl (c : Char) : Bool :=
  (c.toNat < 0x20 && c != '\t') || c.toNat == 0x7F

/-- What follows a line end. -/
def newline? : Text → Option Text
  | '\n' :: t => some t
  | '\r' :: '\n' :: t => some t
  | _ => none

/-- The text behind spaces and tabs. -/
def skipSpaces (t : Text) : Text :=
  t.dropWhile fun c => c == ' ' || c == '\t'

/-- The text behind a comment, if it starts with one. -/
def skipComment : Text → Text
  | '#' :: t => t.dropWhile (!isControl ·)
  | t => t

/-- What follows the end of a statement: perhaps a comment, then a line end or the end of the text. -/
def statementEnd? (t : Text) : Option Text :=
  match skipComment (skipSpaces t) with
  | [] => some []
  | rest => newline? rest

/-- The text behind spaces, comments and line ends, at most the given number of lines. -/
def skipLinesFrom : Nat → Text → Text
  | 0, t => t
  | n + 1, t =>
    match newline? (skipComment (skipSpaces t)) with
    | some rest => skipLinesFrom n rest
    | none => skipSpaces t

/-- The text behind spaces, comments and line ends. -/
def skipLines (t : Text) : Text :=
  skipLinesFrom (t.length + 1) t

/-! ## Strings -/

/-- The value of a hexadecimal digit. -/
def hexValue? (c : Char) : Option Nat :=
  if c.isDigit then some (c.toNat - '0'.toNat)
  else if 'a' ≤ c && c ≤ 'f' then some (c.toNat - 'a'.toNat + 10)
  else if 'A' ≤ c && c ≤ 'F' then some (c.toNat - 'A'.toNat + 10)
  else none

/-- The value of a text of digits in a base, if all of them are digits of that base. -/
def digitsIn? (base : Nat) (digits : Text) : Option Nat :=
  digits.foldlM (fun value c => do
    let digit ← hexValue? c
    if digit < base then some (base * value + digit) else none) 0

/-- The character whose code is written in the given number of hexadecimal digits. -/
def codeEscape? (count : Nat) (t : Text) : Option (Char × Text) := do
  let code ← digitsIn? 16 (t.take count)
  if (t.take count).length = count && code.isValidChar then some (Char.ofNat code, t.drop count)
  else none

/-- The character that an escape stands for; the text starts behind the backslash. -/
def escape? : Text → Option (Char × Text)
  | 'b' :: t => some ('\x08', t)
  | 't' :: t => some ('\t', t)
  | 'n' :: t => some ('\n', t)
  | 'f' :: t => some ('\x0c', t)
  | 'r' :: t => some ('\r', t)
  | 'e' :: t => some ('\x1b', t)
  | '\x22' :: t => some ('\x22', t)
  | '\x5c' :: t => some ('\x5c', t)
  | 'x' :: t => codeEscape? 2 t
  | 'u' :: t => codeEscape? 4 t
  | 'U' :: t => codeEscape? 8 t
  | _ => none

/-- Reads a string with escapes on one line, behind its opening quote.  The characters read so far
stand in `done`, the last one first. -/
def quotedFrom (done : Text) : Nat → Text → Option (Text × Text)
  | 0, _ => none
  | _ + 1, [] => none
  | n + 1, c :: t =>
    if c = '\x22' then some (done.reverse, t)
    else if c = '\x5c' then do
      let (escaped, rest) ← escape? t
      quotedFrom (escaped :: done) n rest
    else if isControl c then none
    else quotedFrom (c :: done) n t

/-- Reads a string without escapes on one line, behind its opening quote. -/
def literal? (t : Text) : Option (Text × Text) :=
  match t.dropWhile fun c => c != '\x27' && !isControl c with
  | '\x27' :: rest => some (t.takeWhile fun c => c != '\x27' && !isControl c, rest)
  | _ => none

/-- What follows a backslash at the end of a line, and all the blanks and line ends behind it. -/
def continuation? (t : Text) : Option Text :=
  (newline? (skipSpaces t)).map fun rest => rest.dropWhile fun c =>
    c == ' ' || c == '\t' || c == '\n' || c == '\r'

/-- Reads the end of a string over several lines: three to five quotes, of which all but three belong
to the string. -/
def closing? (quote : Char) (done t : Text) : Option (Text × Text) :=
  let quotes := min 5 (t.takeWhile (· == quote)).length
  if 3 ≤ quotes then
    some (done.reverse ++ List.replicate (quotes - 3) quote, t.drop quotes)
  else none

/-- Reads a string over several lines, behind its opening quotes.  Only strings in double quotes have
escapes. -/
def multilineFrom (quote : Char) (done : Text) : Nat → Text → Option (Text × Text)
  | 0, _ => none
  | _ + 1, [] => none
  | n + 1, c :: t =>
    match closing? quote done (c :: t) with
    | some closed => some closed
    | none =>
      match newline? (c :: t) with
      | some rest => multilineFrom quote ('\n' :: done) n rest
      | none =>
        if c = '\x5c' && quote = '\x22' then
          match continuation? t with
          | some rest => multilineFrom quote done n rest
          | none => do
            let (escaped, rest) ← escape? t
            multilineFrom quote (escaped :: done) n rest
        else if isControl c then none
        else multilineFrom quote (c :: done) n t

/-- Reads a string over several lines, behind its opening quotes.  A line end right behind them does
not belong to the string. -/
def multiline? (quote : Char) (t : Text) : Option (Text × Text) :=
  multilineFrom quote [] (t.length + 1) ((newline? t).getD t)

/-- Reads a string on one line, in double or single quotes. -/
def lineString? : Text → Option (Text × Text)
  | '\x22' :: t => quotedFrom [] (t.length + 1) t
  | '\x27' :: t => literal? t
  | _ => none

/-- Reads a string of any form. -/
def string? : Text → Option (Text × Text)
  | '\x22' :: '\x22' :: '\x22' :: t => multiline? '\x22' t
  | '\x27' :: '\x27' :: '\x27' :: t => multiline? '\x27' t
  | t => lineString? t

/-! ## Keys -/

/-- Whether a character can stand in a key without quotes. -/
def isKeyCharacter (c : Char) : Bool :=
  c.isAlphanum || c == '_' || c == '-'

/-- Reads a single key. -/
def key? (t : Text) : Option (Text × Text) :=
  match lineString? t with
  | some quoted => some quoted
  | none =>
    let key := t.takeWhile isKeyCharacter
    if key.isEmpty then none else some (key, t.dropWhile isKeyCharacter)

/-- Reads keys with points between them, and spaces around the points. -/
def pathFrom : Nat → Text → Option (List Text × Text)
  | 0, _ => none
  | n + 1, t => do
    let (key, rest) ← key? t
    match skipSpaces rest with
    | '.' :: more => do
      let (path, rest) ← pathFrom n (skipSpaces more)
      some (key :: path, rest)
    | rest => some ([key], rest)

/-- Reads keys with points between them, and the spaces behind them. -/
def path? (t : Text) : Option (List Text × Text) :=
  pathFrom (t.length + 1) t

/-! ## Whole numbers -/

/-- Digits without the underscores between them.  Every underscore has a digit on both sides. -/
def ungrouped? (digits : Text) : Option Text :=
  let groups := Text.pieces '_' digits
  if groups.any List.isEmpty then none else some groups.flatten

/-- Reads a number in the given base behind its mark. -/
def basedNumber? (base : Nat) (t : Text) : Option (Int × Text) := do
  let isDigit := fun c => (hexValue? c).isSome || c == '_'
  let digits ← ungrouped? (t.takeWhile isDigit)
  let value ← digitsIn? base digits
  some (value, t.dropWhile isDigit)

/-- Reads a decimal number without a sign.  A zero at its front is its only digit. -/
def decimalNumber? (t : Text) : Option (Nat × Text) := do
  let isDigit := fun c : Char => c.isDigit || c == '_'
  let written := t.takeWhile isDigit
  let digits ← ungrouped? written
  if written.head? = some '0' && 1 < written.length then none
  else some (Nat.ofDigitChars 10 digits 0, t.dropWhile isDigit)

/-- Reads a whole number. -/
def integer? : Text → Option (Int × Text)
  | '0' :: 'x' :: t => basedNumber? 16 t
  | '0' :: 'o' :: t => basedNumber? 8 t
  | '0' :: 'b' :: t => basedNumber? 2 t
  | '+' :: t => (decimalNumber? t).map fun (n, rest) => (n, rest)
  | '-' :: t => (decimalNumber? t).map fun (n, rest) => (-n, rest)
  | t => (decimalNumber? t).map fun (n, rest) => (n, rest)

end DrillCycles.SettingsFile
