import DrillCycles.Tag

/-!
# Statistics of a conversion

Six counts, four on the program and two on what came out of it.  Characters are counted without line
feeds and carriage returns; a tag is counted wherever it stands in the text.
-/

namespace DrillCycles

/-- The counts of a conversion. -/
structure Statistics where
  inputChars : Nat := 0
  inputLines : Nat := 0
  cycles : Nat := 0
  holes : Nat := 0
  outputChars : Nat := 0
  outputLines : Nat := 0
  deriving DecidableEq, Repr

/-- How statistics are reported. -/
inductive ReportFormat where
  | text
  | json
  deriving DecidableEq, Repr

/-- The format with this name. -/
def ReportFormat.ofName? (name : Text) : Option ReportFormat :=
  if name = "text".toList then some .text
  else if name = "json".toList then some .json
  else none

/-- The number of characters of a text that do not end lines. -/
def Text.charCount (t : Text) : Nat :=
  t.countP fun c => c != '\n' && c != '\r'

namespace Statistics

/-- The counts of a program of which nothing has come out yet. -/
def ofProgram (program : Text) : Statistics where
  inputChars := program.charCount
  inputLines := program.lines.length
  cycles := Tag.count Tag.starts program
  holes := Tag.count Tag.holes program

/-- The counts with those of an output replaced. -/
def withOutput (s : Statistics) (lines : List Text) : Statistics :=
  { s with outputChars := (Text.unlines lines).charCount, outputLines := lines.length }

/-- One member of the structured report. -/
def member (name : String) (count : Nat) : Text :=
  "  \x22".toList ++ name.toList ++ "\x22: ".toList ++ Text.ofNat count

/-- The structured report: one member on a line, indented by two spaces. -/
def jsonReport (s : Statistics) : Text :=
  "\x7b\n".toList ++
    List.intercalate ",\n".toList
      [member "input_chars" s.inputChars, member "input_lines" s.inputLines,
       member "cycles_count" s.cycles, member "holes_count" s.holes,
       member "output_chars" s.outputChars, member "output_lines" s.outputLines] ++
    "\n\x7d".toList

/-- The report in two lines, for reading. -/
def textReport (s : Statistics) : Text :=
  "input: ".toList ++ Text.ofNat s.inputLines ++ " lines, ".toList ++ Text.ofNat s.inputChars ++
    " chars (".toList ++ Text.ofNat s.cycles ++ " cycles, ".toList ++ Text.ofNat s.holes ++
    " holes)\noutput: ".toList ++ Text.ofNat s.outputLines ++ " lines, ".toList ++
    Text.ofNat s.outputChars ++ " chars".toList

/-- The report in the given format. -/
def report (format : ReportFormat) (s : Statistics) : Text :=
  match format with
  | .text => s.textReport
  | .json => s.jsonReport

end Statistics

end DrillCycles
