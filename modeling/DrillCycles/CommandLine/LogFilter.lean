import DrillCycles.Notice
import DrillCycles.Text.Blank

/-!
# Which notices are shown

A filter is written as directives with commas between them.  The name of a level, in any mixture of
upper and lower case, is a directive for all notices, and the last such one counts.  Any other
directive names a part of a program that no notice comes from: it shows nothing, but without a
directive for all notices it hides everything.  A filter without directives shows errors only.
-/

namespace DrillCycles

namespace LogFilter

/-- The levels that can be asked for, the first one for none. -/
def levels : List (Text × Nat) :=
  [("OFF".toList, 0), ("ERROR".toList, Level.rank .error), ("WARN".toList, Level.rank .warn),
   ("INFO".toList, Level.rank .info), ("DEBUG".toList, Level.rank .debug),
   ("TRACE".toList, Level.rank .trace)]

/-- The rank of the level with this name. -/
def rank? (name : Text) : Option Nat :=
  (levels.find? fun entry => entry.1 = name.map Char.toUpper).map Prod.snd

/-- The rank that a directive sets for all notices. -/
def directiveRank? (directive : Text) : Option Nat :=
  match directive with
  | '=' :: [] => some (Level.rank .trace)
  | '=' :: name => rank? (Text.trim name)
  | name => rank? name

/-- The directives of a filter. -/
def directives (spec : Text) : List Text :=
  ((Text.pieces ',' spec).map Text.trim).filter (!·.isEmpty)

/-- The rank of the least severe level that is shown; zero if none is. -/
def rank (spec : Text) : Nat :=
  if (directives spec).isEmpty then Level.rank .error
  else ((directives spec).filterMap directiveRank?).getLast?.getD 0

end LogFilter

/-- Whether a filter shows a notice. -/
def Notice.isShown (filter : Text) (n : Notice) : Bool :=
  n.level.rank ≤ LogFilter.rank filter

end DrillCycles
