import DrillCycles.Settings
import DrillCycles.SettingsFile.Document

/-!
# The layer of a settings file

A settings file denotes a layer if it sets nothing but the three settings, each to a value of its
kind.  A dwell unit is its name, or a table whose only key is its name and has an empty table or an
empty list.
-/

namespace DrillCycles

namespace SettingsFile

/-- Whether a node has no content. -/
def Node.isVoid : Node → Bool
  | .emptyList => true
  | .table _ entries => entries.isEmpty
  | _ => false

/-- The truth value of a node. -/
def Node.boolean? : Node → Option Bool
  | .boolean value => some value
  | _ => none

/-- The dwell unit that a node names. -/
def Node.dwellUnit? : Node → Option DwellUnit
  | .string name => DwellUnit.ofName? name
  | .table _ [(name, node)] => if node.isVoid then DwellUnit.ofName? name else none
  | _ => none

/-- The count of a node, if it is not negative and not too large. -/
def Node.count? : Node → Option Nat
  | .integer value => if 0 ≤ value && value ≤ maxCount then some value.toNat else none
  | _ => none

/-- The layer with one more entry of the file taken up. -/
def addEntry (layer : Layer) (entry : Text × Node) : Option Layer :=
  if entry.1 = "suppress_duplicate_lines".toList then
    entry.2.boolean?.map fun value => { layer with suppressDuplicates := some value }
  else if entry.1 = "dwell_unit".toList then
    entry.2.dwellUnit?.map fun value => { layer with dwellUnit := some value }
  else if entry.1 = "precision".toList then
    entry.2.count?.map fun value => { layer with precision := some value }
  else none

end SettingsFile

/-- The layer that the text of a settings file denotes, if it denotes one. -/
def Layer.ofFile? (t : Text) : Option Layer := do
  let entries ← SettingsFile.Document.parse? t
  entries.foldlM SettingsFile.addEntry {}

end DrillCycles
