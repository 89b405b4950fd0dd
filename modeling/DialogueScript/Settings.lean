import DialogueScript.Check.Finding
/-!
# Settings

What reading and writing can be told to do. Unless they are told otherwise, reading is lenient, writing
keeps positions and puts a banner on top, and there is no schema of flags.
-/
namespace DialogueScript

structure Settings where
  /-- Reading fails on a condition that it cannot read. -/
  strictConditions : Bool
  /-- Reading fails on a jump to a node that is not there. -/
  strictReferences : Bool
  /-- Writing keeps the positions of nodes. -/
  emitPositions : Bool
  /-- Writing puts a banner on top. -/
  emitBanner : Bool
  /-- The flags that are known. -/
  flagSchema : Option Check.Schema
  deriving DecidableEq, Repr

/-- What is done without being told. -/
def Settings.standard : Settings := ⟨false, false, true, true, none⟩

instance : Inhabited Settings := ⟨.standard⟩

end DialogueScript
