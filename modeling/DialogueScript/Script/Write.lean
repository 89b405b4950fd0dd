import DialogueScript.Check.Graph
import DialogueScript.Failure
import DialogueScript.Node.Dispatch
import DialogueScript.Script.Read
import DialogueScript.Settings
/-!
# Writing a script

A script starts with a banner and a preamble that describes the graph and marks its ends; then each node
follows as a block, in the order in which nodes were put in. A graph with structural problems is not written.

* `Script.write`: the script of a graph.
-/
namespace DialogueScript.Script

/-- The lines on top of a script. -/
def banner : List Text :=
  ["// Generated by DGSC (Dialogue Graph Script Compiler)".toList,
   "// DO NOT EDIT - Changes will be overwritten on next export".toList]

def graphDirective (g : Graph) : Directive :=
  ⟨graphName, [("id".toList, g.id), ("title".toList, g.title), ("start".toList, g.start)]⟩

def endDirective (e : End) : Directive :=
  Directive.withOptional ⟨endName, [("node".toList, e.node)]⟩ "exit".toList e.exitKey

def preamble (g : Graph) : List Directive := graphDirective g :: g.ends.map endDirective

/-- The lines in front of the blocks. -/
def topLines (settings : Settings) (g : Graph) : List Text :=
  (if settings.emitBanner then banner else []) ++ (preamble g).map Directive.line

def blocks (withPositions : Bool) : List Node → Except Text (List Layout.BlockDraft)
  | [] => .ok []
  | n :: ns => do
    let b ← n.block withPositions
    let bs ← blocks withPositions ns
    return b :: bs

/-- All lines of a script; a blank line stands in front of each block. -/
def lines (settings : Settings) (g : Graph) (bs : List Layout.BlockDraft) : List Text :=
  topLines settings g ++ bs.flatMap fun b => [] :: b.lines

/-- A graph with structural problems is refused as a whole. -/
def write (settings : Settings) (g : Graph) : Except Failure Text :=
  let problems := (g.check settings.flagSchema).structural
  if problems.isEmpty then
    match blocks settings.emitPositions g.nodes.nodes with
    | .ok bs => .ok ((lines settings g bs).flatMap (· ++ ['\n']))
    | .error who => .error (.badSpeaker who) -- the check has found such a speaker before
  else .error (.notWritable problems)

def writeStandard (g : Graph) : Except Failure Text := write .standard g

end DialogueScript.Script
