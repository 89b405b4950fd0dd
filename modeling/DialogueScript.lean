import DialogueScript.Document.Conversion
import DialogueScript.Document.Settings
import DialogueScript.Script.Read
import DialogueScript.Script.Write
import DialogueScript.Proofs.Text.Name
import DialogueScript.Proofs.Line.Dialogue
import DialogueScript.Proofs.Condition.Clause
import DialogueScript.Proofs.Line.Choice
import DialogueScript.Proofs.Line.Command
import DialogueScript.Proofs.Line.Directive
import DialogueScript.Proofs.Condition.Conjunction
import DialogueScript.Proofs.Script.Outline
import DialogueScript.Proofs.Node.Reading
import DialogueScript.Proofs.Node.Layout
import DialogueScript.Proofs.Node.Menu
import DialogueScript.Proofs.Node.Branching
import DialogueScript.Proofs.Node.Storylet
import DialogueScript.Proofs.Node.Dispatch
import DialogueScript.Proofs.Check.Payload
import DialogueScript.Proofs.Check.Graph
import DialogueScript.Proofs.Script.Preamble
import DialogueScript.Proofs.Script.Read
import DialogueScript.Proofs.Script.RoundTrip
import DialogueScript.Proofs.Script.Write
import DialogueScript.Proofs.Node.Strictness
import DialogueScript.Proofs.Script.Strictness
import DialogueScript.Proofs.Node.Renumber
import DialogueScript.Proofs.Script.Renumber
import DialogueScript.Proofs.Script.Spacing
import DialogueScript.Proofs.Script.Append
import DialogueScript.Proofs.Check.Absence
import DialogueScript.Proofs.Check.Edges
import DialogueScript.Proofs.Script.Independence
import DialogueScript.Proofs.Script.Location
import DialogueScript.Proofs.Json.Record
import DialogueScript.Proofs.Document.Payload
import DialogueScript.Proofs.Document.Conversion
import DialogueScript.Proofs.Line.Setting
import DialogueScript.Proofs.Node.Flags
import DialogueScript.Proofs.Node.MenuGrammar
import DialogueScript.Proofs.Node.BranchingGrammar
import DialogueScript.Proofs.Node.Ids
import DialogueScript.Proofs.Script.Flags
import DialogueScript.Proofs.Script.Ids
import DialogueScript.Proofs.Condition.Symbol
import DialogueScript.Proofs.Condition.Quote
import DialogueScript.Proofs.Check.Reach
import DialogueScript.Proofs.Condition.Canonical
import DialogueScript.Proofs.Script.OutlineGrammar
import DialogueScript.Proofs.Node.Passage
import DialogueScript.Proofs.Script.DeadLines
import DialogueScript.Proofs.Script.Ends
import DialogueScript.Proofs.Node.Kind
import DialogueScript.Proofs.Check.MissingText
import DialogueScript.Proofs.Node.MissingText
import DialogueScript.Proofs.Script.MissingText
import DialogueScript.Proofs.Script.Bodies
import DialogueScript.Proofs.Node.Directives
import DialogueScript.Proofs.Script.Directives
import DialogueScript.Proofs.Document.Refusal
import DialogueScript.Proofs.Node.Prose
