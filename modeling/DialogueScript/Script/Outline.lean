import DialogueScript.Line.Dialogue
import DialogueScript.Line.Directive
import DialogueScript.Text.Lines
/-!
# The outline of a script

A script is a row of blocks. A block is a header of `key: value` lines, one of which is its title, a line
`---`, a body, and a line `===`. Between blocks there are only blank lines and comments; directives among
these comments make up the preamble. Lines are numbered from one and trimmed.

* `Block`, `Outline`: what a script is made of.
* `Outline.read`: the outline of a text, or the line at which there is none and why.
-/
namespace DialogueScript

/-- A trimmed line with its number. -/
structure SourceLine where
  number : Nat
  text : Text
  deriving DecidableEq, Repr

/-- The text of one node: its title and where it stands, its other headers, the lines of its body that are
not blank. -/
structure Block where
  title : Text
  titleLine : Nat
  headers : List (Text × Text)
  body : List SourceLine
  deriving DecidableEq, Repr

/-- The value of the first header with a key. -/
def Block.header? (b : Block) (key : Text) : Option Text := (b.headers.find? (·.1 == key)).map (·.2)

/-- The line is not a mere comment: it is no comment at all, or a directive. -/
def SourceLine.isMeaningful (l : SourceLine) : Bool :=
  !Line.isComment l.text || (Line.directive? l.text).isSome

/-- The lines of the body that are not mere comments. -/
def Block.meaningful (b : Block) : List SourceLine := b.body.filter SourceLine.isMeaningful

/-- The parts of a script in order: directives outside of blocks, and blocks. -/
structure Outline where
  preamble : List (Nat × Directive)
  blocks : List Block
  deriving DecidableEq, Repr

namespace Outline

/-- The line that ends a header. -/
def bodyMark : Text := ['-', '-', '-']

/-- The line that ends a body. -/
def endMark : Text := ['=', '=', '=']

/-- Why a text has no outline, or no usable preamble. -/
inductive Cause
  | directive (fault : Directive.Fault)
  | notHeader (line : Text)
  | secondTitle
  | badTitle (title : Text)
  | repeatedTitle (title : Text) (first : Nat)
  | untitled
  | headerNotEnded
  | bodyNotEnded (title : Text)
  | secondGraph
  | endWithoutNode
  deriving DecidableEq, Repr

def Cause.message : Cause → String
  | directive fault => fault.message
  | notHeader line => "expected a 'key: value' node header, found '" ++ String.ofList line ++ "'"
  | secondTitle => "node declares 'title' twice"
  | badTitle title => "invalid node title '" ++ String.ofList title ++ "'"
  | repeatedTitle title first =>
    "duplicate node title '" ++ String.ofList title ++ "' (first declared on line " ++ toString first ++ ")"
  | untitled => "node has no 'title' header"
  | headerNotEnded => "node header is not followed by '---'"
  | bodyNotEnded title => "node '" ++ String.ofList title ++ "' is not closed with '==='"
  | secondGraph => "script declares @graph twice"
  | endWithoutNode => "@end directive needs a valid node id"

structure Fault where
  line : Nat
  cause : Cause
  deriving DecidableEq, Repr

def Fault.message (f : Fault) : String :=
  "script parse error at line " ++ toString f.line ++ ": " ++ f.cause.message

/-- Where reading stands: between blocks, in a header that began at a line, or in a body. -/
inductive Place
  | outside
  | header (start : Nat) (title : Option (Text × Nat)) (headers : List (Text × Text)) -- the title with its line
  | body (block : Block)
  deriving DecidableEq, Repr

/-- What was read so far, and where reading stands. -/
structure Progress where
  preamble : List (Nat × Directive)
  blocks : List Block
  place : Place
  deriving DecidableEq, Repr

def Progress.start : Progress := ⟨[], [], .outside⟩

/-- The key and the value of a header line. -/
def headerLine? (line : Text) : Option (Text × Text) :=
  match Text.name? Text.isWordStart Text.isWordChar line with
  | some (key, ':' :: rest) => some (key, Text.trim rest)
  | _ => none

/-- A title of a new block: well formed, and not the title of an earlier block. -/
def newTitle (blocks : List Block) (number : Nat) (title : Text) : Except Fault (Text × Nat) :=
  if Text.isNodeId title then
    match blocks.find? (·.title == title) with
    | some first => .error ⟨number, .repeatedTitle title first.titleLine⟩
    | none => .ok (title, number)
  else .error ⟨number, .badTitle title⟩

/-- Reads a line of a header that began at the line `start`. -/
def Progress.addHeader (p : Progress) (start : Nat) (title : Option (Text × Nat)) (headers : List (Text × Text))
    (l : SourceLine) : Except Fault Progress :=
  match headerLine? l.text with
  | none => .error ⟨l.number, .notHeader l.text⟩
  | some (key, value) =>
    if key = "title".toList then
      match title with
      | some _ => .error ⟨l.number, .secondTitle⟩
      | none => (newTitle p.blocks l.number value).map fun t => { p with place := .header start (some t) headers }
    else .ok { p with place := .header start title (headers ++ [(key, value)]) }

/-- Directives between blocks make up the preamble, malformed ones end the reading. -/
def Progress.readOutside (p : Progress) (l : SourceLine) : Except Fault Progress :=
  if l.text.isEmpty then .ok p
  else if Line.isComment l.text then
    match Line.directive? l.text with
    | some (.ok d) => .ok { p with preamble := p.preamble ++ [(l.number, d)] }
    | some (.error f) => .error ⟨l.number, .directive f⟩
    | none => .ok p
  else p.addHeader l.number none [] l

/-- A header has its title on any of its lines. -/
def Progress.readHeader (p : Progress) (start : Nat) (title : Option (Text × Nat)) (headers : List (Text × Text))
    (l : SourceLine) : Except Fault Progress :=
  if l.text = bodyMark then
    match title with
    | some (t, n) => .ok { p with place := .body ⟨t, n, headers, []⟩ }
    | none => .error ⟨start, .untitled⟩
  -- directives in a header are comments, malformed ones as well
  else if l.text.isEmpty || Line.isComment l.text then .ok p
  else p.addHeader start title headers l

/-- Only the mark ends a body, so one that is not closed takes in the blocks behind it. -/
def Progress.readBody (p : Progress) (b : Block) (l : SourceLine) : Progress :=
  if l.text = endMark then { p with blocks := p.blocks ++ [b], place := .outside }
  else if l.text.isEmpty then p
  -- comments are kept: some of them are directives
  else { p with place := .body { b with body := b.body ++ [l] } }

def Progress.step (p : Progress) (l : SourceLine) : Except Fault Progress :=
  match p.place with
  | .outside => p.readOutside l
  | .header start title headers => p.readHeader start title headers l
  | .body b => .ok (p.readBody b l)

/-- The end of a script that has `count` lines: it has to stand between blocks. -/
def Progress.finish (p : Progress) (count : Nat) : Except Fault Outline :=
  match p.place with
  | .outside => .ok ⟨p.preamble, p.blocks⟩
  | .header start _ _ => .error ⟨start, .headerNotEnded⟩
  | .body b => .error ⟨count, .bodyNotEnded b.title⟩

/-- Lines trimmed and numbered from `n`. -/
def numbered (n : Nat) : List Text → List SourceLine
  | [] => []
  | t :: ts => ⟨n, Text.trim t⟩ :: numbered (n + 1) ts

def readLines (p : Progress) (ls : List SourceLine) : Except Fault Progress := ls.foldlM Progress.step p

def ofLines (ls : List Text) : Except Fault Outline :=
  (readLines .start (numbered 1 ls)).bind (·.finish ls.length)

def read (s : Text) : Except Fault Outline := ofLines (Text.lines s)

end Outline
end DialogueScript
