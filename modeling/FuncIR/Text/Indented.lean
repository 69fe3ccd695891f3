/-!
# Indented text

Text written line by line at a level of nesting. A `Step` is one thing to write; a block is a header with an
opening brace, its steps one level deeper, and the closing brace. Labels and blank lines are never indented.
-/

namespace FuncIR.Text

/-- The text so far and the level of the next line. -/
structure Indented where
  text : String := ""
  level : Nat := 0
  deriving DecidableEq, Repr, Inhabited

namespace Indented

inductive Step where
  | line (text : String)
  | label (name : String)
  | blank
  | indent
  | dedent
  | block (header : String) (steps : List Step)

/-- Two blanks for each level. -/
def margin (level : Nat) : String :=
  String.join (List.replicate level "  ")

def isEmpty (written : Indented) : Bool :=
  written.text.isEmpty

def line (written : Indented) (text : String) : Indented :=
  { written with text := written.text ++ margin written.level ++ text ++ "\n" }

def label (written : Indented) (name : String) : Indented :=
  { written with text := written.text ++ name ++ ":\n" }

def blank (written : Indented) : Indented :=
  { written with text := written.text ++ "\n" }

def indent (written : Indented) : Indented :=
  { written with level := written.level + 1 }

/-- At the outermost level nothing changes. -/
def dedent (written : Indented) : Indented :=
  { written with level := written.level - 1 }

def openBlock (written : Indented) (header : String) : Indented :=
  (written.line (header ++ " \x7b")).indent

def closeBlock (written : Indented) : Indented :=
  written.dedent.line "\x7d"

mutual

def write (written : Indented) : Step → Indented
  | .line text => written.line text
  | .label name => written.label name
  | .blank => written.blank
  | .indent => written.indent
  | .dedent => written.dedent
  | .block header steps => ((written.openBlock header).writeAll steps).closeBlock

def writeAll (written : Indented) : List Step → Indented
  | [] => written
  | step :: steps => (written.write step).writeAll steps

end

mutual

/-- What is written after each step, those inside a block before the block itself. -/
def history (written : Indented) : Step → List Indented
  | .block header steps =>
    (written.openBlock header).historyOfAll steps ++ [written.write (.block header steps)]
  | step => [written.write step]

def historyOfAll (written : Indented) : List Step → List Indented
  | [] => []
  | step :: steps => written.history step ++ (written.write step).historyOfAll steps

end

end Indented

/-- The text of steps from the outermost level. -/
def renderSteps (steps : List Indented.Step) : String :=
  (({} : Indented).writeAll steps).text

end FuncIR.Text
