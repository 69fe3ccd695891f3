/-!
# Parse options

How a parser chooses among alternatives, which layout a file may have between its functions, and whether the
steps of the parser are logged.
-/

namespace FuncIR

/-- How a choice picks one of its alternatives. -/
inductive Alternation where
  /-- Only those that can start with the current token are tried. -/
  | firstSet
  /-- All of them are tried, in order. -/
  | exhaustive
  deriving DecidableEq, Repr, Inhabited

namespace Alternation

def name : Alternation → String
  | firstSet => "first-set"
  | exhaustive => "exhaustive"

/-- The policy with a given `name`, or a message that lists the names. -/
def ofName (name : String) : Except String Alternation :=
  if name = firstSet.name then .ok firstSet
  else if name = exhaustive.name then .ok exhaustive
  else .error ("unknown alternation policy '" ++ name ++ "' (expected 'first-set' or 'exhaustive')")

def constructorName : Alternation → String
  | firstSet => "FirstSet"
  | exhaustive => "Exhaustive"

theorem ofName_name (policy : Alternation) : ofName policy.name = .ok policy := by
  cases policy <;> rfl

end Alternation

/-- What may stand between the functions of a file. -/
inductive Layout where
  /-- Blanks before, between and after them. -/
  | spaced
  /-- Nothing. -/
  | strict
  deriving DecidableEq, Repr, Inhabited

namespace Layout

def name : Layout → String
  | spaced => "spaced"
  | strict => "strict"

def constructorName : Layout → String
  | spaced => "Spaced"
  | strict => "Strict"

end Layout

structure ParseOptions where
  alternation : Alternation := .firstSet
  layout : Layout := .spaced
  /-- Whether each step of the parser is logged. -/
  trace : Bool := false
  deriving DecidableEq, Repr, Inhabited

/-- The options on one line, for a log. -/
def ParseOptions.summary (options : ParseOptions) : String :=
  "ParseOptions \x7b alternation: " ++ options.alternation.constructorName ++ ", top_level: " ++
    options.layout.constructorName ++ ", trace: " ++ (if options.trace then "true" else "false") ++ " \x7d"

end FuncIR
