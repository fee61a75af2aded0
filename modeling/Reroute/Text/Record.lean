import Reroute.Text.Quoted
/-!
# Texts of structured values

The shape in which a structured value is shown: a name with its fields
between braces, a name with its parts between parentheses, or a list
between brackets. A record that keeps some fields to itself ends in two
dots.
-/

namespace Reroute.Text

/-- A name and all its fields between braces. -/
def record (name : String) (fields : List (String × String)) : String :=
  name ++ " \x7b " ++ ", ".intercalate (fields.map fun f => f.1 ++ ": " ++ f.2) ++ " \x7d"

/-- A record that shows only some of its fields. -/
def openRecord (name : String) (fields : List (String × String)) : String :=
  let shown := fields.map fun f => f.1 ++ ": " ++ f.2
  name ++ " \x7b " ++ ", ".intercalate (shown ++ [".."]) ++ " \x7d"

/-- A name and its parts between parentheses. -/
def applied (name : String) (parts : List String) : String :=
  name ++ "(" ++ ", ".intercalate parts ++ ")"

/-- Parts between brackets. -/
def listed (parts : List String) : String := "[" ++ ", ".intercalate parts ++ "]"

/-- An optional value. -/
def optional : Option String → String
  | none => "None"
  | some shown => applied "Some" [shown]

/-- A truth value. -/
def truth (b : Bool) : String := if b then "true" else "false"

end Reroute.Text
