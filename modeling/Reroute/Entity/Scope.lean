import Reroute.Entity.Member
/-!
# Scopes that tokens are read in

The scope of a method says what its tokens name. It answers three
questions, one for each sort of thing that a token operand can mean, and
each answer may be an error of its own. `TokenTable` is a scope that is
written down as lists.
-/

namespace Reroute

/-- What the tokens of a method name. -/
structure Scope where
  member : Token → Except Error Member
  string : Token → Except Error String
  signature : Token → Except Error Bytes

/-- A scope listed token by token; of two lines for one token the later counts. -/
structure TokenTable where
  members : List (Token × Member)
  strings : List (Token × String)
  signatures : List (Token × Bytes)
  deriving Repr, DecidableEq

namespace TokenTable

def empty : TokenTable := ⟨[], [], []⟩

/-- The last line for a token. -/
def find {α : Type} (lines : List (Token × α)) (token : Token) : Except Error α :=
  match lines.reverse.lookup token with
  | some named => .ok named
  | none => .error (.unresolvedToken token)

/-- The scope that a table describes. -/
def toScope (t : TokenTable) : Scope where
  member := find t.members
  string := find t.strings
  signature := find t.signatures

end TokenTable

end Reroute
