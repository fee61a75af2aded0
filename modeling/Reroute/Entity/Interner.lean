import Reroute.Entity.Scope
/-!
# The scope of a clone

A clone has a scope of its own, which hands out a token for everything that
the clone's code names. Entries are numbered in the order in which they are
first asked for; the row of a token is that number, from one, and its table
says what sort of entry it is. Asking again for an equal entry gives the
first token, so entries and tokens determine each other.

Interning is spelled out as the steps that a caller makes, a look-up and,
if it misses, an append and a record, because `Entity/Shared` lets the
steps of several callers interleave.
-/

namespace Reroute

/-- What a token of a clone can name. -/
inductive Entry where
  | method (m : MethodRef)
  /-- A method or constructor that a generic type declares. -/
  | genericMethod (m : MethodRef)
  | constructor (m : MethodRef)
  | dynamicMethod (m : MethodRef)
  | field (f : FieldRef)
  /-- A field that a generic type declares. -/
  | genericField (f : FieldRef)
  | type (t : TypeRef)
  | string (literal : String)
  | signature (blob : Bytes)
  deriving Repr, DecidableEq

namespace Entry

/-- The name of an entry's kind. -/
def kind : Entry → String
  | .method _ => "Method"
  | .genericMethod _ => "GenericMethod"
  | .constructor _ => "Constructor"
  | .dynamicMethod _ => "DynamicMethod"
  | .field _ => "Field"
  | .genericField _ => "GenericField"
  | .type _ => "Type"
  | .string _ => "String"
  | .signature _ => "Signature"

/-- The table that holds an entry. -/
def table : Entry → Table
  | .method _ | .constructor _ | .dynamicMethod _ => .methodDef
  | .genericMethod _ | .genericField _ => .memberRef
  | .field _ => .field
  | .type _ => .typeDef
  | .string _ => .userString
  | .signature _ => .standAloneSig

/-- The entry of a plain method. -/
def ofMethod (m : MethodRef) : Entry :=
  if hasGenericOwner m.declaring then .genericMethod m else .method m

/-- The entry of a constructor. -/
def ofConstructor (m : MethodRef) : Entry :=
  if hasGenericOwner m.declaring then .genericMethod m else .constructor m

/-- The entry of a field. -/
def ofField (f : FieldRef) : Entry :=
  if hasGenericOwner f.declaring then .genericField f else .field f

/-- The entry of a member: a dynamic method is one before all else, then a
constructor. -/
def ofMember : Member → Entry
  | .method m =>
    if m.isDynamic then .dynamicMethod m
    else if m.isConstructor then ofConstructor m
    else ofMethod m
  | .field f => ofField f
  | .type t => .type t

end Entry

/-- What a caller can ask a token for. -/
inductive Ask where
  | method (m : MethodRef)
  | constructor (m : MethodRef)
  | dynamicMethod (m : MethodRef)
  | field (f : FieldRef)
  | type (t : TypeRef)
  | string (literal : String)
  | signature (blob : Bytes)
  deriving Repr, DecidableEq

namespace Ask

/-- The entry that a caller means. -/
def entry : Ask → Entry
  | .method m => .ofMethod m
  | .constructor m => .ofConstructor m
  | .dynamicMethod m => .dynamicMethod m
  | .field f => .ofField f
  | .type t => .type t
  | .string literal => .string literal
  | .signature blob => .signature blob

end Ask

/-- The entries of a clone's scope in row order, and the token recorded for each. -/
structure Interner where
  entries : List Entry
  tokens : List (Entry × Token)
  deriving Repr, DecidableEq

namespace Interner

def empty : Interner := ⟨[], []⟩

/-- How many entries there are. -/
def size (s : Interner) : Nat := s.entries.length

/-- The recorded token of an entry. -/
def lookup? (s : Interner) (entry : Entry) : Option Token := s.tokens.lookup entry

/-- The entry that a token names: its row must be taken and its table must be
the entry's. -/
def get? (s : Interner) (token : Token) : Option Entry :=
  match token.row.toNat with
  | 0 => none
  | index + 1 => s.entries[index]?.filter fun entry => entry.table.code == token.tableCode

/-- Puts an entry behind all others and says how many there were before. -/
def append (s : Interner) (entry : Entry) : Nat × Interner :=
  (s.size, { s with entries := s.entries ++ [entry] })

/-- The token of the entry that was appended behind `index` others, while
the row still fits a token. -/
def tokenAt (entry : Entry) (index : Nat) : Except Error Token :=
  if index + 1 ≤ Token.maxRow then
    .ok (.ofParts entry.table (UInt32.ofNat (index + 1)))
  else
    .error (.other s!"dynamic scope is full ({index} entries)")

/-- Records the token of an entry. -/
def record (s : Interner) (entry : Entry) (token : Token) : Interner :=
  { s with tokens := (entry, token) :: s.tokens }

/-- The token of an entry, which is appended if it is new. -/
def intern (entry : Entry) (s : Interner) : Except Error Token × Interner :=
  match s.lookup? entry with
  | some token => (.ok token, s)
  | none =>
    let (index, appended) := s.append entry
    match tokenAt entry index with
    | .ok token => (.ok token, appended.record entry token)
    | .error error => (.error error, appended)

/-- The answers to callers who ask one after the other. -/
def askAll : List Ask → Interner → List (Except Error Token) × Interner
  | [], s => ([], s)
  | asked :: rest, s =>
    let (answer, s) := s.intern asked.entry
    let (answers, s) := askAll rest s
    (answer :: answers, s)

/-- The entries with their tokens in row order. -/
def listing (s : Interner) : List (Token × Entry) :=
  s.entries.mapIdx fun index entry => (.ofParts entry.table (UInt32.ofNat (index + 1)), entry)

end Interner

/-- A computation over a clone's scope. What it interned outlives a failure. -/
abbrev Interning := ExceptT Error (StateM Interner)

namespace Interning

/-- The token of an entry. -/
def token (entry : Entry) : Interning Token := Interner.intern entry

/-- The answer of another scope. -/
def ofExcept {α : Type} (answer : Except Error α) : Interning α := fun s => (answer, s)

/-- The token, in the clone's scope, of what a token operand of some kind
names in the source scope. The null token stays null. What a member token
means is decided by what it names and not by the kind of the operand. -/
def resolve (source : Scope) (kind : OperandKind) (token : Token) : Interning Token :=
  if token.isNull then pure Token.null
  else
    match kind with
    | .string => do Interning.token (.string (← ofExcept (source.string token)))
    | .sig => do Interning.token (.signature (← ofExcept (source.signature token)))
    | .field | .method | .type | .tok => do
      Interning.token (.ofMember (← ofExcept (source.member token)))
    | other =>
      ofExcept (.error (.impossible
        (other.name ++ " operand " ++ token.text ++ " is not a metadata reference")))

end Interning

end Reroute
