import Reroute.Machine.Pages
/-!
# Listings of mappings

The system lists its mappings as text, one to a line: the bounds in
hexadecimal with a dash between them, then the permissions, then what the
mapping is of. `Mapping.find?` looks an address up in such a text and skips
every line of another form; `Mapping.line` writes a line.
-/

namespace Reroute

/-- A stretch of addresses with one protection; `stop` is the first address
behind it. -/
structure Mapping where
  start : UInt64
  stop : UInt64
  protection : Protection
  deriving Repr, DecidableEq

namespace Mapping

def contains (m : Mapping) (address : UInt64) : Bool :=
  m.start ≤ address && address < m.stop

/-! ## Reading -/

/-- Blanks between the fields of a line. -/
def isBlank (c : Char) : Bool :=
  let n := c.toNat
  (0x9 ≤ n && n ≤ 0xD) || n == 0x20 || n == 0x85 || n == 0xA0 || n == 0x1680 ||
    (0x2000 ≤ n && n ≤ 0x200A) || n == 0x2028 || n == 0x2029 || n == 0x202F || n == 0x205F ||
    n == 0x3000

/-- The stretches between the characters that a test picks, empty ones too. -/
def splitWhere (cut : Char → Bool) : List Char → List (List Char)
  | [] => [[]]
  | c :: rest =>
    if cut c then [] :: splitWhere cut rest
    else
      match splitWhere cut rest with
      | [] => [[c]]
      | first :: more => (c :: first) :: more

/-- The fields of a line. -/
def fields (line : List Char) : List (List Char) :=
  (splitWhere isBlank line).filter fun field => !field.isEmpty

/-- A bound of a mapping: at least one digit, perhaps behind a plus sign, and
not too large for an address. -/
def bound? (text : List Char) : Option UInt64 := do
  let bare := match text with
    | '+' :: rest => rest
    | _ => text
  if bare.isEmpty then none
  else
    let n ← Text.numberOfHex? bare
    if n < UInt64.size then some (UInt64.ofNat n) else none

/-- The two sides of the first dash. -/
def splitDash : List Char → Option (List Char × List Char)
  | [] => none
  | '-' :: rest => some ([], rest)
  | c :: rest => (splitDash rest).map fun sides => (c :: sides.1, sides.2)

/-- A permission field: anything but a dash grants the right in its place. A
character stands in as many places as it has bytes. -/
def permissions (field : List Char) : Protection :=
  let bytes := (String.ofList field).toUTF8.toList
  let granted (place : Nat) : Bool := bytes[place]?.any fun byte => byte != 0x2D
  ⟨granted 0, granted 1, granted 2⟩

/-- The mapping on a line, if the line has the form of one. -/
def ofLine? (line : List Char) : Option Mapping := do
  match fields line with
  | range :: permitted :: _ =>
    let (low, high) ← splitDash range
    some { start := ← bound? low, stop := ← bound? high, protection := permissions permitted }
  | _ => none

/-- The mappings of a listing. -/
def ofListing (text : String) : List Mapping :=
  (splitWhere (· == '\n') text.toList).filterMap ofLine?

/-- The protection of the first mapping of a listing that holds an address. -/
def find? (text : String) (address : UInt64) : Option Protection :=
  ((ofListing text).find? fun mapping => mapping.contains address).map Mapping.protection

/-! ## Writing -/

/-- The permission field of a private mapping. -/
def permissionText (p : Protection) : String :=
  String.ofList
    [if p.read then 'r' else '-', if p.write then 'w' else '-', if p.execute then 'x' else '-', 'p']

/-- The line of a mapping, with what it is of behind it. -/
def line (m : Mapping) (rest : String) : String :=
  Text.hexPadded 8 m.start.toNat ++ "-" ++ Text.hexPadded 8 m.stop.toNat ++ " " ++
    permissionText m.protection ++ " " ++ rest

end Mapping

end Reroute
