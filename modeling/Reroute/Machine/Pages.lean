import Reroute.Error
import Reroute.Machine.Memory
/-!
# Pages and their protection

Memory is mapped and protected in pages. Protection is always asked for by
bytes: `Pages.protect` changes every page that shares a byte with the range,
and an empty range counts as one byte. A `PageGuard` makes a range writable
and, if asked to, puts the protection back that the first byte had.
-/

namespace Reroute

/-- What a page may be used for. -/
structure Protection where
  read : Bool
  write : Bool
  execute : Bool
  deriving Repr, DecidableEq

namespace Protection

/-- Every use. -/
def all : Protection := ⟨true, true, true⟩

/-- The protection of code that is not being changed. -/
def code : Protection := ⟨true, false, true⟩

/-- Read, write and execute as the bits one, two and four. -/
def bits (p : Protection) : UInt8 :=
  (if p.read then 1 else 0) ||| (if p.write then 2 else 0) ||| (if p.execute then 4 else 0)

/-- The protection with the given bits; the others mean nothing. -/
def ofBits (bits : UInt8) : Protection :=
  ⟨bits &&& 1 != 0, bits &&& 2 != 0, bits &&& 4 != 0⟩

end Protection

/-- The bytes of a page. -/
def pageSize : Nat := 4096

/-- The number of the page that holds an address. -/
def pageOf (address : UInt64) : Nat := address.toNat / pageSize

/-- The protection of each mapped page. -/
structure Pages where
  protection? : Nat → Option Protection

namespace Pages

/-- No page is mapped. -/
def none : Pages := ⟨fun _ => Option.none⟩

/-- The protection of the page that holds an address. Where nothing is known,
it is taken to be that of code. -/
def current (p : Pages) (address : UInt64) : Protection :=
  (p.protection? (pageOf address)).getD .code

/-- One page with another protection. -/
def set (p : Pages) (page : Nat) (protection : Protection) : Pages :=
  ⟨fun n => if n = page then some protection else p.protection? n⟩

/-- The pages from `first` on, each with another protection. -/
def setMany (p : Pages) (first : Nat) (protection : Protection) : (count : Nat) → Pages
  | 0 => p
  | count + 1 => (p.setMany first protection count).set (first + count) protection

/-- The page range of `length` bytes at an address: its first page and the
page behind it. There is none if rounding its end up leaves the address
space. -/
def range (address : UInt64) (length : Nat) : Except Error (Nat × Nat) :=
  let stop := address.toNat + max length 1 + (pageSize - 1)
  if stop < UInt64.size then .ok (pageOf address, stop / pageSize)
  else
    .error (.impossible
      ("range 0x" ++ Text.hex address.toNat ++ "+" ++ toString length ++ " overflows"))

/-- What the system says of pages that are not mapped or cannot be. -/
def noMemory : Error := .protectionRefused "Cannot allocate memory (os error 12)"

/-- Changes pages one after the other, up to the first that is not mapped. -/
def change (protection : Protection) (first : Nat) :
    (count : Nat) → Pages → Except Error Unit × Pages
  | 0, p => (.ok (), p)
  | count + 1, p =>
    match p.protection? first with
    | some _ => change protection (first + 1) count (p.set first protection)
    | Option.none => (.error noMemory, p)

/-- Changes the protection of every page that shares a byte with a range. -/
def protect (address : UInt64) (length : Nat) (protection : Protection) (p : Pages) :
    Except Error Unit × Pages :=
  match range address length with
  | .ok (first, behind) => change protection first (behind - first) p
  | .error error => (.error error, p)

end Pages

/-- A range that was made writable, with the protection that goes back to it. -/
structure PageGuard where
  address : UInt64
  length : Nat
  previous : Option Protection
  deriving Repr, DecidableEq

namespace PageGuard

/-- Makes a range readable, writable and executable. -/
def unprotect (address : UInt64) (length : Nat) (restore : Bool) (p : Pages) :
    Except Error PageGuard × Pages :=
  let previous := if restore then some (p.current address) else none
  match p.protect address length .all with
  | (.ok (), changed) => (.ok ⟨address, length, previous⟩, changed)
  | (.error error, changed) => (.error error, changed)

/-- Gives the range its protection back, as far as the system lets it. -/
def release (g : PageGuard) (p : Pages) : Pages :=
  match g.previous with
  | some protection => (p.protect g.address g.length protection).2
  | none => p

end PageGuard

/-- Memory with the protection of its pages, and where new mappings go. -/
structure AddressSpace where
  memory : Memory
  pages : Pages
  free : UInt64

namespace AddressSpace

/-- Nothing is mapped, and mappings start above the lowest addresses. -/
def empty : AddressSpace := ⟨.zero, .none, 0x10000⟩

/-- The bytes that are mapped for `length` bytes of code: whole pages, and at
least one. -/
def mappingSize (length : Nat) : Nat :=
  (max length 1 + (pageSize - 1)) / pageSize * pageSize

/-- Whether `size` bytes can be mapped next: mappings start at a page, nothing
is mapped there yet, and they end in the address space with the page behind them. -/
def hasRoom (size : Nat) (s : AddressSpace) : Bool :=
  s.free.toNat % pageSize == 0 && s.free.toNat + size + pageSize < UInt64.size &&
    (List.range (size / pageSize)).all fun i => (s.pages.protection? (pageOf s.free + i)).isNone

/-- The address space with fresh pages that hold some code. The page behind
them stays unmapped. -/
def withCode (code : Bytes) (s : AddressSpace) : AddressSpace :=
  let size := mappingSize code.length
  { memory := s.memory.write s.free code
    pages := s.pages.setMany (pageOf s.free) .code (size / pageSize)
    free := s.free + UInt64.ofNat (size + pageSize) }

/-- Maps fresh pages that hold some code and gives their address. If the system
does not map them, or does not let them be executed, all stays as it is. -/
def emit (code : Bytes) (s : AddressSpace) : Except Error (UInt64 × AddressSpace) :=
  if s.hasRoom (mappingSize code.length) then .ok (s.free, s.withCode code)
  else .error Pages.noMemory

end AddressSpace

end Reroute
