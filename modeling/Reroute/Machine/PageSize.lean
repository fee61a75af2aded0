import Reroute.Machine.Pages
import Reroute.Machine.Word
/-!
# Pages of any size

Only the system knows the size of its pages; what may be relied on is that it is a
power of two. So an address is rounded down to the start of its page by clearing bits.
`Pages.protect` and `AddressSpace.mappingSize` are `PageSize.protect` and
`PageSize.mappingSize` for the pages of the host.
-/

namespace Reroute

/-- The bytes of a page. -/
structure PageSize where
  word : UInt64
  isPower : word.toNat.isPowerOfTwo

namespace PageSize

/-- The pages of the host. -/
def host : PageSize := ⟨4096, 12, rfl⟩

/-- The start of the page that holds an address. -/
def floor (page : PageSize) (address : UInt64) : UInt64 := address &&& ~~~(page.word - 1)

/-- The pages of `length` bytes at an address: the start of the first and the end of the
last. There are none if rounding the end up leaves the address space. -/
def range? (page : PageSize) (address length : UInt64) : Option (UInt64 × UInt64) := do
  let stop ← Word.add? address (max length 1)
  let rounded ← Word.add? stop (page.word - 1)
  return (page.floor address, page.floor rounded)

/-- Changes the protection of every page that shares a byte with a range. -/
def protect (page : PageSize) (address length : UInt64) (protection : Protection) (p : Pages) :
    Except Error Unit × Pages :=
  match page.range? address length with
  | some (start, stop) =>
    Pages.change protection (start / page.word).toNat ((stop - start) / page.word).toNat p
  | none =>
    (.error (.impossible
      ("range 0x" ++ Text.hex address.toNat ++ "+" ++ toString length.toNat ++ " overflows")), p)

/-- The pages that `length` bytes of code need, and at least one. -/
def count (page : PageSize) (length : UInt64) : UInt64 :=
  let whole := max length 1 / page.word
  if max length 1 % page.word = 0 then whole else whole + 1

/-- The bytes that are mapped for `length` bytes of code. -/
def mappingSize (page : PageSize) (length : UInt64) : UInt64 := page.count length * page.word

end PageSize

end Reroute
