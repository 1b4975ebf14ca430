import BootMemory.Address.Basic

/-!
# Levels of paging

A virtual address is cut into a page offset and one nine-bit index for each level of tables.
Level 1 holds the leaves; the root is the table of the highest level.
-/

namespace BootMemory

/-- How many levels of tables the machine walks. -/
inductive PagingDepth where
  | four
  | five
  deriving DecidableEq

/-- The number of levels, which is also the level of the root table. -/
def PagingDepth.top : PagingDepth → Nat
  | .four => 4
  | .five => 5

/-- Base-two logarithm of the number of entries in a table. -/
def indexBits : Nat := 9

def entryCount : Nat := 1 <<< indexBits

def entrySize : Nat := 8

/-- The index of the entry for `virt` in a table of the given level. -/
def Addr.tableIndex (virt : VirtAddr) (level : Nat) : Nat :=
  ((virt.word >>> UInt64.ofNat (12 + (level - 1) * indexBits)) &&& 0x1FF).toNat

inductive PageSize where
  | size4KiB
  | size2MiB
  | size1GiB
  deriving DecidableEq

namespace PageSize

def bytes : PageSize → Nat
  | .size4KiB => 4096
  | .size2MiB => 2 * 1024 * 1024
  | .size1GiB => 1024 * 1024 * 1024

def debugText : PageSize → String
  | .size4KiB => "Size4KiB"
  | .size2MiB => "Size2MiB"
  | .size1GiB => "Size1GiB"

end PageSize

end BootMemory
