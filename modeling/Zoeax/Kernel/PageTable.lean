import Zoeax.Kernel.State

/-!
# Page tables (`kernel/src/object/page_table.rs`, `capability/page_table.rs`)

Sv48 tables of 512 entries. The kernel follows an entry by its physical address, through the direct
map (`direct`). `PageTable.walk` goes down at most three levels from the table it is given and does
not look at what a valid entry points to; `PageTable.path` is the list of the frames it goes
through.
-/

namespace Zoeax

open Lib

def pageV : Nat := 1 <<< 0

def pageR : Nat := 1 <<< 1

def pageW : Nat := 1 <<< 2

def pageX : Nat := 1 <<< 3

def pageU : Nat := 1 <<< 4

/-- From unix style to riscv. -/
def getUserFlags (flags : Nat) : Nat :=
  (if flags &&& 1 = 1 then pageX else 0) ||| (if flags &&& 2 = 2 then pageW else 0) |||
    (if flags &&& 4 = 4 then pageR else 0)

/-- The memory that the kernel reaches for a physical address: its direct map drops bit 47 and
up. -/
def direct (a : Nat) : Nat := toPhys (toKernelV a)

/-! ## Entries -/

namespace Pte

def isValid (pte : UInt64) : Bool := pte.toNat.testBit 0

def getAddress (pte : UInt64) : Nat := ((pte.toNat <<< 2) % 2 ^ 64) &&& notU64 0xfff

/-- `Pte::write`: the new entry for a frame. -/
def write (addr flags : Nat) : UInt64 := UInt64.ofNat (((addr >>> 12) <<< 10) ||| flags)

end Pte

/-- The word is in one of the static tables. -/
def Config.isStaticTable (cfg : Config) (a : Nat) : Bool :=
  (imagePhys cfg.kernelVmRoot ≤ a && a < imagePhys cfg.kernelVmRoot + pageSize) ||
    (imagePhys cfg.lv2Table ≤ a && a < imagePhys cfg.lv2Table + pageSize)

def readPte (cfg : Config) (a : Nat) : KR UInt64 := do
  let s ← read
  if s.isFrame a || cfg.isStaticTable a then return s.mem a else throw undefinedAccess

def writePte (cfg : Config) (a : Nat) (pte : UInt64) : KM Unit := do
  let s ← get
  if s.isFrame a || cfg.isStaticTable a then modify (·.setWord a pte) else throw undefinedAccess

/-! ## `PageTable` and `Page` -/

namespace PageTable

/-- The address of entry number `vpn` of the table at `table`. -/
def entry (table vpn : Nat) : Nat := table + 8 * vpn

/-- `PageTable::walk` with `level` levels left: the level at which it stops, and the entry. -/
def walkFrom (cfg : Config) : Nat → Nat → Nat → KR (Nat × Nat)
  | 0, table, vaddr => return (0, entry table (getVpn vaddr 0))
  | level + 1, table, vaddr => do
    let a := entry table (getVpn vaddr (level + 1))
    let pte ← readPte cfg a
    if Pte.isValid pte then walkFrom cfg level (direct (Pte.getAddress pte)) vaddr
    else return (level + 1, a)

def walk (cfg : Config) (table vaddr : Nat) : KR (Nat × Nat) := walkFrom cfg 3 table vaddr

/-- The frames that a walk with `level` levels left uses as tables. -/
def pathFrom (mem : Nat → UInt64) : Nat → Nat → Nat → List Nat
  | 0, table, _ => [table]
  | level + 1, table, vaddr =>
    let pte := mem (entry table (getVpn vaddr (level + 1)))
    if Pte.isValid pte then
      table :: pathFrom mem level (direct (Pte.getAddress pte)) vaddr
    else [table]

/-- The frames that `PageTable::walk` uses as tables. -/
def path (s : KState) (table vaddr : Nat) : List Nat := pathFrom s.mem 3 table vaddr

/-- `PageTable::map`: links `table` at the first missing level of the walk in `parent`. -/
def map (cfg : Config) (table parent vaddr : Nat) : KM Nat := do
  let (level, a) ← walk cfg parent vaddr
  if level = 0 then throw (kerr .vaddressAlreadyMapped 0)
  else do
    writePte cfg a (Pte.write table pageV)
    return level - 1

/-- `PageTable::copy_global_mapping`: the whole of `KERNEL_VM_ROOT`. -/
def copyGlobalMapping (cfg : Config) (table : Nat) : KM Unit := do
  let s ← get
  if s.isObject .pageTable table then
    modify (·.copyMem table (imagePhys cfg.kernelVmRoot) pageSize)
  else throw undefinedAccess

end PageTable

namespace Page

def map (cfg : Config) (page parent vaddr flags : Nat) : KM Unit := do
  let (level, a) ← PageTable.walk cfg parent vaddr
  if level ≠ 0 then throw (kerr .pageTableNotMappedYet level)
  else do
    let pte ← readPte cfg a
    if Pte.isValid pte then throw (kerr .vaddressAlreadyMapped 0)
    else writePte cfg a (Pte.write page (flags ||| pageV))

def unmap (cfg : Config) (page parent vaddr : Nat) : KM Unit := do
  let (level, a) ← PageTable.walk cfg parent vaddr
  if level ≠ 0 then throw (kerr .pageTableNotMappedYet level)
  else do
    let pte ← readPte cfg a
    if !Pte.isValid pte then throw (kerr .pageNotMappedYet 0)
    else if toKernelV page ≠ toKernelV (Pte.getAddress pte) then throw (kerr .invalidOperation 0)
    else writePte cfg a 0

end Page

/-! ## `PageTableCap` and `PageCap` -/

/-- `PageTableCap::get_pagetable` and `PageCap::get_page`: the frame behind the capability. -/
def CapabilityData.getFrame (c : CapabilityData) : Nat := direct c.getAddress

/-- `sfence.vma`: the translation cache is not part of the state. -/
def sfence : KM Unit := pure ()

namespace PageTableCap

/-- `PageTableCap::map`: the capability after it, and the level of the table. -/
def map (cfg : Config) (c rootTable : CapabilityData) (vaddr : Nat) :
    KM (CapabilityData × Nat) := do
  require (!c.isMapped) (kerr .pageTableAlreadyMapped 0)
  let level ← PageTable.map cfg c.getFrame rootTable.getFrame vaddr
  return (c.setMapped vaddr, level)

/-- `PageTableCap::make_as_root`: the capability after it. -/
def makeAsRoot (cfg : Config) (c : CapabilityData) : KM CapabilityData := do
  require (!c.isMapped) (kerr .pageTableAlreadyMapped 0)
  PageTable.copyGlobalMapping cfg c.getFrame
  modify fun s => { s with rooted := c.getFrame :: s.rooted }
  return (c.setMapped (toKernelV c.getAddress)).setRoot

end PageTableCap

namespace PageCap

/-- `PageCap::map`: the capability after it. -/
def map (cfg : Config) (c rootTable : CapabilityData) (vaddr flags : Nat) : KM CapabilityData := do
  require (!c.isMapped) (kerr .pageAlreadyMapped 0)
  Page.map cfg c.getFrame rootTable.getFrame vaddr flags
  sfence
  return c.setMapped vaddr

/-- `PageCap::unmap`: the capability after it. -/
def unmap (cfg : Config) (c rootTable : CapabilityData) : KM CapabilityData := do
  require c.isMapped (kerr .pageNotMappedYet 0)
  Page.unmap cfg c.getFrame rootTable.getFrame c.getMappedAddress
  return c.setUnmapped

end PageCap

end Zoeax
