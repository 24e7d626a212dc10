import Zoeax.Client.Caps
import Zoeax.Kernel.Elf
import Zoeax.Lib.Sv48

/-!
# The root server's loader (`rootserver/src/elf.rs`)

`ElfProgramMapper` builds an address space with system calls only. A page is retyped from untyped
memory and mapped into the target; to fill it, a copy of its capability is mapped into the loader's
own address space at `free_address`, written through there, and unmapped again.

A store of the loader goes where the machine translates it, in the address space that is active. The
kernel panics on a page fault.
-/

namespace Zoeax.Client

open Lib (Profile Fallible Sv48.store?)

/-- User code that returns `Result<_, SysCallFailed>`. -/
abbrev UM := Fallible SysCallFailed Stop KState

/-- A `Result` that is looked at, and not passed on with `?`. -/
def attempt {α : Type} (x : UM α) : UM (Except SysCallFailed α) := ExceptT.lift x.run

/-! ## `caps.rs` -/

class KernelObject (K : Type) where
  capType : CapabilityType
  fromRetype : UInt64 → Bool → K

class FixedSizeObject (K : Type) extends KernelObject K where
  objectSize : UInt64

structure Untyped where
  isDevice : Bool
  sizeBits : UInt64

structure PageTable where
  mappedAddress : UInt64
  isRoot : Bool
  isMapped : Bool

instance : FixedSizeObject PageTable where
  capType := .pageTable
  fromRetype _ _ := ⟨0, false, false⟩
  objectSize := 4096

def PageFlags.readandwrite : PageFlags := ⟨true, true, false⟩

def PageFlags.never : PageFlags := ⟨false, false, false⟩

structure Page where
  mappedAddress : UInt64
  isMapped : Bool
  rights : PageFlags

instance : FixedSizeObject Page where
  capType := .page
  fromRetype _ _ := ⟨0, false, .never⟩
  objectSize := 4096

instance : Copyable Page := ⟨id⟩

abbrev UntypedCapability := Capability Untyped

abbrev PageTableCapability := Capability PageTable

abbrev PageCapability := Capability Page

section Calls

variable (cfg : Config) (p : Profile) (regs : Registers)

def makePageTableRoot (capPtr : UInt64) (capDepth : UInt32) : KM SysCallRes :=
  syscall cfg regs capPtr capDepth .pageTableMakeRoot 0 0 0 0 .call

def UntypedCapability.retypeSingle (K : Type) [KernelObject K] (self : UntypedCapability)
    (slot : CSlot) (userSize : UInt64) : UM (Capability K) := do
  let num := 1
  let _ ← (untypedRetype cfg regs self.capPtr self.capDepth slot.pptr slot.depth slot.index
    userSize.toUInt32 num (KernelObject.capType K) : UM UInt64)
  let (capPtr, capDepth) ← (liftM (arith (slot.getCapPtr p)) : KM (UInt64 × UInt32))
  return ⟨capPtr, capDepth, KernelObject.fromRetype userSize self.capData.isDevice⟩

def UntypedCapability.retypeSingleWithFixedSize (K : Type) [FixedSizeObject K]
    (self : UntypedCapability) (slot : CSlot) : UM (Capability K) :=
  self.retypeSingle cfg p regs K slot (FixedSizeObject.objectSize K)

def PageTableCapability.map (self rootTable : PageTableCapability) (vaddr : UInt64) : UM UInt64 :=
  mapPageTable cfg regs self.capPtr self.capDepth rootTable.capPtr rootTable.capDepth vaddr

def PageTableCapability.makeAsRoot (self : PageTableCapability) : UM PageTableCapability := do
  let _ ← (makePageTableRoot cfg regs self.capPtr self.capDepth : UM UInt64)
  return { self with capData := { self.capData with isMapped := true } }

def PageCapability.map (self : PageCapability) (rootTable : PageTableCapability) (vaddr : UInt64)
    (flags : PageFlags) : UM PageCapability := do
  let _ ← (mapPage cfg regs self.capPtr self.capDepth rootTable.capPtr rootTable.capDepth vaddr
    flags.toUsize : UM UInt64)
  return { self with capData := ⟨vaddr, true, flags⟩ }

def PageCapability.unmap (self : PageCapability) (rootTable : PageTableCapability) :
    UM PageCapability := do
  let _ ← (unmapPage cfg regs self.capPtr self.capDepth rootTable.capPtr rootTable.capDepth :
    UM UInt64)
  return { self with capData := ⟨0, false, .never⟩ }

/-- `get_slot`, and the CNode afterwards. -/
def CNodeCapability.takeSlot (self : CNodeCapability) : UM (CSlot × CNodeCapability) := do
  let (slot, self) ← (liftM (arith (self.getSlot p)) :
    KM (Except SysCallFailed CSlot × CNodeCapability))
  match slot with
  | .ok slot => return (slot, self)
  | .error e => throw e

/-- `copy`, and the CNode afterwards. -/
def CNodeCapability.takeCopy {K : Type} [Copyable K] (self : CNodeCapability) (cap : Capability K) :
    UM (Capability K × CNodeCapability) := do
  let (new, self) ← (self.copy cfg p regs cap :
    KM (Except SysCallFailed (Capability K) × CNodeCapability))
  match new with
  | .ok new => return (new, self)
  | .error e => throw e

/-- `delete`: the kernel does not have it yet. -/
def CNodeCapability.delete {K : Type} (_self : CNodeCapability) (_cap : Capability K) : UM Unit :=
  return ()

end Calls

/-- `ptr::copy::<u8>` of `n` bytes to the page at `dst`, which is where the machine translates
it. -/
def copyToPage (dst : Nat) (src : Nat → UInt8) (n : Nat) : KM Unit := do
  let s ← get
  require (dst % pageSize = 0 && n ≤ pageSize) undefinedAccess
  match Sv48.store? s.mem s.satp dst with
  | none => throw panicked
  | some a => do
    require (s.isFrame a) undefinedAccess
    modify (·.copyBytes a src n)

/-! ## `elf.rs` -/

structure ElfProgramMapper where
  cnode : CNodeCapability
  ut : UntypedCapability
  rootTable : PageTableCapability
  targetRootVspace : PageTableCapability
  freeAddress : UInt64

/-- `get_flags`. -/
def getFlags (h : Phdr) : PageFlags where
  isWritable := h.writable
  isReadable := h.readable
  isExecutable := h.executable

namespace ElfProgramMapper

variable (cfg : Config) (p : Profile) (regs : Registers)

/-- `try_new`: the target is a new root. -/
def tryNew (cnode : CNodeCapability) (ut : UntypedCapability) (rootTable : PageTableCapability)
    (freeAddress : UInt64) : UM ElfProgramMapper := do
  let (tableSlot, cnode) ← cnode.takeSlot p
  let targetRootVspace ← ut.retypeSingleWithFixedSize cfg p regs PageTable tableSlot
  let targetRootVspace ← PageTableCapability.makeAsRoot cfg regs targetRootVspace
  return ⟨cnode, ut, rootTable, targetRootVspace, freeAddress⟩

/-- The loop of `map_page_tables`. A table that could not be mapped is left behind. -/
def mapPageTables (vaddr : UInt64) : Nat → ElfProgramMapper → UM ElfProgramMapper
  | 0, _ => (throw (.halt .hang) : KM ElfProgramMapper)
  | n + 1, self => do
    let (tableSlot, cnode) ← self.cnode.takeSlot p
    let self := { self with cnode }
    let pageTableCap ← self.ut.retypeSingleWithFixedSize cfg p regs PageTable tableSlot
    match ← attempt (PageTableCapability.map cfg regs pageTableCap self.targetRootVspace vaddr) with
    | .ok level => if level = 0 then return self else mapPageTables vaddr n self
    | .error _ => mapPageTables vaddr n self

def mapPageWithTables (self : ElfProgramMapper) (vaddr : UInt64) (flags : PageFlags) :
    UM (PageCapability × ElfProgramMapper) := do
  let (slot, cnode) ← self.cnode.takeSlot p
  let self := { self with cnode }
  let pageCap ← self.ut.retypeSingleWithFixedSize cfg p regs Page slot
  match ← attempt (PageCapability.map cfg regs pageCap self.targetRootVspace vaddr flags) with
  | .ok pageCap => return (pageCap, self)
  | .error e =>
    if e.1 = .pageTableNotMappedYet then do
      let self ← mapPageTables cfg p regs vaddr cfg.loopBound self
      let pageCap ← PageCapability.map cfg regs pageCap self.targetRootVspace vaddr flags
      return (pageCap, self)
    else throw (.invalidOperation, 0)

/-- `map_page`: the mapper afterwards, and what is left of the file. -/
def mapPage (self : ElfProgramMapper) (vaddr : UInt64) (pStart : Nat → UInt8) (flags : PageFlags)
    (fileSzRem offset : Nat) : UM (ElfProgramMapper × Nat) := do
  let (pageCap, self) ← self.mapPageWithTables cfg p regs vaddr flags
  if fileSzRem ≠ 0 then do
    let (tmpPageCap, cnode) ← self.cnode.takeCopy cfg p regs pageCap
    let self := { self with cnode }
    let copySize := min pageSize fileSzRem
    let tmpPageCap ← PageCapability.map cfg regs tmpPageCap self.rootTable self.freeAddress
      .readandwrite
    let _ ← (copyToPage self.freeAddress.toNat (fun i => pStart (offset + i)) copySize : KM Unit)
    let fileSzRem := fileSzRem - pageSize
    let tmpPageCap ← PageCapability.unmap cfg regs tmpPageCap self.rootTable
    self.cnode.delete tmpPageCap
    return (self, fileSzRem)
  else return (self, fileSzRem)

/-- The loop of `map_program`, with `n` pages left. -/
def mapPages (h : Phdr) : Nat → Nat → ElfProgramMapper → Nat → UM ElfProgramMapper
  | 0, _, self, _ => return self
  | n + 1, pageIdx, self, fileSzRem => do
    let offset := pageSize * pageIdx
    let vaddrN ← (liftM (arith (p.add h.vaddr offset)) : KM Nat)
    let (self, fileSzRem) ← self.mapPage cfg p regs (UInt64.ofNat vaddrN) h.data (getFlags h)
      fileSzRem offset
    mapPages h n (pageIdx + 1) self fileSzRem

/-- `map_program`, for a loadable segment. -/
def mapProgram (self : ElfProgramMapper) (h : Phdr) : UM ElfProgramMapper :=
  if h.load then do
    let bytes ← (liftM (arith (alignUp p h.memsz pageSize)) : KM Nat)
    mapPages cfg p regs h (bytes / pageSize) 0 self h.filesz
  else return self

/-- `Elf64Hdr::map_self`. -/
def mapSelf : List Phdr → ElfProgramMapper → UM ElfProgramMapper
  | [], self => return self
  | h :: hs, self => do
    let self ← self.mapProgram cfg p regs h
    mapSelf hs self

end ElfProgramMapper

end Zoeax.Client
