import Zoeax.Kernel.Syscall

/-!
# Boot (`kernel/src/init.rs`, `init/*.rs`, `shared/src/elf.rs`)

From the zeroed memory to the first return to user mode: the kernel's own page tables, the objects
of the root server, its program, and untyped capabilities for the rest of the memory.

`Boot cfg image s` says that the kernel comes up in state `s`.
-/

namespace Zoeax

open Lib
open CapabilityType (entrySize)

/-- `Result::unwrap`. -/
def unwrap {α : Type} (x : KM α) : KM α := fun s =>
  match x s with
  | .error (.err _) s' => .error panicked s'
  | r => r

/-! ## The program image (`elf.rs`) -/

/-- A program header with the bytes of its segment. -/
structure Phdr where
  load : Bool
  vaddr : Nat
  memsz : Nat
  filesz : Nat
  executable : Bool
  writable : Bool
  readable : Bool
  data : Nat → UInt8

/-- The root server. -/
structure Image where
  entry : UInt64
  phdrs : List Phdr

/-- `get_flags` and `PAGE_U`. -/
def Phdr.flags (h : Phdr) : Nat :=
  (if h.executable then pageX else 0) ||| (if h.writable then pageW else 0) |||
    (if h.readable then pageR else 0) ||| pageU

/-- Byte `k` of a word. -/
def byteOf (w : UInt64) (k : Nat) : Nat := (w.toNat >>> (8 * k)) % 256

/-- A word with the bytes that `src` gives. -/
def mergeBytes (old : UInt64) (src : Nat → Option UInt8) : UInt64 :=
  UInt64.ofNat ((List.range 8).foldr
    (fun k acc => 256 * acc + ((src k).map UInt8.toNat).getD (byteOf old k)) 0)

/-- `ptr::copy::<u8>` into a page frame. -/
def KState.copyBytes (s : KState) (dst : Nat) (src : Nat → UInt8) (n : Nat) : KState :=
  { s with mem := fun a =>
      if dst ≤ a ∧ a < dst + n then
        mergeBytes (s.mem a) fun k => if a - dst + k < n then some (src (a - dst + k)) else none
      else s.mem a }

/-! ## The kernel's page tables (`init/vm.rs`) -/

def vmFlag (leaf : Bool) : Nat := if leaf then 0b0011101111 else 0b0000000001

/-- `(start..stop).step_by(step)`. -/
def stepBy (start stop step : Nat) : List Nat :=
  (List.range ((stop - start + step - 1) / step)).map (start + step * ·)

/-- The entry of `KERNEL_VM_ROOT` for the direct map of the memory at `paddr`. -/
def mapDirect (cfg : Config) (mem : Nat → UInt64) (paddr : Nat) : Nat → UInt64 :=
  Function.update mem
    (PageTable.entry (imagePhys cfg.kernelVmRoot) (getVpn (toKernelV paddr) 3))
    (Pte.write paddr (vmFlag true))

/-- The entry of `LV2TABLE` for the kernel image at `vaddr`. -/
def mapImage (cfg : Config) (mem : Nat → UInt64) (vaddr : Nat) : Nat → UInt64 :=
  Function.update mem (PageTable.entry (imagePhys cfg.lv2Table) (getVpn vaddr 2))
    (Pte.write (imagePhys vaddr) (vmFlag true))

/-- The words that `kernel_vm_init` writes. -/
def kernelVmWords (cfg : Config) (mem : Nat → UInt64) : Nat → UInt64 :=
  let mem := (stepBy 0 cfg.freeRamEnd (2 ^ 39)).foldl (mapDirect cfg) mem
  let mem := Function.update mem
    (PageTable.entry (imagePhys cfg.kernelVmRoot) (getVpn cfg.text 3))
    (Pte.write (imagePhys cfg.lv2Table) (vmFlag false))
  let elfVStart := cfg.text &&& notU64 (2 ^ 30 - 1)
  (stepBy elfVStart cfg.dataEnd (2 ^ 30)).foldl (mapImage cfg) mem

def kernelVmInit (cfg : Config) : KM Unit :=
  modify fun s =>
    { s with mem := kernelVmWords cfg s.mem, satp := imagePhys cfg.kernelVmRoot }

/-! ## Resources of the root server (`init/pm.rs`, `init/root_server.rs`) -/

def rootTcbIdx : Nat := 1

def rootCnodeIdx : Nat := 2

def rootVspaceIdx : Nat := 3

def rootIpcBuffer : Nat := 4

def rootBootInfoPage : Nat := 5

def rootCnodeEntryNumBits : Nat := 18

/-- `RootServerResourceManager` with its `BumpAllocator`: physical addresses and slot numbers. -/
structure ResourceManager where
  startAddr : Nat
  endAddr : Nat
  cnodeStartIdx : Nat
  cnodeIdxMax : Nat
deriving DecidableEq, Repr

namespace ResourceManager

def allocatePages (m : ResourceManager) (pageNum : Nat) : Except Stop (Nat × ResourceManager) := do
  let startAddr := m.startAddr + pageSize * pageNum
  require (startAddr ≤ m.endAddr) panicked
  return (m.startAddr, { m with startAddr })

def allocPage (m : ResourceManager) : Except Stop (Nat × ResourceManager) := m.allocatePages 1

def allocCnodeIdx (m : ResourceManager) : Except Stop (Nat × ResourceManager) := do
  require (m.cnodeStartIdx ≤ m.cnodeIdxMax) panicked
  return (m.cnodeStartIdx, { m with cnodeStartIdx := m.cnodeStartIdx + 1 })

/-- `RootServerMemory::alloc_obj`. -/
def allocObj (cfg : Config) (m : ResourceManager) (k : CapabilityType) (userSize : Nat) :
    Except Stop (Nat × ResourceManager) := do
  let size ← k.getObjectSize cfg userSize
  let bytes ← arith (alignUp cfg.profile size pageSize)
  m.allocatePages (bytes / pageSize)

end ResourceManager

/-- `RootServerMemory`: the physical addresses of the root server's objects. -/
structure RootServerMemory where
  cnode : Nat
  vspace : Nat
  tcb : Nat
  ipcBuf : Nat
  bootFrame : Nat

/-- `RootServerMemory::init_with_uninit`. -/
def RootServerMemory.initWithUninit (cfg : Config) (m : ResourceManager) :
    Except Stop (RootServerMemory × ResourceManager) := do
  let (cnode, m) ← m.allocObj cfg .cNode rootCnodeEntryNumBits
  let (vspace, m) ← m.allocObj cfg .pageTable 0
  let (tcb, m) ← m.allocObj cfg .tcb 0
  let (ipcBuf, m) ← m.allocObj cfg .page 0
  let (bootFrame, m) ← m.allocObj cfg .page 0
  return (⟨cnode, vspace, tcb, ipcBuf, bootFrame⟩, m)

/-- An object of the boot phase comes to life at a physical address. -/
def bootObject (cfg : Config) (k : CapabilityType) (addr userSize : Nat) : KM Unit := do
  let size ← k.getObjectSize cfg userSize
  createObject cfg ⟨k, addr, userSize, size⟩

/-- `RootServerMemory::create_root_cnode`. -/
def createRootCnode (cfg : Config) (cnode : Nat) : KM CapabilityData := do
  bootObject cfg .cNode cnode rootCnodeEntryNumBits
  let cap ← CapabilityData.init .cNode (toKernelV cnode) rootCnodeEntryNumBits
  unwrap (cap.writeSlot cfg cap rootCnodeIdx)
  return cap

/-- The loop of `map_page_tables`. The slot gets the capability as it is before the table is
mapped. -/
def mapPageTables (cfg : Config) (cnodeCap rootTableCap : CapabilityData) (vaddr : Nat) :
    Nat → ResourceManager → KM ResourceManager
  | 0, _ => throw (.halt .hang)
  | n + 1, m => do
    let (addr, m) ← m.allocPage
    bootObject cfg .pageTable addr 0
    let cap ← CapabilityData.init .pageTable (toKernelV addr) 0
    let (idx, m) ← m.allocCnodeIdx
    unwrap (cnodeCap.writeSlot cfg cap idx)
    let (_, level) ← unwrap (PageTableCap.map cfg cap rootTableCap vaddr)
    if level = 0 then return m else mapPageTables cfg cnodeCap rootTableCap vaddr n m

/-- `create_mapped_page_cap` for the frame at `paddr`. -/
def createMappedPageCap (cfg : Config) (cnodeCap rootTableCap : CapabilityData)
    (m : ResourceManager) (paddr vaddr flags : Nat) : KM (CapabilityData × ResourceManager) := do
  bootObject cfg .page paddr 0
  let pageCap ← CapabilityData.init .page (toKernelV paddr) 0
  let first ← catchErr (PageCap.map cfg pageCap rootTableCap vaddr flags)
  match first with
  | .ok cap => return (cap, m)
  | .error e =>
    if e.eKind = .pageTableNotMappedYet then do
      let m ← mapPageTables cfg cnodeCap rootTableCap vaddr cfg.loopBound m
      let cap ← unwrap (PageCap.map cfg pageCap rootTableCap vaddr flags)
      return (cap, m)
    else throw panicked

/-- `RootServerElfMapper`: what changes while a program is mapped. -/
structure ElfMapper where
  maxVaddr : Nat
  mgr : ResourceManager

/-- One page of a segment. -/
def mapProgramPage (cfg : Config) (cnodeCap rootTableCap : CapabilityData) (h : Phdr)
    (em : ElfMapper) (pageIdx : Nat) : KM ElfMapper := do
  let offset := pageSize * pageIdx
  let vaddr ← arith (cfg.profile.add h.vaddr offset)
  let (addr, m) ← em.mgr.allocPage
  let (pageCap, m) ← createMappedPageCap cfg cnodeCap rootTableCap m addr vaddr h.flags
  let (idx, m) ← m.allocCnodeIdx
  unwrap (cnodeCap.writeSlot cfg pageCap idx)
  -- the bytes of the file that fall into this page
  modify (·.copyBytes pageCap.getFrame (fun i => h.data (offset + i))
    (min pageSize (h.filesz - offset)))
  return ⟨max em.maxVaddr vaddr, m⟩

/-- The pages of a segment, from number `i` on. -/
def mapPages (cfg : Config) (cnodeCap rootTableCap : CapabilityData) (h : Phdr) :
    Nat → Nat → ElfMapper → KM ElfMapper
  | 0, _, em => return em
  | n + 1, i, em => do
    let em ← mapProgramPage cfg cnodeCap rootTableCap h em i
    mapPages cfg cnodeCap rootTableCap h n (i + 1) em

/-- `map_program`, for a loadable segment. -/
def mapProgram (cfg : Config) (cnodeCap rootTableCap : CapabilityData) (h : Phdr) (em : ElfMapper) :
    KM ElfMapper :=
  if h.load then do
    let bytes ← arith (alignUp cfg.profile h.memsz pageSize)
    mapPages cfg cnodeCap rootTableCap h (bytes / pageSize) 0 em
  else return em

/-- `Elf64Hdr::map_self`. -/
def mapSelf (cfg : Config) (cnodeCap rootTableCap : CapabilityData) :
    List Phdr → ElfMapper → KM ElfMapper
  | [], em => return em
  | h :: hs, em => do
    let em ← mapProgram cfg cnodeCap rootTableCap h em
    mapSelf cfg cnodeCap rootTableCap hs em

/-- `RootServerMemory::create_address_space`. -/
def createAddressSpace (cfg : Config) (vspace : Nat) (cnodeCap : CapabilityData) (image : Image)
    (m : ResourceManager) : KM (CapabilityData × ElfMapper) := do
  bootObject cfg .pageTable vspace 0
  modify (·.zeroMem vspace pageSize)
  let cap ← CapabilityData.init .pageTable (toKernelV vspace) 0
  let cap ← unwrap (PageTableCap.makeAsRoot cfg cap)
  unwrap (cnodeCap.writeSlot cfg cap rootVspaceIdx)
  let em ← mapSelf cfg cnodeCap cap image.phdrs ⟨0, m⟩
  return (cap, em)

/-- `create_ipc_buf_frame` and `create_boot_info_frame`: a page at `maxVaddr + PAGE_SIZE`. -/
def createFrame (cfg : Config) (frame : Nat) (cnodeCap vspaceCap : CapabilityData) (maxVaddr : Nat)
    (flags idx : Nat) (m : ResourceManager) : KM (CapabilityData × ResourceManager) := do
  let vaddr ← arith (cfg.profile.add maxVaddr pageSize)
  let (pageCap, m) ← createMappedPageCap cfg cnodeCap vspaceCap m frame vaddr flags
  unwrap (cnodeCap.writeSlot cfg pageCap idx)
  return (pageCap, m)

/-- `SSTATUS_SPIE` and `SSTATUS_SPP`. -/
def sstatusSpie : UInt64 := 0x20

def sstatusSpp : UInt64 := 0x100

/-- `create_idle_thread`. -/
def createIdleThread (cfg : Config) : KM Unit := do
  updateTcb cfg.idleThread fun t =>
    { t with
      registers := { t.registers with
        sepc := cfg.idleEntry, sstatus := sstatusSpp ||| sstatusSpie, sp := cfg.stackTop } }
  modify fun s => { s with current := cfg.idleThread, curRegBase := cfg.idleThread }

/-- One of the three entries that `create_root_tcb` puts into the new thread: a copy of `cap`
behind the slot of the root CNode. -/
def holdRootCap (cfg : Config) (slot : TcbSlot) (site : Site) (thread : Nat)
    (cnodeCap cap : CapabilityData) (idx : Nat) : KM Unit := do
  let parent ← unwrap (cnodeCap.lookupEntryMutOneLevel cfg idx)
  let _ ← unwrap (occupied parent)
  holdEntry cfg slot site thread cap parent

/-- `RootServerMemory::create_root_tcb`. -/
def createRootTcb (cfg : Config) (tcb : Nat) (cnodeCap vspaceCap ipcBufCap : CapabilityData)
    (entryPoint : UInt64) : KM CapabilityData := do
  let thread := toKernelV tcb
  bootObject cfg .tcb tcb 0
  modify (·.setTcb thread { registers := { sstatus := sstatusSpie, sepc := entryPoint } })
  holdRootCap cfg .rootCnode .createRootCnode thread cnodeCap cnodeCap rootCnodeIdx
  holdRootCap cfg .vspace .createRootVspace thread cnodeCap vspaceCap rootVspaceIdx
  holdRootCap cfg .ipcBuffer .createRootIpcBuffer thread cnodeCap ipcBufCap rootIpcBuffer
  let cap ← CapabilityData.init .tcb thread 0
  unwrap (cnodeCap.writeSlot cfg cap rootTcbIdx)
  return cap

/-- `UntypedCapGenerator`: kernel addresses. -/
structure UntypedCapGenerator where
  startAddress : Nat
  endAddress : Nat
  idxStart : Nat
  idxMax : Nat
deriving DecidableEq, Repr

/-- `UntypedCapGenerator::next`. -/
def UntypedCapGenerator.next (cfg : Config) (g : UntypedCapGenerator) :
    Except Stop (Option (Nat × CapabilityData × UntypedCapGenerator)) := do
  let bound ← arith (cfg.profile.add g.startAddress 4096)
  if g.endAddress ≤ bound then return none
  else do
    require (g.idxStart ≤ g.idxMax) panicked
    let blockSize ← arith (cfg.profile.sub g.endAddress g.startAddress)
    let untypedCap ← CapabilityData.init .untyped g.startAddress blockSize
    let startAddress ← arith (cfg.profile.add g.startAddress untypedCap.blockSize)
    return some (g.idxStart, untypedCap, { g with startAddress, idxStart := g.idxStart + 1 })

/-- The loop over the untyped capabilities, with room for `n` more in the boot information. -/
def insertUntyped (cfg : Config) (cnodeCap : CapabilityData) :
    Nat → UntypedCapGenerator → BootInfo → KM BootInfo
  | 0, g, info => do
    match ← g.next cfg with
    | none => return info
    | some _ => throw panicked
  | n + 1, g, info => do
    match ← g.next cfg with
    | none => return info
    | some (idx, cap, g') => do
      unwrap (cnodeCap.writeSlot cfg cap idx)
      insertUntyped cfg cnodeCap n g'
        { info with
          untypedInfos := info.untypedInfos ++ [⟨cap.blockSize, idx, false⟩]
          untypedNum := info.untypedNum + 1
          firtstEmptyIdx := idx + 1 }

/-! ## `init.rs` -/

/-- The boot information in its page frame. -/
def KState.writeBootInfo (s : KState) (cfg : Config) (frame : Nat) (info : BootInfo) : KState :=
  { s with mem := fun a =>
      if frame ≤ a ∧ a < frame + pageSize then cfg.bootInfoWord info ((a - frame) / 8)
      else s.mem a }

/-- What `create_initial_thread` has made when the idle thread is next. -/
structure RootSpaces where
  rootCnodeCap : CapabilityData
  vspaceCap : CapabilityData
  ipcPageCap : CapabilityData
  maxVaddr : Nat
  ipcVaddr : Nat
  mgr : ResourceManager

/-- `create_initial_thread`, up to the idle thread: the capability space and the address space. -/
def createRootSpaces (cfg : Config) (image : Image) (mem : RootServerMemory)
    (m : ResourceManager) : KM RootSpaces := do
  let rootCnodeCap ← createRootCnode cfg mem.cnode
  let (vspaceCap, em) ← createAddressSpace cfg mem.vspace rootCnodeCap image m
  let (ipcPageCap, m) ← createFrame cfg mem.ipcBuf rootCnodeCap vspaceCap em.maxVaddr
    (pageR ||| pageW ||| pageU) rootIpcBuffer em.mgr
  let ipcVaddr ← arith (cfg.profile.add em.maxVaddr pageSize)
  let (_, m) ← createFrame cfg mem.bootFrame rootCnodeCap vspaceCap ipcVaddr
    (pageR ||| pageU) rootBootInfoPage m
  return ⟨rootCnodeCap, vspaceCap, ipcPageCap, em.maxVaddr, ipcVaddr, m⟩

/-- `create_initial_thread`, from the root thread on: its thread control block, the untyped
capabilities, and the boot information. -/
def createRootThread (cfg : Config) (image : Image) (mem : RootServerMemory) (r : RootSpaces) :
    KM (CapabilityData × BootInfo) := do
  let rootTcb ← createRootTcb cfg mem.tcb r.rootCnodeCap r.vspaceCap r.ipcPageCap image.entry
  let info ← insertUntyped cfg r.rootCnodeCap 32
    ⟨toKernelV r.mgr.startAddr, toKernelV r.mgr.endAddr, r.mgr.cnodeStartIdx, r.mgr.cnodeIdxMax⟩ {}
  let info := { info with rootCnodeIdx, rootVspaceIdx, ipcBufferAddr := r.ipcVaddr }
  modify (·.writeBootInfo cfg mem.bootFrame info)
  let a0 ← arith (cfg.profile.add r.maxVaddr (pageSize * 2))
  updateTcb (TCBCap.getTcb rootTcb) fun t =>
    { t with registers := { t.registers with a0 := UInt64.ofNat a0 } }
  return (rootTcb, info)

/-- `create_initial_thread`. -/
def createInitialThread (cfg : Config) (image : Image) (mem : RootServerMemory)
    (m : ResourceManager) : KM BootInfo := do
  let r ← createRootSpaces cfg image mem m
  createIdleThread cfg
  let (rootTcb, info) ← createRootThread cfg image mem r
  TCBCap.makeRunnable rootTcb
  return info

/-- `init_kernel` and `init_root_server`. -/
def initKernel (cfg : Config) (image : Image) : KM BootInfo := do
  require (cfg.freeRam < cfg.freeRamEnd) panicked
  kernelVmInit cfg
  let (mem, m) ← RootServerMemory.initWithUninit cfg
    ⟨cfg.freeRam, cfg.freeRamEnd, rootBootInfoPage + 1, 2 ^ rootCnodeEntryNumBits - 1⟩
  let info ← createInitialThread cfg image mem m
  requireSchedule
  schedule cfg
  return info

/-- Before `init_kernel`: no object, memory and static tables zero, the idle thread as its
initialiser makes it. -/
def KState.initial (cfg : Config) : KState where
  slots _ := none
  tcbs := Function.update (fun _ => none) cfg.idleThread (some .idleInit)
  endpoints _ := none
  notifications _ := none
  mem _ := 0
  objects := []
  rooted := []
  runqueue := []
  requested := false
  current := 0
  curRegBase := 0
  satp := 0

/-- The kernel boots with this root server, and the first return to user mode is from `s`. -/
def Boot (cfg : Config) (image : Image) (s : KState) : Prop :=
  ∃ info, initKernel cfg image (.initial cfg) = .ok info s

end Zoeax
