import Zoeax.Kernel.Syscall

/-!
# The client library (`libzoea/src/syscall.rs`, `caps.rs`)

User programs keep a path to each of their capabilities: a pointer and the number of its bits,
looked up from the root CNode of the thread. For a CNode they also keep the number of the next slot
they take to be free (`cursor`).

A system call is the `ecall` of the current thread and what the kernel does on it; the outcome is
read from the registers that the kernel left for the thread. Arithmetic of the client is compiled
with a profile of its own.
-/

namespace Zoeax.Client

open Lib (Profile)

/-! ## `syscall.rs` -/

abbrev SysCallFailed := ErrKind × UInt16

abbrev SysCallRes := Except SysCallFailed UInt64

/-- The outcome of a system call, from `a0` and `a1`. -/
def sysCallRes (regs : Registers) : SysCallRes :=
  if regs.a0 = 0 then .ok regs.a1
  else .error ((ErrKind.ofUsize? regs.a0.toNat).getD .unknownSysCall, regs.a1.toUInt16)

/-- The registers at the `ecall`; `regs` are those that `syscall` leaves alone. -/
def callRegs (regs : Registers) (capPtr : UInt64) (capDepth : UInt32) (invLabel : InvLabel)
    (arg3 arg4 arg5 arg6 : UInt64) (sysno : SysCallNo) : Registers :=
  { regs with
    a0 := capPtr, a1 := capDepth.toUInt64, a2 := UInt64.ofNat invLabel.toUsize, a3 := arg3,
    a4 := arg4, a5 := arg5, a6 := arg6, a7 := UInt64.ofNat sysno.toUsize,
    scause := UInt64.ofNat ecallUser }

def syscall (cfg : Config) (regs : Registers) (capPtr : UInt64) (capDepth : UInt32)
    (invLabel : InvLabel) (arg3 arg4 arg5 arg6 : UInt64) (sysno : SysCallNo) : KM SysCallRes := do
  let s ← get
  trapEntry (callRegs regs capPtr capDepth invLabel arg3 arg4 arg5 arg6 sysno)
  handleSyscall cfg
  let t ← getTcb s.current
  return sysCallRes t.registers

/-- Two 32-bit arguments in one register: `((high as usize) << 32) | low as usize`, for the depths
of source and destination among others. -/
def packDepths (srcDepth destDepth : UInt32) : UInt64 :=
  srcDepth.toUInt64 <<< 32 ||| destDepth.toUInt64

def untypedRetype (cfg : Config) (regs : Registers) (capPtr : UInt64) (capDepth : UInt32)
    (destPtr : UInt64) (destDepth index userSize num : UInt32) (capType : CapabilityType) :
    KM SysCallRes :=
  let indexAndDepth := packDepths index destDepth
  let userSizeAndNum := packDepths userSize num
  syscall cfg regs capPtr capDepth .untypedRetype destPtr indexAndDepth userSizeAndNum
    capType.toU8.toUInt64 .call

def setIpcBuffer (cfg : Config) (regs : Registers) (capPtr : UInt64) (capDepth : UInt32)
    (pageCapPtr : UInt64) (pageDepth : UInt32) : KM SysCallRes :=
  syscall cfg regs capPtr capDepth .tcbSetIpcBuffer pageCapPtr pageDepth.toUInt64 0 0 .call

def configureTcb (cfg : Config) (regs : Registers) (capPtr : UInt64) (capDepth : UInt32)
    (cnodePtr : UInt64) (cnodeDepth : UInt32) (vspacePtr : UInt64) (vspaceDepth : UInt32) :
    KM SysCallRes :=
  syscall cfg regs capPtr capDepth .tcbConfigure cnodePtr cnodeDepth.toUInt64 vspacePtr
    vspaceDepth.toUInt64 .call

def cnodeCopy (cfg : Config) (regs : Registers) (capPtr : UInt64) (capDepth : UInt32)
    (destIndex : UInt64) (destDepth : UInt32) (srcIndex : UInt64) (srcDepth : UInt32) :
    KM SysCallRes :=
  syscall cfg regs capPtr capDepth .cNodeCopy srcIndex (packDepths srcDepth destDepth) destIndex 0
    .call

def cnodeMint (cfg : Config) (regs : Registers) (capPtr : UInt64) (capDepth : UInt32)
    (destIndex : UInt64) (destDepth : UInt32) (srcIndex : UInt64) (srcDepth : UInt32)
    (capVal : UInt64) : KM SysCallRes :=
  syscall cfg regs capPtr capDepth .cNodeMint srcIndex (packDepths srcDepth destDepth) destIndex
    capVal .call

/-- The destination comes as depth and index, the other way round than in `cnode_copy`. -/
def cnodeMove (cfg : Config) (regs : Registers) (capPtr : UInt64) (capDepth destDepth : UInt32)
    (destIndex srcIndex : UInt64) (srcDepth : UInt32) : KM SysCallRes :=
  syscall cfg regs capPtr capDepth .cNodeMove srcIndex (packDepths srcDepth destDepth) destIndex 0
    .call

def mapPage (cfg : Config) (regs : Registers) (capPtr : UInt64) (capDepth : UInt32)
    (destPtr : UInt64) (destDepth : UInt32) (vaddr flags : UInt64) : KM SysCallRes :=
  syscall cfg regs capPtr capDepth .pageMap destPtr destDepth.toUInt64 vaddr flags .call

def unmapPage (cfg : Config) (regs : Registers) (capPtr : UInt64) (capDepth : UInt32)
    (destPtr : UInt64) (destDepth : UInt32) : KM SysCallRes :=
  syscall cfg regs capPtr capDepth .pageUnMap destPtr destDepth.toUInt64 0 0 .call

def mapPageTable (cfg : Config) (regs : Registers) (capPtr : UInt64) (capDepth : UInt32)
    (destPtr : UInt64) (destDepth : UInt32) (vaddr : UInt64) : KM SysCallRes :=
  syscall cfg regs capPtr capDepth .pageTableMap destPtr destDepth.toUInt64 vaddr 0 .call

/-! ## `caps.rs` -/

structure PageFlags where
  isWritable : Bool
  isReadable : Bool
  isExecutable : Bool
deriving DecidableEq

/-- `From<PageFlags> for usize`. -/
def PageFlags.toUsize (value : PageFlags) : UInt64 :=
  let write := if value.isWritable then 0x02 else 0x00
  let read := if value.isReadable then 0x04 else 0x00
  let exec := if value.isExecutable then 0x01 else 0x00
  write ||| read ||| exec

/-- A capability as a client knows it: its path, and what it says about the object. -/
structure Capability (K : Type) where
  capPtr : UInt64
  capDepth : UInt32
  capData : K

class Copyable (K : Type) where
  copyData : K → K

class Mintable (K : Type) where
  mintData : K → UInt64 → K

/-- `Notificaiton`. -/
structure Notification where
deriving DecidableEq

instance : Copyable Notification := ⟨id⟩

instance : Mintable Notification := ⟨fun n _ => n⟩

structure CNode where
  radix : UInt32
  cursor : UInt64
deriving DecidableEq

/-- A slot: the path of its CNode, the radix of the CNode, and the number of the slot. -/
structure CSlot where
  pptr : UInt64
  depth : UInt32
  radix : UInt32
  index : UInt32
deriving DecidableEq

/-- `CSlot::get_cap_ptr`: the path of the slot. -/
def CSlot.getCapPtr (p : Profile) (slot : CSlot) : Option (UInt64 × UInt32) := do
  let newDepth ← p.add32 slot.depth slot.radix
  let shifted ← p.shl slot.pptr.toNat slot.radix.toNat
  let newPptr ← p.add shifted slot.index.toNat
  return (UInt64.ofNat newPptr, newDepth)

abbrev CNodeCapability := Capability CNode

namespace CNodeCapability

/-- `get_size`. -/
def getSize (p : Profile) (self : CNodeCapability) : Option Nat := p.pow 2 self.capData.radix.toNat

/-- The CNode with the cursor one further. -/
def advance (self : CNodeCapability) : CNodeCapability :=
  { self with capData := { self.capData with cursor := self.capData.cursor + 1 } }

/-- `get_slot`: the slot under the cursor. -/
def getSlot (p : Profile) (self : CNodeCapability) :
    Option (Except SysCallFailed CSlot × CNodeCapability) := do
  let size ← self.getSize p
  if size ≤ self.capData.cursor.toNat then return (.error (.noEnoughSlot, 0), self)
  else
    return (.ok
      { pptr := self.capPtr
        depth := self.capDepth
        radix := self.capData.radix
        index := self.capData.cursor.toUInt32 }, self.advance)

variable {K : Type}

/-- `copy`: the outcome and the CNode afterwards. -/
def copy [Copyable K] (cfg : Config) (p : Profile) (regs : Registers) (self : CNodeCapability)
    (cap : Capability K) : KM (Except SysCallFailed (Capability K) × CNodeCapability) := do
  let (slot, self) ← arith (self.getSlot p)
  match slot with
  | .error e => return (.error e, self)
  | .ok slot => do
    let depth := slot.radix
    let index := slot.index.toUInt64
    let (destPtr, destDepth) ← arith (slot.getCapPtr p)
    let res ← cnodeCopy cfg regs self.capPtr self.capDepth index depth cap.capPtr cap.capDepth
    return (res.map fun _ => ⟨destPtr, destDepth, Copyable.copyData cap.capData⟩, self)

/-- `mint`: the outcome and the CNode afterwards. -/
def mint [Mintable K] (cfg : Config) (p : Profile) (regs : Registers) (self : CNodeCapability)
    (cap : Capability K) (capVal : UInt64) :
    KM (Except SysCallFailed (Capability K) × CNodeCapability) := do
  let (slot, self) ← arith (self.getSlot p)
  match slot with
  | .error e => return (.error e, self)
  | .ok slot => do
    let (destPtr, destDepth) ← arith (slot.getCapPtr p)
    let res ← cnodeMint cfg regs self.capPtr self.capDepth destPtr destDepth cap.capPtr
      cap.capDepth capVal
    return (res.map fun _ => ⟨destPtr, destDepth, Mintable.mintData cap.capData capVal⟩, self)

end CNodeCapability

end Zoeax.Client
