import Zoeax.Shared

/-!
# Addresses and capabilities (`kernel/src/address.rs`, `capability.rs`, `capability/*.rs`)

A capability is two words: its type, rights and object address packed in one, and `cap_dep_val`,
whose meaning depends on the type. The functions of the `Capability` trait are indexed by
`CapabilityType`; the methods that only compute on the two words are here, those that reach the
object behind the address are in the modules of the objects.
-/

namespace Zoeax

open Lib (Profile notU64)

/-! ## Stopping -/

/-- `KernelError`, without the source place a debug build adds. -/
structure KernelError where
  eKind : ErrKind
  eVal : Nat
deriving DecidableEq, Repr

/-- How the kernel can end without returning to a thread. -/
inductive Halt where
  /-- A `panic!`, a failed assertion or `unwrap`, or a checked overflow. -/
  | panic
  /-- An access to memory that is not part of a live object of the expected type. -/
  | undefined
  /-- A loop that is still running when the bound of the model is used up. -/
  | hang
deriving DecidableEq, Repr

/-- Why a computation did not return: the `Err` of a `KernelResult`, or the end of the kernel. -/
inductive Stop where
  | err (e : KernelError)
  | halt (h : Halt)
deriving DecidableEq, Repr

/-- The `kerr!` macro. -/
def kerr (eKind : ErrKind) (eVal : Nat) : Stop := .err ⟨eKind, eVal⟩

def panicked : Stop := .halt .panic

def undefinedAccess : Stop := .halt .undefined

/-- Machine arithmetic inside the kernel: the checked build panics on overflow. -/
def arith {α : Type} : Option α → Except Stop α
  | some a => .ok a
  | none => .error panicked

/-- `cond.then_some(()).ok_or(e)?`. -/
def require (cond : Bool) (e : Stop) : Except Stop Unit := if cond then .ok () else .error e

@[simp] theorem arith_some {α : Type} (a : α) : arith (some a) = .ok a := rfl

theorem arith_ok {α : Type} {x : Option α} {a : α} : arith x = .ok a ↔ x = some a := by
  cases x <;> simp [arith]

theorem require_ok {cond : Bool} {e : Stop} {u : Unit} :
    require cond e = .ok u ↔ cond = true := by
  cases cond <;> simp [require]

/-!
## Addresses

`PhysAddr`, `VirtAddr` and `KernelVAddress` wrap a `usize`; here they are numbers, and the
conversions between them are functions.
-/

/-- `KERNEL_V_ADDR_PFX`: where the kernel maps physical memory. -/
def kernelVAddrPfx : Nat := 0xffff800000000000

/-- The end of the physical memory that the kernel can map there: the last top-level entry is that
of the kernel image. -/
def directMapEnd : Nat := 255 * 2 ^ 39

/-- `KERNEL_CODE_PFX`: what separates an address of the kernel image from its physical address. -/
def kernelCodePfx : Nat := 0xffffffff00000000

/-- `From<PhysAddr> for KernelVAddress`. -/
def toKernelV (a : Nat) : Nat := a ||| kernelVAddrPfx

/-- `From<KernelVAddress> for PhysAddr`. -/
def toPhys (k : Nat) : Nat := k &&& notU64 kernelVAddrPfx

/-- The physical address of a static of the kernel image. -/
def imagePhys (k : Nat) : Nat := k &&& notU64 kernelCodePfx

def getVpn (v : Nat) (idx : Nat) : Nat := (v >>> (12 + idx * 9)) &&& 0x1ff

theorem toPhys_eq (k : Nat) : toPhys k = k % 2 ^ 47 :=
  Nat.and_two_pow_sub_one_eq_mod k 47

theorem toKernelV_eq {a : Nat} (h : a < 2 ^ 64) :
    toKernelV a = a % 2 ^ 47 + kernelVAddrPfx :=
  Lib.or_high_ones (k := 47) (n := 64) h (by decide)

theorem toKernelV_of_lt {a : Nat} (h : a < 2 ^ 47) : toKernelV a = a + kernelVAddrPfx := by
  rw [toKernelV_eq (by omega), Nat.mod_eq_of_lt h]

theorem toPhys_toKernelV {a : Nat} (h : a < 2 ^ 64) : toPhys (toKernelV a) = a % 2 ^ 47 := by
  rw [toPhys_eq, toKernelV_eq h, kernelVAddrPfx]
  omega

theorem toPhys_toKernelV_of_lt {a : Nat} (h : a < 2 ^ 47) : toPhys (toKernelV a) = a := by
  rw [toPhys_toKernelV (by omega), Nat.mod_eq_of_lt h]

theorem getVpn_lt (v : Nat) (idx : Nat) : getVpn v idx < 512 := by
  rw [getVpn, show (0x1ff : Nat) = 2 ^ 9 - 1 by rfl, Nat.and_two_pow_sub_one_eq_mod]
  exact Nat.mod_lt _ (by decide)

/-- The top-level index of an address in the user half. -/
theorem getVpn_three_lt {v : Nat} (h : v < 2 ^ 47) : getVpn v 3 < 256 := by
  rw [getVpn, show (0x1ff : Nat) = 2 ^ 9 - 1 by rfl, Nat.and_two_pow_sub_one_eq_mod,
    Nat.shiftRight_eq_div_pow]
  change v / 2 ^ 39 % 2 ^ 9 < 256
  omega

/-! ## What the build and the machine fix -/

/-- The places where a `CNodeEntry` is built in a local variable, linked, and then moved into its
slot. `insertCap` is generic: one place for each type of capability. -/
inductive Site where
  | invocation
  | insertCap (k : CapabilityType)
  | setRootCspace
  | setRootVspace
  | setIpcBuffer
  | createRootCnode
  | createRootVspace
  | createRootIpcBuffer
deriving DecidableEq, Repr

/-- What the source leaves to the compiler, the linker and the machine: overflow checks, object
sizes, where the statics and the stack slots of local variables lie, and the free memory. The
facts at the end say that these places are apart from each other. -/
structure Config where
  profile : Profile
  /-- `size_of::<ThreadControlBlock>()`, `size_of::<Endpoint>()`, `size_of::<Notification>()`. -/
  tcbSize : Nat
  endpointSize : Nat
  notificationSize : Nat
  /-- `__text` and `__data_end`. -/
  text : Nat
  dataEnd : Nat
  /-- `KERNEL_VM_ROOT.get()`, `LV2TABLE.get()`, `IDLE_THREAD.get()`. -/
  kernelVmRoot : Nat
  lv2Table : Nat
  idleThread : Nat
  /-- `idle` and `__stack_top`. -/
  idleEntry : UInt64
  stackTop : UInt64
  freeRam : Nat
  freeRamEnd : Nat
  /-- The stack address of the local `CNodeEntry` of a place. A trap starts on an empty stack, so
  that each place has one. -/
  localAddr : Site → Nat
  /-- The place of `message` in `IPCBuffer`, in words. -/
  messageWord : Nat
  /-- The places of `root_cnode`, `vspace` and `ipc_buffer` in a thread control block. -/
  rootCnodeOffset : Nat
  vspaceOffset : Nat
  ipcBufferOffset : Nat
  /-- The words of a `BootInfo` in memory. -/
  bootInfoWord : BootInfo → Nat → UInt64
  /-- A bound on the iterations of the loops that need not end. -/
  loopBound : Nat
  tcbSize_pos : 0 < tcbSize
  slots_in_tcb : rootCnodeOffset + 32 ≤ tcbSize ∧ vspaceOffset + 32 ≤ tcbSize ∧
    ipcBufferOffset + 32 ≤ tcbSize
  messageWord_le : messageWord ≤ 2
  freeRamEnd_le : freeRamEnd ≤ directMapEnd
  image_le : kernelCodePfx ≤ text
  text_le : text ≤ dataEnd
  dataEnd_lt : dataEnd < 2 ^ 64
  kernelVmRoot_aligned : imagePhys kernelVmRoot % 4096 = 0
  lv2Table_aligned : imagePhys lv2Table % 4096 = 0
  statics_ne : imagePhys kernelVmRoot ≠ imagePhys lv2Table
  kernelVmRoot_apart :
    imagePhys kernelVmRoot + 4096 ≤ freeRam ∨ freeRamEnd ≤ imagePhys kernelVmRoot
  lv2Table_apart : imagePhys lv2Table + 4096 ≤ freeRam ∨ freeRamEnd ≤ imagePhys lv2Table
  idleThread_apart : toKernelV freeRamEnd ≤ idleThread
  localAddr_apart : ∀ site, toKernelV freeRamEnd ≤ localAddr site
  localAddr_lt : ∀ site, localAddr site < 2 ^ 64

/-- The checked build on a board with 128 MiB of memory at `0x80000000`. The sizes and the place of
`message` are those of the compiled structures. The addresses are made up, as are the offsets in a
thread control block and the layout of `BootInfo`: `kernel.ld` puts the image at `0x82000000`, here
it is at `0x80200000`, and it ends the free memory 64 MiB after the image, here the free memory is
what is left of the board. -/
def Config.virt : Config where
  profile := .debug
  tcbSize := 408
  endpointSize := 24
  notificationSize := 32
  text := 0xffffffff80200000
  dataEnd := 0xffffffff80300000
  kernelVmRoot := 0xffffffff80280000
  lv2Table := 0xffffffff80281000
  idleThread := 0xffffffff80290000
  idleEntry := 0xffffffff80210000
  stackTop := 0xffffffff802f0000
  freeRam := 0x80400000
  freeRamEnd := 0x88000000
  localAddr
    | .invocation => 0xffffffff802ef000
    | .insertCap _ => 0xffffffff802ef100
    | .setRootCspace => 0xffffffff802ef200
    | .setRootVspace => 0xffffffff802ef240
    | .setIpcBuffer => 0xffffffff802ef280
    | .createRootCnode => 0xffffffff802ef300
    | .createRootVspace => 0xffffffff802ef340
    | .createRootIpcBuffer => 0xffffffff802ef380
  messageWord := 0
  rootCnodeOffset := 16
  vspaceOffset := 48
  ipcBufferOffset := 80
  bootInfoWord info i :=
    UInt64.ofNat (([info.ipcBufferAddr, info.rootCnodeIdx, info.rootVspaceIdx, info.untypedNum,
      info.firtstEmptyIdx] ++ info.untypedInfos.flatMap fun u => [u.bits, u.idx, 0]).getD i 0)
  loopBound := 64
  tcbSize_pos := by decide
  slots_in_tcb := by decide
  messageWord_le := by decide
  freeRamEnd_le := by decide
  image_le := by decide
  text_le := by decide
  dataEnd_lt := by decide
  kernelVmRoot_aligned := by decide
  lv2Table_aligned := by decide
  statics_ne := by decide
  kernelVmRoot_apart := by decide
  lv2Table_apart := by decide
  idleThread_apart := by decide
  localAddr_apart site := by
    cases site with
    | insertCap k => cases k <;> decide
    | _ => decide
  localAddr_lt site := by
    cases site with
    | insertCap k => cases k <;> decide
    | _ => decide

/-! ## `capability.rs` -/

/-- `NonZeroU8`. -/
abbrev NonZeroU8 := { v : UInt8 // v ≠ 0 }

/-- `CapabilityData`, in a slot or read at a type. -/
structure CapabilityData where
  capType : NonZeroU8
  capRight : UInt8
  addressTop : UInt16
  addressBottom : UInt32
  capDepVal : UInt64
deriving DecidableEq

/-- `cap_try_from_u8`. -/
def capTryFromU8 (val : UInt8) : Except Stop CapabilityType :=
  match CapabilityType.ofU8? val with
  | some t => .ok t
  | none => .error (kerr .unknownCapType 0)

namespace CapabilityType

/-- `align_of::<KernelObject>()`; `Untyped` and `CNode` are unit structures. -/
def align : CapabilityType → Nat
  | untyped => 1
  | cNode => 1
  | tcb => 8
  | endPoint => 8
  | notification => 8
  | pageTable => 4096
  | page => 4096

def canBeRetypedFromDeviceMemory : CapabilityType → Bool
  | untyped => true
  | _ => false

/-- `size_of::<CNodeEntry<Something>>()`. -/
def entrySize : Nat := 32

/-- `Capability::get_object_size`. -/
def getObjectSize (cfg : Config) (k : CapabilityType) (userSize : Nat) : Except Stop Nat :=
  match k with
  | untyped => .ok userSize
  | tcb => .ok cfg.tcbSize
  | endPoint => .ok cfg.endpointSize
  | notification => .ok cfg.notificationSize
  | cNode => do
    let slots ← arith (cfg.profile.pow 2 (userSize % 2 ^ 32))
    arith (cfg.profile.mul slots entrySize)
  | pageTable => .ok pageSize
  | page => .ok pageSize

/-- `Capability::create_cap_dep_val`. -/
def createCapDepVal (k : CapabilityType) (addr : Nat) (userSize : Nat) :
    Except Stop Nat :=
  match k with
  | untyped =>
    -- `ilog2` panics on zero; the shift drops what leaves the word
    if userSize = 0 then .error panicked
    else .ok ((toPhys addr <<< 16) % 2 ^ 64 ||| Nat.log2 userSize)
  | cNode => .ok userSize
  | _ => .ok 0

end CapabilityType

namespace CapabilityData

def getCapType (c : CapabilityData) : Except Stop CapabilityType := capTryFromU8 c.capType.1

def getAddress (c : CapabilityData) : Nat :=
  (c.addressTop.toNat <<< 32) ||| c.addressBottom.toNat

def setAddress (c : CapabilityData) (address : Nat) : CapabilityData :=
  { c with
    addressTop := UInt16.ofNat (address >>> 32)
    addressBottom := UInt32.ofNat address }

def setCapDepVal (c : CapabilityData) (val : UInt64) : CapabilityData := { c with capDepVal := val }

/-- `CapabilityData::new`. -/
def new (k : CapabilityType) (address : Nat) (capDepVal : UInt64) : CapabilityData :=
  setAddress ⟨⟨k.toU8, k.toU8_ne_zero⟩, 0, 0, 0, capDepVal⟩ address

/-- `CapabilityData::init`. -/
def init (k : CapabilityType) (address : Nat) (userSize : Nat) :
    Except Stop CapabilityData := do
  let capDepVal ← k.createCapDepVal address userSize
  return new k (toPhys address) (UInt64.ofNat capDepVal)

/-- `CapInSlot::try_ref_as` and `try_ref_mut_as`: the capability is what it is, if of that type. -/
def tryRefAs (c : CapabilityData) (k : CapabilityType) : Except Stop Unit := do
  let capType ← c.getCapType
  require (k = capType) (kerr .unexpectedCapType 0)

@[simp] theorem getCapType_new (k : CapabilityType) (a : Nat) (v : UInt64) :
    (new k a v).getCapType = .ok k := by
  simp [getCapType, new, setAddress, capTryFromU8]

theorem getAddress_lt (c : CapabilityData) : c.getAddress < 2 ^ 48 := by
  have htop := c.addressTop.toNat_lt
  have hbottom := c.addressBottom.toNat_lt
  rw [getAddress, Lib.shiftLeft_or_of_lt hbottom]
  omega

theorem getAddress_setAddress (c : CapabilityData) (a : Nat) :
    (c.setAddress a).getAddress = a % 2 ^ 48 := by
  have hbottom : a % 2 ^ 32 < 2 ^ 32 := Nat.mod_lt _ (by decide)
  simp only [getAddress, setAddress, UInt16.toNat_ofNat', UInt32.toNat_ofNat',
    Nat.shiftRight_eq_div_pow]
  rw [Lib.shiftLeft_or_of_lt hbottom]
  omega

@[simp] theorem getAddress_new (k : CapabilityType) (a : Nat) (v : UInt64) :
    (new k a v).getAddress = a % 2 ^ 48 := getAddress_setAddress _ a

@[simp] theorem capDepVal_new (k : CapabilityType) (a : Nat) (v : UInt64) :
    (new k a v).capDepVal = v := rfl

@[simp] theorem getAddress_setCapDepVal (c : CapabilityData) (v : UInt64) :
    (c.setCapDepVal v).getAddress = c.getAddress := rfl

@[simp] theorem getCapType_setCapDepVal (c : CapabilityData) (v : UInt64) :
    (c.setCapDepVal v).getCapType = c.getCapType := rfl

theorem tryRefAs_ok {c : CapabilityData} {k : CapabilityType} {u : Unit} :
    c.tryRefAs k = .ok u ↔ c.getCapType = .ok k := by
  unfold tryRefAs
  cases c.getCapType with
  | error e => exact ⟨fun h => (nomatch h), fun h => (nomatch h)⟩
  | ok t =>
    change require (k = t) _ = .ok u ↔ _
    rw [require_ok, decide_eq_true_eq]
    exact ⟨fun h => h ▸ rfl, fun h => (Except.ok.inj h).symm⟩

/-! ## `capability/cnode.rs`: the radix -/

def radix (c : CapabilityData) : Nat := c.capDepVal.toNat % 2 ^ 32

def capacity (cfg : Config) (c : CapabilityData) : Except Stop Nat :=
  arith (cfg.profile.pow 2 c.radix)

/-! ## `capability/page_table.rs`: the flags of `PageTableCap` and `PageCap` -/

def isMapped (c : CapabilityData) : Bool := c.capDepVal.toNat.testBit 48

def isRoot (c : CapabilityData) : Bool := c.capDepVal.toNat.testBit 49

def setMapped (c : CapabilityData) (vaddr : Nat) : CapabilityData :=
  c.setCapDepVal (c.capDepVal ||| UInt64.ofNat ((1 <<< 48) ||| (vaddr &&& 0xffffffffffff)))

def setRoot (c : CapabilityData) : CapabilityData :=
  c.setCapDepVal (c.capDepVal ||| UInt64.ofNat (1 <<< 49))

def setUnmapped (c : CapabilityData) : CapabilityData := c.setCapDepVal 0

def getMappedAddress (c : CapabilityData) : Nat := c.capDepVal.toNat % 2 ^ 48

theorem isMapped_setMapped (c : CapabilityData) (vaddr : Nat) :
    (c.setMapped vaddr).isMapped = true := by
  have h : ((1 : Nat) <<< 48).testBit 48 = true := by decide
  simp only [isMapped, setMapped, setCapDepVal, UInt64.toNat_or, UInt64.toNat_ofNat',
    Nat.testBit_or, Nat.testBit_mod_two_pow, h, Bool.true_or, Bool.or_true, Bool.and_true,
    Nat.reduceLT, decide_true]

/-! ## `capability/endpoint.rs`, `capability/notification.rs`: the badge -/

/-- `EndPointCap::get_badge` and `NotificationCap::get_batch`. -/
def getBadge (c : CapabilityData) : UInt64 := c.capDepVal

/-! ## Derivation -/

/-- `CNodeEntry::derive`: the `derive` of the capability's own type. -/
def derive (c : CapabilityData) : Except Stop CapabilityData := do
  match ← c.getCapType with
  | .tcb => throw (kerr .canNotDerivable 0)
  | .untyped => throw (kerr .canNotDerivable 0)
  | .cNode => return c
  | .notification => return c.setCapDepVal 0
  | .endPoint => return c.setCapDepVal 0
  | .page => do
    require c.isMapped (kerr .pageTableNotMappedYet 0)
    return c.setCapDepVal 0
  | .pageTable => return c

end CapabilityData

end Zoeax
