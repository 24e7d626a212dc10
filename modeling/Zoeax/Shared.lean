import Zoeax.Lib.Usize
import Mathlib.Data.UInt

/-!
# The crate `shared`

What kernel and user programs agree on: capability types, error kinds, invocation labels, system
call numbers, the saved register file, and the alignment helpers.
-/

namespace Zoeax

open Lib (Profile notU64)

def pageSize : Nat := 4096

/-! ## `cap_type.rs` -/

inductive CapabilityType where
  | untyped
  | tcb
  | endPoint
  | cNode
  | notification
  | pageTable
  | page
deriving DecidableEq, Repr

namespace CapabilityType

/-- The discriminant (`repr(u8)`). -/
def toU8 : CapabilityType → UInt8
  | untyped => 1
  | tcb => 3
  | endPoint => 5
  | cNode => 7
  | notification => 9
  | pageTable => 2
  | page => 4

/-- `TryFrom<u8>`. -/
def ofU8? (v : UInt8) : Option CapabilityType :=
  if v = untyped.toU8 then some untyped
  else if v = tcb.toU8 then some tcb
  else if v = endPoint.toU8 then some endPoint
  else if v = cNode.toU8 then some cNode
  else if v = notification.toU8 then some notification
  else if v = page.toU8 then some page
  else if v = pageTable.toU8 then some pageTable
  else none

@[simp] theorem ofU8?_toU8 (t : CapabilityType) : ofU8? t.toU8 = some t := by cases t <;> rfl

theorem toU8_ne_zero (t : CapabilityType) : t.toU8 ≠ 0 := by cases t <;> decide

end CapabilityType

/-! ## `err_kind.rs` -/

inductive ErrKind where
  | noMemory
  | pteNotFound
  | outOfMemory
  | invalidUserAddress
  | unknownCapType
  | unexpectedCapType
  | canNotNewFromDeviceMemory
  | noEnoughSlot
  | notEmptySlot
  | slotIsEmpty
  | vaddressAlreadyMapped
  | pageTableAlreadyMapped
  | pageTableNotMappedYet
  | pageAlreadyMapped
  | pageNotMappedYet
  | unknownInvocation
  | canNotDerivable
  | invalidOperation
  | capNotFound
  | notAligned
  | unknownSysCall
  | notRootPageTable
deriving DecidableEq, Repr

/-- The discriminant: `NoMemory = 1`, the others count up from there. -/
def ErrKind.toUsize : ErrKind → Nat
  | noMemory => 1
  | pteNotFound => 2
  | outOfMemory => 3
  | invalidUserAddress => 4
  | unknownCapType => 5
  | unexpectedCapType => 6
  | canNotNewFromDeviceMemory => 7
  | noEnoughSlot => 8
  | notEmptySlot => 9
  | slotIsEmpty => 10
  | vaddressAlreadyMapped => 11
  | pageTableAlreadyMapped => 12
  | pageTableNotMappedYet => 13
  | pageAlreadyMapped => 14
  | pageNotMappedYet => 15
  | unknownInvocation => 16
  | canNotDerivable => 17
  | invalidOperation => 18
  | capNotFound => 19
  | notAligned => 20
  | unknownSysCall => 21
  | notRootPageTable => 22

/-- `TryFrom<usize>`, which knows all but the last two. -/
def ErrKind.ofUsize? (value : Nat) : Option ErrKind :=
  [noMemory, pteNotFound, outOfMemory, invalidUserAddress, unknownCapType, unexpectedCapType,
    canNotNewFromDeviceMemory, noEnoughSlot, notEmptySlot, slotIsEmpty, vaddressAlreadyMapped,
    pageAlreadyMapped, pageNotMappedYet, pageTableAlreadyMapped, pageTableNotMappedYet,
    unknownInvocation, canNotDerivable, invalidOperation, capNotFound, notAligned].find?
    (·.toUsize = value)

/-! ## `inv_labels.rs` and `syscall_no.rs` -/

inductive InvLabel where
  | putChar
  | cNodeTraverse
  | untypedRetype
  | tcbConfigure
  | tcbWriteReg
  | tcbResume
  | tcbSetIpcBuffer
  | notifyWait
  | notifySend
  | cNodeCopy
  | cNodeMint
  | cNodeMove
  | pageMap
  | pageUnMap
  | pageTableMap
  | pageTableUnMap
  | pageTableMakeRoot
  | epSend
  | epRecv
deriving DecidableEq, Repr

/-- `TryFrom<usize>`: the labels are numbered from 0 in the order of their declaration. -/
def InvLabel.ofUsize? : Nat → Option InvLabel
  | 0 => some putChar
  | 1 => some cNodeTraverse
  | 2 => some untypedRetype
  | 3 => some tcbConfigure
  | 4 => some tcbWriteReg
  | 5 => some tcbResume
  | 6 => some tcbSetIpcBuffer
  | 7 => some notifyWait
  | 8 => some notifySend
  | 9 => some cNodeCopy
  | 10 => some cNodeMint
  | 11 => some cNodeMove
  | 12 => some pageMap
  | 13 => some pageUnMap
  | 14 => some pageTableMap
  | 15 => some pageTableUnMap
  | 16 => some pageTableMakeRoot
  | 17 => some epSend
  | 18 => some epRecv
  | _ => none

/-- `as usize`. -/
def InvLabel.toUsize : InvLabel → Nat
  | putChar => 0
  | cNodeTraverse => 1
  | untypedRetype => 2
  | tcbConfigure => 3
  | tcbWriteReg => 4
  | tcbResume => 5
  | tcbSetIpcBuffer => 6
  | notifyWait => 7
  | notifySend => 8
  | cNodeCopy => 9
  | cNodeMint => 10
  | cNodeMove => 11
  | pageMap => 12
  | pageUnMap => 13
  | pageTableMap => 14
  | pageTableUnMap => 15
  | pageTableMakeRoot => 16
  | epSend => 17
  | epRecv => 18

theorem InvLabel.ofUsize?_toUsize (l : InvLabel) :
    ofUsize? (UInt64.ofNat l.toUsize).toNat = some l := by
  cases l <;> rfl

inductive SysCallNo where
  | print
  | call
  | send
  | recv
deriving DecidableEq, Repr

/-- `as usize`. -/
def SysCallNo.toUsize : SysCallNo → Nat
  | print => 0
  | call => 1
  | send => 2
  | recv => 3

/-- `SysCallNo::Print as usize`; every other number is an invocation. -/
def sysCallNoPrint : Nat := SysCallNo.print.toUsize

/-! ## `registers.rs` -/

/-- The saved register file of a thread, in the order of the `repr(C)` structure. -/
structure Registers where
  ra : UInt64 := 0
  sp : UInt64 := 0
  gp : UInt64 := 0
  tp : UInt64 := 0
  t0 : UInt64 := 0
  t1 : UInt64 := 0
  t2 : UInt64 := 0
  t3 : UInt64 := 0
  t4 : UInt64 := 0
  t5 : UInt64 := 0
  t6 : UInt64 := 0
  a0 : UInt64 := 0
  a1 : UInt64 := 0
  a2 : UInt64 := 0
  a3 : UInt64 := 0
  a4 : UInt64 := 0
  a5 : UInt64 := 0
  a6 : UInt64 := 0
  a7 : UInt64 := 0
  s0 : UInt64 := 0
  s1 : UInt64 := 0
  s2 : UInt64 := 0
  s3 : UInt64 := 0
  s4 : UInt64 := 0
  s5 : UInt64 := 0
  s6 : UInt64 := 0
  s7 : UInt64 := 0
  s8 : UInt64 := 0
  s9 : UInt64 := 0
  s10 : UInt64 := 0
  s11 : UInt64 := 0
  scause : UInt64 := 0
  sstatus : UInt64 := 0
  sepc : UInt64 := 0
deriving DecidableEq, Repr

/-- The register file that lies in memory as the words `w 0, w 1, ..`. -/
def Registers.ofWords (w : Nat → UInt64) : Registers where
  ra := w 0
  sp := w 1
  gp := w 2
  tp := w 3
  t0 := w 4
  t1 := w 5
  t2 := w 6
  t3 := w 7
  t4 := w 8
  t5 := w 9
  t6 := w 10
  a0 := w 11
  a1 := w 12
  a2 := w 13
  a3 := w 14
  a4 := w 15
  a5 := w 16
  a6 := w 17
  a7 := w 18
  s0 := w 19
  s1 := w 20
  s2 := w 21
  s3 := w 22
  s4 := w 23
  s5 := w 24
  s6 := w 25
  s7 := w 26
  s8 := w 27
  s9 := w 28
  s10 := w 29
  s11 := w 30
  scause := w 31
  sstatus := w 32
  sepc := w 33

/-- The word of `Registers` that holds `sstatus`. -/
def Registers.sstatusWord : Nat := 32

/-- `types.rs`: the words of `IPCBuffer::message`, and of the whole `IPCBuffer` (tag, message,
user data). -/
def messageLen : Nat := 128

def ipcBufferWords : Nat := 1 + messageLen + 1

structure UntypedInfo where
  bits : Nat := 0
  idx : Nat := 0
  isDevice : Bool := false
deriving DecidableEq, Repr

/-- `BootInfo`, without the greeting; `untypedInfos` are the entries in use. -/
structure BootInfo where
  ipcBufferAddr : Nat := 0
  rootCnodeIdx : Nat := 0
  rootVspaceIdx : Nat := 0
  untypedNum : Nat := 0
  firtstEmptyIdx : Nat := 0
  untypedInfos : List UntypedInfo := []
deriving DecidableEq, Repr

/-! ## Alignment (`lib.rs`) -/

def isAligned (value align : Nat) : Bool := value % align == 0

/-- `(value + align - 1) & !(align - 1)`. -/
def alignUp (p : Profile) (value align : Nat) : Option Nat := do
  let sum ← p.add value align
  let top ← p.sub sum 1
  let low ← p.sub align 1
  return top &&& notU64 low

/-- `value & !(align - 1)`. -/
def alignDown (p : Profile) (value align : Nat) : Option Nat := do
  let low ← p.sub align 1
  return value &&& notU64 low

end Zoeax
