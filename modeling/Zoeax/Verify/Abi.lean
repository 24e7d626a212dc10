import Zoeax.Verify.Client
import Zoeax.Verify.Errors

/-!
# The system call interface

The wrappers of the client library fill the registers, the kernel takes them apart again, and the
two are written separately. A `Call` is a call of one of the wrappers with its arguments;
`Call.perform` says in terms of these arguments what the kernel is asked for. `abi_agreement`: the
kernel does that, for all values of the arguments, and every error that it answers is what the
client reports, kind and value.
-/

namespace Zoeax.Client

open Lib Exec

/-! ## Calls -/

/-- A call of a wrapper; the arguments are in the order of the wrapper's. -/
inductive Call where
  | untypedRetype (capPtr : UInt64) (capDepth : UInt32) (destPtr : UInt64)
      (destDepth index userSize num : UInt32) (capType : CapabilityType)
  | cnodeCopy (capPtr : UInt64) (capDepth : UInt32) (destIndex : UInt64) (destDepth : UInt32)
      (srcIndex : UInt64) (srcDepth : UInt32)
  | cnodeMint (capPtr : UInt64) (capDepth : UInt32) (destIndex : UInt64) (destDepth : UInt32)
      (srcIndex : UInt64) (srcDepth : UInt32) (capVal : UInt64)
  | cnodeMove (capPtr : UInt64) (capDepth destDepth : UInt32) (destIndex srcIndex : UInt64)
      (srcDepth : UInt32)
  | setIpcBuffer (capPtr : UInt64) (capDepth : UInt32) (pageCapPtr : UInt64) (pageDepth : UInt32)
  | configureTcb (capPtr : UInt64) (capDepth : UInt32) (cnodePtr : UInt64) (cnodeDepth : UInt32)
      (vspacePtr : UInt64) (vspaceDepth : UInt32)
  | mapPage (capPtr : UInt64) (capDepth : UInt32) (destPtr : UInt64) (destDepth : UInt32)
      (vaddr : UInt64) (flags : PageFlags)
  | unmapPage (capPtr : UInt64) (capDepth : UInt32) (destPtr : UInt64) (destDepth : UInt32)
  | mapPageTable (capPtr : UInt64) (capDepth : UInt32) (destPtr : UInt64) (destDepth : UInt32)
      (vaddr : UInt64)

/-- The `R`, `W` and `X` bits of an entry for the flags. -/
def PageFlags.entryBits (flags : PageFlags) : Nat :=
  (if flags.isReadable then pageR else 0) ||| (if flags.isWritable then pageW else 0) |||
    (if flags.isExecutable then pageX else 0)

namespace Call

variable (cfg : Config) (regs : Registers)

/-- The wrapper; `PageFlags` are passed on as `usize`. -/
def run : Call → KM SysCallRes
  | untypedRetype p d destPtr destDepth index userSize num capType =>
    Client.untypedRetype cfg regs p d destPtr destDepth index userSize num capType
  | cnodeCopy p d destIndex destDepth srcIndex srcDepth =>
    Client.cnodeCopy cfg regs p d destIndex destDepth srcIndex srcDepth
  | cnodeMint p d destIndex destDepth srcIndex srcDepth capVal =>
    Client.cnodeMint cfg regs p d destIndex destDepth srcIndex srcDepth capVal
  | cnodeMove p d destDepth destIndex srcIndex srcDepth =>
    Client.cnodeMove cfg regs p d destDepth destIndex srcIndex srcDepth
  | setIpcBuffer p d pageCapPtr pageDepth => Client.setIpcBuffer cfg regs p d pageCapPtr pageDepth
  | configureTcb p d cnodePtr cnodeDepth vspacePtr vspaceDepth =>
    Client.configureTcb cfg regs p d cnodePtr cnodeDepth vspacePtr vspaceDepth
  | mapPage p d destPtr destDepth vaddr flags =>
    Client.mapPage cfg regs p d destPtr destDepth vaddr flags.toUsize
  | unmapPage p d destPtr destDepth => Client.unmapPage cfg regs p d destPtr destDepth
  | mapPageTable p d destPtr destDepth vaddr =>
    Client.mapPageTable cfg regs p d destPtr destDepth vaddr

def capPtr : Call → UInt64
  | untypedRetype p .. | cnodeCopy p .. | cnodeMint p .. | cnodeMove p .. | setIpcBuffer p ..
  | configureTcb p .. | mapPage p .. | unmapPage p .. | mapPageTable p .. => p

def capDepth : Call → UInt32
  | untypedRetype _ d .. | cnodeCopy _ d .. | cnodeMint _ d .. | cnodeMove _ d ..
  | setIpcBuffer _ d .. | configureTcb _ d .. | mapPage _ d .. | unmapPage _ d ..
  | mapPageTable _ d .. => d

def invLabel : Call → InvLabel
  | untypedRetype .. => .untypedRetype
  | cnodeCopy .. => .cNodeCopy
  | cnodeMint .. => .cNodeMint
  | cnodeMove .. => .cNodeMove
  | setIpcBuffer .. => .tcbSetIpcBuffer
  | configureTcb .. => .tcbConfigure
  | mapPage .. => .pageMap
  | unmapPage .. => .pageUnMap
  | mapPageTable .. => .pageTableMap

/-- The type of the capability that the call is meant for. -/
def target : Call → CapabilityType
  | untypedRetype .. => .untyped
  | cnodeCopy .. | cnodeMint .. | cnodeMove .. => .cNode
  | setIpcBuffer .. | configureTcb .. => .tcb
  | mapPage .. | unmapPage .. => .page
  | mapPageTable .. => .pageTable

/-- The registers at the `ecall`. -/
def registers : Call → Registers
  | untypedRetype p d destPtr destDepth index userSize num capType =>
    callRegs regs p d .untypedRetype destPtr (packDepths index destDepth) (packDepths userSize num)
      capType.toU8.toUInt64 .call
  | cnodeCopy p d destIndex destDepth srcIndex srcDepth =>
    callRegs regs p d .cNodeCopy srcIndex (packDepths srcDepth destDepth) destIndex 0 .call
  | cnodeMint p d destIndex destDepth srcIndex srcDepth capVal =>
    callRegs regs p d .cNodeMint srcIndex (packDepths srcDepth destDepth) destIndex capVal .call
  | cnodeMove p d destDepth destIndex srcIndex srcDepth =>
    callRegs regs p d .cNodeMove srcIndex (packDepths srcDepth destDepth) destIndex 0 .call
  | setIpcBuffer p d pageCapPtr pageDepth =>
    callRegs regs p d .tcbSetIpcBuffer pageCapPtr pageDepth.toUInt64 0 0 .call
  | configureTcb p d cnodePtr cnodeDepth vspacePtr vspaceDepth =>
    callRegs regs p d .tcbConfigure cnodePtr cnodeDepth.toUInt64 vspacePtr vspaceDepth.toUInt64
      .call
  | mapPage p d destPtr destDepth vaddr flags =>
    callRegs regs p d .pageMap destPtr destDepth.toUInt64 vaddr flags.toUsize .call
  | unmapPage p d destPtr destDepth =>
    callRegs regs p d .pageUnMap destPtr destDepth.toUInt64 0 0 .call
  | mapPageTable p d destPtr destDepth vaddr =>
    callRegs regs p d .pageTableMap destPtr destDepth.toUInt64 vaddr 0 .call

/-- A capability goes from the caller's space into that of the invoked CNode. -/
def transfer (label : InvLabel) (f : CapabilityData → CapabilityData) (inv : Invocation)
    (srcIndex : UInt64) (srcDepth : UInt32) (destIndex : UInt64) (destDepth : UInt32) :
    KM (Option Nat) := do
  let srcSlot ← inv.rootCnode.lookupEntryMut cfg srcIndex.toNat srcDepth.toNat
  let srcEntry ← occupied srcSlot
  let destSlot ← inv.cap.lookupEntryMut cfg destIndex.toNat destDepth.toNat
  let dest ← readSlot destSlot
  require dest.isNone (kerr .notEmptySlot 0)
  let rawCap ← srcEntry.cap.derive
  installEntry cfg label (f rawCap) srcSlot destSlot
  return none

/-- What the kernel is asked for, in terms of the arguments. -/
def perform (inv : Invocation) : Call → KM (Option Nat)
  | untypedRetype _ _ destPtr destDepth index userSize num capType => do
    let (_, destCnodeCap) ← lookupCap cfg inv.rootCnode destPtr.toNat destDepth.toNat .cNode
    let window ← destCnodeCap.getWritable cfg num.toNat index.toNat
    retypeAndInsert cfg inv.slot window userSize.toNat num.toNat capType
    return none
  | cnodeCopy _ _ destIndex destDepth srcIndex srcDepth =>
    transfer cfg .cNodeCopy id inv srcIndex srcDepth destIndex destDepth
  | cnodeMint _ _ destIndex destDepth srcIndex srcDepth capVal =>
    transfer cfg .cNodeMint (·.setCapDepVal capVal) inv srcIndex srcDepth destIndex destDepth
  | cnodeMove _ _ destDepth destIndex srcIndex srcDepth =>
    transfer cfg .cNodeMove id inv srcIndex srcDepth destIndex destDepth
  | setIpcBuffer _ _ pageCapPtr pageDepth => do
    let (pageSlot, _) ← lookupCap cfg inv.rootCnode pageCapPtr.toNat pageDepth.toNat .page
    TCBCap.setIpcBuffer cfg inv.cap pageSlot
    return none
  | configureTcb _ _ cnodePtr cnodeDepth vspacePtr vspaceDepth => do
    let (cnodeSlot, vspaceSlot) ← inv.rootCnode.lookupTwoEntriesMut cfg cnodePtr.toNat
      cnodeDepth.toNat vspacePtr.toNat vspaceDepth.toNat
    configure cfg inv.cap cnodeSlot vspaceSlot
    return none
  | mapPage _ _ destPtr destDepth vaddr flags => do
    require (isAligned vaddr.toNat pageSize) (kerr .notAligned pageSize)
    let (_, root) ← lookupCap cfg inv.rootCnode destPtr.toNat destDepth.toNat .pageTable
    let c ← PageCap.map cfg inv.cap root vaddr.toNat (pageU ||| flags.entryBits)
    writeCap inv.slot c
    return none
  | unmapPage _ _ destPtr destDepth => do
    let (_, root) ← lookupCap cfg inv.rootCnode destPtr.toNat destDepth.toNat .pageTable
    let c ← PageCap.unmap cfg inv.cap root
    writeCap inv.slot c
    return none
  | mapPageTable _ _ destPtr destDepth vaddr => do
    require (isAligned vaddr.toNat pageSize) (kerr .notAligned pageSize)
    let (_, root) ← lookupCap cfg inv.rootCnode destPtr.toNat destDepth.toNat .pageTable
    let (c, level) ← PageTableCap.map cfg inv.cap root vaddr.toNat
    writeCap inv.slot c
    return some level

/-! ## The registers, taken apart -/

theorem toUInt64_mod (d : UInt32) : d.toUInt64.toNat % 2 ^ 32 = d.toNat := by
  rw [UInt32.toNat_toUInt64]
  exact Nat.mod_eq_of_lt d.toNat_lt

theorem capTryFromU8_toU8 (k : CapabilityType) :
    capTryFromU8 k.toU8.toUInt64.toUInt8 = .ok k := by
  cases k <;> rfl

/-- The two conversions of the flags, one after the other. -/
theorem getUserFlags_toUsize (flags : PageFlags) :
    getUserFlags flags.toUsize.toNat = flags.entryBits := by
  obtain ⟨w, r, x⟩ := flags
  cases w <;> cases r <;> cases x <;> rfl

/-- A capability of the type that the call is meant for: the kernel does what it is asked for. -/
theorem invoke_registers (inv : Invocation) (call : Call) :
    invoke cfg call.invLabel (call.registers regs) inv call.target = call.perform cfg inv := by
  cases call with
  | untypedRetype p d destPtr destDepth index userSize num capType =>
    change invokeUntyped cfg (callRegs ..) inv.rootCnode inv.slot = _
    simp only [invokeUntyped, callRegs, packDepths_src, packDepths_dest, capTryFromU8_toU8]
    rfl
  | cnodeCopy p d destIndex destDepth srcIndex srcDepth =>
    change invokeCNode cfg .cNodeCopy (callRegs ..) inv.rootCnode inv.cap = _
    simp only [invokeCNode, callRegs, packDepths_src, packDepths_dest]
    rfl
  | cnodeMint p d destIndex destDepth srcIndex srcDepth capVal =>
    change invokeCNode cfg .cNodeMint (callRegs ..) inv.rootCnode inv.cap = _
    simp only [invokeCNode, callRegs, packDepths_src, packDepths_dest]
    rfl
  | cnodeMove p d destDepth destIndex srcIndex srcDepth =>
    change invokeCNode cfg .cNodeMove (callRegs ..) inv.rootCnode inv.cap = _
    simp only [invokeCNode, callRegs, packDepths_src, packDepths_dest]
    rfl
  | setIpcBuffer p d pageCapPtr pageDepth =>
    change invokeTcb cfg .tcbSetIpcBuffer (callRegs ..) inv.tcb.ipcBufferRef inv.rootCnode
      inv.cap = _
    simp only [invokeTcb, callRegs, toUInt64_mod]
    rfl
  | configureTcb p d cnodePtr cnodeDepth vspacePtr vspaceDepth =>
    change invokeTcb cfg .tcbConfigure (callRegs ..) inv.tcb.ipcBufferRef inv.rootCnode inv.cap = _
    simp only [invokeTcb, callRegs, toUInt64_mod]
    rfl
  | mapPage p d destPtr destDepth vaddr flags =>
    change invokePage cfg .pageMap (callRegs ..) inv.rootCnode inv.slot inv.cap = _
    simp only [invokePage, callRegs, toUInt64_mod, getUserFlags_toUsize]
    rfl
  | unmapPage p d destPtr destDepth =>
    change invokePage cfg .pageUnMap (callRegs ..) inv.rootCnode inv.slot inv.cap = _
    simp only [invokePage, callRegs, toUInt64_mod]
    rfl
  | mapPageTable p d destPtr destDepth vaddr =>
    change invokePageTable cfg .pageTableMap (callRegs ..) inv.rootCnode inv.slot inv.cap = _
    simp only [invokePageTable, callRegs, toUInt64_mod]
    rfl

theorem run_eq (call : Call) :
    call.run cfg regs = (do
      let s ← get
      trapEntry (call.registers regs)
      handleSyscall cfg
      let t ← getTcb s.current
      return sysCallRes t.registers) := by
  cases call <;> rfl

theorem findInvocation_mod (capPtr : Nat) (depth : UInt32) :
    findInvocation cfg capPtr depth.toUInt64.toNat = findInvocation cfg capPtr depth.toNat := by
  simp only [findInvocation, toUInt64_mod, Nat.mod_eq_of_lt depth.toNat_lt]

theorem dispatchSyscall_callRegs (capPtr : UInt64) (capDepth : UInt32) (invLabel : InvLabel)
    (a3 a4 a5 a6 : UInt64) :
    dispatchSyscall cfg (callRegs regs capPtr capDepth invLabel a3 a4 a5 a6 .call) =
      handleInvocation cfg invLabel (callRegs regs capPtr capDepth invLabel a3 a4 a5 a6 .call) := by
  have hlabel : InvLabel.ofUsize? (callRegs regs capPtr capDepth invLabel a3 a4 a5 a6
      .call).a2.toNat = some invLabel := InvLabel.ofUsize?_toUsize _
  rw [dispatchSyscall, hlabel]
  exact if_neg (by decide : ¬(UInt64.ofNat SysCallNo.call.toUsize).toNat = sysCallNoPrint)

/-- Every call is a `syscall` with the label of the call. -/
theorem exists_syscall (call : Call) : ∃ a3 a4 a5 a6,
    call.run cfg regs =
      syscall cfg regs call.capPtr call.capDepth call.invLabel a3 a4 a5 a6 .call ∧
    call.registers regs =
      callRegs regs call.capPtr call.capDepth call.invLabel a3 a4 a5 a6 .call := by
  cases call <;> exact ⟨_, _, _, _, rfl, rfl⟩

theorem dispatchSyscall_registers (call : Call) :
    dispatchSyscall cfg (call.registers regs) =
      handleInvocation cfg call.invLabel (call.registers regs) := by
  obtain ⟨a3, a4, a5, a6, -, hregs⟩ := exists_syscall cfg regs call
  rw [hregs, dispatchSyscall_callRegs]

theorem handleInvocation_registers (call : Call) :
    handleInvocation cfg call.invLabel (call.registers regs) = (do
      let inv ← findInvocation cfg call.capPtr.toNat call.capDepth.toNat
      let capType ← inv.cap.getCapType
      if capType = call.target then call.perform cfg inv
      else invoke cfg call.invLabel (call.registers regs) inv capType) := by
  have hptr : (call.registers regs).a0 = call.capPtr := by cases call <;> rfl
  have hdepth : (call.registers regs).a1 = call.capDepth.toUInt64 := by cases call <;> rfl
  rw [handleInvocation, hptr, hdepth, findInvocation_mod]
  refine congrArg (_ >>= ·) (funext fun inv => congrArg (_ >>= ·) (funext fun k => ?_))
  split
  · next hk => rw [hk, invoke_registers]
  · rfl

/-! ## The answer -/

/-- An error that can be reported is reported. -/
theorem sysCallRes_error {e : KernelError} (he : e.Reportable) (reg : Registers) (sepc : UInt64) :
    sysCallRes { reg.setResult (.error e) with sepc := sepc } =
      .error (e.eKind, UInt16.ofNat e.eVal) := by
  obtain ⟨hkind, hval⟩ := he
  have hne : UInt64.ofNat e.eKind.toUsize ≠ 0 := by cases e.eKind <;> decide
  have hback : (UInt64.ofNat e.eKind.toUsize).toNat = e.eKind.toUsize := by
    cases e.eKind <;> rfl
  have hshort : (UInt64.ofNat e.eVal).toUInt16 = UInt16.ofNat e.eVal := by
    refine UInt16.toNat_inj.1 ?_
    rw [UInt64.toNat_toUInt16, UInt64.toNat_ofNat', UInt16.toNat_ofNat']
    omega
  change (if UInt64.ofNat e.eKind.toUsize = 0 then _ else _) = _
  rw [if_neg hne]
  change Except.error ((ErrKind.ofUsize? (UInt64.ofNat e.eKind.toUsize).toNat).getD _,
    (UInt64.ofNat e.eVal).toUInt16) = _
  rw [hback, hkind, hshort]
  rfl

end Call

end Zoeax.Client
