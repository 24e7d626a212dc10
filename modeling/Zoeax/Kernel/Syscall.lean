import Zoeax.Kernel.Thread

/-!
# System calls and traps (`kernel/src/syscall.rs`, `handler.rs`)

`handleInvocation` finds the invoked capability in the caller's capability space and does what its
type and the label say. `handleSyscall` writes the outcome into the caller's registers. A trap saves
the registers of the interrupted thread, is handled, and ends with `schedule`; then `return_to_user`
restores the registers of the current thread and leaves the kernel with `sret`.

An `Event` is what happens between two states of the machine outside the kernel: a trap, or a store
of a user program to one of the page frames.
-/

namespace Zoeax

open Lib

/-! ## Retyping into a CNode -/

/-- `Capability::init_object`: pages and CNodes are taken as they are. -/
def initObject (k : CapabilityType) (cap : CapabilityData) : KM Unit :=
  match k with
  | .tcb => modify (·.setTcb (toKernelV cap.getAddress) {})
  | .endPoint => modify (·.setEndpoint (toKernelV cap.getAddress) .new)
  | .notification => modify (·.setNotification (toKernelV cap.getAddress) .new)
  | .pageTable => modify (·.zeroMem cap.getFrame pageSize)
  | .page => pure ()
  | .cNode => pure ()
  | .untyped => pure ()

/-- One round of `retype_and_insert`: the object comes to life, and its capability goes into slot
number `i` of the window. -/
def insertNew (cfg : Config) (window parent : Nat) (g : CapGenerator) (cap : CapabilityData)
    (i : Nat) : KM Unit := do
  let size ← g.k.getObjectSize cfg g.userSize
  placeObject cfg ⟨g.k, cap.getAddress, g.userSize, size⟩
  initObject g.k cap
  insertCap cfg g.k window parent cap i

/-- The loop of `retype_and_insert`, with `n` objects left. -/
def insertCaps (cfg : Config) (window parent : Nat) : Nat → CapGenerator → Nat → KM Unit
  | 0, _, _ => pure ()
  | n + 1, g, i => do
    let (cap, g') ← g.next cfg
    insertNew cfg window parent g cap i
    insertCaps cfg window parent n g' (i + 1)

/-- `UntypedCap::invoke_retype` on the capability in `slot`. -/
def retypeAndInsert (cfg : Config) (slot window userSize num : Nat) (newType : CapabilityType) :
    KM Unit := do
  let src ← deref (·.slots slot)
  src.cap.tryRefAs .untyped
  let (c, gen) ← src.cap.invokeRetype cfg userSize num newType
  writeCap slot c
  insertCaps cfg window slot gen.num gen 0

/-! ## Invocations -/

/-- The slot that a capability pointer leads to, with the capability of type `k` in it. -/
def lookupCap (cfg : Config) (rootCnode : CapabilityData) (ptr depth : Nat) (k : CapabilityType) :
    KR (Nat × CapabilityData) := do
  let slot ← rootCnode.lookupEntryMut cfg ptr depth
  let e ← occupied slot
  e.cap.tryRefAs k
  return (slot, e.cap)

def invokeUntyped (cfg : Config) (reg : Registers) (rootCnode : CapabilityData) (slot : Nat) :
    KM (Option Nat) := do
  let destDepth := reg.a4.toNat % 2 ^ 32
  let index := reg.a4.toNat >>> 32
  let userSize := reg.a5.toNat >>> 32
  let num := reg.a5.toNat % 2 ^ 32
  let newType ← capTryFromU8 reg.a6.toUInt8
  let (_, destCnodeCap) ← lookupCap cfg rootCnode reg.a3.toNat destDepth .cNode
  let window ← destCnodeCap.getWritable cfg num index
  retypeAndInsert cfg slot window userSize num newType
  return none

/-- The capability that a CNode invocation puts into its destination. -/
def newCap (invLabel : InvLabel) (reg : Registers) (rawCap : CapabilityData) : CapabilityData :=
  if invLabel = .cNodeMint then rawCap.setCapDepVal reg.a6 else rawCap

/-- The new entry takes the place of its source (`CNodeMove`) or is put behind it. -/
def linkNew (cfg : Config) (invLabel : InvLabel) (newSlot srcSlot : Nat) : KM Unit :=
  if invLabel = .cNodeMove then do
    replaceEntry cfg newSlot srcSlot
    modify (·.setSlot srcSlot none)
  else insertAfter cfg newSlot srcSlot

/-- The new entry is built, linked, and moved into its slot. -/
def installEntry (cfg : Config) (invLabel : InvLabel) (cap : CapabilityData)
    (srcSlot destSlot : Nat) : KM Unit := do
  let newSlot ← newLocal cfg .invocation cap
  linkNew cfg invLabel newSlot srcSlot
  moveEntry newSlot destSlot

/-- Every label other than `CNodeMint` and `CNodeMove` copies. -/
def invokeCNode (cfg : Config) (invLabel : InvLabel) (reg : Registers)
    (rootCnode destRoot : CapabilityData) : KM (Option Nat) := do
  let srcDepth := reg.a4.toNat >>> 32
  let destDepth := reg.a4.toNat % 2 ^ 32
  let srcSlot ← rootCnode.lookupEntryMut cfg reg.a3.toNat srcDepth
  let srcEntry ← occupied srcSlot
  let destSlot ← destRoot.lookupEntryMut cfg reg.a5.toNat destDepth
  let dest ← readSlot destSlot
  require dest.isNone (kerr .notEmptySlot 0)
  let rawCap ← srcEntry.cap.derive
  installEntry cfg invLabel (newCap invLabel reg rawCap) srcSlot destSlot
  return none

/-- `TcbConfigure`, with the two slots. -/
def configure (cfg : Config) (tcbCap : CapabilityData) (cnodeSlot vspaceSlot : Nat) : KM Unit := do
  let cspace ← occupied cnodeSlot
  cspace.cap.tryRefAs .cNode
  let vspace ← occupied vspaceSlot
  vspace.cap.tryRefAs .pageTable
  TCBCap.setCspace cfg tcbCap cnodeSlot
  TCBCap.setVspace cfg tcbCap vspaceSlot

def invokeTcb (cfg : Config) (invLabel : InvLabel) (reg : Registers) (ipcBuffer : Option Nat)
    (rootCnode tcbCap : CapabilityData) : KM (Option Nat) :=
  match invLabel with
  | .tcbConfigure => do
    let (cnodeSlot, vspaceSlot) ← rootCnode.lookupTwoEntriesMut cfg
      reg.a3.toNat (reg.a4.toNat % 2 ^ 32) reg.a5.toNat (reg.a6.toNat % 2 ^ 32)
    configure cfg tcbCap cnodeSlot vspaceSlot
    return none
  | .tcbWriteReg =>
    match ipcBuffer with
    | none => throw (kerr .invalidOperation 0)
    | some buffer => do
      let registers ← readRegisters cfg buffer
      TCBCap.setRegisters tcbCap registers
      return none
  | .tcbSetIpcBuffer => do
    let (pageSlot, _) ← lookupCap cfg rootCnode reg.a3.toNat (reg.a4.toNat % 2 ^ 32) .page
    TCBCap.setIpcBuffer cfg tcbCap pageSlot
    return none
  | .tcbResume => do
    TCBCap.makeRunnable tcbCap
    return none
  | _ => throw (kerr .unknownInvocation 0)

/-- A call that blocked asks for another thread. -/
def scheduleIf (blocked : Bool) : KM Unit := if blocked then requireSchedule else pure ()

def invokeNotification (invLabel : InvLabel) (current : Nat) (notifyCap : CapabilityData) :
    KM (Option Nat) :=
  match invLabel with
  | .notifySend => do
    NotificationCap.send notifyCap
    return none
  | .notifyWait => do
    let blocked ← NotificationCap.wait notifyCap current
    scheduleIf blocked
    return none
  | _ => throw (kerr .unknownInvocation 0)

def invokeEndPoint (invLabel : InvLabel) (current : Nat) (epCap : CapabilityData) :
    KM (Option Nat) :=
  match invLabel with
  | .epSend => do
    let blocked ← EndPointCap.send epCap current
    scheduleIf blocked
    return none
  | .epRecv => do
    let blocked ← EndPointCap.recv epCap current
    scheduleIf blocked
    return none
  | _ => throw (kerr .unknownInvocation 0)

def invokePage (cfg : Config) (invLabel : InvLabel) (reg : Registers) (rootCnode : CapabilityData)
    (slot : Nat) (pageCap : CapabilityData) : KM (Option Nat) :=
  match invLabel with
  | .pageMap => do
    let vaddr := reg.a5.toNat
    require (isAligned vaddr pageSize) (kerr .notAligned pageSize)
    let (_, root) ← lookupCap cfg rootCnode reg.a3.toNat (reg.a4.toNat % 2 ^ 32) .pageTable
    let flags := pageU ||| getUserFlags reg.a6.toNat
    let c ← PageCap.map cfg pageCap root vaddr flags
    writeCap slot c
    return none
  | .pageUnMap => do
    let (_, root) ← lookupCap cfg rootCnode reg.a3.toNat (reg.a4.toNat % 2 ^ 32) .pageTable
    let c ← PageCap.unmap cfg pageCap root
    writeCap slot c
    return none
  | _ => throw (kerr .unknownInvocation 0)

def invokePageTable (cfg : Config) (invLabel : InvLabel) (reg : Registers)
    (rootCnode : CapabilityData) (slot : Nat) (pageTableCap : CapabilityData) : KM (Option Nat) :=
  match invLabel with
  | .pageTableMap => do
    let vaddr := reg.a5.toNat
    require (isAligned vaddr pageSize) (kerr .notAligned pageSize)
    let (_, root) ← lookupCap cfg rootCnode reg.a3.toNat (reg.a4.toNat % 2 ^ 32) .pageTable
    let (c, level) ← PageTableCap.map cfg pageTableCap root vaddr
    writeCap slot c
    return some level
  | .pageTableUnMap => throw panicked
  | .pageTableMakeRoot => do
    let c ← PageTableCap.makeAsRoot cfg pageTableCap
    writeCap slot c
    return none
  | _ => throw (kerr .unknownInvocation 0)

/-- Where an invocation starts: the caller, the capability of its root CNode, and the slot of the
invoked capability with what is in it. -/
structure Invocation where
  current : Nat
  tcb : ThreadInfo
  rootCnode : CapabilityData
  slot : Nat
  cap : CapabilityData

/-- The head of `handle_invocation`. -/
def findInvocation (cfg : Config) (capPtr depth : Nat) : KR Invocation := do
  let s ← read
  let tcb ← getTcb s.current
  match tcb.rootCnode with
  | none => throw (kerr .capNotFound 0)
  | some root => do
    let slot ← root.cap.lookupEntryMut cfg capPtr (depth % 2 ^ 32)
    let e ← occupied slot
    return ⟨s.current, tcb, root.cap, slot, e.cap⟩

/-- The rest of `handle_invocation`, by the type of the invoked capability. -/
def invoke (cfg : Config) (invLabel : InvLabel) (reg : Registers) (inv : Invocation) :
    CapabilityType → KM (Option Nat)
  | .untyped => invokeUntyped cfg reg inv.rootCnode inv.slot
  | .cNode => invokeCNode cfg invLabel reg inv.rootCnode inv.cap
  | .tcb => invokeTcb cfg invLabel reg inv.tcb.ipcBufferRef inv.rootCnode inv.cap
  | .notification => invokeNotification invLabel inv.current inv.cap
  | .endPoint => invokeEndPoint invLabel inv.current inv.cap
  | .page => invokePage cfg invLabel reg inv.rootCnode inv.slot inv.cap
  | .pageTable => invokePageTable cfg invLabel reg inv.rootCnode inv.slot inv.cap

def handleInvocation (cfg : Config) (invLabel : InvLabel) (reg : Registers) : KM (Option Nat) := do
  let inv ← findInvocation cfg reg.a0.toNat reg.a1.toNat
  let capType ← inv.cap.getCapType
  invoke cfg invLabel reg inv capType

/-! ## System calls -/

/-- The `Print` system call; what is printed is not part of the state. -/
def handlePrint (cfg : Config) (invLabel : InvLabel) : KM (Option Nat) :=
  match invLabel with
  | .putChar => return none
  | .cNodeTraverse => do
    let s ← get
    let t ← getTcb s.current
    match t.rootCnode with
    | some root => do
      root.cap.printTraverse cfg
      return none
    | none => throw (kerr .capNotFound 0)
  | _ => throw (kerr .unknownSysCall 0)

/-- The inner result of `handle_syscall`. -/
def dispatchSyscall (cfg : Config) (reg : Registers) : KM (Option Nat) :=
  match InvLabel.ofUsize? reg.a2.toNat with
  | none => throw (kerr .unknownInvocation 0)
  | some invLabel =>
    if reg.a7.toNat = sysCallNoPrint then handlePrint cfg invLabel
    else handleInvocation cfg invLabel reg

/-- `Err` becomes a value; the end of the kernel does not. -/
def catchErr {α : Type} (x : KM α) : KM (Except KernelError α) := fun s =>
  match x s with
  | .ok a s' => .ok (.ok a) s'
  | .error (.err e) s' => .ok (.error e) s'
  | .error (.halt h) s' => .error (.halt h) s'

/-- The registers that report an outcome. -/
def Registers.setResult (reg : Registers) : Except KernelError (Option Nat) → Registers
  | .error e => { reg with a0 := UInt64.ofNat e.eKind.toUsize, a1 := UInt64.ofNat e.eVal }
  | .ok (some val) => { reg with a0 := 0, a1 := UInt64.ofNat val }
  | .ok none => { reg with a0 := 0 }

/-- The end of `handle_syscall`, on the registers of `thread`: the outcome, and past the `ecall`. -/
def returnSyscall (cfg : Config) (thread : Nat) (ret : Except KernelError (Option Nat)) :
    KM Unit := do
  let t ← getTcb thread
  let sepc ← arith (cfg.profile.add t.registers.sepc.toNat 4)
  updateTcb thread fun t =>
    { t with registers := { t.registers.setResult ret with sepc := UInt64.ofNat sepc } }

def handleSyscall (cfg : Config) : KM Unit := do
  let s ← get
  let t ← getTcb s.curRegBase
  let ret ← catchErr (dispatchSyscall cfg t.registers)
  returnSyscall cfg s.curRegBase ret

/-! ## Traps -/

/-- `SUPREVISORTIMER` and `ECALLUSER`. -/
def supervisorTimer : Nat := 5

def ecallUser : Nat := 8

/-- `trap_entry`: the registers of the interrupted thread, and the cause, go where
`CPU_VAR.cur_reg_base` points. -/
def trapEntry (regs : Registers) : KM Unit := do
  let s ← get
  updateTcb s.curRegBase fun t => { t with registers := regs }

/-- `handle_trap`, up to the call of `schedule`. Every other cause panics. -/
def handleTrap (cfg : Config) (scause : Nat) : KM Unit :=
  let code := scause % 2 ^ 63
  if scause.testBit 63 then
    if code = supervisorTimer then timerTick cfg else throw panicked
  else if code = ecallUser then handleSyscall cfg
  else throw panicked

/-- From the trap to `return_to_user`. -/
def kernelTrap (cfg : Config) (regs : Registers) : KM Unit := do
  trapEntry regs
  handleTrap cfg regs.scause.toNat
  schedule cfg

/-! ## The machine outside the kernel -/

/-- `SSTATUS_SPP` in a saved `sstatus`. -/
def Registers.spp (reg : Registers) : Bool := reg.sstatus.toNat.testBit 8

inductive Event where
  /-- A trap of the running thread, with its registers; `sstatus` and `scause` are the machine's. -/
  | trap (regs : Registers)
  /-- A store of a word by a user program. -/
  | store (a : Nat) (w : UInt64)

/-- What the machine allows. The mode a thread runs in is the one `sret` took from its saved
`sstatus`, the trap puts that mode into `sstatus`, and only user mode has the user's `ecall`. User
programs write to page frames. -/
def Event.Enabled (s : KState) : Event → Prop
  | .trap regs =>
    (∀ t, s.tcbs s.current = some t → regs.spp = t.registers.spp) ∧
      (regs.scause.toNat = ecallUser → regs.spp = false)
  | .store a _ => a % 8 = 0 ∧ ∃ o ∈ s.objects, o.kind = .page ∧ o.addr ≤ a ∧ a < o.addr + o.size

def Event.exec (cfg : Config) : Event → KM Unit
  | .trap regs => kernelTrap cfg regs
  | .store a w => modify (·.setWord a w)

/-- One event. -/
def Step (cfg : Config) (s : KState) (ev : Event) (s' : KState) : Prop :=
  ev.Enabled s ∧ ev.exec cfg s = .ok () s'

end Zoeax
