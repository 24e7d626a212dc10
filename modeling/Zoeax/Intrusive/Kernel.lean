import Zoeax.Kernel.LinkedList
import Zoeax.Verify.Threads

/-!
# The kernel on its linked lists

`Kernel/Thread.lean` reads run queue, endpoint queues and wait queues as sequences. Here the same
code works on `LinkedList`s: the queues are in `ListState.lists`, with the one `next` field that a
thread has, and the queues in `ListState.kernel` are not used. `wake_up_thread` and `block_thread`
have their assertions, and new objects start with new lists.

Code that has nothing to do with queues is that of the model (`onKernel`).
-/

namespace Zoeax

open Lib

/-- The kernel's state with every queue in a linked list. -/
structure ListState where
  kernel : KState
  lists : Lists Loc Nat

/-- Kernel code over linked lists. -/
abbrev LM := Exec Stop ListState

namespace Intrusive

/-- Code without queues. -/
def onKernel {α : Type} (x : KM α) : LM α := fun t =>
  match x t.kernel with
  | .ok a s => .ok a { t with kernel := s }
  | .error e s => .error e { t with kernel := s }

/-! ## Lists -/

/-- `LinkedList::push`. -/
def pushTo (l : Loc) (thread : Nat) : LM Unit :=
  modify fun t => { t with lists := t.lists.push l thread }

/-- `LinkedList::pop`. -/
def popFrom (l : Loc) : LM (Option Nat) := fun t =>
  .ok (t.lists.pop l).1 { t with lists := (t.lists.pop l).2 }

/-- `assert!(tcb.next_is_none())`. -/
def assertUnlinked (thread : Nat) : LM Unit := do
  let t ← get
  if t.lists.nextIsNone thread then pure () else throw panicked

/-! ## Threads -/

/-- `scheduler::push`. -/
def push (thread : Nat) : LM Unit := pushTo .run thread

def resume (thread : Nat) : LM Unit := do
  onKernel (updateTcb thread (·.resume))
  push thread

def wakeUpThread (thread : Nat) : LM Unit := do
  assertUnlinked thread
  resume thread

def blockThread (thread : Nat) : LM Unit := do
  assertUnlinked thread
  onKernel (updateTcb thread (·.suspend))

/-- The part of `schedule` that puts a thread that can run back into the run queue. -/
def requeue (thread : Nat) : LM Unit := do
  let t ← onKernel (getTcb thread)
  if t.isRunnable then push thread else pure ()

def schedule (cfg : Config) : LM Unit := do
  let t ← get
  if !t.kernel.requested then pure ()
  else do
    match ← popFrom .run with
    | some next => do
      onKernel (updateTcb next (·.setTimeout taskQuantum))
      requeue t.kernel.current
      onKernel (switchTo cfg next)
    | none => do
      let current ← onKernel (getTcb t.kernel.current)
      if current.isRunnable then
        onKernel (updateTcb t.kernel.current (·.setTimeout taskQuantum))
      else onKernel (switchTo cfg cfg.idleThread)

/-! ## Endpoints and notifications -/

namespace Endpoint

/-- `self.ep_state = ..`. -/
def setEpState (ep : Nat) (epState : EndpointState) : KM Unit := do
  let e ← getEndpoint ep
  modify (·.setEndpoint ep { e with epState })

/-- The end of `pop_from_queue`: nobody is left. -/
def idleIfEmpty (ep : Nat) : LM Unit := do
  let t ← get
  if (t.lists.lists (.ep ep)).isEmpty then onKernel (setEpState ep .idel) else pure ()

def popFromQueue (ep : Nat) (epState : EndpointState) : LM (Option Nat) := do
  let e ← onKernel (getEndpoint ep)
  let epState' := if e.epState = .idel then epState else e.epState
  onKernel (setEpState ep epState')
  if epState' = epState then return none
  else do
    let ret ← popFrom (.ep ep)
    idleIfEmpty ep
    return ret

/-- The thread blocks on the endpoint at `ep`. -/
def enqueue (ep thread : Nat) : LM Unit := do
  blockThread thread
  pushTo (.ep ep) thread

def send (ep thread : Nat) : LM Bool := do
  match ← popFromQueue ep .send with
  | some receiver => do
    onKernel (Endpoint.transfer thread receiver)
    wakeUpThread receiver
    return false
  | none => do
    enqueue ep thread
    return true

def recv (ep thread : Nat) : LM Bool := do
  match ← popFromQueue ep .recv with
  | some sender => do
    onKernel (Endpoint.transfer sender thread)
    wakeUpThread sender
    return false
  | none => do
    enqueue ep thread
    return true

end Endpoint

namespace EndPointCap

def send (c : CapabilityData) (thread : Nat) : LM Bool := do
  onKernel (updateTcb thread fun t => { t with badge := c.getBadge })
  Endpoint.send (EndPointCap.getEp c) thread

def recv (c : CapabilityData) (thread : Nat) : LM Bool := Endpoint.recv (EndPointCap.getEp c) thread

end EndPointCap

namespace Notification

def sendSignal (ntfn : Nat) (val : UInt64) : LM Unit := do
  let n ← onKernel (getNotification ntfn)
  match ← popFrom (.ntfn ntfn) with
  | some waiter => do
    onKernel (updateTcb waiter (·.setA1 val))
    wakeUpThread waiter
  | none => onKernel (modify
      (·.setNotification ntfn { n with notifyBit := n.notifyBit ||| val, bitIsSet := true }))

def waitSignal (ntfn thread : Nat) : LM Bool := do
  let n ← onKernel (getNotification ntfn)
  if n.bitIsSet then do
    onKernel (updateTcb thread (·.setA1 n.notifyBit))
    onKernel (modify (·.setNotification ntfn { n with notifyBit := 0, bitIsSet := false }))
    return false
  else do
    blockThread thread
    pushTo (.ntfn ntfn) thread
    return true

end Notification

/-! ## New objects -/

/-- The lists of a new object: `ListItem::new` and `LinkedList::new`. -/
def initLists (k : CapabilityType) (addr : Nat) (c : Lists Loc Nat) : Lists Loc Nat :=
  match k with
  | .tcb => { c with next := Function.update c.next addr none }
  | .endPoint => { c with lists := Function.update c.lists (.ep addr) .new }
  | .notification => { c with lists := Function.update c.lists (.ntfn addr) .new }
  | _ => c

def initObject (k : CapabilityType) (cap : CapabilityData) : LM Unit := do
  onKernel (Zoeax.initObject k cap)
  modify fun t => { t with lists := initLists k (toKernelV cap.getAddress) t.lists }

def insertNew (cfg : Config) (window parent : Nat) (g : CapGenerator) (cap : CapabilityData)
    (i : Nat) : LM Unit := do
  let size ← onKernel (g.k.getObjectSize cfg g.userSize)
  onKernel (placeObject cfg ⟨g.k, cap.getAddress, g.userSize, size⟩)
  initObject g.k cap
  onKernel (insertCap cfg g.k window parent cap i)

def insertCaps (cfg : Config) (window parent : Nat) : Nat → CapGenerator → Nat → LM Unit
  | 0, _, _ => pure ()
  | n + 1, g, i => do
    let (cap, g') ← onKernel (g.next cfg)
    insertNew cfg window parent g cap i
    insertCaps cfg window parent n g' (i + 1)

def retypeAndInsert (cfg : Config) (slot window userSize num : Nat) (newType : CapabilityType) :
    LM Unit := do
  let src ← onKernel (deref (·.slots slot))
  onKernel (src.cap.tryRefAs .untyped)
  let (c, gen) ← onKernel (src.cap.invokeRetype cfg userSize num newType)
  onKernel (writeCap slot c)
  insertCaps cfg window slot gen.num gen 0

def invokeUntyped (cfg : Config) (reg : Registers) (rootCnode : CapabilityData) (slot : Nat) :
    LM (Option Nat) := do
  let destDepth := reg.a4.toNat % 2 ^ 32
  let index := reg.a4.toNat >>> 32
  let userSize := reg.a5.toNat >>> 32
  let num := reg.a5.toNat % 2 ^ 32
  let newType ← onKernel (capTryFromU8 reg.a6.toUInt8)
  let (_, destCnodeCap) ← onKernel (lookupCap cfg rootCnode reg.a3.toNat destDepth .cNode)
  let window ← onKernel (destCnodeCap.getWritable cfg num index)
  retypeAndInsert cfg slot window userSize num newType
  return none

/-! ## System calls and traps -/

/-- `TcbResume` is the one invocation of a thread that has to do with queues. -/
def invokeTcb (cfg : Config) (invLabel : InvLabel) (reg : Registers) (inv : Invocation) :
    LM (Option Nat) :=
  if invLabel = .tcbResume then do
    resume (TCBCap.getTcb inv.cap)
    return none
  else onKernel (Zoeax.invokeTcb cfg invLabel reg inv.tcb.ipcBufferRef inv.rootCnode inv.cap)

def invokeNotification (invLabel : InvLabel) (current : Nat) (notifyCap : CapabilityData) :
    LM (Option Nat) :=
  match invLabel with
  | .notifySend => do
    Notification.sendSignal (NotificationCap.getNotify notifyCap) notifyCap.getBadge
    return none
  | .notifyWait => do
    let blocked ← Notification.waitSignal (NotificationCap.getNotify notifyCap) current
    onKernel (scheduleIf blocked)
    return none
  | _ => throw (kerr .unknownInvocation 0)

def invokeEndPoint (invLabel : InvLabel) (current : Nat) (epCap : CapabilityData) :
    LM (Option Nat) :=
  match invLabel with
  | .epSend => do
    let blocked ← EndPointCap.send epCap current
    onKernel (scheduleIf blocked)
    return none
  | .epRecv => do
    let blocked ← EndPointCap.recv epCap current
    onKernel (scheduleIf blocked)
    return none
  | _ => throw (kerr .unknownInvocation 0)

def invoke (cfg : Config) (invLabel : InvLabel) (reg : Registers) (inv : Invocation) :
    CapabilityType → LM (Option Nat)
  | .untyped => invokeUntyped cfg reg inv.rootCnode inv.slot
  | .tcb => invokeTcb cfg invLabel reg inv
  | .notification => invokeNotification invLabel inv.current inv.cap
  | .endPoint => invokeEndPoint invLabel inv.current inv.cap
  | k => onKernel (Zoeax.invoke cfg invLabel reg inv k)

def handleInvocation (cfg : Config) (invLabel : InvLabel) (reg : Registers) : LM (Option Nat) := do
  let inv ← onKernel (findInvocation cfg reg.a0.toNat reg.a1.toNat)
  let capType ← onKernel inv.cap.getCapType
  invoke cfg invLabel reg inv capType

def dispatchSyscall (cfg : Config) (reg : Registers) : LM (Option Nat) :=
  match InvLabel.ofUsize? reg.a2.toNat with
  | none => throw (kerr .unknownInvocation 0)
  | some invLabel =>
    if reg.a7.toNat = sysCallNoPrint then onKernel (handlePrint cfg invLabel)
    else handleInvocation cfg invLabel reg

/-- `Err` becomes a value; the end of the kernel does not. -/
def catchErr {α : Type} (x : LM α) : LM (Except KernelError α) := fun t =>
  match x t with
  | .ok a t' => .ok (.ok a) t'
  | .error (.err e) t' => .ok (.error e) t'
  | .error (.halt h) t' => .error (.halt h) t'

def handleSyscall (cfg : Config) : LM Unit := do
  let t ← get
  let tcb ← onKernel (getTcb t.kernel.curRegBase)
  let ret ← catchErr (dispatchSyscall cfg tcb.registers)
  onKernel (returnSyscall cfg t.kernel.curRegBase ret)

def handleTrap (cfg : Config) (scause : Nat) : LM Unit :=
  let code := scause % 2 ^ 63
  if scause.testBit 63 then
    if code = supervisorTimer then onKernel (timerTick cfg) else throw panicked
  else if code = ecallUser then handleSyscall cfg
  else throw panicked

/-- A trap, up to the scheduler. -/
def serveTrap (cfg : Config) (regs : Registers) : LM Unit := do
  onKernel (trapEntry regs)
  handleTrap cfg regs.scause.toNat

def kernelTrap (cfg : Config) (regs : Registers) : LM Unit := do
  serveTrap cfg regs
  schedule cfg

def exec (cfg : Config) : Event → LM Unit
  | .trap regs => kernelTrap cfg regs
  | .store a w => onKernel (modify (·.setWord a w))

/-- One event. -/
def Step (cfg : Config) (t : ListState) (ev : Event) (t' : ListState) : Prop :=
  ev.Enabled t.kernel ∧ exec cfg ev t = .ok () t'

end Intrusive

end Zoeax
