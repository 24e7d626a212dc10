import Zoeax.Kernel.CNode
import Zoeax.Kernel.PageTable

/-!
# Threads (`kernel/src/scheduler.rs`, `object/{tcb,endpoint,notification}.rs`)

Thread control blocks, the scheduler, and the two objects threads block on. A queue is the sequence
of its members; the assertions on the `next` field of a thread belong to the list and are left to
it.
-/

namespace Zoeax

open Lib

/-- `TASK_QUANTUM`. -/
def taskQuantum : Nat := 20

/-! ## `tcb.rs` and `capability/tcb.rs` -/

namespace ThreadInfo

def resume (t : ThreadInfo) : ThreadInfo := { t with status := .runnable }

def suspend (t : ThreadInfo) : ThreadInfo := { t with status := .blocked }

def isRunnable (t : ThreadInfo) : Bool := t.status = .runnable

/-- `ipc_buffer_ref`: the frame of the buffer. -/
def ipcBufferRef (t : ThreadInfo) : Option Nat := t.ipcBuffer.map (·.cap.getFrame)

def setTimeout (t : ThreadInfo) (timeOut : Nat) : ThreadInfo := { t with timeSlice := timeOut }

def setA1 (t : ThreadInfo) (val : UInt64) : ThreadInfo :=
  { t with registers := { t.registers with a1 := val } }

/-- `idle_init`. -/
def idleInit : ThreadInfo := { status := .idle }

end ThreadInfo

/-- `scheduler::push`. -/
def push (thread : Nat) : KM Unit := modify fun s => { s with runqueue := s.runqueue ++ [thread] }

/-- `resume`: the thread becomes runnable and joins the run queue, whatever it was doing. -/
def resume (thread : Nat) : KM Unit := do
  updateTcb thread (·.resume)
  push thread

/-- `ptr::copy` of an `IPCBuffer`. -/
def copyIpcBuffer (src dst : Nat) : KM Unit := do
  let s ← get
  if s.isObject .page src && s.isObject .page dst then
    modify (·.copyMem dst src (8 * ipcBufferWords))
  else throw undefinedAccess

/-- `set_ipc_msg` on the thread at `thread`. -/
def setIpcMsg (thread : Nat) (senderRef : Option Nat) : KM Unit := do
  let t ← getTcb thread
  match t.ipcBufferRef, senderRef with
  | some receiverRef, some senderRef => copyIpcBuffer senderRef receiverRef
  | _, _ => pure ()

/-- `IPCBuffer::read_as::<Registers>`: a register file at the start of the message. It fits. -/
def readRegisters (cfg : Config) (buffer : Nat) : KR Registers := do
  let s ← read
  if s.isObject .page buffer then
    return .ofWords fun i => s.mem (buffer + 8 * (cfg.messageWord + i))
  else throw undefinedAccess

/-- The `CSlot`s of a thread control block. -/
inductive TcbSlot where
  | rootCnode
  | vspace
  | ipcBuffer
deriving DecidableEq, Repr

namespace TcbSlot

def get : TcbSlot → ThreadInfo → Option CNodeEntry
  | rootCnode, t => t.rootCnode
  | vspace, t => t.vspace
  | ipcBuffer, t => t.ipcBuffer

def set : TcbSlot → ThreadInfo → Option CNodeEntry → ThreadInfo
  | rootCnode, t, e => { t with rootCnode := e }
  | vspace, t, e => { t with vspace := e }
  | ipcBuffer, t, e => { t with ipcBuffer := e }

/-- The type of the capability in it. -/
def capType : TcbSlot → CapabilityType
  | rootCnode => .cNode
  | vspace => .pageTable
  | ipcBuffer => .page

/-- Where its entry is built. -/
def site : TcbSlot → Site
  | rootCnode => .setRootCspace
  | vspace => .setRootVspace
  | ipcBuffer => .setIpcBuffer

/-- Its address. -/
def addr (cfg : Config) (tcb : Nat) : TcbSlot → Nat
  | rootCnode => tcb + cfg.rootCnodeOffset
  | vspace => tcb + cfg.vspaceOffset
  | ipcBuffer => tcb + cfg.ipcBufferOffset

end TcbSlot

/-- `self.root_cnode = Some(new_entry)` and the like, for the entry in the local variable at `p`. -/
def holdLocal (slot : TcbSlot) (thread p : Nat) : KM Unit := do
  let t ← getTcb thread
  modify fun s => s.setTcb thread (slot.set t (s.slots p))

/-- The tail of `set_root_cspace`, `set_root_vspace` and `set_ipc_buffer`: a new entry behind
`parent`, moved into the slot of the thread. -/
def holdEntry (cfg : Config) (slot : TcbSlot) (site : Site) (thread : Nat) (cap : CapabilityData)
    (parent : Nat) : KM Unit := do
  let entry ← newLocal cfg site cap
  insertAfter cfg entry parent
  holdLocal slot thread entry

/-- `set_root_cspace`, `set_root_vspace` and `set_ipc_buffer`: the slot must be empty. -/
def setTcbSlot (cfg : Config) (slot : TcbSlot) (thread : Nat) (cap : CapabilityData)
    (parent : Nat) : KM Unit := do
  let t ← getTcb thread
  require (slot.get t).isNone panicked
  holdEntry cfg slot slot.site thread cap parent

namespace TCBCap

/-- `TCBCap::get_tcb`. -/
def getTcb (c : CapabilityData) : Nat := toKernelV c.getAddress

/-- `TCBCap::set_cspace`, `set_vspace` and `set_ipc_buffer`. -/
def setSlot (cfg : Config) (slot : TcbSlot) (c : CapabilityData) (src : Nat) : KM Unit := do
  let e ← deref (·.slots src)
  let cap ← e.cap.derive
  setTcbSlot cfg slot (getTcb c) cap src

def setCspace (cfg : Config) : CapabilityData → Nat → KM Unit := setSlot cfg .rootCnode

def setVspace (cfg : Config) : CapabilityData → Nat → KM Unit := setSlot cfg .vspace

def setIpcBuffer (cfg : Config) : CapabilityData → Nat → KM Unit := setSlot cfg .ipcBuffer

/-- `TCBCap::set_registers`: all of them, as they are. -/
def setRegisters (c : CapabilityData) (registers : Registers) : KM Unit :=
  updateTcb (getTcb c) fun t => { t with registers }

def makeRunnable (c : CapabilityData) : KM Unit := resume (getTcb c)

end TCBCap

/-! ## `scheduler.rs` -/

def requireSchedule : KM Unit := modify fun s => { s with requested := true }

/-- `activate_vspace`: the thread's own root table, or the kernel's. -/
def activateVspace (cfg : Config) (thread : Nat) : KM Unit := do
  let t ← getTcb thread
  match t.vspace with
  | some e =>
    if e.cap.isRoot then modify fun s => { s with satp := e.cap.getFrame }
    else modify fun s => { s with satp := imagePhys cfg.kernelVmRoot }
  | none => modify fun s => { s with satp := imagePhys cfg.kernelVmRoot }

/-- The tail of `schedule`. -/
def switchTo (cfg : Config) (next : Nat) : KM Unit := do
  activateVspace cfg next
  modify fun s => { s with curRegBase := next, current := next, requested := false }

/-- A thread that can still run goes to the end of the run queue. -/
def requeue (thread : Nat) : KM Unit := do
  let t ← getTcb thread
  if t.isRunnable then push thread else pure ()

def schedule (cfg : Config) : KM Unit := do
  let s ← get
  if !s.requested then pure ()
  else
    match s.runqueue with
    | next :: rest => do
      modify fun s => { s with runqueue := rest }
      updateTcb next (·.setTimeout taskQuantum)
      requeue s.current
      switchTo cfg next
    | [] => do
      let current ← getTcb s.current
      if current.isRunnable then updateTcb s.current (·.setTimeout taskQuantum)
      else switchTo cfg cfg.idleThread

def timerTick (cfg : Config) : KM Unit := do
  let s ← get
  if s.current = cfg.idleThread then pure ()
  else do
    let t ← getTcb s.current
    let timeSlice ← arith (cfg.profile.sub t.timeSlice 1)
    updateTcb s.current (·.setTimeout timeSlice)
    if timeSlice = 0 then requireSchedule else pure ()

/-! ## `endpoint.rs` -/

/-- `wake_up_thread`. -/
def wakeUpThread (thread : Nat) : KM Unit := resume thread

/-- `block_thread`. -/
def blockThread (thread : Nat) : KM Unit := updateTcb thread (·.suspend)

namespace Endpoint

/-- `pop_from_queue`: what it returns, and the endpoint after it. -/
def popFromQueue (ep : Endpoint) (epState : EndpointState) : Option Nat × Endpoint :=
  let epState' := if ep.epState = .idel then epState else ep.epState
  if epState' = epState then (none, { ep with epState := epState' })
  else
    (ep.queue.head?, ⟨if ep.queue.tail.isEmpty then .idel else epState', ep.queue.tail⟩)

/-- The thread blocks on the endpoint at `ep`. -/
def enqueue (ep thread : Nat) : KM Unit := do
  blockThread thread
  let e ← getEndpoint ep
  modify (·.setEndpoint ep { e with queue := e.queue ++ [thread] })

/-- The message of `sender` goes to `receiver`. -/
def transfer (sender receiver : Nat) : KM Unit := do
  let t ← getTcb sender
  setIpcMsg receiver t.ipcBufferRef
  updateTcb receiver (·.setA1 t.badge)

/-- `Endpoint::send` after `pop_from_queue`: whether the thread blocks. -/
def sendTo (ep thread : Nat) : Option Nat → KM Bool
  | some receiver => do
    transfer thread receiver
    wakeUpThread receiver
    return false
  | none => do
    enqueue ep thread
    return true

/-- `Endpoint::recv` after `pop_from_queue`: whether the thread blocks. -/
def recvFrom (ep thread : Nat) : Option Nat → KM Bool
  | some sender => do
    transfer sender thread
    wakeUpThread sender
    return false
  | none => do
    enqueue ep thread
    return true

/-- `Endpoint::send` on the endpoint at `ep`. -/
def send (ep thread : Nat) : KM Bool := do
  let e ← getEndpoint ep
  modify (·.setEndpoint ep (e.popFromQueue .send).2)
  sendTo ep thread (e.popFromQueue .send).1

/-- `Endpoint::recv` on the endpoint at `ep`. -/
def recv (ep thread : Nat) : KM Bool := do
  let e ← getEndpoint ep
  modify (·.setEndpoint ep (e.popFromQueue .recv).2)
  recvFrom ep thread (e.popFromQueue .recv).1

end Endpoint

namespace EndPointCap

/-- `EndPointCap::get_ep`. -/
def getEp (c : CapabilityData) : Nat := toKernelV c.getAddress

def send (c : CapabilityData) (thread : Nat) : KM Bool := do
  updateTcb thread fun t => { t with badge := c.getBadge }
  Endpoint.send (getEp c) thread

def recv (c : CapabilityData) (thread : Nat) : KM Bool := Endpoint.recv (getEp c) thread

end EndPointCap

/-! ## `notification.rs` -/

namespace Notification

/-- `Notification::send_signal` on the notification at `ntfn`. -/
def sendSignal (ntfn : Nat) (val : UInt64) : KM Unit := do
  let n ← getNotification ntfn
  match n.waitQueue with
  | waiter :: rest => do
    modify (·.setNotification ntfn { n with waitQueue := rest })
    updateTcb waiter (·.setA1 val)
    wakeUpThread waiter
  | [] =>
    modify (·.setNotification ntfn { n with notifyBit := n.notifyBit ||| val, bitIsSet := true })

/-- `Notification::wait_signal` on the notification at `ntfn`: whether the thread blocks. -/
def waitSignal (ntfn thread : Nat) : KM Bool := do
  let n ← getNotification ntfn
  if n.bitIsSet then do
    updateTcb thread (·.setA1 n.notifyBit)
    modify (·.setNotification ntfn { n with notifyBit := 0, bitIsSet := false })
    return false
  else do
    blockThread thread
    modify (·.setNotification ntfn { n with waitQueue := n.waitQueue ++ [thread] })
    return true

end Notification

namespace NotificationCap

/-- `NotificationCap::get_notify`. -/
def getNotify (c : CapabilityData) : Nat := toKernelV c.getAddress

def send (c : CapabilityData) : KM Unit := Notification.sendSignal (getNotify c) c.getBadge

def wait (c : CapabilityData) (thread : Nat) : KM Bool :=
  Notification.waitSignal (getNotify c) thread

end NotificationCap

end Zoeax
