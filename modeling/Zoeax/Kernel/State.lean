import Zoeax.Kernel.Untyped
import Zoeax.Lib.Exec
import Mathlib.Logic.Function.Basic

/-!
# The state of the kernel

Memory is a typed heap. Slots of CNodes, thread control blocks, endpoints and notifications are
keyed by the kernel address of their memory; page frames and page tables are words keyed by their
physical address. `rooted` logs the page tables on which `make_as_root` was performed; it is there
for the statements only.

`objects` logs every kernel object from the moment its memory is taken, and the model stops on it.
The source has no types in memory and no log: it lays a new object over live ones, indexes past the
end of a CNode and follows any word as a page table entry. A typed heap cannot say what comes of
that, so an access that is not inside a live object of the right type ends the run as `undefined`:
in `placeObject` and `createObject`, `readSlot` and `deref`, `readPte` and `writePte`,
`copyGlobalMapping`, and where a page is read as an IPC buffer. The one overlap that is followed is
that of a thread control block, an endpoint or a notification with itself: it is initialised again.
So a statement about all runs of the model says nothing about what the code does after such an
access, and most results are about runs that meet the conditions of `Verify/Guards.lean`.

The intrusive lists are read as the sequences of their members (`Kernel/LinkedList.lean` has the
lists themselves).
-/

namespace Zoeax

open Lib

/-! ## Kernel objects -/

/-- `ManagementDB`: two words, the address of a neighbour in the upper 48 bits of each. -/
structure ManagementDB where
  prev : UInt64
  next : UInt64
deriving DecidableEq, Repr

structure CNodeEntry where
  cap : CapabilityData
  mdb : ManagementDB
deriving DecidableEq

inductive ThreadState where
  | inactive
  | runnable
  | blocked
  | idle
deriving DecidableEq, Repr

structure ThreadInfo where
  status : ThreadState := .inactive
  timeSlice : Nat := 0
  rootCnode : Option CNodeEntry := none
  vspace : Option CNodeEntry := none
  registers : Registers := {}
  ipcBuffer : Option CNodeEntry := none
  badge : UInt64 := 0
deriving DecidableEq

inductive EndpointState where
  | send
  | recv
  | idel
deriving DecidableEq, Repr

structure Endpoint where
  epState : EndpointState
  queue : List Nat
deriving DecidableEq, Repr

def Endpoint.new : Endpoint := ⟨.idel, []⟩

structure Notification where
  notifyBit : UInt64
  waitQueue : List Nat
  bitIsSet : Bool
deriving DecidableEq, Repr

def Notification.new : Notification := ⟨0, [], false⟩

/-- A live kernel object: its type, where it is, the `user_size` it was made with, and its size. -/
structure Object where
  kind : CapabilityType
  addr : Nat
  userSize : Nat
  size : Nat
deriving DecidableEq, Repr

namespace Object

/-- The address at which the kernel sees the object. -/
def start (o : Object) : Nat := toKernelV o.addr

/-- The memory an object may take: in the free memory, aligned. -/
def admissible (cfg : Config) (o : Object) : Bool :=
  o.addr % o.kind.align = 0 && cfg.freeRam ≤ o.addr && o.addr + o.size ≤ cfg.freeRamEnd

def overlaps (o o' : Object) : Bool := o.addr < o'.addr + o'.size && o'.addr < o.addr + o.size

/-- The kernel keeps a structure of its own in the object. -/
def hasCell (o : Object) : Bool :=
  o.kind = .tcb || o.kind = .endPoint || o.kind = .notification

/-- The object is a CNode and has a slot at `p`. -/
def hasSlot (o : Object) (p : Nat) : Bool :=
  o.kind = .cNode && o.start ≤ p && p + CapabilityType.entrySize ≤ o.start + o.size &&
    (p - o.start) % CapabilityType.entrySize = 0

/-- The object is a page or a page table and the physical address `a` is in it. -/
def hasFrame (o : Object) (a : Nat) : Bool :=
  (o.kind = .page || o.kind = .pageTable) && o.addr ≤ a && a < o.addr + o.size

end Object

/-! ## The state -/

structure KState where
  /-- The slots of CNodes, and the entries built in local variables. -/
  slots : Nat → Option CNodeEntry
  tcbs : Nat → Option ThreadInfo
  endpoints : Nat → Option Endpoint
  notifications : Nat → Option Notification
  /-- The words of page frames and page tables. -/
  mem : Nat → UInt64
  objects : List Object
  rooted : List Nat
  /-- `SCHEDULER`. -/
  runqueue : List Nat
  requested : Bool
  /-- `CURRENT_PROC`, and the thread control block that holds `CPU_VAR.cur_reg_base`. -/
  current : Nat
  curRegBase : Nat
  /-- The table that `satp` points to. -/
  satp : Nat

/-- Kernel code. -/
abbrev KM := Exec Stop KState

/-- Kernel code that only reads. -/
abbrev KR := Query Stop KState

namespace KState

def setSlot (s : KState) (p : Nat) (e : Option CNodeEntry) : KState :=
  { s with slots := Function.update s.slots p e }

/-- The links of the entry at `p`, if there is one, become those that `f` gives. -/
def relink (s : KState) (p : Nat) (f : ManagementDB → ManagementDB) : KState :=
  s.setSlot p ((s.slots p).map fun e => { e with mdb := f e.mdb })

/-- The capability of the entry at `p`, if there is one, becomes `c`. -/
def setCap (s : KState) (p : Nat) (c : CapabilityData) : KState :=
  s.setSlot p ((s.slots p).map fun e => { e with cap := c })

/-- The capability in the entry at `p`. -/
def capAt (s : KState) (p : Nat) : Option CapabilityData := (s.slots p).map (·.cap)

def setTcb (s : KState) (p : Nat) (t : ThreadInfo) : KState :=
  { s with tcbs := Function.update s.tcbs p (some t) }

def setEndpoint (s : KState) (p : Nat) (ep : Endpoint) : KState :=
  { s with endpoints := Function.update s.endpoints p (some ep) }

def setNotification (s : KState) (p : Nat) (n : Notification) : KState :=
  { s with notifications := Function.update s.notifications p (some n) }

/-- `n` bytes at `dst` become those at `src`. -/
def copyMem (s : KState) (dst src n : Nat) : KState :=
  { s with mem := fun a => if dst ≤ a ∧ a < dst + n then s.mem (src + (a - dst)) else s.mem a }

/-- `n` bytes at `dst` become zero. -/
def zeroMem (s : KState) (dst n : Nat) : KState :=
  { s with mem := fun a => if dst ≤ a ∧ a < dst + n then 0 else s.mem a }

def setWord (s : KState) (a : Nat) (w : UInt64) : KState :=
  { s with mem := Function.update s.mem a w }

theorem mem_setWord_self (s : KState) (a : Nat) (w : UInt64) : (s.setWord a w).mem a = w :=
  Function.update_self ..

theorem mem_setWord_of_ne (s : KState) {a b : Nat} (h : b ≠ a) (w : UInt64) :
    (s.setWord a w).mem b = s.mem b :=
  Function.update_of_ne h ..

def isSlot (s : KState) (p : Nat) : Bool := s.objects.any (·.hasSlot p)

def isFrame (s : KState) (a : Nat) : Bool := s.objects.any (·.hasFrame a)

/-- A page or page table starts at `a`. -/
def isObject (s : KState) (k : CapabilityType) (a : Nat) : Bool :=
  s.objects.any fun o => o.kind = k && o.addr = a

theorem isObject_iff {s : KState} {k : CapabilityType} {a : Nat} :
    s.isObject k a = true ↔ ∃ o ∈ s.objects, o.kind = k ∧ o.addr = a := by
  simp [isObject]

@[simp] theorem endpoints_setEndpoint_self (s : KState) (p : Nat) (ep : Endpoint) :
    (s.setEndpoint p ep).endpoints p = some ep := Function.update_self ..

theorem tcbs_setTcb (s : KState) (p q : Nat) (t : ThreadInfo) :
    (s.setTcb p t).tcbs q = if q = p then some t else s.tcbs q := Function.update_apply ..

@[simp] theorem slots_setSlot_self (s : KState) (p : Nat) (e : Option CNodeEntry) :
    (s.setSlot p e).slots p = e := Function.update_self ..

theorem slots_relink_self {s : KState} {p : Nat} {e : CNodeEntry} (h : s.slots p = some e)
    (f : ManagementDB → ManagementDB) :
    (s.relink p f).slots p = some { e with mdb := f e.mdb } := by
  rw [relink, slots_setSlot_self, h]
  rfl

theorem slots_relink_of_ne (s : KState) {p q : Nat} (h : q ≠ p) (f : ManagementDB → ManagementDB) :
    (s.relink p f).slots q = s.slots q := Function.update_of_ne h ..

theorem capAt_setSlot (s : KState) (p q : Nat) (e : Option CNodeEntry) :
    (s.setSlot p e).capAt q = if q = p then e.map (·.cap) else s.capAt q := by
  simp only [capAt, setSlot, Function.update_apply]
  split <;> rfl

@[simp] theorem capAt_relink (s : KState) (p q : Nat) (f : ManagementDB → ManagementDB) :
    (s.relink p f).capAt q = s.capAt q := by
  rw [relink, capAt_setSlot]
  split
  · next h => rw [h, Option.map_map]; rfl
  · rfl

end KState

/-! ## Access -/

/-- Takes the memory of a new object. -/
def createObject (cfg : Config) (o : Object) : KM Unit := do
  let s ← get
  if o.admissible cfg && s.objects.all (fun o' => !o.overlaps o') then
    modify fun s => { s with objects := o :: s.objects }
  else throw undefinedAccess

/-- Takes the memory of an object that a retype makes. The code does not look at what is there: a
thread control block, an endpoint or a notification that is laid exactly over itself stays in the
log, and is initialised once more. -/
def placeObject (cfg : Config) (o : Object) : KM Unit := do
  let s ← get
  if o.hasCell = true ∧ o ∈ s.objects then pure () else createObject cfg o

/-- Reads through a pointer to a kernel object. -/
def deref {α : Type} (cell : KState → Option α) : KR α := do
  match cell (← read) with
  | some a => return a
  | none => throw undefinedAccess

def getTcb (p : Nat) : KR ThreadInfo := deref (·.tcbs p)

def getEndpoint (p : Nat) : KR Endpoint := deref (·.endpoints p)

def getNotification (p : Nat) : KR Notification := deref (·.notifications p)

def updateTcb (p : Nat) (f : ThreadInfo → ThreadInfo) : KM Unit := do
  let t ← getTcb p
  modify (·.setTcb p (f t))

def readSlot (p : Nat) : KR (Option CNodeEntry) := do
  let s ← read
  if s.isSlot p then return s.slots p else throw undefinedAccess

/-- `slot.as_mut().ok_or(kerr!(ErrKind::SlotIsEmpty))?`. -/
def occupied (p : Nat) : KR CNodeEntry := do
  match ← readSlot p with
  | some e => return e
  | none => throw (kerr .slotIsEmpty 0)

/-- Writes the capability of an occupied slot, through a reference to it. -/
def writeCap (p : Nat) (c : CapabilityData) : KM Unit := modify (·.setCap p c)

section Access

variable {s s' : KState} {p : Nat}

theorem deref_ok {α : Type} {cell : KState → Option α} {a : α} :
    deref cell s = .ok a ↔ cell s = some a := by
  simp only [deref, Query.bind_ok, Query.read_ok, exists_eq_left']
  cases cell s with
  | some b => simp [Query.pure_ok]
  | none => simp [Query.throw_ok]

theorem getTcb_ok {t : ThreadInfo} : getTcb p s = .ok t ↔ s.tcbs p = some t := deref_ok

theorem getEndpoint_ok {ep : Endpoint} : getEndpoint p s = .ok ep ↔ s.endpoints p = some ep :=
  deref_ok

theorem getNotification_ok {n : Notification} :
    getNotification p s = .ok n ↔ s.notifications p = some n := deref_ok

theorem updateTcb_ok {f : ThreadInfo → ThreadInfo} {u : Unit} :
    updateTcb p f s = .ok u s' ↔ ∃ t, s.tcbs p = some t ∧ s' = s.setTcb p (f t) := by
  simp only [updateTcb, Exec.bind_ok, Exec.lift_ok, Exec.modify_ok, getTcb_ok]
  constructor
  · rintro ⟨t, _, ⟨ht, rfl⟩, rfl⟩
    exact ⟨t, ht, rfl⟩
  · rintro ⟨t, ht, rfl⟩
    exact ⟨t, s, ⟨ht, rfl⟩, rfl⟩

theorem readSlot_ok {e : Option CNodeEntry} :
    readSlot p s = .ok e ↔ s.isSlot p = true ∧ s.slots p = e := by
  simp only [readSlot, Query.bind_ok, Query.read_ok, exists_eq_left']
  cases h : s.isSlot p <;> simp [Query.pure_ok, Query.throw_ok]

theorem occupied_ok {e : CNodeEntry} :
    occupied p s = .ok e ↔ s.isSlot p = true ∧ s.slots p = some e := by
  simp only [occupied, Query.bind_ok, readSlot_ok]
  constructor
  · rintro ⟨e', ⟨hp, he⟩, h⟩
    cases e' with
    | some e' =>
      simp only [Query.pure_ok] at h
      exact ⟨hp, h ▸ he⟩
    | none => simp [Query.throw_ok] at h
  · rintro ⟨hp, he⟩
    exact ⟨some e, ⟨hp, he⟩, by simp [Query.pure_ok]⟩

theorem createObject_ok {cfg : Config} {o : Object} {u : Unit} :
    createObject cfg o s = .ok u s' ↔
      o.admissible cfg = true ∧ (∀ o' ∈ s.objects, o.overlaps o' = false) ∧
        s' = { s with objects := o :: s.objects } := by
  simp only [createObject, Exec.bind_ok, Exec.get_ok]
  constructor
  · rintro ⟨_, _, ⟨rfl, rfl⟩, h⟩
    split at h
    · next hc =>
      rw [Exec.modify_ok] at h
      simp only [Bool.and_eq_true, List.all_eq_true, Bool.not_eq_true'] at hc
      exact ⟨hc.1, hc.2, h.symm⟩
    · rw [Exec.throw_ok] at h
      exact h.elim
  · rintro ⟨ha, ho, rfl⟩
    refine ⟨s, s, ⟨rfl, rfl⟩, ?_⟩
    rw [if_pos (by simpa [ha] using ho)]
    rfl

theorem placeObject_ok {cfg : Config} {o : Object} {u : Unit} :
    placeObject cfg o s = .ok u s' ↔
      (o.hasCell = true ∧ o ∈ s.objects) ∧ s' = s ∨
        ¬(o.hasCell = true ∧ o ∈ s.objects) ∧ createObject cfg o s = .ok u s' := by
  simp only [placeObject, Exec.bind_ok, Exec.get_ok]
  constructor
  · rintro ⟨_, _, ⟨rfl, rfl⟩, h⟩
    split at h
    · next hmem => exact .inl ⟨hmem, (Exec.pure_ok.1 h).2.symm⟩
    · next hmem => exact .inr ⟨hmem, h⟩
  · rintro (⟨hmem, rfl⟩ | ⟨hmem, h⟩)
    · exact ⟨_, _, ⟨rfl, rfl⟩, by rw [if_pos hmem]; rfl⟩
    · exact ⟨s, s, ⟨rfl, rfl⟩, by rw [if_neg hmem]; exact h⟩

end Access

end Zoeax
