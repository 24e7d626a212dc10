import Zoeax.Kernel.State

/-!
# Capability spaces (`kernel/src/object/cnode.rs`, `capability/cnode.rs`)

The capability derivation list is threaded through the slots by address: every entry carries the
addresses of its two neighbours. An entry is built in a local variable, linked there, and then moved
into its slot, so the address that its neighbours keep is that of the local variable
(`Config.localAddr`). The entry stays readable at that address: nothing clears the stack.

The second half is the lookup of capability pointers.
-/

namespace Zoeax

open Lib
open CapabilityType (entrySize)

/-! ## The derivation list -/

namespace ManagementDB

/-- `_set_node`: the address goes above the low 16 bits, which are kept. -/
def pack (old : UInt64) (node : Nat) : UInt64 :=
  (old &&& (0xffff : UInt64)) ||| UInt64.ofNat (node <<< 16)

/-- `get_node`. -/
def unpack (word : UInt64) : Option Nat :=
  let address := word.toNat >>> 16
  if address = 0 then none else some (toKernelV address)

def getNode (m : ManagementDB) (isNext : Bool) : Option Nat :=
  unpack (if isNext then m.next else m.prev)

def setNode (m : ManagementDB) (isNext : Bool) (node : Nat) : ManagementDB :=
  if isNext then { m with next := pack m.next node } else { m with prev := pack m.prev node }

end ManagementDB

def CNodeEntry.newWithRawcap (cap : CapabilityData) : CNodeEntry := ⟨cap, ⟨0, 0⟩⟩

/-- All places where an entry is built in a local variable. -/
def Site.all : List Site :=
  [.invocation, .insertCap .untyped, .insertCap .tcb, .insertCap .endPoint, .insertCap .cNode,
    .insertCap .notification, .insertCap .pageTable, .insertCap .page, .setRootCspace,
    .setRootVspace, .setIpcBuffer, .createRootCnode, .createRootVspace, .createRootIpcBuffer]

def Config.isLocal (cfg : Config) (p : Nat) : Bool := Site.all.any (cfg.localAddr · = p)

/-- The neighbour of the entry at `p`. -/
def getLink (p : Nat) (isNext : Bool) : KR (Option Nat) := do
  let e ← deref (·.slots p)
  return e.mdb.getNode isNext

/-- Writes a link of the entry at `p`. An empty slot has the words too, but nothing reads them. -/
def setLink (cfg : Config) (p : Nat) (isNext : Bool) (node : Nat) : KM Unit := do
  let s ← get
  if s.isSlot p || cfg.isLocal p then modify (·.relink p (·.setNode isNext node))
  else throw undefinedAccess

/-- `ManagementDB::set_node`: both directions. -/
def setNode (cfg : Config) (p node : Nat) (isNext : Bool) : KM Unit := do
  setLink cfg p isNext node
  setLink cfg node (!isNext) p

/-- A new entry in the local variable of a place: its address. -/
def newLocal (cfg : Config) (site : Site) (cap : CapabilityData) : KM Nat := do
  modify fun s => s.setSlot (cfg.localAddr site) (some (.newWithRawcap cap))
  return cfg.localAddr site

/-- `CNodeEntry::insert`, the former next entry of `parent`. -/
def insertNext (cfg : Config) (p parent : Nat) : KM Unit := do
  match ← getLink parent true with
  | some prevNext => setNode cfg p prevNext true
  | none => pure ()

/-- `CNodeEntry::insert`: the entry at `p` becomes the next one of `parent`. `insert_cap` has the
same code on the parent's `ManagementDB`. -/
def insertAfter (cfg : Config) (p parent : Nat) : KM Unit := do
  insertNext cfg p parent
  setNode cfg parent p true

/-- `CNodeEntry::replace`, the neighbour in front. -/
def replaceNext (cfg : Config) (p src : Nat) : KM Unit := do
  match ← getLink src true with
  | some srcNext => do
    setNode cfg srcNext p false
    setNode cfg p srcNext true
  | none => pure ()

/-- `CNodeEntry::replace`, the neighbour behind. -/
def replacePrev (cfg : Config) (p src : Nat) : KM Unit := do
  match ← getLink src false with
  | some srcPrev => do
    setNode cfg srcPrev p true
    setNode cfg p srcPrev false
  | none => pure ()

/-- `CNodeEntry::replace`. -/
def replaceEntry (cfg : Config) (p src : Nat) : KM Unit := do
  replaceNext cfg p src
  replacePrev cfg p src

/-- `*dest = Some(entry)` for the entry in the local variable at `p`. -/
def moveEntry (p dest : Nat) : KM Unit := modify fun s => s.setSlot dest (s.slots p)

/-- `CNode::insert_cap`: a new entry behind `parent`, in slot number `index` of the window. -/
def insertCap (cfg : Config) (k : CapabilityType) (window parent : Nat) (cap : CapabilityData)
    (index : Nat) : KM Unit := do
  let entry ← newLocal cfg (.insertCap k) cap
  insertAfter cfg entry parent
  moveEntry entry (window + entrySize * index)

/-! ## Lookup -/

/-- The precondition of `slice::from_raw_parts_mut` on the size; a checked build panics. -/
def checkSlice (cfg : Config) (len : Nat) : Except Stop Unit :=
  require (len * entrySize < 2 ^ 63)
    (if cfg.profile = .debug then panicked else undefinedAccess)

namespace CapabilityData

/-- `CNodeCap::_lookup_entry_mut`: the slot of this CNode, and the bits left. -/
def lookupStep (cfg : Config) (c : CapabilityData) (capptr depthBits : Nat) :
    Except Stop (Nat × Nat) := do
  let radix := c.radix
  require (radix ≤ depthBits) (kerr .outOfMemory 0)
  let remainBits := depthBits - radix
  let capacity ← c.capacity cfg
  checkSlice cfg capacity
  let shifted ← arith (cfg.profile.shr capptr remainBits)
  let top ← arith (cfg.profile.shl 1 radix)
  let mask ← arith (cfg.profile.sub top 1)
  let offset := shifted &&& mask
  require (offset < capacity) panicked
  return (toKernelV c.getAddress + entrySize * offset, remainBits)

/-- The loop of `CNodeCap::lookup_entry_mut`. -/
def lookupLoop (cfg : Config) : Nat → CapabilityData → Nat → Nat → KR Nat
  | 0, _, _, _ => throw (.halt .hang)
  | n + 1, c, capptr, depthBits => do
    let (p, rem) ← c.lookupStep cfg capptr depthBits
    match ← readSlot p with
    | none => return p
    | some e =>
      if rem = 0 then return p
      else do
        let capType ← e.cap.getCapType
        if capType = .cNode then lookupLoop cfg n e.cap capptr rem else return p

/-- `CNodeCap::lookup_entry_mut`: the slot that a capability pointer leads to. -/
def lookupEntryMut (cfg : Config) (c : CapabilityData) (capptr depthBits : Nat) : KR Nat :=
  lookupLoop cfg cfg.loopBound c capptr depthBits

/-- `CNodeCap::lookup_entry_mut_one_level`. -/
def lookupEntryMutOneLevel (cfg : Config) (c : CapabilityData) (capptr : Nat) : KR Nat :=
  c.lookupEntryMut cfg capptr c.radix

/-- `CNodeCap::lookup_two_entries_mut`. -/
def lookupTwoEntriesMut (cfg : Config) (c : CapabilityData)
    (capptr depthBits capptr2 depthBits2 : Nat) : KR (Nat × Nat) := do
  let entry1 ← c.lookupEntryMut cfg capptr depthBits
  let entry2 ← c.lookupEntryMut cfg capptr2 depthBits2
  require (entry1 ≠ entry2) (kerr .invalidOperation 0)
  return (entry1, entry2)

end CapabilityData

/-- `iter().all(|slot| slot.is_none())` over `n` slots. -/
def allEmpty : Nat → Nat → KR Bool
  | 0, _ => return true
  | n + 1, p => do
    match ← readSlot p with
    | none => allEmpty n (p + entrySize)
    | some _ => return false

namespace CapabilityData

/-- `CNodeCap::get_writable`: the address of the first slot of the window. -/
def getWritable (cfg : Config) (c : CapabilityData) (num index : Nat) : KR Nat := do
  let capacity ← c.capacity cfg
  require (num + index < capacity) (kerr .invalidOperation 0)
  checkSlice cfg num
  let window := toKernelV c.getAddress + entrySize * index
  let empty ← allEmpty num window
  require empty (kerr .notEmptySlot 0)
  -- `&mut cnode[0]`
  require (num ≠ 0) panicked
  return window

/-- `CNodeCap::write_slot`. -/
def writeSlot (cfg : Config) (c cap : CapabilityData) (index : Nat) : KM Unit := do
  let capacity ← c.capacity cfg
  require (index < capacity) (kerr .outOfMemory 0)
  checkSlice cfg capacity
  let p := toKernelV c.getAddress + entrySize * index
  let slot ← readSlot p
  require slot.isNone (kerr .notEmptySlot 0)
  modify fun s => s.setSlot p (some (.newWithRawcap cap))

/-- The slots of `print_level`, from number `i` on; `sub` prints the level below. Printing itself
leaves no trace in the state. -/
def printSlots (c : CapabilityData) (sub : CapabilityData → KR Unit) : Nat → Nat → KR Unit
  | 0, _ => pure ()
  | n + 1, i => do
    match ← readSlot (toKernelV c.getAddress + entrySize * i) with
    | none => printSlots c sub n (i + 1)
    | some e =>
      match e.cap.tryRefAs .cNode with
      | .error _ => printSlots c sub n (i + 1)
      | .ok () =>
        if e.cap.getAddress = c.getAddress then printSlots c sub n (i + 1)
        else do
          sub e.cap
          printSlots c sub n (i + 1)

/-- `CNodeCap::print_level`. -/
def printLevel (cfg : Config) : Nat → CapabilityData → KR Unit
  | 0, _ => throw (.halt .hang)
  | fuel + 1, c => do
    let capacity ← c.capacity cfg
    checkSlice cfg capacity
    printSlots c (printLevel cfg fuel) capacity 0

/-- `CNodeCap::print_traverse`. -/
def printTraverse (cfg : Config) (c : CapabilityData) : KR Unit := printLevel cfg cfg.loopBound c

end CapabilityData

end Zoeax
