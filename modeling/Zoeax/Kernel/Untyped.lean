import Zoeax.Kernel.Capability

/-!
# Untyped memory (`kernel/src/capability/untyped.rs`)

An untyped capability describes a block of memory: the block starts at the capability's address,
its size is a power of two, and `cap_dep_val` packs the address of the first free byte, the device
flag and the logarithm of the size. `retype` takes memory from the block and returns a generator of
the capabilities of the new objects.
-/

namespace Zoeax

open Lib (Profile)

namespace CapabilityData

def getFreeIndex (c : CapabilityData) : Nat := toKernelV (c.capDepVal.toNat >>> 16)

def isDevice (c : CapabilityData) : Bool := c.capDepVal.toNat.testBit 6

def blockSize (c : CapabilityData) : Nat := 2 ^ (c.capDepVal.toNat &&& 0x3f)

def markIsDevice (c : CapabilityData) : CapabilityData := c.setCapDepVal (c.capDepVal &&& 0x3f)

def getFreeBytes (cfg : Config) (c : CapabilityData) : Except Stop Nat := do
  let startAddress := toKernelV c.getAddress
  let endAddress ← arith (cfg.profile.add startAddress c.blockSize)
  arith (cfg.profile.sub endAddress c.getFreeIndex)

end CapabilityData

/-- `CapGenerator<K>`: the capabilities of the objects of one retype still to come. -/
structure CapGenerator where
  k : CapabilityType
  num : Nat
  address : Nat
  userSize : Nat
  objSize : Nat
  endAddress : Nat
deriving DecidableEq, Repr

namespace CapGenerator

def new (cfg : Config) (k : CapabilityType) (num startAddress userSize objSize : Nat) :
    Except Stop CapGenerator := do
  let total ← arith (cfg.profile.mul objSize num)
  let endAddress ← arith (cfg.profile.add startAddress total)
  return ⟨k, num, startAddress, userSize, objSize, endAddress⟩

/-- `Iterator::next` on a generator with objects left. -/
def next (cfg : Config) (g : CapGenerator) : Except Stop (CapabilityData × CapGenerator) := do
  let capDepVal ← g.k.createCapDepVal g.address g.userSize
  let cap := CapabilityData.new g.k (toPhys g.address) (UInt64.ofNat capDepVal)
  let address ← arith (cfg.profile.add g.address g.objSize)
  return (cap, { g with address, num := g.num - 1 })

/-- The capabilities that `n` calls of `next` return. -/
def take (cfg : Config) : Nat → CapGenerator → Except Stop (List CapabilityData)
  | 0, _ => .ok []
  | n + 1, g => do
    let (cap, g') ← g.next cfg
    let caps ← take cfg n g'
    return cap :: caps

/-- What iterating over the generator yields. -/
def toList (cfg : Config) (g : CapGenerator) : Except Stop (List CapabilityData) := g.take cfg g.num

end CapGenerator

namespace CapabilityData

/-- `UntypedCap::retype::<K>`: the capability after it, and the generator. -/
def retype (cfg : Config) (k : CapabilityType) (c : CapabilityData) (userSize num : Nat) :
    Except Stop (CapabilityData × CapGenerator) := do
  -- 1, can convert from device memory
  require (!c.isDevice || k.canBeRetypedFromDeviceMemory) (kerr .canNotNewFromDeviceMemory 0)
  let blockSize := c.blockSize
  let size ← k.getObjectSize cfg userSize
  let objectSize ← arith (cfg.profile.mul num size)
  -- 2, whether memory is enough or not
  let freeBytes ← c.getFreeBytes cfg
  require (objectSize ≤ freeBytes) (kerr .noMemory 0)
  -- 3, create given type capabilities
  let freeIdxAligned ← arith (alignUp cfg.profile c.getFreeIndex k.align)
  let gen ← CapGenerator.new cfg k num freeIdxAligned userSize objectSize
  -- 4, update self information
  let v ← CapabilityType.untyped.createCapDepVal gen.endAddress blockSize
  let c' := c.setCapDepVal (UInt64.ofNat v)
  return (if c.isDevice then c'.markIsDevice else c', gen)

/-- `UntypedCap::invoke_retype`, up to the generator: every type but `Untyped` is accepted. -/
def invokeRetype (cfg : Config) (c : CapabilityData) (userSize num : Nat)
    (newType : CapabilityType) : Except Stop (CapabilityData × CapGenerator) :=
  match newType with
  | .untyped => .error (kerr .unknownCapType 0)
  | k => c.retype cfg k userSize num

end CapabilityData

end Zoeax
