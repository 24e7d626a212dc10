import Zoeax.Kernel.Untyped
import Zoeax.Lib.Exec
import Mathlib.Order.Interval.Set.Disjoint
import Mathlib.Logic.Function.Basic
import Mathlib.Order.CompletePartialOrder

/-!
# Retyping keeps objects apart

A `Pool` is any number of untyped capabilities and the objects retyped from them so far. The
memory of the objects is allocated by four functions that must agree: the check of the free bytes,
the rounding up of the free index, the stride of the generator and the new free index.

They do not agree for more than one object: `retype` passes the size of the whole request to the
generator as the size of one object, and the padding in front of the first object is not part of
the check. `Pool.sound_of_fitting_run` says what remains true: as long as the aligned free index
plus `num * (num * size)` stays inside the block, all objects lie inside their blocks, apart from
each other, and the free index stays in the block. `Pool.not_sound_three_pages` is a request that
the code accepts and that breaks all three.
-/

namespace Zoeax

open Lib

/-! ## The packed word -/

namespace CapabilityData

/-- The first free byte, as a physical address. -/
def freePhys (c : CapabilityData) : Nat := c.capDepVal.toNat >>> 16

/-- The first byte after the block. -/
def blockEnd (c : CapabilityData) : Nat := c.getAddress + c.blockSize

/-- The memory of the block. -/
def block (c : CapabilityData) : Set Nat := Set.Ico c.getAddress c.blockEnd

theorem getFreeIndex_eq (c : CapabilityData) : c.getFreeIndex = toKernelV c.freePhys := rfl

theorem and_low_six (x : Nat) : x &&& 0x3f = x % 64 := Nat.and_two_pow_sub_one_eq_mod x 6

theorem blockSize_eq (c : CapabilityData) : c.blockSize = 2 ^ (c.capDepVal.toNat % 64) := by
  rw [blockSize, and_low_six]

/-- The word that `retype` writes: the new free index, and the old block size. -/
theorem createCapDepVal_untyped {a k : Nat} (ha : a < 2 ^ 47) :
    CapabilityType.untyped.createCapDepVal (toKernelV a) (2 ^ k) = .ok (a * 2 ^ 16 ||| k) := by
  have hpos : (2 : Nat) ^ k ≠ 0 := by positivity
  have hlt : a * 2 ^ 16 < 2 ^ 64 := by omega
  simp only [CapabilityType.createCapDepVal, hpos, if_false, toPhys_toKernelV_of_lt ha,
    Nat.log2_two_pow, Nat.shiftLeft_eq, Nat.mod_eq_of_lt hlt]

/-- The fields of that word, read back. -/
theorem packed_fields (c : CapabilityData) {a k : Nat} (ha : a < 2 ^ 47) (hk : k < 64) :
    let c' := c.setCapDepVal (UInt64.ofNat (a * 2 ^ 16 ||| k))
    c'.freePhys = a ∧ c'.blockSize = 2 ^ k := by
  have hor : a * 2 ^ 16 ||| k = a * 2 ^ 16 + k := by
    rw [← Nat.shiftLeft_eq, shiftLeft_or_of_lt (by omega), Nat.shiftLeft_eq]
  have hword : (UInt64.ofNat (a * 2 ^ 16 ||| k)).toNat = a * 2 ^ 16 + k := by
    rw [hor]
    exact UInt64.toNat_ofNat_of_lt' (by norm_num [UInt64.size]; omega)
  refine ⟨?_, ?_⟩
  · simp only [freePhys, setCapDepVal, hword, Nat.shiftRight_eq_div_pow]
    omega
  · rw [blockSize_eq]
    simp only [setCapDepVal, hword]
    congr 1
    omega

/-! ## One retype -/

theorem align_eq_two_pow (k : CapabilityType) : ∃ j ≤ 12, k.align = 2 ^ j := by
  cases k with
  | untyped => exact ⟨0, by decide, rfl⟩
  | cNode => exact ⟨0, by decide, rfl⟩
  | tcb => exact ⟨3, by decide, rfl⟩
  | endPoint => exact ⟨3, by decide, rfl⟩
  | notification => exact ⟨3, by decide, rfl⟩
  | pageTable => exact ⟨12, by decide, rfl⟩
  | page => exact ⟨12, by decide, rfl⟩

theorem alignUp_eq_roundUp (p : Profile) {v j : Nat} (hj : j ≤ 64) (hv : v + 2 ^ j < 2 ^ 64) :
    alignUp p v (2 ^ j) = some (roundUp v (2 ^ j)) := by
  have hpos : 1 ≤ 2 ^ j := Nat.one_le_two_pow
  rw [alignUp, Profile.add, p.wrap_of_lt hv]
  simp only [Option.bind_eq_bind, Option.bind_some, Option.pure_def, p.sub_of_le hpos,
    p.sub_of_le (show 1 ≤ v + 2 ^ j by omega)]
  rw [and_notU64_two_pow_sub_one (by omega) hj, roundUp]

/-- `align_up` on the address through which the kernel sees `a`: the direct map keeps alignment. -/
theorem alignUp_toKernelV (p : Profile) (k : CapabilityType) {a : Nat} (ha : a ≤ directMapEnd) :
    alignUp p (toKernelV a) k.align = some (toKernelV (roundUp a k.align)) := by
  obtain ⟨j, hj, hal⟩ := align_eq_two_pow k
  have hpos : 0 < 2 ^ j := by positivity
  have hle : 2 ^ j ≤ 2 ^ 12 := Nat.pow_le_pow_right (by norm_num) hj
  have hdvd : 2 ^ j ∣ kernelVAddrPfx :=
    (Nat.pow_dvd_pow 2 hj).trans (by norm_num [kernelVAddrPfx])
  have hlt : a + 2 ^ 12 < 2 ^ 47 := by
    rw [directMapEnd] at ha
    omega
  have hr : roundUp a (2 ^ j) < 2 ^ 47 := by
    have := Nat.div_mul_le_self (a + 2 ^ j - 1) (2 ^ j)
    unfold roundUp
    omega
  have hsum : a + kernelVAddrPfx + 2 ^ j < 2 ^ 64 := by
    rw [kernelVAddrPfx]
    omega
  rw [hal, toKernelV_of_lt (by omega), toKernelV_of_lt hr,
    alignUp_eq_roundUp p (by omega) hsum, roundUp_add_of_dvd hpos hdvd]

/-- What a retype that returns has computed. -/
theorem retype_ok {cfg : Config} {k : CapabilityType} {c c' : CapabilityData} {gen : CapGenerator}
    {userSize num : Nat} (h : c.retype cfg k userSize num = .ok (c', gen)) :
    (c.isDevice = true → k.canBeRetypedFromDeviceMemory = true) ∧
    ∃ size objectSize freeBytes start v,
      k.getObjectSize cfg userSize = .ok size ∧
      cfg.profile.mul num size = some objectSize ∧
      c.getFreeBytes cfg = .ok freeBytes ∧ objectSize ≤ freeBytes ∧
      alignUp cfg.profile c.getFreeIndex k.align = some start ∧
      CapGenerator.new cfg k num start userSize objectSize = .ok gen ∧
      CapabilityType.untyped.createCapDepVal gen.endAddress c.blockSize = .ok v ∧
      c' = if c.isDevice then (c.setCapDepVal (UInt64.ofNat v)).markIsDevice
        else c.setCapDepVal (UInt64.ofNat v) := by
  unfold retype at h
  simp only [except_bind_ok, require_ok, arith_ok, except_pure_ok, Prod.mk.injEq,
    Bool.or_eq_true, Bool.not_eq_true', decide_eq_true_eq] at h
  obtain ⟨-, hdev, size, hsize, objectSize, hobj, free, hfree, -, hle, start, hstart, gen', hgen, v,
    hv, hc, rfl⟩ := h
  refine ⟨fun hd => hdev.resolve_left (by simp [hd]), size, objectSize, free, start, v, hsize, hobj,
    hfree, hle, hstart, hgen, hv, hc.symm⟩

/-- The memory that the request takes when nothing overflows: the whole request, once for each of
its objects. -/
def requestEnd (c : CapabilityData) (k : CapabilityType) (size num : Nat) : Nat :=
  roundUp c.freePhys k.align + num * (num * size)

/-- A block that the kernel can reach, with the free index inside. -/
structure BlockWF (c : CapabilityData) : Prop where
  end_le : c.blockEnd ≤ directMapEnd
  base_le_free : c.getAddress ≤ c.freePhys
  free_le_end : c.freePhys ≤ c.blockEnd

/-- **A request that fits.** The capability keeps its block, the free index moves to the end of the
request, and the generator starts at the aligned free index with the whole request as its stride. -/
theorem retype_of_fits {cfg : Config} {k : CapabilityType} {c c' : CapabilityData}
    {gen : CapGenerator} {userSize num size : Nat} (hk : k ≠ .untyped) (hc : c.BlockWF)
    (hsize : k.getObjectSize cfg userSize = .ok size)
    (hfits : c.requestEnd k size num ≤ c.blockEnd)
    (h : c.retype cfg k userSize num = .ok (c', gen)) :
    (c'.getAddress = c.getAddress ∧ c'.blockSize = c.blockSize ∧
      c'.freePhys = c.requestEnd k size num) ∧
    gen = ⟨k, num, toKernelV (roundUp c.freePhys k.align), userSize, num * size,
      toKernelV (c.requestEnd k size num)⟩ := by
  obtain ⟨hdev, size', objectSize, free, start, v, hsize', hobj, -, -, hstart, hgen, hv, rfl⟩ :=
    retype_ok h
  have hend := hc.end_le
  have hfree := hc.free_le_end
  obtain rfl : size = size' := Except.ok.inj (hsize.symm.trans hsize')
  -- device memory cannot be retyped by a system call at all
  have hnd : c.isDevice = false := by
    by_contra hd
    have := hdev (by simpa using hd)
    cases k <;> simp_all [CapabilityType.canBeRetypedFromDeviceMemory]
  -- the arithmetic does not leave the word
  have hreq : c.requestEnd k size num ≤ directMapEnd := hfits.trans hend
  have hdm : directMapEnd + 2 ^ 39 = 2 ^ 47 := by norm_num [directMapEnd]
  have hround : roundUp c.freePhys k.align + num * (num * size) ≤ directMapEnd := hreq
  have hmul : num * size * num = num * (num * size) := Nat.mul_comm _ _
  obtain rfl : objectSize = num * size := by
    by_cases hnum : num = 0
    · subst hnum
      simp only [Nat.zero_mul, Profile.mul, Profile.wrap_of_lt _ (show 0 < 2 ^ 64 by norm_num)]
        at hobj ⊢
      exact (Option.some.inj hobj).symm
    · have : num * size ≤ num * (num * size) := Nat.le_mul_of_pos_left _ (Nat.pos_of_ne_zero hnum)
      rw [Profile.mul, Profile.wrap_of_lt _ (by omega)] at hobj
      exact (Option.some.inj hobj).symm
  rw [getFreeIndex_eq, alignUp_toKernelV _ _ (hfree.trans hend)] at hstart
  obtain rfl := Option.some.inj hstart
  have hgen' : gen = ⟨k, num, toKernelV (roundUp c.freePhys k.align), userSize, num * size,
      toKernelV (c.requestEnd k size num)⟩ := by
    simp only [CapGenerator.new, except_bind_ok, arith_ok, except_pure_ok, Profile.mul,
      Profile.add, hmul, Profile.wrap_of_lt cfg.profile (show num * (num * size) < 2 ^ 64 by omega),
      Option.some.injEq] at hgen
    obtain ⟨total, rfl, stop, hstop, rfl⟩ := hgen
    rw [toKernelV_of_lt (by omega), Profile.wrap_of_lt _ (by rw [kernelVAddrPfx]; omega)] at hstop
    obtain rfl := Option.some.inj hstop
    rw [toKernelV_of_lt (by omega), toKernelV_of_lt (by omega), requestEnd]
    congr 1
    omega
  subst hgen'
  refine ⟨?_, rfl⟩
  have hexp : c.capDepVal.toNat % 64 < 64 := Nat.mod_lt _ (by norm_num)
  rw [blockSize_eq, createCapDepVal_untyped (by omega)] at hv
  obtain rfl := Except.ok.inj hv
  obtain ⟨hf, hb⟩ := packed_fields c (a := c.requestEnd k size num) (by omega) hexp
  simp only [hnd, Bool.false_eq_true, if_false, getAddress_setCapDepVal, true_and]
  exact ⟨hb.trans (blockSize_eq c).symm, hf⟩

end CapabilityData

/-! ## The generator -/

namespace CapGenerator

theorem next_ok {cfg : Config} {g g' : CapGenerator} {cap : CapabilityData}
    (h : g.next cfg = .ok (cap, g')) :
    (∃ v, cap = CapabilityData.new g.k (toPhys g.address) v) ∧
    ∃ address, cfg.profile.add g.address g.objSize = some address ∧
      g' = { g with address, num := g.num - 1 } := by
  simp only [next, except_bind_ok, arith_ok, except_pure_ok, Prod.mk.injEq] at h
  obtain ⟨v, -, address, haddr, rfl, rfl⟩ := h
  exact ⟨⟨_, rfl⟩, address, haddr, rfl⟩

/-- The generator makes its next `n` objects between `a` and `b`. -/
structure Between (g : CapGenerator) (cfg : Config) (n a b : Nat) : Prop where
  address : g.address = toKernelV a
  stop : a + n * g.objSize ≤ b
  direct : b ≤ directMapEnd
  fits : ∀ size, g.k.getObjectSize cfg g.userSize = .ok size → n ≠ 0 → size ≤ g.objSize

theorem Between.next {cfg : Config} {g g' : CapGenerator} {cap : CapabilityData} {n a b : Nat}
    (h : g.Between cfg (n + 1) a b) (hnext : g.next cfg = .ok (cap, g')) :
    cap.getAddress = a ∧ g'.k = g.k ∧ g'.userSize = g.userSize ∧
      g'.Between cfg n (a + g.objSize) b := by
  obtain ⟨⟨v, rfl⟩, address, haddr, rfl⟩ := next_ok hnext
  have hdm : directMapEnd + 2 ^ 39 = 2 ^ 47 := by norm_num [directMapEnd]
  have hb := h.direct
  have hstop := h.stop
  rw [Nat.succ_mul] at hstop
  rw [h.address, toKernelV_of_lt (by omega), Profile.add,
    Profile.wrap_of_lt _ (by rw [kernelVAddrPfx]; omega)] at haddr
  obtain rfl := Option.some.inj haddr
  refine ⟨?_, rfl, rfl, ⟨?_, ?_, hb, fun size hsize _ => h.fits size hsize (Nat.succ_ne_zero n)⟩⟩
  · rw [CapabilityData.getAddress_new, h.address, toPhys_toKernelV_of_lt (by omega),
      Nat.mod_eq_of_lt (by omega)]
  · rw [toKernelV_of_lt (by omega)]
    dsimp only
    omega
  · dsimp only
    omega

/-- The objects of a generator that stays in the direct map: one every `objSize` bytes. -/
theorem getAddress_take {cfg : Config} (n : Nat) {g : CapGenerator} {a : Nat}
    {caps : List CapabilityData} (ha : g.address = toKernelV a)
    (hend : a + n * g.objSize ≤ directMapEnd) (h : g.take cfg n = .ok caps) :
    caps.map CapabilityData.getAddress = (List.range n).map (a + · * g.objSize) := by
  have hdm : directMapEnd + 2 ^ 39 = 2 ^ 47 := by norm_num [directMapEnd]
  induction n generalizing g a caps with
  | zero =>
    obtain rfl := Except.ok.inj h
    rfl
  | succ n ih =>
    simp only [take, except_bind_ok, except_pure_ok, Prod.exists] at h
    obtain ⟨cap, g', hnext, rest, hrest, rfl⟩ := h
    obtain ⟨⟨v, rfl⟩, address, haddr, rfl⟩ := next_ok hnext
    rw [Nat.add_mul, Nat.one_mul] at hend
    rw [ha, toKernelV_of_lt (by omega), Profile.add,
      Profile.wrap_of_lt _ (by rw [kernelVAddrPfx]; omega), Option.some.injEq] at haddr
    have hstep : address = toKernelV (a + g.objSize) := by
      rw [toKernelV_of_lt (by omega)]
      omega
    have htail := ih (g := { g with address, num := g.num - 1 }) hstep
      (by rw [Nat.add_assoc, Nat.add_comm g.objSize]; exact hend) hrest
    have hhead : (CapabilityData.new g.k (toPhys g.address) v).getAddress = a := by
      rw [CapabilityData.getAddress_new, ha, toPhys_toKernelV_of_lt (by omega)]
      omega
    rw [List.map_cons, htail, hhead, List.range_succ_eq_map, List.map_cons, List.map_map]
    congr 1
    · omega
    · refine List.map_congr_left fun i _ => ?_
      simp only [Function.comp_apply, Nat.succ_mul]
      omega

end CapGenerator

/-! ## Sequences of retypes -/

/-- An object: the untyped capability it was made from, and its memory. -/
structure Created (ι : Type) where
  src : ι
  addr : Nat
  size : Nat

/-- The memory of an object. -/
def Created.range {ι : Type} (o : Created ι) : Set Nat := Set.Ico o.addr (o.addr + o.size)

/-- `UntypedRetype` on one of the capabilities. -/
structure Request (ι : Type) where
  src : ι
  k : CapabilityType
  userSize : Nat
  num : Nat

/-- Untyped capabilities, and what has been made from them. -/
structure Pool (ι : Type) where
  untyped : ι → CapabilityData
  created : List (Created ι)

namespace Pool

variable {ι : Type} [DecidableEq ι]

/-- The retype of a request and the iteration over its generator (`retype_and_insert`). -/
def retype (cfg : Config) (P : Pool ι) (r : Request ι) : Except Stop (Pool ι) := do
  let (c, gen) ← (P.untyped r.src).invokeRetype cfg r.userSize r.num r.k
  let caps ← gen.toList cfg
  let size ← r.k.getObjectSize cfg r.userSize
  return {
    untyped := Function.update P.untyped r.src c
    created := P.created ++ caps.map fun cap => ⟨r.src, cap.getAddress, size⟩ }

/-- Disjoint blocks inside the direct map, nothing taken from any of them. -/
structure Initial (P : Pool ι) : Prop where
  created : P.created = []
  free : ∀ i, (P.untyped i).freePhys = (P.untyped i).getAddress
  end_le : ∀ i, (P.untyped i).blockEnd ≤ directMapEnd
  apart : ∀ i j, i ≠ j → Disjoint (P.untyped i).block (P.untyped j).block

/-- Every object is inside the block it was made from, no two objects share memory, and every free
index is inside its block, so that the free bytes are what is left of the block. -/
structure Sound (cfg : Config) (P₀ P : Pool ι) : Prop where
  inside : ∀ o ∈ P.created,
    (P₀.untyped o.src).getAddress ≤ o.addr ∧ o.addr + o.size ≤ (P₀.untyped o.src).blockEnd
  apart : P.created.Pairwise fun a b => Disjoint a.range b.range
  free : ∀ i, (P₀.untyped i).getAddress ≤ toPhys (P.untyped i).getFreeIndex ∧
    toPhys (P.untyped i).getFreeIndex ≤ (P₀.untyped i).blockEnd
  freeBytes : ∀ i, (P.untyped i).getFreeBytes cfg =
    .ok ((P₀.untyped i).blockEnd - toPhys (P.untyped i).getFreeIndex)

/-- The aligned free index plus `num` times the whole request is still inside the block. -/
def Fits (cfg : Config) (P : Pool ι) (r : Request ι) : Prop :=
  ∃ size, r.k.getObjectSize cfg r.userSize = .ok size ∧
    (P.untyped r.src).requestEnd r.k size r.num ≤ (P.untyped r.src).blockEnd

/-- The objects of one request: each takes the memory of the whole request. -/
def newObjects (src : ι) (start size num : Nat) : List (Created ι) :=
  (List.range num).map fun i => ⟨src, start + i * (num * size), size⟩

omit [DecidableEq ι] in
theorem mem_newObjects {src : ι} {start size num : Nat} {o : Created ι}
    (ho : o ∈ newObjects src start size num) :
    o.src = src ∧ start ≤ o.addr ∧ o.addr + o.size ≤ start + num * (num * size) := by
  obtain ⟨i, hi, rfl⟩ := List.mem_map.mp ho
  have hi : i + 1 ≤ num := List.mem_range.mp hi
  have hstride : (i + 1) * (num * size) ≤ num * (num * size) := Nat.mul_le_mul_right _ hi
  have hsize : size ≤ num * size := Nat.le_mul_of_pos_left _ (by omega)
  rw [Nat.succ_mul] at hstride
  exact ⟨rfl, Nat.le_add_right _ _, by dsimp only; omega⟩

omit [DecidableEq ι] in
theorem pairwise_newObjects (src : ι) (start size num : Nat) :
    (newObjects src start size num).Pairwise fun a b => Disjoint a.range b.range := by
  refine List.pairwise_map.mpr ((List.pairwise_lt_range (n := num)).imp_of_mem ?_)
  intro i j _ hj hij
  have hstride : (i + 1) * (num * size) ≤ j * (num * size) := Nat.mul_le_mul_right _ hij
  have hsize : size ≤ num * size :=
    Nat.le_mul_of_pos_left _ (Nat.zero_lt_of_lt (List.mem_range.mp hj))
  rw [Nat.succ_mul] at hstride
  rw [Created.range, Created.range, Set.Ico_disjoint_Ico]
  dsimp only
  omega

/-- A request that fits: the block stays, its free index moves past the new objects. -/
theorem retype_of_fits {cfg : Config} {P P' : Pool ι} {r : Request ι}
    (hwf : (P.untyped r.src).BlockWF) (hfits : P.Fits cfg r) (hr : P.retype cfg r = .ok P') :
    ∃ c start size,
      c.getAddress = (P.untyped r.src).getAddress ∧ c.blockSize = (P.untyped r.src).blockSize ∧
      (P.untyped r.src).freePhys ≤ start ∧ c.freePhys = start + r.num * (r.num * size) ∧
      c.freePhys ≤ (P.untyped r.src).blockEnd ∧
      P' = ⟨Function.update P.untyped r.src c, P.created ++ newObjects r.src start size r.num⟩ := by
  obtain ⟨size, hsize, hend⟩ := hfits
  simp only [retype, except_bind_ok, except_pure_ok, Prod.exists] at hr
  obtain ⟨c, gen, hretype, caps, hcaps, size', hsize', rfl⟩ := hr
  obtain rfl : size = size' := Except.ok.inj (hsize.symm.trans hsize')
  have hk : r.k ≠ .untyped := by
    intro hk
    rw [hk] at hretype
    cases hretype
  rw [CapabilityData.invokeRetype.eq_def] at hretype
  split at hretype
  · exact absurd (by assumption) hk
  obtain ⟨⟨haddr, hblock, hfree⟩, rfl⟩ :=
    CapabilityData.retype_of_fits hk hwf hsize hend hretype
  have halign : 0 < r.k.align := by
    obtain ⟨j, -, hj⟩ := CapabilityData.align_eq_two_pow r.k
    rw [hj]
    positivity
  refine ⟨c, _, size, haddr, hblock, le_roundUp halign, hfree, hfree ▸ hend, ?_⟩
  have hnew := CapGenerator.getAddress_take r.num rfl (hend.trans hwf.end_le) hcaps
  have hmap := congrArg (List.map fun a => (⟨r.src, a, size⟩ : Created ι)) hnew
  rw [List.map_map, List.map_map] at hmap
  exact congrArg (fun l => (⟨Function.update P.untyped r.src c, P.created ++ l⟩ : Pool ι)) hmap

/-- The invariant behind `Sound`: objects end below the free index of their block. -/
structure Inv (P₀ P : Pool ι) : Prop where
  address : ∀ i, (P.untyped i).getAddress = (P₀.untyped i).getAddress
  blockSize : ∀ i, (P.untyped i).blockSize = (P₀.untyped i).blockSize
  wf : ∀ i, (P.untyped i).BlockWF
  inside : ∀ o ∈ P.created,
    (P₀.untyped o.src).getAddress ≤ o.addr ∧ o.addr + o.size ≤ (P.untyped o.src).freePhys
  apart : P.created.Pairwise fun a b => Disjoint a.range b.range

omit [DecidableEq ι] in
theorem Initial.inv {P : Pool ι} (h : P.Initial) : Inv P P where
  address _ := rfl
  blockSize _ := rfl
  wf i := ⟨h.end_le i, (h.free i).ge, (h.free i).le.trans (Nat.le_add_right _ _)⟩
  inside o ho := by simp [h.created] at ho
  apart := by simp [h.created]

namespace Inv

variable {cfg : Config} {P₀ P P' : Pool ι} {r : Request ι}

omit [DecidableEq ι] in
theorem blockEnd (h : Inv P₀ P) (i : ι) : (P.untyped i).blockEnd = (P₀.untyped i).blockEnd := by
  rw [CapabilityData.blockEnd, CapabilityData.blockEnd, h.address, h.blockSize]

omit [DecidableEq ι] in
theorem freePhys_lt (h : Inv P₀ P) (i : ι) : (P.untyped i).freePhys < 2 ^ 47 := by
  have hle := (h.wf i).free_le_end.trans (h.wf i).end_le
  rw [directMapEnd] at hle
  omega

omit [DecidableEq ι] in
theorem toPhys_getFreeIndex (h : Inv P₀ P) (i : ι) :
    toPhys (P.untyped i).getFreeIndex = (P.untyped i).freePhys :=
  toPhys_toKernelV_of_lt (h.freePhys_lt i)

omit [DecidableEq ι] in
/-- The subtraction of `get_free_bytes` does not underflow. -/
theorem getFreeBytes (h : Inv P₀ P) (cfg : Config) (i : ι) :
    (P.untyped i).getFreeBytes cfg =
      .ok ((P.untyped i).blockEnd - (P.untyped i).freePhys) := by
  have hend := (h.wf i).end_le
  have hfree := (h.wf i).free_le_end
  have hlt := h.freePhys_lt i
  rw [CapabilityData.blockEnd] at hend hfree ⊢
  rw [directMapEnd] at hend
  have hsub : (P.untyped i).getAddress + kernelVAddrPfx + (P.untyped i).blockSize -
      ((P.untyped i).freePhys + kernelVAddrPfx) =
      (P.untyped i).getAddress + (P.untyped i).blockSize - (P.untyped i).freePhys := by
    omega
  rw [CapabilityData.getFreeBytes, CapabilityData.getFreeIndex_eq, toKernelV_of_lt hlt,
    toKernelV_of_lt (by omega), Profile.add, Profile.wrap_of_lt _ (by rw [kernelVAddrPfx]; omega),
    arith_some, except_ok_bind, Profile.sub_of_le _ (by omega), arith_some, hsub]

omit [DecidableEq ι] in
theorem sound (h : Inv P₀ P) (cfg : Config) : Sound cfg P₀ P where
  inside o ho := by
    obtain ⟨hlo, hhi⟩ := h.inside o ho
    exact ⟨hlo, hhi.trans ((h.wf _).free_le_end.trans (h.blockEnd _).le)⟩
  apart := h.apart
  free i := by
    rw [h.toPhys_getFreeIndex, ← h.address, ← h.blockEnd]
    exact ⟨(h.wf i).base_le_free, (h.wf i).free_le_end⟩
  freeBytes i := by rw [h.getFreeBytes cfg, h.toPhys_getFreeIndex, h.blockEnd]

omit [DecidableEq ι] in
/-- Objects of different blocks share no memory. -/
theorem disjoint_of_src_ne (h : Inv P₀ P) (h₀ : P₀.Initial) {a b : Created ι}
    (hsrc : a.src ≠ b.src)
    (ha : (P₀.untyped a.src).getAddress ≤ a.addr ∧ a.addr + a.size ≤ (P.untyped a.src).blockEnd)
    (hb : (P₀.untyped b.src).getAddress ≤ b.addr ∧ b.addr + b.size ≤ (P.untyped b.src).blockEnd) :
    Disjoint a.range b.range := by
  rw [h.blockEnd] at ha hb
  exact (h₀.apart _ _ hsrc).mono (Set.Ico_subset_Ico ha.1 ha.2) (Set.Ico_subset_Ico hb.1 hb.2)

/-- One retype whose request fits. -/
theorem step (h : Inv P₀ P) (h₀ : P₀.Initial) (hfits : P.Fits cfg r)
    (hr : P.retype cfg r = .ok P') : Inv P₀ P' := by
  obtain ⟨c, start, size, haddr, hblock, hstart, hfree, hend, rfl⟩ :=
    retype_of_fits (h.wf r.src) hfits hr
  have hwf := h.wf r.src
  have hblockEnd : c.blockEnd = (P.untyped r.src).blockEnd := by
    rw [CapabilityData.blockEnd, CapabilityData.blockEnd, haddr, hblock]
  have hgrow : (P.untyped r.src).freePhys ≤ c.freePhys := by omega
  refine ⟨?_, ?_, ?_, fun o ho => ?_, ?_⟩
  · exact (Function.forall_update_iff P.untyped
      fun i c => c.getAddress = (P₀.untyped i).getAddress).mpr
      ⟨haddr.trans (h.address _), fun i _ => h.address i⟩
  · exact (Function.forall_update_iff P.untyped
      fun i c => c.blockSize = (P₀.untyped i).blockSize).mpr
      ⟨hblock.trans (h.blockSize _), fun i _ => h.blockSize i⟩
  · refine (Function.forall_update_iff P.untyped fun _ c => c.BlockWF).mpr
      ⟨⟨?_, ?_, ?_⟩, fun i _ => h.wf i⟩
    · exact hblockEnd.le.trans hwf.end_le
    · exact haddr.le.trans (hwf.base_le_free.trans hgrow)
    · exact hend.trans hblockEnd.ge
  · rcases List.mem_append.mp ho with ho | ho
    · obtain ⟨hlo, hhi⟩ := h.inside o ho
      refine ⟨hlo, hhi.trans ?_⟩
      dsimp only
      by_cases hi : o.src = r.src
      · rw [hi, Function.update_self]
        exact hgrow
      · rw [Function.update_of_ne hi]
    · obtain ⟨hsrc, hlo, hhi⟩ := mem_newObjects ho
      dsimp only
      rw [hsrc, Function.update_self, hfree, ← h.address]
      exact ⟨hwf.base_le_free.trans (hstart.trans hlo), hhi⟩
  · refine List.pairwise_append.mpr ⟨h.apart, pairwise_newObjects .., fun a ha b hb => ?_⟩
    obtain ⟨hlo, hhi⟩ := h.inside a ha
    obtain ⟨hsrc, hlo', hhi'⟩ := mem_newObjects hb
    rw [← hfree] at hhi'
    by_cases hi : a.src = r.src
    · rw [hi] at hhi
      rw [Created.range, Created.range, Set.Ico_disjoint_Ico]
      omega
    · refine h.disjoint_of_src_ne h₀ (by rwa [hsrc]) ⟨hlo, hhi.trans (h.wf _).free_le_end⟩ ?_
      rw [hsrc, ← h.address]
      exact ⟨hwf.base_le_free.trans (hstart.trans hlo'), hhi'.trans hend⟩

end Inv

/-- **Retyping is memory safe while the requests fit.** In every run of retypes each of which leaves
its aligned free index plus `num * (num * size)` inside the block, every state reached is sound. -/
theorem sound_of_fitting_run {cfg : Config} {P₀ P : Pool ι} (h₀ : P₀.Initial)
    (run : Relation.ReflTransGen
      (fun P P' => ∃ r, P.Fits cfg r ∧ P.retype cfg r = .ok P') P₀ P) :
    Sound cfg P₀ P := by
  have hinv : Inv P₀ P := run_invariant run h₀.inv fun P P' hP hstep => by
    obtain ⟨r, hfits, hr⟩ := hstep
    exact hP.step h₀ hfits hr
  exact hinv.sound cfg

/-- One untyped capability for the `2 ^ bits` bytes at `a`, nothing taken from it. -/
def single (a bits : Nat) : Pool Unit where
  untyped _ := CapabilityData.new .untyped a (UInt64.ofNat (a * 2 ^ 16 ||| bits))
  created := []

theorem initial_single {a bits : Nat} (ha : a < 2 ^ 47) (hbits : bits < 64)
    (hend : a + 2 ^ bits ≤ directMapEnd) : (single a bits).Initial := by
  obtain ⟨hfree, hblock⟩ :=
    CapabilityData.packed_fields (CapabilityData.new .untyped a 0) ha hbits
  have haddr : ∀ v, (CapabilityData.new .untyped a v).getAddress = a := fun v => by
    rw [CapabilityData.getAddress_new]
    omega
  refine ⟨rfl, fun _ => hfree.trans (haddr _).symm, fun _ => ?_, fun i j hij => ?_⟩
  · exact (congrArg₂ (· + ·) (haddr _) hblock).le.trans hend
  · exact absurd (Subsingleton.elim i j) hij

/-- Two pages from a block of four: they fit. -/
theorem sound_two_pages : ∃ P, (single 0x80000000 14).retype .virt ⟨(), .page, 0, 2⟩ = .ok P ∧
    Sound .virt (single 0x80000000 14) P := by
  obtain ⟨P, hP, -⟩ := exists_of_okAnd
    (show okAnd ((single 0x80000000 14).retype .virt ⟨(), .page, 0, 2⟩) (fun _ => true) = true by
      decide +kernel)
  have hinit : (single 0x80000000 14).Initial :=
    initial_single (by norm_num) (by norm_num) (by norm_num [directMapEnd])
  exact ⟨P, hP, sound_of_fitting_run hinit (.single ⟨_, ⟨4096, rfl, by decide +kernel⟩, hP⟩)⟩

/-- Three pages from a block of four, which the check of the free bytes accepts: the second page is
the last of the block, the third lies outside. -/
theorem not_sound_three_pages :
    ∃ P, (single 0x80000000 14).retype .virt ⟨(), .page, 0, 3⟩ = .ok P ∧
      ¬ Sound .virt (single 0x80000000 14) P := by
  obtain ⟨P, hP, hfree⟩ := exists_of_okAnd
    (show okAnd ((single 0x80000000 14).retype .virt ⟨(), .page, 0, 3⟩) (fun P =>
      ((single 0x80000000 14).untyped ()).blockEnd < toPhys (P.untyped ()).getFreeIndex) = true by
      decide +kernel)
  exact ⟨P, hP, fun h => absurd (h.free ()).2 (by simpa using hfree)⟩

end Pool

end Zoeax
