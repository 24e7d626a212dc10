import Mathlib.Algebra.BigOperators.Ring.List
import Zoeax.Kernel.Init
import Zoeax.Lib.Blocks
import Zoeax.Verify.Retype

/-!
# The untyped memory at boot

`UntypedCapGenerator` turns the memory that boot has left over into untyped capabilities. It cuts
the range into blocks (`Lib.blocks`): `untypedList` has the capabilities for a list of blocks, and
`Yields` says what the iteration returns.

- `Ranges.yields`: the iteration ends, and returns the capabilities of the blocks;
- `partition_of_range`: what these are, and that the loop of `create_initial_thread` over them does
  not run out of entries of the boot information.
-/

namespace Zoeax

open Lib

variable {cfg : Config}

/-! ## Capabilities for blocks -/

/-- The untyped capability for the block of size `2 ^ k` at the physical address `a`. -/
def CapabilityData.untypedAt (a k : Nat) : CapabilityData :=
  .new .untyped a (UInt64.ofNat (a <<< 16 ||| k))

namespace CapabilityData

variable {a k : Nat}

theorem toNat_untypedAt (ha : a < 2 ^ 47) (hk : k < 64) :
    (untypedAt a k).capDepVal.toNat = a * 2 ^ 16 + k := by
  have hor : a <<< 16 ||| k = a * 2 ^ 16 + k := by
    rw [← Nat.shiftLeft_add_eq_or_of_lt (by omega), Nat.shiftLeft_eq]
  change (UInt64.ofNat (a <<< 16 ||| k)).toNat = _
  rw [hor, UInt64.toNat_ofNat', Nat.mod_eq_of_lt (by omega)]

theorem blockSize_untypedAt (ha : a < 2 ^ 47) (hk : k < 64) :
    (untypedAt a k).blockSize = 2 ^ k := by
  rw [blockSize_eq, toNat_untypedAt ha hk]
  congr 1
  omega

theorem isDevice_untypedAt (ha : a < 2 ^ 47) (hk : k < 64) : (untypedAt a k).isDevice = false := by
  rw [isDevice, toNat_untypedAt ha hk, Nat.testBit_eq_decide_div_mod_eq]
  exact decide_eq_false (by omega)

theorem getAddress_untypedAt (ha : a < 2 ^ 47) : (untypedAt a k).getAddress = a := by
  rw [untypedAt, getAddress_new, Nat.mod_eq_of_lt (by omega)]

theorem getFreeIndex_untypedAt (ha : a < 2 ^ 47) (hk : k < 64) :
    (untypedAt a k).getFreeIndex = toKernelV a := by
  rw [getFreeIndex, toNat_untypedAt ha hk, Nat.shiftRight_eq_div_pow]
  congr 1
  omega

end CapabilityData

open CapabilityData (untypedAt)

/-- The capabilities for a row of blocks from the address `a` on, with slot numbers from `i` on. -/
def untypedList : Nat → Nat → List Nat → List (Nat × CapabilityData)
  | _, _, [] => []
  | a, i, size :: sizes => (i, untypedAt a size.log2) :: untypedList (a + size) (i + 1) sizes

theorem length_untypedList (sizes : List Nat) (a i : Nat) :
    (untypedList a i sizes).length = sizes.length := by
  induction sizes generalizing a i with
  | nil => rfl
  | cons size sizes ih => exact congrArg (· + 1) (ih _ _)

/-- Every block starts where the ones before it end. -/
theorem getElem?_untypedList (sizes : List Nat) (a i j : Nat) :
    (untypedList a i sizes)[j]? = (sizes[j]?).map fun size =>
      (i + j, untypedAt (a + (sizes.take j).sum) size.log2) := by
  induction sizes generalizing a i j with
  | nil => rfl
  | cons size sizes ih =>
    cases j with
    | zero => rfl
    | succ j =>
      rw [untypedList, List.getElem?_cons_succ, ih, List.getElem?_cons_succ, List.take_succ_cons,
        List.sum_cons, Nat.add_assoc a, Nat.add_right_comm i, Nat.add_assoc i]

/-! ## The iteration -/

namespace UntypedCapGenerator

/-- The iteration ends, and returns a list. -/
inductive Yields (cfg : Config) : UntypedCapGenerator → List (Nat × CapabilityData) → Prop
  | done {g : UntypedCapGenerator} : g.next cfg = .ok none → Yields cfg g []
  | more {g g' : UntypedCapGenerator} {idx : Nat} {cap : CapabilityData}
      {l : List (Nat × CapabilityData)} :
      g.next cfg = .ok (some (idx, cap, g')) → Yields cfg g' l → Yields cfg g ((idx, cap) :: l)

/-- The generator has the range from `a` to `b` before it, in the direct map. -/
structure Ranges (g : UntypedCapGenerator) (a b : Nat) : Prop where
  start : g.startAddress = toKernelV a
  stop : g.endAddress = toKernelV b
  le : a ≤ b
  direct : b ≤ directMapEnd

namespace Ranges

variable {g : UntypedCapGenerator} {a b : Nat}

theorem startAddress_eq (h : g.Ranges a b) : g.startAddress = a + kernelVAddrPfx := by
  have hle := h.le
  have hdirect := h.direct
  rw [directMapEnd] at hdirect
  rw [h.start, toKernelV_of_lt (by omega)]

theorem endAddress_eq (h : g.Ranges a b) : g.endAddress = b + kernelVAddrPfx := by
  have hdirect := h.direct
  rw [directMapEnd] at hdirect
  rw [h.stop, toKernelV_of_lt (by omega)]

theorem bound_eq (h : g.Ranges a b) :
    arith (cfg.profile.add g.startAddress 4096) = .ok (a + kernelVAddrPfx + 4096) := by
  have hle := h.le
  have hdirect := h.direct
  rw [directMapEnd] at hdirect
  rw [Profile.add, h.startAddress_eq, Profile.wrap_of_lt _ (by rw [kernelVAddrPfx]; omega)]
  rfl

theorem next_of_le (h : g.Ranges a b) (hle : b - a ≤ 4096) : g.next cfg = .ok none := by
  rw [UntypedCapGenerator.next, h.bound_eq, except_ok_bind, h.endAddress_eq, if_pos (by omega)]
  rfl

/-- The capability of the next block is made from the length of the whole range. -/
theorem init_eq (h : g.Ranges a b) (hlt : 4096 < b - a) :
    CapabilityData.init .untyped g.startAddress (b - a) = .ok (untypedAt a (b - a).log2) := by
  have hdirect := h.direct
  rw [directMapEnd] at hdirect
  rw [CapabilityData.init, CapabilityType.createCapDepVal, if_neg (by omega), except_ok_bind,
    h.start, toPhys_toKernelV_of_lt (by omega), Nat.mod_eq_of_lt (by rw [Nat.shiftLeft_eq]; omega)]
  rfl

theorem next_of_lt (h : g.Ranges a b) (hlt : 4096 < b - a) (hidx : g.idxStart ≤ g.idxMax) :
    g.next cfg = .ok (some (g.idxStart, untypedAt a (b - a).log2,
      { g with
        startAddress := toKernelV (a + 2 ^ (b - a).log2), idxStart := g.idxStart + 1 })) := by
  have hdirect := h.direct
  rw [directMapEnd] at hdirect
  have hfit := two_pow_log2_le hlt
  have hlog : (b - a).log2 < 64 := (Nat.log2_lt (by omega)).2 (by omega)
  have hreq : require (decide (g.idxStart ≤ g.idxMax)) panicked = .ok () :=
    require_ok.2 (decide_eq_true hidx)
  have hsub : arith (cfg.profile.sub g.endAddress g.startAddress) = .ok (b - a) := by
    rw [h.endAddress_eq, h.startAddress_eq, Profile.sub_of_le _ (by omega), Nat.add_sub_add_right]
    rfl
  have hadd : arith (cfg.profile.add g.startAddress (untypedAt a (b - a).log2).blockSize) =
      .ok (toKernelV (a + 2 ^ (b - a).log2)) := by
    rw [CapabilityData.blockSize_untypedAt (by omega) hlog, Profile.add, h.startAddress_eq,
      Profile.wrap_of_lt _ (by rw [kernelVAddrPfx]; omega), toKernelV_of_lt (by omega),
      Nat.add_right_comm]
    rfl
  rw [UntypedCapGenerator.next, h.bound_eq, except_ok_bind, h.endAddress_eq, if_neg (by omega),
    ← h.endAddress_eq, hreq, except_ok_bind, hsub, except_ok_bind,
    h.init_eq hlt, except_ok_bind, hadd, except_ok_bind]
  rfl

/-- **The iteration** returns the capabilities of the blocks, one after the other. -/
theorem yields {g : UntypedCapGenerator} (h : g.Ranges a b)
    (hidx : g.idxStart + (blocks 4096 (b - a)).length ≤ g.idxMax + 1) :
    Yields cfg g (untypedList a g.idxStart (blocks 4096 (b - a))) := by
  induction hn : b - a using Nat.strong_induction_on generalizing a g with
  | _ n ih =>
    subst hn
    rcases le_or_gt (b - a) 4096 with hle | hlt
    · rw [blocks_of_le hle]
      exact .done (h.next_of_le hle)
    · have hfit := two_pow_log2_le hlt
      have hpos := Nat.two_pow_pos (b - a).log2
      have hrest : b - (a + 2 ^ (b - a).log2) = b - a - 2 ^ (b - a).log2 := by omega
      rw [blocks_of_lt hlt, List.length_cons] at hidx
      rw [blocks_of_lt hlt, untypedList, Nat.log2_two_pow, ← hrest]
      refine .more (h.next_of_lt hlt (by omega))
        (ih _ (by omega) ⟨rfl, h.stop, ?_, h.direct⟩ ?_ rfl)
      · have := h.le
        omega
      · dsimp only
        rw [hrest]
        omega

end Ranges

end UntypedCapGenerator

/-- The loop of `create_initial_thread` over the capabilities, without the assertion on their
number. -/
def insertListed (cfg : Config) (cnodeCap : CapabilityData) :
    List (Nat × CapabilityData) → BootInfo → KM BootInfo
  | [], info => return info
  | (idx, cap) :: l, info => do
    unwrap (cnodeCap.writeSlot cfg cap idx)
    insertListed cfg cnodeCap l
      { info with
        untypedInfos := info.untypedInfos ++ [⟨cap.blockSize, idx, false⟩]
        untypedNum := info.untypedNum + 1
        firtstEmptyIdx := idx + 1 }

/-- The assertion does not fail when there is room for all capabilities. -/
theorem UntypedCapGenerator.Yields.insertUntyped {g : UntypedCapGenerator}
    {l : List (Nat × CapabilityData)} (h : g.Yields cfg l) {n : Nat} (hn : l.length ≤ n)
    (cnodeCap : CapabilityData) (info : BootInfo) :
    insertUntyped cfg cnodeCap n g info = insertListed cfg cnodeCap l info := by
  induction h generalizing n info with
  | done hnext =>
    cases n with
    | zero =>
      rw [Zoeax.insertUntyped, hnext]
      rfl
    | succ n =>
      rw [Zoeax.insertUntyped, hnext]
      rfl
  | @more _ _ idx cap _ hnext _ ih =>
    cases n with
    | zero => exact absurd hn (Nat.not_succ_le_zero _)
    | succ n =>
      rw [Zoeax.insertUntyped, insertListed, hnext]
      exact congrArg (fun k => unwrap (cnodeCap.writeSlot cfg cap idx) >>= k)
        (funext fun _ => ih (Nat.le_of_succ_le_succ hn) _)

/-! ## The partition -/

/-- The capabilities in `l`, with their slot numbers from `idx` on, stand for a partition of the
physical memory from `a` to `b`. -/
structure Partition (a b idx : Nat) (l : List (Nat × CapabilityData)) : Prop where
  length_le : l.length ≤ 32
  index : ∀ j r, l[j]? = some r → r.1 = idx + j
  /-- Every block starts where the ones before it end. -/
  address : ∀ j r, l[j]? = some r →
    r.2.getAddress = a + ((l.take j).map (·.2.blockSize)).sum
  size : ∀ r ∈ l, ∃ k ≥ 12, r.2.blockSize = 2 ^ k
  aligned : ∀ r ∈ l, pageSize ∣ r.2.getAddress
  decreasing : l.Pairwise fun r r' => r'.2.blockSize < r.2.blockSize
  inside : ∀ r ∈ l, a ≤ r.2.getAddress ∧ r.2.getAddress + r.2.blockSize ≤ b
  fresh : ∀ r ∈ l, r.2.getCapType = .ok .untyped ∧ r.2.getFreeIndex = toKernelV r.2.getAddress ∧
    r.2.isDevice = false
  covered : b ≤ a + (l.map (·.2.blockSize)).sum + 4096

/-- The sizes of the capabilities for a row of blocks. -/
theorem map_blockSize_untypedList (sizes : List Nat) (a i : Nat)
    (hsizes : ∀ size ∈ sizes, ∃ k < 64, size = 2 ^ k) (ha : a + sizes.sum < 2 ^ 47) :
    (untypedList a i sizes).map (·.2.blockSize) = sizes := by
  induction sizes generalizing a i with
  | nil => rfl
  | cons size sizes ih =>
    obtain ⟨k, hk, rfl⟩ := hsizes size (.head _)
    have hpos := Nat.two_pow_pos k
    rw [List.sum_cons] at ha
    rw [untypedList, List.map_cons, ih _ _ (fun b hb => hsizes b (.tail _ hb)) (by omega),
      Nat.log2_two_pow, CapabilityData.blockSize_untypedAt (by omega) hk]

theorem sum_take_add_le {sizes : List Nat} {j size : Nat} (h : sizes[j]? = some size) :
    (sizes.take j).sum + size ≤ sizes.sum := by
  induction sizes generalizing j with
  | nil => cases h
  | cons first sizes ih =>
    cases j with
    | zero =>
      obtain rfl : first = size := Option.some.inj h
      rw [List.take_zero, List.sum_nil, List.sum_cons]
      omega
    | succ j =>
      have := ih h
      rw [List.take_succ_cons, List.sum_cons, List.sum_cons]
      omega

section

variable {a b idx : Nat} (ha : pageSize ∣ a) (hb : pageSize ∣ b) (hle : a ≤ b)
  (hsize : b - a < 2 ^ 44) (hdirect : b ≤ directMapEnd)

include ha hb hsize in
theorem pow_of_mem_blocks {size : Nat} (hmem : size ∈ blocks 4096 (b - a)) :
    ∃ k ≥ 12, k < 64 ∧ size = 2 ^ k := by
  have hdvd : 2 ^ 12 ∣ b - a := Nat.dvd_sub hb ha
  obtain ⟨k, hk, rfl⟩ := exists_of_mem_blocks hdvd hmem
  refine ⟨k, hk, ?_, rfl⟩
  have hlt := (le_of_mem_blocks hmem).trans_lt hsize
  have := (Nat.pow_lt_pow_iff_right (by decide)).1 hlt
  omega

include ha hb hle hsize hdirect

/-- Every capability has the number, the address, the size and the marks of its block. -/
theorem untypedList_block {j : Nat} {r : Nat × CapabilityData}
    (h : (untypedList a idx (blocks 4096 (b - a)))[j]? = some r) :
    r.1 = idx + j ∧ r.2.getAddress = a + ((blocks 4096 (b - a)).take j).sum ∧
      (∃ k ≥ 12, r.2.blockSize = 2 ^ k) ∧ r.2.getAddress + r.2.blockSize ≤ b ∧
      r.2.getCapType = .ok .untyped ∧ r.2.getFreeIndex = toKernelV r.2.getAddress ∧
      r.2.isDevice = false := by
  rw [getElem?_untypedList] at h
  obtain ⟨size, hj, rfl⟩ := Option.map_eq_some_iff.1 h
  obtain ⟨k, hk, hlt, rfl⟩ := pow_of_mem_blocks ha hb hsize (List.mem_of_getElem? hj)
  have hin := (sum_take_add_le hj).trans (sum_blocks_le 4096 (b - a))
  have hpos := Nat.two_pow_pos k
  rw [directMapEnd] at hdirect
  have haddr : a + ((blocks 4096 (b - a)).take j).sum < 2 ^ 47 := by omega
  dsimp only
  rw [Nat.log2_two_pow, CapabilityData.getAddress_untypedAt haddr,
    CapabilityData.blockSize_untypedAt haddr hlt, CapabilityData.getFreeIndex_untypedAt haddr hlt,
    CapabilityData.isDevice_untypedAt haddr hlt]
  exact ⟨rfl, rfl, ⟨k, hk, rfl⟩, by omega, CapabilityData.getCapType_new .., rfl, rfl⟩

theorem partition_untypedList : Partition a b idx (untypedList a idx (blocks 4096 (b - a))) := by
  have hsum := sum_blocks_le 4096 (b - a)
  have hmap := map_blockSize_untypedList (blocks 4096 (b - a)) a idx
    (fun size hmem => by
      obtain ⟨k, -, hk, rfl⟩ := pow_of_mem_blocks ha hb hsize hmem
      exact ⟨k, hk, rfl⟩) (by rw [directMapEnd] at hdirect; omega)
  have hcap := @untypedList_block a b idx ha hb hle hsize hdirect
  have hmem : ∀ {P : Nat × CapabilityData → Prop},
      (∀ j r, (untypedList a idx (blocks 4096 (b - a)))[j]? = some r → P r) →
      ∀ r ∈ untypedList a idx (blocks 4096 (b - a)), P r := fun hP r hr => by
    obtain ⟨j, hj⟩ := List.mem_iff_getElem?.1 hr
    exact hP j r hj
  refine ⟨?_, fun j r h => (hcap h).1, fun j r h => ?_, hmem fun j r h => (hcap h).2.2.1,
    hmem fun j r h => ?_, ?_, hmem fun j r h => ?_, hmem fun j r h => ?_, ?_⟩
  · have hdvd : 2 ^ 12 ∣ b - a := Nat.dvd_sub hb ha
    rw [length_untypedList]
    exact length_blocks_le hdvd hsize
  · rw [List.map_take, hmap]
    exact (hcap h).2.1
  · rw [(hcap h).2.1]
    refine Nat.dvd_add ha (List.dvd_sum fun size hmem => ?_)
    obtain ⟨k, hk, -, rfl⟩ := pow_of_mem_blocks ha hb hsize (List.mem_of_mem_take hmem)
    exact pow_dvd_pow 2 hk
  · have hpair := pairwise_blocks 4096 (b - a)
    rw [← hmap] at hpair
    exact List.pairwise_map.1 hpair
  · obtain ⟨-, haddr, -, hin, -⟩ := hcap h
    exact ⟨by omega, hin⟩
  · exact (hcap h).2.2.2.2
  · have := le_sum_blocks 4096 (b - a)
    rw [hmap]
    omega

end

/-- **The untyped memory at boot**: the iteration over a range of the direct map ends with a
partition of the range into at most 32 blocks, and the loop over them passes its assertion. -/
theorem partition_of_range {g : UntypedCapGenerator} {a b : Nat}
    (hstart : g.startAddress = toKernelV a) (hend : g.endAddress = toKernelV b)
    (ha : pageSize ∣ a) (hb : pageSize ∣ b) (hlt : a < b) (hsize : b - a < 2 ^ 44)
    (hdirect : b ≤ directMapEnd) (hidx : g.idxStart + 32 ≤ g.idxMax + 1) :
    ∃ l, g.Yields cfg l ∧ Partition a b g.idxStart l ∧ ∀ cnodeCap info,
      insertUntyped cfg cnodeCap 32 g info = insertListed cfg cnodeCap l info := by
  have hrange : g.Ranges a b := ⟨hstart, hend, hlt.le, hdirect⟩
  have hpart : Partition a b g.idxStart _ := partition_untypedList ha hb hlt.le hsize hdirect
  have hlength := hpart.length_le
  rw [length_untypedList] at hlength
  have hyields : g.Yields cfg _ := hrange.yields (by omega)
  exact ⟨_, hyields, hpart,
    fun cnodeCap info => hyields.insertUntyped hpart.length_le cnodeCap info⟩

/-- The 128 MiB of the virtual machine. -/
theorem partition_virt : ∃ l,
    UntypedCapGenerator.Yields .virt ⟨toKernelV 0x80400000, toKernelV 0x88000000, 9, 100⟩ l ∧
    Partition 0x80400000 0x88000000 9 l ∧ ∀ cnodeCap info,
      insertUntyped .virt cnodeCap 32 ⟨toKernelV 0x80400000, toKernelV 0x88000000, 9, 100⟩ info =
        insertListed .virt cnodeCap l info :=
  partition_of_range (g := ⟨toKernelV 0x80400000, toKernelV 0x88000000, 9, 100⟩) rfl rfl
    (by decide) (by decide) (by decide) (by decide) (by decide) (by decide)

end Zoeax
