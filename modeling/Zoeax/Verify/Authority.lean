import Zoeax.Verify.Guards
import Zoeax.Verify.Heap

/-!
# Authority of CNode and page table capabilities

The word `cap_dep_val` of a CNode capability is its radix; in that of a page table capability, bit
49 says that the table is a root. Both decide what the holder can do: the radix how many slots a
lookup can reach, the bit whether `satp` may point to the table.

`CNodeMint` writes the caller's value into the word, for these types too. `confined_of_run`: as long
as it does not change the radix and does not set the bit on other tables, every CNode capability has
the radix of its CNode, lookups stay in its memory, and only roots have the bit. The run meets the
other conditions of `Verify/Guards.lean`, too: the memory of a CNode is not cleared when it is made,
and what a retype lays over another CNode would be read as capabilities. `unconfined_after_mint`:
after one `CNodeMint` the root server has a capability for its root CNode with four times as many
slots as the CNode has.
-/

namespace Zoeax

open Lib Exec
open CapabilityType (entrySize)

/-- A CNode capability has the radix of a CNode at its address, and a page table capability is
marked as a root only if the table was made one. -/
def Confined : CapProp := fun objects rooted c =>
  (c.getCapType = .ok .cNode → ∃ o ∈ objects,
    o.kind = .cNode ∧ o.addr = c.getAddress ∧ o.userSize = c.radix) ∧
  (c.getCapType = .ok .pageTable → c.isRoot = true → c.getFrame ∈ rooted)

theorem isRoot_setMapped (c : CapabilityData) (v : Nat) : (c.setMapped v).isRoot = c.isRoot := by
  have hmask : (0xffffffffffff : Nat) = 2 ^ 48 - 1 := by decide
  have hbit : (UInt64.ofNat ((1 <<< 48) ||| (v &&& 0xffffffffffff))).toNat.testBit 49 = false := by
    rw [UInt64.toNat_ofNat', Nat.testBit_mod_two_pow, hmask, Nat.testBit_or, Nat.testBit_and,
      Nat.testBit_two_pow_sub_one, show (1 <<< 48 : Nat).testBit 49 = false by decide]
    simp
  rw [CapabilityData.isRoot, CapabilityData.setMapped, CapabilityData.setCapDepVal, UInt64.toNat_or,
    Nat.testBit_or, hbit, Bool.or_false, CapabilityData.isRoot]

theorem confined_capRule : CapRule Confined where
  mono hobj hroot hc := by
    refine ⟨fun hk => ?_, fun hk hr => hroot (hc.2 hk hr)⟩
    obtain ⟨o, ho, h⟩ := hc.1 hk
    exact ⟨o, hobj ho, h⟩
  untyped hu := ⟨fun hk => by simp [hu] at hk, fun hk => by simp [hu] at hk⟩
  fresh ho hc := by
    refine ⟨fun hk => ⟨_, ho, ?_, hc.address.symm, ?_⟩, fun hk hr => ?_⟩
    · exact Except.ok.inj (hc.capType.symm.trans hk)
    · exact (hc.radix (Except.ok.inj (hc.capType.symm.trans hk))).symm
    · rw [hc.notRoot (Except.ok.inj (hc.capType.symm.trans hk))] at hr
      cases hr
  retag _ hc ht _ := ⟨fun hk => absurd hk hc, fun hk => absurd hk ht⟩
  mapped v hk hc := ⟨fun hk' => by simp [CapabilityData.setMapped, hk] at hk',
    fun _ hr => hc.2 hk ((isRoot_setMapped ..).symm.trans hr)⟩
  root v hk hroot _ :=
    ⟨fun hk' => by simp [CapabilityData.setRoot, CapabilityData.setMapped, hk] at hk',
      fun _ _ => hroot⟩

variable {cfg : Config} {s : KState}

theorem MintConfined.keeps {invLabel : InvLabel} {reg : Registers} {u : KState} {inv : Invocation}
    (h : MintConfined cfg invLabel reg u inv) : MintKeeps cfg Confined invLabel reg u inv := by
  intro hl hk slot c hlook hc hP
  obtain ⟨hradix, hroot⟩ := h hl hk slot hlook c hc
  refine ⟨fun hk => ?_, fun hk hr => hroot hk hr⟩
  obtain ⟨o, ho, hkind, haddr, hsize⟩ := hP.1 hk
  exact ⟨o, ho, hkind, haddr, hsize.trans (hradix hk).symm⟩

/-- The slot that one level of a lookup computes. -/
theorem lookupStep_ok {c : CapabilityData} {capptr depthBits p rem : Nat}
    (h : c.lookupStep cfg capptr depthBits = .ok (p, rem)) :
    2 ^ c.radix * entrySize < 2 ^ 63 ∧
      ∃ i < 2 ^ c.radix, p = toKernelV c.getAddress + entrySize * i := by
  simp only [CapabilityData.lookupStep, CapabilityData.capacity, checkSlice, except_bind_ok,
    arith_ok, require_ok, decide_eq_true_eq, except_pure_ok, Prod.mk.injEq] at h
  obtain ⟨-, -, cap, hcap, -, hlen, shifted, -, top, -, mask, -, -, hoff, rfl, -⟩ := h
  have hcap' := Profile.wrap_eq_mod hcap
  -- a capacity that does not fit is zero, and then there is no slot
  have hradix : c.radix < 64 := by
    by_contra hge
    have : 2 ^ 64 ∣ 2 ^ c.radix := pow_dvd_pow 2 (not_lt.1 hge)
    rw [hcap', Nat.mod_eq_zero_of_dvd this] at hoff
    exact Nat.not_lt_zero _ hoff
  have hlt : 2 ^ c.radix < 2 ^ 64 := Nat.pow_lt_pow_right (by decide) hradix
  rw [Nat.mod_eq_of_lt hlt] at hcap'
  subst hcap'
  exact ⟨hlen, _, hoff, rfl⟩

/-- A CNode object has all its slots, unless it is too large to be looked at. -/
theorem cnode_size {n size : Nat} (hn : n < 2 ^ 32) (hfit : 2 ^ n * entrySize < 2 ^ 63)
    (h : CapabilityType.cNode.getObjectSize cfg n = .ok size) : size = 2 ^ n * entrySize := by
  have hpow : 2 ^ n < 2 ^ 64 := by
    unfold entrySize at hfit
    omega
  simp only [CapabilityType.getObjectSize, except_bind_ok, arith_ok, Nat.mod_eq_of_lt hn] at h
  obtain ⟨slots, hslots, hsize⟩ := h
  rw [Profile.pow, Profile.wrap_of_lt _ hpow] at hslots
  obtain rfl := Option.some.inj hslots
  rw [Profile.mul, Profile.wrap_of_lt _ (by omega)] at hsize
  exact (Option.some.inj hsize).symm

/-- A CNode object of the size of `n` slots has slot number `i`. -/
theorem Object.hasSlot_of_lt {o : Object} (hk : o.kind = .cNode) {n i : Nat}
    (hsize : o.size = n * entrySize) (hi : i < n) : o.hasSlot (o.start + entrySize * i) = true := by
  have hend : entrySize * i + entrySize ≤ n * entrySize := by
    rw [← Nat.mul_succ, Nat.mul_comm]
    exact Nat.mul_le_mul_right _ hi
  simp only [Object.hasSlot, hk, hsize, Bool.and_eq_true, decide_eq_true_eq, decide_true]
  refine ⟨⟨⟨trivial, by omega⟩, by omega⟩, ?_⟩
  rw [Nat.add_sub_cancel_left, Nat.mul_mod_right]

/-- Lookups through a capability with the radix of its CNode stay in the CNode. -/
theorem hasSlot_of_lookupStep (hs : HeapWF cfg s) {o : Object} {c : CapabilityData}
    {capptr depthBits p rem : Nat} (ho : o ∈ s.objects) (hk : o.kind = .cNode)
    (haddr : o.addr = c.getAddress) (hsize : o.userSize = c.radix)
    (h : c.lookupStep cfg capptr depthBits = .ok (p, rem)) : o.hasSlot p = true := by
  obtain ⟨hfit, i, hi, rfl⟩ := lookupStep_ok h
  have hradix : c.radix < 2 ^ 32 := Nat.mod_lt _ (by decide)
  have hobj := hs.size o ho
  rw [hk, hsize] at hobj
  rw [← haddr]
  exact Object.hasSlot_of_lt hk (cnode_size hradix hfit hobj) hi

theorem capsAll_confined {image : Image} {s₀ : KState} (hboot : Boot cfg image s₀)
    (hrun : Run cfg (GuardedFits cfg) s₀ s) : CapsAll Confined s :=
  CapsAll.of_run confined_capRule (fun _ _ _ _ h => h.mintConfined.keeps) hboot hrun

/-- **Authority is confined** in every run from boot in which `CNodeMint` keeps the radix of CNode
capabilities and does not mark a table as a root that is none, and the other conditions are met. -/
theorem confined_of_run {image : Image} {s₀ : KState} (hboot : Boot cfg image s₀)
    (hrun : Run cfg (GuardedFits cfg) s₀ s) {c : CapabilityData} (hc : s.HasCap c) :
    (c.getCapType = .ok .cNode → ∃ o ∈ s.objects,
      o.kind = .cNode ∧ o.addr = c.getAddress ∧ o.userSize = c.radix ∧
      ∀ capptr depthBits p rem, c.lookupStep cfg capptr depthBits = .ok (p, rem) →
        o.hasSlot p = true) ∧
    (c.getCapType = .ok .pageTable → c.isRoot = true → c.getFrame ∈ s.rooted) := by
  have hwf := heapWF_of_run hboot hrun
  obtain ⟨hcnode, hroot⟩ := capsAll_confined hboot hrun c hc
  refine ⟨fun hk => ?_, hroot⟩
  obtain ⟨o, ho, hkind, haddr, hsize⟩ := hcnode hk
  exact ⟨o, ho, hkind, haddr, hsize, fun _ _ _ _ h =>
    hasSlot_of_lookupStep hwf ho hkind haddr hsize h⟩

/-- The arguments of a `CNodeMint` of slot 2, the root CNode, into slot 30. -/
def mintRegs (capDepVal : UInt64) : Registers :=
  { ecallRegs 2 18 10 with a3 := 2, a4 := 77309411346, a5 := 30, a6 := capDepVal }

/-- The address of slot 30 of the root CNode. -/
def slot30 : Nat := toKernelV 2151677952 + entrySize * 30

/-- The root server mints its root CNode with the same radix. -/
theorem confined_after_mint : ∃ s₀ s c, Boot .virt demoImage s₀ ∧
    Run .virt (GuardedFits .virt) s₀ s ∧ s.capAt slot30 = some c ∧ c.getCapType = .ok .cNode ∧
    ∃ o ∈ s.objects,
      o.kind = .cNode ∧ o.addr = c.getAddress ∧ o.userSize = c.radix ∧
      ∀ capptr depthBits p rem, c.lookupStep .virt capptr depthBits = .ok (p, rem) →
        o.hasSlot p = true := by
  obtain ⟨s₀, s, hboot, hrun, htest⟩ := exists_run_of_trace .virt (GuardedFits .virt) demoImage
    [.trap (mintRegs 18)]
    (fun s => (s.capAt slot30).any fun c => c.getCapType = .ok .cNode) (by decide +kernel)
  obtain ⟨c, hc, hk⟩ := (Option.any_eq_true ..).1 htest
  have hk := of_decide_eq_true hk
  exact ⟨s₀, s, c, hboot, hrun, hc, hk, (confined_of_run hboot hrun (.inl ⟨_, hc⟩)).1 hk⟩

/-- A mint with radix 20: the capability reaches slots that the CNode, of radix 18, does not
have. -/
theorem unconfined_after_mint : ∃ s₀ s c, Boot .virt demoImage s₀ ∧
    Run .virt (fun _ _ _ _ => True) s₀ s ∧ s.HasCap c ∧ c.getCapType = .ok .cNode ∧
    ¬∃ o ∈ s.objects, o.kind = .cNode ∧ o.addr = c.getAddress ∧ o.userSize = c.radix := by
  obtain ⟨s₀, s, hboot, hrun, htest⟩ := exists_run_of_trace .virt (fun _ _ _ _ => True) demoImage
    [.trap (mintRegs 20)]
    (fun s => (s.capAt slot30).any fun c => c.getCapType = .ok .cNode &&
      s.objects.all fun o => !(o.kind = .cNode && o.addr = c.getAddress && o.userSize = c.radix))
    (by decide +kernel)
  obtain ⟨c, hc, htest⟩ := (Option.any_eq_true ..).1 htest
  simp only [Bool.and_eq_true, decide_eq_true_eq, List.all_eq_true, Bool.not_eq_true',
    Bool.and_eq_false_iff, decide_eq_false_iff_not] at htest
  refine ⟨s₀, s, c, hboot, hrun, .inl ⟨_, hc⟩, htest.1, fun ⟨o, ho, hk, ha, hu⟩ => ?_⟩
  rcases htest.2 o ho with (h | h) | h
  · exact h hk
  · exact h ha
  · exact h hu

end Zoeax
