import Zoeax.Verify.Retype

/-!
# Retyped objects are aligned

`retype` aligns the first object of a request to the alignment of its Rust type. For a CNode that is
a unit structure of alignment 1, although its slots are 32-byte entries with words in them. CNodes
are aligned nevertheless (`aligned_of_retypes`): the size of every object is a multiple of 8, so
that the free index of a block that starts at a page is one after any sequence of retypes.
-/

namespace Zoeax

open Lib

/-- The alignment that the kernel's use of an object needs. -/
def CapabilityType.useAlign : CapabilityType → Nat
  | .pageTable => 4096
  | .page => 4096
  | _ => 8

/-- The sizes that the compiler gives to objects with words in them. -/
structure Config.WordSized (cfg : Config) : Prop where
  tcb : 8 ∣ cfg.tcbSize
  endpoint : 8 ∣ cfg.endpointSize
  notification : 8 ∣ cfg.notificationSize

/-- The objects of a sequence of retypes of one untyped capability, with their types, and the
capability at the end. -/
inductive Retypes (cfg : Config) (c₀ : CapabilityData) :
    List (CapabilityType × CapabilityData) → CapabilityData → Prop
  | start : Retypes cfg c₀ [] c₀
  | retype {objects caps : List _} {c c' : CapabilityData} {gen : CapGenerator}
      {k : CapabilityType} {userSize num : Nat} :
      Retypes cfg c₀ objects c → c.invokeRetype cfg userSize num k = .ok (c', gen) →
      gen.toList cfg = .ok caps → Retypes cfg c₀ (objects ++ caps.map (k, ·)) c'

namespace CapabilityData

variable {cfg : Config} {k : CapabilityType} {c c' : CapabilityData} {gen : CapGenerator}
  {userSize num size : Nat}

theorem invokeRetype_ok (h : c.invokeRetype cfg userSize num k = .ok (c', gen)) :
    k ≠ .untyped ∧ c.retype cfg k userSize num = .ok (c', gen) := by
  cases k with
  | untyped => cases h
  | _ => exact ⟨nofun, h⟩

theorem useAlign_dvd_size (hcfg : cfg.WordSized) (hk : k ≠ .untyped)
    (hsize : k.getObjectSize cfg userSize = .ok size) : k.useAlign ∣ size := by
  cases k with
  | untyped => exact absurd rfl hk
  | tcb => exact Except.ok.inj hsize ▸ hcfg.tcb
  | endPoint => exact Except.ok.inj hsize ▸ hcfg.endpoint
  | notification => exact Except.ok.inj hsize ▸ hcfg.notification
  | pageTable => exact Except.ok.inj hsize ▸ dvd_refl 4096
  | page => exact Except.ok.inj hsize ▸ dvd_refl 4096
  | cNode =>
    simp only [CapabilityType.getObjectSize, except_bind_ok, arith_ok, Profile.mul,
      Profile.wrap_eq_some] at hsize
    obtain ⟨slots, -, -, rfl⟩ := hsize
    refine (Nat.dvd_mod_iff (by decide : 8 ∣ 2 ^ 64)).2 (Dvd.dvd.mul_left ?_ slots)
    decide

theorem useAlign_dvd_firstAddress (hfree : 8 ∣ c.getFreeIndex) (hk : k ≠ .untyped) :
    k.useAlign ∣ c.firstAddress k := by
  cases k with
  | untyped => exact absurd rfl hk
  | cNode =>
    -- no padding: the free index itself
    have hround : c.firstAddress .cNode = c.getFreeIndex := by
      change (c.getFreeIndex + 1 - 1) / 1 * 1 = _
      omega
    exact hround ▸ hfree
  | _ => exact Dvd.intro_left _ rfl

theorem eight_dvd_useAlign (k : CapabilityType) : 8 ∣ k.useAlign := by
  cases k <;> decide

/-- The free index stays a multiple of 8. -/
theorem eight_dvd_getFreeIndex (hcfg : cfg.WordSized) (hfree : 8 ∣ c.getFreeIndex)
    (h : c.invokeRetype cfg userSize num k = .ok (c', gen)) : 8 ∣ c'.getFreeIndex := by
  obtain ⟨hk, h⟩ := invokeRetype_ok h
  obtain ⟨-, size, -, -, -, -, hsize, -⟩ := retype_ok h
  obtain ⟨hdev, -, -, -, -, rfl, rfl⟩ := (retype_ok_iff hsize).1 h
  have hpfx : 8 ∣ kernelVAddrPfx := by decide
  rw [(retyped_fields _ _).2.2.2]
  refine Nat.dvd_add ?_ hpfx
  split
  · exact dvd_zero 8
  · rw [toPhys_eq, Nat.dvd_mod_iff (by decide : 8 ∣ 2 ^ 47)]
    refine Nat.dvd_add ?_ (Dvd.dvd.mul_left (Dvd.dvd.mul_left ?_ num) num)
    · exact (eight_dvd_useAlign k).trans (useAlign_dvd_firstAddress hfree hk)
    · exact (eight_dvd_useAlign k).trans (useAlign_dvd_size hcfg hk hsize)

/-- The objects of one retype. -/
theorem useAlign_dvd_getAddress (hcfg : cfg.WordSized) (hfree : 8 ∣ c.getFreeIndex)
    (h : c.invokeRetype cfg userSize num k = .ok (c', gen)) {caps : List CapabilityData}
    (hcaps : gen.toList cfg = .ok caps) : ∀ cap ∈ caps, k.useAlign ∣ cap.getAddress := by
  intro cap hcap
  obtain ⟨hk, h⟩ := invokeRetype_ok h
  obtain ⟨-, size, -, -, -, -, hsize, -⟩ := retype_ok h
  obtain ⟨-, -, -, -, -, -, rfl⟩ := (retype_ok_iff hsize).1 h
  have hpow : ∀ n, 12 ≤ n → k.useAlign ∣ 2 ^ n := by
    intro n hn
    have htwelve : k.useAlign ∣ 2 ^ 12 := by
      cases k <;> decide
    exact htwelve.trans (pow_dvd_pow 2 hn)
  have hmem := List.mem_map_of_mem (f := getAddress) hcap
  rw [CapGenerator.getAddress_take_mod num hcaps] at hmem
  obtain ⟨i, -, hi⟩ := List.mem_map.1 hmem
  rw [← hi, Nat.dvd_mod_iff (hpow 47 (by decide))]
  refine Nat.dvd_add ?_ (Dvd.dvd.mul_left ?_ i)
  · exact (Nat.dvd_mod_iff (hpow 64 (by decide))).2 (useAlign_dvd_firstAddress hfree hk)
  · refine (Nat.dvd_mod_iff (hpow 64 (by decide))).2 (Dvd.dvd.mul_left ?_ num)
    exact useAlign_dvd_size hcfg hk hsize

end CapabilityData

/-- **Every retyped object is aligned for its use**, whatever was made before it from a block that
starts at a page. -/
theorem aligned_of_retypes {cfg : Config} (hcfg : cfg.WordSized) {c₀ c : CapabilityData}
    (hbase : 4096 ∣ c₀.getAddress) (hfree : c₀.freePhys = c₀.getAddress)
    {objects : List (CapabilityType × CapabilityData)} (h : Retypes cfg c₀ objects c) :
    ∀ k cap, (k, cap) ∈ objects → k.useAlign ∣ cap.getAddress := by
  have hstart : 8 ∣ c₀.getFreeIndex := by
    have hlt := c₀.getAddress_lt
    rw [CapabilityData.getFreeIndex_eq, hfree, toKernelV_eq (by omega)]
    refine Nat.dvd_add ((Nat.dvd_mod_iff (by decide)).2 ?_) (by decide)
    exact (by decide : 8 ∣ 4096).trans hbase
  -- along the sequence the free index stays a multiple of 8
  have hinv : 8 ∣ c.getFreeIndex ∧ ∀ k cap, (k, cap) ∈ objects → k.useAlign ∣ cap.getAddress := by
    induction h with
    | start => exact ⟨hstart, nofun⟩
    | @retype objects caps c c' gen k userSize num _ hretype hcaps ih =>
      obtain ⟨hc, hobjects⟩ := ih
      refine ⟨CapabilityData.eight_dvd_getFreeIndex hcfg hc hretype, fun k' cap hmem => ?_⟩
      rcases List.mem_append.1 hmem with hmem | hmem
      · exact hobjects k' cap hmem
      · obtain ⟨cap, hcap, heq⟩ := List.mem_map.1 hmem
        obtain ⟨rfl, rfl⟩ := Prod.mk.inj heq
        exact CapabilityData.useAlign_dvd_getAddress hcfg hc hretype hcaps cap hcap
  exact hinv.2

/-- An endpoint, and then a CNode of four slots right behind its 24 bytes. -/
theorem aligned_cnode_after_endpoint : ∃ objects c d,
    Retypes .virt (CapabilityData.fresh 0x80000000 14) objects c ∧ (.cNode, d) ∈ objects ∧
    d.getAddress = 0x80000018 ∧ CapabilityType.cNode.useAlign ∣ d.getAddress := by
  obtain ⟨⟨c₁, gen₁⟩, hretype₁, htest⟩ := exists_of_okAnd
    (show okAnd ((CapabilityData.fresh 0x80000000 14).invokeRetype .virt 0 1 .endPoint) (fun r =>
      okAnd (r.2.toList .virt) fun _ => okAnd (r.1.invokeRetype .virt 2 1 .cNode) fun r =>
        okAnd (r.2.toList .virt) fun caps => caps.any fun d => d.getAddress == 0x80000018) = true by
      decide +kernel)
  obtain ⟨caps₁, hcaps₁, htest⟩ := exists_of_okAnd htest
  obtain ⟨⟨c₂, gen₂⟩, hretype₂, htest⟩ := exists_of_okAnd htest
  obtain ⟨caps₂, hcaps₂, htest⟩ := exists_of_okAnd htest
  obtain ⟨d, hd, haddr⟩ := List.any_eq_true.1 htest
  have hrun := (Retypes.start.retype hretype₁ hcaps₁).retype hretype₂ hcaps₂
  have hmem : (CapabilityType.cNode, d) ∈
      ([] ++ caps₁.map (CapabilityType.endPoint, ·)) ++ caps₂.map (CapabilityType.cNode, ·) :=
    List.mem_append_right _ (List.mem_map_of_mem hd)
  refine ⟨_, c₂, d, hrun, hmem, beq_iff_eq.1 haddr, ?_⟩
  exact aligned_of_retypes ⟨by decide, by decide, by decide⟩ (by decide +kernel) (by decide +kernel)
    hrun .cNode d hmem

end Zoeax
