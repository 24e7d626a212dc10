import Zoeax.Client.Caps
import Zoeax.Verify.Heap
import Zoeax.Verify.Lookup

/-!
# The client's bookkeeping

A client computes the path of a slot from the path of its CNode (`CSlot::get_cap_ptr`). The kernel
resolves that path from the root CNode to that very slot (`getCapPtr_resolves`).

`copy` and `mint` both invoke a CNode and name the destination slot, which the kernel looks up from
the invoked CNode. `copy` passes the number of the slot in the CNode. `mint` passes the whole path,
so that the capability ends up where that path leads *from the CNode* (`placed_iff`).
-/

namespace Zoeax

open Lib Exec CapabilityData
open CapabilityType (entrySize)

namespace Client

variable {cfg : Config} {s s' : KState}

/-! ## Paths -/

/-- The path of a slot, as long as it has at most 64 bits. -/
theorem getCapPtr_eq (p : Profile) (slot : CSlot) (hr : slot.radix.toNat < 64)
    (h64 : slot.depth.toNat + slot.radix.toNat ≤ 64)
    (hi : slot.index.toNat < 2 ^ slot.radix.toNat) :
    ∃ ptr depth, slot.getCapPtr p = some (ptr, depth) ∧
      ptr.toNat = (slot.pptr.toNat <<< slot.radix.toNat) % 2 ^ 64 + slot.index.toNat ∧
      depth.toNat = slot.depth.toNat + slot.radix.toNat := by
  have hdepth : p.add32 slot.depth slot.radix = some (slot.depth + slot.radix) :=
    if_pos (by omega)
  have hsum : (slot.pptr.toNat <<< slot.radix.toNat) % 2 ^ 64 + slot.index.toNat < 2 ^ 64 := by
    have hsplit : 2 ^ 64 = 2 ^ (64 - slot.radix.toNat) * 2 ^ slot.radix.toNat := by
      rw [← pow_add, Nat.sub_add_cancel hr.le]
    rw [Nat.shiftLeft_eq, hsplit, Nat.mul_mod_mul_right]
    have hlt : slot.pptr.toNat % 2 ^ (64 - slot.radix.toNat) + 1 ≤ 2 ^ (64 - slot.radix.toNat) :=
      Nat.mod_lt _ (by positivity)
    calc slot.pptr.toNat % 2 ^ (64 - slot.radix.toNat) * 2 ^ slot.radix.toNat + slot.index.toNat
        < slot.pptr.toNat % 2 ^ (64 - slot.radix.toNat) * 2 ^ slot.radix.toNat +
          2 ^ slot.radix.toNat := by omega
      _ = (slot.pptr.toNat % 2 ^ (64 - slot.radix.toNat) + 1) * 2 ^ slot.radix.toNat := by ring
      _ ≤ 2 ^ (64 - slot.radix.toNat) * 2 ^ slot.radix.toNat := Nat.mul_le_mul_right _ hlt
  refine ⟨UInt64.ofNat _, slot.depth + slot.radix, ?_, UInt64.toNat_ofNat_of_lt' hsum, ?_⟩
  · rw [CSlot.getCapPtr, hdepth, Profile.shl, Profile.shiftAmount_of_lt p hr]
    simp only [Option.map_some, Option.bind_eq_bind, Option.bind_some, Profile.add,
      Profile.wrap_of_lt p hsum]
    rfl
  · rw [UInt32.toNat_add, Nat.mod_eq_of_lt (by omega)]

/-! ## System calls -/

theorem packDepths_toNat (a b : UInt32) : (packDepths a b).toNat = a.toNat * 2 ^ 32 + b.toNat := by
  have ha := a.toNat_lt
  have hb := b.toNat_lt
  have hshift : (a.toUInt64 <<< 32).toNat = a.toNat <<< 32 := by
    rw [UInt64.toNat_shiftLeft, UInt32.toNat_toUInt64, UInt64.toNat_ofNat, Nat.shiftLeft_eq]
    exact Nat.mod_eq_of_lt (show a.toNat * 2 ^ 32 < 2 ^ 64 by omega)
  rw [packDepths, UInt64.toNat_or, hshift, UInt32.toNat_toUInt64, shiftLeft_or_of_lt hb]

theorem packDepths_src (a b : UInt32) : (packDepths a b).toNat >>> 32 = a.toNat := by
  have hb := b.toNat_lt
  rw [packDepths_toNat, Nat.shiftRight_eq_div_pow]
  omega

theorem packDepths_dest (a b : UInt32) : (packDepths a b).toNat % 2 ^ 32 = b.toNat := by
  have hb := b.toNat_lt
  rw [packDepths_toNat]
  omega

/-- `a0` tells success from failure. -/
theorem sysCallRes_ok {regs : Registers} {ret : Except KernelError (Option Nat)} {sepc v : UInt64}
    (h : sysCallRes { regs.setResult ret with sepc := sepc } = .ok v) : ∃ val, ret = .ok val := by
  cases ret with
  | ok val => exact ⟨val, rfl⟩
  | error e =>
    have hne : UInt64.ofNat e.eKind.toUsize ≠ 0 := by cases e.eKind <;> decide
    cases h.symm.trans (if_neg hne)

/-- **A call that the client saw succeed** is an invocation that returned, from the registers that
the client filled. -/
theorem syscall_ok {regs : Registers} {capPtr v a3 a4 a5 a6 : UInt64} {capDepth : UInt32}
    {invLabel : InvLabel} (hcur : s.curRegBase = s.current)
    (h : syscall cfg regs capPtr capDepth invLabel a3 a4 a5 a6 .call s = .ok (.ok v) s') :
    let reg := callRegs regs capPtr capDepth invLabel a3 a4 a5 a6 .call
    ∃ t t' inv k val w, s.tcbs s.current = some t ∧ findInvocation cfg capPtr.toNat capDepth.toNat
        (s.setTcb s.current { t with registers := reg }) = .ok inv ∧
      inv.cap.getCapType = .ok k ∧
      invoke cfg invLabel reg inv k (s.setTcb s.current { t with registers := reg }) = .ok val w ∧
      s' = w.setTcb s.current t' := by
  intro reg
  simp only [syscall, bind_ok, get_ok, lift_ok, getTcb_ok, pure_ok] at h
  obtain ⟨_, _, ⟨rfl, rfl⟩, _, u, hentry, _, _, hsys, t₂, _, ⟨ht₂, rfl⟩, hres, rfl⟩ := h
  obtain ⟨t, ht, rfl⟩ := trapEntry_ok.1 hentry
  simp only [handleSyscall, bind_ok, get_ok, lift_ok, getTcb_ok] at hsys
  obtain ⟨_, _, ⟨rfl, rfl⟩, t₁, _, ⟨ht₁, rfl⟩, ret, w, hdisp, hret⟩ := hsys
  obtain ⟨t₃, sepc, -, -, rfl⟩ := returnSyscall_ok.1 hret
  obtain rfl := Option.some.inj (ht₁.symm.trans ((KState.tcbs_setTcb ..).trans (if_pos rfl)))
  obtain rfl := Option.some.inj (ht₂.symm.trans ((KState.tcbs_setTcb ..).trans (if_pos hcur.symm)))
  obtain ⟨val, rfl⟩ := sysCallRes_ok hres
  obtain ⟨_, hval, hdisp⟩ | ⟨e, he, -⟩ := catchErr_ok hdisp
  · obtain rfl := Except.ok.inj hval
    change dispatchSyscall cfg reg _ = _ at hdisp
    rw [dispatchSyscall, show InvLabel.ofUsize? reg.a2.toNat = some invLabel from
      InvLabel.ofUsize?_toUsize invLabel] at hdisp
    dsimp only at hdisp
    rw [if_neg (show reg.a7.toNat ≠ sysCallNoPrint from Nat.one_ne_zero)] at hdisp
    obtain ⟨inv, k, hinv, hk, hinvoke⟩ := handleInvocation_ok hdisp
    rw [show reg.a1.toNat = capDepth.toNat from UInt32.toNat_toUInt64 _] at hinv
    rw [hcur] at ht hinv hinvoke
    exact ⟨t, _, inv, k, val, w, ht, hinv, hk, hinvoke, congrArg (KState.setTcb w · _) hcur⟩
  · cases he

/-! ## Placement -/

/-- **The kernel's side of `copy` and `mint`.** The destination is looked up from the invoked CNode
`c`; its slot was empty and is the only one that changes. -/
theorem cnodeCall_ok {t : ThreadInfo} {root : CNodeEntry} {c : CapabilityData} {p : Nat}
    {invLabel : InvLabel} {regs : Registers} {capPtr srcPtr destPtr a6 v : UInt64}
    {capDepth srcDepth destDepth : UInt32} (hs : HeapWF cfg s) (hcur : s.curRegBase = s.current)
    (ht : s.tcbs s.current = some t) (hroot : t.rootCnode = some root)
    (hlead : Leads cfg s capPtr.toNat root.cap capDepth.toNat p) (hp : s.capAt p = some c)
    (hk : c.getCapType = .ok .cNode) (hlabel : invLabel ≠ .cNodeMove)
    (h : syscall cfg regs capPtr capDepth invLabel srcPtr (packDepths srcDepth destDepth) destPtr a6
      .call s = .ok (.ok v) s') :
    ∃ src d rawCap dest, Leads cfg s srcPtr.toNat root.cap srcDepth.toNat src ∧
      s.capAt src = some d ∧ d.derive = .ok rawCap ∧
      Leads cfg s destPtr.toNat c destDepth.toNat dest ∧ s.isSlot dest = true ∧
      s.capAt dest = none ∧ s'.objects = s.objects ∧ ∀ q, s.isSlot q = true → s'.capAt q =
        if q = dest then some (if invLabel = .cNodeMint then rawCap.setCapDepVal a6 else rawCap)
        else s.capAt q := by
  obtain ⟨t₁, t', inv, k, val, w, ht₁, hinv, hk', hinvoke, rfl⟩ := syscall_ok hcur h
  obtain rfl := Option.some.inj (ht.symm.trans ht₁)
  obtain ⟨-, htcb, ⟨root', hroot', hroot''⟩, hlook, -, hcap⟩ := findInvocation_ok hinv
  -- the caller's root CNode, and the CNode that its path leads to
  obtain rfl : root = root' := by
    have := Option.some.inj (htcb.symm.trans ((KState.tcbs_setTcb ..).trans (if_pos rfl)))
    rw [this] at hroot'
    exact Option.some.inj (hroot.symm.trans hroot')
  rw [← hroot'', Nat.mod_eq_of_lt capDepth.toNat_lt] at hlook
  obtain rfl : p = inv.slot := hlead.unique (leads_of_lookupLoop hlook).of_setTcb
  obtain rfl : c = inv.cap := Option.some.inj (hp.symm.trans hcap)
  obtain rfl : CapabilityType.cNode = k := Except.ok.inj (hk.symm.trans hk')
  obtain ⟨src, e, dest, rawCap, hsrc, hsrc', he, hdest, hdest', hnone, hd, hinstall⟩ :=
    invokeCNode_ok hinvoke
  change inv.rootCnode.lookupEntryMut cfg srcPtr.toNat
    ((packDepths srcDepth destDepth).toNat >>> 32) _ = _ at hsrc
  change inv.cap.lookupEntryMut cfg destPtr.toNat
    ((packDepths srcDepth destDepth).toNat % 2 ^ 32) _ = _ at hdest
  rw [packDepths_src, ← hroot''] at hsrc
  rw [packDepths_dest] at hdest
  have hlocal : ∀ q, s.isSlot q = true → q ≠ cfg.localAddr .invocation := fun q hq heq => by
    have hlt := (hs.isSlot_bounds hq).2
    have hle := cfg.localAddr_apart .invocation
    omega
  obtain ⟨⟨slots, rfl⟩, hcaps⟩ := installEntry_capAt (hlocal src hsrc') hinstall
  refine ⟨src, e.cap, rawCap, dest, (leads_of_lookupLoop hsrc).of_setTcb,
    congrArg (Option.map _) he, hd, (leads_of_lookupLoop hdest).of_setTcb, hdest',
    congrArg (Option.map _) hnone, rfl, fun q hq => ?_⟩
  refine (hcaps q (hlocal q hq)).trans ?_
  rw [if_neg fun h : invLabel = .cNodeMove ∧ _ => hlabel h.1]
  rfl

/-- The client's CNode is there: its path leads to `c`, with at most 64 bits for the path of a slot,
and the cursor is on a slot. -/
structure Held (cfg : Config) (s : KState) (root : CapabilityData) (cnode : CNodeCapability)
    (c : CapabilityData) : Prop where
  path : CNodePath cfg s cnode.capPtr.toNat root cnode.capDepth.toNat c
  radix : cnode.capData.radix.toNat = c.radix
  depth : cnode.capDepth.toNat + cnode.capData.radix.toNat ≤ 64
  live : SlotsLive s c
  cursor : cnode.capData.cursor.toNat < 2 ^ cnode.capData.radix.toNat

/-- Slot number `cursor` of the CNode `c`. -/
def cursorSlot (cnode : CNodeCapability) (c : CapabilityData) : Nat :=
  toKernelV c.getAddress + entrySize * cnode.capData.cursor.toNat

/-- The bookkeeping is right: the path of the new capability leads to `slot`, which holds what `f`
makes of the capability derived from the source, and no other slot has changed. -/
structure Placed {K : Type} (cfg : Config) (s s' : KState) (root : CapabilityData)
    (src : Capability K) (f : CapabilityData → CapabilityData) (new : Capability K) (slot : Nat) :
    Prop where
  resolves : Resolves cfg s' root new.capPtr.toNat new.capDepth.toNat slot
  derived : ∃ srcSlot d rawCap, Leads cfg s src.capPtr.toNat root src.capDepth.toNat srcSlot ∧
    s.capAt srcSlot = some d ∧ d.derive = .ok rawCap ∧ s'.capAt slot = some (f rawCap)
  others : ∀ q, s.isSlot q = true → q ≠ slot → s'.capAt q = s.capAt q

/-- The path of the slot under the cursor can be computed and looked up: the CNode has a radix, the
number of the slot fits into `u32`, and the first shift of the lookup is one of less than 64
bits. -/
def PathFits (cfg : Config) (root : CapabilityData) (cnode : CNodeCapability) : Prop :=
  cnode.capData.radix.toNat ≠ 0 ∧ cnode.capData.cursor.toNat < 2 ^ 32 ∧
    ShiftFits cfg root (cnode.capDepth.toNat + cnode.capData.radix.toNat)

theorem index_lt {cnode : CNodeCapability} {n : Nat} (h : cnode.capData.cursor.toNat < n) :
    cnode.capData.cursor.toUInt32.toNat < n := by
  rw [UInt64.toNat_toUInt32]
  exact lt_of_le_of_lt (Nat.mod_le ..) h

/-- The slot that `get_slot` gives. -/
def slotOf (cnode : CNodeCapability) : CSlot where
  pptr := cnode.capPtr
  depth := cnode.capDepth
  radix := cnode.capData.radix
  index := cnode.capData.cursor.toUInt32

namespace Held

variable {root c : CapabilityData} {cnode : CNodeCapability}

theorem radix_lt (h : Held cfg s root cnode c) : cnode.capData.radix.toNat < 64 := by
  by_contra hge
  have : 2 ^ 64 ≤ 2 ^ c.radix := Nat.pow_le_pow_right (by decide) (h.radix ▸ not_lt.1 hge)
  have hfit := h.live.1
  rw [entrySize] at hfit
  omega

theorem getSlot_eq (h : Held cfg s root cnode c) (p : Profile) :
    cnode.getSlot p = some (.ok (slotOf cnode), cnode.advance) := by
  have hsize : cnode.getSize p = some (2 ^ cnode.capData.radix.toNat) :=
    p.wrap_of_lt (Nat.pow_lt_pow_right (by decide) h.radix_lt)
  rw [CNodeCapability.getSlot, hsize, Option.bind_eq_bind, Option.bind_some,
    if_neg (not_le.2 h.cursor)]
  rfl

/-- The client's CNode is still there when only an empty slot was written. -/
theorem mono (h : Held cfg s root cnode c) (hslot : ∀ p, s.isSlot p = true → s'.isSlot p = true)
    (hcap : ∀ p c, s.isSlot p = true → s.capAt p = some c → s'.capAt p = some c) :
    Held cfg s' root cnode c where
  path := h.path.mono hslot hcap
  radix := h.radix
  depth := h.depth
  live := ⟨h.live.1, fun i hi => hslot _ (h.live.2 i hi)⟩
  cursor := h.cursor

/-- The path of the slot leads to it, unless the shift of the lookup overflows. -/
theorem resolves (h : Held cfg s root cnode c) (hradix : cnode.capData.radix.toNat ≠ 0)
    (hshift : ShiftFits cfg root (cnode.capDepth.toNat + cnode.capData.radix.toNat)) {i : Nat}
    (hi : i < 2 ^ cnode.capData.radix.toNat) :
    Resolves cfg s root ((cnode.capPtr.toNat <<< cnode.capData.radix.toNat) % 2 ^ 64 + i)
      (cnode.capDepth.toNat + cnode.capData.radix.toNat)
      (toKernelV c.getAddress + entrySize * i) := by
  obtain ⟨hpath, hr, h64, hlive, -⟩ := h
  rw [hr] at hradix h64 hshift hi ⊢
  exact hpath.append hradix hlive hi h64 hshift

/-- With radix 0 the path of the slot is that of the CNode, which is in an occupied slot. -/
theorem radix_ne_zero (h : Held cfg s root cnode c) {q : Nat}
    (hslot : ∀ q, s.isSlot q = true → s'.isSlot q = true)
    (hkeep : ∀ q e, s.isSlot q = true → s.capAt q = some e → s'.capAt q = some e)
    (hres : Resolves cfg s' root
      ((cnode.capPtr.toNat <<< cnode.capData.radix.toNat) % 2 ^ 64 +
        cnode.capData.cursor.toUInt32.toNat)
      (cnode.capDepth.toNat + cnode.capData.radix.toNat) q)
    (hnone : s.capAt q = none) : cnode.capData.radix.toNat ≠ 0 := by
  intro hzero
  obtain ⟨p, hp, hpc, -, hpath⟩ := h.path.resolves hslot hkeep
  have hindex : cnode.capData.cursor.toUInt32.toNat = 0 := by
    have := index_lt h.cursor
    rw [hzero] at this
    omega
  rw [hzero, hindex, Nat.shiftLeft_zero, Nat.mod_eq_of_lt cnode.capPtr.toNat_lt, Nat.add_zero,
    Nat.add_zero] at hres
  obtain rfl := hpath.unique hres
  cases hpc.symm.trans hnone

/-- The bookkeeping is right if and only if the path fits and the kernel chose the slot under the
cursor. -/
theorem placed_iff {K : Type} {src new : Capability K} {f : CapabilityData → CapabilityData}
    {dest : Nat} {p : Profile} {srcSlot : Nat} {d rawCap : CapabilityData}
    (h : Held cfg s root cnode c)
    (hget : (slotOf cnode).getCapPtr p = some (new.capPtr, new.capDepth))
    (hlead : Leads cfg s src.capPtr.toNat root src.capDepth.toNat srcSlot)
    (hsrc : s.capAt srcSlot = some d) (hd : d.derive = .ok rawCap) (hdest : s.isSlot dest = true)
    (hnone : s.capAt dest = none) (hobj : s'.objects = s.objects)
    (hcaps : ∀ q, s.isSlot q = true →
      s'.capAt q = if q = dest then some (f rawCap) else s.capAt q) :
    Placed cfg s s' root src f new (cursorSlot cnode c) ↔
      PathFits cfg root cnode ∧ dest = cursorSlot cnode c := by
  obtain ⟨ptr, depth, hget', hptr, hdepth⟩ := getCapPtr_eq p (slotOf cnode) h.radix_lt h.depth
    (index_lt h.cursor)
  obtain ⟨hptr', hdepth'⟩ := Prod.mk.inj (Option.some.inj (hget.symm.trans hget'))
  rw [← hptr'] at hptr
  rw [← hdepth'] at hdepth
  have hkeep : ∀ q e, s.isSlot q = true → s.capAt q = some e → s'.capAt q = some e := by
    intro q e hq he
    have hne : q ≠ dest := fun heq => by
      rw [heq, hnone] at he
      cases he
    rw [hcaps q hq, if_neg hne, he]
  have hslot : ∀ q, s.isSlot q = true → s'.isSlot q = true := fun q hq => by
    rwa [KState.isSlot, hobj]
  have h' := h.mono hslot hkeep
  constructor
  · intro hplaced
    -- the slot that changed is the one under the cursor
    have heq : dest = cursorSlot cnode c := by
      by_contra hne
      have := hplaced.others dest hdest hne
      rw [hcaps dest hdest, if_pos rfl, hnone] at this
      cases this
    have hres := hplaced.resolves
    rw [hptr, hdepth] at hres
    have hshift := hres.leads.shiftFits h.depth
    have hradix := h.radix_ne_zero hslot hkeep hres (heq ▸ hnone)
    have hfit : cnode.capData.cursor.toNat < 2 ^ 32 := by
      have hslot := (h'.resolves hradix hshift (index_lt h.cursor)).unique hres
      rw [cursorSlot, entrySize, UInt64.toNat_toUInt32] at hslot
      omega
    exact ⟨⟨hradix, hfit, hshift⟩, heq⟩
  · rintro ⟨⟨hradix, hfit, hshift⟩, rfl⟩
    refine ⟨?_, ⟨srcSlot, d, rawCap, hlead, hsrc, hd, ?_⟩, fun q hq hne => ?_⟩
    · rw [hptr, hdepth]
      have hindex : (slotOf cnode).index.toNat = cnode.capData.cursor.toNat :=
        (UInt64.toNat_toUInt32 _).trans (Nat.mod_eq_of_lt hfit)
      rw [hindex]
      exact h'.resolves hradix hshift h.cursor
    · rw [hcaps _ hdest, if_pos rfl]
    · rw [hcaps q hq, if_neg hne]

end Held

/-! ## `copy` and `mint` -/

section Placement

variable {K : Type} {p : Profile} {regs : Registers} {cnode cnode' : CNodeCapability}
  {root c : CapabilityData} {cap new : Capability K}

theorem copy_ok [Copyable K] (h : Held cfg s root cnode c)
    (hcopy : cnode.copy cfg p regs cap s = .ok (.ok new, cnode') s') :
    ∃ v, (slotOf cnode).getCapPtr p = some (new.capPtr, new.capDepth) ∧
      cnodeCopy cfg regs cnode.capPtr cnode.capDepth (slotOf cnode).index.toUInt64
        (slotOf cnode).radix cap.capPtr cap.capDepth s = .ok (.ok v) s' := by
  simp only [CNodeCapability.copy, h.getSlot_eq p, arith_some, bind_ok, liftExcept_ok,
    Except.ok.injEq] at hcopy
  obtain ⟨_, _, ⟨rfl, rfl⟩, hcopy⟩ := hcopy
  simp only [bind_ok, liftExcept_ok, arith_ok, pure_ok, Prod.mk.injEq] at hcopy
  obtain ⟨⟨ptr, depth⟩, _, ⟨hget, rfl⟩, res, _, hsys, ⟨hres, -⟩, rfl⟩ := hcopy
  cases res with
  | error e => cases hres
  | ok v =>
    obtain rfl := Except.ok.inj hres
    exact ⟨v, hget, hsys⟩

theorem mint_ok [Mintable K] {capVal : UInt64} (h : Held cfg s root cnode c)
    (hmint : cnode.mint cfg p regs cap capVal s = .ok (.ok new, cnode') s') :
    ∃ v, (slotOf cnode).getCapPtr p = some (new.capPtr, new.capDepth) ∧
      cnodeMint cfg regs cnode.capPtr cnode.capDepth new.capPtr new.capDepth cap.capPtr cap.capDepth
        capVal s = .ok (.ok v) s' := by
  simp only [CNodeCapability.mint, h.getSlot_eq p, arith_some, bind_ok, liftExcept_ok,
    Except.ok.injEq] at hmint
  obtain ⟨_, _, ⟨rfl, rfl⟩, hmint⟩ := hmint
  simp only [bind_ok, liftExcept_ok, arith_ok, pure_ok, Prod.mk.injEq] at hmint
  obtain ⟨⟨ptr, depth⟩, _, ⟨hget, rfl⟩, res, _, hsys, ⟨hres, -⟩, rfl⟩ := hmint
  cases res with
  | error e => cases hres
  | ok v =>
    obtain rfl := Except.ok.inj hres
    exact ⟨v, hget, hsys⟩

/-- The number of a slot, looked up from the CNode with the bits of the CNode alone. -/
theorem leads_index {i dest : Nat} (hlive : SlotsLive s c) (hi : i < 2 ^ c.radix)
    (h : Leads cfg s i c c.radix dest) : dest = toKernelV c.getAddress + entrySize * i := by
  have hr : c.radix < 64 := by
    by_contra hge
    have : 2 ^ 64 ≤ 2 ^ c.radix := Nat.pow_le_pow_right (by decide) (not_lt.1 hge)
    have hfit := hlive.1
    rw [entrySize] at hfit
    omega
  refine h.unique (.last ((lookupStep_iff hr.le).2 ?_) (hlive.2 i hi))
  refine ⟨le_refl _, hlive.1, .inr (.inl hr), (Nat.sub_self _).symm, ?_⟩
  rw [pow_zero, Nat.div_one, Nat.mod_eq_of_lt hi]

end Placement

/-! ## A CNode below the root -/

instance (s : KState) (c : CapabilityData) : Decidable (SlotsLive s c) := by
  unfold SlotsLive
  infer_instance

/-- A CNode of radix 4 in slot 19, with the cursor on slot 1. -/
def nestedCNode : CNodeCapability := ⟨19, 18, ⟨4, 1⟩⟩

/-- A notification in slot 20. -/
def ntfnCap : Capability Notification := ⟨20, 18, ⟨⟩⟩

/-- The root server makes the CNode and the notification. -/
def nestedTrace : List Event :=
  [.trap (retypeCNodeRegs 4),
    .trap { ecallRegs 9 18 2 with a3 := 2, a4 := 18 + 20 * 2 ^ 32, a5 := 1, a6 := 9 }]

/-- The current thread holds `nestedCNode`; `test` is for its root CNode and the nested one. -/
def holdsNested (test : CapabilityData → CapabilityData → Bool) (s : KState) : Bool :=
  s.curRegBase = s.current && (s.tcbs s.current).any fun t => t.rootCnode.any fun root =>
    (s.capAt slot19).any fun c =>
      s.isSlot slot19 && root.cap.lookupStep .virt 19 18 = .ok (slot19, 0) &&
      c.getCapType = .ok .cNode && c.radix = 4 && decide (SlotsLive s c) && test root.cap c

theorem exists_held (test : KState → CapabilityData → CapabilityData → Bool)
    (h : endsIn (bootTrace .virt (fun _ _ _ _ => True) demoImage nestedTrace (.initial .virt))
      (fun s => holdsNested (test s) s) = true) :
    ∃ s₀ s t root c, Boot .virt demoImage s₀ ∧ Run .virt (fun _ _ _ _ => True) s₀ s ∧
      s.curRegBase = s.current ∧ s.tcbs s.current = some t ∧ t.rootCnode = some root ∧
      Held .virt s root.cap nestedCNode c ∧ test s root.cap c = true := by
  obtain ⟨s₀, s, hboot, hrun, htest⟩ := exists_run_of_trace _ _ _ _ _ h
  obtain ⟨hcur, htest⟩ := Bool.and_eq_true_iff.1 htest
  obtain ⟨t, ht, htest⟩ := (Option.any_eq_true ..).1 htest
  obtain ⟨root, hroot, htest⟩ := (Option.any_eq_true ..).1 htest
  obtain ⟨c, hc, htest⟩ := (Option.any_eq_true ..).1 htest
  simp only [Bool.and_eq_true, decide_eq_true_eq] at hcur htest
  obtain ⟨⟨⟨⟨⟨hslot, hstep⟩, hk⟩, hradix⟩, hlive⟩, htest⟩ := htest
  refine ⟨s₀, s, t, root, c, hboot, hrun, hcur, ht, hroot, ?_, htest⟩
  exact ⟨.last hstep hslot hc hk, hradix.symm, by decide, hlive, by decide⟩

/-! ## Main results -/

/-- **User paths agree with the kernel's lookup.** For a CNode `c` that the kernel finds at the
path of the slot's parent, the path of the slot leads to slot number `index` of `c`. -/
theorem getCapPtr_resolves (p : Profile) {root c : CapabilityData} {slot : CSlot}
    (hroot : root.radix ≠ 0) (hc : c.radix ≠ 0)
    (hpath : CNodePath cfg s slot.pptr.toNat root slot.depth.toNat c) (hlive : SlotsLive s c)
    (hradix : slot.radix.toNat = c.radix) (h64 : slot.depth.toNat + slot.radix.toNat ≤ 64)
    (hi : slot.index.toNat < 2 ^ slot.radix.toNat) :
    ∃ ptr depth, slot.getCapPtr p = some (ptr, depth) ∧
      Resolves cfg s root ptr.toNat depth.toNat
        (toKernelV c.getAddress + entrySize * slot.index.toNat) := by
  have hr : slot.radix.toNat < 64 := by
    by_contra hge
    have : 2 ^ 64 ≤ 2 ^ c.radix := Nat.pow_le_pow_right (by decide) (by omega)
    have hfit := hlive.1
    rw [entrySize] at hfit
    omega
  obtain ⟨ptr, depth, hget, hptr, hdepth⟩ := getCapPtr_eq p slot hr h64 hi
  refine ⟨ptr, depth, hget, ?_⟩
  rw [hptr, hdepth, hradix]
  exact hpath.append hc hlive (hradix ▸ hi) (hradix ▸ h64) (.inl hroot)

/-- The path of slot 1 of the nested CNode. -/
theorem getCapPtr_resolves_nested : ∃ s₀ s root c, Boot .virt demoImage s₀ ∧
    Run .virt (fun _ _ _ _ => True) s₀ s ∧
    CNodePath .virt s 19 root 18 c ∧ ∃ ptr depth,
      (slotOf nestedCNode).getCapPtr .debug = some (ptr, depth) ∧
      Resolves .virt s root ptr.toNat depth.toNat (toKernelV c.getAddress + entrySize * 1) := by
  obtain ⟨s₀, s, t, root, c, hboot, hrun, -, -, -, hheld, htest⟩ :=
    exists_held (fun _ root _ => root.radix = 18) (by decide +kernel)
  have hroot : root.cap.radix ≠ 0 := by
    rw [of_decide_eq_true htest]
    decide
  have hc : c.radix ≠ 0 := by
    rw [← hheld.radix]
    decide
  exact ⟨s₀, s, root.cap, c, hboot, hrun, hheld.path,
    getCapPtr_resolves .debug hroot hc hheld.path hheld.live hheld.radix hheld.depth (by decide)⟩

/-- **Placement.** After a `copy` that returned a capability, the client's bookkeeping is right if
and only if the path of the slot fits. After a `mint` it is also necessary that this path, looked up
from the CNode instead of the root, leads to the slot. -/
theorem placement_iff {t : ThreadInfo} {root : CNodeEntry} {c : CapabilityData}
    {cnode : CNodeCapability} (hs : HeapWF cfg s) (hcur : s.curRegBase = s.current)
    (ht : s.tcbs s.current = some t) (hroot : t.rootCnode = some root)
    (hheld : Held cfg s root.cap cnode c) (p : Profile) (regs : Registers) :
    (∀ (K : Type) [Copyable K] (cap new : Capability K) (cnode' : CNodeCapability) (s' : KState),
      cnode.copy cfg p regs cap s = .ok (.ok new, cnode') s' →
      (Placed cfg s s' root.cap cap id new (cursorSlot cnode c) ↔ PathFits cfg root.cap cnode)) ∧
    ∀ (K : Type) [Mintable K] (cap new : Capability K) (capVal : UInt64) (cnode' : CNodeCapability)
      (s' : KState), cnode.mint cfg p regs cap capVal s = .ok (.ok new, cnode') s' →
      (Placed cfg s s' root.cap cap (·.setCapDepVal capVal) new (cursorSlot cnode c) ↔
        PathFits cfg root.cap cnode ∧
        Leads cfg s ((cnode.capPtr.toNat <<< cnode.capData.radix.toNat) % 2 ^ 64 +
          cnode.capData.cursor.toNat) c (cnode.capDepth.toNat + cnode.capData.radix.toNat)
          (cursorSlot cnode c)) := by
  obtain ⟨q, -, hq, hk, hres⟩ := hheld.path.resolves (fun _ h => h) fun _ _ _ h => h
  constructor
  · intro K _ cap new cnode' s' hcopy
    obtain ⟨v, hget, hsys⟩ := copy_ok hheld hcopy
    obtain ⟨src, d, rawCap, dest, hlead, hsrc, hd, hleadd, hdest, hnone, hobj, hcaps⟩ :=
      cnodeCall_ok hs hcur ht hroot hres.leads hq hk (by decide) hsys
    rw [hheld.placed_iff (f := id) hget hlead hsrc hd hdest hnone hobj hcaps, and_iff_left_iff_imp]
    rintro ⟨-, hfit, -⟩
    have hindex : (slotOf cnode).index.toUInt64.toNat = cnode.capData.cursor.toNat := by
      rw [UInt32.toNat_toUInt64]
      exact (UInt64.toNat_toUInt32 _).trans (Nat.mod_eq_of_lt hfit)
    rw [hindex, show (slotOf cnode).radix.toNat = c.radix from hheld.radix] at hleadd
    exact leads_index hheld.live (hheld.radix ▸ hheld.cursor) hleadd
  · intro K _ cap new capVal cnode' s' hmint
    obtain ⟨v, hget, hsys⟩ := mint_ok hheld hmint
    obtain ⟨src, d, rawCap, dest, hlead, hsrc, hd, hleadd, hdest, hnone, hobj, hcaps⟩ :=
      cnodeCall_ok hs hcur ht hroot hres.leads hq hk (by decide) hsys
    rw [hheld.placed_iff (f := (·.setCapDepVal capVal)) hget hlead hsrc hd hdest hnone hobj hcaps]
    refine and_congr_right fun ⟨_, hfit, _⟩ => ?_
    obtain ⟨ptr, depth, hget', hptr, hdepth⟩ := getCapPtr_eq p (slotOf cnode) hheld.radix_lt
      hheld.depth (index_lt hheld.cursor)
    obtain ⟨hptr', hdepth'⟩ := Prod.mk.inj (Option.some.inj (hget.symm.trans hget'))
    rw [hptr', hdepth', hptr, hdepth, show (slotOf cnode).index.toNat = cnode.capData.cursor.toNat
      from (UInt64.toNat_toUInt32 _).trans (Nat.mod_eq_of_lt hfit)] at hleadd
    exact ⟨fun h => h ▸ hleadd, fun h => hleadd.unique h⟩

/-- A copy of the notification into the nested CNode. -/
theorem placement_of_copy : ∃ s₀ s s' root c new cnode', Boot .virt demoImage s₀ ∧
    Run .virt (fun _ _ _ _ => True) s₀ s ∧ Held .virt s root nestedCNode c ∧
    nestedCNode.copy .virt .debug {} ntfnCap s = .ok (.ok new, cnode') s' ∧
    Placed .virt s s' root ntfnCap id new (cursorSlot nestedCNode c) := by
  obtain ⟨s₀, s, t, root, c, hboot, hrun, hcur, ht, hroot, hheld, htest⟩ :=
    exists_held (fun s root _ => root.radix = 18 &&
      returnsWith (nestedCNode.copy .virt .debug {} ntfnCap s) fun r _ => okAnd r.1 fun _ => true)
      (by decide +kernel)
  obtain ⟨hradix, htest⟩ := Bool.and_eq_true_iff.1 htest
  obtain ⟨⟨r, cnode'⟩, s', hcopy, hok⟩ := exists_of_returnsWith htest
  obtain ⟨new, rfl, -⟩ := exists_of_okAnd hok
  refine ⟨s₀, s, s', root.cap, c, new, cnode', hboot, hrun, hheld, hcopy, ?_⟩
  refine ((placement_iff (heapWF_of_run hboot hrun) hcur ht hroot hheld .debug {}).1 _ _ _ _ _
    hcopy).2 ⟨by decide, by decide, .inl ?_⟩
  rw [of_decide_eq_true hradix]
  decide

/-- The notification minted into the nested CNode goes into slot 0 instead of slot 1: the path
`19 << 4 + 1`, looked up from the CNode, starts with four zero bits. -/
theorem mint_misplaced : ∃ s₀ s s' root c new cnode', Boot .virt demoImage s₀ ∧
    Run .virt (fun _ _ _ _ => True) s₀ s ∧ Held .virt s root nestedCNode c ∧
    nestedCNode.mint .virt .debug {} ntfnCap 7 s = .ok (.ok new, cnode') s' ∧
    s'.capAt (cursorSlot nestedCNode c) = none ∧
    ¬Placed .virt s s' root ntfnCap (·.setCapDepVal 7) new (cursorSlot nestedCNode c) := by
  obtain ⟨s₀, s, t, root, c, hboot, hrun, hcur, ht, hroot, hheld, htest⟩ :=
    exists_held (fun s _ c => returnsWith (nestedCNode.mint .virt .debug {} ntfnCap 7 s)
      fun r s' => okAnd r.1 fun _ => s'.capAt (cursorSlot nestedCNode c) = none) (by decide +kernel)
  obtain ⟨⟨r, cnode'⟩, s', hmint, hok⟩ := exists_of_returnsWith htest
  obtain ⟨new, rfl, hempty⟩ := exists_of_okAnd hok
  have hnone := of_decide_eq_true hempty
  refine ⟨s₀, s, s', root.cap, c, new, cnode', hboot, hrun, hheld, hmint, hnone, fun hplaced => ?_⟩
  obtain ⟨_, _, _, -, -, -, hsome⟩ := hplaced.derived
  cases hnone.symm.trans hsome

end Client

end Zoeax
