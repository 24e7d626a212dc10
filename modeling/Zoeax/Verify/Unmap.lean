import Zoeax.Verify.Mapping

/-!
# `PageCap::unmap` after `PageCap::map`

A page capability is used to map its page, other capabilities are used to map, unmap and link tables
at other pages below the same root (`OtherOps`), and then the capability is used to unmap.

- `unmap_undoes_iff`: where every table that is linked meanwhile was zero and outside the tree,
  `unmap` undoes `map` exactly when the flags do not disturb the frame number in the entry;
- `not_undone_of_relink`: a table that is linked a second time gives two pages one entry.
-/

namespace Zoeax

open Lib Exec
open PageTable (entry)

variable {cfg : Config} {s s₁ s₂ : KState} {root bound vaddr : Nat}

/-! ## The capability -/

namespace CapabilityData

variable {c : CapabilityData}

/-- The address goes into the word beside the one that is there. -/
theorem getMappedAddress_setMapped_or (c : CapabilityData) {v : Nat} (hv : v < 2 ^ 48) :
    (c.setMapped v).getMappedAddress = c.getMappedAddress ||| v := by
  have hmask : (0xffffffffffff : Nat) = 2 ^ 48 - 1 := by decide
  have hword : (1 <<< 48) ||| (v &&& 0xffffffffffff) = 1 * 2 ^ 48 + v := by
    rw [hmask, Nat.and_two_pow_sub_one_of_lt_two_pow hv, shiftLeft_or_of_lt hv]
  have hmod : (1 * 2 ^ 48 + v) % 2 ^ 64 % 2 ^ 48 = v := by omega
  change (c.capDepVal ||| UInt64.ofNat ((1 <<< 48) ||| (v &&& 0xffffffffffff))).toNat % 2 ^ 48 = _
  rw [UInt64.toNat_or, Nat.or_mod_two_pow, UInt64.toNat_ofNat', hword, hmod, getMappedAddress]

/-- A capability whose word is zero records a 48-bit address. -/
theorem getMappedAddress_setMapped (hc : c.capDepVal = 0) {v : Nat} (hv : v < 2 ^ 48) :
    (c.setMapped v).getMappedAddress = v := by
  have hzero : c.getMappedAddress = 0 := by
    rw [getMappedAddress, hc]
    rfl
  rw [getMappedAddress_setMapped_or c hv, hzero, Nat.zero_or]

theorem setUnmapped_setMapped (hc : c.capDepVal = 0) (v : Nat) :
    (c.setMapped v).setUnmapped = c := by
  cases c
  cases hc
  rfl

end CapabilityData

/-! ## The entry -/

theorem Pte.testBit_write (page flags : Nat) {i : Nat} (h10 : 10 ≤ i) (h64 : i < 64) :
    (Pte.write page flags).toNat.testBit i = (page.testBit (i + 2) || flags.testBit i) := by
  have hi : 12 + (i - 10) = i + 2 := by omega
  rw [Pte.write, UInt64.toNat_ofNat', Nat.testBit_mod_two_pow, Nat.testBit_or,
    Nat.testBit_shiftLeft, Nat.testBit_shiftRight, hi]
  simp [h10, h64]

theorem Pte.testBit_target (pte : UInt64) {i : Nat} (h12 : 12 ≤ i) (h47 : i < 47) :
    (Pte.target pte).testBit i = pte.toNat.testBit (i - 2) := by
  have hi : i - 12 + 10 = i - 2 := by omega
  rw [Pte.target_eq, Nat.testBit_mod_two_pow, ← Nat.shiftLeft_eq, Nat.testBit_shiftLeft,
    Nat.testBit_div_two_pow, hi]
  simp [h12, h47]

/-- The flags have no bit in the frame number of an entry, but for bits that it has. -/
def FlagsInside (page flags : Nat) : Prop :=
  ∀ i, 10 ≤ i → i < 45 → flags.testBit i = true → page.testBit (i + 2) = true

/-- The flags of an entry proper are its low ten bits. -/
theorem flagsInside_of_lt {flags : Nat} (h : flags < 2 ^ 10) (page : Nat) :
    FlagsInside page flags := fun i h10 _ hbit => by
  rw [Nat.testBit_lt_two_pow (h.trans_le (Nat.pow_le_pow_right (by decide) h10))] at hbit
  cases hbit

theorem Pte.target_write_iff {page flags : Nat} (hpage : page < 2 ^ 47) :
    Pte.target (Pte.write page flags) = page ↔ page % 4096 = 0 ∧ FlagsInside page flags := by
  constructor
  · intro h
    have heq := Pte.target_eq (Pte.write page flags)
    refine ⟨by omega, fun i h10 h45 hbit => ?_⟩
    have hi : i + 2 - 2 = i := by omega
    rw [← h, Pte.testBit_target _ (by omega) (by omega), hi, Pte.testBit_write _ _ h10 (by omega),
      hbit, Bool.or_true]
  · rintro ⟨hal, hflags⟩
    have heq := Pte.target_eq (Pte.write page flags)
    refine eq_of_testBit_between (j := 12) (n := 47) (by omega) hal (by omega) hpage
      fun i hlow hhigh => ?_
    have hi : i - 2 + 2 = i := by omega
    have hsub := hflags (i - 2) (by omega) (by omega)
    rw [hi] at hsub
    rw [Pte.testBit_target _ hlow hhigh, Pte.testBit_write _ _ (by omega) (by omega), hi]
    cases hbit : flags.testBit (i - 2) with
    | false => exact Bool.or_false _
    | true => rw [hsub hbit, Bool.true_or]

/-- `Page::unmap` compares addresses of the direct map. -/
theorem toKernelV_eq_iff {page : Nat} (hpage : page < 2 ^ 47) (pte : UInt64) :
    toKernelV page = toKernelV (Pte.getAddress pte) ↔ Pte.target pte = page := by
  have haddr : Pte.getAddress pte < 2 ^ 64 :=
    Nat.lt_of_le_of_lt Nat.and_le_left (Nat.mod_lt _ (by decide))
  rw [Pte.target, direct, toPhys_toKernelV haddr, toKernelV_eq haddr, toKernelV_of_lt hpage]
  omega

/-! ## Operations at other pages -/

/-- An operation on the tables below a root, through a capability. -/
inductive TableOp where
  | map (c : CapabilityData) (vaddr flags : Nat)
  | unmap (c : CapabilityData)
  | link (c : CapabilityData) (vaddr : Nat)

namespace TableOp

/-- The address that the operation walks. -/
def addr : TableOp → Nat
  | map _ vaddr _ => vaddr
  | unmap c => c.getMappedAddress
  | link _ vaddr => vaddr

/-- The operation; what it returns is the capability after it. -/
def run (cfg : Config) (rootTable : CapabilityData) : TableOp → KM CapabilityData
  | map c vaddr flags => PageCap.map cfg c rootTable vaddr flags
  | unmap c => PageCap.unmap cfg c rootTable
  | link c vaddr => do
    let (c, _) ← PageTableCap.map cfg c rootTable vaddr
    return c

/-- A table that is linked is all zero and not in the tree below the root. -/
def LinksSpare (cfg : Config) (rootTable : CapabilityData) (bound : Nat) (s : KState) :
    TableOp → Prop
  | link c _ => SpareTable cfg s rootTable.getFrame bound c.getFrame
  | _ => True

end TableOp

/-- Operations that succeed, each at a page below `bound` other than that of `vaddr`, and each with
`C`. -/
def OtherOps (cfg : Config) (rootTable : CapabilityData) (bound vaddr : Nat)
    (C : KState → TableOp → Prop) : KState → KState → Prop :=
  Relation.ReflTransGen fun s s' => ∃ op c, C s op ∧ op.addr < bound ∧
    op.addr / 2 ^ 12 ≠ vaddr / 2 ^ 12 ∧ op.run cfg rootTable s = .ok c s'

/-- The walk of `vaddr` ends in the entry at `a`, which holds `w`. -/
structure MappedAt (cfg : Config) (s : KState) (root bound vaddr a : Nat) (w : UInt64) : Prop where
  space : AddressSpace cfg s root bound
  lt : vaddr < bound
  ends : ∃ t, Radix.End sv48 s.mem 3 root vaddr 0 t ∧ a = entry t (getVpn vaddr 0)
  word : s.mem a = w

namespace MappedAt

variable {a : Nat} {w : UInt64}

theorem find_eq (h : MappedAt cfg s root bound vaddr a w) :
    PageTable.find cfg root vaddr s = .ok (0, a, w) := by
  obtain ⟨t, hend, rfl⟩ := h.ends
  rw [h.space.find_of_end h.lt hend, h.word]

/-- A write at the end of another walk: at another page, or above the last level. -/
theorem setWord (h : MappedAt cfg s root bound vaddr a w) (hbound : bound ≤ 2 ^ 48) {u l t : Nat}
    {x : UInt64} (hu : u < bound) (hend : Radix.End sv48 s.mem 3 root u l t)
    (hne : l = 0 → u / 2 ^ 12 ≠ vaddr / 2 ^ 12)
    (hspace : AddressSpace cfg (s.setWord (entry t (getVpn u l)) x) root bound) :
    MappedAt cfg (s.setWord (entry t (getVpn u l)) x) root bound vaddr a w := by
  obtain ⟨t', hend', rfl⟩ := h.ends
  have hslot : entry t' (getVpn vaddr 0) ≠ entry t (getVpn u l) := fun heq => by
    obtain ⟨rfl, hagree⟩ := h.space.tree.unshared.agree_of_slot_eq h.lt hu hend'.reach
      hend.reach heq
    exact hne rfl (div_eq_of_agree (hu.trans_le hbound) (h.lt.trans_le hbound) (by decide)
      hagree.symm)
  refine ⟨hspace, h.lt, ⟨t', ⟨?_, absurd rfl⟩, rfl⟩, ?_⟩
  · exact h.space.tree.unshared.reach_update hu hend h.lt hend'.reach
  · exact (Function.update_of_ne hslot ..).trans h.word

/-- One operation at another page leaves the entry as it is. -/
theorem step (h : MappedAt cfg s root bound vaddr a w) (hbound : bound ≤ 2 ^ 48)
    {rootTable c : CapabilityData} (hroot : rootTable.getFrame = root) {op : TableOp}
    (hspare : op.LinksSpare cfg rootTable bound s) (hlt : op.addr < bound)
    (hne : op.addr / 2 ^ 12 ≠ vaddr / 2 ^ 12) (hrun : op.run cfg rootTable s = .ok c s₁) :
    MappedAt cfg s₁ root bound vaddr a w := by
  subst hroot
  cases op with
  | map c' v flags =>
    obtain ⟨-, -, b, hwalk, -, -, rfl⟩ := pageCapMap_ok hrun
    obtain ⟨t, hend, rfl⟩ := h.space.end_of_walk hlt hwalk
    exact h.setWord hbound hlt hend (fun _ => hne) (h.space.setPage hlt hend _ _)
  | unmap c' =>
    obtain ⟨-, -, b, hwalk, -, -, -, rfl⟩ := pageCapUnmap_ok hrun
    obtain ⟨t, hend, rfl⟩ := h.space.end_of_walk hlt hwalk
    exact h.setWord hbound hlt hend (fun _ => hne) (h.space.clear hlt hend)
  | link c' v =>
    obtain ⟨⟨c'', level⟩, s', hmap, hret⟩ := bind_ok.1 hrun
    obtain ⟨-, rfl⟩ := pure_ok.1 hret
    obtain ⟨-, -, l, b, hwalk, hl, -, -, rfl⟩ := pageTableCapMap_ok hmap
    obtain ⟨t, hend, rfl⟩ := h.space.end_of_walk hlt hwalk
    obtain ⟨l, rfl⟩ := Nat.exists_eq_succ_of_ne_zero hl
    exact h.setWord hbound hlt hend (fun h0 => absurd h0 hl) (h.space.link hlt hend hspare)

/-- Operations at other pages leave the entry as it is. -/
theorem run (h : MappedAt cfg s root bound vaddr a w) (hbound : bound ≤ 2 ^ 48)
    {rootTable : CapabilityData} (hroot : rootTable.getFrame = root)
    (hops : OtherOps cfg rootTable bound vaddr (TableOp.LinksSpare cfg rootTable bound) s s₁) :
    MappedAt cfg s₁ root bound vaddr a w := by
  induction hops with
  | refl => exact h
  | tail _ hop ih =>
    obtain ⟨op, c, hspare, hlt, hne, hrun⟩ := hop
    exact ih.step hbound hroot hspare hlt hne hrun

end MappedAt

/-! ## Undoing -/

/-- The state `s₃` undoes what a mapping at `vaddr` did: `s` is the state before the mapping, `s₁`
the state after it, and `s₂` the state before the entry was cleared. -/
structure Undoes (cfg : Config) (root bound vaddr : Nat) (s s₁ s₂ s₃ : KState) : Prop where
  clears : ∃ a pte, PageTable.find cfg root vaddr s₂ = .ok (0, a, pte) ∧ s₃ = s₂.setWord a 0 ∧
    PageTable.find cfg root vaddr s₃ = .ok (0, a, 0)
  others : ∀ v < bound, v / 2 ^ 12 ≠ vaddr / 2 ^ 12 →
    PageTable.find cfg root v s₃ = PageTable.find cfg root v s₂
  inverse : s₂ = s₁ → s₃ = s

/-- A page was mapped with `flags` in a free entry. -/
theorem mappedAt_of_map (h : AddressSpace cfg s root bound) (hv : vaddr < bound)
    {rootTable c c₁ : CapabilityData} (hroot : rootTable.getFrame = root) {flags : Nat}
    (hmap : PageCap.map cfg c rootTable vaddr flags s = .ok c₁ s₁) : c₁ = c.setMapped vaddr ∧
      ∃ a, s.mem a = 0 ∧ s₁ = s.setWord a (Pte.write c.getFrame (flags ||| pageV)) ∧
        MappedAt cfg s₁ root bound vaddr a (Pte.write c.getFrame (flags ||| pageV)) := by
  subst hroot
  obtain ⟨-, rfl, a, hwalk, hinvalid, -, rfl⟩ := pageCapMap_ok hmap
  obtain ⟨t, hend, rfl⟩ := h.end_of_walk hv hwalk
  refine ⟨rfl, _, h.tree.clean hv hend.reach (sv48_next_eq_none.2 hinvalid), rfl, ?_⟩
  exact ⟨h.setPage hv hend _ _, hv, ⟨t, h.tree.unshared.end_setLeaf hv hend, rfl⟩,
    Function.update_self ..⟩

theorem flagsInside_or {page flags : Nat} :
    FlagsInside page (flags ||| pageV) ↔ FlagsInside page flags := by
  refine forall_congr' fun i => forall_congr' fun h10 => ?_
  have hbit : (flags ||| pageV).testBit i = flags.testBit i := by
    rw [Nat.testBit_or, Nat.testBit_lt_two_pow (x := pageV), Bool.or_false]
    exact Nat.lt_of_lt_of_le (by decide) (Nat.pow_le_pow_right (n := 2) (by decide) h10)
  rw [hbit]

/-- What `PageCap::unmap` does with a page that is mapped: it clears the entry if this still has the
frame. -/
theorem MappedAt.unmap_ok_iff {a : Nat} {w : UInt64} (h : MappedAt cfg s root bound vaddr a w)
    (hw : Pte.isValid w = true) {rootTable c : CapabilityData} (hroot : rootTable.getFrame = root)
    (hc : c.capDepVal = 0) (hframe : c.getFrame < 2 ^ 47) (hv : vaddr < 2 ^ 47) {s' : KState} :
    PageCap.unmap cfg (c.setMapped vaddr) rootTable s = .ok c s' ↔
      Pte.target w = c.getFrame ∧ s' = s.setWord a 0 := by
  subst hroot
  have hv48 : vaddr < 2 ^ 48 := by omega
  obtain ⟨t, hend, rfl⟩ := h.ends
  have haddr := CapabilityData.getMappedAddress_setMapped hc hv48
  constructor
  · intro hunmap
    obtain ⟨-, -, b, hwalk, -, heq, -, rfl⟩ := pageCapUnmap_ok hunmap
    rw [haddr, h.space.walk_eq h.lt hend] at hwalk
    cases hwalk
    exact ⟨(toKernelV_eq_iff hframe w).1 (h.word ▸ heq), rfl⟩
  · rintro ⟨htarget, rfl⟩
    have hpage : Page.unmap cfg c.getFrame rootTable.getFrame vaddr s =
        .ok () (s.setWord (entry t (getVpn vaddr 0)) 0) := by
      rw [pageUnmap_of_live (h.space.live h.lt) hend, h.word, if_neg (absurd rfl), hw,
        if_neg (not_not.2 ((toKernelV_eq_iff hframe w).2 htarget))]
      rfl
    refine bind_ok.2 ⟨(), s, liftExcept_ok.2 ⟨?_, rfl⟩,
      bind_ok.2 ⟨(), s.setWord (entry t (getVpn vaddr 0)) 0, ?_, ?_⟩⟩
    · exact require_ok.2 (CapabilityData.isMapped_setMapped c vaddr)
    · rw [haddr]
      exact hpage
    · exact pure_ok.2 ⟨CapabilityData.setUnmapped_setMapped hc vaddr, rfl⟩

/-- **`PageCap::unmap` undoes `PageCap::map`**, after operations at other pages that link only
tables which are zero and not in the tree, exactly when the frame is aligned and the flags stay out
of the frame number. -/
theorem unmap_undoes_iff {rootTable c c₁ : CapabilityData} {flags : Nat}
    (h : AddressSpace cfg s rootTable.getFrame bound) (hlow : 2 ^ 47 ≤ bound)
    (hhigh : bound ≤ 2 ^ 48) (hv : vaddr < 2 ^ 47) (hc : c.capDepVal = 0)
    (hframe : c.getAddress < 2 ^ 47)
    (hmap : PageCap.map cfg c rootTable vaddr flags s = .ok c₁ s₁)
    (hops : OtherOps cfg rootTable bound vaddr (TableOp.LinksSpare cfg rootTable bound) s₁ s₂) :
    (∃ s₃, PageCap.unmap cfg c₁ rootTable s₂ = .ok c s₃ ∧
      Undoes cfg rootTable.getFrame bound vaddr s s₁ s₂ s₃) ↔
    c.getAddress % 4096 = 0 ∧ FlagsInside c.getAddress flags := by
  have hpage : c.getFrame = c.getAddress := direct_of_lt hframe
  rw [← hpage] at hframe ⊢
  obtain ⟨rfl, a, hzero, rfl, hmapped⟩ := mappedAt_of_map h (hv.trans_le hlow) rfl hmap
  have hmapped₂ := hmapped.run hhigh rfl hops
  have hiff : ∀ {s₃}, PageCap.unmap cfg (c.setMapped vaddr) rootTable s₂ = .ok c s₃ ↔
      Pte.target (Pte.write c.getFrame (flags ||| pageV)) = c.getFrame ∧ s₃ = s₂.setWord a 0 :=
    hmapped₂.unmap_ok_iff (Pte.isValid_write_or _ _) rfl hc hframe hv
  rw [Pte.target_write_iff hframe, flagsInside_or] at hiff
  constructor
  · rintro ⟨s₃, hunmap, -⟩
    exact (hiff.1 hunmap).1
  · intro hfits
    refine ⟨s₂.setWord a 0, hiff.2 ⟨hfits, rfl⟩, ?_⟩
    obtain ⟨t, hend, rfl⟩ := hmapped₂.ends
    have hspace := hmapped₂.space.clear hmapped₂.lt hend
    refine ⟨⟨_, _, hmapped₂.find_eq, rfl, ?_⟩, fun v hvb hne => ?_, ?_⟩
    · rw [hspace.find_eq hmapped₂.lt]
      exact congrArg _ (hmapped₂.space.tree.unshared.lookup_setLeaf_self hmapped₂.lt hend)
    · exact hmapped₂.space.find_setWord_of_ne hhigh hmapped₂.lt hend hspace hvb hne
    · rintro rfl
      rw [KState.setWord, KState.setWord]
      simp only [Function.update_idem]
      rw [← hzero, Function.update_eq_self]

/-! ### Below the demo root -/

def demoRootCap : CapabilityData := .new .pageTable (demoTable 0) 0

def demoPageCap : CapabilityData := .new .page 0x80500000 0

/-- A page is mapped at 0, another one at the next page, and the first is unmapped. -/
theorem unmap_undoes_demo : ∃ c₁ s₁ s₂ s₃,
    AddressSpace .virt demoSpace demoRootCap.getFrame (2 ^ 48) ∧
    PageCap.map .virt demoPageCap demoRootCap 0 0x16 demoSpace = .ok c₁ s₁ ∧
    OtherOps .virt demoRootCap (2 ^ 48) 0 (TableOp.LinksSpare .virt demoRootCap (2 ^ 48)) s₁ s₂ ∧
    PageCap.unmap .virt c₁ demoRootCap s₂ = .ok demoPageCap s₃ ∧
    Undoes .virt demoRootCap.getFrame (2 ^ 48) 0 demoSpace s₁ s₂ s₃ := by
  have hmap : PageCap.map .virt demoPageCap demoRootCap 0 0x16 demoSpace =
    .ok (demoPageCap.setMapped 0)
      (demoSpace.setWord (entry (demoTable 3) 0) (Pte.write 0x80500000 0x17)) := rfl
  have hops : OtherOps .virt demoRootCap (2 ^ 48) 0
      (TableOp.LinksSpare .virt demoRootCap (2 ^ 48))
      (demoSpace.setWord (entry (demoTable 3) 0) (Pte.write 0x80500000 0x17))
      ((demoSpace.setWord (entry (demoTable 3) 0) (Pte.write 0x80500000 0x17)).setWord
        (entry (demoTable 3) 1) (Pte.write 0x80501000 0x17)) :=
    .single ⟨.map (.new .page 0x80501000 0) 0x1000 0x16, _, trivial, by decide, by decide, rfl⟩
  obtain ⟨s₃, hunmap, hundoes⟩ := (unmap_undoes_iff demoSpace_linked.space (by decide) (by decide)
    (by decide) rfl (by decide) hmap hops).2 ⟨by decide, flagsInside_of_lt (by decide) _⟩
  exact ⟨_, _, _, s₃, demoSpace_linked.space, hmap, hops, hunmap, hundoes⟩

/-- The table that holds the entry is linked a second time, through another capability, for the
second 2 MiB. The page there is then unmapped with the first. -/
theorem not_undone_of_relink : ∃ c₁ s₁ s₂ s₃,
    AddressSpace .virt demoSpace demoRootCap.getFrame (2 ^ 48) ∧
    PageCap.map .virt demoPageCap demoRootCap 0 0x16 demoSpace = .ok c₁ s₁ ∧
    OtherOps .virt demoRootCap (2 ^ 48) 0 (fun _ _ => True) s₁ s₂ ∧
    PageCap.unmap .virt c₁ demoRootCap s₂ = .ok demoPageCap s₃ ∧
    PageTable.find .virt demoRootCap.getFrame 0x200000 s₃ ≠
      PageTable.find .virt demoRootCap.getFrame 0x200000 s₂ ∧
    ¬Undoes .virt demoRootCap.getFrame (2 ^ 48) 0 demoSpace s₁ s₂ s₃ := by
  have hfind : PageTable.find .virt demoRootCap.getFrame 0x200000
      (((demoSpace.setWord (entry (demoTable 3) 0) (Pte.write 0x80500000 0x17)).setWord
        (entry (demoTable 2) 1) (Pte.write (demoTable 3) pageV)).setWord
        (entry (demoTable 3) 0) 0) ≠
      PageTable.find .virt demoRootCap.getFrame 0x200000
        ((demoSpace.setWord (entry (demoTable 3) 0) (Pte.write 0x80500000 0x17)).setWord
          (entry (demoTable 2) 1) (Pte.write (demoTable 3) pageV)) := by
    decide +kernel
  refine ⟨demoPageCap.setMapped 0,
    demoSpace.setWord (entry (demoTable 3) 0) (Pte.write 0x80500000 0x17), _, _,
    demoSpace_linked.space, rfl, .single ⟨.link (.new .pageTable (demoTable 3) 0) 0x200000, _,
      trivial, by decide, by decide, rfl⟩, rfl, hfind,
    fun h => hfind (h.others _ (by decide) (by decide))⟩

end Zoeax
