import Zoeax.Verify.Calls
import Zoeax.Verify.Segments
import Zoeax.Verify.Unmap

/-!
# The root server's loader (`ElfProgramMapper`)

The loader of the root server works in its own address space and builds another one with system
calls. The two have no table in common (`Spaces`), so what is done to one of them leaves the other
alone. A page of the target is filled through an alias in the loader's own space, where the machine
translates the stores to the frame of the page (`UserSpace.store?_eq`).
-/

namespace Zoeax

open Lib Exec CapabilityData
open PageTable (entry)

variable {cfg : Config} {s s' : KState} {own target v : Nat} {done : Pages}

/-! ## What the machine does with a store -/

namespace UserSpace

variable {root : Nat}

/-- The machine walks where the kernel walks. -/
theorem walk_of_reach (h : UserSpace s root) (hv : v < 2 ^ 47) {j t : Nat}
    (hr : Radix.Reach sv48 s.mem 3 root v j t) :
    Sv48.walk s.mem 3 root v = Sv48.walk s.mem j t v := by
  induction hr with
  | root => rfl
  | @down j t u hr hnext ih =>
    have hvalid : Pte.isValid (s.mem (entry t (getVpn v (j + 1)))) = true := by
      by_contra hinvalid
      cases hnext.symm.trans (sv48_next_eq_none.2 (Bool.not_eq_true _ ▸ hinvalid))
    obtain ⟨husable, hleaf, htarget⟩ := h.pointers hv hr hvalid
    obtain rfl : _ = u := Option.some.inj ((sv48_next_of_valid hvalid).symm.trans hnext)
    rw [ih, Sv48.walk]
    simp only [entry_sv48, husable, hleaf, htarget, Bool.not_true, Bool.false_eq_true, if_false]

/-- A store to a page that is mapped for the user and writable goes to its frame. -/
theorem store?_eq (h : UserSpace s root) (hv : v < 2 ^ 47) {t f flags : Nat}
    (hr : Radix.Reach sv48 s.mem 3 root v 0 t)
    (hword : s.mem (entry t (getVpn v 0)) = Pte.write f flags) (hf : f < 2 ^ 47)
    (hal : f % 4096 = 0) (hflags : flags < 2 ^ 10)
    (hbits : ∀ i ∈ [0, 1, 2, 4], flags.testBit i = true) :
    Sv48.store? s.mem root v = some (f + v % 4096) := by
  have hbit : ∀ i ∈ [0, 1, 2, 4], (Pte.write f flags).toNat.testBit i = true := by
    intro i hi
    have hlt : i < 10 := by
      simp only [List.mem_cons, List.not_mem_nil, or_false] at hi
      omega
    rw [Pte.testBit_write_flags hf hflags hlt]
    exact hbits i hi
  have hwalk : Sv48.walk s.mem 3 root v = some (0, Pte.write f flags) := by
    rw [h.walk_of_reach hv hr, Sv48.walk, entry_sv48, hword, Sv48.usable, Sv48.leaf, Sv48.valid,
      Sv48.readable, hbit 0 (by decide), hbit 1 (by decide)]
    rfl
  rw [Sv48.store?, Sv48.canonical, decide_eq_true hv, Bool.true_or, if_pos rfl, hwalk]
  change (if Sv48.user (Pte.write f flags) && Sv48.writable (Pte.write f flags) then
    some (Sv48.ppn (Pte.write f flags) * 2 ^ 12 + v % 2 ^ (12 + 9 * 0)) else none) = _
  rw [Sv48.user, Sv48.writable, hbit 4 (by decide), hbit 2 (by decide), Pte.ppn_write hf hal hflags]
  rfl

end UserSpace

/-! ## Two address spaces -/

/-- The address spaces of `own` and of `target` have no table in common, and `target` has the pages
of `done`. -/
structure Spaces (cfg : Config) (s : KState) (own target : Nat) (done : Pages) : Prop where
  loaded : Loaded cfg s target done
  space : UserSpace s own
  apart : ∀ {u v i j t}, u < 2 ^ 47 → v < 2 ^ 47 → Radix.Reach sv48 s.mem 3 own u i t →
    ¬Radix.Reach sv48 s.mem 3 target v j t

namespace Spaces

theorem entry_ne (h : Spaces cfg s own target done) {u i j t t' : Nat} (hu : u < 2 ^ 47)
    (hv : v < 2 ^ 47) (hr : Radix.Reach sv48 s.mem 3 own u i t)
    (hr' : Radix.Reach sv48 s.mem 3 target v j t') {k k' : Nat} (hk : k < 512) (hk' : k' < 512) :
    entry t k ≠ entry t' k' := fun heq => by
  have ht : t % 4096 = 0 := hr.isTable (F := sv48) h.space.tree.isTable
  have ht' : t' % 4096 = 0 := hr'.isTable (F := sv48) h.loaded.space.tree.isTable
  obtain ⟨rfl, -⟩ := entry_inj ht ht' hk hk' heq
  exact h.apart hu hv hr hr'

/-- The own space does not depend on the memory outside its tables. -/
theorem of_target (h : Spaces cfg s own target done) {done' : Pages}
    (hloaded : Loaded cfg s' target done') (hobj : ∀ o ∈ s.objects, o ∈ s'.objects)
    (hmem : ∀ {u i t}, u < 2 ^ 47 → Radix.Reach sv48 s.mem 3 own u i t →
      ∀ k < 512, s'.mem (entry t k) = s.mem (entry t k))
    (hreach : ∀ {v j t}, v < 2 ^ 47 → Radix.Reach sv48 s'.mem 3 target v j t →
      Radix.Reach sv48 s.mem 3 target v j t ∨
        ∀ {u i}, u < 2 ^ 47 → ¬Radix.Reach sv48 s.mem 3 own u i t) :
    Spaces cfg s' own target done' := by
  refine ⟨hloaded, h.space.of_mem hobj hmem, fun hu hv hr hr' => ?_⟩
  have hold := (Radix.reach_congr_mem (S := {v | v < 2 ^ 47})
    (fun hv hr => hmem hv hr _ (getVpn_lt ..)) hu).1 hr
  rcases hreach hv hr' with hold' | hnew
  · exact h.apart hu hv hold hold'
  · exact hnew hu hold

/-- Neither depends on capabilities and threads. -/
theorem congr (h : Spaces cfg s own target done) (hwf : HeapWF cfg s') (hmem : s'.mem = s.mem)
    (hobj : s'.objects = s.objects) : Spaces cfg s' own target done :=
  h.of_target (h.loaded.congr hwf hmem hobj) (fun _ ho => hobj ▸ ho)
    (fun _ _ _ _ => congrFun hmem _) fun _ hr => .inl (hmem ▸ hr)

theorem create (h : Spaces cfg s own target done) {o : Object} (hc : Creates cfg s s' o) :
    Spaces cfg s' own target done :=
  h.of_target (h.loaded.create hc) hc.mono
    (fun hu hr _ hk => hc.mem_table h.loaded.wf (h.space.tables hu hr) hk)
    fun hv hr => .inl ((h.loaded.space.reach_create h.loaded.wf hc hv).1 hr)

/-- The page `f` of the target is filled. -/
theorem fill (h : Spaces cfg s own target done) (hv : v < 2 ^ 47) {pte : UInt64}
    (hpte : s.leaf? target v = some pte) {img : PageImage} (himg : done (v / 2 ^ 12) = some img)
    (src : Nat → UInt8) {n : Nat} (hn : n ≤ pageSize) :
    Spaces cfg (s.copyBytes (Pte.target pte) src n) own target (Function.update done (v / 2 ^ 12)
      (some { img with byte := fun i => if i < n then src i else img.byte i })) := by
  have hf := h.loaded.frames v hv pte hpte
  refine h.of_target (h.loaded.fill hv hpte himg src hn) (fun _ ho => ho)
    (fun hu hr _ hk => h.loaded.wf.mem_copyBytes hf (h.space.tables hu hr) src hn hk)
    fun hv hr => ?_
  exact .inl ((Radix.reach_congr_mem (S := {v | v < 2 ^ 47}) (fun hv hr =>
    h.loaded.wf.mem_copyBytes hf (h.loaded.space.tables hv hr) src hn (getVpn_lt ..)) hv).1 hr)

section Write

variable {l t : Nat} (hv : v < 2 ^ 47)

include hv

/-- A blank page is mapped in the target. -/
theorem setPage (h : Spaces cfg s own target done) {f flags : Nat} (hf : Blank s target f)
    (hend : Radix.End sv48 s.mem 3 target v 0 t) (hflags : flags < 2 ^ 10) :
    Spaces cfg (s.setWord (entry t (getVpn v 0)) (Pte.write f (flags ||| pageV))) own target
      (Function.update done (v / 2 ^ 12) (some ⟨flags ||| pageV, fun _ => 0⟩)) := by
  refine h.of_target (h.loaded.setPage hf hv hend hflags) (fun _ ho => ho) (fun hu hr k hk => ?_)
    fun hu hr => .inl (h.loaded.space.tree.unshared.reach_of_setLeaf hv hend hu hr)
  exact KState.mem_setWord_of_ne s (h.entry_ne hu hv hr hend.reach hk (getVpn_lt ..)) _

/-- A new table is linked in the target. -/
theorem link (h : Spaces cfg s own target done) {y : Nat}
    (hend : Radix.End sv48 s.mem 3 target v (l + 1) t) (hy : SpareTable cfg s target (2 ^ 47) y)
    (htable : s.IsTable y)
    (hnew : ∀ {u i}, u < 2 ^ 47 → ¬Radix.Reach sv48 s.mem 3 own u i y) :
    Spaces cfg (s.setWord (entry t (getVpn v (l + 1))) (Pte.write y pageV)) own target done := by
  refine h.of_target (h.loaded.link hv hend hy htable) (fun _ ho => ho) (fun hu hr k hk => ?_)
    fun hu hr => ?_
  · exact KState.mem_setWord_of_ne s (h.entry_ne hu hv hr hend.reach hk (getVpn_lt ..)) _
  · rcases h.loaded.space.tree.unshared.reach_of_link hv hend hy.spare hy.next_write hu hr with
      hold | ⟨-, rfl, -⟩
    · exact .inl hold
    · exact .inr hnew

theorem mem_setOwn (h : Spaces cfg s own target done) (hend : Radix.End sv48 s.mem 3 own v 0 t)
    (w : UInt64) {u j t' : Nat} (hu : u < 2 ^ 47) (hr : Radix.Reach sv48 s.mem 3 target u j t')
    (i : Nat) (hi : i < 512) :
    (s.setWord (entry t (getVpn v 0)) w).mem (entry t' i) = s.mem (entry t' i) :=
  KState.mem_setWord_of_ne s (h.entry_ne hv hu hend.reach hr (getVpn_lt ..) hi).symm _

/-- A last-level entry of the own space changes. -/
theorem setOwn (h : Spaces cfg s own target done) (hend : Radix.End sv48 s.mem 3 own v 0 t)
    {w : UInt64} (hw : Pte.isValid w = false → w = 0) :
    Spaces cfg (s.setWord (entry t (getVpn v 0)) w) own target done := by
  have ht := h.space.tables hv hend.reach
  have htables : ∀ {u j t'}, u < 2 ^ 47 → Radix.Reach sv48 s.mem 3 target u j t' → ∀ i < 512,
      (s.setWord (entry t (getVpn v 0)) w).mem (entry t' i) = s.mem (entry t' i) :=
    fun hu hr => h.mem_setOwn hv hend w hu hr
  refine ⟨?_, h.space.setLeaf hv hend hw, fun hu hu' hr hr' => ?_⟩
  · refine h.loaded.of_mem (h.loaded.wf.of_eq rfl rfl)
      (h.loaded.zero.setWord h.loaded.wf ht (getVpn_lt ..) _) (fun _ ho => ho) htables
      fun u hu pte hpte i hi => ?_
    exact KState.mem_setWord_of_ne s
      (h.loaded.wf.word_ne_entry (h.loaded.frames u hu pte hpte) ht hi (getVpn_lt ..)) _
  · exact h.apart hu hu' (h.space.tree.unshared.reach_of_setLeaf hv hend hu hr)
      ((Radix.reach_congr_mem (S := {v | v < 2 ^ 47})
        (fun hv hr => htables hv hr _ (getVpn_lt ..)) hu').1 hr')

end Write

/-- A new root is apart from an address space that is there. -/
theorem newRoot (hwf : HeapWF cfg s) (hzero : FreeZero cfg s)
    (hlow : ∀ i < 256, s.pte (imagePhys cfg.kernelVmRoot) i = 0) (hspace : UserSpace s own)
    {o : Object} (hk : o.kind = .pageTable) (hc : Creates cfg s s' o) :
    Spaces cfg (s'.madeRoot cfg o.addr) own o.addr fun _ => none := by
  have hwf' := hc.wf hwf
  have htable : s'.IsTable o.addr := KState.isTable_iff.2 ⟨o, hc.live, hk, rfl⟩
  have hbounds := hwf'.table_bounds htable
  have hlow' : ∀ i < 256, s'.pte (imagePhys cfg.kernelVmRoot) i = 0 := by
    intro i hi
    rcases hc.mem (entry (imagePhys cfg.kernelVmRoot) i) with heq | ⟨hz, -⟩
    · exact heq.trans (hlow i hi)
    · exact hz
  -- the tables of the own space are older than the new one
  have hne : ∀ {u i t}, u < 2 ^ 47 → Radix.Reach sv48 s.mem 3 own u i t → t ≠ o.addr := by
    rintro u i t hu hr rfl
    exact hc.not_isObject hwf (.inr rfl) (hspace.tables hu hr)
  have hmem : ∀ {u i t}, u < 2 ^ 47 → Radix.Reach sv48 s.mem 3 own u i t → ∀ k < 512,
      (s'.madeRoot cfg o.addr).mem (entry t k) = s.mem (entry t k) := by
    intro u i t hu hr k hk
    have ht : t % 4096 = 0 := hr.isTable (F := sv48) hspace.tree.isTable
    have := hne hu hr
    rw [KState.mem_madeRoot_of_ne (by rw [entry]; omega)]
    exact hc.mem_table hwf (hspace.tables hu hr) hk
  refine ⟨.of_madeRoot hwf' (hc.freeZero hzero) htable hlow', hspace.of_mem hc.mono hmem,
    fun hu hv hr hr' => ?_⟩
  have hold := (Radix.reach_congr_mem (S := {v | v < 2 ^ 47})
    (fun hv hr => hmem hv hr _ (getVpn_lt ..)) hu).1 hr
  exact hne hu hold (Radix.reach_of_empty (Loaded.empty_madeRoot hlow') hv hr').2

end Spaces

/-! ## The loader at work -/

namespace Client

variable {root c : CapabilityData} {m m' : ElfProgramMapper} {p : Profile} {regs : Registers}

theorem attempt_ok {α : Type} {x : UM α} {r : Except SysCallFailed α} :
    attempt x s = .ok (.ok r) s' ↔ x s = .ok r s' := Fallible.lift_ok

theorem userFlags_lt (flags : PageFlags) : pageU ||| flags.entryBits < 2 ^ 10 := by
  obtain ⟨w, r, x⟩ := flags
  cases w <;> cases r <;> cases x <;> decide

/-- The loader runs in the address space of `own` and builds that of `target`; it has a CNode with
room in it, untyped memory, and the names of the two roots. -/
structure Workspace (cfg : Config) (s : KState) (root c : CapabilityData) (own target : Nat)
    (m : ElfProgramMapper) (done : Pages) : Prop where
  caller : Caller s root
  active : s.satp = own
  ready : Ready cfg s root m.cnode c
  ut : Names cfg s root m.ut.capPtr m.ut.capDepth .untyped 0
  rootTable : Names cfg s root m.rootTable.capPtr m.rootTable.capDepth .pageTable own
  targetRootVspace :
    Names cfg s root m.targetRootVspace.capPtr m.targetRootVspace.capDepth .pageTable target
  free : m.freeAddress.toNat < 2 ^ 47
  spaces : Spaces cfg s own target done

namespace Workspace

theorem continues (h : Workspace cfg s root c own target m done) (hs : Continues s s')
    {done' : Pages} (hspaces : Spaces cfg s' own target done') :
    Workspace cfg s' root c own target m done' where
  caller := h.caller.continues hs
  active := hs.satp.trans h.active
  ready := h.ready.continues hs
  ut := h.ut.continues hs
  rootTable := h.rootTable.continues hs
  targetRootVspace := h.targetRootVspace.continues hs
  free := h.free
  spaces := hspaces

theorem advance (h : Workspace cfg s root c own target m done) :
    Workspace cfg s root c own target { m with cnode := m.cnode.advance } done :=
  { h with ready := h.ready.advance }

/-- Calls that failed, and copies, leave the memory alone. -/
theorem congr (h : Workspace cfg s root c own target m done) (hs : Continues s s')
    (hmem : s'.mem = s.mem) (hobj : s'.objects = s.objects) :
    Workspace cfg s' root c own target m done :=
  h.continues hs (h.spaces.congr (hs.heapWF hobj h.spaces.loaded.wf) hmem hobj)

/-- A slot is taken and a frame is retyped into it. -/
theorem retype (h : Workspace cfg s root c own target m done) {K : Type} [FixedSizeObject K]
    (hk : KernelObject.capType K = .page ∨ KernelObject.capType K = .pageTable) {slot : CSlot}
    {cnode' : CNodeCapability} {s₁ : KState} {cap : Capability K}
    (hslot : m.cnode.takeSlot p s = .ok (.ok (slot, cnode')) s₁)
    (hret : m.ut.retypeSingleWithFixedSize cfg p regs K slot s₁ = .ok (.ok cap) s') :
    ∃ o, o.kind = KernelObject.capType K ∧ Creates cfg s s' o ∧ Continues s s' ∧
      Names cfg s' root cap.capPtr cap.capDepth (KernelObject.capType K) o.addr ∧
      Workspace cfg s' root c own target { m with cnode := cnode' } done := by
  obtain ⟨rfl, rfl, rfl, hi⟩ := h.ready.takeSlot_ok hslot
  obtain ⟨hget, o, hkind, hgrant⟩ := retypeSingle_ok h.caller h.spaces.loaded.wf h.ready hk h.ut
    ⟨rfl, rfl, rfl⟩ hi hret
  have hlead := (h.ready.continues hgrant.continues).leads ⟨rfl, rfl, rfl⟩ hi hget
  exact ⟨o, hkind, hgrant.creates, hgrant.continues, hkind ▸ hgrant.names hlead,
    h.advance.continues hgrant.continues (h.spaces.create hgrant.creates)⟩

/-- **A round of `map_page_tables`.** The new table is linked in the target, or left behind. -/
theorem mapTable (h : Workspace cfg s root c own target m done) {f : Nat} (hf : Blank s target f)
    {o : Object} {u : KState} {cap : PageTableCapability} {vaddr : UInt64}
    (hv : vaddr.toNat < 2 ^ 47)
    (hk : o.kind = .pageTable) (hc : Creates cfg u s o)
    (hn : Names cfg s root cap.capPtr cap.capDepth .pageTable o.addr) {r : SysCallRes}
    (hspaces : Spaces cfg u own target done)
    (hmap : PageTableCapability.map cfg regs cap m.targetRootVspace vaddr s = .ok r s') :
    Continues s s' ∧ Workspace cfg s' root c own target m done ∧ Blank s' target f := by
  cases r with
  | error e =>
    have hrun : (Call.mapPageTable cap.capPtr cap.capDepth m.targetRootVspace.capPtr
      m.targetRootVspace.capDepth vaddr).run cfg regs s = .ok (.error e) s' := hmap
    obtain ⟨hs, hmem, hobj⟩ := Call.run_error h.caller hrun
    exact ⟨hs, h.congr hs hmem hobj, hf.congr hmem hobj⟩
  | ok level =>
    obtain ⟨l, a, hl, hwalk, hmem, hobj, hs⟩ :=
      mapPageTable_ok h.caller h.targetRootVspace hn hmap
    have hwf := h.spaces.loaded.wf
    obtain ⟨t, hend, rfl⟩ := (h.spaces.loaded.space.addressSpace hwf).end_of_walk hv hwalk
    obtain ⟨l, rfl⟩ := Nat.exists_eq_succ_of_ne_zero hl
    obtain ⟨hspare, htable⟩ :=
      hspaces.loaded.space.spare hspaces.loaded.wf hspaces.loaded.zero hc hk
    have hnew : ∀ {u' i}, u' < 2 ^ 47 → ¬Radix.Reach sv48 s.mem 3 own u' i o.addr := by
      intro u' i hu' hr
      exact hc.not_isObject hspaces.loaded.wf (.inr rfl) (hspaces.space.tables hu'
        ((hspaces.space.reach_create hspaces.loaded.wf hc hu').1 hr))
    have hlink := h.spaces.link hv hend hspare htable hnew
    exact ⟨hs, h.continues hs (hlink.congr (hs.heapWF hobj hwf) hmem hobj),
      (hf.link hwf h.spaces.loaded.space hv hend hspare).congr hmem hobj⟩

/-- **`map_page_tables`.** -/
theorem mapPageTables {vaddr : UInt64} (hv : vaddr.toNat < 2 ^ 47) {n f : Nat}
    (h : Workspace cfg s root c own target m done) (hf : Blank s target f)
    (hrun : ElfProgramMapper.mapPageTables cfg p regs vaddr n m s = .ok (.ok m') s') :
    Continues s s' ∧ Workspace cfg s' root c own target m' done ∧ Blank s' target f := by
  induction n generalizing s m with
  | zero => cases hrun
  | succ n ih =>
    simp only [ElfProgramMapper.mapPageTables, Fallible.bind_ok, attempt_ok] at hrun
    obtain ⟨⟨slot, cnode'⟩, s₁, hslot, cap, s₂, hret, r, s₃, hmap, hrun⟩ := hrun
    obtain ⟨o, hk, hc, hs₂, hn, h₂⟩ := h.retype (.inr rfl) hslot hret
    have hf₂ := h.spaces.loaded.blank_create hc hf
    obtain ⟨hs₃, h₃, hf₃⟩ := h₂.mapTable hf₂ hv hk hc hn h.spaces hmap
    have hs : Continues s s₃ := hs₂.trans hs₃
    cases r with
    | error e =>
      obtain ⟨hs', h', hf'⟩ := ih h₃ hf₃ hrun
      exact ⟨hs.trans hs', h', hf'⟩
    | ok level =>
      dsimp only at hrun
      split at hrun
      · obtain ⟨rfl, rfl⟩ := Fallible.pure_ok.1 hrun
        exact ⟨hs, h₃, hf₃⟩
      · obtain ⟨hs', h', hf'⟩ := ih h₃ hf₃ hrun
        exact ⟨hs.trans hs', h', hf'⟩

theorem map_error {cap : PageCapability} {table : PageTableCapability} {vaddr : UInt64}
    {flags : PageFlags} {e : SysCallFailed} (hc : Caller s root)
    (h : PageCapability.map cfg regs cap table vaddr flags s = .ok (.error e) s') :
    Continues s s' ∧ s'.mem = s.mem ∧ s'.objects = s.objects := by
  simp only [PageCapability.map, Fallible.bind_error, Fallible.pure_error, and_false, exists_false,
    or_false] at h
  have hrun : (Call.mapPage cap.capPtr cap.capDepth table.capPtr table.capDepth vaddr flags).run
    cfg regs s = .ok (.error e) s' := h
  exact Call.run_error hc hrun

/-- A blank page is mapped in the target. -/
theorem map (h : Workspace cfg s root c own target m done) {f : Nat} (hf : Blank s target f)
    {cap cap' : PageCapability} {vaddr : UInt64} (hv : vaddr.toNat < 2 ^ 47) {flags : PageFlags}
    (hn : Names cfg s root cap.capPtr cap.capDepth .page f)
    (hmap : PageCapability.map cfg regs cap m.targetRootVspace vaddr flags s = .ok (.ok cap') s') :
    s'.isObject .page f = true ∧
      Workspace cfg s' root c own target m (Function.update done (vaddr.toNat / 2 ^ 12)
        (some ⟨pageU ||| flags.entryBits ||| pageV, fun _ => 0⟩)) ∧
      s'.leaf? target vaddr.toNat = some (Pte.write f (pageU ||| flags.entryBits ||| pageV)) ∧
      Names cfg s' root cap'.capPtr cap'.capDepth .page f := by
  simp only [PageCapability.map, Fallible.bind_ok, Fallible.pure_ok] at hmap
  obtain ⟨_, _, hcall, rfl, rfl⟩ := hmap
  obtain ⟨q, d, a, -, -, -, -, -, hwalk, hmem, hobj, -, hs⟩ :=
    mapPage_ok h.caller h.targetRootVspace hn hcall
  have hwf := h.spaces.loaded.wf
  obtain ⟨t, hend, rfl⟩ := (h.spaces.loaded.space.addressSpace hwf).end_of_walk hv hwalk
  have hpage := h.spaces.setPage hv hf hend (userFlags_lt flags)
  refine ⟨KState.isObject_mono hs.objects hf.live,
    h.continues hs (hpage.congr (hs.heapWF hobj hwf) hmem hobj), ?_, hn.continues hs⟩
  have hleaf := h.spaces.loaded.space.leaf?_setLeaf hv hend
    (Pte.isValid_write_or f (pageU ||| flags.entryBits)) hv
  rw [if_pos rfl] at hleaf
  rw [KState.leaf?, hmem]
  exact hleaf

/-- **`map_page_with_tables`**: a new page is mapped, and it is all zero. -/
theorem mapPageWithTables {vaddr : UInt64} (hv : vaddr.toNat < 2 ^ 47) {flags : PageFlags}
    {cap : PageCapability} (h : Workspace cfg s root c own target m done)
    (hrun : m.mapPageWithTables cfg p regs vaddr flags s = .ok (.ok (cap, m')) s') :
    ∃ f, s'.isObject .page f = true ∧
      Workspace cfg s' root c own target m' (Function.update done (vaddr.toNat / 2 ^ 12)
        (some ⟨pageU ||| flags.entryBits ||| pageV, fun _ => 0⟩)) ∧
      s'.leaf? target vaddr.toNat = some (Pte.write f (pageU ||| flags.entryBits ||| pageV)) ∧
      Names cfg s' root cap.capPtr cap.capDepth .page f := by
  simp only [ElfProgramMapper.mapPageWithTables, Fallible.bind_ok, attempt_ok] at hrun
  obtain ⟨⟨slot, cnode'⟩, s₁, hslot, cap₁, s₂, hret, r, s₃, hmap, hrun⟩ := hrun
  obtain ⟨o, hk, hc, hs₂, hn, h₂⟩ := h.retype (.inl rfl) hslot hret
  have hf := h.spaces.loaded.blank hc hk
  cases r with
  | ok cap₂ =>
    obtain ⟨heq, rfl⟩ := Fallible.pure_ok.1 hrun
    obtain ⟨rfl, rfl⟩ := Prod.mk.inj heq
    exact ⟨o.addr, h₂.map hf hv hn hmap⟩
  | error e =>
    dsimp only at hrun
    split at hrun
    · simp only [Fallible.bind_ok, Fallible.pure_ok] at hrun
      obtain ⟨m₁, s₄, htables, cap₂, s₅, hmap', heq, rfl⟩ := hrun
      obtain ⟨rfl, rfl⟩ := Prod.mk.inj heq
      obtain ⟨hs₃, hmem, hobj⟩ := map_error h₂.caller hmap
      obtain ⟨hs₄, h₄, hf₄⟩ := mapPageTables hv (h₂.congr hs₃ hmem hobj) (hf.congr hmem hobj)
        htables
      exact ⟨o.addr, h₄.map hf₄ hv ((hn.continues hs₃).continues hs₄) hmap'⟩
    · exact (Fallible.throw_ok.1 hrun).elim

/-- The client's name for a page that is not marked as mapped is mapped at `free_address`, and
stores go to the page from there. -/
theorem mapAlias (h : Workspace cfg s root c own target m done) {f q : Nat}
    {cap cap' : PageCapability} {d : CapabilityData} (hf : s.isObject .page f = true)
    (hlead : Leads cfg s cap.capPtr.toNat root cap.capDepth.toNat q) (hslot : s.isSlot q = true)
    (hd : s.capAt q = some d) (hk : d.getCapType = .ok .page) (hframe : d.getFrame = f)
    (hmap : PageCapability.map cfg regs cap m.rootTable m.freeAddress .readandwrite s =
      .ok (.ok cap') s') :
    Workspace cfg s' root c own target m done ∧ Continues s s' ∧ cap'.capPtr = cap.capPtr ∧
      cap'.capDepth = cap.capDepth ∧ s'.capAt q = some (d.setMapped m.freeAddress.toNat) ∧
      (∀ u < 2 ^ 47, s'.leaf? target u = s.leaf? target u) ∧
      Sv48.store? s'.mem s'.satp m.freeAddress.toNat = some f := by
  simp only [PageCapability.map, Fallible.bind_ok, Fallible.pure_ok] at hmap
  obtain ⟨_, _, hcall, rfl, rfl⟩ := hmap
  have hn : Names cfg s root cap.capPtr cap.capDepth .page f :=
    ⟨q, d, hlead, hslot, hd, hk, fun _ => hframe⟩
  obtain ⟨q', d', a, hlead', hd', -, -, hal, hwalk, hmem, hobj, hcap, hs⟩ :=
    mapPage_ok h.caller h.rootTable hn hcall
  obtain rfl : q = q' := hlead.unique hlead'
  obtain rfl : d = d' := Option.some.inj (hd.symm.trans hd')
  have hwf := h.spaces.loaded.wf
  obtain ⟨t, hend, rfl⟩ := (h.spaces.space.addressSpace hwf).end_of_walk h.free hwalk
  have hset := h.spaces.setOwn h.free hend (fun hw => by
    rw [Pte.isValid_write_or] at hw
    cases hw) (w := Pte.write f (pageU ||| PageFlags.readandwrite.entryBits ||| pageV))
  refine ⟨h.continues hs (hset.congr (hs.heapWF hobj hwf) hmem hobj), hs, rfl, rfl, hcap,
    fun u hu => ?_, ?_⟩
  · rw [KState.leaf?, hmem]
    exact UserSpace.leaf?_of_mem (fun hu hr => h.spaces.mem_setOwn h.free hend _ hu hr) hu
  · obtain ⟨hlt, hfal⟩ := hwf.page_lt hf
    have hstore := hset.space.store?_eq h.free
      (h.spaces.space.tree.unshared.end_setLeaf h.free hend).reach
      (KState.mem_setWord_self ..) hlt hfal (by decide) (by decide)
    rw [hmem, hs.satp, h.active, hstore]
    rw [pageSize] at hal
    rw [hal]
    rfl

/-- The alias is unmapped again. -/
theorem unmapAlias (h : Workspace cfg s root c own target m done) {f q : Nat}
    {cap cap' : PageCapability} {d : CapabilityData}
    (hlead : Leads cfg s cap.capPtr.toNat root cap.capDepth.toNat q) (hslot : s.isSlot q = true)
    (hd : s.capAt q = some (d.setMapped m.freeAddress.toNat)) (hk : d.getCapType = .ok .page)
    (hframe : d.getFrame = f) (hdep : d.capDepVal = 0)
    (hunmap : PageCapability.unmap cfg regs cap m.rootTable s = .ok (.ok cap') s') :
    Workspace cfg s' root c own target m done := by
  simp only [PageCapability.unmap, Fallible.bind_ok, Fallible.pure_ok] at hunmap
  obtain ⟨_, _, hcall, rfl, rfl⟩ := hunmap
  have hn : Names cfg s root cap.capPtr cap.capDepth .page f :=
    ⟨q, _, hlead, hslot, hd, hk, fun _ => hframe⟩
  obtain ⟨q', d', a, hlead', hd', hwalk, hmem, hobj, hs⟩ :=
    unmapPage_ok h.caller h.rootTable hn hcall
  obtain rfl : q = q' := hlead.unique hlead'
  obtain rfl := Option.some.inj (hd.symm.trans hd')
  have hwf := h.spaces.loaded.wf
  rw [getMappedAddress_setMapped hdep (h.free.trans (by decide))] at hwalk
  obtain ⟨t, hend, rfl⟩ := (h.spaces.space.addressSpace hwf).end_of_walk h.free hwalk
  exact h.continues hs
    ((h.spaces.setOwn h.free hend fun _ => rfl).congr (hs.heapWF hobj hwf) hmem hobj)

theorem copyToPage_ok {dst a n : Nat} {src : Nat → UInt8} {u : Unit}
    (hstore : Sv48.store? s.mem s.satp dst = some a)
    (h : copyToPage dst src n s = .ok u s') : n ≤ pageSize ∧ s' = s.copyBytes a src n := by
  simp only [copyToPage, bind_ok, get_ok, liftExcept_ok, require_ok] at h
  obtain ⟨_, _, ⟨rfl, rfl⟩, _, _, ⟨hreq, rfl⟩, h⟩ := h
  rw [hstore] at h
  simp only [bind_ok, liftExcept_ok, require_ok, modify_ok] at h
  obtain ⟨_, _, ⟨-, rfl⟩, rfl⟩ := h
  exact ⟨of_decide_eq_true (Bool.and_eq_true_iff.1 hreq).2, rfl⟩

/-- **The bytes of a page** are written through the alias. -/
theorem fill (h : Workspace cfg s root c own target m done) {f flags : Nat} (hv : v < 2 ^ 47)
    {cap : PageCapability} (hf : s.isObject .page f = true) (hflags : flags < 2 ^ 10)
    (hleaf : s.leaf? target v = some (Pte.write f flags))
    (hn : Names cfg s root cap.capPtr cap.capDepth .page f) {img : PageImage}
    (himg : done (v / 2 ^ 12) = some img) {cap₁ cap₂ cap₃ : PageCapability}
    {cnode' : CNodeCapability} {s₁ s₂ s₃ : KState} {src : Nat → UInt8} {n : Nat} {u : Unit}
    (hcopy : m.cnode.takeCopy cfg p regs cap s = .ok (.ok (cap₁, cnode')) s₁)
    (hmap : PageCapability.map cfg regs cap₁ m.rootTable m.freeAddress .readandwrite s₁ =
      .ok (.ok cap₂) s₂)
    (hstore : copyToPage m.freeAddress.toNat src n s₂ = .ok u s₃)
    (hunmap : PageCapability.unmap cfg regs cap₂ m.rootTable s₃ = .ok (.ok cap₃) s') :
    Workspace cfg s' root c own target { m with cnode := cnode' } (Function.update done (v / 2 ^ 12)
      (some { img with byte := fun i => if i < n then src i else img.byte i })) := by
  obtain ⟨rfl, hmem, hobj, hs₁, q, d, hlead, hslot, hd, hk, hframe, hdep⟩ :=
    takeCopy_ok h.caller h.spaces.loaded.wf h.ready hn hcopy
  have h₁ := (h.congr hs₁ hmem hobj).advance
  have hf₁ : s₁.isObject .page f = true := KState.isObject_mono hs₁.objects hf
  obtain ⟨h₂, hs₂, hptr, hdepth, hd₂, hleaf₂, hfree⟩ :=
    h₁.mapAlias hf₁ hlead hslot hd hk hframe hmap
  obtain ⟨hn, rfl⟩ := copyToPage_ok hfree hstore
  have hs₃ : Continues s₂ (s₂.copyBytes f src n) := .memory ..
  have hpte : s₂.leaf? target v = some (Pte.write f flags) := by
    rw [hleaf₂ v hv, KState.leaf?, hmem]
    exact hleaf
  have hfill := h₂.spaces.fill hv hpte himg src hn
  rw [h.spaces.loaded.wf.target_page hf hflags] at hfill
  have h₃ := h₂.continues hs₃ hfill
  have hs : Continues s₁ (s₂.copyBytes f src n) := hs₂.trans hs₃
  refine h₃.unmapAlias ?_ (hs.isSlot hslot) hd₂ hk hframe hdep hunmap
  rw [hptr, hdepth]
  exact leads_continues hs hlead hd

/-- **`map_page`**: a page with the next bytes of the file. -/
theorem mapPage (h : Workspace cfg s root c own target m done) {vaddr : UInt64}
    (hv : vaddr.toNat < 2 ^ 47) {flags : PageFlags} {pStart : Nat → UInt8} {rem rem' offset : Nat}
    (hrun : m.mapPage cfg p regs vaddr pStart flags rem offset s = .ok (.ok (m', rem')) s') :
    rem' = rem - pageSize ∧
      Workspace cfg s' root c own target m' (Function.update done (vaddr.toNat / 2 ^ 12)
        (some ⟨pageU ||| flags.entryBits ||| pageV,
          fun k => if k < min pageSize rem then pStart (offset + k) else 0⟩)) := by
  simp only [ElfProgramMapper.mapPage, Fallible.bind_ok] at hrun
  obtain ⟨⟨cap, m₁⟩, s₁, hpage, hrun⟩ := hrun
  obtain ⟨f, hf, h₁, hleaf, hn⟩ := h.mapPageWithTables hv hpage
  have hflags := Nat.or_lt_two_pow (userFlags_lt flags) (by decide : pageV < 2 ^ 10)
  by_cases hrem : rem = 0
  · rw [if_neg (not_not.2 hrem)] at hrun
    obtain ⟨heq, rfl⟩ := Fallible.pure_ok.1 hrun
    obtain ⟨rfl, rfl⟩ := Prod.mk.inj heq
    refine ⟨by rw [hrem, Nat.zero_sub], ?_⟩
    simp only [hrem, Nat.min_zero, Nat.not_lt_zero, if_false]
    exact h₁
  · rw [if_pos hrem] at hrun
    simp only [Fallible.bind_ok, Fallible.lift_ok, Fallible.pure_ok] at hrun
    obtain ⟨⟨cap₁, cnode'⟩, s₂, hcopy, cap₂, s₃, hmap, _, s₄, hstore, cap₃, s₅, hunmap, _, _, hdel,
      heq, rfl⟩ := hrun
    obtain ⟨-, rfl⟩ := Fallible.pure_ok.1 hdel
    obtain ⟨rfl, rfl⟩ := Prod.mk.inj heq
    have hfill := h₁.fill hv hf hflags hleaf hn (Function.update_self ..) hcopy hmap hstore hunmap
    rw [Function.update_idem] at hfill
    exact ⟨rfl, hfill⟩

theorem flags_getFlags (hdr : Phdr) : pageU ||| (getFlags hdr).entryBits = hdr.flags := by
  unfold getFlags Phdr.flags
  cases hdr.writable <;> cases hdr.readable <;> cases hdr.executable <;> rfl

/-- The loop of `map_program`. -/
theorem mapPages {hdr : Phdr} {n i : Nat} (h : Workspace cfg s root c own target m done)
    (hend : hdr.vaddr + pageSize * (i + n) ≤ 2 ^ 47)
    (hrun : m.mapPages cfg p regs hdr n i (hdr.filesz - pageSize * i) s = .ok (.ok m') s') :
    Workspace cfg s' root c own target m' (hdr.loadPages n i done) := by
  induction n generalizing i m s done with
  | zero =>
    obtain ⟨rfl, rfl⟩ := Fallible.pure_ok.1 hrun
    exact h
  | succ n ih =>
    simp only [ElfProgramMapper.mapPages, Fallible.bind_ok, Fallible.lift_ok, liftExcept_ok,
      arith_ok] at hrun
    obtain ⟨vaddr, _, ⟨hvaddr, rfl⟩, ⟨m₁, rem⟩, s₁, hpage, hrun⟩ := hrun
    have hlt : hdr.vaddr + pageSize * i < 2 ^ 47 := by
      rw [pageSize] at hend ⊢
      omega
    obtain rfl : hdr.vaddr + pageSize * i = vaddr := by
      rw [Profile.add, Profile.wrap_of_lt _ (hlt.trans (by decide))] at hvaddr
      exact Option.some.inj hvaddr
    have haddr : (UInt64.ofNat (hdr.vaddr + pageSize * i)).toNat = hdr.vaddr + pageSize * i :=
      UInt64.toNat_ofNat_of_lt' (hlt.trans (by decide))
    obtain ⟨hrem, h₁⟩ := h.mapPage (haddr.trans_lt hlt) hpage
    rw [haddr, flags_getFlags] at h₁
    rw [hrem, Nat.sub_sub, ← Nat.mul_succ] at hrun
    exact ih h₁ (Nat.add_right_comm i n 1 ▸ hend) hrun

theorem mapProgram {hdr : Phdr} (h : Workspace cfg s root c own target m done)
    (hlt : hdr.memsz < 2 ^ 64)
    (hend : hdr.load = true → hdr.vaddr + pageSize * hdr.pageNum ≤ 2 ^ 47)
    (hrun : m.mapProgram cfg p regs hdr s = .ok (.ok m') s') :
    Workspace cfg s' root c own target m' (hdr.loadInto done) := by
  unfold ElfProgramMapper.mapProgram at hrun
  rw [Phdr.loadInto]
  cases hload : hdr.load with
  | false =>
    rw [hload] at hrun
    obtain ⟨rfl, rfl⟩ := Fallible.pure_ok.1 hrun
    exact h
  | true =>
    rw [hload] at hrun
    simp only [if_true, Fallible.bind_ok, Fallible.lift_ok, liftExcept_ok, arith_ok] at hrun
    obtain ⟨bytes, _, ⟨hbytes, rfl⟩, hrun⟩ := hrun
    rw [Phdr.pageNum_of_alignUp hlt hbytes] at hrun
    exact h.mapPages ((Nat.zero_add _).symm ▸ hend hload) hrun

/-- **The root server's loader**: the pages of the target are those that `loadAll` gives. -/
theorem mapSelf {hs : List Phdr} (h : Workspace cfg s root c own target m done)
    (hlt : ∀ hdr ∈ hs, hdr.memsz < 2 ^ 64)
    (hend : ∀ hdr ∈ hs, hdr.load = true → hdr.vaddr + pageSize * hdr.pageNum ≤ 2 ^ 47)
    (hrun : ElfProgramMapper.mapSelf cfg p regs hs m s = .ok (.ok m') s') :
    Workspace cfg s' root c own target m' (loadAll hs done) := by
  induction hs generalizing m s done with
  | nil =>
    obtain ⟨rfl, rfl⟩ := Fallible.pure_ok.1 hrun
    exact h
  | cons hdr hs ih =>
    obtain ⟨m₁, s₁, hprog, hrun⟩ := Fallible.bind_ok.1 hrun
    have hmem : hdr ∈ hdr :: hs := List.mem_cons_self ..
    exact ih (h.mapProgram (hlt hdr hmem) (hend hdr hmem) hprog)
      (fun g hg => hlt g (List.mem_cons_of_mem _ hg))
      (fun g hg => hend g (List.mem_cons_of_mem _ hg)) hrun

end Workspace

/-! ## The start -/

/-- The loader before it makes the target: it runs in the address space of `own`, memory that is not
in use is zero, and the kernel's root has no user mapping. -/
structure Launch (cfg : Config) (s : KState) (root c : CapabilityData) (own : Nat)
    (cnode : CNodeCapability) (ut : UntypedCapability) (rootTable : PageTableCapability)
    (freeAddress : UInt64) : Prop where
  wf : HeapWF cfg s
  zero : FreeZero cfg s
  lower : ∀ i < 256, s.pte (imagePhys cfg.kernelVmRoot) i = 0
  caller : Caller s root
  active : s.satp = own
  space : UserSpace s own
  ready : Ready cfg s root cnode c
  ut : Names cfg s root ut.capPtr ut.capDepth .untyped 0
  rootTable : Names cfg s root rootTable.capPtr rootTable.capDepth .pageTable own
  free : freeAddress.toNat < 2 ^ 47

/-- `try_new`: the target is an address space of its own, without pages. -/
theorem Launch.tryNew {cnode : CNodeCapability} {ut : UntypedCapability}
    {rootTable : PageTableCapability} {freeAddress : UInt64}
    (h : Launch cfg s root c own cnode ut rootTable freeAddress)
    (hrun : ElfProgramMapper.tryNew cfg p regs cnode ut rootTable freeAddress s = .ok (.ok m) s') :
    ∃ target, Workspace cfg s' root c own target m fun _ => none := by
  simp only [ElfProgramMapper.tryNew, PageTableCapability.makeAsRoot, Fallible.bind_ok,
    Fallible.pure_ok] at hrun
  obtain ⟨⟨slot, cnode'⟩, _, hslot, cap, s₁, hret, _, s₂, ⟨_, _, hmake, rfl, rfl⟩, rfl, rfl⟩ := hrun
  obtain ⟨rfl, rfl, rfl, hi⟩ := h.ready.takeSlot_ok hslot
  obtain ⟨hget, o, hk, hgrant⟩ := retypeSingle_ok h.caller h.wf h.ready (.inr rfl) h.ut
    ⟨rfl, rfl, rfl⟩ hi hret
  have hs₁ := hgrant.continues
  have hn := hgrant.names ((h.ready.continues hs₁).leads ⟨rfl, rfl, rfl⟩ hi hget)
  rw [hk] at hn
  obtain ⟨hmem, hobj, hs₂⟩ := makePageTableRoot_ok (h.caller.continues hs₁) hn hmake
  have hs := hs₁.trans hs₂
  have hspaces := Spaces.newRoot h.wf h.zero h.lower h.space hk hgrant.creates
  exact ⟨o.addr, h.caller.continues hs, hs.satp.trans h.active, h.ready.advance.continues hs,
    h.ut.continues hs, h.rootTable.continues hs, hn.continues hs₂, h.free,
    hspaces.congr (hs₂.heapWF hobj (hgrant.creates.wf h.wf)) hmem hobj⟩

end Client

end Zoeax
