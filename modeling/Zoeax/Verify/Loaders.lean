import Zoeax.Verify.KernelLoader
import Zoeax.Verify.Overflow
import Zoeax.Verify.ProgramLoader

/-!
# The two loaders

The kernel loads the root server, and the root server loads other programs, each with code of its
own. Both leave the pages that `loadAll` gives; so they build the same image, and it is the one that
the segments describe unless the size of a segment wraps around (`loaders_agree_iff`).

The root server can start to load after boot: its address space is a tree that the machine walks as
the kernel does (`RootSpace.of_boot`).
-/

namespace Zoeax

open Lib Exec
open PageTable (entry)

variable {cfg : Config} {s s' : KState} {root : Nat}

/-! ## The address space of the root server -/

/-- `root` is the only root, and its user half is a tree for the machine, too. -/
structure RootSpace (cfg : Config) (root : Nat) (s : KState) : Prop where
  paged : Paged cfg s
  zero : FreeZero cfg s
  rooted : s.rooted = [root]
  space : UserSpace s root

namespace RootSpace

theorem booting (h : RootSpace cfg root s) : Booting cfg root s :=
  ⟨h.paged, h.zero, h.rooted ▸ List.mem_singleton_self _⟩

/-- Capabilities, threads and queues do not matter. -/
theorem of_eq (h : RootSpace cfg root s) (hpaged : Paged cfg s') (hmem : s'.mem = s.mem)
    (hobj : s'.objects = s.objects) (hrooted : s'.rooted = s.rooted) : RootSpace cfg root s' where
  paged := hpaged
  zero := h.zero.mono (fun _ ho => hobj ▸ ho) fun a => .inl (congrFun hmem a)
  rooted := hrooted.trans h.rooted
  space := h.space.of_mem (fun _ ho => hobj ▸ ho) fun _ _ _ _ => congrFun hmem _

theorem create (h : RootSpace cfg root s) {o : Object} (hc : Creates cfg s s' o)
    (hpaged : Paged cfg s') (hrooted : s'.rooted = s.rooted) : RootSpace cfg root s' where
  paged := hpaged
  zero := hc.freeZero h.zero
  rooted := hrooted.trans h.rooted
  space := h.space.create h.paged.1 hc

/-- A page is written. -/
theorem setPage (h : RootSpace cfg root s) {f : Nat} (hf : s.isObject .page f = true)
    {mem : Nat → UInt64} (hmem : ∀ a, a < f ∨ f + 4096 ≤ a → mem a = s.mem a) :
    RootSpace cfg root { s with mem := mem } := by
  obtain ⟨o, ho, hk, rfl⟩ := KState.isObject_iff.1 hf
  have hsize := (h.paged.1.frame_bounds ho (.inl hk)).1
  refine ⟨h.paged.setPage hf hmem, h.zero.mono (fun _ ho => ho) fun a => ?_, h.rooted,
    h.space.of_mem (fun _ ho => ho) fun hv hr i hi => hmem _ ?_⟩
  · by_cases ha : a < o.addr ∨ o.addr + 4096 ≤ a
    · exact .inl (hmem a ha)
    · exact .inr (.inr ⟨o, ho, by omega⟩)
  · have := h.paged.1.page_apart ho hk (h.space.tables hv hr)
    rw [entry]
    omega

theorem born (h : RootSpace cfg root s) {o : Object} (ho : o.Fresh cfg s) :
    RootSpace cfg root (s.born o) where
  paged := h.paged.born ho
  zero := h.zero.born o
  rooted := (rooted_born s o).trans h.rooted
  space := h.space.of_mem (fun _ ho' => objects_born s o ▸ List.mem_cons_of_mem _ ho')
    fun hv hr _ hi => h.paged.1.pte_born ho (h.space.tables hv hr) hi

theorem spaceRule (root : Nat) : SpaceRule cfg root (· < 2 ^ 47) (RootSpace cfg root) where
  create s o ho hk h := by
    have hc := Creates.alone ho (.inl hk)
    have hboot := ((booting_spaceStable root).rule .trivial).create s o ho hk h.booting
    exact h.create hc hboot.paged rfl
  link s o p cap vaddr level a ho hk hcap hv hl hp hnone hwalk h := by
    have hboot := ((booting_spaceStable root).rule .trivial).link s o p cap vaddr level a ho hk
      hcap hv hl hp hnone hwalk h.booting
    have hc := Creates.withCap ho (.inr hk) p cap
    have hspace := h.space.create h.paged.1 hc
    obtain ⟨hspare, htable⟩ := h.space.spare h.paged.1 h.zero hc hk
    obtain ⟨t, hend, rfl⟩ := (hspace.addressSpace (hc.wf h.paged.1)).end_of_walk hv hwalk
    obtain ⟨l, rfl⟩ := Nat.exists_eq_succ_of_ne_zero hl
    exact ⟨hboot.paged, hboot.zero, h.rooted, hspace.link hv hend hspare htable⟩
  page s o c p vaddr flags a hnew hv hflags hwalk hfree hp hnone h := by
    have hboot := ((booting_spaceStable root).rule .trivial).page s o c p vaddr flags a hnew hv
      hflags hwalk hfree hp hnone h.booting
    obtain ⟨t, hend, rfl⟩ := (h.space.addressSpace h.paged.1).end_of_walk hv hwalk
    have hleaf := h.space.setLeaf hv hend (w := Pte.write c.getFrame (flags ||| pageV)) fun hw => by
      rw [Pte.isValid_write_or] at hw
      cases hw
    exact ⟨hboot.paged, hboot.zero, h.rooted, hleaf.of_mem (fun _ ho => ho) fun _ _ _ _ => rfl⟩
  fill s f src n hn hf h := h.setPage hf fun a ha => if_neg (by rw [pageSize] at hn; omega)

/-- The first root leads to it. -/
theorem firstRoot : FirstRoot cfg (fun s => (Paged cfg s ∧ FreeZero cfg s) ∧ s.rooted = [])
    (RootSpace cfg) := by
  intro s o c p ho hk hc hp hnone ⟨hs, hrooted⟩
  obtain ⟨hwf, lvl, hpaging⟩ := hs.1.born ho
  have htable : (s.born o).IsTable o.addr :=
    KState.isTable_iff.2 ⟨o, objects_born s o ▸ List.mem_cons_self .., hk, rfl⟩
  have hload := Loaded.of_madeRoot hwf (hs.2.born o) htable fun i hi => hpaging.root_lower hi
  have hboot := booting_madeRoot ho hk hs
  refine ⟨hboot.paged.of_eq rfl rfl rfl rfl, hboot.zero, ?_,
    hload.space.of_mem (fun _ ho => ho) fun _ _ _ _ => rfl⟩
  change o.addr :: (s.born o).rooted = _
  rw [rooted_born, hrooted]

/-- What the rest of boot writes does not matter. -/
theorem placeRule {P : CapProp} : PlaceRule cfg P fun s => ∃ root, RootSpace cfg root s where
  insert _ _ := keeps_insertAfter (fun _ _ _ ⟨root, h⟩ =>
    ⟨root, h.of_eq (h.paged.of_eq rfl rfl rfl rfl) rfl rfl rfl⟩) ..
  newLocal _ _ _ _ := fun ⟨root, h⟩ => ⟨root, h.of_eq (h.paged.of_eq rfl rfl rfl rfl) rfl rfl rfl⟩
  place _ _ _ _ _ _ _ := fun ⟨root, h⟩ =>
    ⟨root, h.of_eq (h.paged.of_eq rfl rfl rfl rfl) rfl rfl rfl⟩
  born _ _ ho _ := fun ⟨root, h⟩ => ⟨root, h.born ho⟩
  regs _ _ _ _ _ ht _ := fun ⟨root, h⟩ => ⟨root, h.of_eq (h.paged.setTcb ht _) rfl rfl rfl⟩
  refill _ _ _ _ _ ht := fun ⟨root, h⟩ => ⟨root, h.of_eq (h.paged.setTcb ht _) rfl rfl rfl⟩

theorem threadStable : ThreadStable fun s => ∃ root, RootSpace cfg root s where
  tcb _ _ _ _ ht _ := fun ⟨root, h⟩ => ⟨root, h.of_eq (h.paged.setTcb ht _) rfl rfl rfl⟩
  queues _ _ _ _ := fun ⟨root, h⟩ => ⟨root, h.of_eq (h.paged.of_eq rfl rfl rfl rfl) rfl rfl rfl⟩
  request _ _ := fun ⟨root, h⟩ => ⟨root, h.of_eq (h.paged.of_eq rfl rfl rfl rfl) rfl rfl rfl⟩
  vspace _ _ := fun ⟨root, h⟩ => ⟨root, h.of_eq (h.paged.of_eq rfl rfl rfl rfl) rfl rfl rfl⟩
  switch _ _ := fun ⟨root, h⟩ => ⟨root, h.of_eq (h.paged.of_eq rfl rfl rfl rfl) rfl rfl rfl⟩
  copy s dst src hdst := fun ⟨root, h⟩ => ⟨root, h.setPage hdst fun a ha => if_neg (by
    rw [ipcBufferWords, messageLen]
    omega)⟩

/-- **After boot** there is one root, and its user half is a tree for the machine, too. -/
theorem of_boot {image : Image} (himage : image.InUserHalf) (h : Boot cfg image s) :
    ∃ root, RootSpace cfg root s := by
  obtain ⟨thread, s₃, s₄, -, hs₃, hres, hsched⟩ :=
    SpaceRule.boot (P := fun _ _ _ => True) spaceRule placeRule .trivial
      (fun o c p hk ho hc hp hn =>
        ⟨freeZero_capStable.firstCNode .trivial paged_afterVmInit o c p hk ho hc hp hn, rfl⟩)
      firstRoot
      (fun root s s' u hs _ hidle => by
        obtain ⟨t, ht, rfl⟩ := createIdleThread_ok.1 hidle
        exact ⟨root, hs.of_eq ((hs.paged.setTcb ht _).of_eq rfl rfl rfl rfl) rfl rfl rfl⟩)
      (fun s f info hf ⟨root, hs⟩ =>
        ⟨root, hs.setPage hf fun a ha => if_neg (by rw [pageSize]; omega)⟩)
      himage.within h
  have hT : ThreadStable fun s => ∃ root, RootSpace cfg root s := threadStable
  exact hT.start hs₃ hres hsched

end RootSpace

/-! ## Agreement -/

theorem paged_createRootCnode {cnode : Nat} {cap : CapabilityData}
    (h : createRootCnode cfg cnode (.afterVmInit cfg) = .ok cap s) :
    Paged cfg s ∧ FreeZero cfg s := by
  obtain ⟨o, p, hk, hfresh, hfor, hslot, hnone, rfl⟩ := createRootCnode_ok h
  exact freeZero_capStable.firstCNode .trivial paged_afterVmInit o cap p hk hfresh hfor hslot hnone

/-- A segment that is loaded ends in the user half. -/
theorem Phdr.end_le {h : Phdr} (hend : h.vaddr + pageSize * h.pageNum ≤ 2 ^ 47)
    (hsize : h.memsz ≤ 2 ^ 64 - 4096) : h.vaddr + h.memsz ≤ 2 ^ 47 := by
  rw [pageNum, pageSize] at hend
  omega

open Client

/-- The kernel has loaded the program as its root server, into the address space of `root`. -/
def KernelLoads (cfg : Config) (file : Elf64Hdr) (s : KState) (root : Nat) : Prop :=
  ∃ entry cnode vspace cnodeCap cap mgr em s₁,
    createRootCnode cfg cnode (.afterVmInit cfg) = .ok cnodeCap s₁ ∧
    createAddressSpace cfg vspace cnodeCap ⟨entry, file.phdrs⟩ mgr s₁ = .ok (cap, em) s ∧
    cap.getFrame = root

/-- A root server has made an address space, that of `target`, and has loaded the program there. -/
def ServerLoads (cfg : Config) (file : Elf64Hdr) (s : KState) (target : Nat) : Prop :=
  ∃ p regs root c own cnode ut rootTable freeAddress m m' u u₁,
    Launch cfg u root c own cnode ut rootTable freeAddress ∧
    ElfProgramMapper.tryNew cfg p regs cnode ut rootTable freeAddress u = .ok (.ok m) u₁ ∧
    ElfProgramMapper.mapSelf cfg p regs file.phdrs m u₁ = .ok (.ok m') s ∧
    Names cfg s root m'.targetRootVspace.capPtr m'.targetRootVspace.capDepth .pageTable target

variable {file : Elf64Hdr}

/-- Every boot gets there. -/
theorem exists_kernelLoads {entry : UInt64} (h : Boot cfg ⟨entry, file.phdrs⟩ s) :
    ∃ s₁ root, KernelLoads cfg file s₁ root := by
  obtain ⟨mem, m, r, _, _, s₁, _, _, _, hspaces, -⟩ := boot_cases h
  simp only [createRootSpaces, bind_ok] at hspaces
  obtain ⟨cnodeCap, s₂, hcnode, ⟨cap, em⟩, s₃, hspace, -⟩ := hspaces
  exact ⟨s₃, cap.getFrame, entry, mem.cnode, mem.vspace, cnodeCap, cap, m, em, s₂, hcnode,
    hspace, rfl⟩

/-! ### A root server that loads a program right after boot -/

/-- The root CNode, with the cursor on the first empty slot. -/
def loaderCNode : CNodeCapability := ⟨2, 18, ⟨18, 19⟩⟩

def loaderUntyped : UntypedCapability := ⟨9, 18, ⟨false, 0⟩⟩

def loaderRootTable : PageTableCapability := ⟨3, 18, ⟨0, true, true⟩⟩

def rootSlot (i : Nat) : Nat := toKernelV 2151677952 + CapabilityType.entrySize * i

/-- Slot `i` of the root CNode has a capability that passes the test. -/
def slotHas (cfg : Config) (s : KState) (root : CapabilityData) (i : Nat)
    (test : CapabilityData → Bool) : Bool :=
  root.lookupStep cfg i 18 = .ok (rootSlot i, 0) && s.isSlot (rootSlot i) &&
    (s.capAt (rootSlot i)).any test

/-- The thread that runs has the capabilities above, and the only address space. -/
def demoStarts (cfg : Config) (s : KState) : Bool :=
  s.curRegBase = s.current && s.rooted = [s.satp] && (s.tcbs s.current).any fun t =>
    t.rootCnode.any fun e => e.cap.radix ≠ 0 &&
      slotHas cfg s e.cap 2 (fun c => c.getCapType = .ok .cNode && c.radix = 18 &&
        s.objects.any fun o => o.kind = .cNode && o.start = toKernelV c.getAddress &&
          o.size = 2 ^ 18 * CapabilityType.entrySize) &&
      slotHas cfg s e.cap 9 (fun c => c.getCapType = .ok .untyped) &&
      slotHas cfg s e.cap 3 (fun c => c.getCapType = .ok .pageTable && c.getFrame = s.satp)

theorem slotHas_ok {root : CapabilityData} {i : Nat} {test : CapabilityData → Bool}
    (h : slotHas cfg s root i test = true) : ∃ c, root.lookupStep cfg i 18 = .ok (rootSlot i, 0) ∧
      s.isSlot (rootSlot i) = true ∧ s.capAt (rootSlot i) = some c ∧ test c = true := by
  simp only [slotHas, Bool.and_eq_true, decide_eq_true_eq] at h
  obtain ⟨⟨hstep, hslot⟩, hcap⟩ := h
  obtain ⟨c, hc, htest⟩ := (Option.any_eq_true ..).1 hcap
  exact ⟨c, hstep, hslot, hc, htest⟩

theorem launch_of_demoStarts (hboot : Boot cfg demoImage s) (h : demoStarts cfg s = true) :
    ∃ root c, Launch cfg s root c s.satp loaderCNode loaderUntyped loaderRootTable 0x3000 := by
  simp only [demoStarts, Bool.and_eq_true, decide_eq_true_eq] at h
  obtain ⟨⟨hcur, hrooted⟩, h⟩ := h
  obtain ⟨t, ht, h⟩ := (Option.any_eq_true ..).1 h
  obtain ⟨e, he, h⟩ := (Option.any_eq_true ..).1 h
  simp only [Bool.and_eq_true, decide_eq_true_eq] at h
  obtain ⟨⟨⟨hradix, hcnode⟩, hut⟩, htable⟩ := h
  have himage : demoImage.InUserHalf := nofun
  obtain ⟨root, hspace⟩ := RootSpace.of_boot himage hboot
  obtain rfl : root = s.satp := List.head_eq_of_cons_eq (hspace.rooted.symm.trans hrooted)
  obtain ⟨c, hstep, hslot, hc, htest⟩ := slotHas_ok hcnode
  obtain ⟨c₁, hstep₁, hslot₁, hc₁, htest₁⟩ := slotHas_ok hut
  obtain ⟨c₂, hstep₂, hslot₂, hc₂, htest₂⟩ := slotHas_ok htable
  simp only [Bool.and_eq_true, decide_eq_true_eq] at htest htest₁ htest₂
  obtain ⟨⟨hk, hr⟩, hobj⟩ := htest
  obtain ⟨o, ho, hobj⟩ := List.any_eq_true.1 hobj
  simp only [Bool.and_eq_true, decide_eq_true_eq] at hobj
  obtain ⟨⟨hko, hstart⟩, hsize⟩ := hobj
  obtain ⟨hwf, lvl, hp⟩ := hspace.paged
  refine ⟨e.cap, c, hwf, hspace.zero, fun i hi => hp.root_lower hi, ⟨hcur, t, e, ht, he, rfl⟩, rfl,
    hspace.space, ⟨.last hstep hslot hc hk, hr.symm, by decide, ⟨by rw [hr]; decide,
      fun i hi => ?_⟩, by rw [hr]; decide, hradix⟩,
    ⟨_, c₁, .last hstep₁ hslot₁, hslot₁, hc₁, htest₁, absurd rfl⟩,
    ⟨_, c₂, .last hstep₂ hslot₂, hslot₂, hc₂, htest₂.1, fun _ => htest₂.2⟩, by decide⟩
  rw [hr] at hi
  rw [← hstart]
  exact List.any_eq_true.2 ⟨o, ho, Object.hasSlot_of_lt hko hsize hi⟩

/-- It loads the program, if both steps return. -/
theorem exists_serverLoads (hend : ∀ h ∈ file.phdrs, h.load = true →
      h.vaddr + pageSize * h.pageNum ≤ 2 ^ 47)
    (h : endsIn (initKernel cfg demoImage (.initial cfg)) (fun s => demoStarts cfg s &&
      returnsWith
        ((ElfProgramMapper.tryNew cfg cfg.profile {} loaderCNode loaderUntyped loaderRootTable
        0x3000 >>= ElfProgramMapper.mapSelf cfg cfg.profile {} file.phdrs : UM ElfProgramMapper) s)
        fun r _ => okAnd r fun _ => true) = true) : ∃ s target, ServerLoads cfg file s target := by
  obtain ⟨s, hboot, htest⟩ := exists_boot cfg demoImage _ h
  obtain ⟨hstarts, hloads⟩ := Bool.and_eq_true_iff.1 htest
  obtain ⟨root, c, hlaunch⟩ := launch_of_demoStarts hboot hstarts
  obtain ⟨r, s', hrun, hok⟩ := exists_of_returnsWith hloads
  obtain ⟨m', rfl, -⟩ := exists_of_okAnd hok
  obtain ⟨m, s₁, hnew, hself⟩ := Fallible.bind_ok.1 hrun
  obtain ⟨target, hwork⟩ := hlaunch.tryNew hnew
  have hwork' := hwork.mapSelf (fun _ hmem => Elf64Hdr.memsz_lt hmem) hend hself
  exact ⟨s', target, _, _, _, _, _, _, _, _, _, _, _, _, _, hlaunch, hnew, hself,
    hwork'.targetRootVspace⟩

/-- A file with one program header, which is loaded, and with these bytes. -/
def oneSegment (bytes : List (Nat × UInt8)) : Elf64Hdr :=
  ⟨fun a => (([(32, 64), (56, 1), (64, 1)] ++ bytes).lookup a).getD 0⟩

/-- 3 bytes of the file and 4097 bytes of memory at `0x10000`, with all permissions. -/
def tinyFile : Elf64Hdr :=
  oneSegment [(68, 7), (72, 120), (82, 1), (96, 3), (104, 1), (105, 16), (120, 1), (121, 2),
    (122, 3)]

/-- No byte of the file and `2 ^ 64 - 1` bytes of memory at 0. -/
def hugeFile : Elf64Hdr := oneSegment ((68, 4) :: (List.range 8).map fun i => (104 + i, 255))

theorem loadable_of_one {h : Phdr} (halign : h.vaddr % 4096 = 0) (huser : h.vaddr < 2 ^ 47)
    (hfile : h.filesz ≤ h.memsz) : Loadable [h] where
  aligned _ hg _ := List.mem_singleton.1 hg ▸ halign
  user _ hg _ := List.mem_singleton.1 hg ▸ huser
  filesz_le _ hg _ := List.mem_singleton.1 hg ▸ hfile
  disjoint := List.pairwise_singleton ..

theorem loadable_tinyFile : Loadable tinyFile.phdrs :=
  loadable_of_one (h := tinyFile.phdr 0) (by decide) (by decide) (by decide)

theorem loadable_hugeFile : Loadable hugeFile.phdrs :=
  loadable_of_one (h := hugeFile.phdr 0) (by decide) (by decide) (by decide)

/-- The kernel leaves the pages that `loadAll` gives, all of them in the user half. -/
theorem KernelLoads.loaded
    (hboard : 0 < cfg.freeRam ∧ cfg.isStaticTable 0 = false ∨
      ∀ h ∈ file.phdrs, h.load = true → h.vaddr / 2 ^ 12 + h.pageNum ≤ 2 ^ 35)
    (huser : ∀ h ∈ file.phdrs, h.load = true → h.vaddr < 2 ^ 47) (h : KernelLoads cfg file s root) :
    (∀ h ∈ file.phdrs, h.load = true → h.vaddr / 2 ^ 12 + h.pageNum ≤ 2 ^ 35) ∧
      Loaded cfg s root (loadAll file.phdrs fun _ => none) := by
  obtain ⟨entry, cnode, vspace, cnodeCap, cap, mgr, em, s₁, hcnode, hspace, rfl⟩ := h
  exact Loaded.createAddressSpace hboard huser (fun _ hmem => Elf64Hdr.memsz_lt hmem)
    (paged_createRootCnode hcnode) hspace

section Agreement

variable (hl : Loadable file.phdrs) {target : Nat}

include hl

theorem KernelLoads.loaded_of_loadable (hram : 0 < cfg.freeRam)
    (hstatic : cfg.isStaticTable 0 = false) (h : KernelLoads cfg file s root) :
    (∀ h ∈ file.phdrs, h.load = true → h.vaddr + pageSize * h.pageNum ≤ 2 ^ 47) ∧
      Loaded cfg s root (loadAll file.phdrs fun _ => none) := by
  obtain ⟨hend, hload⟩ := h.loaded (.inl ⟨hram, hstatic⟩) hl.user
  refine ⟨fun g hg hlo => ?_, hload⟩
  have hpages := hend g hg hlo
  have halign := hl.aligned g hg hlo
  rw [pageSize]
  omega

omit hl in
/-- The root server leaves the same pages. -/
theorem ServerLoads.loaded
    (hend : ∀ h ∈ file.phdrs, h.load = true → h.vaddr + pageSize * h.pageNum ≤ 2 ^ 47)
    (h : ServerLoads cfg file s target) :
    Loaded cfg s target (loadAll file.phdrs fun _ => none) := by
  obtain ⟨p, regs, root, c, own, cnode, ut, rootTable, freeAddress, m, m', u, u₁, hlaunch, hnew,
    hself, hn⟩ := h
  obtain ⟨target', hwork⟩ := hlaunch.tryNew hnew
  have hwork' := hwork.mapSelf (fun _ hmem => Elf64Hdr.memsz_lt hmem) hend hself
  obtain rfl : target = target' := hn.unique hwork'.targetRootVspace (by decide)
  exact hwork'.spaces.loaded

/-- **The loaders agree.** The kernel loads a program as its root server, and a root server loads it
into an address space that it makes; both complete. Then they build the same image, and it is the
one that the segments describe, if and only if no segment that is loaded is so large that its size
wraps around when it is rounded up to pages. -/
theorem loaders_agree_iff (hram : 0 < cfg.freeRam) (hstatic : cfg.isStaticTable 0 = false)
    (hkernel : KernelLoads cfg file s root) (hserver : ServerLoads cfg file s' target) :
    ((∀ v < 2 ^ 47, s.pageImage root v = s'.pageImage target v) ∧
        s.Shows root file.phdrs ∧ s'.Shows target file.phdrs) ↔
      ∀ h ∈ file.phdrs, h.load = true → h.memsz ≤ 2 ^ 64 - 4096 := by
  obtain ⟨hend, hload⟩ := hkernel.loaded_of_loadable hl hram hstatic
  have hload' := hserver.loaded hend
  have hshows := hl.shows_iff (fun _ hmem => Elf64Hdr.memsz_lt hmem)
    (fun h hmem hlo => Phdr.end_le (hend h hmem hlo)) hload.image
  have hshows' := hl.shows_iff (fun _ hmem => Elf64Hdr.memsz_lt hmem)
    (fun h hmem hlo => Phdr.end_le (hend h hmem hlo)) hload'.image
  refine ⟨fun h => hshows.1 h.2.1, fun hsize => ⟨fun v hv => ?_, hshows.2 hsize, hshows'.2 hsize⟩⟩
  rw [hload.image v hv, hload'.image v hv]

end Agreement

theorem loaders_agree_tinyFile : ∃ s root s' target, KernelLoads .virt tinyFile s root ∧
    ServerLoads .virt tinyFile s' target ∧
    (∀ v < 2 ^ 47, s.pageImage root v = s'.pageImage target v) ∧
    s.Shows root tinyFile.phdrs ∧ s'.Shows target tinyFile.phdrs := by
  obtain ⟨_, hboot, -⟩ :=
    exists_boot .virt ⟨0x10000, tinyFile.phdrs⟩ (fun _ => true) (by decide +kernel)
  obtain ⟨s, root, hkernel⟩ := exists_kernelLoads hboot
  obtain ⟨s', target, hserver⟩ : ∃ s target, ServerLoads .virt tinyFile s target :=
    exists_serverLoads (by decide +kernel) (by decide +kernel)
  exact ⟨s, root, s', target, hkernel, hserver,
    (loaders_agree_iff loadable_tinyFile (by decide) (by decide) hkernel hserver).2
      (by decide +kernel)⟩

/-- In an unchecked build the size of `hugeFile` wraps around to 0: both loaders complete, and
neither image has a page. -/
theorem not_shows_hugeFile : ∃ s root s' target, KernelLoads .virtRelease hugeFile s root ∧
    ServerLoads .virtRelease hugeFile s' target ∧ Loadable hugeFile.phdrs ∧
    ¬s.Shows root hugeFile.phdrs ∧ ¬s'.Shows target hugeFile.phdrs := by
  obtain ⟨_, hboot, -⟩ :=
    exists_boot .virtRelease ⟨0x10000, hugeFile.phdrs⟩ (fun _ => true) (by decide +kernel)
  obtain ⟨s, root, hkernel⟩ := exists_kernelLoads hboot
  obtain ⟨s', target, hserver⟩ : ∃ s target, ServerLoads .virtRelease hugeFile s target :=
    exists_serverLoads (by decide +kernel) (by decide +kernel)
  obtain ⟨hend, hload⟩ := hkernel.loaded_of_loadable loadable_hugeFile (by decide) (by decide)
  have hload' := hserver.loaded hend
  have hsize : ¬∀ h ∈ hugeFile.phdrs, h.load = true → h.memsz ≤ 2 ^ 64 - 4096 := by decide +kernel
  refine ⟨s, root, s', target, hkernel, hserver, loadable_hugeFile, fun h => hsize ?_,
    fun h => hsize ?_⟩
  · exact (loadable_hugeFile.shows_iff (fun _ hmem => Elf64Hdr.memsz_lt hmem)
      (fun h hmem hlo => Phdr.end_le (hend h hmem hlo)) hload.image).1 h
  · exact (loadable_hugeFile.shows_iff (fun _ hmem => Elf64Hdr.memsz_lt hmem)
      (fun h hmem hlo => Phdr.end_le (hend h hmem hlo)) hload'.image).1 h

end Zoeax
