import Zoeax.Verify.Partition
import Zoeax.Verify.Pools
import Zoeax.Verify.RootCNode

/-!
# Free memory

Memory is handed out twice: by boot, which takes pages from the start of the free memory and makes
untyped capabilities for the rest, and by `UntypedRetype`, which takes it from the block of an
untyped capability. `Allocated` is what keeps the two apart: the blocks of different untyped
capabilities are disjoint, and no live object lies in the part of a block that is still free.

- `boot_allocated`: that is how boot ends. Its objects end where the blocks begin (`Reserved`), and
  every round of the loop over the blocks starts where the last one ended (`Handing`);
- `Allocated.step`: every event keeps it if the requests of `UntypedRetype` fit, because the arena
  of the blocks and objects stays sound;
- `allocated_of_run`: so it holds in every run that meets the conditions, and an object that is
  placed in the free part of a block never meets another one;
- `arena_of_run`: such a run is a run of the arena. The blocks stay where boot has put them, and
  what is new since some state comes from what was free of a block in that state.
-/

namespace Zoeax

open Lib Exec

variable {cfg : Config} {s s' : KState}

/-! ## Steps -/

namespace Allocated

theorem threadStable : ThreadStable (Allocated cfg) where
  tcb _ _ _ _ _ _ hs := hs.of_eq rfl fun _ _ => rfl
  queues _ _ _ _ hs := hs.of_eq rfl fun _ _ => rfl
  request _ _ hs := hs.of_eq rfl fun _ _ => rfl
  vspace _ _ hs := hs.of_eq rfl fun _ _ => rfl
  switch _ _ hs := hs.of_eq rfl fun _ _ => rfl
  copy _ _ _ _ hs := hs.of_eq rfl fun _ _ => rfl

/-- A slot gets an untyped capability whose block is apart from all other ones. -/
theorem put (hs : Allocated cfg s) {q : Nat} {c : CapabilityData} (hobj : s'.objects = s.objects)
    (hcap : ∀ p, s'.capAt p = if p = q then some c else s.capAt p) (hblock : c.BlockWF)
    (hram : cfg.freeRam ≤ c.getAddress ∧ c.blockEnd ≤ cfg.freeRamEnd)
    (hfree : ∀ o ∈ s.objects, o.addr + o.size ≤ c.freePhys ∨ c.blockEnd ≤ o.addr)
    (hapart : ∀ p d, p ≠ q → s.Untyped cfg p d →
      d.blockEnd ≤ c.getAddress ∨ c.blockEnd ≤ d.getAddress) : Allocated cfg s' where
  block p d h := by
    rcases h.write_cases (hcap p) with ⟨-, rfl⟩ | ⟨-, h⟩
    · exact hblock
    · exact hs.block p d h
  inRam p d h := by
    rcases h.write_cases (hcap p) with ⟨-, rfl⟩ | ⟨-, h⟩
    · exact hram
    · exact hs.inRam p d h
  free p d h := by
    rw [hobj]
    rcases h.write_cases (hcap p) with ⟨-, rfl⟩ | ⟨-, h⟩
    · exact hfree
    · exact hs.free p d h
  apart p p' d d' h h' hne := by
    rcases h.write_cases (hcap p) with ⟨rfl, rfl⟩ | ⟨hp, h⟩
    · rcases h'.write_cases (hcap p') with ⟨rfl, -⟩ | ⟨hp', h'⟩
      · exact absurd rfl hne
      · exact (hapart p' d' hp' h').symm
    · rcases h'.write_cases (hcap p') with ⟨rfl, rfl⟩ | ⟨-, h'⟩
      · exact hapart p d hp h
      · exact hs.apart p p' d d' h h' hne

theorem sound (h : Allocated cfg s) (hwf : HeapWF cfg s) :
    (s.arena cfg).Sound cfg.freeRam cfg.freeRamEnd where
  pools p x hx := by
    obtain ⟨c, hc, rfl⟩ := KState.pool?_eq_some.1 hx
    have hblock := h.block p c hc
    have hram := h.inRam p c hc
    exact ⟨hram.1, hblock.base_le_free, hblock.free_le_end, hram.2⟩
  free p x hx a ha := by
    obtain ⟨c, hc, rfl⟩ := KState.pool?_eq_some.1 hx
    obtain ⟨o, ho, rfl⟩ := List.mem_map.1 ha
    exact h.free p c hc o ho
  apart p q x y hx hy := by
    obtain ⟨c, hc, rfl⟩ := KState.pool?_eq_some.1 hx
    obtain ⟨d, hd, rfl⟩ := KState.pool?_eq_some.1 hy
    exact h.apart p q c d hc hd
  pieces := by
    refine List.pairwise_map.2 (hwf.apart.imp ?_)
    intro o o' hoo'
    simp only [Object.overlaps, Bool.and_eq_false_iff, decide_eq_false_iff_not] at hoo'
    simp only [Piece.Apart, Object.piece]
    omega

theorem of_sound (h : (s.arena cfg).Sound cfg.freeRam cfg.freeRamEnd) : Allocated cfg s where
  block p c hc := by
    obtain ⟨-, hbase, hfree, hend⟩ := h.pools p c.pool hc.pool?_eq
    exact ⟨hend.trans cfg.freeRamEnd_le, hbase, hfree⟩
  inRam p c hc := by
    obtain ⟨hram, -, -, hend⟩ := h.pools p c.pool hc.pool?_eq
    exact ⟨hram, hend⟩
  free p c hc o ho := h.free p c.pool hc.pool?_eq o.piece (List.mem_map_of_mem ho)
  apart p q c d hc hd := h.apart p q c.pool d.pool hc.pool?_eq hd.pool?_eq

/-- **One event.** -/
theorem step {ev : Event} (hwf : HeapWF cfg s) (hs : Allocated cfg s)
    (hfits : ev.Meets cfg (RetypeFits cfg) s) (h : Step cfg s ev s') : Allocated cfg s' := by
  have hsound := hs.sound hwf
  apply of_sound
  rcases arena_step hwf hs hfits h with heq | htakes
  · rw [heq]
    exact hsound
  · exact hsound.takes htakes

end Allocated

/-! ## Boot: the objects -/

/-- The memory of an object of this kind at `addr`, if it can exist, ends before the memory that the
manager has left. -/
def ResourceManager.Gave (cfg : Config) (m : ResourceManager) (k : CapabilityType)
    (addr userSize : Nat) : Prop :=
  ∀ size, k.getObjectSize cfg userSize = .ok size → size < 2 ^ 47 → addr + size ≤ m.startAddr

namespace ResourceManager

variable {m m' : ResourceManager} {k : CapabilityType} {addr userSize : Nat}

theorem Gave.mono (h : m.Gave cfg k addr userSize) (hle : m.startAddr ≤ m'.startAddr) :
    m'.Gave cfg k addr userSize := by
  intro size hsize hlt
  exact (h size hsize hlt).trans hle

theorem allocPage_gave (h : m.allocPage = .ok (addr, m')) :
    addr = m.startAddr ∧ m'.startAddr = addr + pageSize := by
  simp only [allocPage, allocatePages, except_bind_ok, require_ok, except_pure_ok,
    Prod.mk.injEq] at h
  obtain ⟨_, -, rfl, rfl⟩ := h
  exact ⟨rfl, rfl⟩

theorem allocCnodeIdx_startAddr {idx : Nat} (h : m.allocCnodeIdx = .ok (idx, m')) :
    m'.startAddr = m.startAddr := by
  simp only [allocCnodeIdx, except_bind_ok, require_ok, except_pure_ok, Prod.mk.injEq] at h
  obtain ⟨_, -, -, rfl⟩ := h
  rfl

/-- `alloc_obj` rounds the size up to whole pages. -/
theorem allocObj_gave (h : m.allocObj cfg k userSize = .ok (addr, m')) :
    m.startAddr ≤ m'.startAddr ∧ m'.Gave cfg k addr userSize := by
  simp only [allocObj, allocatePages, except_bind_ok, arith_ok, require_ok, except_pure_ok,
    Prod.mk.injEq] at h
  obtain ⟨size, hsize, bytes, hbytes, _, -, rfl, rfl⟩ := h
  refine ⟨Nat.le_add_right .., ?_⟩
  intro size' hsize' hlt
  obtain rfl : size = size' := Except.ok.inj (hsize.symm.trans hsize')
  have hround : alignUp cfg.profile size (2 ^ 12) = some (roundUp size (2 ^ 12)) :=
    CapabilityData.alignUp_eq_roundUp _ (by decide) (by omega)
  obtain rfl : roundUp size (2 ^ 12) = bytes := Option.some.inj (hround.symm.trans hbytes)
  have hle : size ≤ roundUp size (2 ^ 12) := le_roundUp (by decide)
  have hdvd : pageSize * (roundUp size (2 ^ 12) / pageSize) = roundUp size (2 ^ 12) := by
    rw [roundUp]
    exact Nat.mul_div_cancel' (Nat.dvd_mul_left ..)
  rw [hdvd]
  dsimp only
  omega

end ResourceManager

/-- The memory of the objects of the root server is not given out again. -/
structure RootServerMemory.Given (cfg : Config) (mem : RootServerMemory) (m : ResourceManager) :
    Prop where
  cnode : m.Gave cfg .cNode mem.cnode rootCnodeEntryNumBits
  vspace : m.Gave cfg .pageTable mem.vspace 0
  tcb : m.Gave cfg .tcb mem.tcb 0
  ipcBuf : m.Gave cfg .page mem.ipcBuf 0
  bootFrame : m.Gave cfg .page mem.bootFrame 0

theorem RootServerMemory.Given.mono {mem : RootServerMemory} {m m' : ResourceManager}
    (h : mem.Given cfg m) (hle : m.startAddr ≤ m'.startAddr) : mem.Given cfg m' :=
  ⟨h.cnode.mono hle, h.vspace.mono hle, h.tcb.mono hle, h.ipcBuf.mono hle, h.bootFrame.mono hle⟩

theorem initWithUninit_given {mem : RootServerMemory} {m₀ m : ResourceManager}
    (h : RootServerMemory.initWithUninit cfg m₀ = .ok (mem, m)) :
    m₀.startAddr ≤ m.startAddr ∧ mem.Given cfg m := by
  simp only [RootServerMemory.initWithUninit, except_bind_ok, except_pure_ok, Prod.mk.injEq] at h
  obtain ⟨⟨_, m₁⟩, h₁, ⟨_, m₂⟩, h₂, ⟨_, m₃⟩, h₃, ⟨_, m₄⟩, h₄, ⟨_, m₅⟩, h₅, rfl, rfl⟩ := h
  obtain ⟨hle₁, hcnode⟩ := ResourceManager.allocObj_gave h₁
  obtain ⟨hle₂, hvspace⟩ := ResourceManager.allocObj_gave h₂
  obtain ⟨hle₃, htcb⟩ := ResourceManager.allocObj_gave h₃
  obtain ⟨hle₄, hipc⟩ := ResourceManager.allocObj_gave h₄
  obtain ⟨hle₅, hboot⟩ := ResourceManager.allocObj_gave h₅
  dsimp only at *
  exact ⟨by omega, hcnode.mono (by omega), hvspace.mono (by omega), htcb.mono (by omega),
    hipc.mono hle₅, hboot⟩

/-- Before the untyped capabilities: there is none yet, and the objects lie below the memory that is
left. -/
structure Reserved (cfg : Config) (m : ResourceManager) (s : KState) : Prop where
  below : ∀ o ∈ s.objects, o.addr + o.size ≤ m.startAddr
  none : ∀ p c, ¬s.Untyped cfg p c

namespace Reserved

variable {m m' : ResourceManager} {c rootTableCap : CapabilityData}

theorem mono (h : Reserved cfg m s) (hle : m.startAddr ≤ m'.startAddr) : Reserved cfg m' s :=
  ⟨fun o ho => (h.below o ho).trans hle, h.none⟩

theorem of_eq (h : Reserved cfg m s) (hobj : s'.objects = s.objects)
    (hcap : ∀ p, cfg.isLocal p = false → s'.capAt p = s.capAt p) : Reserved cfg m s' := by
  refine ⟨hobj ▸ h.below, ?_⟩
  intro p c hc
  exact h.none p c (hc.of_capAt (hcap p hc.slot))

theorem bootObject {k : CapabilityType} {addr userSize : Nat} {u : Unit} (h : Reserved cfg m s)
    (hgave : m.Gave cfg k addr userSize) (hobj : bootObject cfg k addr userSize s = .ok u s') :
    Reserved cfg m s' := by
  obtain ⟨size, hfresh, rfl⟩ := bootObject_ok hobj
  refine ⟨List.forall_mem_cons.2 ⟨hgave size hfresh.size ?_, h.below⟩,
    fun p c hc => h.none p c (hc.of_capAt rfl)⟩
  -- an object lies in the free memory
  obtain ⟨-, hend, -, -⟩ := Object.lt_of_admissible hfresh.admissible
  have hram := cfg.freeRamEnd_le
  rw [directMapEnd] at hram
  dsimp only at hend
  omega

theorem writeSlot {cap : CapabilityData} {index : Nat} {u : Unit} (h : Reserved cfg m s)
    (hcap : cap.getCapType ≠ .ok .untyped)
    (hwrite : unwrap (c.writeSlot cfg cap index) s = .ok u s') : Reserved cfg m s' := by
  obtain ⟨p, -, -, -, rfl⟩ := writeSlot_ok (unwrap_ok.1 hwrite)
  refine ⟨h.below, ?_⟩
  intro q d hd
  exact h.none q d (hd.of_write (KState.capAt_setSlot ..) hcap)

/-- The next page. -/
theorem page {k : CapabilityType} {addr : Nat} {m₁ : ResourceManager} (h : Reserved cfg m s)
    (hk : k.getObjectSize cfg 0 = .ok pageSize) (hpage : m.allocPage = .ok (addr, m₁)) :
    Reserved cfg m₁ s ∧ m₁.Gave cfg k addr 0 := by
  obtain ⟨rfl, hstart⟩ := ResourceManager.allocPage_gave hpage
  refine ⟨h.mono (by omega), ?_⟩
  intro size hsize _
  obtain rfl : pageSize = size := Except.ok.inj (hk.symm.trans hsize)
  exact hstart.ge

theorem mapPageTables {vaddr n : Nat} (hs : Reserved cfg m s)
    (h : mapPageTables cfg c rootTableCap vaddr n m s = .ok m' s') : Reserved cfg m' s' := by
  induction n generalizing m s with
  | zero => exact (throw_ok.1 h).elim
  | succ n ih =>
    simp only [Zoeax.mapPageTables, bind_ok, liftExcept_ok] at h
    obtain ⟨⟨addr, m₁⟩, _, ⟨hpage, rfl⟩, _, s₁, hobj, cap, _, ⟨hinit, rfl⟩, ⟨idx, m₂⟩, _,
      ⟨hidx, rfl⟩, _, s₂, hwrite, ⟨c', level⟩, s₃, hmap, h⟩ := h
    obtain ⟨-, -, level', a, -, -, -, -, rfl⟩ := pageTableCapMap_ok (unwrap_ok.1 hmap)
    obtain ⟨hs₁, hgave⟩ := hs.page (k := .pageTable) rfl hpage
    have htype : cap.getCapType ≠ .ok .untyped := by simp [getCapType_init hinit]
    have hround : Reserved cfg m₂ (s₂.setWord a (Pte.write cap.getFrame pageV)) :=
      (((hs₁.bootObject hgave hobj).writeSlot htype hwrite).mono
        (ResourceManager.allocCnodeIdx_startAddr hidx).ge).of_eq rfl fun _ _ => rfl
    dsimp only at h
    split at h
    · obtain ⟨rfl, rfl⟩ := pure_ok.1 h
      exact hround
    · exact ih hround h

theorem createMappedPageCap {cap : CapabilityData} {paddr vaddr flags : Nat} (hs : Reserved cfg m s)
    (hgave : m.Gave cfg .page paddr 0)
    (h : createMappedPageCap cfg c rootTableCap m paddr vaddr flags s = .ok (cap, m') s') :
    Reserved cfg m' s' ∧ cap.getCapType ≠ .ok .untyped := by
  simp only [Zoeax.createMappedPageCap, bind_ok, liftExcept_ok] at h
  obtain ⟨_, s₁, hobj, pageCap, _, ⟨hinit, rfl⟩, first, s₂, hfirst, h⟩ := h
  have hs₁ := hs.bootObject hgave hobj
  have htype : ∀ v, (pageCap.setMapped v).getCapType ≠ .ok .untyped := by
    intro v
    have hk := getCapType_init hinit
    have hv : (pageCap.setMapped v).getCapType = .ok .page := hk
    simp [hv]
  rcases catchErr_ok hfirst with ⟨cap', rfl, hmap⟩ | ⟨e, rfl, hmap⟩
  · obtain ⟨⟨rfl, rfl⟩, rfl⟩ : (cap' = cap ∧ m = m') ∧ s₂ = s' := by simpa [pure_ok] using h
    obtain ⟨-, rfl, a, -, -, -, rfl⟩ := pageCapMap_ok hmap
    exact ⟨hs₁.of_eq rfl fun _ _ => rfl, htype _⟩
  · obtain rfl := errAtomic_pageCapMap cfg _ _ _ _ hmap True.intro
    dsimp only at h
    split at h
    · simp only [bind_ok, pure_ok] at h
      obtain ⟨m₁, s₃, htables, cap', _, hmap', hret, rfl⟩ := h
      obtain ⟨rfl, rfl⟩ := Prod.mk.inj hret
      obtain ⟨-, rfl, a, -, -, -, rfl⟩ := pageCapMap_ok (unwrap_ok.1 hmap')
      exact ⟨(hs₁.mapPageTables htables).of_eq rfl fun _ _ => rfl, htype _⟩
    · exact (throw_ok.1 h).elim

theorem mapProgramPage {hdr : Phdr} {em em' : ElfMapper} {i : Nat} (hs : Reserved cfg em.mgr s)
    (h : mapProgramPage cfg c rootTableCap hdr em i s = .ok em' s') : Reserved cfg em'.mgr s' := by
  simp only [Zoeax.mapProgramPage, bind_ok, liftExcept_ok, arith_ok, modify_ok, pure_ok] at h
  obtain ⟨vaddr, _, ⟨-, rfl⟩, ⟨addr, m₁⟩, _, ⟨hpage, rfl⟩, ⟨cap, m₂⟩, s₁, hmapped, ⟨idx, m₃⟩, _,
    ⟨hidx, rfl⟩, _, s₂, hwrite, _, _, rfl, rfl, rfl⟩ := h
  obtain ⟨hs₁, hgave⟩ := hs.page (k := .page) rfl hpage
  obtain ⟨hs₂, htype⟩ := hs₁.createMappedPageCap hgave hmapped
  exact ((hs₂.writeSlot htype hwrite).mono
    (ResourceManager.allocCnodeIdx_startAddr hidx).ge).of_eq rfl fun _ _ => rfl

theorem mapPages {hdr : Phdr} {n i : Nat} {em em' : ElfMapper} (hs : Reserved cfg em.mgr s)
    (h : mapPages cfg c rootTableCap hdr n i em s = .ok em' s') : Reserved cfg em'.mgr s' := by
  induction n generalizing i em s with
  | zero =>
    obtain ⟨rfl, rfl⟩ := pure_ok.1 h
    exact hs
  | succ n ih =>
    obtain ⟨em₁, s₁, hpage, h⟩ := bind_ok.1 h
    exact ih (hs.mapProgramPage hpage) h

theorem mapProgram {hdr : Phdr} {em em' : ElfMapper} (hs : Reserved cfg em.mgr s)
    (h : mapProgram cfg c rootTableCap hdr em s = .ok em' s') : Reserved cfg em'.mgr s' := by
  unfold Zoeax.mapProgram at h
  split at h
  · simp only [bind_ok, liftExcept_ok] at h
    obtain ⟨bytes, _, ⟨-, rfl⟩, h⟩ := h
    exact hs.mapPages h
  · obtain ⟨rfl, rfl⟩ := pure_ok.1 h
    exact hs

theorem mapSelf {phdrs : List Phdr} {em em' : ElfMapper} (hs : Reserved cfg em.mgr s)
    (h : mapSelf cfg c rootTableCap phdrs em s = .ok em' s') : Reserved cfg em'.mgr s' := by
  induction phdrs generalizing em s with
  | nil =>
    obtain ⟨rfl, rfl⟩ := pure_ok.1 h
    exact hs
  | cons hdr hdrs ih =>
    obtain ⟨em₁, s₁, hprog, h⟩ := bind_ok.1 h
    exact ih (hs.mapProgram hprog) h

theorem createRootCnode {cnode : Nat} (hs : Reserved cfg m s)
    (hgave : m.Gave cfg .cNode cnode rootCnodeEntryNumBits)
    (h : createRootCnode cfg cnode s = .ok c s') : Reserved cfg m s' := by
  simp only [Zoeax.createRootCnode, bind_ok, liftExcept_ok, pure_ok] at h
  obtain ⟨_, s₁, hobj, cap, _, ⟨hinit, rfl⟩, _, _, hwrite, rfl, rfl⟩ := h
  have htype : cap.getCapType ≠ .ok .untyped := by simp [getCapType_init hinit]
  exact (hs.bootObject hgave hobj).writeSlot htype hwrite

theorem createAddressSpace {vspace : Nat} {cap : CapabilityData} {image : Image} {em : ElfMapper}
    (hs : Reserved cfg m s) (hgave : m.Gave cfg .pageTable vspace 0)
    (h : createAddressSpace cfg vspace c image m s = .ok (cap, em) s') :
    Reserved cfg em.mgr s' := by
  simp only [Zoeax.createAddressSpace, bind_ok, liftExcept_ok, modify_ok, pure_ok] at h
  obtain ⟨_, s₁, hobj, _, _, rfl, cap₀, _, ⟨hinit, rfl⟩, cap₁, s₂, hmake, _, s₃, hwrite, em₁, s₄,
    hself, hret, rfl⟩ := h
  obtain ⟨rfl, rfl⟩ := Prod.mk.inj hret
  obtain ⟨-, -, rfl, rfl⟩ := makeAsRoot_ok (unwrap_ok.1 hmake)
  have hinit := getCapType_init hinit
  have hk : (cap₀.setMapped (toKernelV cap₀.getAddress)).setRoot.getCapType = .ok .pageTable :=
    hinit
  have hs₁ := hs.bootObject hgave hobj
  have hroot : Reserved cfg m ((s₁.zeroMem vspace pageSize).madeRoot cfg cap₀.getFrame) :=
    hs₁.of_eq rfl fun _ _ => rfl
  have hs₃ : Reserved cfg (ElfMapper.mk 0 m).mgr s₃ := hroot.writeSlot (by simp [hk]) hwrite
  exact hs₃.mapSelf hself

theorem createFrame {frame maxVaddr flags idx : Nat} {cap : CapabilityData} (hs : Reserved cfg m s)
    (hgave : m.Gave cfg .page frame 0)
    (h : createFrame cfg frame c rootTableCap maxVaddr flags idx m s = .ok (cap, m') s') :
    Reserved cfg m' s' := by
  simp only [Zoeax.createFrame, bind_ok, liftExcept_ok, pure_ok] at h
  obtain ⟨vaddr, _, ⟨-, rfl⟩, ⟨cap₁, m₁⟩, s₁, hpage, _, _, hwrite, hret, rfl⟩ := h
  obtain ⟨rfl, rfl⟩ := Prod.mk.inj hret
  obtain ⟨hs₁, htype⟩ := hs.createMappedPageCap hgave hpage
  exact hs₁.writeSlot htype hwrite

theorem createRootSpaces {image : Image} {mem : RootServerMemory} {r : RootSpaces}
    (hs : Reserved cfg m s) (hmem : mem.Given cfg m)
    (h : createRootSpaces cfg image mem m s = .ok r s') :
    Reserved cfg r.mgr s' ∧ mem.Given cfg r.mgr := by
  simp only [Zoeax.createRootSpaces, bind_ok, liftExcept_ok, pure_ok] at h
  obtain ⟨c, s₁, hcnode, ⟨vspaceCap, em⟩, s₂, hspace, ⟨ipcCap, m₂⟩, s₃, hipc, ipcVaddr, _, ⟨-, rfl⟩,
    ⟨bootCap, m₃⟩, s₄, hboot, rfl, rfl⟩ := h
  -- what is given stays given, the manager only moves on
  obtain ⟨_, hself, htook⟩ := Took.createAddressSpace hspace
  obtain ⟨_, htook', -⟩ := Took.createFrame hipc
  obtain ⟨_, htook'', -⟩ := Took.createFrame hboot
  have hgiven : mem.Given cfg em.mgr := hmem.mono (htook.mem ▸ Nat.le_add_right ..)
  have hgiven' : mem.Given cfg m₂ := hgiven.mono (htook'.mem ▸ Nat.le_add_right ..)
  have hs₂ := (hs.createRootCnode hmem.cnode hcnode).createAddressSpace hmem.vspace hspace
  have hs₃ := hs₂.createFrame hgiven.ipcBuf hipc
  exact ⟨hs₃.createFrame hgiven'.bootFrame hboot,
    hgiven'.mono (htook''.mem ▸ Nat.le_add_right ..)⟩

theorem holdRootCap {slot : TcbSlot} {site : Site} {thread idx : Nat} {cap : CapabilityData}
    {u : Unit} (hs : Reserved cfg m s)
    (h : holdRootCap cfg slot site thread c cap idx s = .ok u s') : Reserved cfg m s' := by
  obtain ⟨parent, s₁, t, -, hins, -, rfl⟩ := holdRootCap_ok h
  obtain ⟨⟨slots, rfl⟩, hcap⟩ :=
    (keeps_insertAfter (I := SameCaps _) (fun _ p f hv => hv.relink p f) _ _).ok .rfl hins
  refine hs.of_eq rfl ?_
  intro p hp
  refine (hcap p).trans ?_
  rw [KState.capAt_setSlot, if_neg (ne_localAddr hp site)]

theorem createRootTcb {tcb : Nat} {vspaceCap ipcBufCap cap : CapabilityData} {entry : UInt64}
    (hs : Reserved cfg m s) (hgave : m.Gave cfg .tcb tcb 0)
    (h : createRootTcb cfg tcb c vspaceCap ipcBufCap entry s = .ok cap s') : Reserved cfg m s' := by
  simp only [Zoeax.createRootTcb, bind_ok, liftExcept_ok, pure_ok, modify_ok] at h
  obtain ⟨_, s₀, hobj, _, _, rfl, _, s₁, hhold₁, _, s₂, hhold₂, _, s₃, hhold₃, cap', _,
    ⟨hinit, rfl⟩, _, _, hwrite, rfl, rfl⟩ := h
  have hs₀ := hs.bootObject hgave hobj
  have hregs : Reserved cfg m (s₀.setTcb (toKernelV tcb)
      { registers := { sstatus := sstatusSpie, sepc := entry } }) :=
    hs₀.of_eq rfl fun _ _ => rfl
  have htype : cap'.getCapType ≠ .ok .untyped := by simp [getCapType_init hinit]
  exact (((hregs.holdRootCap hhold₁).holdRootCap hhold₂).holdRootCap hhold₃).writeSlot htype hwrite

end Reserved

/-! ## Boot: the blocks -/

/-- In the loop over the untyped capabilities: memory below `a` is in use or in a block. -/
structure Handing (cfg : Config) (a : Nat) (s : KState) : Prop where
  allocated : Allocated cfg s
  objects : ∀ o ∈ s.objects, o.addr + o.size ≤ a
  blocks : ∀ p c, s.Untyped cfg p c → c.blockEnd ≤ a

theorem Reserved.handing {m : ResourceManager} (h : Reserved cfg m s) :
    Handing cfg m.startAddr s where
  allocated := by
    refine ⟨?_, ?_, ?_, ?_⟩
    · exact fun p c hc => (h.none p c hc).elim
    · exact fun p c hc => (h.none p c hc).elim
    · exact fun p c hc => (h.none p c hc).elim
    · exact fun p _ c _ hc => (h.none p c hc).elim
  objects := h.below
  blocks p c hc := (h.none p c hc).elim

open CapabilityData (untypedAt) in
/-- The capability that the generator returns, and the rest of the range. -/
theorem UntypedCapGenerator.Ranges.of_next {g g' : UntypedCapGenerator} {a b idx : Nat}
    {cap : CapabilityData} (hg : g.Ranges a b) (h : g.next cfg = .ok (some (idx, cap, g'))) :
    4096 < b - a ∧ cap = untypedAt a (b - a).log2 ∧ g'.Ranges (a + 2 ^ (b - a).log2) b := by
  have hlt : 4096 < b - a := by
    by_contra hle
    rw [hg.next_of_le (by omega)] at h
    cases h
  have hidx : g.idxStart ≤ g.idxMax := by
    have h := h
    simp only [UntypedCapGenerator.next, except_bind_ok] at h
    obtain ⟨_, -, h⟩ := h
    split at h
    · cases h
    · simp only [except_bind_ok, require_ok] at h
      obtain ⟨_, hidx, -⟩ := h
      exact of_decide_eq_true hidx
  rw [hg.next_of_lt hlt hidx] at h
  simp only [Except.ok.injEq, Option.some.injEq, Prod.mk.injEq] at h
  obtain ⟨-, rfl, rfl⟩ := h
  have hfit := two_pow_log2_le hlt
  refine ⟨hlt, rfl, rfl, hg.stop, ?_, hg.direct⟩
  omega

namespace Handing

open CapabilityData (untypedAt)

variable {a b : Nat} {c : CapabilityData}

/-- One round: the next block starts where the last one ended. -/
theorem round {index : Nat} {u : Unit} (hs : Handing cfg a s) (hram : cfg.freeRam ≤ a)
    (hlt : 4096 < b - a) (hb : b ≤ cfg.freeRamEnd)
    (h : unwrap (c.writeSlot cfg (untypedAt a (b - a).log2) index) s = .ok u s') :
    Handing cfg (a + 2 ^ (b - a).log2) s' := by
  obtain ⟨p, -, -, -, rfl⟩ := writeSlot_ok (unwrap_ok.1 h)
  have hdirect := cfg.freeRamEnd_le
  have hend : directMapEnd < 2 ^ 47 := by decide
  have hlog : (b - a).log2 < 64 := (Nat.log2_lt (by omega)).2 (by omega)
  have hfit := two_pow_log2_le hlt
  have hpos := Nat.two_pow_pos (b - a).log2
  have haddr : (untypedAt a (b - a).log2).getAddress = a :=
    CapabilityData.getAddress_untypedAt (by omega)
  have hblock : (untypedAt a (b - a).log2).blockEnd = a + 2 ^ (b - a).log2 := by
    rw [CapabilityData.blockEnd, haddr, CapabilityData.blockSize_untypedAt (by omega) hlog]
  have hfree : (untypedAt a (b - a).log2).freePhys = a := by
    rw [CapabilityData.freePhys, CapabilityData.toNat_untypedAt (by omega) hlog,
      Nat.shiftRight_eq_div_pow]
    omega
  have hcap : ∀ q, (s.setSlot p (some (.newWithRawcap (untypedAt a (b - a).log2)))).capAt q =
      if q = p then some (untypedAt a (b - a).log2) else s.capAt q := by
    intro q
    exact KState.capAt_setSlot ..
  refine ⟨hs.allocated.put rfl hcap ⟨?_, ?_, ?_⟩ ⟨?_, ?_⟩ ?_ ?_, ?_, ?_⟩
  · omega
  · omega
  · omega
  · omega
  · omega
  · intro o ho
    exact .inl (hfree.symm ▸ hs.objects o ho)
  · intro q d _ hd
    exact .inl (haddr.symm ▸ hs.blocks q d hd)
  · intro o ho
    exact (hs.objects o ho).trans (Nat.le_add_right ..)
  · intro q d hd
    rcases hd.write_cases (hcap q) with ⟨-, rfl⟩ | ⟨-, hd⟩
    · exact hblock.le
    · exact (hs.blocks q d hd).trans (Nat.le_add_right ..)

theorem insertUntyped {n : Nat} {g : UntypedCapGenerator} {info info' : BootInfo}
    (hs : Handing cfg a s) (hram : cfg.freeRam ≤ a) (hg : g.Ranges a b) (hb : b ≤ cfg.freeRamEnd)
    (h : insertUntyped cfg c n g info s = .ok info' s') : Allocated cfg s' := by
  induction n generalizing g info s a with
  | zero =>
    simp only [Zoeax.insertUntyped, bind_ok, liftExcept_ok] at h
    obtain ⟨o, _, ⟨-, rfl⟩, h⟩ := h
    cases o with
    | none =>
      obtain ⟨-, rfl⟩ := pure_ok.1 h
      exact hs.allocated
    | some _ => exact (throw_ok.1 h).elim
  | succ n ih =>
    simp only [Zoeax.insertUntyped, bind_ok, liftExcept_ok] at h
    obtain ⟨o, _, ⟨hnext, rfl⟩, h⟩ := h
    rcases o with _ | ⟨idx, cap, g'⟩
    · obtain ⟨-, rfl⟩ := pure_ok.1 h
      exact hs.allocated
    · obtain ⟨_, s₁, hwrite, h⟩ := bind_ok.1 h
      obtain ⟨hlt, rfl, hg'⟩ := hg.of_next hnext
      exact ih (hs.round hram hlt hb hwrite) (hram.trans (Nat.le_add_right ..)) hg' h

end Handing

/-- `create_initial_thread`, from the root thread on. -/
theorem Reserved.createRootThread {image : Image} {mem : RootServerMemory} {r : RootSpaces}
    {rootTcb : CapabilityData} {info : BootInfo} (hs : Reserved cfg r.mgr s)
    (hmem : mem.Given cfg r.mgr) (hram : cfg.freeRam ≤ r.mgr.startAddr)
    (hfits : r.mgr.startAddr ≤ r.mgr.endAddr) (hend : r.mgr.endAddr = cfg.freeRamEnd)
    (h : createRootThread cfg image mem r s = .ok (rootTcb, info) s') : Allocated cfg s' := by
  simp only [Zoeax.createRootThread, bind_ok, liftExcept_ok, pure_ok, modify_ok] at h
  obtain ⟨tcbCap, s₁, htcb, info', s₂, huntyped, _, _, rfl, a0, _, ⟨-, rfl⟩, _, _, hupdate, -,
    rfl⟩ := h
  obtain ⟨t, -, rfl⟩ := updateTcb_ok.1 hupdate
  have hrange : UntypedCapGenerator.Ranges
      ⟨toKernelV r.mgr.startAddr, toKernelV r.mgr.endAddr, r.mgr.cnodeStartIdx, r.mgr.cnodeIdxMax⟩
      r.mgr.startAddr r.mgr.endAddr :=
    ⟨rfl, rfl, hfits, hend ▸ cfg.freeRamEnd_le⟩
  have hs₂ := (hs.createRootTcb hmem.tcb htcb).handing.insertUntyped hram hrange hend.le huntyped
  exact hs₂.of_eq rfl fun _ _ => rfl

/-- **After boot** the blocks are apart, and all of their memory is free. -/
theorem boot_allocated {image : Image} (h : Boot cfg image s) : Allocated cfg s := by
  obtain ⟨info, h⟩ := h
  simp only [initKernel, kernelVmInit, createInitialThread, TCBCap.makeRunnable, requireSchedule,
    bind_ok, liftExcept_ok, modify_ok, pure_ok] at h
  obtain ⟨_, _, ⟨-, rfl⟩, _, _, rfl, ⟨mem, m⟩, _, ⟨hmem, rfl⟩, info', _, ⟨r, s₁, hspaces, _, s₂,
    hidle, ⟨rootTcb, info''⟩, s₃, hroot, _, s₄, hres, rfl, rfl⟩, _, _, rfl, _, _, hsched, rfl,
    rfl⟩ := h
  -- before the first object
  have hempty : Reserved cfg m (.afterVmInit cfg) := by
    refine ⟨?_, ?_⟩
    · intro o ho
      cases ho
    · intro p c hc
      cases hc.cap
  obtain ⟨hle, hgiven⟩ := initWithUninit_given hmem
  obtain ⟨hidx, hend, hfits⟩ := initWithUninit_ok hmem
  obtain ⟨-, -, hadv⟩ := createRootSpaces_wrote hidx hspaces
  obtain ⟨hs₁, hgiven₁⟩ := hempty.createRootSpaces hgiven hspaces
  obtain ⟨t, -, hs₂⟩ := createIdleThread_ok.1 hidle
  have hs₂ : Reserved cfg r.mgr s₂ := by
    rw [hs₂]
    exact hs₁.of_eq rfl fun _ _ => rfl
  have hram : cfg.freeRam ≤ r.mgr.startAddr := by
    have hmgr := hadv.mem
    dsimp only at hle
    omega
  have hs₃ := hs₂.createRootThread hgiven₁ hram (hadv.fits hfits) (hadv.endAddr.trans hend) hroot
  have hT : ThreadStable (Allocated cfg) := Allocated.threadStable
  exact hT.start hs₃ hres hsched

/-! ## Runs -/

/-- In the free part of a block there is room for an object. -/
theorem Allocated.createObject {p : Nat} {c : CapabilityData} {o : Object} (hs : Allocated cfg s)
    (hc : s.Untyped cfg p c) (halign : o.addr % o.kind.align = 0) (hlo : c.freePhys ≤ o.addr)
    (hhi : o.addr + o.size ≤ c.blockEnd) :
    createObject cfg o s = .ok () { s with objects := o :: s.objects } := by
  obtain ⟨hram, hend⟩ := hs.inRam p c hc
  have hbase := (hs.block p c hc).base_le_free
  have hadm : o.admissible cfg = true := by
    simp only [Object.admissible, Bool.and_eq_true, decide_eq_true_eq]
    omega
  refine createObject_ok.2 ⟨hadm, ?_, rfl⟩
  intro o' ho'
  simp only [Object.overlaps, Bool.and_eq_false_iff, decide_eq_false_iff_not]
  have := hs.free p c hc o' ho'
  omega

/-- An invariant of runs of fitting requests may use that what a retype makes is new. -/
theorem run_invariant_apart {C : InvokeCond} {P : KState → Prop} {s₀ : KState}
    (hrun : Run cfg C s₀ s) (hC : ∀ l r u i, C l r u i → RetypeFits cfg l r u i)
    (hwf : HeapWF cfg s₀) (hall : Allocated cfg s₀) (hP : P s₀)
    (hstep : ∀ u v (ev : Event), HeapWF cfg u → Allocated cfg u → ev.Meets cfg C u →
      ev.Meets cfg (RetypesApart cfg) u → P u → Step cfg u ev v → P v) :
    HeapWF cfg s ∧ Allocated cfg s ∧ P s := by
  refine run_invariant (P := fun s => HeapWF cfg s ∧ Allocated cfg s ∧ P s) hrun ⟨hwf, hall, hP⟩ ?_
  rintro u v ⟨hu, hall, hP⟩ ⟨ev, hmeets, h⟩
  have hfits : ev.Meets cfg (RetypeFits cfg) u := hmeets.mono hC
  exact ⟨hu.step h, hall.step hu hfits h,
    hstep u v ev hu hall hmeets (hall.meets_retypesApart hu hfits) hP h⟩

theorem allocated_run {C : InvokeCond} {image : Image} {s₀ : KState} (hboot : Boot cfg image s₀)
    (hrun : Run cfg C s₀ s) (hC : ∀ l r u i, C l r u i → RetypeFits cfg l r u i) :
    HeapWF cfg s ∧ Allocated cfg s := by
  obtain ⟨hwf, hall, -⟩ := run_invariant_apart (P := fun _ => True) hrun hC (heapWF_boot hboot)
    (boot_allocated hboot) trivial fun _ _ _ _ _ _ _ _ _ => trivial
  exact ⟨hwf, hall⟩

/-- **Free memory stays free.** In every run from boot that meets the conditions, no object lies in
the free part of a block, the blocks of different capabilities do not meet, and an object can be
made wherever it fits into the free part of a block. -/
theorem allocated_of_run {image : Image} {s₀ : KState} (hboot : Boot cfg image s₀)
    (hrun : Run cfg (GuardedFits cfg) s₀ s) :
    Allocated cfg s ∧ ∀ p c o, s.Untyped cfg p c → o.addr % o.kind.align = 0 →
      c.freePhys ≤ o.addr → o.addr + o.size ≤ c.blockEnd →
      createObject cfg o s = .ok () { s with objects := o :: s.objects } := by
  obtain ⟨-, hs⟩ := allocated_run hboot hrun fun _ _ _ _ h => h.retypeFits
  refine ⟨hs, ?_⟩
  intro p c o hc halign hlo hhi
  exact hs.createObject hc halign hlo hhi

/-- The root server makes a thread from the block in slot 9: its memory is no longer free. -/
theorem allocated_after_retype : ∃ s₀ s c, Boot .virt demoImage s₀ ∧
    Run .virt (GuardedFits .virt) s₀ s ∧ s.Untyped .virt (demoCNode.slotAt 9) c ∧
    c.freePhys = c.getAddress + Config.virt.tcbSize ∧ c.freePhys < c.blockEnd ∧
    (∃ o ∈ s.objects, o.kind = .tcb ∧ o.addr = c.getAddress) ∧
    Allocated .virt s ∧ ∀ p c o, s.Untyped .virt p c → o.addr % o.kind.align = 0 →
      c.freePhys ≤ o.addr → o.addr + o.size ≤ c.blockEnd →
      createObject .virt o s = .ok () { s with objects := o :: s.objects } := by
  obtain ⟨s₀, s, hboot, hrun, htest⟩ := exists_run_of_trace .virt (GuardedFits .virt) demoImage
    [.trap { ecallRegs 9 18 2 with a3 := 2, a4 := 81604378642, a5 := 1, a6 := 3 }]
    (fun s => (s.capAt (demoCNode.slotAt 9)).any fun c => c.getCapType = .ok .untyped &&
      c.freePhys = c.getAddress + Config.virt.tcbSize && c.freePhys < c.blockEnd &&
      s.objects.any fun o => o.kind = .tcb && o.addr = c.getAddress) (by decide +kernel)
  obtain ⟨c, hcap, htest⟩ := (Option.any_eq_true ..).1 htest
  simp only [Bool.and_eq_true, decide_eq_true_eq, List.any_eq_true] at htest
  obtain ⟨⟨⟨htype, hfree⟩, hlt⟩, hobj⟩ := htest
  obtain ⟨hs, hroom⟩ := allocated_of_run hboot hrun
  exact ⟨s₀, s, c, hboot, hrun, ⟨by decide, hcap, htype⟩, hfree, hlt, hobj, hs, hroom⟩

/-- **The kernel is an allocator that never takes anything back.** From any state `u` of such a run
on, a run is a run of the arena: no untyped capability appears, disappears or moves, its block stays
the same and its free part only gets smaller, and every object that is new since `u` lies in what
became used of some block since `u`. -/
theorem arena_of_run {image : Image} {s₀ u : KState} (hboot : Boot cfg image s₀)
    (hreach : Run cfg (GuardedFits cfg) s₀ u) (hrun : Run cfg (GuardedFits cfg) u s) :
    Relation.ReflTransGen Arena.Takes (u.arena cfg) (s.arena cfg) ∧
      Arena.Spent (u.arena cfg) (s.arena cfg) := by
  obtain ⟨hwf, hu⟩ := allocated_run hboot hreach fun _ _ _ _ h => h.retypeFits
  have htakes : Relation.ReflTransGen Arena.Takes (u.arena cfg) (s.arena cfg) := by
    refine (run_invariant_apart (P := fun v => Relation.ReflTransGen Arena.Takes (u.arena cfg)
      (v.arena cfg)) hrun (fun _ _ _ _ h => h.retypeFits) hwf hu .refl ?_).2.2
    intro v w ev hv hall hmeets _ htakes hstep
    rcases arena_step hv hall (hmeets.mono fun _ _ _ _ h => h.retypeFits) hstep with heq | hstep
    · rw [heq]
      exact htakes
    · exact htakes.tail hstep
  exact ⟨htakes, .of_run htakes⟩

/-- The thread of the root server again, as a run of the arena: boot leaves the whole block free. -/
theorem arena_after_retype : ∃ s₀ s q, Boot .virt demoImage s₀ ∧
    Run .virt (GuardedFits .virt) s₀ s ∧ (s.arena .virt).pool (demoCNode.slotAt 9) = some q ∧
    q.free = q.base + Config.virt.tcbSize ∧
    Relation.ReflTransGen Arena.Takes (s₀.arena .virt) (s.arena .virt) ∧
    Arena.Spent (s₀.arena .virt) (s.arena .virt) := by
  obtain ⟨s₀, s, hboot, hrun, htest⟩ := exists_run_of_trace .virt (GuardedFits .virt) demoImage
    [.trap { ecallRegs 9 18 2 with a3 := 2, a4 := 81604378642, a5 := 1, a6 := 3 }]
    (fun s => (s.pool? .virt (demoCNode.slotAt 9)).any fun q =>
      q.free = q.base + Config.virt.tcbSize) (by decide +kernel)
  obtain ⟨q, hq, hfree⟩ := (Option.any_eq_true ..).1 htest
  obtain ⟨htakes, hspent⟩ := arena_of_run hboot .refl hrun
  exact ⟨s₀, s, q, hboot, hrun, hq, of_decide_eq_true hfree, htakes, hspent⟩

end Zoeax
