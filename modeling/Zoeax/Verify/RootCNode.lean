import Zoeax.Verify.Trace

/-!
# The root CNode after boot

Boot writes the five slots with fixed numbers and takes the numbers of all others from one counter:
for every page and every page table that it allocates, and then for the untyped capabilities.
`Took` says what a part of boot took: memory and slots in step. At the end the slots in use are
those from 1 up to the counter, and the boot information lists the untyped capabilities.

The first empty slot is published in the loop over the untyped capabilities only. If not even one
page is left for them it stays zero (`firstEmpty_zero`); that is the only case in which it is wrong
(`rootCNode_iff`).
-/

namespace Zoeax

open Lib Exec
open CapabilityType (entrySize)

variable {cfg : Config} {s s' s'' : KState}

/-- Slot number `i` of the CNode. -/
def CapabilityData.slotAt (c : CapabilityData) (i : Nat) : Nat :=
  toKernelV c.getAddress + entrySize * i

/-- Slot number `i` of the CNode is in use. -/
def KState.InUse (s : KState) (c : CapabilityData) (i : Nat) : Prop :=
  i < 2 ^ c.radix ∧ s.capAt (c.slotAt i) ≠ none

theorem CapabilityData.slotAt_inj {c : CapabilityData} {i j : Nat} (h : c.slotAt i = c.slotAt j) :
    i = j := by
  simp only [slotAt, entrySize] at h
  omega

theorem CapabilityData.capacity_le {c : CapabilityData} {n : Nat} (h : c.capacity cfg = .ok n) :
    n ≤ 2 ^ c.radix := by
  rw [Profile.wrap_eq_mod (arith_ok.1 h)]
  exact Nat.mod_le ..

/-- `write_slot` checks the number of the slot. -/
theorem writeSlot_lt {c cap : CapabilityData} {index : Nat} {u : Unit}
    (h : c.writeSlot cfg cap index s = .ok u s') : index < 2 ^ c.radix := by
  simp only [CapabilityData.writeSlot, bind_ok, liftExcept_ok, require_ok] at h
  obtain ⟨n, _, ⟨hn, -⟩, _, _, ⟨hlt, -⟩, -⟩ := h
  exact Nat.lt_of_lt_of_le (of_decide_eq_true hlt) (CapabilityData.capacity_le hn)

/-! ## What a part of boot takes -/

/-- From `s` to `s'` the slots in `new` were written, all of them empty before. -/
structure Wrote (c : CapabilityData) (new : Nat → Prop) (s s' : KState) : Prop where
  inUse : ∀ i, s'.InUse c i ↔ s.InUse c i ∨ new i
  empty : ∀ i, new i → ¬s.InUse c i
  kept : ∀ i, s.InUse c i → s'.capAt (c.slotAt i) = s.capAt (c.slotAt i)

namespace Wrote

variable {c : CapabilityData} {new new' : Nat → Prop}

theorem of_caps (h : ∀ i < 2 ^ c.radix, s'.capAt (c.slotAt i) = s.capAt (c.slotAt i)) :
    Wrote c (fun _ => False) s s' where
  inUse i := by
    rw [or_false]
    exact and_congr_right fun hi => by rw [h i hi]
  empty _ h := h.elim
  kept i hi := h i hi.1

theorem of_slots (h : s'.slots = s.slots) : Wrote c (fun _ => False) s s' :=
  of_caps fun i _ => by rw [KState.capAt, h, KState.capAt]

theorem trans (h : Wrote c new s s') (h' : Wrote c new' s' s'') :
    Wrote c (fun i => new i ∨ new' i) s s'' where
  inUse i := by rw [h'.inUse, h.inUse, or_assoc]
  empty i hi hs := hi.elim (fun hi => h.empty i hi hs) fun hi =>
    h'.empty i hi ((h.inUse i).2 (.inl hs))
  kept i hi := (h'.kept i ((h.inUse i).2 (.inl hi))).trans (h.kept i hi)

theorem congr (h : Wrote c new s s') (hnew : ∀ i, new i ↔ new' i) : Wrote c new' s s' := by
  obtain rfl : new = new' := funext fun i => propext (hnew i)
  exact h

theorem writeSlot {cap : CapabilityData} {index : Nat} {u : Unit}
    (h : unwrap (c.writeSlot cfg cap index) s = .ok u s') :
    Wrote c (· = index) s s' ∧ s'.capAt (c.slotAt index) = some cap := by
  have hlt := writeSlot_lt (unwrap_ok.1 h)
  obtain ⟨p, rfl, -, hnone, rfl⟩ := writeSlot_ok (unwrap_ok.1 h)
  have hcap : ∀ i, (s.setSlot (c.slotAt index) (some (.newWithRawcap cap))).capAt (c.slotAt i) =
      if i = index then some cap else s.capAt (c.slotAt i) := by
    intro i
    rw [KState.capAt_setSlot]
    by_cases hi : i = index
    · rw [if_pos hi, if_pos (by rw [hi])]
      rfl
    · rw [if_neg hi, if_neg fun h => hi (c.slotAt_inj h)]
  have hempty : ¬s.InUse c index := fun h => h.2 (congrArg (Option.map _) hnone)
  refine ⟨⟨fun i => ?_, fun i hi => hi ▸ hempty, fun i hi => ?_⟩, (hcap index).trans (if_pos rfl)⟩
  · rw [KState.InUse, KState.InUse]
    erw [hcap i]
    by_cases hi : i = index
    · simp [hi, hlt]
    · simp [hi]
  · refine (hcap i).trans (if_neg ?_)
    rintro rfl
    exact hempty hi

end Wrote

/-- From `m` to `m'` as many slots were taken as pages. -/
structure ResourceManager.Advance (m m' : ResourceManager) : Prop where
  idx : m.cnodeStartIdx ≤ m'.cnodeStartIdx
  mem : m'.startAddr = m.startAddr + pageSize * (m'.cnodeStartIdx - m.cnodeStartIdx)
  endAddr : m'.endAddr = m.endAddr
  fits : m.startAddr ≤ m.endAddr → m'.startAddr ≤ m'.endAddr

namespace ResourceManager.Advance

variable {m m' m'' : ResourceManager}

theorem rfl : Advance m m := ⟨le_refl _, by simp, Eq.refl _, id⟩

theorem trans (h : Advance m m') (h' : Advance m' m'') : Advance m m'' where
  idx := h.idx.trans h'.idx
  mem := by
    have := h.idx
    have := h'.idx
    rw [h'.mem, h.mem, Nat.add_assoc, ← Nat.mul_add]
    congr 2
    omega
  endAddr := h'.endAddr.trans h.endAddr
  fits hm := h'.fits (h.fits hm)

end ResourceManager.Advance

/-- The slots that were taken from `m` to `m'` were written from `s` to `s'`. -/
structure Took (c : CapabilityData) (m m' : ResourceManager) (s s' : KState) : Prop
    extends m.Advance m' where
  wrote : Wrote c (fun i => m.cnodeStartIdx ≤ i ∧ i < m'.cnodeStartIdx) s s'

namespace Took

variable {c : CapabilityData} {m m' m'' : ResourceManager}

theorem of_slots (h : s'.slots = s.slots) : Took c m m s s' :=
  ⟨.rfl, (Wrote.of_slots h).congr fun i => by simp⟩

theorem trans (h : Took c m m' s s') (h' : Took c m' m'' s' s'') : Took c m m'' s s'' := by
  refine ⟨h.toAdvance.trans h'.toAdvance, (h.wrote.trans h'.wrote).congr fun i => ?_⟩
  have := h.idx
  have := h'.idx
  omega

/-- A page and a slot for its capability. -/
theorem page {cap : CapabilityData} {addr idx : Nat} {m₁ m₂ : ResourceManager} {u : Unit}
    (hpage : m.allocPage = .ok (addr, m₁)) (h : Took c m₁ m₂ s s')
    (hidx : m₂.allocCnodeIdx = .ok (idx, m'))
    (hwrite : unwrap (c.writeSlot cfg cap idx) s' = .ok u s'') : Took c m m' s s'' := by
  simp only [ResourceManager.allocPage, ResourceManager.allocatePages, except_bind_ok, require_ok,
    except_pure_ok, Prod.mk.injEq] at hpage
  obtain ⟨_, hfits, -, rfl⟩ := hpage
  simp only [ResourceManager.allocCnodeIdx, except_bind_ok, require_ok, except_pure_ok,
    Prod.mk.injEq] at hidx
  obtain ⟨-, -, rfl, rfl⟩ := hidx
  have hle := h.idx
  have hmem := h.mem
  dsimp only at hle hmem
  refine ⟨⟨?_, ?_, h.endAddr, fun _ => h.fits (of_decide_eq_true hfits)⟩, ?_⟩
  · dsimp only
    omega
  · dsimp only
    rw [hmem, pageSize]
    omega
  · refine (h.wrote.trans (Wrote.writeSlot hwrite).1).congr fun i => ?_
    dsimp only
    omega

theorem bootObject {k : CapabilityType} {addr userSize : Nat} {u : Unit}
    (h : bootObject cfg k addr userSize s = .ok u s') : Took c m m s s' := by
  obtain ⟨size, -, rfl⟩ := bootObject_ok h
  exact of_slots rfl

variable {rootTableCap : CapabilityData}

/-- The loop of `map_page_tables`: every round takes a page and a slot. -/
theorem mapPageTables {vaddr n : Nat}
    (h : mapPageTables cfg c rootTableCap vaddr n m s = .ok m' s') : Took c m m' s s' := by
  induction n generalizing m s with
  | zero => exact (throw_ok.1 h).elim
  | succ n ih =>
    simp only [Zoeax.mapPageTables, bind_ok, liftExcept_ok] at h
    obtain ⟨⟨addr, m₁⟩, _, ⟨hpage, rfl⟩, _, s₁, hobj, cap, _, ⟨-, rfl⟩, ⟨idx, m₂⟩, _,
      ⟨hidx, rfl⟩, _, s₂, hwrite, ⟨c', level⟩, s₃, hmap, h⟩ := h
    obtain ⟨-, -, level', a, -, -, -, -, rfl⟩ := pageTableCapMap_ok (unwrap_ok.1 hmap)
    have hround : Took c m m₂ s (s₂.setWord a (Pte.write cap.getFrame pageV)) :=
      (page hpage (bootObject hobj) hidx hwrite).trans (of_slots rfl)
    dsimp only at h
    split at h
    · obtain ⟨rfl, rfl⟩ := pure_ok.1 h
      exact hround
    · exact hround.trans (ih h)

theorem pageCapMap {cap cap' : CapabilityData} {vaddr flags : Nat}
    (h : PageCap.map cfg cap rootTableCap vaddr flags s = .ok cap' s') : Took c m m s s' := by
  obtain ⟨-, -, a, -, -, -, rfl⟩ := pageCapMap_ok h
  exact of_slots rfl

theorem createMappedPageCap {cap : CapabilityData} {paddr vaddr flags : Nat}
    (h : createMappedPageCap cfg c rootTableCap m paddr vaddr flags s = .ok (cap, m') s') :
    Took c m m' s s' := by
  simp only [Zoeax.createMappedPageCap, bind_ok, liftExcept_ok] at h
  obtain ⟨_, s₁, hobj, pageCap, _, ⟨-, rfl⟩, first, s₂, hfirst, h⟩ := h
  refine (bootObject hobj).trans ?_
  rcases catchErr_ok hfirst with ⟨cap', rfl, hmap⟩ | ⟨e, rfl, hmap⟩
  · obtain ⟨⟨-, rfl⟩, rfl⟩ : (cap' = cap ∧ m = m') ∧ s₂ = s' := by simpa [pure_ok] using h
    exact pageCapMap hmap
  · obtain rfl := errAtomic_pageCapMap cfg _ _ _ _ hmap True.intro
    dsimp only at h
    split at h
    · simp only [bind_ok, pure_ok] at h
      obtain ⟨m₁, s₃, htables, cap', _, hmap', hret, rfl⟩ := h
      obtain ⟨-, rfl⟩ := Prod.mk.inj hret
      exact (mapPageTables htables).trans (pageCapMap (unwrap_ok.1 hmap'))
    · exact (throw_ok.1 h).elim

theorem mapProgramPage {hdr : Phdr} {em em' : ElfMapper} {i : Nat}
    (h : mapProgramPage cfg c rootTableCap hdr em i s = .ok em' s') :
    Took c em.mgr em'.mgr s s' := by
  simp only [Zoeax.mapProgramPage, bind_ok, liftExcept_ok, arith_ok, modify_ok, pure_ok] at h
  obtain ⟨vaddr, _, ⟨-, rfl⟩, ⟨addr, m₁⟩, _, ⟨hpage, rfl⟩, ⟨cap, m₂⟩, s₁, hmapped, ⟨idx, m₃⟩, _,
    ⟨hidx, rfl⟩, _, s₂, hwrite, _, _, rfl, rfl, rfl⟩ := h
  exact (page hpage (createMappedPageCap hmapped) hidx hwrite).trans (of_slots rfl)

theorem mapPages {hdr : Phdr} {n i : Nat} {em em' : ElfMapper}
    (h : mapPages cfg c rootTableCap hdr n i em s = .ok em' s') : Took c em.mgr em'.mgr s s' := by
  induction n generalizing i em s with
  | zero =>
    obtain ⟨rfl, rfl⟩ := pure_ok.1 h
    exact of_slots rfl
  | succ n ih =>
    obtain ⟨em₁, s₁, hpage, h⟩ := bind_ok.1 h
    exact (mapProgramPage hpage).trans (ih h)

theorem mapProgram {hdr : Phdr} {em em' : ElfMapper}
    (h : mapProgram cfg c rootTableCap hdr em s = .ok em' s') : Took c em.mgr em'.mgr s s' := by
  unfold Zoeax.mapProgram at h
  split at h
  · simp only [bind_ok, liftExcept_ok] at h
    obtain ⟨bytes, _, ⟨-, rfl⟩, h⟩ := h
    exact mapPages h
  · obtain ⟨rfl, rfl⟩ := pure_ok.1 h
    exact of_slots rfl

theorem mapSelf {phdrs : List Phdr} {em em' : ElfMapper}
    (h : mapSelf cfg c rootTableCap phdrs em s = .ok em' s') : Took c em.mgr em'.mgr s s' := by
  induction phdrs generalizing em s with
  | nil =>
    obtain ⟨rfl, rfl⟩ := pure_ok.1 h
    exact of_slots rfl
  | cons hdr hdrs ih =>
    obtain ⟨em₁, s₁, hprog, h⟩ := bind_ok.1 h
    exact (mapProgram hprog).trans (ih h)

theorem createAddressSpace {vspace : Nat} {cap : CapabilityData} {image : Image} {em : ElfMapper}
    (h : createAddressSpace cfg vspace c image m s = .ok (cap, em) s') :
    ∃ v, Wrote c (· = rootVspaceIdx) s v ∧ Took c m em.mgr v s' := by
  simp only [Zoeax.createAddressSpace, bind_ok, liftExcept_ok, modify_ok, pure_ok] at h
  obtain ⟨_, s₁, hobj, _, _, rfl, cap₀, _, ⟨-, rfl⟩, cap₁, s₂, hmake, _, s₃, hwrite, em₁, s₄, hself,
    hret, rfl⟩ := h
  obtain ⟨rfl, rfl⟩ := Prod.mk.inj hret
  obtain ⟨-, -, -, rfl⟩ := makeAsRoot_ok (unwrap_ok.1 hmake)
  obtain ⟨size, -, rfl⟩ := bootObject_ok hobj
  refine ⟨s₃, ?_, mapSelf hself⟩
  refine ((Wrote.of_slots ?_).trans (Wrote.writeSlot hwrite).1).congr fun i => by simp
  rfl

theorem createFrame {frame maxVaddr flags idx : Nat} {cap : CapabilityData}
    (h : createFrame cfg frame c rootTableCap maxVaddr flags idx m s = .ok (cap, m') s') :
    ∃ v, Took c m m' s v ∧ Wrote c (· = idx) v s' := by
  simp only [Zoeax.createFrame, bind_ok, liftExcept_ok, pure_ok] at h
  obtain ⟨vaddr, _, ⟨-, rfl⟩, ⟨cap₁, m₁⟩, s₁, hpage, _, _, hwrite, hret, rfl⟩ := h
  obtain ⟨rfl, rfl⟩ := Prod.mk.inj hret
  exact ⟨s₁, createMappedPageCap hpage, (Wrote.writeSlot hwrite).1⟩

end Took

/-! ## The root thread -/

/-- The slots of the CNode are below the local variables of the kernel. -/
def CapabilityData.BelowLocals (cfg : Config) (c : CapabilityData) : Prop :=
  ∀ i < 2 ^ c.radix, c.slotAt i < toKernelV cfg.freeRamEnd

theorem createRootCnode_wrote {cnode : Nat} {c : CapabilityData}
    (h : createRootCnode cfg cnode s = .ok c s') :
    Wrote c (· = rootCnodeIdx) s s' ∧ c.BelowLocals cfg := by
  simp only [createRootCnode, bind_ok, liftExcept_ok, pure_ok] at h
  obtain ⟨_, s₁, hobj, _, _, ⟨hinit, rfl⟩, _, _, hwrite, rfl, rfl⟩ := h
  obtain ⟨size, hfresh, rfl⟩ := bootObject_ok hobj
  obtain ⟨-, hle, hlt, -⟩ := Object.lt_of_admissible hfresh.admissible
  have hcap : CapabilityData.FreshFor _ ⟨.cNode, cnode, rootCnodeEntryNumBits, size⟩ :=
    init_fresh hlt (by decide) hinit
  refine ⟨((Wrote.of_slots ?_).trans (Wrote.writeSlot hwrite).1).congr fun i => by simp, ?_⟩
  · rfl
  · intro i hi
    have hsize : size = 2 ^ rootCnodeEntryNumBits * entrySize := by
      have h := hfresh.size
      simp only [CapabilityType.getObjectSize, except_bind_ok, arith_ok] at h
      obtain ⟨slots, hslots, hsize⟩ := h
      have hslots : slots = 2 ^ rootCnodeEntryNumBits := Profile.wrap_eq_mod hslots
      have hsize := Profile.wrap_eq_mod hsize
      rw [hslots] at hsize
      exact hsize
    rw [hsize, entrySize] at hle
    rw [hcap.radix rfl] at hi
    rw [CapabilityData.slotAt, hcap.address, toKernelV_freeRamEnd, toKernelV_of_lt hlt, entrySize]
    dsimp only at hle hi ⊢
    omega

theorem holdRootCap_wrote {slot : TcbSlot} {site : Site} {thread idx : Nat}
    {c cnodeCap cap : CapabilityData} {u : Unit} (hc : c.BelowLocals cfg)
    (h : holdRootCap cfg slot site thread cnodeCap cap idx s = .ok u s') :
    Wrote c (fun _ => False) s s' := by
  obtain ⟨parent, s₁, t, -, hins, -, rfl⟩ := holdRootCap_ok h
  obtain ⟨⟨slots, rfl⟩, hcap⟩ :=
    (keeps_insertAfter (I := SameCaps _) (fun _ p f hv => hv.relink p f) _ _).ok .rfl hins
  refine .of_caps fun i hi => (hcap _).trans ?_
  rw [KState.capAt_setSlot, if_neg]
  have := hc i hi
  have := cfg.localAddr_apart site
  omega

theorem createRootTcb_wrote {tcb : Nat} {c vspaceCap ipcBufCap cap : CapabilityData}
    {entry : UInt64} (hc : c.BelowLocals cfg)
    (h : createRootTcb cfg tcb c vspaceCap ipcBufCap entry s = .ok cap s') :
    Wrote c (· = rootTcbIdx) s s' := by
  simp only [createRootTcb, bind_ok, liftExcept_ok, pure_ok, modify_ok] at h
  obtain ⟨_, s₀, hobj, _, _, rfl, _, s₁, hhold₁, _, s₂, hhold₂, _, s₃, hhold₃, cap', _,
    ⟨-, rfl⟩, _, _, hwrite, rfl, rfl⟩ := h
  obtain ⟨size, -, rfl⟩ := bootObject_ok hobj
  have hheld := ((holdRootCap_wrote hc hhold₁).trans (holdRootCap_wrote hc hhold₂)).trans
    (holdRootCap_wrote hc hhold₃)
  refine (((Wrote.of_slots ?_).trans hheld).trans (Wrote.writeSlot hwrite).1).congr fun i => by simp
  rfl

/-! ## The untyped capabilities -/

/-- The slot that an entry of the boot information names holds an untyped capability of the size
that it gives. -/
def UntypedInfo.Right (s : KState) (c : CapabilityData) (info : UntypedInfo) : Prop :=
  ∃ cap, s.capAt (c.slotAt info.idx) = some cap ∧ cap.getCapType = .ok .untyped ∧
    cap.blockSize = info.bits

/-- The generator has something left: more than a page. -/
theorem untypedNext_none {g : UntypedCapGenerator}
    {o : Option (Nat × CapabilityData × UntypedCapGenerator)} (hlt : g.startAddress + 4096 < 2 ^ 64)
    (h : g.next cfg = .ok o) :
    o = none ↔ ¬g.startAddress + pageSize < g.endAddress := by
  simp only [UntypedCapGenerator.next, except_bind_ok, arith_ok] at h
  obtain ⟨bound, hbound, h⟩ := h
  rw [Profile.add, Profile.wrap_of_lt _ hlt] at hbound
  obtain rfl := Option.some.inj hbound
  rw [pageSize]
  split at h
  · next hle =>
    obtain rfl := except_pure_ok.1 h
    exact iff_of_true rfl (by omega)
  · next hlt =>
    refine iff_of_false ?_ (by omega)
    rintro rfl
    simp only [except_bind_ok, except_pure_ok] at h
    obtain ⟨_, -, _, -, _, -, _, -, h⟩ := h
    cases h

theorem untypedNext_idx {g g' : UntypedCapGenerator} {idx : Nat} {cap : CapabilityData}
    (h : g.next cfg = .ok (some (idx, cap, g'))) : g.idxStart = idx ∧ g'.idxStart = idx + 1 := by
  simp only [UntypedCapGenerator.next, except_bind_ok] at h
  obtain ⟨bound, -, h⟩ := h
  split at h
  · cases h
  · simp only [except_bind_ok, except_pure_ok, Option.some.injEq, Prod.mk.injEq] at h
    obtain ⟨_, -, _, -, _, -, _, -, rfl, -, rfl⟩ := h
    exact ⟨rfl, rfl⟩

/-- What the loop has written and listed: `k` untyped capabilities, in the slots from the counter
on. -/
structure Listed (c : CapabilityData) (g : UntypedCapGenerator) (info info' : BootInfo) (k : Nat)
    (s s' : KState) : Prop where
  wrote : Wrote c (fun i => g.idxStart ≤ i ∧ i < g.idxStart + k) s s'
  num : info'.untypedNum = info.untypedNum + k
  firstEmpty : info'.firtstEmptyIdx = if k = 0 then info.firtstEmptyIdx else g.idxStart + k
  infos : ∃ new, info'.untypedInfos = info.untypedInfos ++ new ∧ new.length = k ∧
    ∀ u ∈ new, u.Right s' c

theorem Listed.zero {c : CapabilityData} {g : UntypedCapGenerator} {info : BootInfo} :
    Listed c g info info 0 s s :=
  ⟨(Wrote.of_slots rfl).congr fun i => by simp, rfl, rfl, [], by simp, rfl, by simp⟩

theorem Listed.congr {c : CapabilityData} {g : UntypedCapGenerator} {info info' info'' : BootInfo}
    {k : Nat} (h : Listed c g info info' k s s') (hslots : s''.slots = s'.slots)
    (hnum : info''.untypedNum = info'.untypedNum)
    (hfirst : info''.firtstEmptyIdx = info'.firtstEmptyIdx)
    (hinfos : info''.untypedInfos = info'.untypedInfos) : Listed c g info info'' k s s'' where
  wrote := (h.wrote.trans (.of_slots hslots)).congr fun i => by simp
  num := hnum.trans h.num
  firstEmpty := hfirst.trans h.firstEmpty
  infos := by
    obtain ⟨new, hnew, hlen, hright⟩ := h.infos
    refine ⟨new, hinfos.trans hnew, hlen, fun u hu => ?_⟩
    obtain ⟨cap, hcap, hu⟩ := hright u hu
    exact ⟨cap, by rw [KState.capAt, hslots]; exact hcap, hu⟩

theorem Listed.untyped {c : CapabilityData} {g : UntypedCapGenerator} {info : BootInfo} {k i : Nat}
    (h : Listed c g {} info k s s') (hi : i < k) :
    ∃ u, info.untypedInfos[i]? = some u ∧ u.Right s' c := by
  obtain ⟨new, hnew, rfl, hright⟩ := h.infos
  obtain rfl : info.untypedInfos = new := hnew
  exact ⟨_, List.getElem?_eq_getElem hi, hright _ (List.getElem_mem hi)⟩

/-- One round of the loop before `k` more. -/
theorem Listed.round {c cap : CapabilityData} {g g' : UntypedCapGenerator} {info info' : BootInfo}
    {idx k : Nat} {u : Unit} (hnext : g.next cfg = .ok (some (idx, cap, g')))
    (hwrite : unwrap (c.writeSlot cfg cap idx) s = .ok u s')
    (h : Listed c g'
      { info with
        untypedInfos := info.untypedInfos ++ [⟨cap.blockSize, idx, false⟩]
        untypedNum := info.untypedNum + 1
        firtstEmptyIdx := idx + 1 } info' k s' s'') :
    Listed c g info info' (k + 1) s s'' := by
  have htype := untypedNext_capType hnext
  obtain ⟨rfl, hidx⟩ := untypedNext_idx hnext
  obtain ⟨hw, hcap⟩ := Wrote.writeSlot hwrite
  obtain ⟨new, hnew, hlen, hright⟩ := h.infos
  refine ⟨(hw.trans h.wrote).congr fun i => ?_, ?_, ?_,
    ⟨cap.blockSize, g.idxStart, false⟩ :: new, ?_,
    congrArg (· + 1) hlen, ?_⟩
  · omega
  · rw [h.num]
    dsimp only
    omega
  · rw [h.firstEmpty, hidx, if_neg k.succ_ne_zero]
    dsimp only
    split <;> omega
  · rw [hnew, List.append_assoc, List.singleton_append]
  · refine List.forall_mem_cons.2 ⟨⟨cap, ?_, htype, rfl⟩, hright⟩
    refine (h.wrote.kept _ ((hw.inUse _).2 (.inr rfl))).trans hcap

theorem insertUntyped_listed {c : CapabilityData} {n : Nat} {g : UntypedCapGenerator}
    {info info' : BootInfo} (h : insertUntyped cfg c n g info s = .ok info' s') :
    ∃ k o, Listed c g info info' k s s' ∧ g.next cfg = .ok o ∧ (k = 0 ↔ o = none) := by
  induction n generalizing g info s with
  | zero =>
    simp only [insertUntyped, bind_ok, liftExcept_ok] at h
    obtain ⟨o, _, ⟨hnext, rfl⟩, h⟩ := h
    cases o with
    | none =>
      obtain ⟨rfl, rfl⟩ := pure_ok.1 h
      exact ⟨0, none, .zero, hnext, by simp⟩
    | some _ => exact (throw_ok.1 h).elim
  | succ n ih =>
    simp only [insertUntyped, bind_ok, liftExcept_ok] at h
    obtain ⟨o, _, ⟨hnext, rfl⟩, h⟩ := h
    rcases o with _ | ⟨idx, cap, g'⟩
    · obtain ⟨rfl, rfl⟩ := pure_ok.1 h
      exact ⟨0, none, .zero, hnext, by simp⟩
    · obtain ⟨_, s₁, hwrite, h⟩ := bind_ok.1 h
      obtain ⟨k, -, hk, -⟩ := ih h
      exact ⟨k + 1, _, hk.round hnext hwrite, hnext, by simp⟩

/-! ## `create_initial_thread` -/

theorem createRootSpaces_wrote {image : Image} {mem : RootServerMemory} {m : ResourceManager}
    {r : RootSpaces} (hidx : m.cnodeStartIdx = rootBootInfoPage + 1)
    (h : createRootSpaces cfg image mem m s = .ok r s') :
    Wrote r.rootCnodeCap (fun i => rootCnodeIdx ≤ i ∧ i < r.mgr.cnodeStartIdx) s s' ∧
      r.rootCnodeCap.BelowLocals cfg ∧ m.Advance r.mgr := by
  simp only [createRootSpaces, bind_ok, liftExcept_ok, pure_ok] at h
  obtain ⟨c, s₁, hcnode, ⟨vspaceCap, em⟩, s₂, hspace, ⟨ipcCap, m₂⟩, s₃, hipc, ipcVaddr, _, ⟨-, rfl⟩,
    ⟨bootCap, m₃⟩, s₄, hboot, rfl, rfl⟩ := h
  obtain ⟨hroot, hlocal⟩ := createRootCnode_wrote hcnode
  obtain ⟨v₁, hvspace, hself⟩ := Took.createAddressSpace hspace
  obtain ⟨v₂, htables, hbuffer⟩ := Took.createFrame hipc
  obtain ⟨v₃, htables', hinfo⟩ := Took.createFrame hboot
  have hle := hself.idx
  have hle' := htables.idx
  have hle'' := htables'.idx
  refine ⟨?_, hlocal, hself.toAdvance.trans (htables.toAdvance.trans htables'.toAdvance)⟩
  · refine (((hroot.trans hvspace).trans hself.wrote).trans ((htables.wrote.trans hbuffer).trans
      (htables'.wrote.trans hinfo))).congr fun i => ?_
    dsimp only [rootCnodeIdx, rootVspaceIdx, rootIpcBuffer, rootBootInfoPage] at *
    omega

theorem createRootThread_listed {image : Image} {mem : RootServerMemory} {r : RootSpaces}
    {rootTcb : CapabilityData} {info : BootInfo} (hlocal : r.rootCnodeCap.BelowLocals cfg)
    (hfits : r.mgr.startAddr ≤ r.mgr.endAddr) (hram : r.mgr.endAddr ≤ directMapEnd)
    (h : createRootThread cfg image mem r s = .ok (rootTcb, info) s') :
    ∃ v g, Wrote r.rootCnodeCap (· = rootTcbIdx) s v ∧ g.idxStart = r.mgr.cnodeStartIdx ∧
      Listed r.rootCnodeCap g {} info info.untypedNum v s' ∧
      (info.untypedNum = 0 ↔ ¬r.mgr.startAddr + pageSize < r.mgr.endAddr) := by
  simp only [createRootThread, bind_ok, liftExcept_ok, pure_ok, modify_ok] at h
  obtain ⟨tcbCap, s₁, htcb, info', s₂, huntyped, _, _, rfl, a0, _, ⟨-, rfl⟩, _, _, hupdate, hret,
    rfl⟩ := h
  obtain ⟨rfl, rfl⟩ := Prod.mk.inj hret
  obtain ⟨t, -, rfl⟩ := updateTcb_ok.1 hupdate
  obtain ⟨k, o, hlisted, hnext, hk⟩ := insertUntyped_listed huntyped
  obtain rfl : info'.untypedNum = k := hlisted.num.trans (Nat.zero_add k)
  refine ⟨s₁, _, createRootTcb_wrote hlocal htcb, rfl, hlisted.congr rfl rfl rfl rfl, hk.trans ?_⟩
  -- the code's test is on kernel addresses
  rw [directMapEnd] at hram
  rw [toKernelV_of_lt (by omega), toKernelV_of_lt (by omega)] at hnext
  refine (untypedNext_none ?_ hnext).trans ?_
  · dsimp only
    rw [kernelVAddrPfx]
    omega
  · dsimp only
    omega

/-- What the root server can rely on: the slots from the first empty one on are empty, and the
untyped capabilities are where the boot information says. -/
structure RootCNodeOk (s : KState) (c : CapabilityData) (info : BootInfo) : Prop where
  firstEmpty : ∀ i, s.InUse c i → i < info.firtstEmptyIdx
  untyped : ∀ i < info.untypedNum, ∃ u, info.untypedInfos[i]? = some u ∧ u.Right s c

section

variable {image : Image} {mem : RootServerMemory} {m : ResourceManager} {info : BootInfo}

theorem allocObj_ok {m₀ : ResourceManager} {k : CapabilityType} {userSize addr : Nat}
    (h : m₀.allocObj cfg k userSize = .ok (addr, m)) :
    m.cnodeStartIdx = m₀.cnodeStartIdx ∧ m.endAddr = m₀.endAddr ∧ m.startAddr ≤ m.endAddr := by
  simp only [ResourceManager.allocObj, ResourceManager.allocatePages, except_bind_ok, require_ok,
    except_pure_ok, Prod.mk.injEq] at h
  obtain ⟨_, -, _, -, _, hle, -, rfl⟩ := h
  exact ⟨rfl, rfl, of_decide_eq_true hle⟩

theorem initWithUninit_ok {m₀ : ResourceManager}
    (h : RootServerMemory.initWithUninit cfg m₀ = .ok (mem, m)) :
    m.cnodeStartIdx = m₀.cnodeStartIdx ∧ m.endAddr = m₀.endAddr ∧ m.startAddr ≤ m.endAddr := by
  simp only [RootServerMemory.initWithUninit, except_bind_ok, except_pure_ok, Prod.mk.injEq] at h
  obtain ⟨⟨_, m₁⟩, h₁, ⟨_, m₂⟩, h₂, ⟨_, m₃⟩, h₃, ⟨_, m₄⟩, h₄, ⟨_, m₅⟩, h₅, -, rfl⟩ := h
  obtain ⟨hidx₁, hend₁, -⟩ := allocObj_ok h₁
  obtain ⟨hidx₂, hend₂, -⟩ := allocObj_ok h₂
  obtain ⟨hidx₃, hend₃, -⟩ := allocObj_ok h₃
  obtain ⟨hidx₄, hend₄, -⟩ := allocObj_ok h₄
  obtain ⟨hidx₅, hend₅, hle⟩ := allocObj_ok h₅
  exact ⟨by rw [hidx₅, hidx₄, hidx₃, hidx₂, hidx₁], by rw [hend₅, hend₄, hend₃, hend₂, hend₁], hle⟩

/-- **The root CNode after boot.** `r` is what `create_initial_thread` has made before the first
untyped capability. No slot is written twice: the slots in use are the ones from 1 on, five with
fixed numbers, one for each page taken since, and one for each untyped capability. The boot
information is right if and only if more than a page is left for the untyped capabilities. -/
theorem rootCNode_iff
    (hmem : RootServerMemory.initWithUninit cfg
      ⟨cfg.freeRam, cfg.freeRamEnd, rootBootInfoPage + 1, 2 ^ rootCnodeEntryNumBits - 1⟩ =
        .ok (mem, m))
    (h : createInitialThread cfg image mem m (.afterVmInit cfg) = .ok info s) :
    ∃ r s₁, createRootSpaces cfg image mem m (.afterVmInit cfg) = .ok r s₁ ∧
      (∀ i, s.InUse r.rootCnodeCap i ↔
        1 ≤ i ∧ i < 6 + (r.mgr.startAddr - m.startAddr) / pageSize + info.untypedNum) ∧
      (RootCNodeOk s r.rootCnodeCap info ↔ r.mgr.startAddr + pageSize < r.mgr.endAddr) := by
  simp only [createInitialThread, bind_ok, pure_ok] at h
  obtain ⟨r, s₁, hspaces, _, s₂, hidle, ⟨rootTcb, info'⟩, s₃, hthread, _, s₄, hres, rfl, rfl⟩ := h
  refine ⟨r, s₁, hspaces, ?_⟩
  obtain ⟨hidx, hend, hfits⟩ := initWithUninit_ok hmem
  obtain ⟨hw₁, hlocal, hadv⟩ := createRootSpaces_wrote hidx hspaces
  have hend' : r.mgr.endAddr = cfg.freeRamEnd := hadv.endAddr.trans hend
  have hidx' : 6 ≤ r.mgr.cnodeStartIdx := hidx.ge.trans hadv.idx
  have hmgr : 6 + (r.mgr.startAddr - m.startAddr) / pageSize = r.mgr.cnodeStartIdx := by
    rw [hadv.mem, Nat.add_sub_cancel_left, Nat.mul_div_cancel_left _ (by decide)]
    have hidx : m.cnodeStartIdx = 6 := hidx
    omega
  obtain ⟨v, g, hw₂, hg, hlisted, hroom⟩ :=
    createRootThread_listed hlocal (hadv.fits hfits) (hend' ▸ cfg.freeRamEnd_le) hthread
  obtain ⟨t, -, hs₂⟩ := createIdleThread_ok.1 hidle
  have hw : Wrote r.rootCnodeCap (fun _ => False) s₁ s₂ := .of_slots (by rw [hs₂]; rfl)
  obtain ⟨t', -, rfl⟩ := resume_ok.1 hres
  rw [hmgr]
  have hused : ∀ i, s₃.InUse r.rootCnodeCap i ↔
      1 ≤ i ∧ i < r.mgr.cnodeStartIdx + info'.untypedNum := by
    intro i
    have hfresh : ¬(KState.afterVmInit cfg).InUse r.rootCnodeCap i := fun h => h.2 rfl
    rw [hlisted.wrote.inUse, hw₂.inUse, hw.inUse, hw₁.inUse, iff_false_intro hfresh, hg, rootTcbIdx,
      rootCnodeIdx]
    simp only [false_or, or_false]
    omega
  refine ⟨hused, fun hok => ?_, fun hlt => ⟨fun i hi => ?_, fun i hi => hlisted.untyped hi⟩⟩
  · by_contra hlt
    have hfirst := hlisted.firstEmpty
    rw [if_pos (hroom.2 hlt)] at hfirst
    have h := hok.firstEmpty 1 ((hused 1).2 (by omega))
    rw [hfirst] at h
    cases h
  · rw [hlisted.firstEmpty, if_neg fun h => hroom.1 h hlt, hg]
    exact ((hused i).1 hi).2

end

/-! ## A board with memory to spare, and one without -/

/-- Boot of the root server up to `create_initial_thread`, if the boot information passes the
test. -/
def startThread (cfg : Config) (image : Image) (test : BootInfo → Bool) : KM Unit := do
  let (mem, m) ← RootServerMemory.initWithUninit cfg
    ⟨cfg.freeRam, cfg.freeRamEnd, rootBootInfoPage + 1, 2 ^ rootCnodeEntryNumBits - 1⟩
  let info ← createInitialThread cfg image mem m
  require (test info) panicked

theorem startThread_ok {image : Image} {test : BootInfo → Bool} {u : Unit}
    (h : startThread cfg image test s = .ok u s') :
    ∃ mem m info, RootServerMemory.initWithUninit cfg
        ⟨cfg.freeRam, cfg.freeRamEnd, rootBootInfoPage + 1, 2 ^ rootCnodeEntryNumBits - 1⟩ =
          .ok (mem, m) ∧
      createInitialThread cfg image mem m s = .ok info s' ∧ test info = true := by
  simp only [startThread, bind_ok, liftExcept_ok, require_ok] at h
  obtain ⟨⟨mem, m⟩, _, ⟨hmem, rfl⟩, info, _, hthread, htest, rfl⟩ := h
  exact ⟨mem, m, info, hmem, hthread, htest⟩

/-- With memory to spare: eight slots for the root server, ten untyped capabilities. -/
theorem rootCNode_of_virt : ∃ mem m info s,
    createInitialThread .virt demoImage mem m (.afterVmInit .virt) = .ok info s ∧
    info.untypedNum = 10 ∧ info.firtstEmptyIdx = 19 ∧
    ∃ r s₁, createRootSpaces .virt demoImage mem m (.afterVmInit .virt) = .ok r s₁ ∧
      (∀ i, s.InUse r.rootCnodeCap i ↔
        1 ≤ i ∧ i < 6 + (r.mgr.startAddr - m.startAddr) / pageSize + info.untypedNum) ∧
      (RootCNodeOk s r.rootCnodeCap info ↔ r.mgr.startAddr + pageSize < r.mgr.endAddr) := by
  have htest : endsIn (startThread .virt demoImage
      (fun info => info.untypedNum == 10 && info.firtstEmptyIdx == 19) (.afterVmInit .virt))
      (fun _ => true) = true := by
    decide +kernel
  obtain ⟨_, s, hs, -⟩ := exists_of_endsIn htest
  obtain ⟨mem, m, info, hmem, h, htest⟩ := startThread_ok hs
  simp only [Bool.and_eq_true, beq_iff_eq] at htest
  exact ⟨mem, m, info, s, h, htest.1, htest.2, rootCNode_iff hmem h⟩

/-- `Config.virt` with just enough memory for the objects of a root server without segments. -/
def Config.tight : Config :=
  { Config.virt with
    freeRamEnd := 0x80c07000
    freeRamEnd_le := by decide
    kernelVmRoot_apart := by decide
    lv2Table_apart := by decide
    idleThread_apart := by decide
    localAddr_apart := fun site => le_trans (by decide) (Config.virt.localAddr_apart site) }

/-- The root CNode of a root server whose first object is at `0x80400000`. -/
def demoCNode : CapabilityData := .new .cNode 0x80400000 18

/-- **The first empty slot stays zero** when no memory is left for untyped capabilities: the boot
information gives the root server slot 0 as the first empty one, while slots up to number 8 are in
use and hold its own capabilities. -/
theorem firstEmpty_zero : ∃ mem m info s,
    RootServerMemory.initWithUninit .tight ⟨Config.tight.freeRam, Config.tight.freeRamEnd,
      rootBootInfoPage + 1, 2 ^ rootCnodeEntryNumBits - 1⟩ = .ok (mem, m) ∧
    createInitialThread .tight demoImage mem m (.afterVmInit .tight) = .ok info s ∧
    info.firtstEmptyIdx = 0 ∧ s.capAt (demoCNode.slotAt rootCnodeIdx) = some demoCNode ∧
    s.InUse demoCNode 8 ∧ ¬RootCNodeOk s demoCNode info := by
  have htest : endsIn (startThread .tight demoImage
      (fun info => info.firtstEmptyIdx == 0) (.afterVmInit .tight))
      (fun s => s.capAt (demoCNode.slotAt rootCnodeIdx) == some demoCNode &&
        (s.capAt (demoCNode.slotAt 8)).isSome) = true := by
    decide +kernel
  obtain ⟨_, s, hs, hcaps⟩ := exists_of_endsIn htest
  obtain ⟨mem, m, info, hmem, h, hfirst⟩ := startThread_ok hs
  simp only [Bool.and_eq_true, beq_iff_eq] at hcaps hfirst
  have hused : s.InUse demoCNode 8 := ⟨by decide, Option.isSome_iff_ne_none.1 hcaps.2⟩
  refine ⟨mem, m, info, s, hmem, h, hfirst, hcaps.1, hused, fun hok => ?_⟩
  have := hok.firstEmpty 8 hused
  omega

end Zoeax
