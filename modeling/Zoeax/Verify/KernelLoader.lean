import Zoeax.Verify.KernelMap
import Zoeax.Verify.Segments

/-!
# The kernel's loader (`RootServerElfMapper`)

The loader of the root server writes the page tables and the frames itself. Each page of a segment
is a new frame, the tables that are missing, an entry, and the bytes of the file
(`Loaded.mapProgramPage`); so the pages of the program are what `loadAll` says (`Loaded.mapSelf`).

There is no check that a segment ends in the user half. The first page behind it is that of the
kernel's direct map, where a walk ends in memory without tables (`Ceiling`): such a program does not
load.
-/

namespace Zoeax

open Lib Exec
open PageTable (entry)

variable {cfg : Config} {s s' : KState} {root : Nat} {done : Pages}

/-! ## The end of the user half -/

/-- The word is that of an entry for large pages of the direct map: a walk goes on to the frame as
if it was a table, and there is none. -/
structure Ceiling (cfg : Config) (w : UInt64) : Prop where
  valid : Pte.isValid w = true
  outside : Pte.target w < cfg.freeRam ∨ cfg.freeRamEnd ≤ Pte.target w
  not_static : cfg.isStaticTable (Pte.target w) = false

theorem HeapWF.not_isFrame (hwf : HeapWF cfg s) {a : Nat}
    (ha : a < cfg.freeRam ∨ cfg.freeRamEnd ≤ a) : s.isFrame a = false := by
  by_contra hframe
  obtain ⟨o, ho, hf⟩ := List.any_eq_true.1 (Bool.not_eq_false _ ▸ hframe)
  simp only [Object.hasFrame, Bool.and_eq_true, Bool.or_eq_true, decide_eq_true_eq] at hf
  obtain ⟨⟨hk, hle⟩, hlt⟩ := hf
  have := hwf.frame_bounds ho hk
  omega

theorem Ceiling.direct (hram : 0 < cfg.freeRam) (hstatic : cfg.isStaticTable 0 = false) :
    Ceiling cfg (Pte.write 0 (vmFlag true)) := by
  have htarget : Pte.target (Pte.write 0 (vmFlag true)) = 0 := by decide
  exact ⟨by decide, .inl (htarget ▸ hram), htarget ▸ hstatic⟩

/-- No walk for the first page behind the user half returns. -/
theorem Ceiling.walk_ne {w : UInt64} (hw : Ceiling cfg w) (hwf : HeapWF cfg s)
    (hword : s.mem (entry root 256) = w) {v : Nat} (hv : v / 2 ^ 12 = 2 ^ 35) (r : Nat × Nat) :
    PageTable.walk cfg root v s ≠ .ok r := by
  intro h
  have hvpn : getVpn v 3 = 256 := by
    rw [getVpn_eq]
    omega
  have hvpn' : getVpn v 2 = 0 := by
    rw [getVpn_eq]
    omega
  simp only [PageTable.walk, PageTable.walkFrom, Query.bind_ok, hvpn] at h
  obtain ⟨pte, hread, h⟩ := h
  obtain rfl : pte = w := (readPte_ok hread).trans hword
  rw [if_pos hw.valid] at h
  simp only [Query.bind_ok, hvpn'] at h
  obtain ⟨pte', hread', -⟩ := h
  change readPte cfg (Pte.target pte) s = _ at hread'
  simp only [readPte, Query.bind_ok, Query.read_ok, exists_eq_left', hwf.not_isFrame hw.outside,
    hw.not_static, Bool.or_false, Bool.false_eq_true, if_false] at hread'
  exact Query.throw_ok.1 hread'

/-- So none of its page tables can be made there. -/
theorem Ceiling.linkRule {w : UInt64} (hw : Ceiling cfg w) {v : Nat} (hv : v / 2 ^ 12 = 2 ^ 35) :
    LinkRule cfg root v fun s => HeapWF cfg s ∧ s.mem (entry root 256) = w := by
  rintro s o p cap level a ho hk - - - - hwalk ⟨hwf, hword⟩
  have hc := Creates.withCap ho (.inr hk) p cap
  exact absurd hwalk (hw.walk_ne (hc.wf hwf) hword hv _)

/-- And the walk does not return after `map_page_tables` either. -/
theorem Ceiling.walk_ne_of_tables {w : UInt64} (hw : Ceiling cfg w) (hwf : HeapWF cfg s)
    (hword : s.mem (entry root 256) = w) {v : Nat} (hv : v / 2 ^ 12 = 2 ^ 35)
    {cnodeCap rootTableCap : CapabilityData} (hroot : rootTableCap.getFrame = root)
    {m : ResourceManager} {n : Nat}
    (htables : s' = s ∨ ∃ m', mapPageTables cfg cnodeCap rootTableCap v n m s = .ok m' s')
    (r : Nat × Nat) : PageTable.walk cfg root v s' ≠ .ok r := by
  have hs' : HeapWF cfg s' ∧ s'.mem (entry root 256) = w := by
    rcases htables with rfl | ⟨m', htables⟩
    · exact ⟨hwf, hword⟩
    · exact (hw.linkRule hv).mapPageTables hroot ⟨hwf, hword⟩ htables
  exact hw.walk_ne hs'.1 hs'.2 hv r

/-! ## A page -/

namespace UserSpace

/-- Entries for user addresses are not in the upper half of the root. -/
theorem entry_ne_upper (h : UserSpace s root) {v l t : Nat} (hv : v < 2 ^ 47)
    (hr : Radix.Reach sv48 s.mem 3 root v l t) : entry root 256 ≠ entry t (getVpn v l) := by
  intro heq
  have ht : t % 4096 = 0 := hr.isTable (F := sv48) h.tree.isTable
  obtain ⟨rfl, hvpn⟩ := entry_inj h.tree.isTable ht (by decide) (getVpn_lt ..) heq
  obtain rfl : l = 3 := (h.tree.once hv hv hr .root).1
  rw [getVpn_eq] at hvpn
  omega

end UserSpace

namespace Loaded

variable {w : UInt64} {f : Nat}

/-- A round of `map_page_tables` below the ceiling. -/
theorem linkRule {v : Nat} (hv : v < 2 ^ 47) : LinkRule cfg root v fun s =>
    Loaded cfg s root done ∧ Blank s root f ∧ s.mem (entry root 256) = w := by
  rintro s o p cap level a ho hk - hl - - hwalk ⟨h, hf, hword⟩
  have hc := Creates.withCap ho (.inr hk) p cap
  have h₁ := h.create hc
  obtain ⟨hspare, htable⟩ := h.space.spare h.wf h.zero hc hk
  obtain ⟨t, hend, rfl⟩ := (h₁.space.addressSpace h₁.wf).end_of_walk hv hwalk
  obtain ⟨l, rfl⟩ := Nat.exists_eq_succ_of_ne_zero hl
  refine ⟨h₁.link hv hend hspare htable,
    (h.blank_create hc hf).link h₁.wf h₁.space hv hend hspare, ?_⟩
  exact (KState.mem_setWord_of_ne _ (h₁.space.entry_ne_upper hv hend.reach) _).trans hword

/-- A blank page is mapped, its capability goes into a slot, and it is filled. -/
theorem place (h : Loaded cfg s root done) (hf : Blank s root f) {v t flags n : Nat}
    (hv : v < 2 ^ 47) (hend : Radix.End sv48 s.mem 3 root v 0 t) (hflags : flags < 2 ^ 10) (p : Nat)
    (e : Option CNodeEntry) (src : Nat → UInt8) (hn : n ≤ pageSize) :
    Loaded cfg (((s.setWord (entry t (getVpn v 0)) (Pte.write f (flags ||| pageV))).setSlot p
      e).copyBytes f src n) root (Function.update done (v / 2 ^ 12)
        (some ⟨flags ||| pageV, fun i => if i < n then src i else 0⟩)) := by
  have hmap := h.setPage hf hv hend hflags
  have hslot :
      Loaded cfg ((s.setWord (entry t (getVpn v 0)) (Pte.write f (flags ||| pageV))).setSlot
      p e) root _ := hmap.congr (hmap.wf.of_eq rfl rfl) rfl rfl
  have hleaf := h.space.leaf?_setLeaf hv hend (Pte.isValid_write_or f flags) hv
  rw [if_pos rfl] at hleaf
  have hfill := hslot.fill hv hleaf (Function.update_self ..) src hn
  rw [Function.update_idem,
    h.wf.target_page hf.live (Nat.or_lt_two_pow hflags (by decide))] at hfill
  exact hfill

/-- **A page of a segment**, in the user half: the frame, its entry and its bytes. -/
theorem mapProgramPage (h : Loaded cfg s root done) (hword : s.mem (entry root 256) = w)
    {cnodeCap rootTableCap : CapabilityData} (hroot : rootTableCap.getFrame = root) {hdr : Phdr}
    {em em' : ElfMapper} {i : Nat} (hle : hdr.vaddr / 2 ^ 12 + i ≤ 2 ^ 35)
    (hw : Ceiling cfg w ∨ hdr.vaddr / 2 ^ 12 + i < 2 ^ 35)
    (hrun : mapProgramPage cfg cnodeCap rootTableCap hdr em i s = .ok em' s') :
    hdr.vaddr + pageSize * i < 2 ^ 47 ∧ Loaded cfg s' root
      (Function.update done ((hdr.vaddr + pageSize * i) / 2 ^ 12) (some (hdr.page i))) ∧
      s'.mem (entry root 256) = w := by
  simp only [Zoeax.mapProgramPage, bind_ok, liftExcept_ok, arith_ok, modify_ok, pure_ok] at hrun
  obtain ⟨vaddr, _, ⟨hvaddr, rfl⟩, ⟨addr, m₁⟩, _, ⟨-, rfl⟩, ⟨cap, m₂⟩, s₁, hpage, ⟨idx, m₃⟩, _,
    ⟨-, rfl⟩, _, s₂, hwrite, _, _, rfl, -, rfl⟩ := hrun
  have hpageNo : (hdr.vaddr + pageSize * i) / 2 ^ 12 = hdr.vaddr / 2 ^ 12 + i := by
    rw [pageSize]
    omega
  obtain rfl : hdr.vaddr + pageSize * i = vaddr := by
    rw [Profile.add, Profile.wrap_of_lt _ (by omega)] at hvaddr
    exact Option.some.inj hvaddr
  obtain ⟨o, c, s₃, a, hk, -, hfresh, hfor, -, rfl, htables, hwalk, hfree, rfl⟩ :=
    createMappedPageCap_ok hpage
  obtain ⟨p, -, -, -, rfl⟩ := writeSlot_ok (unwrap_ok.1 hwrite)
  rw [hroot] at hwalk
  have hc := Creates.alone hfresh (.inl hk)
  have hv : hdr.vaddr + pageSize * i < 2 ^ 47 := by
    by_contra hge
    have heq : (hdr.vaddr + pageSize * i) / 2 ^ 12 = 2 ^ 35 := by omega
    have hw : Ceiling cfg w := hw.resolve_right (by omega)
    exact hw.walk_ne_of_tables (hc.wf h.wf) hword heq hroot htables _ hwalk
  -- the state before the entry is written
  obtain ⟨h₃, hf₃, hword₃⟩ :
      Loaded cfg s₃ root done ∧ Blank s₃ root o.addr ∧ s₃.mem (entry root 256) = w := by
    have hs := And.intro (h.create hc) (And.intro (h.blank hc hk) hword)
    rcases htables with rfl | ⟨m, htables⟩
    · exact hs
    · exact (linkRule hv).mapPageTables hroot hs htables
  obtain ⟨t, hend, rfl⟩ := (h₃.space.addressSpace h₃.wf).end_of_walk hv hwalk
  have hframe : c.getFrame = o.addr := hfor.getFrame hfresh.admissible
  have hframe' : (c.setMapped (hdr.vaddr + pageSize * i)).getFrame = o.addr := hframe
  rw [hframe, hframe']
  refine ⟨hv, h₃.place hf₃ hv hend hdr.flags_lt p _ _ (min_le_left ..), ?_⟩
  have hwf₄ : HeapWF cfg ((s₃.setWord (entry t (getVpn (hdr.vaddr + pageSize * i) 0))
      (Pte.write o.addr (hdr.flags ||| pageV))).setSlot p
        (some (.newWithRawcap (c.setMapped (hdr.vaddr + pageSize * i))))) := h₃.wf.of_eq rfl rfl
  rw [hwf₄.mem_copyBytes hf₃.live (h₃.space.tables hv .root) _ (min_le_left ..) (by decide),
    ← hword₃]
  exact KState.mem_setWord_of_ne _ (h₃.space.entry_ne_upper hv hend.reach) _

/-! ## Segments -/

section Segments

variable {cnodeCap rootTableCap : CapabilityData} (hroot : rootTableCap.getFrame = root)

include hroot

theorem mapPages {hdr : Phdr} {n i : Nat} {em em' : ElfMapper} (h : Loaded cfg s root done)
    (hword : s.mem (entry root 256) = w) (hle : hdr.vaddr / 2 ^ 12 + i ≤ 2 ^ 35)
    (hw : Ceiling cfg w ∨ hdr.vaddr / 2 ^ 12 + (i + n) ≤ 2 ^ 35)
    (hrun : mapPages cfg cnodeCap rootTableCap hdr n i em s = .ok em' s') :
    hdr.vaddr / 2 ^ 12 + (i + n) ≤ 2 ^ 35 ∧
      Loaded cfg s' root (hdr.loadPages n i done) ∧ s'.mem (entry root 256) = w := by
  induction n generalizing i em s done with
  | zero =>
    obtain ⟨-, rfl⟩ := pure_ok.1 hrun
    exact ⟨hle, h, hword⟩
  | succ n ih =>
    obtain ⟨em₁, s₁, hpage, hrun⟩ := bind_ok.1 hrun
    obtain ⟨hlt, h₁, hword₁⟩ := h.mapProgramPage hword hroot hle (hw.imp_right (by omega)) hpage
    have hnext : hdr.vaddr / 2 ^ 12 + (i + 1) ≤ 2 ^ 35 := by
      rw [pageSize] at hlt
      omega
    have := ih h₁ hword₁ hnext (hw.imp_right (by omega)) hrun
    rwa [Nat.add_right_comm] at this

/-- A segment. -/
theorem mapProgram {hdr : Phdr} (hlt : hdr.memsz < 2 ^ 64)
    (huser : hdr.load = true → hdr.vaddr < 2 ^ 47)
    (hw : Ceiling cfg w ∨ (hdr.load = true → hdr.vaddr / 2 ^ 12 + hdr.pageNum ≤ 2 ^ 35))
    {em em' : ElfMapper} (h : Loaded cfg s root done) (hword : s.mem (entry root 256) = w)
    (hrun : mapProgram cfg cnodeCap rootTableCap hdr em s = .ok em' s') :
    (hdr.load = true → hdr.vaddr / 2 ^ 12 + hdr.pageNum ≤ 2 ^ 35) ∧
      Loaded cfg s' root (hdr.loadInto done) ∧ s'.mem (entry root 256) = w := by
  unfold Zoeax.mapProgram at hrun
  cases hload : hdr.load with
  | false =>
    rw [hload] at hrun
    obtain ⟨-, rfl⟩ := pure_ok.1 hrun
    rw [Phdr.loadInto, hload]
    exact ⟨fun htrue => absurd htrue Bool.false_ne_true, h, hword⟩
  | true =>
    rw [hload] at hrun
    simp only [if_true, bind_ok, liftExcept_ok, arith_ok] at hrun
    obtain ⟨bytes, _, ⟨hbytes, rfl⟩, hrun⟩ := hrun
    rw [Phdr.pageNum_of_alignUp hlt hbytes] at hrun
    have hstart := huser hload
    have hw' : Ceiling cfg w ∨ hdr.vaddr / 2 ^ 12 + (0 + hdr.pageNum) ≤ 2 ^ 35 := by
      rw [Nat.zero_add]
      exact hw.imp_right fun hend => hend hload
    obtain ⟨hend, hloaded⟩ := mapPages hroot h hword (by omega) hw' hrun
    rw [Nat.zero_add] at hend
    rw [Phdr.loadInto, hload, if_pos rfl]
    exact ⟨fun _ => hend, hloaded⟩

/-- **The kernel's loader**: a program that loads lies in the user half, and its pages are those
that `loadAll` gives. -/
theorem mapSelf {hs : List Phdr} (huser : ∀ h ∈ hs, h.load = true → h.vaddr < 2 ^ 47)
    (hlt : ∀ h ∈ hs, h.memsz < 2 ^ 64)
    (hw : Ceiling cfg w ∨ ∀ h ∈ hs, h.load = true → h.vaddr / 2 ^ 12 + h.pageNum ≤ 2 ^ 35)
    {em em' : ElfMapper} (h : Loaded cfg s root done) (hword : s.mem (entry root 256) = w)
    (hrun : mapSelf cfg cnodeCap rootTableCap hs em s = .ok em' s') :
    (∀ h ∈ hs, h.load = true → h.vaddr / 2 ^ 12 + h.pageNum ≤ 2 ^ 35) ∧
      Loaded cfg s' root (loadAll hs done) := by
  induction hs generalizing em s done with
  | nil =>
    obtain ⟨-, rfl⟩ := pure_ok.1 hrun
    exact ⟨nofun, h⟩
  | cons hdr hs ih =>
    obtain ⟨em₁, s₁, hprog, hrun⟩ := bind_ok.1 hrun
    have hmem : hdr ∈ hdr :: hs := List.mem_cons_self ..
    obtain ⟨hend, h₁, hword₁⟩ := mapProgram hroot (hlt hdr hmem) (huser hdr hmem)
      (hw.imp_right fun hall => hall hdr hmem) h hword hprog
    obtain ⟨hends, h'⟩ := ih (fun g hg => huser g (List.mem_cons_of_mem _ hg))
      (fun g hg => hlt g (List.mem_cons_of_mem _ hg))
      (hw.imp_right fun hall g hg => hall g (List.mem_cons_of_mem _ hg)) h₁ hword₁ hrun
    refine ⟨fun g hg hload => ?_, h'⟩
    rcases List.mem_cons.1 hg with rfl | hg
    · exact hend hload
    · exact hends g hg hload

end Segments

/-- **The root server as the kernel loads it**: its program lies in the user half, and its pages are
those that `loadAll` gives. -/
theorem createAddressSpace {image : Image}
    (hboard : 0 < cfg.freeRam ∧ cfg.isStaticTable 0 = false ∨
      ∀ h ∈ image.phdrs, h.load = true → h.vaddr / 2 ^ 12 + h.pageNum ≤ 2 ^ 35)
    (huser : ∀ h ∈ image.phdrs, h.load = true → h.vaddr < 2 ^ 47)
    (hlt : ∀ h ∈ image.phdrs, h.memsz < 2 ^ 64) {vspace : Nat} {cnodeCap cap : CapabilityData}
    {m : ResourceManager} {em : ElfMapper} (hs : Paged cfg s ∧ FreeZero cfg s)
    (hrun : createAddressSpace cfg vspace cnodeCap image m s = .ok (cap, em) s') :
    (∀ h ∈ image.phdrs, h.load = true → h.vaddr / 2 ^ 12 + h.pageNum ≤ 2 ^ 35) ∧
      Loaded cfg s' cap.getFrame (loadAll image.phdrs fun _ => none) := by
  obtain ⟨o, c, p, hfresh, hk, hfor, rfl, -, -, rfl, hframe, hself⟩ := createAddressSpace_ok hrun
  obtain ⟨hwf, lvl, hp⟩ := hs.1.born hfresh
  have htable : (s.born o).IsTable o.addr :=
    KState.isTable_iff.2 ⟨o, objects_born s o ▸ List.mem_cons_self .., hk, rfl⟩
  have hload := of_madeRoot hwf (hs.2.born o) htable fun i hi => hp.root_lower hi
  have hend : 0 < cfg.freeRamEnd := by
    have := hwf.table_bounds htable
    omega
  have hslot : ∀ e, Loaded cfg (((s.born o).madeRoot cfg o.addr).setSlot p e) o.addr _ := fun _ =>
    hload.congr (hload.wf.of_eq rfl rfl) rfl rfl
  rw [hframe]
  refine mapSelf hframe huser hlt (hboard.imp_left fun hceil => .direct hceil.1 hceil.2)
    (hslot _) ?_ hself
  refine (KState.pte_madeRoot_self (by decide)).trans ?_
  rw [hp.static_pte (by decide)]
  exact kernelVmWords_direct _ (k := 0) hend

end Loaded

end Zoeax
