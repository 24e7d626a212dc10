import Zoeax.Verify.ProgramLoader
import Zoeax.Verify.Sharing

/-!
# Page tables on demand

`Page::map` needs the tables of all levels above the page. If one is missing it answers with the
level at which the walk stops, and both loaders call `map_page_tables`: make a table, map it, and go
on until `PageTable::map` reports level 0.

A new table at the end of the walk is empty, so the next walk stops one level further down
(`FreeAt.link`). From level `L` on the loop takes `L` rounds (`Installs`), and then the entry for
the page is free.
-/

namespace Zoeax

open Lib Exec CapabilityData
open PageTable (entry)

variable {cfg : Config} {s s' : KState} {root v l : Nat}

/-! ## The end of a walk -/

/-- The tables that user addresses reach from `root` are objects and form a tree. -/
structure TableTree (s : KState) (root : Nat) : Prop where
  tree : Radix.Unshared sv48 {v | v < 2 ^ 47} s.mem 3 root
  tables : ∀ {v j t}, v < 2 ^ 47 → Radix.Reach sv48 s.mem 3 root v j t → s.IsTable t

/-- The walk of `v` stops at level `l`, at an entry that is not in use. -/
structure FreeAt (cfg : Config) (s : KState) (root v l : Nat) : Prop where
  wf : HeapWF cfg s
  user : v < 2 ^ 47
  space : TableTree s root
  free : ∃ t, Radix.End sv48 s.mem 3 root v l t ∧ Pte.isValid (s.mem (entry t (getVpn v l))) = false

theorem TableTree.live (h : TableTree s root) (hwf : HeapWF cfg s) (hv : v < 2 ^ 47) :
    ∀ {j t}, Radix.Reach sv48 s.mem 3 root v j t → s.LiveTable cfg t :=
  fun hr => hwf.liveTable (h.tables hv hr)

/-- The tree does not depend on the memory outside its tables. -/
theorem TableTree.of_mem (h : TableTree s root) (hobj : ∀ o ∈ s.objects, o ∈ s'.objects)
    (hmem : ∀ {v j t}, v < 2 ^ 47 → Radix.Reach sv48 s.mem 3 root v j t →
      ∀ i < 512, s'.mem (entry t i) = s.mem (entry t i)) : TableTree s' root := by
  have hagree : ∀ {v j t}, v ∈ {v | v < 2 ^ 47} → Radix.Reach sv48 s.mem 3 root v j t →
      s'.mem (sv48.slot t (sv48.digit j v)) = s.mem (sv48.slot t (sv48.digit j v)) :=
    fun hv hr => hmem hv hr _ (getVpn_lt ..)
  refine ⟨h.tree.congr_mem hagree, fun hv hr => ?_⟩
  obtain ⟨o, ho, hk⟩ := KState.isTable_iff.1
    (h.tables hv ((Radix.reach_congr_mem hagree hv).1 hr))
  exact KState.isTable_iff.2 ⟨o, hobj o ho, hk⟩

namespace FreeAt

/-- `Page::map` misses a table. -/
theorem of_pageMap {page flags : Nat} (hwf : HeapWF cfg s) (hspace : TableTree s root)
    (hv : v < 2 ^ 47)
    (h : Page.map cfg page root v flags s = .error (kerr .pageTableNotMappedYet l) s') :
    s' = s ∧ FreeAt cfg s root v l ∧ l ≠ 0 := by
  obtain ⟨l', t, hend⟩ := Radix.exists_end sv48 s.mem 3 root v
  rw [pageMap_of_live (hspace.live hwf hv) hend] at h
  split at h
  · next hl =>
    cases h
    exact ⟨rfl, ⟨hwf, hv, hspace, t, hend, sv48_next_eq_none.1 (hend.stop hl)⟩, hl⟩
  · split at h
    · cases h
    · cases h

/-- At the last level, `Page::map` succeeds. -/
theorem pageMap (h : FreeAt cfg s root v 0) (page flags : Nat) :
    ∃ s', Page.map cfg page root v flags s = .ok () s' := by
  obtain ⟨t, hend, hfree⟩ := h.free
  rw [pageMap_of_live (h.space.live h.wf h.user) hend, if_neg (absurd rfl), hfree]
  exact ⟨_, rfl⟩

theorem of_mem (h : FreeAt cfg s root v l) (hwf : HeapWF cfg s')
    (hobj : ∀ o ∈ s.objects, o ∈ s'.objects)
    (hmem : ∀ {v j t}, v < 2 ^ 47 → Radix.Reach sv48 s.mem 3 root v j t →
      ∀ i < 512, s'.mem (entry t i) = s.mem (entry t i)) : FreeAt cfg s' root v l := by
  obtain ⟨t, hend, hfree⟩ := h.free
  have hword := hmem h.user hend.reach _ (getVpn_lt v l)
  have hreach : Radix.Reach sv48 s'.mem 3 root v l t :=
    (Radix.reach_congr_mem (S := {v | v < 2 ^ 47})
      (fun hv hr => hmem hv hr _ (getVpn_lt ..)) h.user).2 hend.reach
  refine ⟨hwf, h.user, h.space.of_mem hobj hmem, t, ⟨hreach, fun hl => ?_⟩, hword ▸ hfree⟩
  exact (congrArg sv48.next hword).trans (hend.stop hl)

/-- Capabilities and threads do not matter. -/
theorem congr (h : FreeAt cfg s root v l) (hwf : HeapWF cfg s') (hmem : s'.mem = s.mem)
    (hobj : s'.objects = s.objects) : FreeAt cfg s' root v l :=
  h.of_mem hwf (fun _ ho => hobj ▸ ho) fun _ _ _ _ => congrFun hmem _

theorem create (h : FreeAt cfg s root v l) {o : Object} (hc : Creates cfg s s' o) :
    FreeAt cfg s' root v l :=
  h.of_mem (hc.wf h.wf) hc.mono fun hv hr _ hi => hc.mem_table h.wf (h.space.tables hv hr) hi

/-- **One round**: a new table is linked where the walk stops, and the walk stops one level further
down. -/
theorem link (h : FreeAt cfg s root v (l + 1)) {o : Object} (hk : o.kind = .pageTable)
    (hlive : o ∈ s.objects) (hzero : ∀ i < 512, s.mem (entry o.addr i) = 0)
    (hnew : ∀ {v j}, v < 2 ^ 47 → ¬Radix.Reach sv48 s.mem 3 root v j o.addr) :
    ∃ s', PageTable.map cfg o.addr root v s = .ok l s' ∧ FreeAt cfg s' root v l ∧
      ∃ t, s.IsTable t ∧ s' = s.setWord (entry t (getVpn v (l + 1))) (Pte.write o.addr pageV) := by
  have htable : s.IsTable o.addr := KState.isTable_iff.2 ⟨o, hlive, hk, rfl⟩
  obtain ⟨t, hend, -⟩ := h.free
  have hspare : SpareTable cfg s root (2 ^ 47) o.addr :=
    ⟨⟨(h.wf.table_bounds htable).1, fun j k => hzero _ (getVpn_lt ..), hnew⟩, h.wf.liveTable htable,
      h.wf.table_lt htable⟩
  have hnext := hspare.next_write
  refine ⟨_, (tableMap_of_live (h.space.live h.wf h.user) hend o.addr).trans
    (if_neg (Nat.succ_ne_zero l)), ⟨h.wf.of_eq rfl rfl, h.user, ⟨?_, fun hu hr => ?_⟩, o.addr,
      ?_, ?_⟩,
    t, h.space.tables h.user hend.reach, rfl⟩
  · exact h.space.tree.link h.user hend hspare.spare hnext
  · rcases h.space.tree.reach_of_link h.user hend hspare.spare hnext hu hr with hold | ⟨-, rfl, -⟩
    · exact h.space.tables hu hold
    · exact htable
  · exact h.space.tree.end_link h.user hend hspare.spare hnext h.user fun _ _ _ => rfl
  · have hne : entry o.addr (getVpn v l) ≠ entry t (getVpn v (l + 1)) :=
      h.space.tree.slot_spare_ne h.user hend hspare.spare l v
    rw [KState.mem_setWord_of_ne s hne, hzero _ (getVpn_lt ..)]
    rfl

end FreeAt

/-- A table that has just been made is in no tree yet. -/
theorem Creates.unreached {o : Object} (hc : Creates cfg s s' o) (h : FreeAt cfg s root v l)
    {u j : Nat} (hu : u < 2 ^ 47) : ¬Radix.Reach sv48 s'.mem 3 root u j o.addr := fun hr => by
  have hr' : Radix.Reach sv48 s.mem 3 root u j o.addr :=
    (Radix.reach_congr_mem (S := {v | v < 2 ^ 47})
      (fun hv hr => hc.mem_table h.wf (h.space.tables hv hr) (getVpn_lt ..)) hu).1 hr
  exact hc.not_isObject h.wf (.inr rfl) (h.space.tables hu hr')

/-! ## Rounds -/

/-- `l` rounds, each of which maps a table; the levels that `PageTable::map` reports count down to
zero. -/
inductive Installs {M : Type} (round : M → KState → Nat → M → KState → Prop) :
    Nat → M → KState → M → KState → Prop
  | done (m : M) (s : KState) : Installs round 0 m s m s
  | step {l : Nat} {m m₁ m' : M} {s s₁ s' : KState} : round m s l m₁ s₁ →
      Installs round l m₁ s₁ m' s' → Installs round (l + 1) m s m' s'

/-! ## The kernel's loop -/

section Kernel

variable {cnodeCap rootTableCap : CapabilityData} {m m' : ResourceManager}

/-- A round of `map_page_tables`: what is left, and the level that `PageTable::map` reports. -/
def tableRound (cfg : Config) (cnodeCap rootTableCap : CapabilityData) (vaddr : Nat)
    (m : ResourceManager) : KM (ResourceManager × Nat) := do
  let (addr, m) ← m.allocPage
  bootObject cfg .pageTable addr 0
  let cap ← CapabilityData.init .pageTable (toKernelV addr) 0
  let (idx, m) ← m.allocCnodeIdx
  unwrap (cnodeCap.writeSlot cfg cap idx)
  let (_, level) ← unwrap (PageTableCap.map cfg cap rootTableCap vaddr)
  return (m, level)

theorem mapPageTables_succ (n : Nat) (m : ResourceManager) :
    mapPageTables cfg cnodeCap rootTableCap v (n + 1) m = (do
      let (m, level) ← tableRound cfg cnodeCap rootTableCap v m
      if level = 0 then return m else mapPageTables cfg cnodeCap rootTableCap v n m) := by
  simp only [mapPageTables, tableRound, bind_assoc, pure_bind]

/-- The rounds are those of the loop. -/
theorem mapPageTables_of_installs (h : Installs
      (fun m s l m₁ s₁ => tableRound cfg cnodeCap rootTableCap v m s = .ok (m₁, l) s₁)
      (l + 1) m s m' s') {n : Nat} (hn : l + 1 ≤ n) :
    mapPageTables cfg cnodeCap rootTableCap v n m s = .ok m' s' := by
  induction n generalizing l m s with
  | zero => omega
  | succ n ih =>
    cases h with
    | step hround hrest =>
      rw [mapPageTables_succ, bind_of_ok hround]
      cases l with
      | zero =>
        cases hrest
        rfl
      | succ l =>
        dsimp only
        rw [if_neg (Nat.succ_ne_zero l)]
        exact ih hrest (by omega)

/-- The slot with the index is empty. -/
structure FreeSlot (cfg : Config) (s : KState) (c : CapabilityData) (index : Nat) : Prop where
  capacity : ∃ n, c.capacity cfg = .ok n ∧ index < n ∧ checkSlice cfg n = .ok ()
  slot : s.isSlot (toKernelV c.getAddress + CapabilityType.entrySize * index) = true
  empty : s.slots (toKernelV c.getAddress + CapabilityType.entrySize * index) = none

theorem FreeSlot.writeSlot {c : CapabilityData} {index : Nat} (h : FreeSlot cfg s c index)
    (cap : CapabilityData) : c.writeSlot cfg cap index s =
      .ok () (s.setSlot (toKernelV c.getAddress + CapabilityType.entrySize * index)
        (some (.newWithRawcap cap))) := by
  obtain ⟨n, hn, hlt, hslice⟩ := h.capacity
  simp only [CapabilityData.writeSlot, bind_ok, lift_ok, liftExcept_ok, readSlot_ok, modify_ok,
    require_ok]
  exact ⟨n, s, ⟨hn, rfl⟩, (), s, ⟨decide_eq_true hlt, rfl⟩, (), s, ⟨hslice, rfl⟩, none, s,
    ⟨⟨h.slot, h.empty⟩, rfl⟩, (), s, ⟨rfl, rfl⟩, rfl⟩

/-- `n` frames, fresh and all zero, and `n` empty slots are left. -/
structure Stock (cfg : Config) (s : KState) (cnodeCap : CapabilityData) (m : ResourceManager)
    (n : Nat) : Prop where
  frames : m.startAddr + pageSize * n ≤ m.endAddr
  fresh : ∀ i < n, Object.Fresh cfg s ⟨.pageTable, m.startAddr + pageSize * i, 0, pageSize⟩
  zero : ∀ i < n, ∀ j < 512, s.mem (entry (m.startAddr + pageSize * i) j) = 0
  indices : m.cnodeStartIdx + n ≤ m.cnodeIdxMax + 1
  slots : ∀ i < n, FreeSlot cfg s cnodeCap (m.cnodeStartIdx + i)

/-- What is left after a round. -/
def ResourceManager.afterRound (m : ResourceManager) : ResourceManager :=
  { m with startAddr := m.startAddr + pageSize, cnodeStartIdx := m.cnodeStartIdx + 1 }

namespace Stock

variable {n : Nat}

theorem allocPage (h : Stock cfg s cnodeCap m (n + 1)) :
    m.allocPage = .ok (m.startAddr, { m with startAddr := m.startAddr + pageSize }) := by
  have hframes := h.frames
  rw [Nat.mul_succ] at hframes
  have hle : m.startAddr + pageSize ≤ m.endAddr := by omega
  simp only [ResourceManager.allocPage, ResourceManager.allocatePages, except_bind_ok, require_ok,
    Nat.mul_one]
  exact ⟨(), decide_eq_true hle, rfl⟩

theorem allocCnodeIdx (h : Stock cfg s cnodeCap m (n + 1)) (a : Nat) :
    { m with startAddr := a }.allocCnodeIdx =
      .ok (m.cnodeStartIdx, { m with startAddr := a, cnodeStartIdx := m.cnodeStartIdx + 1 }) := by
  have hindices := h.indices
  have hle : m.cnodeStartIdx ≤ m.cnodeIdxMax := by omega
  simp only [ResourceManager.allocCnodeIdx, except_bind_ok, require_ok]
  exact ⟨(), decide_eq_true hle, rfl⟩

/-- The first frame becomes a table, with its capability in the first slot, and a word in a table is
written. -/
theorem afterRound (h : Stock cfg s cnodeCap m (n + 1)) (hwf' : HeapWF cfg s') {o : Object}
    (ho : o = ⟨.pageTable, m.startAddr, 0, pageSize⟩) {cap : CapabilityData} {p t i : Nat}
    (hp : p = toKernelV cnodeCap.getAddress + CapabilityType.entrySize * m.cnodeStartIdx)
    (hs' : s' = { s with objects := o :: s.objects }.setSlot p (some (.newWithRawcap cap)))
    (ht : s'.IsTable t) (hi : i < 512) (w : UInt64) :
    Stock cfg (s'.setWord (entry t i) w) cnodeCap m.afterRound n := by
  have hnext : ∀ j, m.afterRound.startAddr + pageSize * j = m.startAddr + pageSize * (j + 1) := by
    intro j
    change m.startAddr + pageSize + pageSize * j = _
    rw [Nat.mul_succ]
    omega
  have hfresh : ∀ j < n, Object.Fresh cfg s'
      ⟨.pageTable, m.afterRound.startAddr + pageSize * j, 0, pageSize⟩ := by
    intro j hj
    have hold := h.fresh (j + 1) (by omega)
    rw [hnext]
    refine ⟨hold.admissible, fun o' ho' => ?_, hold.size⟩
    rw [hs'] at ho'
    rcases List.mem_cons.1 ho' with rfl | ho'
    · simp only [ho, Object.overlaps, pageSize, Bool.and_eq_false_iff, decide_eq_false_iff_not]
      omega
    · exact hold.apart o' ho'
  refine ⟨?_, fun j hj => ?_, fun j hj k hk => ?_, ?_, fun j hj => ?_⟩
  · rw [hnext]
    exact h.frames
  · exact ⟨(hfresh j hj).admissible, (hfresh j hj).apart, (hfresh j hj).size⟩
  · -- the table that is written is older than the frame
    obtain ⟨o', ho', hk', rfl⟩ := KState.isTable_iff.1 ht
    have hsize := (hwf'.frame_bounds ho' (.inr hk')).1
    have hapart := (hfresh j hj).apart o' ho'
    simp only [Object.overlaps, Bool.and_eq_false_iff, decide_eq_false_iff_not] at hapart
    rw [KState.mem_setWord_of_ne, hnext, hs']
    · exact h.zero (j + 1) (by omega) k hk
    · rw [entry, entry]
      rw [pageSize] at hapart ⊢
      omega
  · have := h.indices
    change m.cnodeStartIdx + 1 + n ≤ m.cnodeIdxMax + 1
    omega
  · have hold := h.slots (j + 1) (by omega)
    have hidx : m.afterRound.cnodeStartIdx + j = m.cnodeStartIdx + (j + 1) :=
      Nat.add_right_comm ..
    rw [hidx]
    refine ⟨hold.capacity, ?_, ?_⟩
    · rw [hs']
      exact isSlot_cons o hold.slot
    · rw [hs']
      refine (Function.update_of_ne ?_ ..).trans hold.empty
      rw [hp, CapabilityType.entrySize]
      omega

end Stock

/-- **A round of the kernel's loop.** -/
theorem FreeAt.tableRound {n : Nat} (h : FreeAt cfg s rootTableCap.getFrame v (l + 1))
    (hstock : Stock cfg s cnodeCap m (n + 1)) :
    ∃ s₁, Zoeax.tableRound cfg cnodeCap rootTableCap v m s = .ok (m.afterRound, l) s₁ ∧
      FreeAt cfg s₁ rootTableCap.getFrame v l ∧ Stock cfg s₁ cnodeCap m.afterRound n := by
  let o : Object := ⟨.pageTable, m.startAddr, 0, pageSize⟩
  let cap : CapabilityData := .new .pageTable (toPhys (toKernelV m.startAddr)) 0
  let p := toKernelV cnodeCap.getAddress + CapabilityType.entrySize * m.cnodeStartIdx
  let s₁ : KState := { s with objects := o :: s.objects }
  let s₂ : KState := s₁.setSlot p (some (.newWithRawcap cap))
  have hfresh : o.Fresh cfg s := by simpa using hstock.fresh 0 (by omega)
  have hc : Creates cfg s s₂ o := .withCap hfresh (.inr rfl) p cap
  have hzero : ∀ i < 512, s₂.mem (entry o.addr i) = 0 := hstock.zero 0 (by omega)
  have hframe : cap.getFrame = o.addr :=
    (init_fresh (k := .pageTable) (Object.lt_of_admissible hfresh.admissible).2.2.1 (by decide)
      rfl : cap.FreshFor o).getFrame hfresh.admissible
  have hslot : FreeSlot cfg s₁ cnodeCap m.cnodeStartIdx :=
    have hold := hstock.slots 0 (by omega)
    ⟨hold.capacity, isSlot_cons o hold.slot, hold.empty⟩
  obtain ⟨s₃, hmap, hfree, t, ht, hs₃⟩ := (h.create hc).link rfl (List.mem_cons_self ..) hzero
    (hc.unreached h)
  rw [← hframe] at hmap
  have hunmapped : cap.isMapped = false := Nat.zero_testBit 48
  refine ⟨s₃, ?_, hfree, ?_⟩
  · simp only [Zoeax.tableRound, bind_ok, liftExcept_ok, bootObject, createObject_ok, unwrap_ok,
      pure_ok, PageTableCap.map, require_ok]
    exact ⟨_, s, ⟨hstock.allocPage, rfl⟩, (), s₁,
      ⟨pageSize, s, ⟨hfresh.size, rfl⟩, hfresh.admissible, hfresh.apart, rfl⟩, cap, s₁, ⟨rfl, rfl⟩,
      _, s₁, ⟨hstock.allocCnodeIdx _, rfl⟩, (), s₂, hslot.writeSlot cap, (_, l), s₃,
      ⟨(), s₂, ⟨by rw [hunmapped]; rfl, rfl⟩, l, s₃, hmap, rfl, rfl⟩, rfl, rfl⟩
  · rw [hs₃]
    exact hstock.afterRound (hc.wf h.wf) rfl rfl rfl ht (getVpn_lt ..) _

/-- All rounds. -/
theorem FreeAt.installs (h : FreeAt cfg s rootTableCap.getFrame v l)
    (hstock : Stock cfg s cnodeCap m l) :
    ∃ m' s', Installs
        (fun m s l m₁ s₁ => Zoeax.tableRound cfg cnodeCap rootTableCap v m s = .ok (m₁, l) s₁)
        l m s m' s' ∧ FreeAt cfg s' rootTableCap.getFrame v 0 := by
  induction l generalizing m s with
  | zero => exact ⟨m, s, .done m s, h⟩
  | succ l ih =>
    obtain ⟨s₁, hround, h₁, hstock₁⟩ := h.tableRound hstock
    obtain ⟨m', s', hrest, h'⟩ := ih h₁ hstock₁
    exact ⟨m', s', .step hround hrest, h'⟩

/-- A page that is not marked as mapped is mapped, and then it is. -/
theorem pageCapMap_eq {c : CapabilityData} (hc : c.isMapped = false) (flags : Nat) :
    PageCap.map cfg c rootTableCap v flags = (do
      Page.map cfg c.getFrame rootTableCap.getFrame v flags
      return c.setMapped v) := by
  rw [PageCap.map, hc]
  rfl

/-- The page is not marked as mapped, so the error is that of `Page::map`. -/
theorem pageCapMap_missing {c : CapabilityData} {flags : Nat}
    (h : PageCap.map cfg c rootTableCap v flags s = .error (kerr .pageTableNotMappedYet l) s') :
    c.isMapped = false ∧ Page.map cfg c.getFrame rootTableCap.getFrame v flags s =
      .error (kerr .pageTableNotMappedYet l) s' := by
  cases hc : c.isMapped with
  | true =>
    rw [PageCap.map, hc] at h
    cases h
  | false =>
    rw [pageCapMap_eq hc] at h
    rcases bind_error.1 h with h | ⟨_, _, -, h⟩
    · exact ⟨rfl, h⟩
    · cases h

theorem FreeAt.pageCapMap (h : FreeAt cfg s rootTableCap.getFrame v 0) {c : CapabilityData}
    (hc : c.isMapped = false) (flags : Nat) :
    ∃ s', PageCap.map cfg c rootTableCap v flags s = .ok (c.setMapped v) s' := by
  obtain ⟨s', hmap⟩ := h.pageMap c.getFrame flags
  rw [pageCapMap_eq hc, bind_of_ok hmap]
  exact ⟨s', rfl⟩

/-- **The kernel's loop.** -/
theorem mapPageTables_of_missing {c : CapabilityData} {flags : Nat} (hwf : HeapWF cfg s)
    (hspace : TableTree s rootTableCap.getFrame) (hv : v < 2 ^ 47)
    (hmissing : PageCap.map cfg c rootTableCap v flags s =
      .error (kerr .pageTableNotMappedYet l) s') (hstock : Stock cfg s cnodeCap m l) :
    ∃ m' s₁ s₂, Installs
        (fun m s l m₁ s₁ => Zoeax.tableRound cfg cnodeCap rootTableCap v m s = .ok (m₁, l) s₁)
        l m s' m' s₁ ∧
      (∀ n ≥ l, mapPageTables cfg cnodeCap rootTableCap v n m s' = .ok m' s₁) ∧
      PageCap.map cfg c rootTableCap v flags s₁ = .ok (c.setMapped v) s₂ := by
  obtain ⟨hc, hpage⟩ := pageCapMap_missing hmissing
  obtain ⟨rfl, hfree, hl⟩ := FreeAt.of_pageMap hwf hspace hv hpage
  obtain ⟨m', s₁, hrounds, hfree'⟩ := hfree.installs hstock
  obtain ⟨s₂, hmap⟩ := hfree'.pageCapMap hc flags
  obtain ⟨l, rfl⟩ := Nat.exists_eq_succ_of_ne_zero hl
  exact ⟨m', s₁, s₂, hrounds, fun n hn => mapPageTables_of_installs hrounds hn, hmap⟩

end Kernel

/-! ## The root server's loop -/

namespace Client

variable {root c target : CapabilityData} {m m' : ElfProgramMapper} {p : Profile} {regs : Registers}
  {vaddr : UInt64}

namespace ElfProgramMapper

/-- The first half of a round of `map_page_tables`: a slot and a table. -/
def newTable (cfg : Config) (p : Profile) (regs : Registers) (self : ElfProgramMapper) :
    UM (PageTableCapability × ElfProgramMapper) := do
  let (tableSlot, cnode) ← self.cnode.takeSlot p
  let pageTableCap ← self.ut.retypeSingleWithFixedSize cfg p regs PageTable tableSlot
  return (pageTableCap, { self with cnode })

/-- A round of `map_page_tables`: the mapper afterwards, and what `map` returned. -/
def tableRound (cfg : Config) (p : Profile) (regs : Registers) (vaddr : UInt64)
    (self : ElfProgramMapper) : UM (ElfProgramMapper × Except SysCallFailed UInt64) := do
  let (pageTableCap, self) ← self.newTable cfg p regs
  let res ← attempt (PageTableCapability.map cfg regs pageTableCap self.targetRootVspace vaddr)
  return (self, res)

theorem tableRound_bind {β : Type} (m : ElfProgramMapper)
    (f : ElfProgramMapper × Except SysCallFailed UInt64 → UM β) :
    (m.tableRound cfg p regs vaddr >>= f) = (do
      let (tableSlot, cnode) ← m.cnode.takeSlot p
      let pageTableCap ← m.ut.retypeSingleWithFixedSize cfg p regs PageTable tableSlot
      let res ← attempt (PageTableCapability.map cfg regs pageTableCap m.targetRootVspace vaddr)
      f ({ m with cnode }, res)) := by
  simp only [tableRound, newTable, bind_assoc, pure_bind]

theorem mapPageTables_succ (n : Nat) (m : ElfProgramMapper) :
    mapPageTables cfg p regs vaddr (n + 1) m = (do
      let (m, res) ← m.tableRound cfg p regs vaddr
      match res with
      | .ok level => if level = 0 then return m else mapPageTables cfg p regs vaddr n m
      | .error _ => mapPageTables cfg p regs vaddr n m) := by
  refine Eq.trans ?_ (tableRound_bind m _).symm
  rfl

/-- The rounds are those of the loop. -/
theorem mapPageTables_of_installs (h : Installs
      (fun m s l m₁ s₁ => m.tableRound cfg p regs vaddr s = .ok (.ok (m₁, .ok (UInt64.ofNat l))) s₁)
      (l + 1) m s m' s') (hl : l < 2 ^ 64) {n : Nat} (hn : l + 1 ≤ n) :
    mapPageTables cfg p regs vaddr n m s = .ok (.ok m') s' := by
  induction n generalizing l m s with
  | zero => omega
  | succ n ih =>
    cases h with
    | @step _ _ m₁ _ _ s₁ _ hround hrest =>
      rw [mapPageTables_succ]
      refine Fallible.bind_ok.2 ⟨_, s₁, hround, ?_⟩
      cases l with
      | zero =>
        cases hrest
        rfl
      | succ l =>
        have hne : UInt64.ofNat (l + 1) ≠ 0 := fun h0 => by
          have := congrArg UInt64.toNat h0
          rw [UInt64.toNat_ofNat', Nat.mod_eq_of_lt hl] at this
          cases this
        dsimp only
        rw [if_neg hne]
        exact ih hrest (by omega) (by omega)

/-- `n` more times, the loop gets the slot and the table that it asks for. -/
def supplied (cfg : Config) (p : Profile) (regs : Registers) (vaddr : UInt64) :
    Nat → ElfProgramMapper → KState → Bool
  | 0, _, _ => true
  | n + 1, m, s =>
    match m.newTable cfg p regs s with
    | .ok (.ok (cap, m)) s =>
      match PageTableCapability.map cfg regs cap m.targetRootVspace vaddr s with
      | .ok _ s => supplied cfg p regs vaddr n m s
      | .error _ _ => true
    | _ => false

end ElfProgramMapper

/-- The loader has a CNode `c`, untyped memory and the root `target`. The kernel finds the CNode
with an iteration to spare, so that it finds what is in there too. -/
structure Desk (cfg : Config) (s : KState) (root c target : CapabilityData)
    (m : ElfProgramMapper) : Prop where
  caller : Caller s root
  ready : Ready cfg s root m.cnode c
  near : ∃ q d, lookupLoop cfg (cfg.loopBound - 1) root m.cnode.capPtr.toNat
    m.cnode.capDepth.toNat s = .ok q ∧ s.isSlot q = true ∧ s.capAt q = some d
  ut : Names cfg s root m.ut.capPtr m.ut.capDepth .untyped 0
  finds : ∃ q, Finds cfg s root m.targetRootVspace.capPtr m.targetRootVspace.capDepth q target
  isTable : target.getCapType = .ok .pageTable

/-- Only untyped memory has been used up. -/
def Kept (s s' : KState) : Prop :=
  ∀ p c, s.isSlot p = true → s.capAt p = some c → c.getCapType ≠ .ok .untyped → s'.capAt p = some c

theorem Finds.kept {ptr : UInt64} {depth : UInt32} {q : Nat} {d : CapabilityData}
    {k : CapabilityType} (h : Finds cfg s root ptr depth q d) (hk : d.getCapType = .ok k)
    (hne : k ≠ .untyped) (hs : Continues s s') (hkept : Kept s s') :
    Finds cfg s' root ptr depth q d :=
  h.continues hs (hkept q d h.slot h.cap fun hut => hne (Except.ok.inj (hk.symm.trans hut)))

theorem Desk.kept (h : Desk cfg s root c target m) (hs : Continues s s') (hkept : Kept s s') :
    Desk cfg s' root c target m := by
  obtain ⟨q, d, hlook, hslot, hq⟩ := h.near
  obtain ⟨d', hd', -⟩ := hs.caps q d hslot hq
  obtain ⟨r, hr⟩ := h.finds
  exact ⟨h.caller.continues hs, h.ready.continues hs,
    ⟨q, d', lookupLoop_continues hs hlook hq, hs.isSlot hslot, hd'⟩, h.ut.continues hs,
    ⟨r, hr.kept h.isTable (by decide) hs hkept⟩, h.isTable⟩

section Calls

variable {capPtr destPtr : UInt64} {capDepth destDepth : UInt32} {q r sepc : Nat}
  {d : CapabilityData} (hc : Caller s root) (hfind : Finds cfg s root capPtr capDepth q d)
  (hroot : Finds cfg s root destPtr destDepth r target) (hkr : target.getCapType = .ok .pageTable)

include hc hfind hroot hkr

/-- `map_page_table` of a new table, at a page of which the walk stops above the last level. -/
theorem mapPageTable_of_free (hk : d.getCapType = .ok .pageTable) (hd : d.isMapped = false)
    (hsepc : cfg.profile.add regs.sepc.toNat 4 = some sepc) (hal : vaddr.toNat % pageSize = 0)
    {o : Object} (hframe : d.getFrame = o.addr)
    (h : FreeAt cfg s target.getFrame vaddr.toNat (l + 1)) (hko : o.kind = .pageTable)
    (hlive : o ∈ s.objects) (hzero : ∀ i < 512, s.mem (entry o.addr i) = 0)
    (hnew : ∀ {v j}, v < 2 ^ 47 → ¬Radix.Reach sv48 s.mem 3 target.getFrame v j o.addr) :
    ∃ s', mapPageTable cfg regs capPtr capDepth destPtr destDepth vaddr s =
        .ok (.ok (UInt64.ofNat l)) s' ∧ FreeAt cfg s' target.getFrame vaddr.toNat l ∧
      Continues s s' ∧ ∀ p ≠ q, s'.capAt p = s.capAt p := by
  let call := Call.mapPageTable capPtr capDepth destPtr destDepth vaddr
  obtain ⟨t, -, ht, -⟩ := hc.thread
  have hent := continues_entered (call.registers regs) ht
  have hu := h.congr (hent.heapWF rfl h.wf) rfl rfl
  obtain ⟨s₁, hmap, hfree, a, -, hs₁⟩ := hu.link hko hlive hzero hnew
  rw [← hframe] at hmap
  obtain ⟨inv, rfl, rfl, rfl, hgo⟩ := Call.run_of_perform hc ht call hfind hk hsepc
  have hperform : call.perform cfg inv (entered (call.registers regs) s t) =
      .ok (some l) (s₁.setCap inv.slot (inv.cap.setMapped vaddr.toNat)) := by
    simp only [call, Call.perform, bind_ok, liftExcept_ok, require_ok, lift_ok, writeCap, modify_ok,
      pure_ok, PageTableCap.map]
    exact ⟨(), _, ⟨decide_eq_true hal, rfl⟩, (r, target), _,
      ⟨(hroot.continues hent hroot.cap).lookupCap hkr, rfl⟩, (_, l), s₁,
      ⟨(), _, ⟨by rw [hd]; rfl, rfl⟩, l, s₁, hmap, rfl, rfl⟩, (), _, rfl, rfl, rfl⟩
  obtain ⟨v, t₂, hrun, -, hval⟩ := hgo hperform (by rw [hs₁]; rfl)
  obtain rfl := hval l rfl
  obtain ⟨-, -, -, -, -, hobj, hs⟩ := mapPageTable_ok hc (hroot.names hkr) (hfind.names hk) hrun
  refine ⟨_, hrun, hfree.congr (hs.heapWF hobj h.wf) rfl rfl, hs, fun p hp => ?_⟩
  change (s₁.setCap inv.slot _).capAt p = _
  rw [KState.setCap, KState.capAt_setSlot, if_neg hp, hs₁]
  rfl

/-- `map_page`, where the entry of the last level is free. -/
theorem mapPage_of_free (hk : d.getCapType = .ok .page) (hd : d.isMapped = false)
    (hsepc : cfg.profile.add regs.sepc.toNat 4 = some sepc) (hal : vaddr.toNat % pageSize = 0)
    (h : FreeAt cfg s target.getFrame vaddr.toNat 0) (flags : PageFlags) :
    ∃ v s', mapPage cfg regs capPtr capDepth destPtr destDepth vaddr flags.toUsize s =
      .ok (.ok v) s' := by
  let call := Call.mapPage capPtr capDepth destPtr destDepth vaddr flags
  obtain ⟨t, -, ht, -⟩ := hc.thread
  have hent := continues_entered (call.registers regs) ht
  have hu := h.congr (hent.heapWF rfl h.wf) rfl rfl
  obtain ⟨s₁, hmap⟩ := hu.pageCapMap hd (pageU ||| flags.entryBits)
  obtain ⟨inv, rfl, rfl, rfl, hgo⟩ := Call.run_of_perform hc ht call hfind hk hsepc
  have hperform : call.perform cfg inv (entered (call.registers regs) s t) =
      .ok none (s₁.setCap inv.slot (inv.cap.setMapped vaddr.toNat)) := by
    simp only [call, Call.perform, bind_ok, liftExcept_ok, require_ok, lift_ok, writeCap, modify_ok,
      pure_ok]
    exact ⟨(), _, ⟨decide_eq_true hal, rfl⟩, (r, target), _,
      ⟨(hroot.continues hent hroot.cap).lookupCap hkr, rfl⟩, _, s₁, hmap, (), _, rfl, trivial, rfl⟩
  obtain ⟨-, -, a, -, -, -, rfl⟩ := pageCapMap_ok hmap
  obtain ⟨v, t₂, hrun, -⟩ := hgo hperform rfl
  exact ⟨v, _, hrun⟩

/-- `map_page` misses a table: the walk stops at the level that the client is told. -/
theorem mapPage_missing (hk : d.getCapType = .ok .page) (hwf : HeapWF cfg s)
    (hspace : TableTree s target.getFrame) (hv : vaddr.toNat < 2 ^ 47) {flags : PageFlags}
    {level : UInt16} (h : mapPage cfg regs capPtr capDepth destPtr destDepth vaddr flags.toUsize s =
      .ok (.error (.pageTableNotMappedYet, level)) s') :
    d.isMapped = false ∧ vaddr.toNat % pageSize = 0 ∧ level ≠ 0 ∧
      FreeAt cfg s' target.getFrame vaddr.toNat level.toNat ∧ Continues s s' ∧
      s'.slots = s.slots ∧ ∃ sepc, cfg.profile.add regs.sepc.toNat 4 = some sepc := by
  let call := Call.mapPage capPtr capDepth destPtr destDepth vaddr flags
  obtain ⟨t, -, ht, -⟩ := hc.thread
  have hent := continues_entered (call.registers regs) ht
  obtain ⟨hs, -, hobj⟩ := syscall_error hc h
  obtain ⟨w, t₁, t₂, sepc, ht₁, -, hsepc, rfl, ⟨⟨⟨kind, val⟩, he, herr⟩, rfl⟩ | ⟨⟨v, hv⟩, -⟩⟩ :=
    syscall_cases hc.base ht h
  swap
  · cases hv
  obtain ⟨rfl, hval⟩ := Prod.mk.inj (Except.error.inj he)
  obtain ⟨inv, rfl, rfl, rfl, hgo⟩ := Call.handleInvocation_of_finds hc ht call hfind hk regs
  -- the address is aligned and the root is found, so the error is that of `PageCap::map`
  have hperform := hgo.symm.trans herr
  simp only [call, Call.perform] at hperform
  cases hal : isAligned vaddr.toNat pageSize with
  | false =>
    rw [hal] at hperform
    cases hperform
  | true =>
    rw [bind_of_ok (liftExcept_ok.2 ⟨(require_ok (u := ())).2 hal, rfl⟩),
      lift_bind_of_ok ((hroot.continues hent hroot.cap).lookupCap hkr)] at hperform
    rcases bind_error.1 hperform with hmap | ⟨_, _, -, hwrite⟩
    swap
    · cases hwrite
    obtain ⟨hd, hpage⟩ := pageCapMap_missing hmap
    obtain ⟨-, hfree, hne⟩ := FreeAt.of_pageMap (hent.heapWF rfl hwf)
      ⟨hspace.tree, hspace.tables⟩ hv hpage
    have hle : val ≤ 3 := by
      obtain ⟨_, hend, -⟩ := hfree.free
      exact hend.reach.le_top
    have hlevel : level.toNat = val := by
      rw [hval]
      exact UInt16.toNat_ofNat_of_lt' (show val < 2 ^ 16 by omega)
    refine ⟨hd, of_decide_eq_true hal, fun h0 => hne ?_, ?_, hs, rfl, sepc, ?_⟩
    · rw [← hlevel, h0]
      rfl
    · rw [hlevel]
      exact hfree.congr (hs.heapWF hobj hwf) rfl rfl
    · obtain rfl := Option.some.inj (ht₁.symm.trans ((KState.tcbs_setTcb ..).trans (if_pos rfl)))
      exact hsepc

end Calls

namespace Desk

variable (h : Desk cfg s root c target m) {sepc : Nat}
  (hsepc : cfg.profile.add regs.sepc.toNat 4 = some sepc) (hal : vaddr.toNat % pageSize = 0)

include h hsepc hal

/-- **A round of the root server's loop.** -/
theorem tableRound (hfree : FreeAt cfg s target.getFrame vaddr.toNat (l + 1))
    {m₁ : ElfProgramMapper} {cap : PageTableCapability} {s₁ : KState}
    (hnew : m.newTable cfg p regs s = .ok (.ok (cap, m₁)) s₁) :
    ∃ s₂, PageTableCapability.map cfg regs cap m₁.targetRootVspace vaddr s₁ =
        .ok (.ok (UInt64.ofNat l)) s₂ ∧ Desk cfg s₂ root c target m₁ ∧
      FreeAt cfg s₂ target.getFrame vaddr.toNat l ∧ Continues s s₂ ∧ Kept s s₂ := by
  simp only [ElfProgramMapper.newTable, Fallible.bind_ok, Fallible.pure_ok, Prod.mk.injEq] at hnew
  obtain ⟨⟨slot, cnode⟩, _, hslot, cap, s₁, hret, ⟨rfl, rfl⟩, rfl⟩ := hnew
  obtain ⟨hu, rfl, rfl, hi⟩ := h.ready.takeSlot_ok hslot
  rw [hu] at hret
  obtain ⟨hget, o, hk, hgrant⟩ := retypeSingle_ok h.caller hfree.wf h.ready (.inr rfl) h.ut
    ⟨rfl, rfl, rfl⟩ hi hret
  have hs₁ := hgrant.continues
  have h₁ := h.kept hs₁ hgrant.others
  obtain ⟨d, hd, hfor, hword⟩ := hgrant.cap
  obtain ⟨q, _, hnear, -, -⟩ := h₁.near
  have hfind : Finds cfg s₁ root cap.capPtr cap.capDepth
      (slotAddr c (slotOf m.cnode).index.toNat) d :=
    ⟨h₁.ready.lookupEntryMut_eq hnear ⟨rfl, rfl, rfl⟩ hi hget, hgrant.slot, hd⟩
  obtain ⟨r, hr⟩ := h₁.finds
  have hunmapped : d.isMapped = false := by
    rw [isMapped, hword]
    exact Nat.zero_testBit 48
  obtain ⟨s₂, hmap, hfree₂, hs₂, hcaps⟩ := mapPageTable_of_free h₁.caller hfind hr h.isTable
    (hfor.capType.trans (congrArg Except.ok hk)) hunmapped hsepc hal
    (hfor.getFrame hgrant.creates.fresh.admissible) (hfree.create hgrant.creates) hk
    hgrant.creates.live (hgrant.zero hk) (hgrant.creates.unreached hfree)
  -- the slot of the table was empty
  have hkept : Kept s s₂ := by
    intro q' c' hq' hc' hne
    rw [hcaps q' (fun heq => by rw [heq, hgrant.empty] at hc'; cases hc')]
    exact hgrant.others q' c' hq' hc' hne
  have hs := hs₁.trans hs₂
  have h₂ := h.kept hs hkept
  exact ⟨s₂, hmap, { h₂ with ready := h₂.ready.advance }, hfree₂, hs, hkept⟩

/-- All rounds. -/
theorem installs (hfree : FreeAt cfg s target.getFrame vaddr.toNat l)
    (hsupply : m.supplied cfg p regs vaddr l s = true) :
    ∃ m' s', Installs (fun m s l m₁ s₁ =>
        m.tableRound cfg p regs vaddr s = .ok (.ok (m₁, .ok (UInt64.ofNat l))) s₁) l m s m' s' ∧
      Desk cfg s' root c target m' ∧ FreeAt cfg s' target.getFrame vaddr.toNat 0 ∧
      Continues s s' ∧ Kept s s' := by
  induction l generalizing m s with
  | zero =>
    exact ⟨m, s, .done m s, h, hfree, .memory s s.mem s.rooted, fun _ _ _ hc _ => hc⟩
  | succ l ih =>
    rw [ElfProgramMapper.supplied] at hsupply
    split at hsupply
    · next cap m₁ s₁ hnew =>
      obtain ⟨s₂, hmap, h₂, hfree₂, hs, hkept⟩ := h.tableRound hsepc hal hfree hnew
      rw [hmap] at hsupply
      obtain ⟨m', s', hrounds, h', hfree', hs', hkept'⟩ := ih h₂ hfree₂ hsupply
      refine ⟨m', s', .step ?_ hrounds, h', hfree', hs.trans hs', fun q d hq hd hne => ?_⟩
      · exact Fallible.bind_ok.2 ⟨(cap, m₁), s₁, hnew,
          Fallible.bind_ok.2 ⟨_, s₂, attempt_ok.2 hmap, rfl⟩⟩
      · exact hkept' q d (hs.isSlot hq) (hkept q d hq hd hne) hne
    · cases hsupply

end Desk

/-- **The root server's loop.** -/
theorem mapPageTables_of_missing {page : PageCapability} {q : Nat} {d : CapabilityData}
    {flags : PageFlags} {level : UInt16} (h : Desk cfg s root c target m)
    (hpage : Finds cfg s root page.capPtr page.capDepth q d) (hk : d.getCapType = .ok .page)
    (hwf : HeapWF cfg s) (hspace : TableTree s target.getFrame) (hv : vaddr.toNat < 2 ^ 47)
    (hmissing : PageCapability.map cfg regs page m.targetRootVspace vaddr flags s =
      .ok (.error (.pageTableNotMappedYet, level)) s')
    (hsupply : m.supplied cfg p regs vaddr level.toNat s' = true) :
    ∃ m' s₁ page' s₂, Installs (fun m s l m₁ s₁ =>
        m.tableRound cfg p regs vaddr s = .ok (.ok (m₁, .ok (UInt64.ofNat l))) s₁)
        level.toNat m s' m' s₁ ∧
      (∀ n ≥ level.toNat, ElfProgramMapper.mapPageTables cfg p regs vaddr n m s' =
        .ok (.ok m') s₁) ∧
      PageCapability.map cfg regs page m'.targetRootVspace vaddr flags s₁ = .ok (.ok page') s₂ := by
  obtain ⟨r, hr⟩ := h.finds
  have hcall : mapPage cfg regs page.capPtr page.capDepth m.targetRootVspace.capPtr
      m.targetRootVspace.capDepth vaddr flags.toUsize s =
        .ok (.error (.pageTableNotMappedYet, level)) s' := by
    rcases Fallible.bind_error.1 hmissing with hcall | ⟨_, _, -, hret⟩
    · exact hcall
    · exact (Fallible.pure_error.1 hret).elim
  obtain ⟨hd, hal, hne, hfree, hs, hslots, sepc, hsepc⟩ :=
    mapPage_missing h.caller hpage hr h.isTable hk hwf hspace hv hcall
  have hkept : Kept s s' := fun _ _ _ hc _ => by rwa [KState.capAt, hslots]
  obtain ⟨m', s₁, hrounds, h₁, hfree₁, hs₁, hkept₁⟩ :=
    (h.kept hs hkept).installs hsepc hal hfree hsupply
  obtain ⟨r₁, hr₁⟩ := h₁.finds
  have hpage₁ := (hpage.kept hk (by decide) hs hkept).kept hk (by decide) hs₁ hkept₁
  obtain ⟨v, s₂, hmap⟩ := mapPage_of_free h₁.caller hpage₁ hr₁ h.isTable hk hd hsepc hal
    hfree₁ flags
  refine ⟨m', s₁, _, s₂, hrounds, fun n hn => ?_, Fallible.bind_ok.2 ⟨v, s₂, hmap, rfl⟩⟩
  obtain ⟨l, hl⟩ : ∃ l, level.toNat = l + 1 :=
    Nat.exists_eq_succ_of_ne_zero fun h0 => hne (UInt16.toNat_inj.1 h0)
  rw [hl] at hrounds hn
  have := level.toNat_lt
  exact ElfProgramMapper.mapPageTables_of_installs hrounds (by omega) hn

end Client

/-- **Page tables on demand.** Where `map` of a page misses a table at level `l`, the loop of
`map_page_tables` maps exactly `l` tables and ends, and then the page can be mapped; in the kernel
with enough frames and slots, and in the root server if it gets the slots and tables that it asks
for. -/
theorem mapPageTables_onDemand (cfg : Config) :
    (∀ {s s₀ : KState} {cnodeCap rootTableCap pageCap : CapabilityData} {m : ResourceManager}
        {vaddr flags l : Nat}, HeapWF cfg s → TableTree s rootTableCap.getFrame → vaddr < 2 ^ 47 →
      PageCap.map cfg pageCap rootTableCap vaddr flags s =
        .error (kerr .pageTableNotMappedYet l) s₀ →
      Stock cfg s cnodeCap m l →
      ∃ m' s₁ s₂, Installs (fun m s l m₁ s₁ =>
          tableRound cfg cnodeCap rootTableCap vaddr m s = .ok (m₁, l) s₁) l m s₀ m' s₁ ∧
        (∀ n ≥ l, mapPageTables cfg cnodeCap rootTableCap vaddr n m s₀ = .ok m' s₁) ∧
        PageCap.map cfg pageCap rootTableCap vaddr flags s₁ = .ok (pageCap.setMapped vaddr) s₂) ∧
    ∀ {s s₀ : KState} {root c target pageCap : CapabilityData} {m : Client.ElfProgramMapper}
        {p : Profile} {regs : Registers} {vaddr : UInt64} {page : Client.PageCapability}
        {q : Nat} {flags : Client.PageFlags} {level : UInt16},
      HeapWF cfg s → TableTree s target.getFrame → vaddr.toNat < 2 ^ 47 →
      Client.Desk cfg s root c target m →
      Client.Finds cfg s root page.capPtr page.capDepth q pageCap →
      pageCap.getCapType = .ok .page →
      Client.PageCapability.map cfg regs page m.targetRootVspace vaddr flags s =
        .ok (.error (.pageTableNotMappedYet, level)) s₀ →
      m.supplied cfg p regs vaddr level.toNat s₀ = true →
      ∃ m' s₁ page' s₂, Installs (fun m s l m₁ s₁ => Client.ElfProgramMapper.tableRound cfg p regs
          vaddr m s = .ok (.ok (m₁, .ok (UInt64.ofNat l))) s₁) level.toNat m s₀ m' s₁ ∧
        (∀ n ≥ level.toNat,
          Client.ElfProgramMapper.mapPageTables cfg p regs vaddr n m s₀ = .ok (.ok m') s₁) ∧
        Client.PageCapability.map cfg regs page m'.targetRootVspace vaddr flags s₁ =
          .ok (.ok page') s₂ :=
  ⟨fun hwf hspace hv hmissing hstock => mapPageTables_of_missing hwf hspace hv hmissing hstock,
    fun hwf hspace hv h hpage hk hmissing hsupply =>
      Client.mapPageTables_of_missing h hpage hk hwf hspace hv hmissing hsupply⟩

namespace Demand

open Zoeax.Small (slot thread rootCap)

def cnodeCap : CapabilityData := .new .cNode 0x80400000 5

def pageCap : CapabilityData := .new .page 0x80402000 0

/-- A thread with a CNode of 32 slots: slot 2 is the root of an empty address space, slot 3 a
megabyte of untyped memory and slot 4 a page. -/
def state : KState :=
  { Small.state with
    slots := fun p =>
      if p = slot 1 then some (.newWithRawcap cnodeCap)
      else if p = slot 2 then some (.newWithRawcap rootCap)
      else if p = slot 3 then some (.newWithRawcap (.fresh 0x80800000 20))
      else if p = slot 4 then some (.newWithRawcap pageCap)
      else none
    tcbs := fun p => if p = thread then
      some { status := .runnable, rootCnode := some (.newWithRawcap cnodeCap),
             vspace := some (.newWithRawcap rootCap), registers := { sstatus := 0x20 } } else none
    objects := [⟨.cNode, 0x80400000, 5, 1024⟩, ⟨.pageTable, 0x80401000, 0, 4096⟩,
      ⟨.page, 0x80402000, 0, 4096⟩, ⟨.tcb, 0x80403000, 0, Config.virt.tcbSize⟩] }

theorem heapWF : HeapWF .virt state := by
  refine ⟨by decide, by decide, by decide, fun p t ht => ?_⟩
  simp only [state] at ht
  split at ht
  · next hp => exact .inr ⟨_, .tail _ (.tail _ (.tail _ (.head _))), rfl, hp.symm⟩
  · cases ht

theorem tableTree : TableTree state rootCap.getFrame := by
  have hlow : ∀ i < 256, state.mem (entry 0x80401000 i) = 0 := by decide +kernel
  have hempty : ∀ v ∈ {v | v < 2 ^ 47},
      state.mem (sv48.slot 0x80401000 (sv48.digit 3 v)) = sv48.empty := by
    intro v hv
    refine hlow _ ?_
    change v < 2 ^ 47 at hv
    change getVpn v 3 < 256
    rw [getVpn_eq]
    omega
  rw [show rootCap.getFrame = 0x80401000 by decide]
  refine ⟨(Radix.isTree_of_empty hempty (rfl : 0x80401000 % 4096 = 0)).unshared, fun hv hr => ?_⟩
  rw [(Radix.reach_of_empty hempty hv hr).2]
  exact (by decide : state.isObject .pageTable 0x80401000 = true)

def mgr : ResourceManager := ⟨0x80500000, 0x80600000, 8, 20⟩

theorem stock : Stock .virt state cnodeCap mgr 3 where
  frames := by decide
  fresh i hi := by
    refine ⟨?_, ?_, rfl⟩
    · revert i
      decide
    · revert i
      decide
  zero := by decide +kernel
  indices := by decide
  slots i hi := by
    refine ⟨⟨32, by decide, ?_, by decide⟩, ?_, ?_⟩
    · revert i
      decide
    · revert i
      decide
    · revert i
      decide

def mapper : Client.ElfProgramMapper where
  cnode := ⟨1, 5, ⟨5, 8⟩⟩
  ut := ⟨3, 5, ⟨false, 20⟩⟩
  rootTable := ⟨2, 5, ⟨0, true, true⟩⟩
  targetRootVspace := ⟨2, 5, ⟨0, true, true⟩⟩
  freeAddress := 0x3000

def page : Client.PageCapability := ⟨4, 5, ⟨0, false, .never⟩⟩

theorem desk : Client.Desk .virt state cnodeCap cnodeCap rootCap mapper where
  caller := ⟨rfl, _, _, rfl, rfl, rfl⟩
  ready := ⟨.last (p := slot 1) (by decide) (by decide) (by decide) (by decide), by decide,
    by decide, ⟨by decide, by decide⟩, by decide, by decide⟩
  near := ⟨slot 1, cnodeCap, by decide, by decide, by decide⟩
  ut := ⟨slot 3, .fresh 0x80800000 20,
    .last (by decide) (by decide), by decide, by decide, by decide, absurd rfl⟩
  finds := ⟨slot 2, by decide, by decide, by decide⟩
  isTable := by decide

end Demand

/-- No table is there but the root: three tables are needed. -/
theorem mapPageTables_onDemand_three :
    (∃ m' s₁ s₂, (∀ n ≥ 3, mapPageTables .virt Demand.cnodeCap Small.rootCap 0x1000 n Demand.mgr
        Demand.state = .ok m' s₁) ∧
      PageCap.map .virt Demand.pageCap Small.rootCap 0x1000 pageR s₁ =
        .ok (Demand.pageCap.setMapped 0x1000) s₂) ∧
    ∃ s₀ m' s₁ page' s₂, Client.PageCapability.map .virt {} Demand.page
        Demand.mapper.targetRootVspace 0x1000 .readandwrite Demand.state =
          .ok (.error (.pageTableNotMappedYet, 3)) s₀ ∧
      (∀ n ≥ 3, Client.ElfProgramMapper.mapPageTables .virt .debug {} 0x1000 n Demand.mapper s₀ =
        .ok (.ok m') s₁) ∧
      Client.PageCapability.map .virt {} Demand.page m'.targetRootVspace 0x1000 .readandwrite s₁ =
        .ok (.ok page') s₂ := by
  refine ⟨?_, ?_⟩
  · have hmissing : PageCap.map .virt Demand.pageCap Small.rootCap 0x1000 pageR Demand.state =
        .error (kerr .pageTableNotMappedYet 3) Demand.state := rfl
    obtain ⟨m', s₁, s₂, -, hloop, hmap⟩ := (mapPageTables_onDemand .virt).1 Demand.heapWF
      Demand.tableTree (by decide) hmissing Demand.stock
    exact ⟨m', s₁, s₂, hloop, hmap⟩
  · have htest : returnsWith (Client.PageCapability.map .virt {} Demand.page
          Demand.mapper.targetRootVspace 0x1000 .readandwrite Demand.state)
        (fun r s₀ => errAnd r (· = (.pageTableNotMappedYet, 3)) &&
          Demand.mapper.supplied .virt .debug {} 0x1000 3 s₀) = true := by decide +kernel
    obtain ⟨r, s₀, hmissing, hr⟩ := exists_of_returnsWith htest
    obtain ⟨hfails, hsupply⟩ := Bool.and_eq_true_iff.1 hr
    obtain ⟨e, rfl, he⟩ := exists_of_errAnd hfails
    obtain rfl := of_decide_eq_true he
    have hpage : Client.Finds .virt Demand.state Demand.cnodeCap Demand.page.capPtr
        Demand.page.capDepth (Small.slot 4) Demand.pageCap := ⟨by decide, by decide, by decide⟩
    obtain ⟨m', s₁, page', s₂, -, hloop, hmap⟩ := (mapPageTables_onDemand .virt).2 Demand.heapWF
      Demand.tableTree (by decide) Demand.desk hpage (by decide) hmissing hsupply
    exact ⟨s₀, m', s₁, page', s₂, hmissing, hloop, hmap⟩

end Zoeax
