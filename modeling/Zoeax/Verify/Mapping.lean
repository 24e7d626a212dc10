import Zoeax.Lib.Radix
import Zoeax.Verify.Paging

/-!
# Address spaces as radix trees

The tables below a root are a radix tree over virtual addresses (`sv48`). Where they form a tree
(`AddressSpace`), `PageTable::walk` returns what the abstract walk finds (`find_eq`), and

- `map_exact`: `Page::map` and `PageTable::map` change what is found for the addresses they are
  asked to map, as they should, and nothing else.
-/

namespace Zoeax

open Lib Exec
open PageTable (entry)

variable {cfg : Config} {s s' : KState} {root bound v : Nat}

/-! ## The tables as a radix tree -/

theorem getVpn_eq (v level : Nat) : getVpn v level = v / 2 ^ (12 + level * 9) % 512 := by
  have hmask : (0x1ff : Nat) = 2 ^ 9 - 1 := by decide
  rw [getVpn, hmask, Nat.and_two_pow_sub_one_eq_mod, Nat.shiftRight_eq_div_pow]

theorem Pte.target_eq (pte : UInt64) : Pte.target pte = pte.toNat / 2 ^ 10 * 2 ^ 12 % 2 ^ 47 := by
  have hmask : (0xfff : Nat) = 2 ^ 12 - 1 := by decide
  have hlt := pte.toNat_lt
  rw [Pte.target, Pte.getAddress, Nat.shiftLeft_eq, hmask,
    and_notU64_two_pow_sub_one (Nat.mod_lt _ (by decide)) (by decide), direct, toPhys_toKernelV]
  · omega
  · omega

/-- The tables of the kernel: the index of an address is `VirtAddr::get_vpn`, and an entry that is
valid leads to the memory at its address. -/
def sv48 : Radix.Format Nat Nat UInt64 where
  digit level v := getVpn v level
  slot := entry
  next pte := if Pte.isValid pte then some (Pte.target pte) else none
  empty := 0
  next_empty := rfl
  IsTable t := t % 4096 = 0
  next_isTable {w t} h := by
    split at h
    · have ht := Pte.target_eq w
      have heq : Pte.target w = t := Option.some.inj h
      omega
    · cases h
  slot_inj ht hu h := entry_inj ht hu (getVpn_lt ..) (getVpn_lt ..) h

theorem sv48_next_of_valid {w : UInt64} (h : Pte.isValid w = true) :
    sv48.next w = some (Pte.target w) := if_pos h

theorem sv48_next_eq_some {w : UInt64} {f : Nat} :
    sv48.next w = some f ↔ Pte.isValid w = true ∧ Pte.target w = f := by
  cases hvalid : Pte.isValid w with
  | true => simp [sv48_next_of_valid hvalid]
  | false => simp [sv48, hvalid]

theorem sv48_next_eq_none {w : UInt64} : sv48.next w = none ↔ Pte.isValid w = false := by
  change (if Pte.isValid w then some (Pte.target w) else none) = none ↔ _
  cases Pte.isValid w <;> simp

/-- Addresses that use one entry of a table of a level are in one block of that level. -/
theorem div_eq_of_agree {u j : Nat} (hv : v < 2 ^ 48) (hu : u < 2 ^ 48) (hj : j ≤ 3)
    (h : Radix.Agree sv48 3 j v u) : v / 2 ^ (12 + j * 9) = u / 2 ^ (12 + j * 9) := by
  have hdigit : ∀ m, j ≤ m → m ≤ 3 →
      v / 2 ^ (12 + m * 9) % 512 = u / 2 ^ (12 + m * 9) % 512 := fun m hm hmt => by
    rw [← getVpn_eq, ← getVpn_eq]
    exact h m hm hmt
  have h3 := hdigit 3 hj le_rfl
  obtain rfl | rfl | rfl | rfl : j = 0 ∨ j = 1 ∨ j = 2 ∨ j = 3 := by omega
  · have h0 := hdigit 0 (by decide) (by decide)
    have h1 := hdigit 1 (by decide) (by decide)
    have h2 := hdigit 2 (by decide) (by decide)
    omega
  · have h1 := hdigit 1 (by decide) (by decide)
    have h2 := hdigit 2 (by decide) (by decide)
    omega
  · have h2 := hdigit 2 (by decide) (by decide)
    omega
  · omega

/-- What `PageTable::walk` finds for an address: the level at which it stops, the entry, and the
word in the entry. -/
def PageTable.find (cfg : Config) (table vaddr : Nat) : KR (Nat × Nat × UInt64) := do
  let (level, a) ← walk cfg table vaddr
  let pte ← readPte cfg a
  return (level, a, pte)

/-- The kernel can read and write the table at `t`. -/
def KState.LiveTable (cfg : Config) (s : KState) (t : Nat) : Prop :=
  ∀ i < 512, (s.isFrame (entry t i) || cfg.isStaticTable (entry t i)) = true

/-- The tables that the addresses below `bound` reach from `root` are live and form a tree, in which
unused entries are zero. -/
structure AddressSpace (cfg : Config) (s : KState) (root bound : Nat) : Prop where
  tree : Radix.IsTree sv48 {v | v < bound} s.mem 3 root
  live : ∀ {v j t}, v < bound → Radix.Reach sv48 s.mem 3 root v j t → s.LiveTable cfg t

/-- A live table, all zero, that is not in the tree below `root`. -/
structure SpareTable (cfg : Config) (s : KState) (root bound table : Nat) : Prop where
  spare : Radix.Spare sv48 {v | v < bound} s.mem 3 root table
  live : s.LiveTable cfg table
  lt : table < 2 ^ 47

theorem KState.liveTable_of_mem {o : Object} (ho : o ∈ s.objects) (hk : o.kind = .pageTable)
    (hsize : o.size = 4096) : s.LiveTable cfg o.addr := fun i hi => by
  rw [KState.isFrame_entry ho hk hsize hi, Bool.true_or]

theorem readPte_of_live {t : Nat} (h : s.LiveTable cfg t) (v j : Nat) :
    readPte cfg (entry t (getVpn v j)) s = .ok (s.mem (entry t (getVpn v j))) := by
  have hlive := h (getVpn v j) (getVpn_lt v j)
  simp only [readPte, Query.bind_ok, Query.read_ok, exists_eq_left', hlive, if_true]
  rfl

theorem writePte_of_live {t : Nat} (h : s.LiveTable cfg t) (v j : Nat) (w : UInt64) :
    writePte cfg (entry t (getVpn v j)) w s = .ok () (s.setWord (entry t (getVpn v j)) w) :=
  writePte_ok.2 ⟨h (getVpn v j) (getVpn_lt v j), rfl⟩

/-- The word that `Page::map` writes is valid, whatever the flags. -/
theorem Pte.isValid_write_or (page flags : Nat) :
    Pte.isValid (Pte.write page (flags ||| pageV)) = true := by
  have hbit : (((page >>> 12) <<< 10) ||| (flags ||| pageV)).testBit 0 = true := by
    rw [Nat.testBit_or, Nat.testBit_or]
    simp [pageV]
  rw [Pte.isValid, Pte.write, UInt64.toNat_ofNat', Nat.testBit_mod_two_pow, hbit]
  rfl

theorem SpareTable.next_write {table : Nat}
    (hy : SpareTable cfg s root bound table) : sv48.next (Pte.write table pageV) = some table := by
  have hflag : pageV < 2 ^ 10 := by decide
  have hvalid : Pte.isValid (Pte.write table pageV) = true := Pte.isValid_write hy.lt hflag
  rw [sv48_next_of_valid hvalid, Pte.target_write hy.lt hy.spare.isTable hflag]

/-! ## A walk through live tables -/

section Live

variable (hlive : ∀ {j t}, Radix.Reach sv48 s.mem 3 root v j t → s.LiveTable cfg t)
include hlive

theorem walkFrom_of_live {j t : Nat} (hr : Radix.Reach sv48 s.mem 3 root v j t) :
    PageTable.walkFrom cfg j t v s = .ok (Radix.walk sv48 s.mem v j t) := by
  induction j generalizing t with
  | zero => rfl
  | succ j ih =>
    have hread := readPte_of_live (hlive hr) v (j + 1)
    cases hvalid : Pte.isValid (s.mem (entry t (getVpn v (j + 1)))) with
    | true =>
      have hnext := sv48_next_of_valid hvalid
      have hwalk : Radix.walk sv48 s.mem v (j + 1) t =
          Radix.walk sv48 s.mem v j (Pte.target (s.mem (entry t (getVpn v (j + 1))))) := by
        rw [Radix.walk]
        simp only [show sv48.slot t (sv48.digit (j + 1) v) = entry t (getVpn v (j + 1)) from rfl,
          hnext]
      rw [hwalk, ← ih (hr.down hnext)]
      refine (Query.bind_of_ok hread).trans ?_
      rw [if_pos hvalid]
      rfl
    | false =>
      have hnext := sv48_next_eq_none.2 hvalid
      have hwalk : Radix.walk sv48 s.mem v (j + 1) t =
          (j + 1, entry t (getVpn v (j + 1))) := by
        rw [Radix.walk]
        simp only [show sv48.slot t (sv48.digit (j + 1) v) = entry t (getVpn v (j + 1)) from rfl,
          hnext]
      rw [hwalk]
      refine (Query.bind_of_ok hread).trans ?_
      rw [if_neg (Bool.eq_false_iff.1 hvalid)]
      rfl

variable {l t : Nat} (hend : Radix.End sv48 s.mem 3 root v l t)
include hend

theorem walk_of_live : PageTable.walk cfg root v s = .ok (l, entry t (getVpn v l)) := by
  rw [PageTable.walk, walkFrom_of_live hlive .root, hend.walk_eq]
  rfl

theorem pageMap_of_live (page flags : Nat) : Page.map cfg page root v flags s =
    if l ≠ 0 then .error (kerr .pageTableNotMappedYet l) s
    else if Pte.isValid (s.mem (entry t (getVpn v l))) then .error (kerr .vaddressAlreadyMapped 0) s
    else .ok () (s.setWord (entry t (getVpn v l)) (Pte.write page (flags ||| pageV))) := by
  refine (lift_bind_of_ok (walk_of_live hlive hend)).trans ?_
  by_cases hl : l ≠ 0
  · simp only [if_pos hl]
    rfl
  · simp only [if_neg hl]
    refine (lift_bind_of_ok (readPte_of_live (hlive hend.reach) v l)).trans ?_
    split
    · rfl
    · exact writePte_of_live (hlive hend.reach) v l _

theorem pageUnmap_of_live (page : Nat) : Page.unmap cfg page root v s =
    if l ≠ 0 then .error (kerr .pageTableNotMappedYet l) s
    else if !Pte.isValid (s.mem (entry t (getVpn v l))) then .error (kerr .pageNotMappedYet 0) s
    else if toKernelV page ≠ toKernelV (Pte.getAddress (s.mem (entry t (getVpn v l)))) then
      .error (kerr .invalidOperation 0) s
    else .ok () (s.setWord (entry t (getVpn v l)) 0) := by
  refine (lift_bind_of_ok (walk_of_live hlive hend)).trans ?_
  by_cases hl : l ≠ 0
  · simp only [if_pos hl]
    rfl
  · simp only [if_neg hl]
    refine (lift_bind_of_ok (readPte_of_live (hlive hend.reach) v l)).trans ?_
    split
    · rfl
    · split
      · rfl
      · exact writePte_of_live (hlive hend.reach) v l _

theorem tableMap_of_live (table : Nat) : PageTable.map cfg table root v s =
    if l = 0 then .error (kerr .vaddressAlreadyMapped 0) s
    else .ok (l - 1) (s.setWord (entry t (getVpn v l)) (Pte.write table pageV)) := by
  refine (lift_bind_of_ok (walk_of_live hlive hend)).trans ?_
  by_cases hl : l = 0
  · simp only [if_pos hl]
    rfl
  · simp only [if_neg hl]
    exact bind_of_ok (writePte_of_live (hlive hend.reach) v l _)

end Live

namespace AddressSpace

section Walk

variable (h : AddressSpace cfg s root bound) (hv : v < bound) {l t : Nat}
  (hend : Radix.End sv48 s.mem 3 root v l t)
include h hv hend

theorem walk_eq : PageTable.walk cfg root v s = .ok (l, entry t (getVpn v l)) :=
  walk_of_live (h.live hv) hend

theorem find_of_end : PageTable.find cfg root v s =
    .ok (l, entry t (getVpn v l), s.mem (entry t (getVpn v l))) := by
  refine (Query.bind_of_ok (h.walk_eq hv hend)).trans ?_
  exact Query.bind_of_ok (readPte_of_live (h.live hv hend.reach) v l)

end Walk

/-- **`PageTable::walk` finds what the abstract walk finds.** -/
theorem find_eq (h : AddressSpace cfg s root bound) (hv : v < bound) :
    PageTable.find cfg root v s = .ok (Radix.lookup sv48 s.mem 3 root v) := by
  obtain ⟨l, t, hend⟩ := Radix.exists_end sv48 s.mem 3 root v
  rw [h.find_of_end hv hend, hend.lookup_eq]
  rfl

/-- A walk that returns has ended in a table of the tree. -/
theorem end_of_walk (h : AddressSpace cfg s root bound) (hv : v < bound) {l a : Nat}
    (hwalk : PageTable.walk cfg root v s = .ok (l, a)) :
    ∃ t, Radix.End sv48 s.mem 3 root v l t ∧ a = entry t (getVpn v l) := by
  obtain ⟨l', t, hend⟩ := Radix.exists_end sv48 s.mem 3 root v
  obtain ⟨rfl, rfl⟩ := Prod.mk.inj (Except.ok.inj ((h.walk_eq hv hend).symm.trans hwalk))
  exact ⟨t, hend, rfl⟩

/-- `Page::map` succeeded: the walk ended in a last-level table, and its entry was free. -/
theorem page_map_ok (h : AddressSpace cfg s root bound) (hv : v < bound) {page flags : Nat}
    (hmap : Page.map cfg page root v flags s = .ok () s') :
    ∃ t, Radix.End sv48 s.mem 3 root v 0 t ∧
      Pte.isValid (s.mem (entry t (getVpn v 0))) = false ∧
      s' = s.setWord (entry t (getVpn v 0)) (Pte.write page (flags ||| pageV)) := by
  obtain ⟨a, hwalk, hinvalid, hwrite⟩ := pageMap_ok hmap
  obtain ⟨t, hend, rfl⟩ := h.end_of_walk hv hwalk
  exact ⟨t, hend, hinvalid, (writePte_ok.1 hwrite).2⟩

/-- `PageTable::map` succeeded: the walk ended above the last level. -/
theorem table_map_ok (h : AddressSpace cfg s root bound) (hv : v < bound) {table level : Nat}
    (hmap : PageTable.map cfg table root v s = .ok level s') :
    ∃ t, Radix.End sv48 s.mem 3 root v (level + 1) t ∧
      s' = s.setWord (entry t (getVpn v (level + 1))) (Pte.write table pageV) := by
  obtain ⟨l, a, hwalk, hl, hlevel, hwrite⟩ := pageTableMap_ok.1 hmap
  obtain rfl : l = level + 1 := by omega
  obtain ⟨t, hend, rfl⟩ := h.end_of_walk hv hwalk
  exact ⟨t, hend, (writePte_ok.1 hwrite).2⟩

/-! ## What a write does to the address space -/

/-- An entry of a last-level table gets a valid word, or zero. -/
theorem setLeaf (h : AddressSpace cfg s root bound) (hv : v < bound) {t : Nat}
    (hend : Radix.End sv48 s.mem 3 root v 0 t) {w : UInt64} (hw : Pte.isValid w = false → w = 0) :
    AddressSpace cfg (s.setWord (entry t (getVpn v 0)) w) root bound where
  tree := h.tree.setLeaf hv hend fun hnone => hw (sv48_next_eq_none.1 hnone)
  live hu hr := h.live hu (h.tree.unshared.reach_of_setLeaf hv hend hu hr)

theorem setPage (h : AddressSpace cfg s root bound) (hv : v < bound) {t : Nat}
    (hend : Radix.End sv48 s.mem 3 root v 0 t) (page flags : Nat) : AddressSpace cfg
      (s.setWord (entry t (getVpn v 0)) (Pte.write page (flags ||| pageV))) root bound :=
  h.setLeaf hv hend fun hinvalid => absurd hinvalid (by simp [Pte.isValid_write_or])

theorem clear (h : AddressSpace cfg s root bound) (hv : v < bound) {t : Nat}
    (hend : Radix.End sv48 s.mem 3 root v 0 t) :
    AddressSpace cfg (s.setWord (entry t (getVpn v 0)) 0) root bound :=
  h.setLeaf hv hend fun _ => rfl

/-- A spare table is linked at the end of a walk. -/
theorem link (h : AddressSpace cfg s root bound) (hv : v < bound) {l t table : Nat}
    (hend : Radix.End sv48 s.mem 3 root v (l + 1) t) (hy : SpareTable cfg s root bound table) :
    AddressSpace cfg (s.setWord (entry t (getVpn v (l + 1))) (Pte.write table pageV))
      root bound where
  tree := h.tree.link hv hend hy.spare hy.next_write
  live hu hr := by
    rcases h.tree.unshared.reach_of_link hv hend hy.spare hy.next_write hu hr with
      hold | ⟨-, rfl, -⟩
    · exact h.live hu hold
    · exact hy.live

theorem spare_link (h : AddressSpace cfg s root bound) (hv : v < bound) {l t y z : Nat}
    (hend : Radix.End sv48 s.mem 3 root v (l + 1) t) (hy : SpareTable cfg s root bound y)
    (hz : SpareTable cfg s root bound z) (hne : z ≠ y) : SpareTable cfg
      (s.setWord (entry t (getVpn v (l + 1))) (Pte.write y pageV)) root bound z :=
  ⟨h.tree.unshared.spare_link hv hend hy.spare hy.next_write hz.spare hne, hz.live, hz.lt⟩

/-- The walk of an address that is not in the block of the written entry finds what it found. -/
theorem find_setWord_of_ne (h : AddressSpace cfg s root bound) (hbound : bound ≤ 2 ^ 48)
    (hv : v < bound) {l t : Nat} (hend : Radix.End sv48 s.mem 3 root v l t) {w : UInt64}
    (h' : AddressSpace cfg (s.setWord (entry t (getVpn v l)) w) root bound) {u : Nat}
    (hu : u < bound) (hne : u / 2 ^ (12 + l * 9) ≠ v / 2 ^ (12 + l * 9)) :
    PageTable.find cfg root u (s.setWord (entry t (getVpn v l)) w) =
      PageTable.find cfg root u s := by
  have hagree : ¬Radix.Agree sv48 3 l u v := fun hagree =>
    hne (div_eq_of_agree (hu.trans_le hbound) (hv.trans_le hbound) hend.reach.le_top hagree)
  rw [h'.find_eq hu, h.find_eq hu]
  exact congrArg _ (h.tree.unshared.lookup_update_of_not_agree hv hend hu hagree)

end AddressSpace

/-! ## Exact updates -/

/-- `Page::map` does to the addresses below `bound` what it should: it maps the page, and nothing
else changes. -/
structure Page.MapExact (cfg : Config) (s : KState) (root bound page vaddr flags : Nat) : Prop where
  succeeds_iff : (∃ s', Page.map cfg page root vaddr flags s = .ok () s') ↔
    ∃ a pte, PageTable.find cfg root vaddr s = .ok (0, a, pte) ∧ Pte.isValid pte = false
  unchanged : ∀ e s', Page.map cfg page root vaddr flags s = .error e s' → s' = s
  found : ∀ s', Page.map cfg page root vaddr flags s = .ok () s' →
    ∃ a pte, PageTable.find cfg root vaddr s' = .ok (0, a, pte) ∧ Pte.isValid pte = true ∧
      Pte.getAddress pte = page ∧ pte.toNat = page / 2 ^ 12 * 2 ^ 10 + (flags ||| pageV)
  others : ∀ s', Page.map cfg page root vaddr flags s = .ok () s' → ∀ v < bound,
    v / 2 ^ 12 ≠ vaddr / 2 ^ 12 → PageTable.find cfg root v s' = PageTable.find cfg root v s

/-- `PageTable::map` does to the addresses below `bound` what it should: the walk of the address
goes one level deeper, into the new table, and nothing changes for addresses that the new table does
not cover. -/
structure PageTable.MapExact (cfg : Config) (s : KState) (root bound table vaddr : Nat) :
    Prop where
  succeeds_iff : (∃ level s', PageTable.map cfg table root vaddr s = .ok level s') ↔
    ∃ level a pte, PageTable.find cfg root vaddr s = .ok (level + 1, a, pte)
  unchanged : ∀ e s', PageTable.map cfg table root vaddr s = .error e s' → s' = s
  deeper : ∀ level s', PageTable.map cfg table root vaddr s = .ok level s' →
    (∃ a pte, PageTable.find cfg root vaddr s = .ok (level + 1, a, pte)) ∧
    PageTable.find cfg root vaddr s' = .ok (level, entry table (getVpn vaddr level), 0)
  others : ∀ level s', PageTable.map cfg table root vaddr s = .ok level s' → ∀ v < bound,
    v / 2 ^ (12 + (level + 1) * 9) ≠ vaddr / 2 ^ (12 + (level + 1) * 9) →
    PageTable.find cfg root v s' = PageTable.find cfg root v s

theorem Pte.getAddress_write {f flags : Nat} (hf : f < 2 ^ 47) (hal : f % 4096 = 0)
    (hflags : flags < 2 ^ 10) : Pte.getAddress (Pte.write f flags) = f := by
  have hmask : (0xfff : Nat) = 2 ^ 12 - 1 := by decide
  rw [Pte.getAddress, Pte.toNat_write hf hflags, Nat.shiftLeft_eq, hmask,
    and_notU64_two_pow_sub_one (by omega) (by decide)]
  omega

namespace AddressSpace

theorem page_mapExact (h : AddressSpace cfg s root bound) (hbound : bound ≤ 2 ^ 48)
    {vaddr page flags : Nat} (hv : vaddr < bound) (hal : page % 4096 = 0) (hpage : page < 2 ^ 47)
    (hflags : flags < 2 ^ 10) : Page.MapExact cfg s root bound page vaddr flags := by
  obtain ⟨l, t, hend⟩ := Radix.exists_end sv48 s.mem 3 root vaddr
  have hmap := pageMap_of_live (h.live hv) hend page flags
  have hfind := h.find_of_end hv hend
  have hflags' : flags ||| pageV < 2 ^ 10 := Nat.or_lt_two_pow hflags (by decide)
  refine ⟨⟨fun ⟨s', hs'⟩ => ?_, fun ⟨a, pte, hpte, hinvalid⟩ => ?_⟩, fun e s' hs' => ?_,
    fun s' hs' => ?_, fun s' hs' u hu hne => ?_⟩
  · obtain ⟨t', hend', hinvalid, -⟩ := h.page_map_ok hv hs'
    exact ⟨_, _, h.find_of_end hv hend', hinvalid⟩
  · rw [hfind] at hpte
    cases hpte
    rw [hmap, if_neg (absurd rfl), hinvalid]
    exact ⟨_, rfl⟩
  · rw [hmap] at hs'
    split at hs'
    · exact (EStateM.Result.error.inj hs').2.symm
    · split at hs'
      · exact (EStateM.Result.error.inj hs').2.symm
      · cases hs'
  · obtain ⟨t', hend', -, rfl⟩ := h.page_map_ok hv hs'
    refine ⟨entry t' (getVpn vaddr 0), _, ?_, Pte.isValid_write_or page flags,
      Pte.getAddress_write hpage hal hflags', Pte.toNat_write hpage hflags'⟩
    rw [(h.setPage hv hend' page flags).find_eq hv]
    exact congrArg _ (h.tree.unshared.lookup_setLeaf_self hv hend')
  · obtain ⟨t', hend', -, rfl⟩ := h.page_map_ok hv hs'
    exact h.find_setWord_of_ne hbound hv hend' (h.setPage hv hend' page flags) hu hne

theorem table_mapExact (h : AddressSpace cfg s root bound) (hbound : bound ≤ 2 ^ 48)
    {vaddr table : Nat} (hv : vaddr < bound) (hy : SpareTable cfg s root bound table) :
    PageTable.MapExact cfg s root bound table vaddr := by
  obtain ⟨l, t, hend⟩ := Radix.exists_end sv48 s.mem 3 root vaddr
  have hmap := tableMap_of_live (h.live hv) hend table
  have hfind := h.find_of_end hv hend
  refine ⟨⟨fun ⟨level, s', hs'⟩ => ?_, fun ⟨level, a, pte, hpte⟩ => ?_⟩, fun e s' hs' => ?_,
    fun level s' hs' => ?_, fun level s' hs' u hu hne => ?_⟩
  · obtain ⟨t', hend', -⟩ := h.table_map_ok hv hs'
    exact ⟨level, _, _, h.find_of_end hv hend'⟩
  · rw [hfind] at hpte
    cases hpte
    exact ⟨_, _, hmap⟩
  · rw [hmap] at hs'
    split at hs'
    · exact (EStateM.Result.error.inj hs').2.symm
    · cases hs'
  · obtain ⟨t', hend', rfl⟩ := h.table_map_ok hv hs'
    refine ⟨⟨_, _, h.find_of_end hv hend'⟩, ?_⟩
    rw [(h.link hv hend' hy).find_eq hv]
    exact congrArg _
      (h.tree.unshared.lookup_link_of_agree hv hend' hy.spare hy.next_write hv fun _ _ _ => rfl)
  · obtain ⟨t', hend', rfl⟩ := h.table_map_ok hv hs'
    exact h.find_setWord_of_ne hbound hv hend' (h.link hv hend' hy) hu hne

end AddressSpace

/-- **`Page::map` and `PageTable::map` are exact updates of the address space.** In a root table
whose reachable tables form a tree, for an address in the user half: `bound` is the end of the
addresses that are looked at, from the user half up to all 48 bits. -/
theorem map_exact (h : AddressSpace cfg s root bound) (hlow : 2 ^ 47 ≤ bound)
    (hhigh : bound ≤ 2 ^ 48) {vaddr : Nat} (hv : vaddr < 2 ^ 47) :
    (∀ page flags, page % 4096 = 0 → page < 2 ^ 47 → flags < 2 ^ 10 →
      Page.MapExact cfg s root bound page vaddr flags) ∧
    ∀ table, SpareTable cfg s root bound table →
      PageTable.MapExact cfg s root bound table vaddr :=
  ⟨fun _ _ hal hpage hflags => h.page_mapExact hhigh (hv.trans_le hlow) hal hpage hflags,
    fun _ hy => h.table_mapExact hhigh (hv.trans_le hlow) hy⟩

/-! ### Three tables below a root -/

def demoTable (i : Nat) : Nat := 0x80400000 + 4096 * i

/-- Five page tables, all zero. -/
def demoTables : KState :=
  { KState.afterVmInit .virt with
    mem := fun _ => 0
    objects := (List.range 5).map fun i => ⟨.pageTable, demoTable i, 0, 4096⟩ }

/-- Table `i + 1` is linked at the first entry of table `i`. -/
def linkDemo (s : KState) (i : Nat) : KState :=
  s.setWord (entry (demoTable i) 0) (Pte.write (demoTable (i + 1)) pageV)

/-- The walk of address 0 goes from table 0 through the tables 1 and 2 to table 3. -/
def demoSpace : KState := linkDemo (linkDemo (linkDemo demoTables 0) 1) 2

theorem demoTables_spare {i : Nat} (h0 : 0 < i) (h5 : i < 5) :
    SpareTable .virt demoTables (demoTable 0) (2 ^ 48) (demoTable i) where
  spare := Radix.spare_of_empty (fun _ _ => rfl) (by change _ % _ = _; rw [demoTable]; omega)
    (by rw [demoTable, demoTable]; omega) fun _ _ => rfl
  live := KState.liveTable_of_mem (o := ⟨.pageTable, demoTable i, 0, 4096⟩)
    (List.mem_map.2 ⟨i, List.mem_range.2 h5, rfl⟩) rfl rfl
  lt := by rw [demoTable]; omega

/-- What holds after the tables up to `i` are linked. -/
structure DemoLinked (s : KState) (i : Nat) : Prop where
  space : AddressSpace .virt s (demoTable 0) (2 ^ 48)
  walk : Radix.End sv48 s.mem 3 (demoTable 0) 0 (3 - i) (demoTable i)
  spare : ∀ k, i < k → k < 5 → SpareTable .virt s (demoTable 0) (2 ^ 48) (demoTable k)

theorem demoLinked_zero : DemoLinked demoTables 0 where
  space := ⟨Radix.isTree_of_empty (fun _ _ => rfl) rfl, fun hv hr => by
    obtain ⟨-, rfl⟩ := Radix.reach_of_empty (S := {v | v < 2 ^ 48}) (fun _ _ => rfl) hv hr
    exact KState.liveTable_of_mem (o := ⟨.pageTable, demoTable 0, 0, 4096⟩)
      (List.mem_map.2 ⟨0, by decide, rfl⟩) rfl rfl⟩
  walk := Radix.end_of_empty (S := Set.univ) (fun _ _ => rfl) trivial
  spare _ := demoTables_spare

theorem DemoLinked.link {i : Nat} (h : DemoLinked s i) (hi : i < 3) :
    DemoLinked (linkDemo s i) (i + 1) := by
  obtain ⟨l, hl⟩ : ∃ l, 3 - i = l + 1 := ⟨3 - i - 1, by omega⟩
  have hend := h.walk
  rw [hl] at hend
  have hv : 0 < 2 ^ 48 := by decide
  have hy := h.spare (i + 1) (by omega) (by omega)
  have hentry : entry (demoTable i) 0 = entry (demoTable i) (getVpn 0 (l + 1)) := by
    rw [getVpn_eq, Nat.zero_div]
  rw [linkDemo, hentry]
  refine ⟨h.space.link hv hend hy, ?_, fun k hk hk5 => ?_⟩
  · rw [show 3 - (i + 1) = l by omega]
    exact h.space.tree.unshared.end_link hv hend hy.spare hy.next_write hv fun _ _ _ => rfl
  · exact h.space.spare_link hv hend hy (h.spare k (by omega) hk5)
      (by rw [demoTable, demoTable]; omega)

theorem demoSpace_linked : DemoLinked demoSpace 3 :=
  ((demoLinked_zero.link (by decide)).link (by decide)).link (by decide)

/-- A page is mapped at the second page, and a table is linked for the second 2 MiB. -/
theorem map_exact_demo : AddressSpace .virt demoSpace (demoTable 0) (2 ^ 48) ∧
    SpareTable .virt demoSpace (demoTable 0) (2 ^ 48) (demoTable 4) ∧
    Page.MapExact .virt demoSpace (demoTable 0) (2 ^ 48) 0x80500000 0x1000 0x16 ∧
    PageTable.MapExact .virt demoSpace (demoTable 0) (2 ^ 48) (demoTable 4) 0x200000 :=
  ⟨demoSpace_linked.space, demoSpace_linked.spare 4 (by decide) (by decide),
    (map_exact demoSpace_linked.space (by decide) (by decide) (by decide)).1 _ _
      (by decide) (by decide) (by decide),
    (map_exact demoSpace_linked.space (by decide) (by decide) (by decide)).2 _
      (demoSpace_linked.spare 4 (by decide) (by decide))⟩

end Zoeax
