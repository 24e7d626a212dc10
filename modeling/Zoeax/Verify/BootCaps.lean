import Zoeax.Verify.Accounts
import Zoeax.Verify.Sharing

/-!
# What the capabilities of boot say

`map_page_tables` puts the capability of a new table into its slot and maps the table after that:
`is_mapped` is set in a copy that is then dropped. So the table is in the address space of the root
server, and the capability in the slot says that it is in none.

- `TellsTruth`: the capabilities in the slots say what the page tables say;
- `Pristine`: the address space as `make_as_root` left it. No walk in it gets to level 0
  (`Pristine.stop`), so a page needs a table first;
- `Untold`: some table is linked, and the capability in its slot is not mapped;
- `not_tellsTruth_of_boot`: that is how every boot ends.
-/

namespace Zoeax

open Lib Exec
open PageTable (entry)

variable {cfg : Config} {s s' : KState} {root : Nat}

/-! ## The property -/

/-- The table at `f` is the one at `root`, or entries lead from there to it. -/
def KState.Linked (cfg : Config) (s : KState) (root f : Nat) : Prop :=
  Relation.ReflTransGen (fun g f => ∃ i, s.Refers cfg g i f) root f

/-- The entry for the page of `v` is there and leads to the frame at `f`. -/
def KState.MapsTo (cfg : Config) (s : KState) (root v f : Nat) : Prop :=
  ∃ a, PageTable.walk cfg root v s = .ok (0, a) ∧ Pte.isValid (s.mem a) = true ∧
    Pte.target (s.mem a) = f

/-- The capability of every table of an address space is marked as mapped, and that of every page is
marked as mapped at the page whose entry leads to it, and at no other. -/
structure TellsTruth (cfg : Config) (s : KState) : Prop where
  tables : ∀ p c, s.isSlot p = true → s.capAt p = some c → c.getCapType = .ok .pageTable →
    ∀ root ∈ s.rooted, s.Linked cfg root c.getFrame → c.isMapped = true
  pages : ∀ p c, s.isSlot p = true → s.capAt p = some c → c.getCapType = .ok .page →
    ∀ root ∈ s.rooted, c.isMapped = true ∧
      ∀ v < 2 ^ 48, c.MarkedAt v ↔ s.MapsTo cfg root v c.getFrame

/-! ## The tables of the kernel -/

/-- There is neither memory for objects nor a static table at `f`. -/
def Config.Vacant (cfg : Config) (f : Nat) : Prop :=
  (f < cfg.freeRam ∨ cfg.freeRamEnd ≤ f) ∧ f ≠ imagePhys cfg.kernelVmRoot ∧
    f ≠ imagePhys cfg.lv2Table

/-- The large pages that `kernel_vm_init` maps do not begin where a table can be. A walk goes on
from the entry of such a page as if the page was a table. -/
structure Config.LeavesApart (cfg : Config) : Prop where
  direct : ∀ p ∈ stepBy 0 cfg.freeRamEnd (2 ^ 39), cfg.Vacant p
  image : ∀ v ∈ stepBy (cfg.text &&& notU64 (2 ^ 30 - 1)) cfg.dataEnd (2 ^ 30),
    cfg.Vacant (imagePhys v)

namespace Config.Vacant

variable {f : Nat}

theorem readPte_ne (h : cfg.Vacant f) (hf : f % 4096 = 0) (hwf : HeapWF cfg s) {i : Nat}
    (hi : i < 512) (w : UInt64) : readPte cfg (entry f i) s ≠ .ok w := by
  obtain ⟨hram, hroot, hlv2⟩ := h
  have hframe : s.isFrame (entry f i) = false := by
    by_contra hframe
    obtain ⟨o, ho, hin⟩ := List.any_eq_true.1 (Bool.not_eq_false _ ▸ hframe)
    simp only [Object.hasFrame, Bool.and_eq_true, Bool.or_eq_true, decide_eq_true_eq] at hin
    obtain ⟨⟨hk, hle⟩, hlt⟩ := hin
    have := hwf.frame_bounds ho hk
    rw [entry] at hle hlt
    omega
  have hstatic : cfg.isStaticTable (entry f i) = false := by
    have := cfg.kernelVmRoot_aligned
    have := cfg.lv2Table_aligned
    rw [← Bool.not_eq_true, isStaticTable_iff, entry]
    omega
  intro h
  simp only [readPte, Query.bind_ok, Query.read_ok, exists_eq_left', hframe, hstatic, Bool.or_false,
    Bool.false_eq_true, if_false] at h
  exact Query.throw_ok.1 h

theorem walkFrom_ne (h : cfg.Vacant f) (hf : f % 4096 = 0) (hwf : HeapWF cfg s) (level v : Nat)
    (r : Nat × Nat) : PageTable.walkFrom cfg (level + 1) f v s ≠ .ok r := by
  intro hwalk
  simp only [PageTable.walkFrom, Query.bind_ok] at hwalk
  obtain ⟨w, hread, -⟩ := hwalk
  exact h.readPte_ne hf hwf (getVpn_lt ..) w hread

end Config.Vacant

/-- No walk goes on from an entry of the kernel's tables, other than the one that leads to the
second table. -/
theorem Config.LeavesApart.walkFrom_ne (h : cfg.LeavesApart) (hwf : HeapWF cfg s) {a : Nat}
    (ha : a ≠ entry (imagePhys cfg.kernelVmRoot) 511)
    (hvalid : Pte.isValid (kernelVmWords cfg (fun _ => 0) a) = true) (level v : Nat)
    (r : Nat × Nat) :
    PageTable.walkFrom cfg (level + 1) (Pte.target (kernelVmWords cfg (fun _ => 0) a)) v s ≠
      .ok r := by
  obtain ⟨f, hword, hlt, hal, hf⟩ := kernelVmWords_valid ha hvalid
  have hvacant : cfg.Vacant f := by
    rcases hf with hf | ⟨v, hv, rfl⟩
    · exact h.direct f hf
    · exact h.image v hv
  rw [hword, Pte.target_write hlt hal (by decide)]
  exact hvacant.walkFrom_ne hal hwf level v r

/-! ## Links stay -/

theorem KState.Linked.mono {f : Nat} (h : s.Linked cfg root f)
    (hobj : ∀ o ∈ s.objects, o ∈ s'.objects)
    (hpte : ∀ g i, s.IsAnyTable cfg g → i < 512 → Pte.isValid (s.pte g i) = true →
      s'.pte g i = s.pte g i) : s'.Linked cfg root f := by
  have hrefers : ∀ g f, (∃ i, s.Refers cfg g i f) → ∃ i, s'.Refers cfg g i f := by
    rintro g f ⟨i, hg, hi, hpointer, htarget⟩
    have hword := hpte g i hg hi (Pte.isValid_of_isPointer hpointer)
    rw [← hword] at hpointer htarget
    refine ⟨i, hg.imp_left fun htable => ?_, hi, hpointer, htarget⟩
    obtain ⟨o, ho, hk, rfl⟩ := KState.isTable_iff.1 htable
    exact KState.isTable_iff.2 ⟨o, hobj o ho, hk, rfl⟩
  exact Relation.ReflTransGen.mono hrefers root f h

theorem pte_setWord_of_free {a g i : Nat} (hfree : Pte.isValid (s.mem a) = false) (w : UInt64)
    (hvalid : Pte.isValid (s.pte g i) = true) : (s.setWord a w).pte g i = s.pte g i := by
  refine KState.mem_setWord_of_ne s ?_ w
  rintro rfl
  exact absurd hvalid (by rw [KState.pte, hfree]; decide)

theorem KState.Linked.setWord {f a : Nat} (h : s.Linked cfg root f)
    (hfree : Pte.isValid (s.mem a) = false) (w : UInt64) : (s.setWord a w).Linked cfg root f :=
  h.mono (fun _ ho => ho) fun _ _ _ _ => pte_setWord_of_free hfree w

/-- Some table below `root` has a capability in a slot that is not mapped. -/
structure Untold (cfg : Config) (root : Nat) (s : KState) : Prop where
  heap : HeapWF cfg s
  rooted : root ∈ s.rooted
  cap : ∃ p c, s.isSlot p = true ∧ s.capAt p = some c ∧ c.getCapType = .ok .pageTable ∧
    c.isMapped = false ∧ s.Linked cfg root c.getFrame

namespace Untold

theorem not_tellsTruth (h : Untold cfg root s) : ¬ TellsTruth cfg s := by
  intro htruth
  obtain ⟨p, c, hp, hc, hk, hm, hlinked⟩ := h.cap
  exact absurd (htruth.tables p c hp hc hk root h.rooted hlinked) (by rw [hm]; decide)

/-- Objects, roots, capabilities and valid entries stay. -/
theorem mono (h : Untold cfg root s) (hwf : HeapWF cfg s') (hobj : ∀ o ∈ s.objects, o ∈ s'.objects)
    (hrooted : s'.rooted = s.rooted)
    (hcaps : ∀ p c, s.isSlot p = true → s.capAt p = some c → s'.capAt p = some c)
    (hpte : ∀ g i, s.IsAnyTable cfg g → i < 512 → Pte.isValid (s.pte g i) = true →
      s'.pte g i = s.pte g i) : Untold cfg root s' where
  heap := hwf
  rooted := hrooted ▸ h.rooted
  cap := by
    obtain ⟨p, c, hp, hc, hk, hm, hlinked⟩ := h.cap
    obtain ⟨o, ho, hslot⟩ := List.any_eq_true.1 hp
    exact ⟨p, c, List.any_eq_true.2 ⟨o, hobj o ho, hslot⟩, hcaps p c hp hc, hk, hm,
      hlinked.mono hobj hpte⟩

/-- Threads and queues do not matter. -/
theorem of_eq (h : Untold cfg root s) (hwf : HeapWF cfg s') (hobj : s'.objects = s.objects)
    (hrooted : s'.rooted = s.rooted) (hmem : s'.mem = s.mem)
    (hcaps : ∀ p c, s.isSlot p = true → s.capAt p = some c → s'.capAt p = some c) :
    Untold cfg root s' :=
  h.mono hwf (fun _ ho => hobj ▸ ho) hrooted hcaps fun _ _ _ _ _ => congrFun hmem _

/-- A page is written. -/
theorem setPage (h : Untold cfg root s) {f : Nat} (hf : s.isObject .page f = true)
    {mem : Nat → UInt64} (hmem : ∀ a, a < f ∨ f + 4096 ≤ a → mem a = s.mem a) :
    Untold cfg root { s with mem := mem } := by
  obtain ⟨o, ho, hk, rfl⟩ := KState.isObject_iff.1 hf
  exact h.mono (h.heap.of_eq rfl rfl) (fun _ ho => ho) rfl (fun _ _ _ hc => hc)
    fun g i hg hi _ => hmem _ (h.heap.entry_apart ho hk hg hi)

/-- A capability goes into an empty slot. -/
theorem setSlot (h : Untold cfg root s) {p : Nat} (hnone : s.slots p = none)
    (e : Option CNodeEntry) : Untold cfg root (s.setSlot p e) := by
  refine h.of_eq (h.heap.of_eq rfl rfl) rfl rfl rfl fun q c _ hc => ?_
  rw [KState.capAt_setSlot, if_neg, hc]
  rintro rfl
  rw [KState.capAt, hnone] at hc
  cases hc

/-- An entry that was free is written. -/
theorem setWord (h : Untold cfg root s) {a : Nat} (hfree : Pte.isValid (s.mem a) = false)
    (w : UInt64) : Untold cfg root (s.setWord a w) :=
  h.mono (h.heap.of_eq rfl rfl) (fun _ ho => ho) rfl (fun _ _ _ hc => hc)
    fun _ _ _ _ => pte_setWord_of_free hfree w

/-- A page or a page table is made. -/
theorem create (h : Untold cfg root s) {o : Object} (ho : o.Fresh cfg s)
    (hk : o.kind = .page ∨ o.kind = .pageTable) :
    Untold cfg root { s with objects := o :: s.objects } := by
  have hc := Creates.alone ho hk
  exact h.mono (hc.wf h.heap) hc.mono rfl (fun _ _ _ hc => hc) fun _ _ _ _ _ => rfl

end Untold

/-! ## The address space before the first table -/

/-- The static tables are as `kernel_vm_init` left them, and there is no capability for a page. -/
structure Bare (cfg : Config) (s : KState) : Prop where
  heap : HeapWF cfg s
  static : ∀ a, cfg.isStaticTable a = true → s.mem a = kernelVmWords cfg (fun _ => 0) a
  noPages : ∀ p c, s.capAt p = some c → c.getCapType ≠ .ok .page

/-- The root is a copy of `KERNEL_VM_ROOT`, and nothing is mapped below it. -/
structure Pristine (cfg : Config) (root : Nat) (s : KState) : Prop extends Bare cfg s where
  table : s.IsTable root
  rooted : root ∈ s.rooted
  copied : ∀ i < 512, s.pte root i = s.pte (imagePhys cfg.kernelVmRoot) i

/-- A capability that is not for a page goes into a slot. -/
theorem Bare.setSlot (h : Bare cfg s) (p : Nat) {cap : CapabilityData}
    (hcap : cap.getCapType ≠ .ok .page) : Bare cfg (s.setSlot p (some (.newWithRawcap cap))) where
  heap := h.heap.of_eq rfl rfl
  static := h.static
  noPages q c hc := by
    rw [KState.capAt_setSlot] at hc
    split at hc
    · obtain rfl := Option.some.inj hc
      exact hcap
    · exact h.noPages q c hc

namespace Pristine

theorem word (h : Pristine cfg root s) {i : Nat} (hi : i < 512) : s.mem (entry root i) =
    kernelVmWords cfg (fun _ => 0) (entry (imagePhys cfg.kernelVmRoot) i) :=
  (h.copied i hi).trans (h.static _ (isStaticTable_root hi))

theorem linked_lv2Table (h : Pristine cfg root s) : s.Linked cfg root (imagePhys cfg.lv2Table) := by
  have hword := h.word (by decide : 511 < 512)
  refine .single ⟨511, .inl h.table, by decide, ?_, ?_⟩ <;> rw [KState.pte, hword]
  · rw [kernelVmWords_pointer]
    exact Pte.isPointer_write (imagePhys_lt _)
  · exact target_pointer _

/-- A walk ends at an entry of the root or of the second table of the kernel. -/
theorem stop (h : Pristine cfg root s) {v level a : Nat} (hv : cfg.LeavesApart ∨ v < 2 ^ 47)
    (hwalk : PageTable.walk cfg root v s = .ok (level, a)) :
    ∃ g i, s.IsAnyTable cfg g ∧ s.Linked cfg root g ∧ i < 512 ∧ a = entry g i ∧ level ≠ 0 := by
  have hvpn := getVpn_lt v 3
  simp only [PageTable.walk, PageTable.walkFrom, Query.bind_ok] at hwalk
  obtain ⟨pte, hread, hwalk⟩ := hwalk
  obtain rfl : pte = _ := (readPte_ok hread).trans (h.word hvpn)
  split at hwalk
  · next hvalid =>
    rcases hv with hcfg | hv
    swap
    · -- the lower half of the root is empty
      rw [kernelVmWords_lower _ (by rw [getVpn_eq]; omega)] at hvalid
      cases hvalid
    by_cases hlast : getVpn v 3 = 511
    · -- the walk goes on to the second table, and no further
      have hvpn₂ := getVpn_lt v 2
      change PageTable.walkFrom cfg 2 (Pte.target _) v s = _ at hwalk
      rw [hlast, target_pointer] at hwalk
      simp only [PageTable.walkFrom, Query.bind_ok] at hwalk
      obtain ⟨pte, hread, hwalk⟩ := hwalk
      obtain rfl : pte = _ := (readPte_ok hread).trans (h.static _ (isStaticTable_lv2Table hvpn₂))
      split at hwalk
      · next hvalid =>
        exact absurd hwalk (hcfg.walkFrom_ne h.heap (cfg.lv2_entry_ne hvpn₂ (by decide))
          hvalid 0 v _)
      · obtain ⟨rfl, rfl⟩ := Prod.mk.inj (Query.pure_ok.1 hwalk)
        exact ⟨_, _, .inr (.inr rfl), h.linked_lv2Table, hvpn₂, rfl, by decide⟩
    · have hne := cfg.root_entry_ne hvpn (by decide) hlast
      exact absurd hwalk (hcfg.walkFrom_ne h.heap hne hvalid 1 v _)
  · obtain ⟨rfl, rfl⟩ := Prod.mk.inj (Query.pure_ok.1 hwalk)
    exact ⟨root, _, .inl h.table, .refl, hvpn, rfl, by decide⟩

theorem create (h : Pristine cfg root s) {o : Object} (ho : o.Fresh cfg s)
    (hk : o.kind = .page ∨ o.kind = .pageTable) :
    Pristine cfg root { s with objects := o :: s.objects } := by
  have hc := Creates.alone ho hk
  obtain ⟨o', ho', hk', rfl⟩ := KState.isTable_iff.1 h.table
  exact { h with
    heap := hc.wf h.heap
    table := KState.isTable_iff.2 ⟨o', hc.mono o' ho', hk', rfl⟩ }

theorem setSlot (h : Pristine cfg root s) (p : Nat) {cap : CapabilityData}
    (hcap : cap.getCapType ≠ .ok .page) :
    Pristine cfg root (s.setSlot p (some (.newWithRawcap cap))) :=
  { h with toBare := h.toBare.setSlot p hcap }

/-- A page is written. -/
theorem setPage (h : Pristine cfg root s) {f : Nat} (hf : s.isObject .page f = true)
    {mem : Nat → UInt64} (hmem : ∀ a, a < f ∨ f + 4096 ≤ a → mem a = s.mem a) :
    Pristine cfg root { s with mem := mem } := by
  obtain ⟨o, ho, hk, rfl⟩ := KState.isObject_iff.1 hf
  have hword : ∀ g i, s.IsAnyTable cfg g → i < 512 → mem (entry g i) = s.mem (entry g i) :=
    fun g i hg hi => hmem _ (h.heap.entry_apart ho hk hg hi)
  refine ⟨⟨h.heap.of_eq rfl rfl, fun a ha => (hmem a ?_).trans (h.static a ha), h.noPages⟩,
    h.table, h.rooted, fun i hi => ?_⟩
  · have := h.heap.frame_bounds ho (.inl hk)
    have := static_apart ha
    omega
  · exact (hword _ _ (.inl h.table) hi).trans ((h.copied i hi).trans
      (hword _ _ (.inr (.inl rfl)) hi).symm)

/-- The first table is linked while its capability is not mapped. -/
theorem link (h : Pristine cfg root s) {o : Object} {p v level a : Nat} {cap : CapabilityData}
    (hv : cfg.LeavesApart ∨ v < 2 ^ 47) (ho : o.Fresh cfg s) (hk : o.kind = .pageTable)
    (hcap : cap.FreshFor o) (hl : level ≠ 0)
    (hp : { s with objects := o :: s.objects }.isSlot p = true)
    (hwalk : PageTable.walk cfg root v
      ({ s with objects := o :: s.objects }.setSlot p (some (.newWithRawcap cap))) =
        .ok (level, a)) :
    Untold cfg root (({ s with objects := o :: s.objects }.setSlot p
      (some (.newWithRawcap cap))).setWord a (Pte.write o.addr pageV)) := by
  have hpage : cap.getCapType ≠ .ok .page := by
    rw [hcap.capType, hk]
    decide
  have h₁ := (h.create ho (.inr hk)).setSlot p hpage
  obtain ⟨g, i, hg, hlinked, hi, rfl, -⟩ := h₁.stop hv hwalk
  have hfree := PageTable.not_isValid_of_walkFrom hwalk hl
  have hframe : cap.getFrame = o.addr := hcap.getFrame ho.admissible
  obtain ⟨-, hal, -, -⟩ := h₁.heap.frame_bounds (List.mem_cons_self ..) (.inr hk)
  have hlt : o.addr < 2 ^ 47 := (Object.lt_of_admissible ho.admissible).2.2.1
  refine ⟨h₁.heap.of_eq rfl rfl, h₁.rooted, p, cap, hp, ?_, hk ▸ hcap.capType,
    hcap.notMapped hk, ?_⟩
  · exact (KState.capAt_setSlot ..).trans (if_pos rfl)
  · rw [hframe]
    refine (hlinked.setWord hfree (Pte.write o.addr pageV)).tail ⟨i, hg, hi, ?_, ?_⟩ <;>
      rw [KState.pte, KState.mem_setWord_self]
    · exact Pte.isPointer_write hlt
    · exact Pte.target_write hlt hal (by decide)

theorem spaceRule {U : Nat → Prop} (hU : ∀ v, U v → cfg.LeavesApart ∨ v < 2 ^ 47) (root : Nat) :
    SpaceRule cfg root U fun s => Pristine cfg root s ∨ Untold cfg root s where
  create s o ho hk h := h.imp (·.create ho (.inl hk)) (·.create ho (.inl hk))
  link s o p cap vaddr level a ho hk hcap hv hl hp hnone hwalk h := by
    rcases h with h | h
    · exact .inr (h.link (hU vaddr hv) ho hk hcap hl hp hwalk)
    · exact .inr (((h.create ho (.inr hk)).setSlot hnone _).setWord
        (PageTable.not_isValid_of_walkFrom hwalk hl) _)
  page s o c p vaddr flags a hnew hv _ hwalk hfree hp hnone h := by
    rcases h with h | h
    · obtain ⟨-, -, -, -, -, -, hl⟩ := h.stop (hU vaddr hv) hwalk
      exact absurd rfl hl
    · exact .inr ((h.setWord hfree _).setSlot hnone _)
  fill s f src n hn hf h := by
    have hmem : ∀ a, a < f ∨ f + 4096 ≤ a → (s.copyBytes f src n).mem a = s.mem a := fun a ha =>
      if_neg (by rw [pageSize] at hn; omega)
    exact h.imp (·.setPage hf hmem) (·.setPage hf hmem)

theorem firstCNode : FirstCNode cfg (.afterVmInit cfg) (Bare cfg) := by
  intro o c p hk ho hc hp hnone
  have hwf : HeapWF cfg (.afterVmInit cfg) := heapWF_initial.of_eq rfl rfl
  have hcap : c.getCapType ≠ .ok .page := by
    rw [hc.capType, hk]
    decide
  have hbare : Bare cfg { KState.afterVmInit cfg with objects := [o] } :=
    ⟨heapWF_bootStable.toCapStable.create ho (.inl hk) hwf, fun _ _ => rfl, nofun⟩
  exact hbare.setSlot p hcap

theorem firstRoot : FirstRoot cfg (Bare cfg)
    fun root s => Pristine cfg root s ∨ Untold cfg root s := by
  intro s o c p ho hk hc hp hnone h
  have hlive : o ∈ (s.born o).objects := objects_born s o ▸ List.mem_cons_self ..
  have hwf := h.heap.born ho
  obtain ⟨-, -, hle, hend⟩ := hwf.frame_bounds hlive (.inr hk)
  have hapart : ∀ a, cfg.isStaticTable a = true → a < o.addr ∨ o.addr + 4096 ≤ a := fun a ha => by
    have := static_apart ha
    omega
  have hcap : (c.setMapped (toKernelV c.getAddress)).setRoot.getCapType ≠ .ok .page := by
    change c.getCapType ≠ _
    rw [hc.capType, hk]
    decide
  have hroot : Pristine cfg o.addr ((s.born o).madeRoot cfg o.addr) := by
    refine ⟨⟨hwf.of_eq rfl rfl, fun a ha => ?_, fun q d hd => ?_⟩, ?_, List.mem_cons_self ..,
      fun i hi => ?_⟩
    · have hne := hapart a ha
      rw [KState.mem_madeRoot_of_ne hne, mem_born_table ho hk, ← h.static a ha]
      exact if_neg (by rw [pageSize]; omega)
    · exact h.noPages q d ((capAt_born s o q).symm.trans hd)
    · exact KState.isTable_iff.2 ⟨o, hlive, hk, rfl⟩
    · rw [KState.pte_madeRoot_self hi]
      exact (KState.mem_madeRoot_of_ne (hapart _ (isStaticTable_root hi))).symm
  exact .inl (hroot.setSlot p hcap)

end Pristine

/-! ## The rest of boot -/

namespace Untold

theorem born (h : Untold cfg root s) {o : Object} (ho : o.Fresh cfg s) (hk : o.kind = .tcb) :
    Untold cfg root (s.born o) := by
  have hmem : (s.born o).mem = s.mem := mem_born s (by rw [hk]; decide)
  refine h.mono (h.heap.born ho) (fun o' ho' => ?_) (rooted_born s o) (fun p c _ hc => ?_)
    fun _ _ _ _ _ => congrFun hmem _
  · rw [objects_born]
    exact List.mem_cons_of_mem _ ho'
  · exact (capAt_born s o p).trans hc

theorem setTcb (h : Untold cfg root s) {p : Nat} {t : ThreadInfo} (ht : s.tcbs p = some t)
    (t' : ThreadInfo) : Untold cfg root (s.setTcb p t') :=
  h.of_eq (h.heap.setTcb t' ht) rfl rfl rfl fun _ _ _ hc => hc

theorem placeRule {P : CapProp} : PlaceRule cfg P fun s => ∃ root, Untold cfg root s where
  insert _ _ := keeps_insertAfter (fun _ _ _ ⟨root, h⟩ =>
    ⟨root, h.of_eq (h.heap.of_eq rfl rfl) rfl rfl rfl fun _ _ _ hc =>
      (KState.capAt_relink ..).trans hc⟩) ..
  newLocal _ site _ _ := fun ⟨root, h⟩ =>
    ⟨root, h.of_eq (h.heap.of_eq rfl rfl) rfl rfl rfl fun _ _ hq hc =>
      (KState.capAt_setSlot ..).trans
        ((if_neg (ne_localAddr (h.heap.not_isLocal hq) site)).trans hc)⟩
  place _ _ _ _ _ _ hnone := fun ⟨root, h⟩ => ⟨root, h.setSlot hnone _⟩
  born _ _ ho hk := fun ⟨root, h⟩ => ⟨root, h.born ho hk⟩
  regs _ _ _ _ _ ht _ := fun ⟨root, h⟩ => ⟨root, h.setTcb ht _⟩
  refill _ _ _ _ _ ht := fun ⟨root, h⟩ => ⟨root, h.setTcb ht _⟩

theorem threadStable (root : Nat) : ThreadStable (Untold cfg root) where
  tcb _ _ _ _ ht _ h := h.setTcb ht _
  queues _ _ _ _ h := h.of_eq (h.heap.of_eq rfl rfl) rfl rfl rfl fun _ _ _ hc => hc
  request _ _ h := h.of_eq (h.heap.of_eq rfl rfl) rfl rfl rfl fun _ _ _ hc => hc
  vspace _ _ h := h.of_eq (h.heap.of_eq rfl rfl) rfl rfl rfl fun _ _ _ hc => hc
  switch _ _ h := h.of_eq (h.heap.of_eq rfl rfl) rfl rfl rfl fun _ _ _ hc => hc
  copy s dst src hdst h := h.setPage hdst fun a ha => if_neg (by
    rw [ipcBufferWords, messageLen]
    omega)

/-- After boot there is such a table. -/
theorem of_boot {U : Nat → Prop} (hU : ∀ v, U v → cfg.LeavesApart ∨ v < 2 ^ 47) {image : Image}
    (himage : image.Within cfg U) (h : Boot cfg image s) : ∃ root, Untold cfg root s := by
  obtain ⟨thread, s₃, s₄, -, ⟨root, hs₃⟩, hres, hsched⟩ :=
    SpaceRule.boot (P := fun _ _ _ => True) (Pristine.spaceRule hU) placeRule .trivial
      Pristine.firstCNode Pristine.firstRoot
      (fun root s s' u hs hpage hidle => by
        rcases hs with hs | hs
        · obtain ⟨p, c, -, hc, hk⟩ := hpage
          exact absurd hk (hs.noPages p c hc)
        · obtain ⟨t, ht, rfl⟩ := createIdleThread_ok.1 hidle
          exact ⟨root, hs.of_eq ((hs.heap.setTcb _ ht).of_eq rfl rfl) rfl rfl rfl
            fun _ _ _ hc => hc⟩)
      (fun s f info hf ⟨root, hs⟩ =>
        ⟨root, hs.setPage hf fun a ha => if_neg (by rw [pageSize]; omega)⟩)
      himage h
  have hT : ThreadStable (Untold cfg root) := threadStable root
  exact ⟨root, hT.start hs₃ hres hsched⟩

end Untold

/-- **No boot ends with capabilities that tell the truth.** The pages need page tables, and the
capabilities of these are not mapped. The address space may be in the lower half, or the large pages
of the kernel apart from the tables. -/
theorem not_tellsTruth_of_boot {image : Image} (hcfg : cfg.LeavesApart ∨ image.InUserHalf)
    (h : Boot cfg image s) : ¬ TellsTruth cfg s := by
  have huntold : ∃ root, Untold cfg root s := by
    rcases hcfg with hcfg | himage
    · exact Untold.of_boot (fun _ _ => .inl hcfg) image.within_trivial h
    · exact Untold.of_boot (fun _ hv => .inr hv) himage.within h
  obtain ⟨root, hs⟩ := huntold
  exact hs.not_tellsTruth

instance (f : Nat) : Decidable (cfg.Vacant f) := by
  unfold Config.Vacant
  infer_instance

theorem not_tellsTruth_virt : Config.virt.LeavesApart ∧
    ∃ s, Boot .virt demoImage s ∧ ¬ TellsTruth .virt s := by
  have hcfg : Config.virt.LeavesApart := ⟨by decide, by decide⟩
  obtain ⟨s, hboot, -⟩ := exists_boot .virt demoImage (fun _ => true) (by decide +kernel)
  exact ⟨hcfg, s, hboot, not_tellsTruth_of_boot (.inl hcfg) hboot⟩

/-- The capability in slot 6 is that of the table below entry 0 of the root, and it is not mapped.
`PageTableMap` maps the table a second time, below entry 1. -/
theorem table_mapped_twice : ∃ s₀ s root f, Boot .virt demoImage s₀ ∧ ¬ TellsTruth .virt s₀ ∧
    root ∈ s₀.rooted ∧ Step .virt s₀ (.trap (mapTableRegs 6 3 0x8000000000)) s ∧
    s.Refers .virt root 0 f ∧ s.Refers .virt root 1 f := by
  let leads (s : KState) (i : Nat) : Bool :=
    s.isObject .pageTable 2160066560 && s.pte 2160066560 i = Pte.write 2160082944 pageV
  have hrefers : ∀ s i, i < 512 → leads s i = true →
      s.Refers .virt 2160066560 i 2160082944 := fun s i hi h => by
    simp only [leads, Bool.and_eq_true, decide_eq_true_eq] at h
    obtain ⟨htable, hword⟩ := h
    exact ⟨.inl htable, hi, by rw [hword]; decide, by rw [hword]; decide⟩
  obtain ⟨s₀, hboot, htest⟩ := exists_boot .virt demoImage
    (fun s => s.rooted.contains 2160066560 && leads s 0 && s.isSlot (rootSlot 6) &&
      (s.capAt (rootSlot 6)).any (fun c => c.getCapType = .ok .pageTable && !c.isMapped &&
        c.getFrame = 2160082944) &&
      (Event.trap (mapTableRegs 6 3 0x8000000000)).Enabled s &&
      endsIn (kernelTrap .virt (mapTableRegs 6 3 0x8000000000) s) fun s => leads s 0 && leads s 1)
    (by decide +kernel)
  simp only [Bool.and_eq_true, List.contains_iff_mem, decide_eq_true_eq] at htest
  obtain ⟨⟨⟨⟨⟨hroot, hlink⟩, hslot⟩, hcap⟩, hen⟩, hmap⟩ := htest
  obtain ⟨c, hc, hcap⟩ := (Option.any_eq_true ..).1 hcap
  simp only [Bool.and_eq_true, decide_eq_true_eq, Bool.not_eq_true'] at hcap
  obtain ⟨⟨hk, hm⟩, hframe⟩ := hcap
  obtain ⟨_, s, hexec, htwice⟩ := exists_of_endsIn hmap
  obtain ⟨hfirst, hsecond⟩ := Bool.and_eq_true_iff.1 htwice
  refine ⟨s₀, s, 2160066560, 2160082944, hboot, fun htruth => ?_, hroot, ⟨hen, hexec⟩,
    hrefers s 0 (by decide) hfirst, hrefers s 1 (by decide) hsecond⟩
  have hlinked : s₀.Linked .virt 2160066560 c.getFrame :=
    hframe ▸ .single ⟨0, hrefers s₀ 0 (by decide) hlink⟩
  exact absurd (htruth.tables _ c hslot hc hk _ hroot hlinked) (by rw [hm]; decide)

end Zoeax
