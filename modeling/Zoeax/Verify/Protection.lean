import Zoeax.Verify.Accounts
import Zoeax.Verify.Allocation
import Zoeax.Verify.Authority
import Zoeax.Verify.Held
import Zoeax.Verify.KernelMap
import Zoeax.Verify.Privilege
import Zoeax.Verify.Tlb

/-!
# What user programs can reach

A user program reaches memory through the translations of the active address space that have the
user bit. The kernel sets this bit in the entries of pages only: entries for user addresses are
links to page tables or entries of pages (`Entries`), and the kernel's own entries, which are part
of every address space, do not have it.

The events of the model let a user program store to any page. `reach_of_machineRun` starts from the
machine instead: stores go where a cached translation leads, a stale one too, and supervisor mode
may use them all. In every run, the translations with the user bit are those of pages, every store
is to a page, and the run of the machine is one of the model.
-/

namespace Zoeax

open Lib Exec
open PageTable (entry)
open Sv48 (Translation)

variable {cfg : Config} {s s' : KState}

/-! ## Entries for user addresses -/

/-- A link to a page table, or the entry of a page; the frame is in `R`. -/
inductive Pte.Known (R : Nat → Prop) (s : KState) (pte : UInt64) : Prop
  | link {g : Nat} (frame : R g) (live : s.IsTable g) (eq : pte = Pte.write g pageV)
  | page {f flags : Nat} (frame : R f) (live : s.isObject .page f = true) (lt : flags < 2 ^ 10)
    (eq : pte = Pte.write f flags)

/-- Valid entries for user addresses lead to page tables or pages, and from the table at `f` only to
frames `g` with `R f g`. -/
def Entries (R : Nat → Nat → Prop) (s : KState) : Prop :=
  ∀ f, s.IsTable f → ∀ i < 512, (f ∈ s.rooted → i < 256) → Pte.isValid (s.pte f i) = true →
    Pte.Known (R f) s (s.pte f i)

theorem Pte.Known.mono {R : Nat → Prop} (hobj : ∀ o ∈ s.objects, o ∈ s'.objects) {pte : UInt64}
    (h : Pte.Known R s pte) : Pte.Known R s' pte := by
  cases h with
  | link frame live eq => exact .link frame (KState.isObject_mono hobj live) eq
  | page frame live lt eq => exact .page frame (KState.isObject_mono hobj live) lt eq

theorem Pte.Known.imp {R R' : Nat → Prop} {pte : UInt64} (h : Pte.Known R s pte)
    (hR : ∀ f, R f → R' f) : Pte.Known R' s pte := by
  cases h with
  | link frame live eq => exact .link (hR _ frame) live eq
  | page frame live lt eq => exact .page (hR _ frame) live lt eq

theorem Pte.Known.of_eq {R : Nat → Prop} {pte : UInt64} (h : Pte.Known R s pte)
    (hobj : s'.objects = s.objects) : Pte.Known R s' pte :=
  h.mono fun _ ho => hobj ▸ ho

/-- A page is no table. -/
theorem HeapWF.page_not_table (hwf : HeapWF cfg s) {f : Nat} (hf : s.isObject .page f = true) :
    ¬ s.IsTable f := fun ht => by
  obtain ⟨o, ho, hk, rfl⟩ := KState.isObject_iff.1 hf
  have := hwf.page_apart ho hk ht
  omega

namespace Entries

variable {R : Nat → Nat → Prop}

/-- The tables are as they were, and new ones are empty. -/
theorem congr (hs : Entries R s) (hobj : ∀ o ∈ s.objects, o ∈ s'.objects)
    (hrooted : s'.rooted = s.rooted)
    (hnew : ∀ f, s'.IsTable f → s.IsTable f ∨ ∀ i < 512, s'.pte f i = 0)
    (hpte : ∀ f, s.IsTable f → ∀ i < 512, s'.pte f i = s.pte f i) : Entries R s' := by
  intro f hf i hi hhalf hvalid
  rcases hnew f hf with hf | hzero
  · rw [hpte f hf i hi] at hvalid ⊢
    exact (hs f hf i hi (by rwa [hrooted] at hhalf) hvalid).mono hobj
  · rw [hzero i hi, Pte.not_isValid_zero] at hvalid
    cases hvalid

theorem of_eq (hs : Entries R s) (hobj : s'.objects = s.objects) (hrooted : s'.rooted = s.rooted)
    (hmem : s'.mem = s.mem) : Entries R s' := by
  refine hs.congr (fun o ho => hobj ▸ ho) hrooted (fun f hf => .inl ?_) fun f _ i _ => ?_
  · rwa [KState.IsTable, KState.isObject, hobj] at hf
  · rw [KState.pte, hmem, KState.pte]

/-- The memory of a page changes. -/
theorem setPage (hs : Entries R s) (hwf : HeapWF cfg s) {f : Nat} (hf : s.isObject .page f = true)
    {mem : Nat → UInt64} (hmem : ∀ a, a < f ∨ f + 4096 ≤ a → mem a = s.mem a) :
    Entries R { s with mem } := by
  obtain ⟨o, ho, hk, rfl⟩ := KState.isObject_iff.1 hf
  refine hs.congr (fun _ ho => ho) rfl (fun _ hf => .inl hf) fun g hg i hi => hmem _ ?_
  have := hwf.page_apart ho hk hg
  rw [entry]
  omega

theorem born (hs : Entries R s) (hwf : HeapWF cfg s) {o : Object} (ho : o.Fresh cfg s) :
    Entries R (s.born o) := by
  refine hs.congr (fun o' ho' => objects_born s o ▸ List.mem_cons_of_mem _ ho') (rooted_born s o)
    (fun f hf => ?_) fun f hf i hi => hwf.pte_born ho hf hi
  obtain ⟨o', ho', hk, rfl⟩ := KState.isTable_iff.1 hf
  rw [objects_born, List.mem_cons] at ho'
  rcases ho' with rfl | ho'
  · refine .inr fun i hi => ?_
    rw [KState.pte, mem_born_table ho hk]
    refine if_pos ?_
    rw [entry, pageSize]
    omega
  · exact .inl (KState.isTable_iff.2 ⟨o', ho', hk, rfl⟩)

/-- An entry of a table is written. -/
theorem setWord (hs : Entries R s) (hwf : HeapWF cfg s) {g i : Nat} (hg : s.IsTable g)
    (hi : i < 512) {w : UInt64} (hw : Pte.isValid w = true → Pte.Known (R g) s w) :
    Entries R (s.setWord (entry g i) w) := by
  intro f hf j hj hhalf hvalid
  by_cases hself : f = g ∧ j = i
  · obtain ⟨rfl, rfl⟩ := hself
    have hword : (s.setWord (entry f j) w).pte f j = w := Function.update_self ..
    rw [hword] at hvalid ⊢
    exact (hw hvalid).of_eq rfl
  · have hother := Paging.setWord_of_ne (w := w) hwf hg hi hf hj hself
    rw [hother] at hvalid ⊢
    exact (hs f hf j hj hhalf hvalid).of_eq rfl

/-- A table becomes a root. -/
theorem makeRoot {lvl : Nat → Option Nat} (hs : Entries R s) (hp : Paging cfg lvl s)
    (hwf : HeapWF cfg s) {y : Nat} (hy : s.IsTable y) : Entries R (s.madeRoot cfg y) := by
  intro f hf i hi hhalf hvalid
  by_cases hfy : f = y
  · subst hfy
    have hroot : f ∈ (s.madeRoot cfg f).rooted := List.mem_cons_self ..
    rw [KState.pte_madeRoot_self hi, hp.root_lower (hhalf hroot), Pte.not_isValid_zero] at hvalid
    cases hvalid
  · have hpte : (s.madeRoot cfg y).pte f i = s.pte f i := by
      refine KState.mem_madeRoot_of_ne ?_
      have h₁ := (hwf.table_bounds hf).1
      have h₂ := (hwf.table_bounds hy).1
      rw [entry]
      omega
    rw [hpte] at hvalid ⊢
    exact (hs f hf i hi (fun h => hhalf (List.mem_cons_of_mem _ h)) hvalid).of_eq rfl

/-! ### Walks -/

/-- A user address has an index in the lower half of a root. -/
theorem index_lt {lvl : Nat → Option Nat} (hp : Paging cfg lvl s) {k f v : Nat}
    (hf : lvl f = some k) (hv : k = 3 → getVpn v 3 < 256) (hroot : f ∈ s.rooted) :
    getVpn v k < 256 := by
  obtain rfl := Option.some.inj (hf.symm.trans (hp.forest.roots hroot))
  exact hv rfl

/-- **The kernel's walk** of a user address ends in a table that the entries lead to. -/
theorem walkFrom {lvl : Nat → Option Nat} (hs : Entries R s) (hp : Paging cfg lvl s)
    (hwf : HeapWF cfg s) {k f v l a : Nat} (hv : v < 2 ^ 47) (hk : k ≤ 3) (hf : lvl f = some k)
    (h : PageTable.walkFrom cfg k f v s = .ok (l, a)) :
    ∃ g i, a = entry g i ∧ Relation.ReflTransGen R f g ∧ s.IsTable g ∧ i < 512 := by
  induction k generalizing f with
  | zero =>
    obtain ⟨rfl, rfl⟩ := Prod.mk.inj (Query.pure_ok.1 h)
    exact ⟨f, _, rfl, .refl, hp.table hf, getVpn_lt ..⟩
  | succ k ih =>
    simp only [PageTable.walkFrom, Query.bind_ok] at h
    obtain ⟨pte, hpte, h⟩ := h
    obtain rfl : pte = s.pte f (getVpn v (k + 1)) := readPte_ok hpte
    split at h
    · next hvalid =>
      have hidx : k + 1 = 3 → getVpn v (k + 1) < 256 := fun h => h ▸ getVpn_three_lt hv
      have hnext := hp.forest.edges hf ⟨_, getVpn_lt v (k + 1), hidx, hvalid, rfl⟩
      obtain ⟨g, i, rfl, hreach, hg⟩ := ih (by omega) hnext h
      refine ⟨g, i, rfl, .head ?_ hreach, hg⟩
      cases hs f (hp.table hf) _ (getVpn_lt v (k + 1))
        (index_lt hp hf fun h => h ▸ getVpn_three_lt hv) hvalid with
      | link frame live eq =>
        rwa [eq, Pte.target_write (hwf.table_lt live) (hwf.table_bounds live).1 (by decide)]
      | page _ live lt eq =>
        -- the entries above the last level lead to tables
        rw [eq, hwf.target_page live lt] at hnext
        exact absurd (hp.table hnext) (hwf.page_not_table live)
    · obtain ⟨rfl, rfl⟩ := Prod.mk.inj (Query.pure_ok.1 h)
      exact ⟨f, _, rfl, .refl, hp.table hf, getVpn_lt ..⟩

/-- **Below a table for user addresses** the machine finds entries of pages, at the last level. -/
theorem walk {lvl : Nat → Option Nat} (hs : Entries R s) (hp : Paging cfg lvl s)
    (hwf : HeapWF cfg s) {k f v l : Nat} {pte : UInt64} (hk : k ≤ 3) (hf : lvl f = some k)
    (hv : k = 3 → getVpn v 3 < 256) (h : Sv48.walk s.mem k f v = some (l, pte)) :
    l = 0 ∧ ∃ o ∈ s.objects, o.kind = .page ∧ Sv48.ppn pte * 2 ^ 12 = o.addr ∧
      Relation.TransGen R f o.addr := by
  induction k generalizing f with
  | zero =>
    simp only [Sv48.walk, entry_sv48] at h
    split at h
    · next hcond =>
      obtain ⟨husable, hleaf⟩ := Bool.and_eq_true_iff.1 hcond
      obtain ⟨rfl, rfl⟩ := Prod.mk.inj (Option.some.inj h)
      have hvalid : Pte.isValid (s.pte f (getVpn v 0)) = true := (Bool.and_eq_true_iff.1 husable).1
      refine ⟨rfl, ?_⟩
      cases hs f (hp.table hf) _ (getVpn_lt v 0) (index_lt hp hf hv) hvalid with
      | link _ live eq =>
        have := (Pte.pointer_write (hwf.table_lt live) (hwf.table_bounds live).1).not_leaf
        rw [← eq, KState.pte, hleaf] at this
        cases this
      | page frame live lt eq =>
        obtain ⟨o, ho, hk, rfl⟩ := KState.isObject_iff.1 live
        obtain ⟨hlt, hal⟩ := hwf.page_lt live
        refine ⟨o, ho, hk, ?_, .single frame⟩
        rw [← Pte.ppn_write hlt hal lt, ← eq]
        rfl
    · cases h
  | succ k ih =>
    have hword : s.mem (Sv48.entry f v (k + 1)) = s.pte f (getVpn v (k + 1)) := by
      rw [entry_sv48]
      rfl
    simp only [Sv48.walk, hword] at h
    split at h
    · cases h
    · next husable =>
      simp only [Bool.not_eq_true', Bool.not_eq_false] at husable
      have hvalid : Pte.isValid (s.pte f (getVpn v (k + 1))) = true :=
        (Bool.and_eq_true_iff.1 husable).1
      have hidx : k + 1 = 3 → getVpn v (k + 1) < 256 := fun h => h ▸ hv h
      have hnext := hp.forest.edges hf ⟨_, getVpn_lt v (k + 1), hidx, hvalid, rfl⟩
      cases hs f (hp.table hf) _ (getVpn_lt v (k + 1)) (index_lt hp hf hv) hvalid with
      | @link g frame live eq =>
        have hlt := hwf.table_lt live
        have hal := (hwf.table_bounds live).1
        obtain ⟨-, hleaf, -⟩ := Pte.pointer_write hlt hal
        rw [eq, Pte.target_write hlt hal (by decide)] at hnext
        rw [eq, hleaf, if_neg Bool.false_ne_true, Pte.ppn_write hlt hal (by decide)] at h
        obtain ⟨hl, o, ho, hpage, hppn, hreach⟩ := ih (by omega) hnext (by omega) h
        exact ⟨hl, o, ho, hpage, hppn, .head frame hreach⟩
      | page _ live lt eq =>
        -- the entries above the last level lead to tables
        rw [eq, hwf.target_page live lt] at hnext
        exact absurd (hp.table hnext) (hwf.page_not_table live)

end Entries

/-- A walk that comes to an entry of the kernel ends there. -/
theorem user_of_walk_kernelLeaf {mem : Nat → UInt64} {k table v l : Nat} {pte : UInt64}
    (hleaf : Pte.isValid (mem (entry table (getVpn v (k + 1)))) = true →
      Pte.KernelLeaf (mem (entry table (getVpn v (k + 1)))))
    (h : Sv48.walk mem (k + 1) table v = some (l, pte)) : Sv48.user pte = false := by
  simp only [Sv48.walk, entry_sv48] at h
  split at h
  · cases h
  · next husable =>
    simp only [Bool.not_eq_true', Bool.not_eq_false] at husable
    obtain ⟨-, hl, hu⟩ := hleaf (Bool.and_eq_true_iff.1 husable).1
    rw [if_pos hl] at h
    split at h
    · obtain ⟨-, rfl⟩ := Prod.mk.inj (Option.some.inj h)
      exact hu
    · cases h

/-- **Where an address space is the kernel's own**, the machine finds no entry with the user bit. -/
theorem Paging.user_of_walk_static {lvl : Nat → Option Nat} (hp : Paging cfg lvl s)
    {root v l : Nat} {pte : UInt64}
    (hroot : s.pte root (getVpn v 3) = s.pte (imagePhys cfg.kernelVmRoot) (getVpn v 3))
    (h : Sv48.walk s.mem 3 root v = some (l, pte)) : Sv48.user pte = false := by
  have hkernel : ∀ {a}, a ≠ entry (imagePhys cfg.kernelVmRoot) 511 →
      cfg.isStaticTable a = true → Pte.isValid (s.mem a) = true → Pte.KernelLeaf (s.mem a) := by
    intro a hne hstatic hvalid
    rw [hp.static a hstatic] at hvalid ⊢
    obtain ⟨f, hword, hlt, -⟩ := kernelVmWords_valid hne hvalid
    exact hword ▸ Pte.kernelLeaf_write hlt
  have hstatic : s.pte root (getVpn v 3) =
      s.mem (entry (imagePhys cfg.kernelVmRoot) (getVpn v 3)) := hroot
  by_cases hlast : getVpn v 3 = 511
  · -- the last entry of the root leads to the second table
    have htop : s.mem (Sv48.entry root v 3) = Pte.write (imagePhys cfg.lv2Table) pageV := by
      rw [entry_sv48, show s.mem (entry root (getVpn v 3)) = _ from hstatic, hlast,
        hp.static _ (isStaticTable_root (by decide))]
      exact kernelVmWords_pointer _
    have hlv2 := imagePhys_lt cfg.lv2Table
    obtain ⟨husable, hleaf, -⟩ := Pte.pointer_write hlv2 cfg.lv2Table_aligned
    rw [Sv48.walk] at h
    simp only [htop, husable, hleaf, Bool.not_true, Bool.false_eq_true, if_false,
      Pte.ppn_write hlv2 cfg.lv2Table_aligned (show pageV < 2 ^ 10 by decide)] at h
    have hne := cfg.lv2_entry_ne (getVpn_lt v 2) (show 511 < 512 by decide)
    exact user_of_walk_kernelLeaf (hkernel hne (isStaticTable_lv2Table (getVpn_lt v 2))) h
  · refine user_of_walk_kernelLeaf (fun hvalid => ?_) h
    have hne := cfg.root_entry_ne (getVpn_lt v 3) (show 511 < 512 by decide) hlast
    rw [show s.mem (entry root (getVpn v 3)) = _ from hstatic] at hvalid ⊢
    exact hkernel hne (isStaticTable_root (getVpn_lt v 3)) hvalid

/-- **An entry with the user bit** that the machine finds from a root, or from the kernel's own
table, is that of a page. -/
theorem Entries.user_walk {R : Nat → Nat → Prop} {lvl : Nat → Option Nat} (hs : Entries R s)
    (hp : Paging cfg lvl s) (hwf : HeapWF cfg s) {root v l : Nat} {pte : UInt64}
    (hroot : root ∈ s.rooted ∨ root = imagePhys cfg.kernelVmRoot)
    (h : Sv48.walk s.mem 3 root v = some (l, pte)) (hu : Sv48.user pte = true) :
    l = 0 ∧ ∃ o ∈ s.objects, o.kind = .page ∧ Sv48.ppn pte * 2 ^ 12 = o.addr ∧
      Relation.TransGen R root o.addr := by
  have hstatic : s.pte root (getVpn v 3) ≠ s.pte (imagePhys cfg.kernelVmRoot) (getVpn v 3) :=
    fun hsame => Bool.false_ne_true ((hp.user_of_walk_static hsame h).symm.trans hu)
  rcases hroot with hroot | rfl
  · have hv : getVpn v 3 < 256 := by
      by_contra hge
      exact hstatic (hp.global root hroot _ (by omega) (getVpn_lt ..))
    exact hs.walk hp hwf le_rfl (hp.forest.roots hroot) (fun _ => hv) h
  · exact absurd rfl hstatic

/-! ## The kernel keeps the entries -/

/-- The address spaces are forests, and the entries are links and pages. -/
def Shielded (cfg : Config) (R : Nat → Nat → Prop) (s : KState) : Prop := Paged cfg s ∧ Entries R s

namespace Shielded

variable {R : Nat → Nat → Prop}

theorem of_eq (hs : Shielded cfg R s) (hobj : s'.objects = s.objects)
    (hrooted : s'.rooted = s.rooted) (hmem : s'.mem = s.mem) (htcbs : s'.tcbs = s.tcbs) :
    Shielded cfg R s' :=
  ⟨hs.1.of_eq hobj hrooted hmem htcbs, hs.2.of_eq hobj hrooted hmem⟩

theorem setTcb (hs : Shielded cfg R s) {p : Nat} {t : ThreadInfo} (ht : s.tcbs p = some t)
    (t' : ThreadInfo) : Shielded cfg R (s.setTcb p t') :=
  ⟨hs.1.setTcb ht t', hs.2.of_eq rfl rfl rfl⟩

theorem setPage (hs : Shielded cfg R s) {f : Nat} (hf : s.isObject .page f = true)
    {mem : Nat → UInt64} (hmem : ∀ a, a < f ∨ f + 4096 ≤ a → mem a = s.mem a) :
    Shielded cfg R { s with mem } :=
  ⟨hs.1.setPage hf hmem, hs.2.setPage hs.1.1 hf hmem⟩

theorem born (hs : Shielded cfg R s) {o : Object} (ho : o.Fresh cfg s) :
    Shielded cfg R (s.born o) :=
  ⟨hs.1.born ho, hs.2.born hs.1.1 ho⟩

theorem tcbStable {P : CapProp} : TcbStable cfg P (Shielded cfg R) where
  toCapStable := .of_slots (fun _ _ hs => hs.of_eq rfl rfl rfl rfl)
    (fun _ _ _ _ _ ht _ hs => hs.setTcb ht _) fun _ _ ho hs => hs.born ho
  regs _ _ _ _ _ ht _ hs := hs.setTcb ht _
  refill _ _ _ _ _ ht hs := hs.setTcb ht _

/-- Initialising an object once more leaves tables and pages alone. -/
theorem renews : Renews (Shielded cfg R) := by
  intro s o ho hcell hs
  refine ⟨paged_renews s o ho hcell hs.1, ?_⟩
  obtain ⟨tcbs, endpoints, notifications, h⟩ := renewed_cells s o
  rw [h]
  exact hs.2.of_eq rfl rfl rfl

theorem threadStable : ThreadStable (Shielded cfg R) where
  tcb _ _ _ _ ht _ hs := hs.setTcb ht _
  queues _ _ _ _ hs := hs.of_eq rfl rfl rfl rfl
  request _ _ hs := hs.of_eq rfl rfl rfl rfl
  vspace _ _ hs := hs.of_eq rfl rfl rfl rfl
  switch _ _ hs := hs.of_eq rfl rfl rfl rfl
  copy s dst src hdst hs := hs.setPage hdst fun a ha => if_neg (by
    rw [ipcBufferWords, messageLen]
    omega)

/-- **An invocation on a page or a page table** writes an entry of a table that it comes to from a
root of the caller, or makes the table a root. -/
theorem mapping_cases {invLabel : InvLabel} {reg : Registers} {u w : KState} {inv : Invocation}
    {k : CapabilityType} {v : Option Nat} (hu : Shielded cfg R u)
    (hcond : MapsBelowRoots cfg invLabel reg u inv) (hcap : ObjectCap u.objects u.rooted inv.cap)
    (hkind : k = .page ∨ k = .pageTable) (hk : inv.cap.getCapType = .ok k)
    (h : invoke cfg invLabel reg inv k u = .ok v w) :
    ∃ d, (∃ p root g i pte,
        lookupCap cfg inv.rootCnode reg.a3.toNat (reg.a4.toNat % 2 ^ 32) .pageTable u =
          .ok (p, root) ∧ Relation.ReflTransGen R root.getFrame g ∧ u.IsTable g ∧ i < 512 ∧
        (Pte.isValid pte = true → Pte.Known (· = inv.cap.getFrame) u pte) ∧
        w = (u.setWord (entry g i) pte).setCap inv.slot (inv.cap.setCapDepVal d)) ∨
      (u.IsTable inv.cap.getFrame ∧
        w = (u.madeRoot cfg inv.cap.getFrame).setCap inv.slot (inv.cap.setCapDepVal d)) := by
  obtain ⟨⟨hwf, lvl, hp⟩, hs⟩ := hu
  obtain ⟨hwalks, -⟩ := hcond
  -- the entry that the walk ends at is in a table
  have hend : ∀ {vaddr p root l a}, walkVaddr? invLabel reg inv.cap = some vaddr →
      lookupCap cfg inv.rootCnode reg.a3.toNat (reg.a4.toNat % 2 ^ 32) .pageTable u =
        .ok (p, root) →
      PageTable.walk cfg root.getFrame vaddr u = .ok (l, a) →
      ∃ g i, a = entry g i ∧ Relation.ReflTransGen R root.getFrame g ∧ u.IsTable g ∧ i < 512 := by
    intro vaddr p root l a hv hlookup hwalk
    obtain ⟨hlt, hroots⟩ := hwalks vaddr hv
    exact hs.walkFrom hp hwf hlt le_rfl (hp.forest.roots (hroots (p, root) hlookup)) hwalk
  rcases hkind with rfl | rfl
  · have hlive := hcap.isObject_getFrame hwf hk (by decide)
    obtain ⟨p, root, a, hlookup, -, ⟨rfl, -, hwalk, -, rfl⟩ | ⟨rfl, -, hwalk, -, -, rfl⟩⟩ :=
      invokePage_cases h
    · obtain ⟨g, i, rfl, hreach, hg, hi⟩ := hend (by simp only [walkVaddr?, hk]) hlookup hwalk
      refine ⟨(inv.cap.setMapped reg.a5.toNat).capDepVal,
        .inl ⟨p, root, g, i, _, hlookup, hreach, hg, hi, fun _ => ?_, rfl⟩⟩
      exact .page rfl hlive (Nat.or_lt_two_pow (getUserFlags_lt _) (by decide)) rfl
    · obtain ⟨g, i, rfl, hreach, hg, hi⟩ := hend (by simp only [walkVaddr?, hk]) hlookup hwalk
      refine ⟨0, .inl ⟨p, root, g, i, _, hlookup, hreach, hg, hi, fun hvalid => ?_, rfl⟩⟩
      cases Pte.not_isValid_zero.symm.trans hvalid
  · have htable := ObjectCap.getFrame_isTable hwf hcap hk
    obtain ⟨-, ⟨rfl, p, root, level, a, hlookup, hwalk, -, -, rfl⟩ | ⟨rfl, -, rfl⟩⟩ :=
      invokePageTable_ok h
    · obtain ⟨g, i, rfl, hreach, hg, hi⟩ := hend (by simp only [walkVaddr?, hk]) hlookup hwalk
      exact ⟨(inv.cap.setMapped reg.a5.toNat).capDepVal,
        .inl ⟨p, root, g, i, _, hlookup, hreach, hg, hi, fun _ => .link rfl htable rfl, rfl⟩⟩
    · exact ⟨((inv.cap.setMapped (toKernelV inv.cap.getAddress)).setRoot).capDepVal,
        .inr ⟨htable, rfl⟩⟩

/-- Invocations on pages and page tables, if the table that gets an entry may lead to the frame. -/
theorem mappingKeeps {invLabel : InvLabel} {reg : Registers} {u : KState} {inv : Invocation}
    (hcond : MapsBelowRoots cfg invLabel reg u inv)
    (hR : ∀ p root g,
      lookupCap cfg inv.rootCnode reg.a3.toNat (reg.a4.toNat % 2 ^ 32) .pageTable u =
        .ok (p, root) →
      Relation.ReflTransGen R root.getFrame g → R g inv.cap.getFrame) :
    MappingKeeps cfg ObjectCap (Shielded cfg R) invLabel reg u inv := by
  rintro k v w hkind hk hcap hu h
  refine ⟨hcond.mappingKeeps k v w hkind hk hcap hu.1 h, ?_⟩
  obtain ⟨d, ⟨p, root, g, i, pte, hlookup, hreach, hg, hi, hknown, rfl⟩ | ⟨htable, rfl⟩⟩ :=
    hu.mapping_cases hcond hcap hkind hk h
  · obtain ⟨⟨hwf, -⟩, hs⟩ := hu
    refine Entries.of_eq (hs.setWord hwf hg hi fun hvalid => ?_) rfl rfl rfl
    exact (hknown hvalid).imp fun f hf => hf ▸ hR p root g hlookup hreach
  · obtain ⟨⟨hwf, lvl, hp⟩, hs⟩ := hu
    exact (hs.makeRoot hp hwf htable).of_eq rfl rfl rfl

/-- **One event.** -/
theorem step {ev : Event} (hs : Shielded cfg R s) (hcaps : CapsAll ObjectCap s)
    (hmap : ev.Meets cfg (MappingKeeps cfg ObjectCap (Shielded cfg R)) s) (h : Step cfg s ev s') :
    Shielded cfg R s' := by
  refine tcbStable.toCapStable.step threadStable objectCap_capRule ?_ ?_ (.inl renews) ?_ ?_ hmap
    hcaps hs h
  · rintro a w rfl ⟨-, o, ho, hk, hle, hlt⟩ hs
    have hf : s.isObject .page o.addr = true := KState.isObject_iff.2 ⟨o, ho, hk, rfl⟩
    have hsize := (hs.1.1.frame_bounds ho (.inl hk)).1
    exact hs.setPage hf fun b hb => Function.update_of_ne (by omega) ..
  · exact fun regs t _ ht _ hs => hs.setTcb ht _
  · exact fun _ _ _ _ _ _ _ _ _ _ _ _ ht hu => hu.setTcb ht _
  · exact fun _ _ _ _ _ => mintKeeps_objectCap

end Shielded

/-! ## Boot -/

/-- Boot makes page tables in memory that is zero. -/
theorem FreeZero.born_eq (hz : FreeZero cfg s) {o : Object} (ho : o.Fresh cfg s)
    (hsize : o.kind = .pageTable → o.size = 4096) (hk : o.kind = .page ∨ o.kind = .pageTable) :
    s.born o = { s with objects := o :: s.objects } := by
  rcases hk with hk | hk
  · rw [KState.born, hk]
  · obtain ⟨hle, hend, -, -⟩ := Object.lt_of_admissible ho.admissible
    have hmem : (s.born o).mem = s.mem := by
      rw [mem_born_table ho hk]
      funext a
      split
      · next ha =>
        rw [pageSize] at ha
        have hsize := hsize hk
        refine (hz a (by omega) (by omega) fun o' ho' => ?_).symm
        have hapart := ho.apart o' ho'
        simp only [Object.overlaps, Bool.and_eq_false_iff, decide_eq_false_iff_not] at hapart
        omega
      · rfl
    rw [KState.born, hk] at hmem ⊢
    exact congrArg (fun mem => { s with objects := o :: s.objects, mem := mem }) hmem

/-- While the address space of the root server is made. -/
def BootShielded (cfg : Config) (R : Nat → Nat → Prop) (root : Nat) (s : KState) : Prop :=
  Booting cfg root s ∧ Entries R s

namespace BootShielded

variable {R : Nat → Nat → Prop} {root : Nat}

theorem create (h : BootShielded cfg R root s) {o : Object} (ho : o.Fresh cfg s)
    (hk : o.kind = .page ∨ o.kind = .pageTable) :
    Shielded cfg R { s with objects := o :: s.objects } := by
  have hs : Shielded cfg R (s.born o) := Shielded.born ⟨h.1.paged, h.2⟩ ho
  have hlive : o ∈ (s.born o).objects := objects_born s o ▸ List.mem_cons_self ..
  rwa [h.1.zero.born_eq ho (fun hk => (hs.1.1.frame_bounds hlive (.inr hk)).1) hk] at hs

/-- The entry that a walk of a user address ends at is in a table. -/
theorem walk_end {lvl : Nat → Option Nat} (hp : Paging cfg lvl s) (hwf : HeapWF cfg s)
    (hroot : root ∈ s.rooted) {v l a : Nat} (hv : v < 2 ^ 47)
    (hwalk : PageTable.walk cfg root v s = .ok (l, a)) :
    ∃ g i, a = entry g i ∧ s.IsTable g ∧ i < 512 := by
  obtain ⟨-, l, g, i, hwalk', hg, hi, -, -⟩ := hp.walkFrom hwf hv (hp.forest.roots hroot)
  obtain ⟨rfl, rfl⟩ := Prod.mk.inj (Except.ok.inj (hwalk'.symm.trans hwalk))
  exact ⟨g, i, rfl, hp.table hg, hi⟩

theorem spaceRule (hR : ∀ f g, R f g) (root : Nat) :
    SpaceRule cfg root (· < 2 ^ 47) (BootShielded cfg R root) where
  create s o ho hk h := ⟨((booting_spaceStable root).rule .trivial).create s o ho hk h.1,
    (h.create ho (.inl hk)).2⟩
  link s o p cap vaddr level a ho hk hcap hv hl hp hnone hwalk h := by
    refine ⟨((booting_spaceStable root).rule .trivial).link s o p cap vaddr level a ho hk hcap hv hl
      hp hnone hwalk h.1, ?_⟩
    have hs : Shielded cfg R ({ s with objects := o :: s.objects }.setSlot p
        (some (.newWithRawcap cap))) := (h.create ho (.inr hk)).of_eq rfl rfl rfl rfl
    obtain ⟨⟨hwf, lvl, hpaging⟩, hentries⟩ := hs
    obtain ⟨g, i, rfl, hg, hi⟩ := walk_end hpaging hwf h.1.root hv hwalk
    refine hentries.setWord hwf hg hi fun _ => .link (hR ..) ?_ rfl
    exact KState.isTable_iff.2 ⟨o, List.mem_cons_self .., hk, rfl⟩
  page s o c p vaddr flags a hnew hv hflags hwalk hfree hp hnone h := by
    refine ⟨((booting_spaceStable root).rule .trivial).page s o c p vaddr flags a hnew hv
      hflags hwalk hfree hp hnone h.1, ?_⟩
    obtain ⟨⟨hwf, lvl, hpaging⟩, -, hroot⟩ := h.1
    obtain ⟨g, i, rfl, hg, hi⟩ := walk_end hpaging hwf hroot hv hwalk
    refine Entries.of_eq (h.2.setWord hwf hg hi fun _ => ?_) rfl rfl rfl
    refine .page (hR ..) ?_ (Nat.or_lt_two_pow hflags (by decide)) rfl
    rw [hnew.fresh.getFrame hnew.admissible]
    exact KState.isObject_iff.2 ⟨o, hnew.live, hnew.kind, rfl⟩
  fill s f src n hn hf h := by
    refine ⟨((booting_spaceStable root).rule .trivial).fill s f src n hn hf h.1,
      h.2.setPage h.1.paged.1 hf fun a ha => if_neg ?_⟩
    rw [pageSize] at hn
    omega

theorem firstRoot (R : Nat → Nat → Prop) :
    FirstRoot cfg (fun s => (Paged cfg s ∧ FreeZero cfg s) ∧ Entries R s) (BootShielded cfg R) := by
  intro s o c p ho hk hc hp hnone ⟨hs, hentries⟩
  have hboot := booting_madeRoot ho hk hs
  refine ⟨⟨hboot.paged.of_eq rfl rfl rfl rfl, hboot.zero, hboot.root⟩, ?_⟩
  obtain ⟨hwf, lvl, hpaging⟩ := hs.1.born ho
  have htable : (s.born o).IsTable o.addr :=
    KState.isTable_iff.2 ⟨o, objects_born s o ▸ List.mem_cons_self .., hk, rfl⟩
  exact ((hentries.born hs.1.1 ho).makeRoot hpaging hwf htable).of_eq rfl rfl rfl

end BootShielded

/-- **After boot** the entries are links and pages. -/
theorem shielded_boot {R : Nat → Nat → Prop} (hR : ∀ f g, R f g) {image : Image}
    (himage : image.InUserHalf) (h : Boot cfg image s) : Shielded cfg R s := by
  have hcnode : FirstCNode cfg (.afterVmInit cfg) fun s =>
      (Paged cfg s ∧ FreeZero cfg s) ∧ Entries R s := by
    intro o c p hk ho hc hp hn
    refine ⟨freeZero_capStable.firstCNode .trivial paged_afterVmInit o c p hk ho hc hp hn, ?_⟩
    intro f hf
    obtain ⟨o', ho', hk', -⟩ := KState.isTable_iff.1 hf
    obtain rfl := List.mem_singleton.1 ho'
    rw [hk] at hk'
    cases hk'
  obtain ⟨thread, s₃, s₄, -, hs₃, hres, hsched⟩ :=
    SpaceRule.boot (P := fun _ _ _ => True) (BootShielded.spaceRule hR) Shielded.tcbStable.rule
      .trivial hcnode (BootShielded.firstRoot R)
      (fun _ s s' u hs _ hidle => by
        obtain ⟨t, ht, rfl⟩ := createIdleThread_ok.1 hidle
        have hs : Shielded cfg R s := ⟨hs.1.paged, hs.2⟩
        exact (hs.setTcb ht _).of_eq rfl rfl rfl rfl)
      (fun s f info hf hs => hs.setPage hf fun a ha => if_neg (by rw [pageSize]; omega))
      himage.within h
  have hT : ThreadStable (Shielded cfg R) := Shielded.threadStable
  exact hT.start hs₃ hres hsched

/-! ## The active address space -/

theorem switchTo_satp {next : Nat} {u : Unit} (h : switchTo cfg next s = .ok u s') :
    s'.tcbs = s.tcbs ∧ s'.current = next ∧ (s'.satp = imagePhys cfg.kernelVmRoot ∨
      ∃ t e, s.tcbs next = some t ∧ t.vspace = some e ∧ e.cap.isRoot = true ∧
        s'.satp = e.cap.getFrame) := by
  simp only [switchTo, activateVspace, bind_ok, lift_ok, getTcb_ok, modify_ok] at h
  obtain ⟨_, s₁, ⟨t, _, ⟨ht, rfl⟩, hact⟩, rfl⟩ := h
  cases hv : t.vspace with
  | some e =>
    simp only [hv] at hact
    split at hact
    · next hroot =>
      obtain rfl := modify_ok.1 hact
      exact ⟨rfl, rfl, .inr ⟨t, e, ht, hv, hroot, rfl⟩⟩
    · obtain rfl := modify_ok.1 hact
      exact ⟨rfl, rfl, .inl rfl⟩
  | none =>
    simp only [hv] at hact
    obtain rfl := modify_ok.1 hact
    exact ⟨rfl, rfl, .inl rfl⟩

/-- The scheduler changes nothing, or it activates the kernel's own table or the one that the thread
which is now the current one holds as a root. -/
theorem schedule_satp {u : Unit} (h : schedule cfg s = .ok u s') :
    (s'.satp = s.satp ∧ s'.current = s.current) ∨ s'.satp = imagePhys cfg.kernelVmRoot ∨
      ∃ t e, s'.tcbs s'.current = some t ∧ t.vspace = some e ∧ e.cap.isRoot = true ∧
        s'.satp = e.cap.getFrame := by
  have hswitch : ∀ {next v}, switchTo cfg next v = .ok u s' →
      s'.satp = imagePhys cfg.kernelVmRoot ∨ ∃ t e, s'.tcbs s'.current = some t ∧
        t.vspace = some e ∧ e.cap.isRoot = true ∧ s'.satp = e.cap.getFrame := by
    intro next v h
    obtain ⟨htcbs, hcur, h | ⟨t, e, ht, he⟩⟩ := switchTo_satp h
    · exact .inl h
    · exact .inr ⟨t, e, by rw [hcur, htcbs, ht], he⟩
  simp only [schedule, bind_ok, get_ok] at h
  obtain ⟨_, _, ⟨rfl, rfl⟩, h⟩ := h
  split at h
  · obtain ⟨-, rfl⟩ := pure_ok.1 h
    exact .inl ⟨rfl, rfl⟩
  · cases hq : s.runqueue with
    | cons next rest =>
      simp only [hq, bind_ok] at h
      obtain ⟨_, _, -, _, _, -, _, _, -, h⟩ := h
      exact .inr (hswitch h)
    | nil =>
      simp only [hq, bind_ok, lift_ok, getTcb_ok] at h
      obtain ⟨t, _, ⟨-, rfl⟩, h⟩ := h
      split at h
      · obtain ⟨t', -, rfl⟩ := updateTcb_ok.1 h
        exact .inl ⟨rfl, rfl⟩
      · exact .inr (hswitch h)

/-- The active address space is that of a root, or the kernel's own. -/
def Active (cfg : Config) (s : KState) : Prop :=
  s.satp ∈ s.rooted ∨ s.satp = imagePhys cfg.kernelVmRoot

theorem Active.of_eq (hs : Active cfg s) (hsatp : s'.satp = s.satp)
    (hrooted : ∀ f ∈ s.rooted, f ∈ s'.rooted) : Active cfg s' := by
  rw [Active, hsatp]
  exact hs.imp_left (hrooted _)

theorem satp_born (s : KState) (o : Object) : (s.born o).satp = s.satp := by
  unfold KState.born
  split <;> rfl

theorem active_capStable {P : CapProp} : CapStable cfg P (Active cfg) :=
  .of_slots (fun _ _ hs => hs) (fun _ _ _ _ _ _ _ hs => hs) fun s o _ hs =>
    hs.of_eq (satp_born s o) fun _ hf => by rwa [rooted_born]

theorem active_renews : Renews (Active cfg) := by
  intro s o _ _ hs
  obtain ⟨tcbs, endpoints, notifications, h⟩ := renewed_cells s o
  rw [h]
  exact hs.of_eq rfl fun _ hf => hf

theorem active_trapStable : TrapStable (Active cfg) where
  tcb _ _ _ _ _ _ hs := hs
  queues _ _ _ _ hs := hs
  request _ _ hs := hs
  copy _ _ _ _ hs := hs

theorem active_mappingKeeps {P : CapProp} {invLabel : InvLabel} {reg : Registers} {u : KState}
    {inv : Invocation} : MappingKeeps cfg P (Active cfg) invLabel reg u inv := by
  rintro k v w hkind - - hu h
  rcases hkind with rfl | rfl
  · obtain ⟨_, _, _, -, -, ⟨-, -, -, -, rfl⟩ | ⟨-, -, -, -, -, rfl⟩⟩ := invokePage_cases h
    · exact hu
    · exact hu
  · obtain ⟨-, ⟨-, _, _, _, _, -, -, -, -, rfl⟩ | ⟨-, -, rfl⟩⟩ := invokePageTable_ok h
    · exact hu
    · exact hu.of_eq rfl fun _ hf => List.mem_cons_of_mem _ hf

/-- What threads hold as a root is one. -/
theorem TypedSlots.vspace_rooted (hs : TypedSlots cfg s) (hcaps : CapsAll Confined s) {p : Nat}
    {t : ThreadInfo} {e : CNodeEntry} (ht : s.tcbs p = some t) (he : t.vspace = some e)
    (hroot : e.cap.isRoot = true) : e.cap.getFrame ∈ s.rooted := by
  have hheld : TcbSlot.vspace.get t = some e := he
  exact (hcaps.held ht hheld).2 (hs p t .vspace e ht hheld).1 hroot

theorem Active.schedule {v : KState} {u : Unit} (hv : Active cfg v) (htyped : TypedSlots cfg s')
    (hcaps : CapsAll Confined s') (h : Zoeax.schedule cfg v = .ok u s') : Active cfg s' := by
  rcases schedule_satp h with ⟨hsame, -⟩ | hkernel | ⟨t, e, ht, he, hroot, hsatp⟩
  · refine hv.of_eq hsame fun f hf => ?_
    have hT : ThreadStable fun s : KState => f ∈ s.rooted :=
      ⟨⟨⟨fun _ _ _ _ _ _ h => h, fun _ _ _ _ h => h, fun _ _ _ _ h => h⟩, fun _ _ h => h⟩,
        fun _ _ h => h, fun _ _ h => h⟩
    exact hT.schedule.ok hf h
  · exact .inr hkernel
  · exact .inl (hsatp ▸ htyped.vspace_rooted hcaps ht he hroot)

theorem Active.step {ev : Event} (hs : Active cfg s) (htyped : TypedSlots cfg s')
    (hcaps : CapsAll Confined s') (h : Step cfg s ev s') : Active cfg s' := by
  cases ev with
  | store a w =>
    obtain rfl := modify_ok.1 h.2
    exact hs
  | trap regs =>
    obtain ⟨u, v, hentry, htrap, hsched⟩ := step_parts h
    have hv : Active cfg v := active_capStable.trap active_trapStable .trivial
      (fun _ _ _ hs => hs) (.inl active_renews) (fun _ _ _ _ _ _ _ _ _ _ _ _ _ hu => hu)
      (fun _ _ _ _ _ _ _ _ _ _ _ _ => trivial) (fun _ _ _ _ _ => active_mappingKeeps)
      (capsAll_trivial s) hs hentry htrap
    exact hv.schedule htyped hcaps hsched

theorem active_boot {image : Image} (h : Boot cfg image s) : Active cfg s := by
  have hI : BootStable cfg (fun _ _ _ => True) (Active cfg) :=
    { toCapStable := active_capStable
      mem := fun _ _ hs => hs
      root := fun _ _ hs => hs.of_eq rfl fun _ hf => List.mem_cons_of_mem _ hf
      regs := fun _ _ _ _ _ _ _ hs => hs
      refill := fun _ _ _ _ _ _ hs => hs }
  obtain ⟨thread, s₃, s₄, -, hs₃, hres, hsched⟩ := hI.toMapStable.boot hI .trivial
    (fun s s' u hs hidle => by
      obtain ⟨t, -, rfl⟩ := createIdleThread_ok.1 hidle
      exact hs) (.inr rfl) h
  have hs₄ : Active cfg s₄ := (active_trapStable.steady.resume thread).ok hs₃ hres
  have hrequest : Active cfg { s₄ with requested := true } := active_trapStable.request s₄ true hs₄
  exact hrequest.schedule (typedSlots_boot h) (CapsAll.boot confined_capRule h) hsched

/-! ## The machine -/

inductive MachineEvent where
  /-- The machine looks a translation up and caches it. -/
  | access (t : Translation)
  /-- The current thread stores a word to `v` through a cached translation. -/
  | store (t : Translation) (v : Nat) (w : UInt64)
  | trap (regs : Registers)

/-- The kernel, the memory and the translation cache. The mode of the current thread is the one that
`sret` took from its saved `sstatus`; the idle thread does nothing but wait. -/
inductive MachineStep (cfg : Config) : Cached → MachineEvent → Cached → Prop
  | access {s tlb t} (h : t.Present s.mem s.satp) :
    MachineStep cfg ⟨s, tlb⟩ (.access t) ⟨s, insert t tlb⟩
  | store {s : KState} {tlb t v w} {thread : ThreadInfo} (hidle : s.current ≠ cfg.idleThread)
    (hthread : s.tcbs s.current = some thread) (ht : t ∈ tlb) (hcovers : t.Covers v)
    (haligned : v % 8 = 0) (hpermits : t.permitsStore thread.registers.spp = true) :
    MachineStep cfg ⟨s, tlb⟩ (.store t v w) ⟨s.setWord (t.target v) w, tlb⟩
  | trap {c c' regs} (h : CachedStep cfg c (.kernel (.trap regs)) c') :
    MachineStep cfg c (.trap regs) c'

def MachineEvent.Meets (cfg : Config) (C : InvokeCond) (s : KState) : MachineEvent → Prop
  | .trap regs => (Event.trap regs).Meets cfg C s
  | _ => True

/-- Runs of the machine in which every invocation meets the condition. -/
def MachineRun (cfg : Config) (C : InvokeCond) : Cached → Cached → Prop :=
  Relation.ReflTransGen fun c c' =>
    ∃ ev : MachineEvent, ev.Meets cfg C c.kernel ∧ MachineStep cfg c ev c'

/-- The translation is that of a page. -/
def PageTranslation (s : KState) (t : Translation) : Prop :=
  t.level = 0 ∧ ∃ o ∈ s.objects, o.kind = .page ∧ Sv48.ppn t.pte * 2 ^ 12 = o.addr

/-- What a run keeps if it meets the conditions. -/
structure Guard (cfg : Config) (s : KState) : Prop where
  shielded : Shielded cfg (fun _ _ => True) s
  allocated : Allocated cfg s
  objects : CapsAll ObjectCap s
  confined : CapsAll Confined s
  typed : TypedSlots cfg s
  mode : UserMode cfg s
  active : Active cfg s

namespace Guard

theorem boot {image : Image} (himage : image.InUserHalf) (h : Boot cfg image s) : Guard cfg s where
  shielded := shielded_boot (fun _ _ => trivial) himage h
  allocated := boot_allocated h
  objects := CapsAll.boot objectCap_capRule h
  confined := CapsAll.boot confined_capRule h
  typed := typedSlots_boot h
  mode := userMode_boot h
  active := active_boot h

theorem step {ev : Event} (hs : Guard cfg s) (hmeets : ev.Meets cfg (GuardedFits cfg) s)
    (h : Step cfg s ev s') : Guard cfg s' := by
  have hconfined := hs.confined.step confined_capRule
    (fun _ _ _ _ hinv => (hmeets _ _ _ _ hinv).mintConfined.keeps) h
  have htyped := hs.typed.step hs.shielded.1.1 hs.objects h
  have hfits := hmeets.mono fun _ _ _ _ h => h.retypeFits
  refine ⟨hs.shielded.step hs.objects (fun _ _ _ _ hinv => ?_) h,
    hs.allocated.step hs.shielded.1.1 hfits h,
    hs.objects.step objectCap_capRule (fun _ _ _ _ _ => mintKeeps_objectCap) h, hconfined, htyped,
    hs.mode.step (fun _ _ _ _ hinv => (hmeets _ _ _ _ hinv).statusWordClean) h,
    hs.active.step htyped hconfined h⟩
  exact Shielded.mappingKeeps (hmeets _ _ _ _ hinv).mapsBelowRoots fun _ _ _ _ _ => trivial

/-- What the machine finds in the active address space. -/
theorem translation (hs : Guard cfg s) {t : Translation} (h : t.Present s.mem s.satp)
    (hu : Sv48.user t.pte = true) : PageTranslation s t := by
  obtain ⟨⟨hwf, lvl, hp⟩, hentries⟩ := hs.shielded
  obtain ⟨hl, o, ho, hk, haddr, -⟩ := hentries.user_walk hp hwf hs.active h hu
  exact ⟨hl, o, ho, hk, haddr⟩

end Guard

/-- A store through the translation of a page is a store to the page. -/
theorem PageTranslation.enabled {t : Translation} (ht : PageTranslation s t) (hwf : HeapWF cfg s)
    {v : Nat} (hal : v % 8 = 0) (w : UInt64) : (Event.store (t.target v) w).Enabled s := by
  obtain ⟨hl, o, ho, hk, haddr⟩ := ht
  obtain ⟨hsize, haligned, -⟩ := hwf.frame_bounds ho (.inl hk)
  rw [t.target_of_page hl, haddr]
  exact ⟨by omega, o, ho, hk, by omega, by omega⟩

/-- Live objects stay. -/
theorem Step.objects {ev : Event} (h : Step cfg s ev s') {o : Object} (ho : o ∈ s.objects) :
    o ∈ s'.objects := by
  have hT : ThreadStable fun s : KState => o ∈ s.objects :=
    ⟨⟨⟨fun _ _ _ _ _ _ h => h, fun _ _ _ _ h => h, fun _ _ _ _ h => h⟩, fun _ _ h => h⟩,
      fun _ _ h => h, fun _ _ h => h⟩
  exact (live_mapStable o).step hT .trivial (fun _ _ _ _ _ h => h) (.inl (live_renews o))
    (fun _ _ _ _ _ _ _ _ _ _ _ _ _ h => h) (fun _ _ _ _ _ _ _ _ _ _ _ _ => trivial)
    (capsAll_trivial s) ho h

/-- The machine, when every cached translation with the user bit is that of a page. -/
structure MachineGuard (cfg : Config) (c : Cached) : Prop where
  guard : Guard cfg c.kernel
  tlb : ∀ t ∈ c.tlb, Sv48.user t.pte = true → PageTranslation c.kernel t

namespace MachineGuard

/-- **Stores are to pages.** -/
theorem store {c c' : Cached} {t : Translation} {v : Nat} {w : UInt64} (hc : MachineGuard cfg c)
    (h : MachineStep cfg c (.store t v w) c') :
    Step cfg c.kernel (.store (t.target v) w) c'.kernel := by
  cases h with
  | @store s tlb _ _ _ thread hidle hthread ht hcovers haligned hpermits =>
    have hspp := hc.guard.mode.user _ _ hthread hidle
    rw [Translation.permitsStore, hspp, Bool.false_or] at hpermits
    have hpage := hc.tlb t ht (Bool.and_eq_true_iff.1 hpermits).2
    exact ⟨hpage.enabled hc.guard.shielded.1.1 haligned w, rfl⟩

/-- A step of the kernel; the cache loses what it has, or keeps it. -/
theorem kernelStep {tlb tlb' : Set Translation} {ev : Event} (hc : MachineGuard cfg ⟨s, tlb⟩)
    (hmeets : ev.Meets cfg (GuardedFits cfg) s) (h : Step cfg s ev s') (htlb : tlb' ⊆ tlb) :
    MachineGuard cfg ⟨s', tlb'⟩ := by
  refine ⟨hc.guard.step hmeets h, fun t ht hu => ?_⟩
  obtain ⟨hl, o, ho, hpage⟩ := hc.tlb t (htlb ht) hu
  exact ⟨hl, o, h.objects ho, hpage⟩

/-- **One step** of the machine: the kernel takes a step of the model, or none. -/
theorem step {c c' : Cached} {ev : MachineEvent} (hc : MachineGuard cfg c)
    (hmeets : ev.Meets cfg (GuardedFits cfg) c.kernel) (h : MachineStep cfg c ev c') :
    MachineGuard cfg c' ∧ (c'.kernel = c.kernel ∨
      ∃ ev' : Event, ev'.Meets cfg (GuardedFits cfg) c.kernel ∧
        Step cfg c.kernel ev' c'.kernel) := by
  cases ev with
  | access t =>
    cases h with
    | access hpresent =>
      refine ⟨⟨hc.guard, ?_⟩, .inl rfl⟩
      rintro t' (rfl | ht') hu
      · exact hc.guard.translation hpresent hu
      · exact hc.tlb t' ht' hu
  | store t v w =>
    have hstep := hc.store h
    have hnone : (Event.store (t.target v) w).Meets cfg (GuardedFits cfg) c.kernel := by
      intro _ _ _ _ hinv
      cases hinv.event
    cases h with
    | store => exact ⟨hc.kernelStep hnone hstep (Set.Subset.refl _), .inr ⟨_, hnone, hstep⟩⟩
  | trap regs =>
    cases h with
    | trap h =>
      cases h with
      | fenced hstep =>
        exact ⟨hc.kernelStep hmeets hstep (Set.empty_subset _), .inr ⟨_, hmeets, hstep⟩⟩
      | unfenced hstep =>
        exact ⟨hc.kernelStep hmeets hstep (Set.Subset.refl _), .inr ⟨_, hmeets, hstep⟩⟩

end MachineGuard

/-- **User programs reach pages only**, in every run of the machine from boot that meets what is
left to the callers. What the machine has cached or finds with the user bit is the entry of a page,
and what it stores goes to a page; so the run of the kernel is one of the model. -/
theorem reach_of_machineRun {image : Image} {s₀ : KState} {c : Cached} (himage : image.InUserHalf)
    (hboot : Boot cfg image s₀) (hrun : MachineRun cfg (GuardedFits cfg) ⟨s₀, ∅⟩ c) :
    Run cfg (GuardedFits cfg) s₀ c.kernel ∧
    (∀ t, t ∈ c.tlb ∨ t.Present c.kernel.mem c.kernel.satp → Sv48.user t.pte = true →
      PageTranslation c.kernel t) ∧
    ∀ t v w c', MachineStep cfg c (.store t v w) c' →
      Step cfg c.kernel (.store (t.target v) w) c'.kernel := by
  have hguard : MachineGuard cfg c ∧ Run cfg (GuardedFits cfg) s₀ c.kernel := by
    induction hrun with
    | refl => exact ⟨⟨.boot himage hboot, fun _ ht => ht.elim⟩, .refl⟩
    | tail _ hstep ih =>
      obtain ⟨hc, hrun⟩ := ih
      obtain ⟨ev, hmeets, hstep⟩ := hstep
      obtain ⟨hc', heq | hstep'⟩ := hc.step hmeets hstep
      · exact ⟨hc', heq ▸ hrun⟩
      · exact ⟨hc', hrun.tail hstep'⟩
  refine ⟨hguard.2, fun t ht hu => ?_, fun t v w c' h => hguard.1.store h⟩
  rcases ht with ht | hpresent
  · exact hguard.1.tlb t ht hu
  · exact hguard.1.guard.translation hpresent hu

/-- The page of the IPC buffer is unmapped while its translation is cached. The root server goes on
storing through it, to the page. -/
theorem reach_after_unmap : ∃ s₀ s c', Boot .virt demoImage s₀ ∧
    MachineRun .virt (GuardedFits .virt) ⟨s₀, ∅⟩ ⟨s, {ipcTranslation}⟩ ∧
    ¬ ipcTranslation.Present s.mem s.satp ∧ PageTranslation s ipcTranslation ∧
    MachineStep .virt ⟨s, {ipcTranslation}⟩ (.store ipcTranslation 0x1008 7) c' ∧
    Step .virt s (.store (ipcTranslation.target 0x1008) 7) c'.kernel := by
  obtain ⟨s₀, hboot, htest⟩ := exists_boot .virt demoImage
    (fun s => ipcTranslation.Present s.mem s.satp &&
      (Event.trap (unmapRegs 4 3)).meets .virt (GuardedFits .virt) s &&
      unfencedTrap .virt s (unmapRegs 4 3) fun s => ¬ ipcTranslation.Present s.mem s.satp &&
        s.current ≠ Config.virt.idleThread && (s.tcbs s.current).isSome) (by decide +kernel)
  simp only [Bool.and_eq_true, decide_eq_true_eq] at htest
  obtain ⟨⟨hpresent, hmeets⟩, htrap⟩ := htest
  obtain ⟨s, hstep, htest⟩ := exists_unfenced {ipcTranslation} htrap
  simp only [Bool.and_eq_true, decide_eq_true_eq] at htest
  obtain ⟨⟨hgone, hidle⟩, hsome⟩ := htest
  obtain ⟨thread, hthread⟩ := Option.isSome_iff_exists.1 hsome
  have haccess : MachineStep .virt ⟨s₀, ∅⟩ (.access ipcTranslation) ⟨s₀, {ipcTranslation}⟩ := by
    rw [← insert_empty_eq ipcTranslation]
    exact .access hpresent
  have hrun : MachineRun .virt (GuardedFits .virt) ⟨s₀, ∅⟩ ⟨s, {ipcTranslation}⟩ :=
    .tail (.single ⟨.access ipcTranslation, trivial, haccess⟩)
      ⟨.trap (unmapRegs 4 3), Event.meets_of_eval hmeets, .trap hstep⟩
  obtain ⟨-, htranslations, hstores⟩ := reach_of_machineRun demoImage_inUserHalf hboot hrun
  have hpermits : ∀ mode, ipcTranslation.permitsStore mode = true := by decide
  have hstore : MachineStep .virt ⟨s, {ipcTranslation}⟩ (.store ipcTranslation 0x1008 7)
      ⟨s.setWord (ipcTranslation.target 0x1008) 7, {ipcTranslation}⟩ :=
    .store hidle hthread (Set.mem_singleton ipcTranslation) rfl rfl (hpermits _)
  exact ⟨s₀, s, _, hboot, hrun, hgone, htranslations _ (.inl rfl) (by decide), hstore,
    hstores _ _ _ _ hstore⟩

end Zoeax
