import Zoeax.Lib.Forest
import Zoeax.Verify.Guards
import Zoeax.Verify.Heap

/-!
# Page tables

A walk goes down three levels from the table it is given, through valid entries, whatever they point
to. It stays in page tables if it starts at a root and the tables below the roots form a forest in
which every table has one level (`Paging`). The tables that are in no address space are empty, the
upper halves of the roots are that of `KERNEL_VM_ROOT`, and the static tables never change.

`PageTableMap`, `PageMap` and `PageUnMap` take any page table capability as the root and any
address, and a table can be linked again through another capability for it. `MapsBelowRoots` is what
they leave to the caller. A retype must not put anything over a table either, and no slot may be
looked up where there is none: the runs are those that meet `GuardedFits`.
-/

namespace Zoeax

open Lib Exec
open PageTable (entry)

variable {cfg : Config} {s s' : KState}

/-! ## Entries -/

theorem entry_inj {f g i j : Nat} (hf : f % 4096 = 0) (hg : g % 4096 = 0) (hi : i < 512)
    (hj : j < 512) (h : entry f i = entry g j) : f = g ∧ i = j := by
  simp only [entry] at h
  omega

theorem Pte.toNat_write {f flags : Nat} (hf : f < 2 ^ 47) (hflags : flags < 2 ^ 10) :
    (Pte.write f flags).toNat = f / 2 ^ 12 * 2 ^ 10 + flags := by
  rw [Pte.write, Nat.shiftRight_eq_div_pow, shiftLeft_or_of_lt hflags, UInt64.toNat_ofNat']
  omega

theorem Pte.isValid_write {f flags : Nat} (hf : f < 2 ^ 47) (hflags : flags < 2 ^ 10) :
    Pte.isValid (Pte.write f flags) = flags.testBit 0 := by
  have hbit : (f / 2 ^ 12 * 2 ^ 10 + flags) % 2 = flags % 2 := by omega
  rw [Pte.isValid, Pte.toNat_write hf hflags, Nat.testBit_zero, Nat.testBit_zero, hbit]

theorem Pte.target_write {f flags : Nat} (hf : f < 2 ^ 47) (hal : f % 4096 = 0)
    (hflags : flags < 2 ^ 10) : Pte.target (Pte.write f flags) = f := by
  have hmask : (0xfff : Nat) = 2 ^ 12 - 1 := by decide
  rw [Pte.target, Pte.getAddress, Pte.toNat_write hf hflags, Nat.shiftLeft_eq, hmask,
    and_notU64_two_pow_sub_one (by omega) (by decide), direct_of_lt]
  · omega
  · omega

theorem Pte.not_isValid_zero : Pte.isValid 0 = false := by decide

namespace KState

/-- A page table is at `f`. -/
def IsTable (s : KState) (f : Nat) : Prop := s.isObject .pageTable f = true

/-- An entry of `f` that a walk of a user address can follow at this level leads to `g`. -/
def Points (s : KState) (level f g : Nat) : Prop :=
  ∃ i < 512, (level = 3 → i < 256) ∧ Pte.isValid (s.pte f i) = true ∧ Pte.target (s.pte f i) = g

theorem isTable_iff {f : Nat} :
    s.IsTable f ↔ ∃ o ∈ s.objects, o.kind = .pageTable ∧ o.addr = f := isObject_iff

theorem isFrame_entry {o : Object} (ho : o ∈ s.objects) (hk : o.kind = .pageTable)
    (hsize : o.size = 4096) {i : Nat} (hi : i < 512) : s.isFrame (entry o.addr i) = true := by
  refine List.any_eq_true.2 ⟨o, ho, ?_⟩
  simp only [Object.hasFrame, hk, decide_true, Bool.or_true, Bool.true_and, Bool.and_eq_true,
    decide_eq_true_eq]
  rw [hsize, entry]
  omega

/-- A new root has the entries of `KERNEL_VM_ROOT`. -/
theorem pte_madeRoot_self {y i : Nat} (hi : i < 512) :
    (s.madeRoot cfg y).pte y i = s.pte (imagePhys cfg.kernelVmRoot) i := by
  have hin : y ≤ entry y i ∧ entry y i < y + pageSize := by
    rw [entry, pageSize]
    omega
  refine (if_pos hin).trans ?_
  rw [entry, Nat.add_sub_cancel_left]
  rfl

theorem mem_madeRoot_of_ne {y a : Nat} (ha : a < y ∨ y + 4096 ≤ a) :
    (s.madeRoot cfg y).mem a = s.mem a := by
  refine if_neg ?_
  rw [pageSize]
  omega

end KState

namespace HeapWF

theorem frame_bounds (hs : HeapWF cfg s) {o : Object} (ho : o ∈ s.objects)
    (hk : o.kind = .page ∨ o.kind = .pageTable) :
    o.size = 4096 ∧ o.addr % 4096 = 0 ∧ cfg.freeRam ≤ o.addr ∧ o.addr + 4096 ≤ cfg.freeRamEnd := by
  have hsize := hs.size o ho
  obtain ⟨hle, hend, -, hal⟩ := Object.lt_of_admissible (hs.admissible o ho)
  rcases hk with hk | hk <;> rw [hk] at hsize hal <;> obtain hsize := Except.ok.inj hsize <;>
    rw [pageSize] at hsize <;> rw [CapabilityType.align] at hal <;>
    exact ⟨hsize.symm, hal, hle, by omega⟩

theorem table_bounds (hs : HeapWF cfg s) {f : Nat} (hf : s.IsTable f) :
    f % 4096 = 0 ∧ cfg.freeRam ≤ f ∧ f + 4096 ≤ cfg.freeRamEnd := by
  obtain ⟨o, ho, hk, rfl⟩ := KState.isTable_iff.1 hf
  exact (hs.frame_bounds ho (.inr hk)).2

theorem table_lt (hs : HeapWF cfg s) {f : Nat} (hf : s.IsTable f) : f < 2 ^ 47 := by
  obtain ⟨o, ho, hk, rfl⟩ := KState.isTable_iff.1 hf
  exact (Object.lt_of_admissible (hs.admissible o ho)).2.2.1

/-- A word of a page is in no table. -/
theorem page_apart (hs : HeapWF cfg s) {o : Object} (ho : o ∈ s.objects) (hk : o.kind = .page)
    {f : Nat} (hf : s.IsTable f) : o.addr + 4096 ≤ f ∨ f + 4096 ≤ o.addr := by
  obtain ⟨o', ho', hk', rfl⟩ := KState.isTable_iff.1 hf
  have h := (hs.frame_bounds ho (.inl hk)).1
  have h' := (hs.frame_bounds ho' (.inr hk')).1
  rcases hs.eq_or_apart ho ho' with rfl | hapart
  · rw [hk] at hk'
    cases hk'
  · simp only [Object.overlaps, Bool.and_eq_false_iff, decide_eq_false_iff_not] at hapart
    omega

end HeapWF

theorem isStaticTable_iff {a : Nat} : cfg.isStaticTable a = true ↔
    (imagePhys cfg.kernelVmRoot ≤ a ∧ a < imagePhys cfg.kernelVmRoot + 4096) ∨
      (imagePhys cfg.lv2Table ≤ a ∧ a < imagePhys cfg.lv2Table + 4096) := by
  simp only [Config.isStaticTable, Bool.or_eq_true, Bool.and_eq_true, decide_eq_true_eq]
  rfl

/-- The static tables are outside the memory of objects. -/
theorem static_apart {a : Nat} (ha : cfg.isStaticTable a = true) :
    a < cfg.freeRam ∨ cfg.freeRamEnd ≤ a := by
  have h₁ := cfg.kernelVmRoot_apart
  have h₂ := cfg.lv2Table_apart
  have := isStaticTable_iff.1 ha
  omega

theorem isStaticTable_root {i : Nat} (hi : i < 512) :
    cfg.isStaticTable (entry (imagePhys cfg.kernelVmRoot) i) = true := by
  rw [isStaticTable_iff, entry]
  omega

theorem isStaticTable_lv2Table {i : Nat} (hi : i < 512) :
    cfg.isStaticTable (entry (imagePhys cfg.lv2Table) i) = true := by
  rw [isStaticTable_iff, entry]
  omega

theorem HeapWF.entry_not_static (hs : HeapWF cfg s) {f i : Nat} (hf : s.IsTable f) (hi : i < 512) :
    cfg.isStaticTable (entry f i) ≠ true := fun h => by
  have := hs.table_bounds hf
  have := static_apart h
  simp only [entry] at this
  omega

/-- A new table is empty. -/
theorem mem_born_table {o : Object} (ho : o.Fresh cfg s) (hk : o.kind = .pageTable) :
    (s.born o).mem = fun a => if o.addr ≤ a ∧ a < o.addr + pageSize then 0 else s.mem a := by
  rw [KState.born, hk, direct_of_lt (Object.lt_of_admissible ho.admissible).2.2.1]
  rfl

/-- The tables that are there stay as they are. -/
theorem HeapWF.pte_born (hs : HeapWF cfg s) {o : Object} (ho : o.Fresh cfg s) {f i : Nat}
    (hf : s.IsTable f) (hi : i < 512) : (s.born o).pte f i = s.pte f i := by
  by_cases hk : o.kind = .pageTable
  · obtain ⟨o', ho', hk', rfl⟩ := KState.isTable_iff.1 hf
    have hlive : o ∈ (s.born o).objects := objects_born s o ▸ List.mem_cons_self ..
    have hsize := ((hs.born ho).frame_bounds hlive (.inr hk)).1
    have hsize' := (hs.frame_bounds ho' (.inr hk')).1
    have hapart := ho.apart o' ho'
    simp only [Object.overlaps, Bool.and_eq_false_iff, decide_eq_false_iff_not] at hapart
    refine (congrFun (mem_born_table ho hk) _).trans (if_neg ?_)
    rw [entry, pageSize]
    omega
  · exact congrFun (mem_born s hk) _

/-- A walk that ends above level 0 ends at an entry that is not valid. -/
theorem PageTable.not_isValid_of_walkFrom {level table vaddr l a : Nat}
    (h : walkFrom cfg level table vaddr s = .ok (l, a)) (hl : l ≠ 0) :
    Pte.isValid (s.mem a) = false := by
  induction level generalizing table with
  | zero =>
    obtain ⟨rfl, -⟩ := Prod.mk.inj (Query.pure_ok.1 h)
    exact absurd rfl hl
  | succ level ih =>
    simp only [walkFrom, Query.bind_ok] at h
    obtain ⟨pte, hpte, h⟩ := h
    split at h
    · exact ih h
    · next hvalid =>
      obtain ⟨-, rfl⟩ := Prod.mk.inj (Query.pure_ok.1 h)
      rw [← readPte_ok hpte]
      simpa using hvalid

/-! ## The tables of the kernel -/

theorem foldl_update_ne {β : Type} (addr : β → Nat) (val : β → UInt64) {l : List β} {a : Nat}
    (h : ∀ x ∈ l, addr x ≠ a) (mem : Nat → UInt64) :
    (l.foldl (fun mem x => Function.update mem (addr x) (val x)) mem) a = mem a := by
  induction l generalizing mem with
  | nil => rfl
  | cons x l ih =>
    rw [List.foldl_cons, ih (fun y hy => h y (List.mem_cons_of_mem _ hy)),
      Function.update_of_ne (h x (List.mem_cons_self ..)).symm]

/-- A key has its old value, or one that is written to it. -/
theorem foldl_update_cases {β : Type} (addr : β → Nat) (val : β → UInt64) (l : List β)
    (mem : Nat → UInt64) (a : Nat) :
    (l.foldl (fun mem x => Function.update mem (addr x) (val x)) mem) a = mem a ∨
      ∃ x ∈ l, addr x = a ∧
        (l.foldl (fun mem x => Function.update mem (addr x) (val x)) mem) a = val x := by
  induction l generalizing mem with
  | nil => exact .inl rfl
  | cons x l ih =>
    rw [List.foldl_cons]
    rcases ih (Function.update mem (addr x) (val x)) with hold | ⟨y, hy, hkey, hnew⟩
    · by_cases hx : addr x = a
      · subst hx
        exact .inr ⟨x, List.mem_cons_self .., rfl, hold.trans (Function.update_self ..)⟩
      · exact .inl (hold.trans (Function.update_of_ne (Ne.symm hx) ..))
    · exact .inr ⟨y, List.mem_cons_of_mem _ hy, hkey, hnew⟩

/-- A key that is written has the last value written to it. -/
theorem foldl_update_eq {β : Type} (addr : β → Nat) (val : β → UInt64) {l : List β} {x : β}
    (hx : x ∈ l) (h : ∀ y ∈ l, addr y = addr x → val y = val x) (mem : Nat → UInt64) :
    (l.foldl (fun mem x => Function.update mem (addr x) (val x)) mem) (addr x) = val x := by
  induction l generalizing mem x with
  | nil => cases hx
  | cons y l ih =>
    rw [List.foldl_cons]
    by_cases hlater : ∃ z ∈ l, addr z = addr x
    · obtain ⟨z, hz, heq⟩ := hlater
      rw [← h z (.tail _ hz) heq, ← heq]
      refine ih hz (fun w hw hzw => ?_) _
      rw [h w (.tail _ hw) (hzw.trans heq), h z (.tail _ hz) heq]
    · have hne : ∀ z ∈ l, addr z ≠ addr x := fun z hz heq => hlater ⟨z, hz, heq⟩
      rcases List.mem_cons.1 hx with rfl | hx
      · rw [foldl_update_ne _ _ hne, Function.update_self]
      · exact absurd rfl (hne x hx)

theorem mem_stepBy_iff {start stop step x : Nat} (hstep : 0 < step) :
    x ∈ stepBy start stop step ↔ x < stop ∧ ∃ k, x = start + step * k := by
  simp only [stepBy, List.mem_map, List.mem_range]
  constructor
  · rintro ⟨k, hk, rfl⟩
    rw [Nat.lt_div_iff_mul_lt hstep, Nat.mul_comm] at hk
    exact ⟨by omega, k, rfl⟩
  · rintro ⟨hlt, k, rfl⟩
    refine ⟨k, ?_, rfl⟩
    rw [Nat.lt_div_iff_mul_lt hstep, Nat.mul_comm]
    omega

/-- Top-level entries of kernel addresses are in the upper half. -/
theorem le_getVpn_three {v : Nat} (h : kernelVAddrPfx ≤ v) (hlt : v < 2 ^ 64) :
    256 ≤ getVpn v 3 := by
  have hmask : (0x1ff : Nat) = 2 ^ 9 - 1 := by decide
  rw [getVpn, hmask, Nat.and_two_pow_sub_one_eq_mod, Nat.shiftRight_eq_div_pow]
  rw [kernelVAddrPfx] at h
  omega

/-- What `kernel_vm_init` leaves zero: everything outside the static tables, and the lower half of
`KERNEL_VM_ROOT`. -/
theorem kernelVmWords_eq_zero {a : Nat}
    (hroot : ∀ i, 256 ≤ i → i < 512 → entry (imagePhys cfg.kernelVmRoot) i ≠ a)
    (hlv2 : ∀ i < 512, entry (imagePhys cfg.lv2Table) i ≠ a) :
    kernelVmWords cfg (fun _ => 0) a = 0 := by
  have hpfx : kernelVAddrPfx ≤ kernelCodePfx := by decide
  have htext := cfg.image_le
  have htext' := cfg.text_le
  have hend := cfg.dataEnd_lt
  rw [kernelVmWords, show mapImage cfg = fun mem v => Function.update mem
    (entry (imagePhys cfg.lv2Table) (getVpn v 2)) (Pte.write (imagePhys v) (vmFlag true)) from rfl,
    foldl_update_ne _ _ fun v _ => hlv2 _ (getVpn_lt v 2),
    Function.update_of_ne (hroot _ (le_getVpn_three (by omega) (by omega)) (getVpn_lt ..)).symm,
    show mapDirect cfg = fun mem p => Function.update mem
      (entry (imagePhys cfg.kernelVmRoot) (getVpn (toKernelV p) 3)) (Pte.write p (vmFlag true))
      from rfl, foldl_update_ne]
  intro p hp
  have hlt : p < 2 ^ 47 := by
    have := ((mem_stepBy_iff (by decide)).1 hp).1
    have := cfg.freeRamEnd_le
    rw [directMapEnd] at this
    omega
  have hv := toKernelV_of_lt hlt
  refine hroot _ (le_getVpn_three (by omega) ?_) (getVpn_lt ..)
  rw [hv, kernelVAddrPfx]
  omega

/-! ## The invariant -/

/-- `lvl` gives the level of every table below a root. Tables in no address space are empty, roots
have the upper half of `KERNEL_VM_ROOT`, and the static tables are as `kernel_vm_init` left them. -/
structure Paging (cfg : Config) (lvl : Nat → Option Nat) (s : KState) : Prop where
  forest : Forest 3 (· ∈ s.rooted) s.Points lvl
  table : ∀ {f k}, lvl f = some k → s.IsTable f
  empty : ∀ {f}, s.IsTable f → lvl f = none → ∀ i < 512, s.pte f i = 0
  global : ∀ f ∈ s.rooted, ∀ i, 256 ≤ i → i < 512 →
    s.pte f i = s.pte (imagePhys cfg.kernelVmRoot) i
  static : ∀ a, cfg.isStaticTable a = true → s.mem a = kernelVmWords cfg (fun _ => 0) a

namespace Paging

variable {lvl : Nat → Option Nat}

theorem root_table (hs : Paging cfg lvl s) {f : Nat} (hf : f ∈ s.rooted) : s.IsTable f :=
  hs.table (hs.forest.roots hf)

theorem static_pte (hs : Paging cfg lvl s) {i : Nat} (hi : i < 512) :
    s.pte (imagePhys cfg.kernelVmRoot) i =
      kernelVmWords cfg (fun _ => 0) (entry (imagePhys cfg.kernelVmRoot) i) :=
  hs.static _ (isStaticTable_root hi)

/-- The lower half of `KERNEL_VM_ROOT` is empty. -/
theorem root_lower (hs : Paging cfg lvl s) {i : Nat} (hi : i < 256) :
    s.pte (imagePhys cfg.kernelVmRoot) i = 0 := by
  have h₁ := cfg.kernelVmRoot_aligned
  have h₂ := cfg.lv2Table_aligned
  rw [hs.static_pte (by omega)]
  refine kernelVmWords_eq_zero (fun j hj hlt h => ?_) fun j hj h => ?_
  · have := (entry_inj h₁ h₁ hlt (by omega) h).2
    omega
  · exact cfg.statics_ne (entry_inj h₂ h₁ hj (by omega) h).1.symm

/-- The tables are as they were, and new ones are empty. -/
theorem congr (hs : Paging cfg lvl s) (hrooted : s'.rooted = s.rooted)
    (hold : ∀ f, s.IsTable f → s'.IsTable f)
    (hnew : ∀ f, s'.IsTable f → s.IsTable f ∨ ∀ i < 512, s'.pte f i = 0)
    (hpte : ∀ f, s.IsTable f → ∀ i < 512, s'.pte f i = s.pte f i)
    (hstatic : ∀ a, cfg.isStaticTable a = true → s'.mem a = s.mem a) : Paging cfg lvl s' where
  forest := by
    refine hs.forest.congr (fun a => by rw [hrooted]) fun f g k hf => ?_
    refine exists_congr fun i => and_congr_right fun hi => ?_
    rw [hpte f (hs.table hf) i hi]
  table hf := hold _ (hs.table hf)
  empty hf hlvl i hi := by
    rcases hnew _ hf with hf | hzero
    · rw [hpte _ hf i hi]
      exact hs.empty hf hlvl i hi
    · exact hzero i hi
  global f hf i hi hlt := by
    rw [hrooted] at hf
    rw [hpte f (hs.root_table hf) i hlt, hs.global f hf i hi hlt]
    exact (hstatic _ (isStaticTable_root hlt)).symm
  static a ha := (hstatic a ha).trans (hs.static a ha)

/-- The memory changes outside tables only. -/
theorem setMem (hs : Paging cfg lvl s) {mem : Nat → UInt64}
    (hpte : ∀ f, s.IsTable f → ∀ i < 512, mem (entry f i) = s.pte f i)
    (hstatic : ∀ a, cfg.isStaticTable a = true → mem a = s.mem a) :
    Paging cfg lvl { s with mem } :=
  hs.congr rfl (fun _ hf => hf) (fun _ hf => .inl hf) hpte hstatic

/-- The memory of a page changes. -/
theorem setPage (hs : Paging cfg lvl s) (hwf : HeapWF cfg s) {o : Object} (ho : o ∈ s.objects)
    (hk : o.kind = .page) {mem : Nat → UInt64}
    (hmem : ∀ a, a < o.addr ∨ o.addr + 4096 ≤ a → mem a = s.mem a) :
    Paging cfg lvl { s with mem } := by
  refine hs.setMem (fun f hf i hi => hmem _ ?_) fun a ha => hmem a ?_
  · have := hwf.page_apart ho hk hf
    rw [entry]
    omega
  · have := hwf.frame_bounds ho (.inl hk)
    have := static_apart ha
    omega

/-! ### New objects -/

/-- A new object that is no table. -/
theorem addObject (hs : Paging cfg lvl s) {o : Object} (hk : o.kind ≠ .pageTable)
    (hrooted : s'.rooted = s.rooted) (hmem : s'.mem = s.mem) (hobj : s'.objects = o :: s.objects) :
    Paging cfg lvl s' := by
  have htable : ∀ f, s'.IsTable f ↔ s.IsTable f := by
    simp [KState.IsTable, KState.isObject, hobj, hk]
  exact hs.congr hrooted (fun f hf => (htable f).2 hf) (fun f hf => .inl ((htable f).1 hf))
    (fun f _ i _ => by rw [KState.pte, hmem]; rfl) fun a _ => by rw [hmem]

/-- A new table, with its memory zero, is in no address space. -/
theorem addTable (hs : Paging cfg lvl s) (hwf : HeapWF cfg s) {o : Object} (ho : o.Fresh cfg s)
    (hk : o.kind = .pageTable) (hrooted : s'.rooted = s.rooted)
    (hobj : s'.objects = o :: s.objects) (hzero : ∀ i < 512, s'.pte o.addr i = 0)
    (hmem : ∀ a, a < o.addr ∨ o.addr + 4096 ≤ a → s'.mem a = s.mem a) :
    Paging cfg lvl s' ∧ lvl o.addr = none := by
  have hwf' : HeapWF cfg (s.born o) := hwf.born ho
  obtain ⟨hsize, hal, hle, hend⟩ :=
    hwf'.frame_bounds (by rw [objects_born]; exact List.mem_cons_self ..) (.inr hk)
  have hapart : ∀ f, s.IsTable f → o.addr + 4096 ≤ f ∨ f + 4096 ≤ o.addr := by
    intro f hf
    obtain ⟨o', ho', hk', rfl⟩ := KState.isTable_iff.1 hf
    have := (hwf.frame_bounds ho' (.inr hk')).1
    have := ho.apart o' ho'
    simp only [Object.overlaps, Bool.and_eq_false_iff, decide_eq_false_iff_not] at this
    omega
  have htable : ∀ f, s'.IsTable f ↔ s.IsTable f ∨ f = o.addr := by
    intro f
    simp only [KState.IsTable, KState.isObject, hobj, List.any_cons, hk, Bool.or_eq_true,
      decide_true, Bool.true_and, decide_eq_true_eq]
    rw [or_comm, eq_comm (a := o.addr)]
  constructor
  · refine hs.congr hrooted (fun f hf => (htable f).2 (.inl hf)) (fun f hf => ?_)
      (fun f hf i hi => hmem _ ?_) fun a ha => hmem a ?_
    · rcases (htable f).1 hf with hf | rfl
      · exact .inl hf
      · exact .inr hzero
    · have := hapart f hf
      rw [entry]
      omega
    · have := static_apart ha
      omega
  · cases hl : lvl o.addr with
    | none => rfl
    | some k =>
      have := hapart _ (hs.table hl)
      omega

theorem bornTable (hs : Paging cfg lvl s) (hwf : HeapWF cfg s) {o : Object} (ho : o.Fresh cfg s)
    (hk : o.kind = .pageTable) : Paging cfg lvl (s.born o) ∧ lvl o.addr = none := by
  have hmem := mem_born_table ho hk
  refine hs.addTable hwf ho hk (rooted_born s o) (objects_born s o) (fun i hi => ?_) fun a ha => ?_
  · rw [KState.pte, hmem]
    refine if_pos ?_
    rw [entry, pageSize]
    omega
  · rw [hmem]
    refine if_neg ?_
    rw [pageSize]
    omega

/-! ### Walks -/

/-- Entries of tables can be read. -/
theorem readPte_table (hwf : HeapWF cfg s) {f i : Nat} (hf : s.IsTable f) (hi : i < 512) :
    readPte cfg (entry f i) s = .ok (s.pte f i) := by
  obtain ⟨o, ho, hk, rfl⟩ := KState.isTable_iff.1 hf
  have hframe := KState.isFrame_entry ho hk (hwf.frame_bounds ho (.inr hk)).1 hi
  simp only [readPte, Query.bind_ok, Query.read_ok, exists_eq_left', hframe, Bool.true_or, if_true]
  rfl

theorem pathFrom_valid {k f vaddr : Nat}
    (h : Pte.isValid (s.pte f (getVpn vaddr (k + 1))) = true) :
    PageTable.pathFrom s.mem (k + 1) f vaddr =
      f :: PageTable.pathFrom s.mem k (Pte.target (s.pte f (getVpn vaddr (k + 1)))) vaddr :=
  if_pos h

theorem pathFrom_invalid {k f vaddr : Nat}
    (h : Pte.isValid (s.pte f (getVpn vaddr (k + 1))) = false) :
    PageTable.pathFrom s.mem (k + 1) f vaddr = [f] :=
  if_neg (Bool.eq_false_iff.1 h)

/-- **A walk of a user address stays in tables.** It ends at an entry of a table at the level it
reports, and above the last level this entry is not valid. -/
theorem walkFrom (hs : Paging cfg lvl s) (hwf : HeapWF cfg s) {vaddr : Nat} (hv : vaddr < 2 ^ 47)
    {k f : Nat} (hf : lvl f = some k) :
    (∀ g ∈ PageTable.pathFrom s.mem k f vaddr, s.IsTable g) ∧
    ∃ l g i, PageTable.walkFrom cfg k f vaddr s = .ok (l, entry g i) ∧ lvl g = some l ∧ i < 512 ∧
      (l = 3 → i < 256) ∧ (l ≠ 0 → Pte.isValid (s.pte g i) = false) := by
  induction k generalizing f with
  | zero =>
    refine ⟨fun g hg => ?_, 0, f, getVpn vaddr 0, rfl, hf, getVpn_lt .., nofun, absurd rfl⟩
    rw [PageTable.pathFrom, List.mem_singleton] at hg
    exact hg ▸ hs.table hf
  | succ k ih =>
    have hi := getVpn_lt vaddr (k + 1)
    have hhalf : k + 1 = 3 → getVpn vaddr (k + 1) < 256 := fun h => h ▸ getVpn_three_lt hv
    have hread := readPte_table hwf (hs.table hf) hi
    cases hvalid : Pte.isValid (s.pte f (getVpn vaddr (k + 1))) with
    | true =>
      obtain ⟨hpath, l, g, i, hwalk, h⟩ := ih (hs.forest.edges hf ⟨_, hi, hhalf, hvalid, rfl⟩)
      refine ⟨?_, l, g, i, Query.bind_ok.2 ⟨_, hread, ?_⟩, h⟩
      · rw [pathFrom_valid hvalid, List.forall_mem_cons]
        exact ⟨hs.table hf, hpath⟩
      · rw [if_pos hvalid]
        exact hwalk
    | false =>
      refine ⟨?_, k + 1, f, _, Query.bind_ok.2 ⟨_, hread, ?_⟩, hf, hi, hhalf, fun _ => hvalid⟩
      · rw [pathFrom_invalid hvalid, List.forall_mem_singleton]
        exact hs.table hf
      · rw [if_neg (Bool.eq_false_iff.1 hvalid)]
        rfl

/-! ### New entries -/

/-- The words of other tables and of the static tables are not the one that is written. -/
theorem setWord_of_ne (hwf : HeapWF cfg s) {g i f j : Nat} {w : UInt64} (hg : s.IsTable g)
    (hi : i < 512) (hf : s.IsTable f) (hj : j < 512) (hne : ¬(f = g ∧ j = i)) :
    (s.setWord (entry g i) w).pte f j = s.pte f j :=
  Function.update_of_ne (fun h => hne
    (entry_inj (hwf.table_bounds hf).1 (hwf.table_bounds hg).1 hj hi h)) ..

theorem setWord_static (hwf : HeapWF cfg s) {g i a : Nat} {w : UInt64} (hg : s.IsTable g)
    (hi : i < 512) (ha : cfg.isStaticTable a = true) :
    (s.setWord (entry g i) w).mem a = s.mem a := by
  refine Function.update_of_ne ?_ ..
  rintro rfl
  exact hwf.entry_not_static hg hi ha

/-- An entry of a table at the last level changes. -/
theorem setLeaf (hs : Paging cfg lvl s) (hwf : HeapWF cfg s) {g i : Nat} (hg : lvl g = some 0)
    (hi : i < 512) (w : UInt64) : Paging cfg lvl (s.setWord (entry g i) w) := by
  have hpte : ∀ f, s.IsTable f → f ≠ g → ∀ j < 512,
      (s.setWord (entry g i) w).pte f j = s.pte f j :=
    fun f hf hne j hj => setWord_of_ne hwf (hs.table hg) hi hf hj fun h => hne h.1
  have hother : ∀ {f k}, lvl f = some (k + 1) → f ≠ g := by
    rintro f k hf rfl
    cases hf.symm.trans hg
  refine ⟨?_, hs.table, fun {f} hf hlvl j hj => ?_, fun f hf j hj hlt => ?_, fun a ha => ?_⟩
  · refine hs.forest.congr (fun _ => Iff.rfl) fun f _ k hf => ?_
    refine exists_congr fun j => and_congr_right fun hj => ?_
    rw [hpte f (hs.table hf) (hother hf) j hj]
  · rw [hpte f hf (by rintro rfl; cases hlvl.symm.trans hg) j hj]
    exact hs.empty hf hlvl j hj
  · rw [hpte f (hs.root_table hf) (hother (hs.forest.roots hf)) j hlt, hs.global f hf j hj hlt]
    exact (setWord_static hwf (hs.table hg) hi (isStaticTable_root hlt)).symm
  · rw [setWord_static hwf (hs.table hg) hi ha]
    exact hs.static a ha

/-- A link to a table in an entry that was free. -/
theorem points_link (hwf : HeapWF cfg s) {g i y : Nat} (hg : s.IsTable g) (hi : i < 512)
    (hfree : Pte.isValid (s.pte g i) = false) (hy : s.IsTable y) {l a b : Nat} (ha : s.IsTable a)
    (hhalf : a = g → l = 3 → i < 256) :
    (s.setWord (entry g i) (Pte.write y pageV)).Points l a b ↔
      s.Points l a b ∨ (a = g ∧ b = y) := by
  have hself : (s.setWord (entry g i) (Pte.write y pageV)).pte g i = Pte.write y pageV :=
    Function.update_self ..
  have hflag : pageV < 2 ^ 10 := by decide
  have hvalid : Pte.isValid (Pte.write y pageV) = true := Pte.isValid_write (hwf.table_lt hy) hflag
  have htarget := Pte.target_write (hwf.table_lt hy) (hwf.table_bounds hy).1 hflag
  constructor
  · rintro ⟨m, hm, hh, hv, ht⟩
    by_cases hmi : a = g ∧ m = i
    · obtain ⟨rfl, rfl⟩ := hmi
      rw [hself, htarget] at ht
      exact .inr ⟨rfl, ht.symm⟩
    · rw [setWord_of_ne hwf hg hi ha hm hmi] at hv ht
      exact .inl ⟨m, hm, hh, hv, ht⟩
  · rintro (⟨m, hm, hh, hv, ht⟩ | ⟨rfl, rfl⟩)
    · have hmi : ¬(a = g ∧ m = i) := by
        rintro ⟨rfl, rfl⟩
        cases hfree.symm.trans hv
      refine ⟨m, hm, hh, ?_, ?_⟩ <;> rw [setWord_of_ne hwf hg hi ha hm hmi]
      · exact hv
      · exact ht
    · exact ⟨i, hi, hhalf rfl, by rw [hself, hvalid], by rw [hself, htarget]⟩

/-- The tables with a level, after one more has got a level. -/
theorem table_update (hs : Paging cfg lvl s) {f y j k : Nat} (hy : s.IsTable y)
    (hf : Function.update lvl y (some k) f = some j) : s.IsTable f := by
  rw [Function.update_apply] at hf
  split at hf
  · next h => exact h ▸ hy
  · exact hs.table hf

theorem of_update_none {f y k : Nat} (hf : Function.update lvl y (some k) f = none) :
    f ≠ y ∧ lvl f = none := by
  rw [Function.update_apply] at hf
  split at hf
  · cases hf
  · next hne => exact ⟨hne, hf⟩

/-- A table in no address space is linked into one. -/
theorem link (hs : Paging cfg lvl s) (hwf : HeapWF cfg s) {g i k y : Nat}
    (hg : lvl g = some (k + 1)) (hi : i < 512) (hhalf : k + 1 = 3 → i < 256)
    (hfree : Pte.isValid (s.pte g i) = false) (hy : s.IsTable y) (hnone : lvl y = none) :
    Paging cfg (Function.update lvl y (some k)) (s.setWord (entry g i) (Pte.write y pageV)) := by
  have hgt := hs.table hg
  have hpte : ∀ f, s.IsTable f → ∀ j < 512, ¬(f = g ∧ j = i) →
      (s.setWord (entry g i) (Pte.write y pageV)).pte f j = s.pte f j :=
    fun f hf j hj hne => setWord_of_ne hwf hgt hi hf hj hne
  have hyg : y ≠ g := by
    rintro rfl
    cases hnone.symm.trans hg
  refine ⟨hs.forest.link hg hnone ?_ ?_, hs.table_update hy, fun {f} hf hlvl j hj => ?_,
    fun f hf j hj hlt => ?_, fun a ha => ?_⟩
  · rintro b ⟨j, hj, -, hv, -⟩
    rw [hpte y hy j hj fun h => hyg h.1, hs.empty hy hnone j hj, Pte.not_isValid_zero] at hv
    cases hv
  · intro a b j ha
    refine points_link hwf hgt hi hfree hy (hs.table ha) ?_
    rintro rfl hj
    exact hhalf ((Option.some.inj (hg.symm.trans ha)).trans hj)
  · obtain ⟨-, hlvl⟩ := of_update_none hlvl
    have hne : f ≠ g := by
      rintro rfl
      cases hlvl.symm.trans hg
    rw [hpte f hf j hj fun h => hne h.1]
    exact hs.empty hf hlvl j hj
  · have hne : ¬(f = g ∧ j = i) := by
      rintro ⟨rfl, rfl⟩
      have := hhalf (Option.some.inj (hg.symm.trans (hs.forest.roots hf)))
      omega
    rw [hpte f (hs.root_table hf) j hlt hne, hs.global f hf j hj hlt]
    exact (setWord_static hwf hgt hi (isStaticTable_root hlt)).symm
  · rw [setWord_static hwf hgt hi ha]
    exact hs.static a ha

/-- A table in no address space becomes a root. -/
theorem makeRoot (hs : Paging cfg lvl s) (hwf : HeapWF cfg s) {y : Nat} (hy : s.IsTable y)
    (hnone : lvl y = none) : Paging cfg (Function.update lvl y (some 3)) (s.madeRoot cfg y) := by
  have hpte : ∀ f, s.IsTable f → f ≠ y → ∀ i < 512, (s.madeRoot cfg y).pte f i = s.pte f i := by
    intro f hf hne i hi
    refine KState.mem_madeRoot_of_ne ?_
    have h₁ := (hwf.table_bounds hf).1
    have h₂ := (hwf.table_bounds hy).1
    rw [entry]
    omega
  have hstatic : ∀ a, cfg.isStaticTable a = true → (s.madeRoot cfg y).mem a = s.mem a := by
    intro a ha
    have := static_apart ha
    have := hwf.table_bounds hy
    exact KState.mem_madeRoot_of_ne (by omega)
  have hused : ∀ {f k}, lvl f = some k → f ≠ y := by
    rintro f k hf rfl
    cases hf.symm.trans hnone
  refine ⟨hs.forest.addRoot hnone ?_ ?_ ?_, hs.table_update hy, fun {f} hf hlvl j hj => ?_,
    fun f hf j hj hlt => ?_, fun a ha => (hstatic a ha).trans (hs.static a ha)⟩
  · rintro b ⟨j, hj, hhalf, hv, -⟩
    rw [KState.pte_madeRoot_self hj, hs.root_lower (hhalf rfl), Pte.not_isValid_zero] at hv
    cases hv
  · intro a
    rw [KState.madeRoot, List.mem_cons, or_comm]
  · intro a b j ha
    refine exists_congr fun i => and_congr_right fun hi => ?_
    rw [hpte a (hs.table ha) (hused ha) i hi]
  · obtain ⟨hne, hlvl⟩ := of_update_none hlvl
    rw [hpte f hf hne j hj]
    exact hs.empty hf hlvl j hj
  · have hk := hstatic _ (isStaticTable_root hlt)
    rw [KState.madeRoot, List.mem_cons] at hf
    rcases hf with rfl | hf
    · rw [KState.pte_madeRoot_self hlt]
      exact hk.symm
    · rw [hpte f (hs.root_table hf) (hused (hs.forest.roots hf)) j hlt, hs.global f hf j hj hlt]
      exact hk.symm

end Paging

/-! ## The kernel keeps the invariant -/

/-- There are levels for all tables. -/
def Paged (cfg : Config) (s : KState) : Prop := HeapWF cfg s ∧ ∃ lvl, Paging cfg lvl s

namespace Paged

theorem of_eq (hs : Paged cfg s) (hobj : s'.objects = s.objects) (hrooted : s'.rooted = s.rooted)
    (hmem : s'.mem = s.mem) (htcbs : s'.tcbs = s.tcbs) : Paged cfg s' := by
  obtain ⟨hwf, lvl, hp⟩ := hs
  have htable : ∀ f, s'.IsTable f ↔ s.IsTable f := by
    simp [KState.IsTable, KState.isObject, hobj]
  exact ⟨hwf.of_eq hobj htcbs, lvl, hp.congr hrooted (fun f hf => (htable f).2 hf)
    (fun f hf => .inl ((htable f).1 hf)) (fun f _ i _ => by rw [KState.pte, hmem, KState.pte])
    fun a _ => by rw [hmem]⟩

theorem setTcb (hs : Paged cfg s) {p : Nat} {t : ThreadInfo} (ht : s.tcbs p = some t)
    (t' : ThreadInfo) : Paged cfg (s.setTcb p t') := by
  obtain ⟨hwf, lvl, hp⟩ := hs
  exact ⟨hwf.setTcb t' ht, lvl, hp.congr rfl (fun _ hf => hf) (fun _ hf => .inl hf)
    (fun _ _ _ _ => rfl) fun _ _ => rfl⟩

/-- The memory of a page changes. -/
theorem setPage (hs : Paged cfg s) {f : Nat} (hf : s.isObject .page f = true) {mem : Nat → UInt64}
    (hmem : ∀ a, a < f ∨ f + 4096 ≤ a → mem a = s.mem a) : Paged cfg { s with mem } := by
  obtain ⟨hwf, lvl, hp⟩ := hs
  obtain ⟨o, ho, hk, rfl⟩ := KState.isObject_iff.1 hf
  exact ⟨hwf.of_eq rfl rfl, lvl, hp.setPage hwf ho hk hmem⟩

theorem born (hs : Paged cfg s) {o : Object} (ho : o.Fresh cfg s) : Paged cfg (s.born o) := by
  obtain ⟨hwf, lvl, hp⟩ := hs
  refine ⟨hwf.born ho, lvl, ?_⟩
  by_cases hk : o.kind = .pageTable
  · exact (hp.bornTable hwf ho hk).1
  · exact hp.addObject hk (rooted_born s o) (mem_born s hk) (objects_born s o)

end Paged

theorem paged_tcbStable {P : CapProp} : TcbStable cfg P (Paged cfg) where
  toCapStable := .of_slots (fun _ _ hs => hs.of_eq rfl rfl rfl rfl)
    (fun _ _ _ _ _ ht _ hs => hs.setTcb ht _) fun _ _ ho hs => hs.born ho
  regs _ _ _ _ _ ht _ hs := hs.setTcb ht _
  refill _ _ _ _ _ ht hs := hs.setTcb ht _

theorem paged_renews : Renews (Paged cfg) := by
  rintro s o ho - ⟨hwf, lvl, hp⟩
  obtain ⟨tcbs, endpoints, notifications, h⟩ := renewed_cells s o
  refine ⟨hwf.renewed ho, lvl, ?_⟩
  rw [h]
  exact hp.congr rfl (fun _ hf => hf) (fun _ hf => .inl hf) (fun _ _ _ _ => rfl) fun _ _ => rfl

theorem paged_threadStable : ThreadStable (Paged cfg) where
  tcb _ _ _ _ ht _ hs := hs.setTcb ht _
  queues _ _ _ _ hs := hs.of_eq rfl rfl rfl rfl
  request _ _ hs := hs.of_eq rfl rfl rfl rfl
  vspace _ _ hs := hs.of_eq rfl rfl rfl rfl
  switch _ _ hs := hs.of_eq rfl rfl rfl rfl
  copy s dst src hdst hs := hs.setPage hdst fun a ha => if_neg (by
    rw [ipcBufferWords, messageLen]
    omega)

/-! ## Invocations -/

theorem Paging.none_of_unlinked {lvl : Nat → Option Nat} (hs : Paging cfg lvl s) {f : Nat}
    (hf : s.Unlinked f) : lvl f = none := by
  refine hs.forest.unused hf.1 ?_
  rintro g k hg ⟨i, hi, -, hv, ht⟩
  obtain ⟨o, ho, hk, rfl⟩ := KState.isTable_iff.1 (hs.table hg)
  exact hf.2 o ho hk i hi hv ht

/-- The object behind a capability. -/
theorem ObjectCap.isObject_getFrame {c : CapabilityData} {k : CapabilityType} (hwf : HeapWF cfg s)
    (hc : ObjectCap s.objects s.rooted c) (hk : c.getCapType = .ok k) (hne : k ≠ .untyped) :
    s.isObject k c.getFrame = true := by
  obtain ⟨o, ho, hkind, haddr⟩ := hc k hk hne
  have hlt := (Object.lt_of_admissible (hwf.admissible o ho)).2.2.1
  rw [CapabilityData.getFrame, ← haddr, direct_of_lt hlt]
  exact KState.isObject_iff.2 ⟨o, ho, hkind, rfl⟩

/-- The table behind a page table capability. -/
theorem ObjectCap.getFrame_isTable {c : CapabilityData} (hwf : HeapWF cfg s)
    (hc : ObjectCap s.objects s.rooted c) (hk : c.getCapType = .ok .pageTable) :
    s.IsTable c.getFrame :=
  hc.isObject_getFrame hwf hk nofun

/-- Under the condition, invocations on pages and page tables keep the invariant. -/
theorem MapsBelowRoots.mappingKeeps {invLabel : InvLabel} {reg : Registers} {u : KState}
    {inv : Invocation} (hcond : MapsBelowRoots cfg invLabel reg u inv) :
    MappingKeeps cfg ObjectCap (Paged cfg) invLabel reg u inv := by
  rintro k v w hkind hk hcap ⟨hwf, lvl, hp⟩ h
  obtain ⟨hwalks, hunlinked⟩ := hcond
  rcases hkind with rfl | rfl
  · obtain ⟨vaddr, p, root, a, w, d, hv, hlookup, hwalk, -, rfl⟩ := invokePage_ok hk h
    obtain ⟨hlt, hroots⟩ := hwalks vaddr hv
    obtain ⟨-, l, g, i, hwalk', hg, hi, -, -⟩ :=
      hp.walkFrom hwf hlt (hp.forest.roots (hroots _ hlookup))
    obtain ⟨rfl, rfl⟩ := Prod.mk.inj (Except.ok.inj (hwalk'.symm.trans hwalk))
    have hs : Paged cfg (u.setWord (entry g i) w) :=
      ⟨hwf.of_eq rfl rfl, lvl, hp.setLeaf hwf hg hi w⟩
    exact hs.of_eq rfl rfl rfl rfl
  · have htable := ObjectCap.getFrame_isTable hwf hcap hk
    obtain ⟨-, ⟨rfl, p, root, level, a, hlookup, hwalk, hl, -, rfl⟩ | ⟨rfl, -, rfl⟩⟩ :=
      invokePageTable_ok h
    · obtain ⟨hlt, hroots⟩ := hwalks reg.a5.toNat (by simp [walkVaddr?, hk])
      obtain ⟨-, l, g, i, hwalk', hg, hi, hhalf, hfree⟩ :=
        hp.walkFrom hwf hlt (hp.forest.roots (hroots _ hlookup))
      obtain ⟨rfl, rfl⟩ := Prod.mk.inj (Except.ok.inj (hwalk'.symm.trans hwalk))
      obtain ⟨k, rfl⟩ := Nat.exists_eq_succ_of_ne_zero hl
      have hs : Paged cfg (u.setWord (entry g i) (Pte.write inv.cap.getFrame pageV)) :=
        ⟨hwf.of_eq rfl rfl, _, hp.link hwf hg hi hhalf (hfree hl)
          htable (hp.none_of_unlinked (hunlinked hk (.inl rfl)))⟩
      exact hs.of_eq rfl rfl rfl rfl
    · have hs : Paged cfg (u.madeRoot cfg inv.cap.getFrame) :=
        ⟨hwf.of_eq rfl rfl, _,
          hp.makeRoot hwf htable (hp.none_of_unlinked (hunlinked hk (.inr rfl)))⟩
      exact hs.of_eq rfl rfl rfl rfl

theorem Paged.step (hs : Paged cfg s) (hcaps : CapsAll ObjectCap s) {ev : Event}
    (hcond : ev.Meets cfg (MapsBelowRoots cfg) s) (h : Step cfg s ev s') : Paged cfg s' := by
  refine paged_tcbStable.toCapStable.step paged_threadStable objectCap_capRule ?_ ?_
    (.inl paged_renews) ?_ ?_ ?_ hcaps hs h
  · -- a user program writes to a page
    rintro a w rfl ⟨-, o, ho, hk, hle, hlt⟩ hs
    have hf : s.isObject .page o.addr = true := KState.isObject_iff.2 ⟨o, ho, hk, rfl⟩
    have hsize := (hs.1.frame_bounds ho (.inl hk)).1
    exact hs.setPage hf fun b hb => Function.update_of_ne (by omega) ..
  · exact fun regs t _ ht _ hs => hs.setTcb ht _
  · exact fun _ _ _ _ _ _ _ _ _ _ _ _ ht hu => hu.setTcb ht _
  · exact fun _ _ _ _ _ => mintKeeps_objectCap
  · exact fun _ _ _ _ hinv => (hcond _ _ _ _ hinv).mappingKeeps

/-! ## Boot -/

/-- The memory that is in no object yet is zero. -/
def FreeZero (cfg : Config) (s : KState) : Prop :=
  ∀ a, cfg.freeRam ≤ a → a < cfg.freeRamEnd →
    (∀ o ∈ s.objects, a < o.addr ∨ o.addr + o.size ≤ a) → s.mem a = 0

theorem FreeZero.mono (hz : FreeZero cfg s) (hobj : ∀ o ∈ s.objects, o ∈ s'.objects)
    (hmem : ∀ a, s'.mem a = s.mem a ∨ s'.mem a = 0 ∨
      ∃ o ∈ s'.objects, o.addr ≤ a ∧ a < o.addr + o.size) : FreeZero cfg s' := by
  intro a hle hlt hout
  rcases hmem a with h | h | ⟨o, ho, h₁, h₂⟩
  · rw [h]
    exact hz a hle hlt fun o ho => hout o (hobj o ho)
  · exact h
  · have := hout o ho
    omega

theorem FreeZero.born (hz : FreeZero cfg s) (o : Object) : FreeZero cfg (s.born o) := by
  refine hz.mono (fun o' ho' => by rw [objects_born]; exact List.mem_cons_of_mem _ ho') fun a => ?_
  by_cases hk : o.kind = .pageTable
  · rw [KState.born, hk]
    simp only [KState.zeroMem]
    split
    · exact .inr (.inl rfl)
    · exact .inl rfl
  · rw [mem_born s hk]
    exact .inl rfl

/-- An entry of a table changes. -/
theorem FreeZero.setWord (hz : FreeZero cfg s) (hwf : HeapWF cfg s) {g i : Nat} (hg : s.IsTable g)
    (hi : i < 512) (w : UInt64) : FreeZero cfg (s.setWord (entry g i) w) := by
  obtain ⟨o, ho, hk, rfl⟩ := KState.isTable_iff.1 hg
  have hsize := (hwf.frame_bounds ho (.inr hk)).1
  refine hz.mono (fun _ ho => ho) fun a => ?_
  by_cases ha : a = entry o.addr i
  · refine .inr (.inr ⟨o, ho, ?_⟩)
    rw [ha, entry]
    omega
  · exact .inl (Function.update_of_ne ha ..)

/-- While the address space of the root server is made: `root` is a root, and new tables are
empty. -/
structure Booting (cfg : Config) (root : Nat) (s : KState) : Prop where
  paged : Paged cfg s
  zero : FreeZero cfg s
  root : root ∈ s.rooted

theorem freeZero_capStable {P : CapProp} : CapStable cfg P fun s => Paged cfg s ∧ FreeZero cfg s :=
  paged_tcbStable.toCapStable.and (.of_slots (fun _ _ hs => hs) (fun _ _ _ _ _ _ _ hs => hs)
    fun _ o _ hs => hs.born o)

theorem booting_spaceStable {P : CapProp} (root : Nat) :
    SpaceStable cfg P root (· < 2 ^ 47) (Booting cfg root) where
  toCapStable := .of_slots
    (fun _ _ hs => ⟨hs.paged.of_eq rfl rfl rfl rfl, hs.zero, hs.root⟩)
    (fun _ _ _ _ _ ht _ hs => ⟨hs.paged.setTcb ht _, hs.zero, hs.root⟩)
    fun s o ho hs => ⟨hs.paged.born ho, hs.zero.born o, by rw [rooted_born]; exact hs.root⟩
  link s o p cap vaddr level a ho hk _ hU hl hwalk hs := by
    obtain ⟨⟨hwf, lvl, hp⟩, hz, hroot⟩ := hs
    have hwf' : HeapWF cfg
        ({ s with objects := o :: s.objects }.setSlot p (some (.newWithRawcap cap))) :=
      (hwf.born ho).of_eq (objects_born s o).symm (by rw [KState.born, hk]; rfl)
    have hmem : o ∈ ({ s with objects := o :: s.objects }.setSlot p
        (some (.newWithRawcap cap))).objects := List.mem_cons_self ..
    obtain ⟨hsize, hal, hle, hend⟩ := hwf'.frame_bounds hmem (.inr hk)
    have hzero : ∀ i < 512, s.mem (entry o.addr i) = 0 := by
      intro i hi
      refine hz _ (by rw [entry]; omega) (by rw [entry]; omega) fun o' ho' => ?_
      have := ho.apart o' ho'
      simp only [Object.overlaps, Bool.and_eq_false_iff, decide_eq_false_iff_not] at this
      rw [entry]
      omega
    obtain ⟨hp', hnone⟩ : Paging cfg lvl ({ s with objects := o :: s.objects }.setSlot p
        (some (.newWithRawcap cap))) ∧ lvl o.addr = none := by
      refine hp.addTable hwf ho hk rfl rfl ?_ fun _ _ => rfl
      exact hzero
    have hz' : FreeZero cfg ({ s with objects := o :: s.objects }.setSlot p
        (some (.newWithRawcap cap))) :=
      hz.mono (fun o' ho' => List.mem_cons_of_mem _ ho') fun _ => .inl rfl
    obtain ⟨-, l, g, i, hwalk', hg, hi, hhalf, hfree⟩ :=
      hp'.walkFrom hwf' hU (hp'.forest.roots hroot)
    obtain ⟨rfl, rfl⟩ := Prod.mk.inj (Except.ok.inj (hwalk'.symm.trans hwalk))
    obtain ⟨k, rfl⟩ := Nat.exists_eq_succ_of_ne_zero hl
    exact ⟨⟨hwf'.of_eq rfl rfl, _, hp'.link hwf' hg hi hhalf (hfree hl)
      (KState.isTable_iff.2 ⟨o, hmem, hk, rfl⟩) hnone⟩, hz'.setWord hwf' (hp'.table hg) hi _, hroot⟩
  leaf s vaddr a w hU hwalk hs := by
    obtain ⟨⟨hwf, lvl, hp⟩, hz, hroot⟩ := hs
    obtain ⟨-, l, g, i, hwalk', hg, hi, -, -⟩ := hp.walkFrom hwf hU (hp.forest.roots hroot)
    obtain ⟨rfl, rfl⟩ := Prod.mk.inj (Except.ok.inj (hwalk'.symm.trans hwalk))
    exact ⟨⟨hwf.of_eq rfl rfl, lvl, hp.setLeaf hwf hg hi w⟩, hz.setWord hwf (hp.table hg) hi w,
      hroot⟩
  fill s f src n hn hf hs := by
    refine ⟨hs.paged.setPage hf fun a ha => if_neg ?_, hs.zero.mono (fun _ ho => ho) fun a => ?_,
      hs.root⟩
    · rw [pageSize] at hn
      omega
    · obtain ⟨o, ho, hk, rfl⟩ := KState.isObject_iff.1 hf
      have hsize := (hs.paged.1.frame_bounds ho (.inl hk)).1
      rw [pageSize] at hn
      by_cases ha : o.addr ≤ a ∧ a < o.addr + n
      · exact .inr (.inr ⟨o, ho, by omega⟩)
      · exact .inl (if_neg ha)

theorem booting_madeRoot {o : Object} (ho : o.Fresh cfg s) (hk : o.kind = .pageTable)
    (hs : Paged cfg s ∧ FreeZero cfg s) : Booting cfg o.addr ((s.born o).madeRoot cfg o.addr) := by
  obtain ⟨⟨hwf, lvl, hp⟩, hz⟩ := hs
  obtain ⟨hp', hnone⟩ := hp.bornTable hwf ho hk
  have hwf' := hwf.born ho
  have hmem : o ∈ (s.born o).objects := by
    rw [objects_born]
    exact List.mem_cons_self ..
  have hsize := (hwf'.frame_bounds hmem (.inr hk)).1
  refine ⟨⟨hwf'.of_eq rfl rfl, _,
    hp'.makeRoot hwf' (KState.isTable_iff.2 ⟨o, hmem, hk, rfl⟩) hnone⟩,
    (hz.born o).mono (fun _ ho => ho) fun a => ?_, List.mem_cons_self ..⟩
  by_cases ha : o.addr ≤ a ∧ a < o.addr + pageSize
  · exact .inr (.inr ⟨o, hmem, by rw [hsize]; exact ha⟩)
  · exact .inl (if_neg ha)

/-- After `kernel_vm_init`. -/
theorem paged_afterVmInit : Paged cfg (.afterVmInit cfg) ∧ FreeZero cfg (.afterVmInit cfg) := by
  refine ⟨⟨heapWF_initial.of_eq rfl rfl, fun _ => none, ⟨nofun, nofun, nofun⟩, nofun, nofun, nofun,
    fun _ _ => rfl⟩, fun a hle hlt _ => ?_⟩
  have h₁ := cfg.kernelVmRoot_apart
  have h₂ := cfg.lv2Table_apart
  refine kernelVmWords_eq_zero (fun i _ hi h => ?_) fun i hi h => ?_ <;>
  · rw [entry] at h
    omega

/-- The root server lies in the user half, with two pages behind it. -/
def Image.InUserHalf (image : Image) : Prop :=
  ∀ hdr ∈ image.phdrs, hdr.load = true → hdr.vaddr + hdr.memsz + 2 * pageSize ≤ 2 ^ 47

theorem Image.InUserHalf.within {image : Image} (h : image.InUserHalf) :
    image.Within cfg (· < 2 ^ 47) := by
  have hroom : ∀ v, v + 2 * pageSize < 2 ^ 47 → Room cfg (· < 2 ^ 47) v := by
    intro v hv
    rw [pageSize] at hv
    refine ⟨by omega, fun v₁ h₁ => ?_, fun v₁ v₂ h₁ h₂ => ?_⟩
    · have := Profile.wrap_eq_mod h₁
      rw [pageSize] at this
      omega
    · have := Profile.wrap_eq_mod h₁
      have := Profile.wrap_eq_mod h₂
      rw [pageSize] at *
      omega
  refine ⟨hroom 0 (by decide), fun hdr hmem hload bytes hbytes i hi v hv => hroom v ?_⟩
  have hfit := h hdr hmem hload
  have hround : alignUp cfg.profile hdr.memsz pageSize = some (roundUp hdr.memsz pageSize) :=
    CapabilityData.alignUp_eq_roundUp _ (j := 12) (by decide) (by rw [pageSize] at hfit; omega)
  obtain rfl := Option.some.inj (hround.symm.trans hbytes)
  have hv := Profile.wrap_eq_mod hv
  rw [roundUp, pageSize] at hi
  rw [pageSize] at *
  omega

theorem paged_boot {image : Image} (himage : image.InUserHalf) (h : Boot cfg image s) :
    Paged cfg s := by
  obtain ⟨thread, s₃, s₄, -, hs₃, hres, hsched⟩ :=
    freeZero_capStable.boot booting_spaceStable paged_tcbStable .trivial
      (fun _ _ ho hk hs => booting_madeRoot ho hk hs)
      (fun _ s s' u hs hidle => by
        obtain ⟨t, ht, rfl⟩ := createIdleThread_ok.1 hidle
        exact (hs.paged.setTcb ht _).of_eq rfl rfl rfl rfl)
      (fun s f info hf hs => hs.setPage hf fun a ha => if_neg (by rw [pageSize]; omega))
      paged_afterVmInit himage.within h
  have hT : ThreadStable (Paged cfg) := paged_threadStable
  exact hT.start hs₃ hres hsched

theorem paged_of_run {image : Image} {s₀ : KState} (himage : image.InUserHalf)
    (hboot : Boot cfg image s₀) (hrun : Run cfg (GuardedFits cfg) s₀ s) :
    Paged cfg s ∧ CapsAll ObjectCap s :=
  run_invariant (P := fun s => Paged cfg s ∧ CapsAll ObjectCap s) hrun
    ⟨paged_boot himage hboot, CapsAll.boot objectCap_capRule hboot⟩
    fun _ _ ⟨hu, hcaps⟩ ⟨_, hcond, hstep⟩ => 
      ⟨hu.step hcaps (hcond.mono fun _ _ _ _ h => h.mapsBelowRoots) hstep,
      hcaps.step objectCap_capRule (fun _ _ _ _ _ => mintKeeps_objectCap) hstep⟩

/-! ## Walks and the global mapping, in every run -/

/-- `UntypedRetype` of slot 9: a page table in slot 19. -/
def retypeTableRegs : Registers :=
  { ecallRegs 9 18 2 with a3 := 2, a4 := 18 + 19 * 2 ^ 32, a5 := 1, a6 := 2 }

/-- `PageTableMap` of the table in slot `table` at `vaddr`, from the table in slot `root`. -/
def mapTableRegs (table root vaddr : UInt64) : Registers :=
  { ecallRegs table 18 14 with a3 := root, a4 := 18, a5 := vaddr }

/-- **Walks stay in page tables**, in every run from boot in which mappings are made below roots and
tables are linked once, and the other conditions are met. The entry that the walk ends at is inside
a page table. -/
theorem walk_tables_of_run {image : Image} {s₀ u : KState} (himage : image.InUserHalf)
    (hboot : Boot cfg image s₀) (hrun : Run cfg (GuardedFits cfg) s₀ s) {ev : Event}
    (hmeets : ev.Meets cfg (GuardedFits cfg) s) {invLabel : InvLabel} {reg : Registers}
    {inv : Invocation} (hinv : Invokes cfg s ev invLabel reg u inv) {vaddr : Nat}
    (hvaddr : walkVaddr? invLabel reg inv.cap = some vaddr) {p : Nat} {root : CapabilityData}
    (hroot : lookupCap cfg inv.rootCnode reg.a3.toNat (reg.a4.toNat % 2 ^ 32) .pageTable u =
      .ok (p, root)) :
    (∀ g ∈ PageTable.path u root.getFrame vaddr, u.IsTable g) ∧
    ∃ level a, PageTable.walk cfg root.getFrame vaddr u = .ok (level, a) ∧
      ∃ o ∈ u.objects, o.kind = .pageTable ∧ o.addr ≤ a ∧ a + 8 ≤ o.addr + o.size := by
  obtain ⟨t, ht, rfl⟩ := trapEntry_ok.1 hinv.entry
  obtain ⟨hwf, lvl, hp⟩ := (paged_of_run himage hboot hrun).1.setTcb ht { t with registers := reg }
  obtain ⟨hlt, hroots⟩ := (hmeets _ _ _ _ hinv).mapsBelowRoots.1 vaddr hvaddr
  obtain ⟨hpath, l, g, i, hwalk, hg, hi, -, -⟩ :=
    hp.walkFrom hwf hlt (hp.forest.roots (hroots _ hroot))
  refine ⟨hpath, l, entry g i, hwalk, ?_⟩
  obtain ⟨o, ho, hk, rfl⟩ := KState.isTable_iff.1 (hp.table hg)
  have hsize := (hwf.frame_bounds ho (.inr hk)).1
  rw [entry]
  exact ⟨o, ho, hk, by omega, by omega⟩

/-- The invocation of an event and the capability that it uses as the root, if the walk passes the
test. -/
def Event.walks (cfg : Config) (s : KState) (ev : Event) (test : KState → Nat → Nat → Bool) :
    Bool :=
  (ev.invocation? cfg s).any fun (invLabel, reg, u, inv) =>
    (walkVaddr? invLabel reg inv.cap).any fun vaddr =>
      match lookupCap cfg inv.rootCnode reg.a3.toNat (reg.a4.toNat % 2 ^ 32) .pageTable u with
      | .ok r => test u r.2.getFrame vaddr
      | .error _ => false

theorem Event.exists_of_walks {ev : Event} {test : KState → Nat → Nat → Bool}
    (h : ev.walks cfg s test = true) :
    ∃ invLabel reg u inv vaddr p root, Invokes cfg s ev invLabel reg u inv ∧
      walkVaddr? invLabel reg inv.cap = some vaddr ∧
      lookupCap cfg inv.rootCnode reg.a3.toNat (reg.a4.toNat % 2 ^ 32) .pageTable u =
        .ok (p, root) ∧ test u root.getFrame vaddr = true := by
  obtain ⟨⟨invLabel, reg, u, inv⟩, hinv, h⟩ := (Option.any_eq_true ..).1 h
  obtain ⟨vaddr, hvaddr, h⟩ := (Option.any_eq_true ..).1 h
  split at h
  · next r hroot =>
    exact ⟨invLabel, reg, u, inv, vaddr, r.1, r.2, invokes_of_eval hinv, hvaddr, hroot, h⟩
  · cases h

theorem demoImage_inUserHalf : demoImage.InUserHalf := nofun

/-- A new table is linked in the address space of the root server. -/
theorem walk_tables_of_new_table : ∃ s₀ s ev invLabel reg u inv vaddr p root,
    Boot .virt demoImage s₀ ∧ Run .virt (GuardedFits .virt) s₀ s ∧
    ev.Meets .virt (GuardedFits .virt) s ∧ Invokes .virt s ev invLabel reg u inv ∧
    walkVaddr? invLabel reg inv.cap = some vaddr ∧
    lookupCap .virt inv.rootCnode reg.a3.toNat (reg.a4.toNat % 2 ^ 32) .pageTable u =
      .ok (p, root) ∧
    (∀ g ∈ PageTable.path u root.getFrame vaddr, u.IsTable g) ∧
    ∃ level a, PageTable.walk .virt root.getFrame vaddr u = .ok (level, a) ∧
      ∃ o ∈ u.objects, o.kind = .pageTable ∧ o.addr ≤ a ∧ a + 8 ≤ o.addr + o.size := by
  let ev : Event := .trap (mapTableRegs 19 3 0x8000000000)
  obtain ⟨s₀, s, hboot, hrun, htest⟩ := exists_run_of_trace .virt (GuardedFits .virt) demoImage
    [.trap retypeTableRegs]
    (fun s => ev.meets .virt (GuardedFits .virt) s && ev.walks .virt s fun _ _ _ => true)
    (by decide +kernel)
  obtain ⟨hmeets, hwalks⟩ := Bool.and_eq_true_iff.1 htest
  have hmeets := Event.meets_of_eval hmeets
  obtain ⟨invLabel, reg, u, inv, vaddr, p, root, hinv, hvaddr, hroot, -⟩ :=
    Event.exists_of_walks hwalks
  exact ⟨s₀, s, ev, invLabel, reg, u, inv, vaddr, p, root, hboot, hrun, hmeets, hinv, hvaddr, hroot,
    walk_tables_of_run demoImage_inUserHalf hboot hrun hmeets hinv hvaddr hroot⟩

/-- A table of the lowest level, given as the root: the kernel takes the page of the IPC buffer for
a table. -/
theorem walk_through_page : ∃ s₀ ev invLabel reg u inv vaddr p root,
    Boot .virt demoImage s₀ ∧ Invokes .virt s₀ ev invLabel reg u inv ∧
    walkVaddr? invLabel reg inv.cap = some vaddr ∧ vaddr < 2 ^ 47 ∧ vaddr % pageSize = 0 ∧
    lookupCap .virt inv.rootCnode reg.a3.toNat (reg.a4.toNat % 2 ^ 32) .pageTable u =
      .ok (p, root) ∧
    ∃ g ∈ PageTable.path u root.getFrame vaddr, u.isObject .page g = true ∧
      u.isObject .pageTable g = false := by
  let ev : Event := .trap (mapTableRegs 6 8 0x8000000000)
  obtain ⟨s₀, hboot, htest⟩ := exists_boot .virt demoImage
    (fun s => ev.walks .virt s fun u root vaddr => vaddr < 2 ^ 47 && vaddr % pageSize = 0 &&
      (PageTable.path u root vaddr).any fun g => u.isObject .page g && !u.isObject .pageTable g)
    (by decide +kernel)
  obtain ⟨invLabel, reg, u, inv, vaddr, p, root, hinv, hvaddr, hroot, htest⟩ :=
    Event.exists_of_walks htest
  simp only [Bool.and_eq_true, decide_eq_true_eq, List.any_eq_true, Bool.not_eq_true'] at htest
  obtain ⟨⟨hlt, hal⟩, hpath⟩ := htest
  exact ⟨s₀, ev, invLabel, reg, u, inv, vaddr, p, root, hboot, hinv, hvaddr, hlt, hal, hroot, hpath⟩

/-- **The global mapping never changes**, in every run from boot in which mappings are made below
roots and tables are linked once: the static tables hold what `kernel_vm_init` wrote, and the upper
half of every root is that of `KERNEL_VM_ROOT`. -/
theorem globalMapping_of_run {image : Image} {s₀ : KState} (himage : image.InUserHalf)
    (hboot : Boot cfg image s₀) (hrun : Run cfg (GuardedFits cfg) s₀ s) :
    (∀ a, cfg.isStaticTable a = true → s.mem a = kernelVmWords cfg (fun _ => 0) a) ∧
    ∀ f ∈ s.rooted, ∀ i, 256 ≤ i → i < 512 → s.pte f i = s.pte (imagePhys cfg.kernelVmRoot) i := by
  obtain ⟨⟨-, lvl, hp⟩, -⟩ := paged_of_run himage hboot hrun
  exact ⟨hp.static, hp.global⟩

/-- A new table is linked in the address space of the root server. -/
theorem globalMapping_of_new_table : ∃ s₀ s, Boot .virt demoImage s₀ ∧
    Run .virt (GuardedFits .virt) s₀ s ∧ s.mem (2160066560 + 8) ≠ 0 ∧
    (∀ a, Config.isStaticTable .virt a = true → s.mem a = kernelVmWords .virt (fun _ => 0) a) ∧
    ∀ f ∈ s.rooted, ∀ i, 256 ≤ i → i < 512 →
      s.pte f i = s.pte (imagePhys Config.virt.kernelVmRoot) i := by
  obtain ⟨s₀, s, hboot, hrun, htest⟩ := exists_run_of_trace .virt (GuardedFits .virt) demoImage
    [.trap retypeTableRegs, .trap (mapTableRegs 19 3 0x8000000000)]
    (fun s => s.mem (2160066560 + 8) ≠ 0) (by decide +kernel)
  exact ⟨s₀, s, hboot, hrun, of_decide_eq_true htest,
    globalMapping_of_run demoImage_inUserHalf hboot hrun⟩

/-- `PageTableMap` at an address of the upper half: entry 384 of the root changes. -/
theorem globalMapping_changed : ∃ s₀ s, Boot .virt demoImage s₀ ∧
    Run .virt (fun _ _ _ _ => True) s₀ s ∧ ∃ f ∈ s.rooted,
      s.pte f 384 ≠ s.pte (imagePhys Config.virt.kernelVmRoot) 384 := by
  obtain ⟨s₀, s, hboot, hrun, htest⟩ := exists_run_of_trace .virt (fun _ _ _ _ => True) demoImage
    [.trap (mapTableRegs 6 3 0xffffc00000000000)]
    (fun s => s.rooted.any fun f => s.pte f 384 ≠ s.pte (imagePhys Config.virt.kernelVmRoot) 384)
    (by decide +kernel)
  simp only [List.any_eq_true, decide_eq_true_eq] at htest
  exact ⟨s₀, s, hboot, hrun, htest⟩

end Zoeax
