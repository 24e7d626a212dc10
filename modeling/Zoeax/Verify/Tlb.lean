import Zoeax.Lib.Sv48
import Zoeax.Verify.Paging
import Zoeax.Verify.Threads

/-!
# The translation cache

Between traps the machine may cache any translation of the active address space; `sfence.vma` and
the activation of a table empty the cache. The kernel activates a table when it switches threads,
and `PageCap::map` ends with `sfence`; `PageCap::unmap` has none.

Nothing that the kernel does besides makes a cached translation stale (`fresh_of_cachedRun`), as
long as the conditions of `GuardedFits` are met and the tables that translations are read from are
page tables: entries are only added where there was none, new tables are made in fresh memory, and
messages and user stores go to pages.
-/

namespace Zoeax

open Lib Exec
open Sv48 (Translation)

variable {cfg : Config} {s s' : KState}

/-! ## The machine with its cache -/

/-- The state of the kernel and the translations that the machine has cached. -/
structure Cached where
  kernel : KState
  tlb : Set Translation

namespace Cached

/-- The cache agrees with the tables in memory. -/
def Fresh (c : Cached) : Prop := Sv48.Fresh c.kernel.mem c.kernel.satp c.tlb

/-- The words that the cached translations were read from. -/
def words (c : Cached) : Set Nat := Sv48.words c.kernel.mem c.kernel.satp c.tlb

inductive Event where
  /-- The machine looks a translation up and caches it. -/
  | access (t : Translation)
  | kernel (ev : Zoeax.Event)

end Cached

/-- `schedule` gets to `activate_vspace`. -/
def KState.Switches (s : KState) : Prop :=
  s.requested = true ∧
    (s.runqueue ≠ [] ∨ ∃ t, s.tcbs s.current = some t ∧ t.isRunnable = false)

/-- The trap is a `PageMap` that returns, and so gets to `sfence`. -/
def MapsPage (cfg : Config) (s : KState) (regs : Registers) : Prop :=
  ∃ u inv v w, Invokes cfg s (.trap regs) .pageMap regs u inv ∧ inv.cap.getCapType = .ok .page ∧
    invoke cfg .pageMap regs inv .page u = .ok v w

inductive CachedStep (cfg : Config) : Cached → Cached.Event → Cached → Prop
  | access {s tlb t} (h : t.Present s.mem s.satp) :
    CachedStep cfg ⟨s, tlb⟩ (.access t) ⟨s, insert t tlb⟩
  | store {s s' tlb a w} (h : Step cfg s (.store a w) s') :
    CachedStep cfg ⟨s, tlb⟩ (.kernel (.store a w)) ⟨s', tlb⟩
  | fenced {s u v s' tlb regs} (h : Step cfg s (.trap regs) s')
    (hentry : trapEntry regs s = .ok () u) (htrap : handleTrap cfg regs.scause.toNat u = .ok () v)
    (hfence : MapsPage cfg s regs ∨ v.Switches) :
    CachedStep cfg ⟨s, tlb⟩ (.kernel (.trap regs)) ⟨s', ∅⟩
  | unfenced {s u v s' tlb regs} (h : Step cfg s (.trap regs) s')
    (hentry : trapEntry regs s = .ok () u) (htrap : handleTrap cfg regs.scause.toNat u = .ok () v)
    (hmap : ¬ MapsPage cfg s regs) (hswitch : ¬ v.Switches) :
    CachedStep cfg ⟨s, tlb⟩ (.kernel (.trap regs)) ⟨s', tlb⟩

/-! ## What is left to the caller -/

/-- The word is in a page table, or in one of the static tables. -/
def KState.InTable (cfg : Config) (s : KState) (a : Nat) : Prop :=
  cfg.isStaticTable a = true ∨ ∃ f, s.IsTable f ∧ f ≤ a ∧ a < f + pageSize

/-- `PageUnMap` does not clear one of the words, and `PageTableMakeRoot` does not write over one. -/
def SparesWords (cfg : Config) (W : Set Nat) : InvokeCond := fun invLabel reg u inv =>
  (invLabel = .pageUnMap → inv.cap.getCapType = .ok .page → ∀ r a,
    lookupCap cfg inv.rootCnode reg.a3.toNat (reg.a4.toNat % 2 ^ 32) .pageTable u = .ok r →
    PageTable.walk cfg r.2.getFrame inv.cap.getMappedAddress u = .ok (0, a) → a ∉ W) ∧
  (invLabel = .pageTableMakeRoot → inv.cap.getCapType = .ok .pageTable → ∀ a ∈ W,
    a < inv.cap.getFrame ∨ inv.cap.getFrame + pageSize ≤ a)

/-- Cached translations were read from page tables, and the event meets the conditions and spares
the words that they were read from. -/
def Cached.Event.Spares (cfg : Config) (c : Cached) : Cached.Event → Prop
  | .access _ => True
  | .kernel ev => (∀ a ∈ c.words, c.kernel.InTable cfg a) ∧
      ev.Meets cfg (GuardedWith cfg (SparesWords cfg c.words)) c.kernel

/-- Runs of the machine in which every event spares the words of the cached translations. -/
def CachedRun (cfg : Config) : Cached → Cached → Prop :=
  Relation.ReflTransGen fun c c' => ∃ ev : Cached.Event, ev.Spares cfg c ∧ CachedStep cfg c ev c'

/-! ## The words of the cached translations stay -/

/-- The words of `W` are in tables and hold what they hold in `m`; the same root is active. -/
structure Spared (cfg : Config) (W : Set Nat) (m : Nat → UInt64) (root : Nat) (s : KState) :
    Prop where
  wf : HeapWF cfg s
  table : ∀ a ∈ W, s.InTable cfg a
  same : ∀ a ∈ W, s.mem a = m a
  satp : s.satp = root

namespace Spared

variable {W : Set Nat} {m : Nat → UInt64} {root : Nat}

theorem start {c : Cached} (hwf : HeapWF cfg c.kernel)
    (htable : ∀ a ∈ c.words, c.kernel.InTable cfg a) :
    Spared cfg c.words c.kernel.mem c.kernel.satp c.kernel := ⟨hwf, htable, fun _ _ => rfl, rfl⟩

theorem of_eq (hs : Spared cfg W m root s) (hobj : s'.objects = s.objects)
    (htcbs : s'.tcbs = s.tcbs) (hmem : s'.mem = s.mem) (hsatp : s'.satp = s.satp) :
    Spared cfg W m root s' where
  wf := hs.wf.of_eq hobj htcbs
  table a ha := by
    simpa only [KState.InTable, KState.IsTable, KState.isObject, hobj] using hs.table a ha
  same a ha := hmem ▸ hs.same a ha
  satp := hsatp.trans hs.satp

theorem setTcb (hs : Spared cfg W m root s) {p : Nat} {t : ThreadInfo} (ht : s.tcbs p = some t)
    (t' : ThreadInfo) : Spared cfg W m root (s.setTcb p t') :=
  ⟨hs.wf.setTcb t' ht, hs.table, hs.same, hs.satp⟩

/-- Memory changes, but not in `W`. -/
theorem setMem (hs : Spared cfg W m root s) {mem : Nat → UInt64}
    (hmem : ∀ a ∈ W, mem a = s.mem a) : Spared cfg W m root { s with mem } :=
  ⟨hs.wf.of_eq rfl rfl, hs.table, fun a ha => (hmem a ha).trans (hs.same a ha), hs.satp⟩

theorem setWord (hs : Spared cfg W m root s) {a : Nat} (ha : a ∉ W) (w : UInt64) :
    Spared cfg W m root (s.setWord a w) := by
  refine hs.setMem fun b hb => Function.update_of_ne ?_ ..
  rintro rfl
  exact ha hb

/-- A word of a page is not in `W`. -/
theorem page_apart (hs : Spared cfg W m root s) {o : Object} (ho : o ∈ s.objects)
    (hk : o.kind = .page) {a : Nat} (ha : a ∈ W) : a < o.addr ∨ o.addr + 4096 ≤ a := by
  obtain ⟨-, -, hle, hend⟩ := hs.wf.frame_bounds ho (.inl hk)
  rcases hs.table a ha with hstatic | ⟨f, hf, hlo, hhi⟩
  · have := static_apart hstatic
    omega
  · have := hs.wf.page_apart ho hk hf
    rw [pageSize] at hhi
    omega

/-- A word of an object that is not alive yet is not in `W`. -/
theorem fresh_apart (hs : Spared cfg W m root s) {o : Object} (ho : o.Fresh cfg s)
    (hk : o.kind = .pageTable) {a : Nat} (ha : a ∈ W) : a < o.addr ∨ o.addr + 4096 ≤ a := by
  obtain ⟨hsize, -, hle, hend⟩ := (hs.wf.born ho).frame_bounds
    (by rw [objects_born]; exact List.mem_cons_self ..) (.inr hk)
  rcases hs.table a ha with hstatic | ⟨f, hf, hlo, hhi⟩
  · have := static_apart hstatic
    omega
  · obtain ⟨o', ho', hk', rfl⟩ := KState.isTable_iff.1 hf
    have hsize' := (hs.wf.frame_bounds ho' (.inr hk')).1
    have := ho.apart o' ho'
    simp only [Object.overlaps, Bool.and_eq_false_iff, decide_eq_false_iff_not] at this
    rw [pageSize] at hhi
    omega

theorem born (hs : Spared cfg W m root s) {o : Object} (ho : o.Fresh cfg s) :
    Spared cfg W m root (s.born o) where
  wf := hs.wf.born ho
  table a ha := (hs.table a ha).imp_right fun ⟨f, hf, h⟩ => by
    refine ⟨f, ?_, h⟩
    obtain ⟨o', ho', hk, hf⟩ := KState.isTable_iff.1 hf
    exact KState.isTable_iff.2 ⟨o', by rw [objects_born]; exact List.mem_cons_of_mem _ ho', hk, hf⟩
  same a ha := by
    by_cases hk : o.kind = .pageTable
    · have hapart := hs.fresh_apart ho hk ha
      rw [mem_born_table ho hk, ← hs.same a ha]
      refine if_neg ?_
      rw [pageSize]
      omega
    · rw [mem_born s hk]
      exact hs.same a ha
  satp := by
    refine Eq.trans ?_ hs.satp
    unfold KState.born
    split <;> rfl

theorem capStable {P : CapProp} : CapStable cfg P (Spared cfg W m root) :=
  .of_slots (fun _ _ hs => hs.of_eq rfl rfl rfl rfl) (fun _ _ _ _ _ ht _ hs => hs.setTcb ht _)
    fun _ _ ho hs => hs.born ho

theorem renews : Renews (Spared cfg W m root) := by
  intro s o ho _ hs
  have hwf := hs.wf.renewed ho
  obtain ⟨t, e, n, h⟩ := renewed_cells s o
  rw [h] at hwf ⊢
  exact ⟨hwf, hs.table, hs.same, hs.satp⟩

theorem trapStable : TrapStable (Spared cfg W m root) where
  tcb _ _ _ _ ht _ hs := hs.setTcb ht _
  queues _ _ _ _ hs := hs.of_eq rfl rfl rfl rfl
  request _ _ hs := hs.of_eq rfl rfl rfl rfl
  copy s dst src hdst hs := by
    obtain ⟨o, ho, hk, rfl⟩ := KState.isObject_iff.1 hdst
    refine hs.setMem fun a ha => if_neg ?_
    have := hs.page_apart ho hk ha
    rw [ipcBufferWords, messageLen]
    omega

end Spared

/-- Invocations on pages and page tables that spare the words, other than a `PageMap` that
returns. -/
theorem SparesWords.mappingKeeps {P : CapProp} {W : Set Nat} {m : Nat → UInt64} {root : Nat}
    {invLabel : InvLabel} {reg : Registers} {u : KState} {inv : Invocation}
    (hvalid : ∀ a ∈ W, Sv48.valid (m a) = true) (hspares : SparesWords cfg W invLabel reg u inv)
    (hmap : invLabel = .pageMap → inv.cap.getCapType = .ok .page →
      ∀ v w, invoke cfg .pageMap reg inv .page u ≠ .ok v w) :
    MappingKeeps cfg P (Spared cfg W m root) invLabel reg u inv := by
  rintro k v w hkind hk - hu h
  rcases hkind with rfl | rfl
  · obtain ⟨vaddr, p, r, a, word, d, hv, hlookup, hwalk, -, rfl⟩ := invokePage_ok hk h
    have ha : a ∉ W := by
      unfold walkVaddr? at hv
      rw [hk] at hv
      cases invLabel with
      | pageMap => exact (hmap rfl hk _ _ h).elim
      | pageUnMap =>
        obtain rfl := Option.some.inj hv
        exact hspares.1 rfl hk _ a hlookup hwalk
      | _ => cases hv
    exact (hu.setWord ha word).of_eq rfl rfl rfl rfl
  · obtain ⟨-, ⟨rfl, p, r, level, a, -, hwalk, hl, -, rfl⟩ | ⟨rfl, -, rfl⟩⟩ := invokePageTable_ok h
    · -- the entry was not valid, and those of cached translations are
      have ha : a ∉ W := fun ha => by
        have h₁ : Sv48.valid (u.mem a) = true := by
          rw [hu.same a ha]
          exact hvalid a ha
        have h₂ : Sv48.valid (u.mem a) = false := PageTable.not_isValid_of_walkFrom hwalk hl
        rw [h₁] at h₂
        cases h₂
      exact (hu.setWord ha _).of_eq rfl rfl rfl rfl
    · have hcopy : Spared cfg W m root { u with mem := (u.madeRoot cfg inv.cap.getFrame).mem } := by
        refine hu.setMem fun a ha => if_neg ?_
        have := hspares.2 rfl hk a ha
        omega
      exact hcopy.of_eq rfl rfl rfl rfl

/-- A scheduler that does not switch leaves the memory and the active table alone. -/
theorem schedule_of_not_switches {u : Unit} (hs : ¬ s.Switches)
    (h : schedule cfg s = .ok u s') : s'.mem = s.mem ∧ s'.satp = s.satp := by
  rcases schedule_cases h with ⟨-, rfl⟩ | ⟨hreq, next, rest, t, tc, r, a, hq, -, -, -, -⟩ |
    ⟨hreq, -, t, ht, ⟨-, rfl⟩ | ⟨hrun, -, -⟩⟩
  · exact ⟨rfl, rfl⟩
  · exact (hs ⟨hreq, .inl (hq ▸ List.cons_ne_nil next rest)⟩).elim
  · exact ⟨rfl, rfl⟩
  · exact (hs ⟨hreq, .inr ⟨t, ht, hrun⟩⟩).elim

/-! ## Runs -/

/-- **One step** that spares the words of the cached translations makes none of them stale. -/
theorem Cached.Fresh.step {c c' : Cached} {ev : Cached.Event} (hwf : HeapWF cfg c.kernel)
    (hc : c.Fresh) (hev : ev.Spares cfg c) (h : CachedStep cfg c ev c') : c'.Fresh := by
  cases h with
  | access hpresent => exact hc.insert hpresent
  | @store s s' tlb a w hstep =>
    obtain ⟨⟨-, o, ho, hk, hle, hlt⟩, hexec⟩ := hstep
    obtain rfl := modify_ok.1 hexec
    have hspared := Spared.start hwf hev.1
    have hsize := (hwf.frame_bounds ho (.inl hk)).1
    refine hc.of_words fun b hb => Function.update_of_ne ?_ ..
    have := hspared.page_apart ho hk hb
    omega
  | fenced => exact Sv48.fresh_empty
  | @unfenced s u v s' tlb regs hstep hentry htrap hmap hswitch =>
    obtain ⟨u', v', hentry', htrap', hsched⟩ := step_parts hstep
    obtain ⟨-, rfl⟩ := EStateM.Result.ok.inj (hentry.symm.trans hentry')
    obtain ⟨-, rfl⟩ := EStateM.Result.ok.inj (htrap.symm.trans htrap')
    have hspared := Spared.start hwf hev.1
    have hkeeps : (Event.trap regs).Meets cfg (MappingKeeps cfg (fun _ _ _ => True)
        (Spared cfg (words ⟨s, tlb⟩) s.mem s.satp)) s := by
      intro invLabel reg u inv hinv
      refine (hev.2 _ _ _ _ hinv).2.mappingKeeps (fun _ ha => hc.valid ha) ?_
      rintro rfl hk w w' hinvoke
      obtain rfl := Event.trap.inj hinv.event
      exact hmap ⟨u, inv, w, w', hinv, hk, hinvoke⟩
    have hv : Spared cfg (words ⟨s, tlb⟩) s.mem s.satp v :=
      Spared.capStable.trap Spared.trapStable .trivial (fun _ ht _ hs => hs.setTcb ht _)
        (.inl Spared.renews) (fun _ _ _ _ _ _ _ _ _ _ _ _ ht hu => hu.setTcb ht _)
        (fun _ _ _ _ _ _ _ _ _ _ _ _ => trivial)
        hkeeps (capsAll_trivial s) hspared hentry htrap
    obtain ⟨hmem, hsatp⟩ := schedule_of_not_switches hswitch hsched
    have hfresh : Sv48.Fresh s'.mem s.satp tlb := hc.of_words fun a ha => by
      rw [hmem]
      exact hv.same a ha
    rw [Cached.Fresh, hsatp, hv.satp]
    exact hfresh

theorem HeapWF.cachedStep {c c' : Cached} {ev : Cached.Event} (hwf : HeapWF cfg c.kernel)
    (h : CachedStep cfg c ev c') : HeapWF cfg c'.kernel := by
  cases h with
  | access _ => exact hwf
  | store hstep => exact hwf.step hstep
  | fenced hstep => exact hwf.step hstep
  | unfenced hstep => exact hwf.step hstep

/-- **No stale translations**, in every run from boot that meets the conditions and in which the
tables that the cached translations were read from are page tables, `PageUnMap` does not clear an
entry that one of them was read from, and `PageTableMakeRoot` does not write over such a table. -/
theorem fresh_of_cachedRun {image : Image} {s₀ : KState} {c : Cached} (hboot : Boot cfg image s₀)
    (hrun : CachedRun cfg ⟨s₀, ∅⟩ c) : c.Fresh := by
  suffices h : HeapWF cfg c.kernel ∧ c.Fresh from h.2
  induction hrun with
  | refl => exact ⟨heapWF_boot hboot, Sv48.fresh_empty⟩
  | tail _ hstep ih =>
    obtain ⟨hwf, hfresh⟩ := ih
    obtain ⟨ev, hev, hstep⟩ := hstep
    exact ⟨hwf.cachedStep hstep, hfresh.step hwf hev hstep⟩

theorem CachedStep.first {t : Translation} (h : t.Present s.mem s.satp) :
    CachedStep cfg ⟨s, ∅⟩ (.access t) ⟨s, {t}⟩ := by
  rw [← insert_empty_eq t]
  exact .access h

/-- Evaluates a trap that does not get to a fence. -/
def unfencedTrap (cfg : Config) (s : KState) (regs : Registers) (test : KState → Bool) : Bool :=
  (Event.trap regs).Enabled s && InvLabel.ofUsize? regs.a2.toNat ≠ some .pageMap &&
    endsIn (trapEntry regs s) fun u => endsIn (handleTrap cfg regs.scause.toNat u) fun v =>
      !v.requested && endsIn (schedule cfg v) test

theorem exists_unfenced {regs : Registers} {test : KState → Bool} (tlb : Set Translation)
    (h : unfencedTrap cfg s regs test = true) :
    ∃ s', CachedStep cfg ⟨s, tlb⟩ (.kernel (.trap regs)) ⟨s', tlb⟩ ∧ test s' = true := by
  simp only [unfencedTrap, Bool.and_eq_true, decide_eq_true_eq] at h
  obtain ⟨⟨henabled, hlabel⟩, h⟩ := h
  obtain ⟨_, u, hentry, h⟩ := exists_of_endsIn h
  obtain ⟨_, v, htrap, h⟩ := exists_of_endsIn h
  obtain ⟨hreq, h⟩ := Bool.and_eq_true_iff.1 h
  obtain ⟨_, s', hsched, htest⟩ := exists_of_endsIn h
  have hexec : (Event.trap regs).exec cfg s = .ok () s' := by
    simp only [Event.exec, kernelTrap, bind_ok]
    exact ⟨(), u, hentry, (), v, htrap, hsched⟩
  refine ⟨s', .unfenced ⟨henabled, hexec⟩ hentry htrap ?_ ?_, htest⟩
  · rintro ⟨u, inv, w, w', hinv, -⟩
    exact hlabel hinv.label
  · rintro ⟨hreq', -⟩
    rw [hreq'] at hreq
    cases hreq

/-- `PageUnMap` of the page in slot `page`, from the table in slot `root`. -/
def unmapRegs (page root : UInt64) : Registers :=
  { ecallRegs page 18 13 with a3 := root, a4 := 18 }

/-- The translation of the page of the IPC buffer in the address space of the root server. -/
def ipcTranslation : Translation := ⟨0x1000, 0, 540018711⟩

/-- The translation of the IPC buffer is cached, then the page of the boot information, which is
next to it, is unmapped. -/
theorem fresh_after_unmap : ∃ s₀ s, Boot .virt demoImage s₀ ∧
    CachedRun .virt ⟨s₀, ∅⟩ ⟨s, {ipcTranslation}⟩ ∧ s₀.mem 2160091152 ≠ 0 ∧ s.mem 2160091152 = 0 ∧
    Cached.Fresh ⟨s, {ipcTranslation}⟩ := by
  let W : KState → List Nat := fun s => Sv48.reads s.mem 3 s.satp 0x1000
  obtain ⟨s₀, hboot, htest⟩ := exists_boot .virt demoImage
    (fun s => ipcTranslation.Present s.mem s.satp && s.mem 2160091152 ≠ 0 &&
      ((W s).all fun a => s.objects.any fun o =>
        o.kind = .pageTable && o.addr ≤ a && a < o.addr + pageSize) &&
      ((Event.trap (unmapRegs 5 3)).walks .virt s fun u root vaddr =>
        okAnd (PageTable.walk .virt root vaddr u) fun r => r.2 ∉ W s) &&
      (Event.trap (unmapRegs 5 3)).meets .virt (GuardedFits .virt) s &&
      unfencedTrap .virt s (unmapRegs 5 3) fun s => s.mem 2160091152 = 0) (by decide +kernel)
  simp only [Bool.and_eq_true, decide_eq_true_eq] at htest
  obtain ⟨⟨⟨⟨⟨hpresent, hne⟩, htables⟩, hwalks⟩, hmeets⟩, htrap⟩ := htest
  obtain ⟨s, hstep, hzero⟩ := exists_unfenced {ipcTranslation} htrap
  have hwords : ∀ a ∈ Cached.words ⟨s₀, {ipcTranslation}⟩, a ∈ W s₀ := by
    rintro a ⟨_, rfl, ha⟩
    exact ha
  have hspares : (Cached.Event.kernel (.trap (unmapRegs 5 3))).Spares .virt
      ⟨s₀, {ipcTranslation}⟩ := by
    refine ⟨fun a ha => .inr ?_, fun invLabel reg u inv hinv =>
      ⟨Event.meets_of_eval hmeets _ _ _ _ hinv, ?_, ?_⟩⟩
    · have := List.all_eq_true.1 htables a (hwords a ha)
      simp only [List.any_eq_true, Bool.and_eq_true, decide_eq_true_eq] at this
      obtain ⟨o, ho, ⟨hkind, hle⟩, hlt⟩ := this
      exact ⟨o.addr, KState.isTable_iff.2 ⟨o, ho, hkind, rfl⟩, hle, hlt⟩
    · intro hl hk r a hr hwalk ha
      obtain ⟨_, _, _, _, vaddr, p, root, hinv', hvaddr, hroot, hout⟩ :=
        Event.exists_of_walks hwalks
      obtain ⟨rfl, rfl, rfl, rfl⟩ := Option.some.inj (hinv.invocation?.symm.trans hinv'.invocation?)
      simp only [walkVaddr?, hk, hl] at hvaddr
      obtain rfl := Option.some.inj hvaddr
      obtain rfl := Except.ok.inj (hroot.symm.trans hr)
      rw [hwalk] at hout
      exact of_decide_eq_true hout (hwords a ha)
    · rintro rfl
      obtain rfl := Event.trap.inj hinv.event
      exact absurd hinv.label (by decide)
  have hrun : CachedRun .virt ⟨s₀, ∅⟩ ⟨s, {ipcTranslation}⟩ :=
    .tail (.single ⟨.access ipcTranslation, trivial, .first hpresent⟩) ⟨_, hspares, hstep⟩
  exact ⟨s₀, s, hboot, hrun, hne, of_decide_eq_true hzero, fresh_of_cachedRun hboot hrun⟩

/-- The page of the IPC buffer is unmapped while its translation is cached: the machine goes on
using it. -/
theorem stale_after_unmap : ∃ s₀ s, Boot .virt demoImage s₀ ∧
    CachedStep .virt ⟨s₀, ∅⟩ (.access ipcTranslation) ⟨s₀, {ipcTranslation}⟩ ∧
    CachedStep .virt ⟨s₀, {ipcTranslation}⟩ (.kernel (.trap (unmapRegs 4 3)))
      ⟨s, {ipcTranslation}⟩ ∧
    ¬ Cached.Fresh ⟨s, {ipcTranslation}⟩ := by
  obtain ⟨s₀, hboot, htest⟩ := exists_boot .virt demoImage
    (fun s => ipcTranslation.Present s.mem s.satp && unfencedTrap .virt s (unmapRegs 4 3) fun s =>
      ¬ ipcTranslation.Present s.mem s.satp) (by decide +kernel)
  obtain ⟨hpresent, htrap⟩ := Bool.and_eq_true_iff.1 htest
  obtain ⟨s, hstep, hgone⟩ := exists_unfenced {ipcTranslation} htrap
  exact ⟨s₀, s, hboot, .first (of_decide_eq_true hpresent), hstep, fun hfresh =>
    of_decide_eq_true hgone (hfresh ipcTranslation rfl)⟩

end Zoeax
