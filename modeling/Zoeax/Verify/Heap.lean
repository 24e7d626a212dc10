import Zoeax.Verify.Trace
import Mathlib.Data.List.Pairwise

/-!
# Live objects

`HeapWF`: the live objects lie in the free memory, apart from each other, with the size of their
type; every thread control block is the idle thread's or belongs to a live object. It holds in every
state of every run (`heapWF_of_run`).

`ObjectCap`: a capability of any type but `Untyped` points to a live object of its type.
-/

namespace Zoeax

open Lib Exec

structure HeapWF (cfg : Config) (s : KState) : Prop where
  admissible : ∀ o ∈ s.objects, o.admissible cfg = true
  size : ∀ o ∈ s.objects, o.kind.getObjectSize cfg o.userSize = .ok o.size
  apart : s.objects.Pairwise fun o o' => o.overlaps o' = false
  tcbs : ∀ p t, s.tcbs p = some t →
    p = cfg.idleThread ∨ ∃ o ∈ s.objects, o.kind = .tcb ∧ o.start = p

variable {cfg : Config} {s : KState}

theorem isSlot_cons (o : Object) {p : Nat} (hp : s.isSlot p = true) :
    { s with objects := o :: s.objects }.isSlot p = true := by
  rw [KState.isSlot, List.any_cons, Bool.or_eq_true]
  exact .inr hp

namespace HeapWF

theorem of_eq {s' : KState} (hs : HeapWF cfg s) (hobj : s'.objects = s.objects)
    (htcbs : s'.tcbs = s.tcbs) : HeapWF cfg s' := by
  refine ⟨?_, ?_, ?_, ?_⟩ <;> rw [hobj]
  · exact hs.admissible
  · exact hs.size
  · exact hs.apart
  · rw [htcbs]
    exact hs.tcbs

theorem setTcb (hs : HeapWF cfg s) {p : Nat} {t : ThreadInfo} (t' : ThreadInfo)
    (ht : s.tcbs p = some t) : HeapWF cfg (s.setTcb p t') where
  admissible := hs.admissible
  size := hs.size
  apart := hs.apart
  tcbs q t₁ hq := by
    rw [KState.tcbs_setTcb] at hq
    split at hq
    · next heq => exact heq ▸ hs.tcbs p t ht
    · exact hs.tcbs q t₁ hq

theorem born (hs : HeapWF cfg s) {o : Object} (ho : o.Fresh cfg s) : HeapWF cfg (s.born o) where
  admissible := by simpa using ⟨ho.admissible, hs.admissible⟩
  size := by simpa using ⟨ho.size, hs.size⟩
  apart := by simpa using ⟨ho.apart, hs.apart⟩
  tcbs p t ht := by
    rw [tcbs_born] at ht
    rw [objects_born]
    split at ht
    · next h => exact .inr ⟨o, List.mem_cons_self .., h.1, h.2.symm⟩
    · exact (hs.tcbs p t ht).imp_right fun ⟨o', ho', h⟩ => ⟨o', List.mem_cons_of_mem _ ho', h⟩

theorem renewed (hs : HeapWF cfg s) {o : Object} (ho : o ∈ s.objects) :
    HeapWF cfg (s.renewed o) where
  admissible := by simpa using hs.admissible
  size := by simpa using hs.size
  apart := by simpa using hs.apart
  tcbs p t ht := by
    rw [tcbs_renewed] at ht
    rw [objects_renewed]
    split at ht
    · next h => exact .inr ⟨o, ho, h.1, h.2.symm⟩
    · exact hs.tcbs p t ht

/-- Two different live objects do not overlap. -/
theorem eq_or_apart (hs : HeapWF cfg s) {o o' : Object} (ho : o ∈ s.objects)
    (ho' : o' ∈ s.objects) : o = o' ∨ o.overlaps o' = false := by
  have hsymm : Std.Symm fun o o' : Object => o.overlaps o' = false :=
    ⟨fun a b h => by rw [Object.overlaps, Bool.and_comm]; exact h⟩
  by_cases h : o = o'
  · exact .inl h
  · exact .inr (hs.apart.forall ho ho' h)

/-- There is no thread yet where a new one is made. -/
theorem fresh_tcb (hs : HeapWF cfg s) {o : Object} (ho : o.Fresh cfg s) (hk : o.kind = .tcb) :
    s.tcbs o.start = none := by
  by_contra h
  obtain ⟨t, ht⟩ := Option.ne_none_iff_exists'.1 h
  rcases hs.tcbs _ t ht with hidle | ⟨o', ho', hk', hstart⟩
  · exact ho.start_ne_idle hk hidle
  · exact ho.start_ne hk ho' (hs.admissible o' ho') (Object.tcb_size (hs.size o' ho') hk') hstart

/-- Slots of CNodes lie in the kernel's map of the free memory. -/
theorem isSlot_bounds (hs : HeapWF cfg s) {p : Nat} (hp : s.isSlot p = true) :
    kernelVAddrPfx ≤ p ∧ p < toKernelV cfg.freeRamEnd := by
  obtain ⟨o, ho, hslot⟩ := List.any_eq_true.1 hp
  obtain ⟨hstart, hend⟩ := Object.start_lt (hs.admissible o ho)
  simp only [Object.hasSlot, Bool.and_eq_true, decide_eq_true_eq] at hslot
  obtain ⟨⟨⟨-, hle⟩, hlt⟩, -⟩ := hslot
  rw [CapabilityType.entrySize] at hlt
  omega

end HeapWF

theorem heapWF_bootStable : BootStable cfg (fun _ _ _ => True) (HeapWF cfg) where
  toCapStable := .of_slots (fun _ _ hs => hs.of_eq rfl rfl)
    (fun _ _ _ _ _ ht _ hs => hs.setTcb _ ht) fun _ _ ho hs => hs.born ho
  mem _ _ hs := hs.of_eq rfl rfl
  root _ _ hs := hs.of_eq rfl rfl
  regs _ _ _ _ _ ht _ hs := hs.setTcb _ ht
  refill _ _ _ _ _ ht hs := hs.setTcb _ ht

theorem heapWF_threadStable : ThreadStable (HeapWF cfg) where
  tcb _ _ _ _ ht _ hs := hs.setTcb _ ht
  queues _ _ _ _ hs := hs.of_eq rfl rfl
  request _ _ hs := hs.of_eq rfl rfl
  vspace _ _ hs := hs.of_eq rfl rfl
  switch _ _ hs := hs.of_eq rfl rfl
  copy _ _ _ _ hs := hs.of_eq rfl rfl

theorem HeapWF.createIdleThread {s' : KState} {u : Unit} (hs : HeapWF cfg s)
    (h : createIdleThread cfg s = .ok u s') : HeapWF cfg s' := by
  obtain ⟨t, ht, rfl⟩ := createIdleThread_ok.1 h
  exact (hs.setTcb _ ht).of_eq rfl rfl

theorem heapWF_initial : HeapWF cfg (.initial cfg) := by
  refine ⟨nofun, nofun, .nil, fun p t ht => .inl ?_⟩
  by_contra hne
  simp only [KState.initial, Function.update_of_ne hne] at ht
  cases ht

theorem heapWF_boot {image : Image} (h : Boot cfg image s) : HeapWF cfg s :=
  heapWF_bootStable.boot heapWF_threadStable .trivial
    (fun _ _ _ hs hidle => hs.createIdleThread hidle) heapWF_initial h

theorem HeapWF.step {s' : KState} {ev : Event} (hs : HeapWF cfg s) (h : Step cfg s ev s') :
    HeapWF cfg s' :=
  heapWF_bootStable.toMapStable.step heapWF_threadStable .trivial
    (fun _ _ _ ht _ hs => hs.setTcb _ ht) (.inl fun _ _ ho _ hs => hs.renewed ho)
    (fun _ _ _ _ _ _ _ _ _ _ _ _ ht hu => hu.setTcb _ ht)
    (fun _ _ _ _ _ _ _ _ _ _ _ _ => trivial) (capsAll_trivial s) hs h

theorem heapWF_of_run {image : Image} {C : InvokeCond} {s₀ : KState} (hboot : Boot cfg image s₀)
    (hrun : Run cfg C s₀ s) : HeapWF cfg s :=
  run_invariant hrun (heapWF_boot hboot) fun _ _ hu ⟨_, _, hstep⟩ => hu.step hstep

/-! ## Typed capabilities -/

/-- The capability is untyped or points to a live object of its type. -/
def ObjectCap : CapProp := fun objects _ c =>
  ∀ k, c.getCapType = .ok k → k ≠ .untyped → ∃ o ∈ objects, o.kind = k ∧ o.addr = c.getAddress

theorem objectCap_retag {objects : List Object} {rooted : List Nat} {c : CapabilityData}
    (hc : ObjectCap objects rooted c) (v : UInt64) : ObjectCap objects rooted (c.setCapDepVal v) :=
  hc

theorem objectCap_capRule : CapRule ObjectCap where
  mono hobj _ hc k hk hne := by
    obtain ⟨o, ho, h⟩ := hc k hk hne
    exact ⟨o, hobj ho, h⟩
  untyped hu k hk hne := absurd (Except.ok.inj (hk.symm.trans hu)) hne
  fresh ho hc k hk _ := ⟨_, ho, Except.ok.inj (hc.capType.symm.trans hk), hc.address.symm⟩
  retag v _ _ hc := objectCap_retag hc v
  mapped _ _ hc := objectCap_retag hc _
  root _ _ _ hc := objectCap_retag (objectCap_retag hc _) _

/-- A `Tcb` capability is never for the idle thread. -/
theorem ObjectCap.getTcb_ne_idle {c : CapabilityData} (hs : HeapWF cfg s)
    (hc : ObjectCap s.objects s.rooted c) (hk : c.getCapType = .ok .tcb) :
    TCBCap.getTcb c ≠ cfg.idleThread := by
  obtain ⟨o, ho, hkind, haddr⟩ := hc .tcb hk nofun
  rw [TCBCap.getTcb, ← haddr]
  exact Object.start_ne_idle (hs.admissible o ho) (hs.size o ho) hkind

theorem mintKeeps_objectCap {invLabel : InvLabel} {reg : Registers} {u : KState}
    {inv : Invocation} : MintKeeps cfg ObjectCap invLabel reg u inv :=
  fun _ _ _ _ _ _ hc => objectCap_retag hc _

end Zoeax
