import Zoeax.Verify.Allocation
import Zoeax.Verify.Quantum

/-!
# The counter of the time slice

`timer_tick` takes one off the `time_slice` of the current thread, and `schedule` sets it to
`TASK_QUANTUM`. Apart from `init_object` nothing else writes it: a system call that makes no object
over the current thread leaves the thread and its counter as they are (`Metered.syscall`). A tick
that reaches zero requests a reschedule, and with a request pending `schedule` always ends in a full
counter or in the idle thread (`Sliced.schedule`), whatever the run queue holds. So the counter of a
thread that runs is never zero at a trap, as long as `UntypedRetype` gets requests that fit
(`timeSlice_of_run`). If they do not, a thread can be laid over the one that runs
(`timeSlice_underflows`).
-/

namespace Zoeax

open Lib Exec

variable {cfg : Config} {s s' : KState}

/-! ## Between two ticks -/

/-- `c` is the current thread, and it is the idle thread or has `n` ticks left. -/
structure Metered (cfg : Config) (c n : Nat) (s : KState) : Prop where
  heap : HeapWF cfg s
  current : s.current = c
  slice : c = cfg.idleThread ∨ ∃ t, s.tcbs c = some t ∧ t.timeSlice = n

namespace Metered

variable {c n : Nat}

theorem of_eq (hs : Metered cfg c n s) (ht : s'.tcbs = s.tcbs) (ho : s'.objects = s.objects)
    (hc : s'.current = s.current) : Metered cfg c n s' where
  heap := hs.heap.of_eq ho ht
  current := hc.trans hs.current
  slice := by
    rw [ht]
    exact hs.slice

theorem setTcb (hs : Metered cfg c n s) {p : Nat} {t t' : ThreadInfo} (ht : s.tcbs p = some t)
    (hslice : t'.timeSlice = t.timeSlice) : Metered cfg c n (s.setTcb p t') where
  heap := hs.heap.setTcb _ ht
  current := hs.current
  slice := by
    refine hs.slice.imp_right fun ⟨tc, htc, hn⟩ => ?_
    rw [KState.tcbs_setTcb]
    split
    · next heq =>
      subst heq
      obtain rfl := Option.some.inj (ht.symm.trans htc)
      exact ⟨t', rfl, hslice.trans hn⟩
    · exact ⟨tc, htc, hn⟩

/-- A new thread is not the current one. -/
theorem born (hs : Metered cfg c n s) {o : Object} (ho : o.Fresh cfg s) :
    Metered cfg c n (s.born o) where
  heap := hs.heap.born ho
  current := (current_born s o).trans hs.current
  slice := by
    refine hs.slice.imp_right fun h => ?_
    obtain ⟨t, ht, hn⟩ := h
    refine ⟨t, ?_, hn⟩
    have hne : ¬(o.kind = .tcb ∧ c = o.start) := by
      rintro ⟨hk, rfl⟩
      cases (hs.heap.fresh_tcb ho hk).symm.trans ht
    rw [tcbs_born, if_neg hne]
    exact ht

theorem mapStable : MapStable cfg (fun _ _ _ => True) (Metered cfg c n) where
  toCapStable := .of_slots (fun _ _ hs => hs.of_eq rfl rfl rfl)
    (fun _ _ _ slot _ ht _ hs => hs.setTcb ht (by cases slot <;> rfl)) fun _ _ ho hs => hs.born ho
  mem _ _ hs := hs.of_eq rfl rfl rfl
  root _ _ hs := hs.of_eq rfl rfl rfl

theorem threadSteady : ThreadSteady (Metered cfg c n) where
  tcb _ _ _ _ ht hsteady hs := hs.setTcb ht hsteady.timeSlice
  queues _ _ _ _ hs := hs.of_eq rfl rfl rfl
  copy _ _ _ _ hs := hs.of_eq rfl rfl rfl

theorem trapEntry {regs : Registers} (hs : Metered cfg c n s)
    (h : trapEntry regs s = .ok () s') : Metered cfg c n s' := by
  obtain ⟨t, ht, rfl⟩ := trapEntry_ok.1 h
  exact hs.setTcb ht rfl

theorem invoke {invLabel : InvLabel} {reg : Registers} {inv : Invocation} {k : CapabilityType}
    {v : Option Nat} (hs : Metered cfg c n s) (hslot : s.capAt inv.slot = some inv.cap)
    (hk : inv.cap.getCapType = .ok k) (hnew : RetypesApart cfg invLabel reg s inv)
    (h : Zoeax.invoke cfg invLabel reg inv k s = .ok v s') : Metered cfg c n s' :=
  mapStable.toCapStable.invoke threadSteady (fun _ _ hs => hs.of_eq rfl rfl rfl) .trivial hk hslot
    (capsAll_trivial s) (.inr hnew) (fun _ _ _ _ _ _ _ ht hs => hs.setTcb ht rfl)
    (fun _ _ _ _ _ _ _ => .intro) (mapStable.mappingKeeps .trivial) hs h

/-- **A system call does not touch the counter**, and does not change the current thread. -/
theorem syscall {regs : Registers} {u v w : KState} {base : Nat}
    {ret : Except KernelError (Option Nat)}
    (hnew : (Event.trap regs).Meets cfg (RetypesApart cfg) s)
    (hu : Metered cfg c n u) (hret : returnSyscall cfg base ret w = .ok () v)
    (hw : w = u ∨ ∃ invLabel inv k val, ret = .ok val ∧
      Invokes cfg s (.trap regs) invLabel regs u inv ∧
      inv.cap.getCapType = .ok k ∧ Zoeax.invoke cfg invLabel regs inv k u = .ok val w) :
    Metered cfg c n v := by
  refine (threadSteady.returnSyscall _ _).ok ?_ hret
  rcases hw with rfl | ⟨invLabel, inv, k, val, -, hinv, hk, hinvoke⟩
  · exact hu
  · obtain ⟨-, -, -, -, -, hslot⟩ := findInvocation_ok hinv.found
    exact hu.invoke hslot hk (hnew _ _ _ _ hinv) hinvoke

end Metered

/-! ## The invariant of the trap loop -/

/-- The current thread is the idle thread, or has at least one tick and at most a quantum left. -/
def Sliced (cfg : Config) (s : KState) : Prop :=
  s.current = cfg.idleThread ∨
    ∃ t, s.tcbs s.current = some t ∧ 1 ≤ t.timeSlice ∧ t.timeSlice ≤ taskQuantum

/-- A tick counts down without overflow. -/
def Ticks (cfg : Config) (s : KState) : Prop :=
  ∃ v, timerTick cfg s = .ok () v ∧ (s.current = cfg.idleThread ∧ v = s ∨
    ∃ t m, s.tcbs s.current = some t ∧ t.timeSlice = m + 1 ∧ v =
      { s.setTcb s.current (t.setTimeout m) with requested := m = 0 || s.requested })

theorem Sliced.exists_metered (hheap : HeapWF cfg s) (hs : Sliced cfg s) :
    ∃ n, 1 ≤ n ∧ n ≤ taskQuantum ∧ Metered cfg s.current n s := by
  rcases hs with hidle | ⟨t, ht, hpos, hle⟩
  · exact ⟨1, le_rfl, by decide, hheap, rfl, .inl hidle⟩
  · exact ⟨t.timeSlice, hpos, hle, hheap, rfl, .inr ⟨t, ht, rfl⟩⟩

theorem Metered.sliced {c n : Nat} (hpos : 1 ≤ n) (hle : n ≤ taskQuantum)
    (hs : Metered cfg c n s) : Sliced cfg s := by
  unfold Sliced
  rw [hs.current]
  refine hs.slice.imp_right fun ⟨t, ht, hn⟩ => ⟨t, ht, ?_⟩
  rw [hn]
  exact ⟨hpos, hle⟩

theorem timerTick_of_idle (hidle : s.current = cfg.idleThread) : timerTick cfg s = .ok () s := by
  simp only [timerTick, bind_ok, get_ok]
  refine ⟨s, s, ⟨rfl, rfl⟩, ?_⟩
  rw [if_pos hidle]
  rfl

theorem timerTick_of_succ {t : ThreadInfo} {m : Nat} (hne : s.current ≠ cfg.idleThread)
    (ht : s.tcbs s.current = some t) (hm : t.timeSlice = m + 1) :
    timerTick cfg s = .ok ()
      { s.setTcb s.current (t.setTimeout m) with requested := m = 0 || s.requested } := by
  have hsub : cfg.profile.sub t.timeSlice 1 = some m := by
    rw [hm, Profile.sub_of_le _ (Nat.le_add_left ..), Nat.add_sub_cancel]
  simp only [timerTick, bind_ok, get_ok]
  refine ⟨s, s, ⟨rfl, rfl⟩, ?_⟩
  rw [if_neg hne]
  simp only [bind_ok, lift_ok, getTcb_ok, liftExcept_ok, arith_ok, updateTcb_ok]
  refine ⟨t, s, ⟨ht, rfl⟩, m, s, ⟨hsub, rfl⟩, (), _, ⟨t, ht, rfl⟩, ?_⟩
  by_cases hzero : m = 0
  · rw [if_pos hzero, decide_eq_true hzero]
    rfl
  · rw [if_neg hzero, decide_eq_false hzero]
    rfl

theorem Sliced.ticks (hs : Sliced cfg s) : Ticks cfg s := by
  by_cases hidle : s.current = cfg.idleThread
  · exact ⟨s, timerTick_of_idle hidle, .inl ⟨hidle, rfl⟩⟩
  · obtain ⟨t, ht, hpos, -⟩ := hs.resolve_left hidle
    obtain ⟨m, hm⟩ : ∃ m, t.timeSlice = m + 1 := ⟨t.timeSlice - 1, by omega⟩
    exact ⟨_, timerTick_of_succ hidle ht hm, .inr ⟨t, m, ht, hm, rfl⟩⟩

/-- A tick leaves a counter in range, or at zero with a reschedule requested. -/
theorem Sliced.timerTick (hs : Sliced cfg s) (h : timerTick cfg s = .ok () s') :
    s'.requested = false → Sliced cfg s' := by
  obtain ⟨v, hv, ⟨-, rfl⟩ | ⟨t, m, ht, hm, rfl⟩⟩ := hs.ticks
  · cases hv.symm.trans h
    exact fun _ => hs
  · cases hv.symm.trans h
    intro hreq
    refine hs.imp_right fun ⟨t', ht', _, hle⟩ => ⟨_, Function.update_self .., ?_⟩
    obtain rfl := Option.some.inj (ht.symm.trans ht')
    have hne : m ≠ 0 := by
      rintro rfl
      exact absurd hreq (by simp)
    change 1 ≤ m ∧ m ≤ taskQuantum
    omega

/-- With a request pending, `schedule` refills the counter or takes the idle thread. -/
theorem Sliced.schedule {u : Unit} (hs : s.requested = false → Sliced cfg s)
    (h : schedule cfg s = .ok u s') : Sliced cfg s' := by
  have hfull : 1 ≤ taskQuantum ∧ taskQuantum ≤ taskQuantum := by decide
  obtain ⟨hreq, rfl⟩ | ⟨-, next, _, t, _, _, _, -, -, -, -, rfl⟩ |
    ⟨-, -, t, -, ⟨-, rfl⟩ | ⟨-, _, rfl⟩⟩ := schedule_cases h
  · exact hs hreq
  · exact .inr ⟨_, Function.update_self .., hfull⟩
  · exact .inr ⟨_, Function.update_self .., hfull⟩
  · exact .inl rfl

theorem sliced_boot {image : Image} (h : Boot cfg image s) : Sliced cfg s := by
  obtain ⟨_, _, _, _, _, _, _, _, _, -, -, -, -, hsched⟩ := boot_cases h
  refine Sliced.schedule ?_ hsched
  exact nofun

/-- The step lemma: a trap ends with a counter in range. -/
theorem Sliced.step {ev : Event} (hheap : HeapWF cfg s)
    (hnew : ev.Meets cfg (RetypesApart cfg) s) (hs : Sliced cfg s) (h : Step cfg s ev s') :
    Sliced cfg s' := by
  cases ev with
  | store a w =>
    obtain rfl := modify_ok.1 h.2
    exact hs
  | trap regs =>
    obtain ⟨n, hpos, hle, hmeter⟩ := hs.exists_metered hheap
    obtain ⟨-, u, v, -, hentry, -, hsched, hcase⟩ := step_trap h
    have hu : Metered cfg s.current n u := hmeter.trapEntry hentry
    refine Sliced.schedule ?_ hsched
    rcases hcase with htimer | ⟨-, ret, w, hret, hw⟩
    · exact (hu.sliced hpos hle).timerTick htimer
    · exact fun _ => (hu.syscall hnew hret hw).sliced hpos hle

theorem sliced_of_run {image : Image} {s₀ : KState} (hboot : Boot cfg image s₀)
    (hrun : Run cfg (GuardedFits cfg) s₀ s) : HeapWF cfg s ∧ Sliced cfg s := by
  obtain ⟨hheap, -, hs⟩ := run_invariant_apart (P := Sliced cfg) hrun
    (fun _ _ _ _ h => h.retypeFits) (heapWF_boot hboot) (boot_allocated hboot) (sliced_boot hboot)
    fun _ _ _ hheap _ _ hnew hs hstep => hs.step hheap hnew hstep
  exact ⟨hheap, hs⟩

/-- **The counter does not underflow.** In every run from boot that meets what is left to the
callers, at every trap the current thread is the idle thread or has between one tick and a quantum
left, and a tick at this trap counts down. -/
theorem timeSlice_of_run {image : Image} {s₀ u : KState} {regs : Registers}
    (hboot : Boot cfg image s₀) (hrun : Run cfg (GuardedFits cfg) s₀ s)
    (hentry : trapEntry regs s = .ok () u) : Sliced cfg s ∧ Ticks cfg u := by
  obtain ⟨hheap, hs⟩ := sliced_of_run hboot hrun
  obtain ⟨n, hpos, hle, hmeter⟩ := hs.exists_metered hheap
  exact ⟨hs, ((hmeter.trapEntry hentry).sliced hpos hle).ticks⟩

/-- The last tick of the root server's first time slice. -/
theorem timeSlice_at_last_tick : ∃ s₀ s u, Boot .virt demoImage s₀ ∧
    Run .virt (GuardedFits .virt) s₀ s ∧ trapEntry tickRegs s = .ok () u ∧
    (∃ t, s.tcbs s.current = some t ∧ t.timeSlice = 1) ∧ Sliced .virt s ∧ Ticks .virt u := by
  obtain ⟨s₀, s, hboot, hrun, htest⟩ := exists_run_of_trace .virt (GuardedFits .virt) demoImage
    (List.replicate 19 (.trap tickRegs))
    (fun s => (s.tcbs s.current).any (·.timeSlice = 1) && endsIn (trapEntry tickRegs s)
      fun _ => true)
    (by decide +kernel)
  obtain ⟨hone, hentry⟩ := Bool.and_eq_true_iff.1 htest
  obtain ⟨_, u, hentry, -⟩ := exists_of_endsIn hentry
  obtain ⟨t, ht, hone⟩ := (Option.any_eq_true _ _).1 hone
  obtain ⟨hs, hu⟩ := timeSlice_of_run hboot hrun hentry
  exact ⟨s₀, s, u, hboot, hrun, hentry, ⟨t, ht, by simpa using hone⟩, hs, hu⟩

/-- `UntypedRetype` of `num` objects from the block in slot `block`, into the slots from `index`
on. -/
def retypeFrom (block index num userSize newType : UInt64) : Event :=
  .trap { ecallRegs block 18 2 with
    a3 := 2, a4 := 18 + index * 2 ^ 32, a5 := num + userSize * 2 ^ 32, a6 := newType }

/-- The thread in slot 19 is the first object of the block in slot 18. It gets the root server's
capability space and address space and an entry point. The block before, in slot 17, loses the room
of a CNode and of twice two threads. When the thread runs, it makes thirteen threads from what is
left. Each of them takes thirteen times its size, so that the last one lies where the running thread
is. -/
def retypeOverSelf : List Event :=
  [retypeFrom 18 19 1 0 3,
    .trap { ecallRegs 19 18 3 with a3 := 2, a4 := 18, a5 := 3, a6 := 18 },
    .store (2160074752 + 8 * 33) 0x10000, .trap (ecallRegs 19 18 4), .trap resumeRegs,
    retypeFrom 17 20 1 3 7, retypeFrom 17 21 2 0 3] ++
    List.replicate 20 (.trap tickRegs) ++ [retypeFrom 17 30 13 0 3]

/-- **Without `RetypeFits` it underflows**: the running thread is initialised once more, with a
counter of zero, and the next tick panics. -/
theorem timeSlice_underflows : ∃ s₀ s u u', Boot .virt demoImage s₀ ∧
    Run .virt (fun _ _ _ _ => True) s₀ s ∧ trapEntry tickRegs s = .ok () u ∧
    ¬Sliced .virt s ∧ timerTick .virt u = .error (.halt .panic) u' ∧ ¬Ticks .virt u := by
  obtain ⟨s₀, s, hboot, hrun, htest⟩ := exists_run_of_trace .virt (fun _ _ _ _ => True) demoImage
    retypeOverSelf
    (fun s => s.current ≠ Config.virt.idleThread && (s.tcbs s.current).any (·.timeSlice = 0) &&
      endsIn (trapEntry tickRegs s) fun u => stopsWith (timerTick .virt u) (.halt .panic))
    (by decide +kernel)
  simp only [Bool.and_eq_true, decide_eq_true_eq, Option.any_eq_true] at htest
  obtain ⟨⟨hne, t, ht, hzero⟩, hentry⟩ := htest
  obtain ⟨_, u, hentry, htick⟩ := exists_of_endsIn hentry
  obtain ⟨u', htick⟩ := exists_of_stopsWith htick
  refine ⟨s₀, s, u, u', hboot, hrun, hentry, ?_, htick, ?_⟩
  · rintro (hidle | ⟨t', ht', hpos, -⟩)
    · exact hne hidle
    · obtain rfl := Option.some.inj (ht.symm.trans ht')
      omega
  · rintro ⟨v, hv, -⟩
    cases htick.symm.trans hv

end Zoeax
