import Zoeax.Verify.Threads

/-!
# Preemption

A reschedule is requested by a timer interrupt that uses up the time slice of the current thread,
and by a call that blocks it. `schedule` consumes the request when it switches to another thread.
With an empty run queue it gives a current thread that can still run a new time slice and returns,
and the request stands: the next system call that makes a thread ready preempts its caller
(`preempted_by_resume`).

In a run in which time slices run out only while another thread is ready, no request outlives its
trap, and a thread that can run is preempted at the end of its time slice only
(`preemption_of_run`). Runs of the model end where a call leaves the live objects: a walk that gets
to the variables of the scheduler is none of them.
-/

namespace Zoeax

open Lib Exec

variable {cfg : Config} {s s' : KState}

/-! ## Requests in a system call -/

/-- No reschedule is requested, and `c` is the current thread. -/
structure Calm (c : Nat) (s : KState) : Prop where
  requested : s.requested = false
  current : s.current = c

/-- A reschedule is requested only if the current thread `c` is blocked. -/
structure Asked (c : Nat) (s : KState) : Prop where
  blocked : s.requested = true → s.statusOf c = some .blocked
  current : s.current = c

theorem Calm.asked {c : Nat} (h : Calm c s) : Asked c s :=
  ⟨fun hr => absurd (h.requested.symm.trans hr) nofun, h.current⟩

theorem calm_mapStable (c : Nat) : MapStable cfg (fun _ _ _ => True) (Calm c) where
  toCapStable := .of_slots (fun _ _ hs => ⟨hs.1, hs.2⟩) (fun _ _ _ _ _ _ _ hs => ⟨hs.1, hs.2⟩)
    fun s o _ hs => ⟨(requested_born s o).trans hs.1, (current_born s o).trans hs.2⟩
  mem _ _ hs := ⟨hs.1, hs.2⟩
  root _ _ hs := ⟨hs.1, hs.2⟩

theorem calm_renews (c : Nat) : Renews (Calm c) := by
  intro s o _ _ hs
  obtain ⟨t, e, n, h⟩ := renewed_cells s o
  rw [h]
  exact ⟨hs.1, hs.2⟩

theorem calm_threadQuiet (c : Nat) : ThreadQuiet (Calm c) where
  tcb _ _ _ _ _ _ hs := ⟨hs.1, hs.2⟩
  queues _ _ _ _ hs := ⟨hs.1, hs.2⟩
  copy _ _ _ _ hs := ⟨hs.1, hs.2⟩

/-- The end of a call that may have blocked its caller. -/
theorem Asked.scheduleIf {c : Nat} {b : Bool} {u : Unit} (hs : Calm c s)
    (hb : b = true → s.statusOf c = some .blocked) (h : scheduleIf b s = .ok u s') :
    Asked c s' := by
  cases b with
  | false =>
    obtain ⟨-, rfl⟩ := pure_ok.1 h
    exact hs.asked
  | true =>
    obtain rfl := modify_ok.1 h
    exact ⟨fun _ => hb rfl, hs.current⟩

namespace Calm

variable {c : Nat}

theorem enqueue_blocked {a : Nat} {u : Unit} (h : Endpoint.enqueue a c s = .ok u s') :
    s'.statusOf c = some .blocked := by
  simp only [Endpoint.enqueue, blockThread, bind_ok, updateTcb_ok, lift_ok, modify_ok] at h
  obtain ⟨_, _, ⟨t, ht, rfl⟩, e, _, ⟨-, rfl⟩, rfl⟩ := h
  exact (KState.statusOf_setTcb s c c t.suspend).trans (if_pos rfl)

theorem endpointSend_blocked {a : Nat} {b : Bool} (h : Endpoint.send a c s = .ok b s')
    (hb : b = true) : s'.statusOf c = some .blocked := by
  simp only [Endpoint.send, bind_ok, lift_ok, modify_ok] at h
  obtain ⟨ep, _, ⟨-, rfl⟩, _, _, rfl, h⟩ := h
  cases hp : (ep.popFromQueue .send).1 with
  | some p =>
    simp only [hp, Endpoint.sendTo, bind_ok, pure_ok] at h
    obtain ⟨_, _, -, _, _, -, hfalse, rfl⟩ := h
    cases hfalse.trans hb
  | none =>
    simp only [hp, Endpoint.sendTo, bind_ok, pure_ok] at h
    obtain ⟨_, _, hen, -, rfl⟩ := h
    exact enqueue_blocked hen

theorem endpointRecv_blocked {a : Nat} {b : Bool} (h : Endpoint.recv a c s = .ok b s')
    (hb : b = true) : s'.statusOf c = some .blocked := by
  simp only [Endpoint.recv, bind_ok, lift_ok, modify_ok] at h
  obtain ⟨ep, _, ⟨-, rfl⟩, _, _, rfl, h⟩ := h
  cases hp : (ep.popFromQueue .recv).1 with
  | some p =>
    simp only [hp, Endpoint.recvFrom, bind_ok, pure_ok] at h
    obtain ⟨_, _, -, _, _, -, hfalse, rfl⟩ := h
    cases hfalse.trans hb
  | none =>
    simp only [hp, Endpoint.recvFrom, bind_ok, pure_ok] at h
    obtain ⟨_, _, hen, -, rfl⟩ := h
    exact enqueue_blocked hen

theorem waitSignal_blocked {a : Nat} {b : Bool} (h : Notification.waitSignal a c s = .ok b s')
    (hb : b = true) : s'.statusOf c = some .blocked := by
  simp only [Notification.waitSignal, bind_ok, lift_ok] at h
  obtain ⟨n, _, ⟨-, rfl⟩, h⟩ := h
  split at h
  · simp only [bind_ok, modify_ok, pure_ok] at h
    obtain ⟨_, _, -, _, _, rfl, hfalse, rfl⟩ := h
    cases hfalse.trans hb
  · simp only [blockThread, bind_ok, updateTcb_ok, modify_ok, pure_ok] at h
    obtain ⟨_, _, ⟨t, ht, rfl⟩, _, _, rfl, -, rfl⟩ := h
    exact (KState.statusOf_setTcb s c c t.suspend).trans (if_pos rfl)

theorem invokeEndPoint (hs : Calm c s) {invLabel : InvLabel} {cap : CapabilityData}
    {v : Option Nat} (h : invokeEndPoint invLabel c cap s = .ok v s') : Asked c s' := by
  have hq := (calm_threadQuiet c).steady
  unfold Zoeax.invokeEndPoint at h
  split at h
  · simp only [EndPointCap.send, bind_ok, pure_ok] at h
    obtain ⟨b, s₂, ⟨_, s₁, hbadge, hsend⟩, _, s₃, hsched, rfl, rfl⟩ := h
    have hs₁ : Calm c s₁ := by
      refine (hq.updateTcb fun t => ?_).ok hs hbadge
      exact .of_eq rfl rfl rfl rfl rfl
    exact .scheduleIf ((hq.endpointSend ..).ok hs₁ hsend) (endpointSend_blocked hsend) hsched
  · simp only [EndPointCap.recv, bind_ok, pure_ok] at h
    obtain ⟨b, s₂, hrecv, _, s₃, hsched, rfl, rfl⟩ := h
    exact .scheduleIf ((hq.endpointRecv ..).ok hs hrecv) (endpointRecv_blocked hrecv) hsched
  · exact (throw_ok.1 h).elim

theorem invokeNotification (hs : Calm c s) {invLabel : InvLabel} {cap : CapabilityData}
    {v : Option Nat} (h : invokeNotification invLabel c cap s = .ok v s') : Asked c s' := by
  have hq := (calm_threadQuiet c).steady
  unfold Zoeax.invokeNotification at h
  split at h
  · simp only [NotificationCap.send, bind_ok, pure_ok] at h
    obtain ⟨_, s₁, hsend, rfl, rfl⟩ := h
    exact ((hq.sendSignal ..).ok hs hsend).asked
  · simp only [NotificationCap.wait, bind_ok, pure_ok] at h
    obtain ⟨b, s₂, hwait, _, s₃, hsched, rfl, rfl⟩ := h
    exact .scheduleIf ((hq.waitSignal ..).ok hs hwait) (waitSignal_blocked hwait) hsched
  · exact (throw_ok.1 h).elim

/-- An invocation requests a reschedule only when it blocks its caller. -/
theorem invoke (hs : Calm c s) {invLabel : InvLabel} {reg : Registers} {inv : Invocation}
    {k : CapabilityType} {v : Option Nat} (hcur : inv.current = c)
    (hk : inv.cap.getCapType = .ok k) (h : invoke cfg invLabel reg inv k s = .ok v s') :
    Asked c s' := by
  subst hcur
  have hI : MapStable cfg _ _ := calm_mapStable inv.current
  cases k with
  | untyped => exact (hI.invokeUntyped .trivial (.inl (calm_renews _)) hs h).asked
  | cNode =>
    exact (hI.invokeCNode .trivial (capsAll_trivial s) (fun _ _ _ _ _ => trivial) hs h).asked
  | tcb =>
    refine (hI.invokeTcb .trivial (capsAll_trivial s) ?_ ?_ hs h).asked
    · exact fun _ hres => ((calm_threadQuiet _).steady.resume _).ok hs hres
    · exact fun _ _ _ _ _ _ _ => ⟨hs.1, hs.2⟩
  | notification => exact hs.invokeNotification h
  | endPoint => exact hs.invokeEndPoint h
  | page => exact (hI.invokePage .trivial hk trivial hs h).asked
  | pageTable => exact (hI.invokePageTable .trivial hk trivial hs h).asked

end Calm

/-! ## Requests in a trap -/

/-- The trap is a timer interrupt that uses up the time slice of the current thread. -/
def Expires (cfg : Config) (s : KState) (regs : Registers) : Prop :=
  regs.scause.toNat.testBit 63 = true ∧ regs.scause.toNat % 2 ^ 63 = supervisorTimer ∧
    s.current ≠ cfg.idleThread ∧ ∃ t, s.tcbs s.current = some t ∧ t.timeSlice = 1

theorem returnSyscall_asked {c thread : Nat} {ret : Except KernelError (Option Nat)} {u : Unit}
    (hs : Asked c s) (h : returnSyscall cfg thread ret s = .ok u s') : Asked c s' := by
  obtain ⟨t, sepc, ht, -, rfl⟩ := returnSyscall_ok.1 h
  exact ⟨fun hr => (KState.statusOf_setRegisters ht _ _).trans (hs.blocked hr), hs.current⟩

theorem timerTick_ok {u : Unit} (h : timerTick cfg s = .ok u s') :
    s' = s ∨ s.current ≠ cfg.idleThread ∧ ∃ t n, s.tcbs s.current = some t ∧
      cfg.profile.sub t.timeSlice 1 = some n ∧
      s' = { s.setTcb s.current (t.setTimeout n) with requested := n = 0 || s.requested } := by
  simp only [timerTick, bind_ok, get_ok] at h
  obtain ⟨_, _, ⟨rfl, rfl⟩, h⟩ := h
  split at h
  · exact .inl (pure_ok.1 h).2.symm
  · next hne =>
    simp only [bind_ok, lift_ok, getTcb_ok, liftExcept_ok, arith_ok, updateTcb_ok] at h
    obtain ⟨t, _, ⟨ht, rfl⟩, n, _, ⟨hn, rfl⟩, _, _, ⟨t', ht', rfl⟩, h⟩ := h
    obtain rfl := Option.some.inj (ht.symm.trans ht')
    refine .inr ⟨hne, t, n, ht, hn, ?_⟩
    split at h
    · next hzero =>
      obtain rfl := modify_ok.1 h
      simp [hzero, KState.setTcb]
    · next hpos =>
      obtain ⟨-, rfl⟩ := pure_ok.1 h
      simp [hpos, KState.setTcb]

theorem sub_one_eq_zero {p : Profile} {n : Nat} (h : p.sub n 1 = some 0) : n = 1 := by
  unfold Profile.sub at h
  split at h
  · have := Option.some.inj h
    omega
  · cases p with
    | debug => cases h
    | release =>
      have := Option.some.inj h
      omega

/-- **Why a trap requests a reschedule**: the time slice of the current thread is used up, or the
thread has blocked. -/
theorem handleTrap_asked {regs : Registers} {u v : KState} (hs : s.requested = false)
    (hentry : trapEntry regs s = .ok () u) (h : handleTrap cfg regs.scause.toNat u = .ok () v) :
    Asked s.current v ∨ (Expires cfg s regs ∧ v.current = s.current ∧ v.runqueue = s.runqueue) := by
  obtain ⟨t₀, ht₀, rfl⟩ := trapEntry_ok.1 hentry
  have hu : Calm s.current (s.setTcb s.curRegBase { t₀ with registers := regs }) := ⟨hs, rfl⟩
  unfold handleTrap at h
  split at h
  · next hbit =>
    split at h
    · next hcode =>
      obtain rfl | ⟨hne, t, n, ht, hn, rfl⟩ := timerTick_ok h
      · exact .inl hu.asked
      · by_cases hzero : n = 0
        · subst hzero
          refine .inr ⟨⟨hbit, hcode, hne, ?_⟩, rfl, rfl⟩
          -- saving the registers leaves the time slice alone
          change (s.setTcb s.curRegBase _).tcbs s.current = some t at ht
          rw [KState.tcbs_setTcb] at ht
          split at ht
          · next heq =>
            rw [← Option.some.inj ht] at hn
            exact ⟨t₀, heq ▸ ht₀, sub_one_eq_zero hn⟩
          · exact ⟨t, ht, sub_one_eq_zero hn⟩
        · refine .inl (Calm.asked ⟨?_, rfl⟩)
          change (decide (n = 0) || s.requested) = false
          rw [hs, decide_eq_false hzero]
          rfl
    · exact (throw_ok.1 h).elim
  · split at h
    · obtain ⟨t, ret, w, -, hret, rfl | ⟨_, inv, k, _, -, -, -, hinv, hk, hinvoke⟩⟩ :=
        handleSyscall_ok h
      · exact .inl (returnSyscall_asked hu.asked hret)
      · have hcur := (findInvocation_ok hinv).1
        exact .inl (returnSyscall_asked (hu.invoke hcur hk hinvoke) hret)
    · exact (throw_ok.1 h).elim

/-! ## Runs -/

/-- A time slice runs out only while another thread is ready. -/
def ReadyAtExpiry (cfg : Config) (s : KState) : Event → Prop
  | .trap regs => Expires cfg s regs → s.runqueue ≠ []
  | .store _ _ => True

/-- Runs in which every event meets the condition on the state it happens in. -/
def EventRun (cfg : Config) (C : KState → Event → Prop) : KState → KState → Prop :=
  Relation.ReflTransGen fun s s' => ∃ ev, C s ev ∧ Step cfg s ev s'

theorem schedule_of_not_requested {u : Unit} (hs : s.requested = false)
    (h : schedule cfg s = .ok u s') : s' = s := by
  simp only [schedule, bind_ok, get_ok] at h
  obtain ⟨_, _, ⟨rfl, rfl⟩, h⟩ := h
  rw [hs] at h
  exact (pure_ok.1 h).2.symm

/-- The scheduler consumes the request, unless it leaves a runnable thread alone. -/
theorem schedule_requested {u : Unit} (h : schedule cfg s = .ok u s') :
    s'.requested = false ∨
      s.runqueue = [] ∧ s.requested = true ∧ s.statusOf s.current = some .runnable := by
  obtain ⟨hreq, rfl⟩ | ⟨-, _, _, _, _, _, _, -, -, -, -, rfl⟩ |
    ⟨hreq, hq, t, ht, ⟨hrun, rfl⟩ | ⟨-, _, rfl⟩⟩ := schedule_cases h
  · exact .inl hreq
  · exact .inl rfl
  · exact .inr ⟨hq, hreq, (isRunnable_iff ht).1 hrun⟩
  · exact .inl rfl

/-- The end of a trap that may have requested a reschedule. -/
theorem requested_of_trap {regs : Registers} {u v : KState} (hs : s.requested = false)
    (hready : Expires cfg s regs → s.runqueue ≠ []) (hentry : trapEntry regs s = .ok () u)
    (htrap : handleTrap cfg regs.scause.toNat u = .ok () v) (hsched : schedule cfg v = .ok () s') :
    s'.requested = false := by
  rcases schedule_requested hsched with hreq | ⟨hq, hreq, hrun⟩
  · exact hreq
  · rcases handleTrap_asked hs hentry htrap with hasked | ⟨hexp, -, hq'⟩
    · have := hasked.blocked hreq
      rw [← hasked.current, hrun] at this
      cases this
    · exact absurd (hq'.symm.trans hq) (hready hexp)

theorem requested_of_boot {image : Image} (h : Boot cfg image s) : s.requested = false := by
  obtain ⟨_, _, _, rootTcb, _, _, _, s₃, s₄, -, -, -, hres, hsched⟩ := boot_cases h
  rcases schedule_requested hsched with hreq | ⟨hq, -, -⟩
  · exact hreq
  · obtain ⟨t, -, rfl⟩ := resume_ok.1 hres
    exact absurd hq (List.append_ne_nil_of_right_ne_nil _ (List.cons_ne_nil _ _))

theorem requested_of_run {image : Image} {s₀ : KState} (hboot : Boot cfg image s₀)
    (hrun : EventRun cfg (ReadyAtExpiry cfg) s₀ s) : s.requested = false := by
  refine run_invariant (P := fun s => s.requested = false) hrun (requested_of_boot hboot) ?_
  rintro u v hu ⟨ev, hready, -, hexec⟩
  cases ev with
  | store a w =>
    obtain rfl := modify_ok.1 hexec
    exact hu
  | trap regs =>
    simp only [Event.exec, kernelTrap, bind_ok] at hexec
    obtain ⟨_, _, hentry, _, _, htrap, hsched⟩ := hexec
    exact requested_of_trap hu hready hentry htrap hsched

/-- **Preemption at the end of the time slice only.** In every run from boot in which time slices
run out only while another thread is ready: a trap after which a thread other than the idle thread,
still runnable, is not the current one any more is the timer interrupt that used up its time slice;
and no request is left after a trap. -/
theorem preemption_of_run {image : Image} {s₀ u v : KState} {regs : Registers}
    (hboot : Boot cfg image s₀) (hrun : EventRun cfg (ReadyAtExpiry cfg) s₀ s)
    (hready : ReadyAtExpiry cfg s (.trap regs)) (hentry : trapEntry regs s = .ok () u)
    (htrap : handleTrap cfg regs.scause.toNat u = .ok () v) (hsched : schedule cfg v = .ok () s') :
    (v.current ≠ cfg.idleThread → v.statusOf v.current = some .runnable →
      s'.current ≠ v.current → Expires cfg s regs) ∧ s'.requested = false := by
  have hs := requested_of_run hboot hrun
  refine ⟨fun _ hrunnable hne => ?_, requested_of_trap hs hready hentry htrap hsched⟩
  rcases handleTrap_asked hs hentry htrap with hasked | ⟨hexp, -, -⟩
  · refine absurd ?_ hne
    rw [schedule_of_not_requested ?_ hsched]
    by_contra hreq
    have := hasked.blocked (by simpa using hreq)
    rw [← hasked.current, hrunnable] at this
    cases this
  · exact hexp

/-! ## Two threads -/

instance (s : KState) (regs : Registers) : Decidable (Expires cfg s regs) := by
  have : Decidable (∃ t, s.tcbs s.current = some t ∧ t.timeSlice = 1) :=
    decidable_of_iff (((s.tcbs s.current).any fun t => t.timeSlice = 1) = true)
      ((Option.any_eq_true ..).trans (by simp only [decide_eq_true_eq]))
  unfold Expires
  infer_instance

instance (s : KState) (ev : Event) : Decidable (ReadyAtExpiry cfg s ev) := by
  unfold ReadyAtExpiry
  split <;> infer_instance

section

variable (cfg : Config) (C : KState → Event → Prop) [∀ s ev, Decidable (C s ev)]

/-- Plays the events; stops at one that the machine does not allow or that breaks the condition. -/
def playEvents : List Event → KM Unit
  | [] => pure ()
  | ev :: evs => do
    let s ← get
    if ev.Enabled s ∧ C s ev then do
      ev.exec cfg
      playEvents evs
    else throw panicked

variable {cfg C}

theorem eventRun_of_playEvents {evs : List Event} {u : Unit}
    (h : playEvents cfg C evs s = .ok u s') : EventRun cfg C s s' := by
  induction evs generalizing s with
  | nil =>
    obtain ⟨-, rfl⟩ := pure_ok.1 h
    exact .refl
  | cons ev evs ih =>
    simp only [playEvents, bind_ok, get_ok] at h
    obtain ⟨_, _, ⟨rfl, rfl⟩, h⟩ := h
    split at h
    · next hev =>
      obtain ⟨_, s₁, hexec, h⟩ := bind_ok.1 h
      exact .head ⟨ev, hev.2, hev.1, hexec⟩ (ih h)
    · exact (throw_ok.1 h).elim

end

/-- The registers at a timer interrupt. -/
def tickRegs : Registers :=
  { scause := 0x8000000000000005, sepc := 0x10000, sstatus := 0x20 }

/-- The root server makes a thread in slot 19. -/
def retypeThread : Event :=
  .trap { ecallRegs 9 18 2 with a3 := 2, a4 := 18 + 19 * 2 ^ 32, a5 := 1, a6 := 3 }

/-- The root server makes the thread in slot 19 runnable. -/
def resumeRegs : Registers := ecallRegs 19 18 5

/-- What a trap does up to the call of `schedule`, and after it. -/
def trapStates (cfg : Config) (regs : Registers) (s : KState) (test : KState → KState → Bool) :
    Bool :=
  endsIn (trapEntry regs s) fun u => endsIn (handleTrap cfg regs.scause.toNat u) fun v =>
    endsIn (schedule cfg v) fun s' => test v s'

theorem exists_of_trapStates {regs : Registers} {test : KState → KState → Bool}
    (h : trapStates cfg regs s test = true) :
    ∃ u v s', trapEntry regs s = .ok () u ∧ handleTrap cfg regs.scause.toNat u = .ok () v ∧
      schedule cfg v = .ok () s' ∧ test v s' = true := by
  obtain ⟨_, u, hentry, h⟩ := exists_of_endsIn h
  obtain ⟨_, v, htrap, h⟩ := exists_of_endsIn h
  obtain ⟨_, s', hsched, h⟩ := exists_of_endsIn h
  exact ⟨u, v, s', hentry, htrap, hsched, h⟩

/-- A second thread is ready when the time slice of the root server runs out. -/
theorem preemption_of_two_threads : ∃ s₀ s u v s', Boot .virt demoImage s₀ ∧
    EventRun .virt (ReadyAtExpiry .virt) s₀ s ∧ trapEntry tickRegs s = .ok () u ∧
    handleTrap .virt tickRegs.scause.toNat u = .ok () v ∧ schedule .virt v = .ok () s' ∧
    s'.current ≠ v.current ∧ Expires .virt s tickRegs ∧ s'.requested = false := by
  have h : endsIn ((do
      let _ ← initKernel .virt demoImage
      playEvents .virt (ReadyAtExpiry .virt) (retypeThread :: .trap resumeRegs ::
        List.replicate 19 (.trap tickRegs)) : KM Unit) (.initial .virt))
      (fun s => ReadyAtExpiry .virt s (.trap tickRegs) && trapStates .virt tickRegs s
        fun v s' => v.current ≠ Config.virt.idleThread && v.statusOf v.current = some .runnable &&
          s'.current ≠ v.current) = true := by decide +kernel
  obtain ⟨_, s, h, htest⟩ := exists_of_endsIn h
  obtain ⟨info, s₀, hboot, hplay⟩ := bind_ok.1 h
  obtain ⟨hready, htest⟩ := Bool.and_eq_true_iff.1 htest
  obtain ⟨u, v, s', hentry, htrap, hsched, htest⟩ := exists_of_trapStates htest
  simp only [Bool.and_eq_true, decide_eq_true_eq] at htest hready
  have hrun := eventRun_of_playEvents hplay
  obtain ⟨hexp, hreq⟩ := preemption_of_run ⟨info, hboot⟩ hrun hready hentry htrap hsched
  exact ⟨s₀, s, u, v, s', ⟨info, hboot⟩, hrun, hentry, htrap, hsched, htest.2,
    hexp htest.1.1 htest.1.2 htest.2, hreq⟩

/-- The time slice of the root server runs out while nobody is ready. Then it makes a second thread
runnable, and this call preempts it. -/
theorem preempted_by_resume : ∃ s₀ s u v s', Boot .virt demoImage s₀ ∧
    Run .virt (fun _ _ _ _ => True) s₀ s ∧ s.requested = true ∧
    trapEntry resumeRegs s = .ok () u ∧ handleTrap .virt resumeRegs.scause.toNat u = .ok () v ∧
    schedule .virt v = .ok () s' ∧ v.current ≠ Config.virt.idleThread ∧
    v.statusOf v.current = some .runnable ∧ s'.current ≠ v.current ∧
    resumeRegs.scause.toNat = ecallUser := by
  obtain ⟨s₀, s, hboot, hrun, htest⟩ := exists_run_of_trace .virt (fun _ _ _ _ => True) demoImage
    (List.replicate 20 (.trap tickRegs) ++ [retypeThread])
    (fun s => s.requested && trapStates .virt resumeRegs s
      fun v s' => v.current ≠ Config.virt.idleThread && v.statusOf v.current = some .runnable &&
        s'.current ≠ v.current) (by decide +kernel)
  obtain ⟨hreq, htest⟩ := Bool.and_eq_true_iff.1 htest
  obtain ⟨u, v, s', hentry, htrap, hsched, htest⟩ := exists_of_trapStates htest
  simp only [Bool.and_eq_true, decide_eq_true_eq] at htest
  exact ⟨s₀, s, u, v, s', hboot, hrun, hreq, hentry, htrap, hsched, htest.1.1, htest.1.2, htest.2,
    rfl⟩

end Zoeax
