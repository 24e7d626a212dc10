import Zoeax.Verify.Quantum

/-!
# The round robin

`schedule` works on the run queue, the current thread and the request flag. From every state in
which ready threads wait once each, and the current one does not wait, it makes one turn of a round
robin (`schedule_roundRobin`): nobody is lost or queued twice, the first thread runs next with a
full time slice, and a current thread that can go on becomes the last one. The calls of `schedule`
in a run are made from such states (`Parked.schedulable`).

The run queue is read as the sequence of its members; `Intrusive/Refinement.lean` says when the
links behind it can be read that way.
-/

namespace Zoeax

open Lib Exec

variable {cfg : Config} {s s' : KState}

/-! ## One turn -/

/-- The threads that want to run: the run queue, and the current thread if it can go on. -/
def KState.contenders (s : KState) : List Nat :=
  s.runqueue ++ if s.statusOf s.current = some .runnable then [s.current] else []

/-- What `schedule` is called on: the run queue holds distinct ready threads, the current thread is
a thread and is not one of them, and the idle thread is as `idle_init` makes it. -/
structure Schedulable (cfg : Config) (s : KState) : Prop where
  distinct : s.runqueue.Nodup
  ready : ∀ p ∈ s.runqueue, s.statusOf p = some .runnable
  notReady : s.current ∉ s.runqueue
  current : s.tcbs s.current ≠ none
  idle : s.statusOf cfg.idleThread = some .idle

/-- One turn of the round robin, from `s` to `s'`. -/
structure RoundRobin (cfg : Config) (s s' : KState) : Prop where
  same : ∀ p, p ∈ s'.contenders ↔ p ∈ s.contenders
  distinct : s'.contenders.Nodup
  /-- The first thread runs next, and the current one waits behind the others. -/
  turn : s.requested = true → ∀ next rest, s.runqueue = next :: rest →
    s'.current = next ∧ (∃ t, s'.tcbs next = some t ∧ t.timeSlice = taskQuantum) ∧
    s'.runqueue = rest ++ if s.statusOf s.current = some .runnable then [s.current] else []
  /-- Nobody waits, and the current thread goes on. -/
  again : s.requested = true → s.runqueue = [] → s.statusOf s.current = some .runnable →
    s'.current = s.current ∧ ∃ t, s'.tcbs s.current = some t ∧ t.timeSlice = taskQuantum
  /-- Nobody wants to run. -/
  rest : s.requested = true → s.runqueue = [] → s.statusOf s.current ≠ some .runnable →
    s'.current = cfg.idleThread
  idle : cfg.idleThread ∉ s'.runqueue
  calm : s.requested = false → s' = s

/-! ## `schedule` returns -/

theorem exists_switchTo {next : Nat} {t : ThreadInfo} (ht : s.tcbs next = some t) :
    ∃ s', switchTo cfg next s = .ok () s' := by
  have hact : ∃ u, activateVspace cfg next s = .ok () u := by
    rw [activateVspace, lift_bind_of_ok (getTcb_ok.2 ht)]
    cases t.vspace with
    | none => exact ⟨_, rfl⟩
    | some e =>
      dsimp only
      split
      · exact ⟨_, rfl⟩
      · exact ⟨_, rfl⟩
  obtain ⟨u, hu⟩ := hact
  exact ⟨_, bind_ok.2 ⟨(), u, hu, rfl⟩⟩

theorem exists_requeue {p : Nat} {t : ThreadInfo} (ht : s.tcbs p = some t) :
    ∃ s', requeue p s = .ok () s' ∧ s'.tcbs = s.tcbs := by
  rw [requeue, lift_bind_of_ok (getTcb_ok.2 ht)]
  split
  · exact ⟨_, rfl, rfl⟩
  · exact ⟨_, rfl, rfl⟩

theorem schedule_cons {next : Nat} {rest : List Nat} (hreq : s.requested = true)
    (hq : s.runqueue = next :: rest) : schedule cfg s = (do
      updateTcb next (·.setTimeout taskQuantum)
      requeue s.current
      switchTo cfg next : KM Unit) { s with runqueue := rest } := by
  unfold schedule
  rw [bind_of_ok (get_ok.2 ⟨rfl, rfl⟩), if_neg (by simp [hreq]), hq]
  rfl

theorem schedule_nil {tc : ThreadInfo} (hreq : s.requested = true) (hq : s.runqueue = [])
    (htc : s.tcbs s.current = some tc) : schedule cfg s =
      (if tc.isRunnable then updateTcb s.current (·.setTimeout taskQuantum)
        else switchTo cfg cfg.idleThread) s := by
  unfold schedule
  rw [bind_of_ok (get_ok.2 ⟨rfl, rfl⟩), if_neg (by simp [hreq]), hq]
  exact lift_bind_of_ok (getTcb_ok.2 htc)

theorem KState.exists_tcb {p : Nat} {st : ThreadState} (h : s.statusOf p = some st) :
    ∃ t, s.tcbs p = some t :=
  (Option.map_eq_some_iff.1 h).imp fun _ => And.left

theorem Schedulable.exists_schedule (hs : Schedulable cfg s) :
    ∃ s', schedule cfg s = .ok () s' := by
  obtain ⟨tc, htc⟩ := Option.ne_none_iff_exists'.1 hs.current
  by_cases hreq : s.requested = true
  · cases hq : s.runqueue with
    | cons next rest =>
      have hmem : next ∈ s.runqueue := hq ▸ List.mem_cons_self ..
      obtain ⟨t, ht⟩ := KState.exists_tcb (hs.ready next hmem)
      have hne : s.current ≠ next := fun h => hs.notReady (h ▸ hmem)
      let s₁ := { s with runqueue := rest }.setTcb next (t.setTimeout taskQuantum)
      have hcur : s₁.tcbs s.current = some tc := (Function.update_of_ne hne ..).trans htc
      obtain ⟨s₂, hrequeue, htcbs⟩ := exists_requeue hcur
      have hnext : s₂.tcbs next = some (t.setTimeout taskQuantum) :=
        (congrFun htcbs next).trans (Function.update_self ..)
      obtain ⟨s₃, hswitch⟩ : ∃ s₃, switchTo cfg next s₂ = .ok () s₃ := exists_switchTo hnext
      refine ⟨s₃, ?_⟩
      rw [schedule_cons hreq hq]
      exact bind_ok.2 ⟨(), s₁, updateTcb_ok.2 ⟨t, ht, rfl⟩, bind_ok.2 ⟨(), s₂, hrequeue, hswitch⟩⟩
    | nil =>
      rw [schedule_nil hreq hq htc]
      split
      · exact ⟨_, updateTcb_ok.2 ⟨tc, htc, rfl⟩⟩
      · obtain ⟨ti, hti⟩ := KState.exists_tcb hs.idle
        exact exists_switchTo hti
  · refine ⟨s, ?_⟩
    unfold schedule
    rw [bind_of_ok (get_ok.2 ⟨rfl, rfl⟩), if_pos (by simpa using hreq)]
    rfl

/-! ## The exits of `schedule` -/

namespace Schedulable

theorem nodup_contenders (hs : Schedulable cfg s) : s.contenders.Nodup := by
  unfold KState.contenders
  split
  · refine List.Nodup.append hs.distinct (List.nodup_singleton _) ?_
    intro p hp hcur
    exact hs.notReady (List.mem_singleton.1 hcur ▸ hp)
  · rw [List.append_nil]
    exact hs.distinct

theorem idle_not_mem (hs : Schedulable cfg s) : cfg.idleThread ∉ s.contenders := by
  have hidle : s.statusOf cfg.idleThread ≠ some .runnable := by
    rw [hs.idle]
    nofun
  intro h
  rcases List.mem_append.1 h with hq | hcur
  · exact hidle (hs.ready _ hq)
  · split at hcur
    · next hrun =>
      rw [← List.mem_singleton.1 hcur] at hrun
      exact hidle hrun
    · exact absurd hcur List.not_mem_nil

/-- The fields of `RoundRobin` about the contenders follow from a permutation. -/
theorem idle_of_perm (hs : Schedulable cfg s) (hperm : s'.contenders.Perm s.contenders) :
    cfg.idleThread ∉ s'.runqueue := fun h =>
  hs.idle_not_mem (hperm.mem_iff.1 (List.mem_append_left _ h))

/-- The first ready thread takes over. -/
theorem turn (hs : Schedulable cfg s) (hreq : s.requested = true) {next a : Nat}
    {rest r : List Nat} {t tc : ThreadInfo} (hq : s.runqueue = next :: rest)
    (ht : s.tcbs next = some t)
    (htc : (s.setTcb next (t.setTimeout taskQuantum)).tcbs s.current = some tc)
    (hr : r = if tc.isRunnable then rest ++ [s.current] else rest) :
    RoundRobin cfg s { s.setTcb next (t.setTimeout taskQuantum) with
      runqueue := r, satp := a, curRegBase := next, current := next, requested := false } := by
  have hquiet : Quiet s (s.setTcb next (t.setTimeout taskQuantum)) :=
    (Quiet.refl s).setTcb ht rfl rfl
  have hr : r = rest ++ if s.statusOf s.current = some .runnable then [s.current] else [] := by
    rw [hr, ← hquiet.statusOf]
    by_cases hrun : tc.isRunnable = true
    · rw [if_pos hrun, if_pos ((isRunnable_iff htc).1 hrun)]
    · rw [if_neg hrun, if_neg (hrun ∘ (isRunnable_iff htc).2), List.append_nil]
  have hnext : s.statusOf next = some .runnable := hs.ready next (hq ▸ List.mem_cons_self ..)
  have hcont : KState.contenders { s.setTcb next (t.setTimeout taskQuantum) with
      runqueue := r, satp := a, curRegBase := next, current := next, requested := false } =
      r ++ [next] := congrArg (r ++ ·) (if_pos ((hquiet.statusOf next).trans hnext))
  have hperm : (r ++ [next]).Perm s.contenders := by
    rw [KState.contenders, hq, hr]
    exact List.perm_append_singleton ..
  rw [← hcont] at hperm
  refine ⟨fun _ => hperm.mem_iff, hperm.nodup_iff.2 hs.nodup_contenders, fun _ next' rest' h => ?_,
    fun _ h => ?_, fun _ h => ?_, hs.idle_of_perm hperm, fun h => ?_⟩
  · obtain ⟨rfl, rfl⟩ := List.cons.inj (hq.symm.trans h)
    exact ⟨rfl, ⟨_, Function.update_self .., rfl⟩, hr⟩
  · cases hq.symm.trans h
  · cases hq.symm.trans h
  · cases hreq.symm.trans h

/-- The current thread goes on. -/
theorem again (hs : Schedulable cfg s) (hreq : s.requested = true) (hq : s.runqueue = [])
    {t : ThreadInfo} (ht : s.tcbs s.current = some t) (hrun : t.isRunnable = true) :
    RoundRobin cfg s (s.setTcb s.current (t.setTimeout taskQuantum)) := by
  have hquiet : Quiet s (s.setTcb s.current (t.setTimeout taskQuantum)) :=
    (Quiet.refl s).setTcb ht rfl rfl
  have hsame : (s.setTcb s.current (t.setTimeout taskQuantum)).contenders = s.contenders := by
    rw [KState.contenders, hquiet.statusOf]
    rfl
  refine ⟨fun _ => hsame ▸ .rfl, hsame ▸ hs.nodup_contenders, fun _ next rest h => ?_,
    fun _ _ _ => ⟨rfl, _, Function.update_self .., rfl⟩, fun _ _ h => ?_,
    hs.idle_of_perm (.of_eq hsame), fun h => ?_⟩
  · cases hq.symm.trans h
  · exact absurd ((isRunnable_iff ht).1 hrun) h
  · cases hreq.symm.trans h

/-- The idle thread takes over. -/
theorem rest (hs : Schedulable cfg s) (hreq : s.requested = true) (hq : s.runqueue = [])
    {t : ThreadInfo} (ht : s.tcbs s.current = some t) (hrun : t.isRunnable = false) (a : Nat) :
    RoundRobin cfg s { s with
      satp := a, curRegBase := cfg.idleThread, current := cfg.idleThread, requested := false } := by
  have hcur : s.statusOf s.current ≠ some .runnable := fun h => by
    rw [(isRunnable_iff ht).2 h] at hrun
    cases hrun
  have hidle : s.statusOf cfg.idleThread ≠ some .runnable := by
    rw [hs.idle]
    nofun
  have hsame : KState.contenders { s with
      satp := a, curRegBase := cfg.idleThread, current := cfg.idleThread,
      requested := false } = s.contenders := by
    rw [KState.contenders, KState.contenders, if_neg hcur]
    exact congrArg _ (if_neg hidle)
  refine ⟨fun _ => hsame ▸ .rfl, hsame ▸ hs.nodup_contenders, fun _ next rest h => ?_,
    fun _ _ h => absurd h hcur, fun _ _ _ => rfl, hs.idle_of_perm (.of_eq hsame), fun h => ?_⟩
  · cases hq.symm.trans h
  · cases hreq.symm.trans h

/-- No reschedule is requested. -/
theorem calm (hs : Schedulable cfg s) (hreq : s.requested = false) : RoundRobin cfg s s := by
  refine ⟨fun _ => .rfl, hs.nodup_contenders, fun h => ?_, fun h => ?_, fun h => ?_,
    hs.idle_of_perm (.refl _), fun _ => rfl⟩
  all_goals cases hreq.symm.trans h

theorem roundRobin (hs : Schedulable cfg s) {u : Unit} (h : schedule cfg s = .ok u s') :
    RoundRobin cfg s s' := by
  obtain ⟨hreq, rfl⟩ | ⟨hreq, next, rest, t, tc, r, a, hq, ht, htc, hr, rfl⟩ |
    ⟨hreq, hq, t, ht, ⟨hrun, rfl⟩ | ⟨hrun, a, rfl⟩⟩ := schedule_cases h
  · exact hs.calm hreq
  · exact hs.turn hreq hq ht htc hr
  · exact hs.again hreq hq ht hrun
  · exact hs.rest hreq hq ht hrun a

end Schedulable

/-! ## The calls of `schedule` in a run -/

/-- A trap leaves the threads in order for the scheduler. -/
theorem Settled.schedulable (hs : Settled cfg s) {u : Unit}
    (h : Zoeax.schedule cfg s = .ok u s') : Schedulable cfg s where
  distinct := hs.queued.exclusive.nodup .run
  ready p hp := hs.queued.status .run p hp
  notReady := hs.notReady
  current := by
    obtain ⟨hreq, -⟩ | ⟨-, next, rest, t, tc, _, _, hq, -, htc, -⟩ | ⟨-, -, t, ht, -⟩ :=
      schedule_cases h
    · rcases hs.current with hrun | hidle | hreq'
      · obtain ⟨t, ht⟩ := KState.exists_tcb hrun
        rw [ht]
        nofun
      · obtain ⟨t, ht⟩ := KState.exists_tcb hs.queued.idle
        rw [hidle, ht]
        nofun
      · cases hreq.symm.trans hreq'
    · have hne : s.current ≠ next := fun heq => by
        refine hs.notReady ?_
        rw [hq, heq]
        exact List.mem_cons_self ..
      rw [KState.tcbs_setTcb, if_neg hne] at htc
      rw [htc]
      nofun
    · rw [ht]
      nofun
  idle := hs.queued.idle

theorem schedulable_of_run {image : Image} {s₀ u v : KState} {regs : Registers}
    (hboot : Boot cfg image s₀) (hrun : Run cfg (GuardedWith cfg ResumeInactive) s₀ s)
    (hen : (Event.trap regs).Enabled s)
    (hcond : (Event.trap regs).Meets cfg (GuardedWith cfg ResumeInactive) s)
    (hentry : trapEntry regs s = .ok () u)
    (htrap : handleTrap cfg regs.scause.toNat u = .ok () v) (hsched : schedule cfg v = .ok () s') :
    Schedulable cfg v := by
  obtain ⟨hheap, hall, hcaps, hready⟩ := ready_of_run hboot hrun
  have hnew := hall.meets_retypesApart hheap (hcond.mono fun _ _ _ _ h => h.1.retypeFits)
  have hresume := hcond.mono fun _ _ _ _ h => h.2
  exact (hready.handleTrap hheap hcaps hen hresume hnew hentry htrap).schedulable hsched

/-- **Every turn of a run** from boot in which `TcbResume` is used on inactive threads only and the
other conditions are met. -/
theorem roundRobin_of_run {image : Image} {s₀ : KState} {regs : Registers}
    (hboot : Boot cfg image s₀) (hrun : Run cfg (GuardedWith cfg ResumeInactive) s₀ s)
    (hcond : (Event.trap regs).Meets cfg (GuardedWith cfg ResumeInactive) s)
    (hstep : Step cfg s (.trap regs) s') :
    ∃ u v, trapEntry regs s = .ok () u ∧ handleTrap cfg regs.scause.toNat u = .ok () v ∧
      RoundRobin cfg v s' := by
  obtain ⟨u, v, hentry, htrap, hsched⟩ := step_parts hstep
  have hv := schedulable_of_run hboot hrun hstep.1 hcond hentry htrap hsched
  exact ⟨u, v, hentry, htrap, hv.roundRobin hsched⟩

/-- **`schedule` is a lossless round robin**: from every state in which it can be called it returns,
after one turn. -/
theorem schedule_roundRobin (hs : Schedulable cfg s) :
    ∃ s', schedule cfg s = .ok () s' ∧ RoundRobin cfg s s' := by
  obtain ⟨s', h⟩ := hs.exists_schedule
  exact ⟨s', h, hs.roundRobin h⟩

/-- The time slice of the root server runs out while a second thread is ready. -/
theorem schedule_roundRobin_two_threads : ∃ v s', Schedulable .virt v ∧ v.requested = true ∧
    v.runqueue ≠ [] ∧ v.statusOf v.current = some .runnable ∧ schedule .virt v = .ok () s' ∧
    RoundRobin .virt v s' := by
  obtain ⟨s₀, s, hboot, hrun, htest⟩ := exists_run_of_trace .virt
    (GuardedWith .virt ResumeInactive) demoImage
    (retypeThread :: .trap resumeRegs :: List.replicate 19 (.trap tickRegs))
    (fun s => decide ((Event.trap tickRegs).Enabled s) && trapStates .virt tickRegs s fun v _ =>
      v.requested && v.runqueue ≠ [] && v.statusOf v.current = some .runnable) (by decide +kernel)
  obtain ⟨hen, htest⟩ := Bool.and_eq_true_iff.1 htest
  obtain ⟨u, v, s₁, hentry, htrap, hsched, htest⟩ := exists_of_trapStates htest
  simp only [Bool.and_eq_true, decide_eq_true_eq] at htest hen
  have hcond : (Event.trap tickRegs).Meets .virt (GuardedWith .virt ResumeInactive) s := by
    intro invLabel reg u inv hinv
    cases hinv.event
    exact absurd hinv.ecall (by decide)
  have hv := schedulable_of_run hboot hrun hen hcond hentry htrap hsched
  obtain ⟨s', h, hturn⟩ := schedule_roundRobin hv
  exact ⟨v, s', hv, htest.1.1, htest.1.2, htest.2, h, hturn⟩

end Zoeax
