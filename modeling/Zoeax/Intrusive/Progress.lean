import Zoeax.Intrusive.Refinement
import Zoeax.Verify.Turns

/-!
# What the threads can rely on

The kernel on its linked lists is the kernel on sequences (`run_of_listRun`), and seen through the
scheduler that one is a round robin (`sched_of_run`). So in a run of the kernel on its linked lists
no thread is lost (`placed_of_listRun`), and a thread in the run queue is served after a number of
timer interrupts that depends on its position only (`ticks_of_listWaits`).

The idle thread is where it ends: it runs when no thread can, and as nothing but the timer
interrupts it, it runs from then on (`rest_of_listRun`).
-/

namespace Zoeax

open Lib Exec
open Function (update)
open Intrusive (onKernel)

variable {cfg : Config} {t t' : ListState} {s s' : KState}

/-! ## The round robin on linked lists -/

/-- `x` is the kernel on linked lists as its threads see it. -/
structure ListState.Shows (t : ListState) (x : Sched Loc Nat) : Prop where
  runnable : ∀ p, p ∈ x.runnable ↔ t.kernel.statusOf p = some .runnable
  blocked : ∀ p, p ∈ x.blocked ↔ t.kernel.statusOf p = some .blocked
  lists : t.lists.Reads (update x.waiting .run x.ready) (· = .run)
  current : x.current = t.kernel.current
  requested : x.requested = t.kernel.requested
  slice : x.slice = t.kernel.slice

theorem Tracks.shows (h : Tracks t s) : t.Shows s.sched where
  runnable p := by rw [h.kernel]; rfl
  blocked p := by rw [h.kernel]; rfl
  lists := by
    change t.lists.Reads (update (update s.queue .run []) .run (s.queue .run)) _
    rw [Function.update_idem, Function.update_eq_self]
    exact h.reads
  current := by rw [h.kernel]; rfl
  requested := by rw [h.kernel]; rfl
  slice := by rw [h.kernel]; rfl

/-- **The kernel on its linked lists is a round robin with waiting queues**: every run from boot is,
seen through the scheduler, a run of it. -/
theorem sched_of_listRun {image : Image} {s₀ : KState} (hsized : cfg.Sized)
    (hboot : Boot cfg image s₀) (hrun : ListRun cfg (Intrusive.booted s₀) t) :
    ∃ x, t.Shows x ∧ Sched.Runs cfg.idleThread taskQuantum s₀.sched x := by
  obtain ⟨s, hs, h⟩ := tracks_of_listRun hboot hrun
  exact ⟨s.sched, h.shows, sched_of_run hsized hboot hs⟩

theorem sized_virt : Config.virt.Sized := ⟨by decide, by decide⟩

/-- The root server makes a notification in slot 21. -/
def retypeNotification : Event :=
  .trap { ecallRegs 9 18 2 with a3 := 2, a4 := 18 + 21 * 2 ^ 32, a5 := 1, a6 := 9 }

/-- The root server waits, is woken by the thread it has made, and is ready. -/
theorem sched_after_signal : ∃ s₀ t x, Boot .virt demoImage s₀ ∧
    ListRun .virt (Intrusive.booted s₀) t ∧ t.Shows x ∧ s₀.current ∈ x.ready ∧
    Sched.Runs Config.virt.idleThread taskQuantum s₀.sched x := by
  obtain ⟨s₀, t, hboot, hrun, htest⟩ := exists_listRun .virt demoImage
    [retypeThread, retypeNotification,
      .trap { ecallRegs 19 18 3 with a3 := 2, a4 := 18, a5 := 3, a6 := 18 }, .trap resumeRegs,
      .trap (ecallRegs 21 18 7), .trap (ecallRegs 21 18 8)]
    (fun s₀ t => (t.lists.lists .run).head = some s₀.current) (by decide +kernel)
  obtain ⟨x, hx, hruns⟩ := sched_of_listRun sized_virt hboot hrun
  refine ⟨s₀, t, x, hboot, hrun, hx, ?_, hruns⟩
  have hhead := hx.lists.head .run
  rw [Function.update_self, of_decide_eq_true htest] at hhead
  exact List.mem_of_mem_head? hhead.symm

/-- **No thread is lost.** In every run from boot, a thread that can run is the current one or is in
the run queue, and a blocked thread is in the queue of an endpoint or of a notification. -/
theorem placed_of_listRun {image : Image} {s₀ : KState} (hsized : cfg.Sized)
    (hboot : Boot cfg image s₀) (hrun : ListRun cfg (Intrusive.booted s₀) t) :
    ∃ q, t.lists.Reads q (· = .run) ∧
      (∀ p, t.kernel.statusOf p = some .runnable → p = t.kernel.current ∨ p ∈ q .run) ∧
      ∀ p, t.kernel.statusOf p = some .blocked → ∃ l, l ≠ .run ∧ p ∈ q l := by
  obtain ⟨s, hs, h⟩ := tracks_of_listRun hboot hrun
  have hplaced := placed_of_run hsized hboot hs
  refine ⟨s.queue, h.reads, ?_, ?_⟩
  · rw [h.kernel]
    exact hplaced.ready
  · rw [h.kernel]
    intro p hp
    obtain ⟨l, hl⟩ := hplaced.waiting p hp
    change p ∈ update s.queue .run [] l at hl
    by_cases hrun : l = .run
    · rw [hrun, Function.update_self] at hl
      exact absurd hl List.not_mem_nil
    · rw [Function.update_of_ne hrun] at hl
      exact ⟨l, hrun, hl⟩

/-- The root server waits at a notification. -/
theorem placed_after_wait : ∃ s₀ t q l, Boot .virt demoImage s₀ ∧
    ListRun .virt (Intrusive.booted s₀) t ∧ t.lists.Reads q (· = .run) ∧ l ≠ .run ∧
    s₀.current ∈ q l := by
  obtain ⟨s₀, t, hboot, hrun, htest⟩ := exists_listRun .virt demoImage
    [retypeThread, retypeNotification, .trap resumeRegs, .trap (ecallRegs 21 18 7)]
    (fun s₀ t => t.kernel.statusOf s₀.current = some .blocked) (by decide +kernel)
  obtain ⟨q, hq, -, hwait⟩ := placed_of_listRun sized_virt hboot hrun
  obtain ⟨l, hl, hmem⟩ := hwait _ (of_decide_eq_true htest)
  exact ⟨s₀, t, q, l, hboot, hrun, hq, hl, hmem⟩

/-! ## Bounded waiting -/

/-- Steps with `n` timer interrupts after none of which `p` is the current thread. -/
inductive ListWaits (cfg : Config) (p : Nat) : Nat → ListState → ListState → Prop
  | refl (t : ListState) : ListWaits cfg p 0 t t
  | head {n : Nat} {ev : Event} {t t₁ t' : ListState}
      (hcond : ev.Meets cfg (GuardedWith cfg ResumeInactive) t.kernel)
      (hlast : ev.LastUnlinked cfg t)
      (h : Intrusive.Step cfg t ev t₁) (hne : t₁.kernel.current ≠ p)
      (w : ListWaits cfg p n t₁ t') : ListWaits cfg p (ev.isTick.toNat + n) t t'

/-- The same in the scheduler's terms. -/
theorem Tracks.waits (hsized : cfg.Sized) {p n : Nat} (h : Tracks t s) (hs : Alive cfg s)
    (w : ListWaits cfg p n t t') :
    ∃ s', Tracks t' s' ∧ Sched.Waits cfg.idleThread taskQuantum p n s.sched s'.sched := by
  induction w generalizing s with
  | refl => exact ⟨s, h, .refl _⟩
  | @head n ev _ t₁ _ hcond hlast hstep hne _ ih =>
    rw [h.kernel] at hcond
    have hcond := hcond.of_bare
    obtain ⟨s₁, hs₁, h₁⟩ := h.step hs.ready hs.heap hs.caps (hcond.mono fun _ _ _ _ h => h.2)
      (hs.retypesApart hcond) hlast hstep
    obtain ⟨s', h', w⟩ := ih h₁ (hs.step hsized hcond hs₁)
    refine ⟨s', h', ?_⟩
    rcases hs.sched_step hsized hcond hs₁ with ⟨htick, heq⟩ | hnext
    · rw [htick, Bool.toNat_false, Nat.zero_add, ← heq]
      exact w
    · refine .head hnext ?_ w
      rw [h₁.kernel] at hne
      exact hne

/-- **Bounded waiting.** In every run from boot, a thread in the run queue with `i` threads before
it is the current thread within `i + 1` time slices, whatever the others invoke within the
conditions of the run: as long as it is not, there have been fewer timer interrupts, and it is in
the run queue. -/
theorem ticks_of_listWaits {image : Image} {s₀ : KState} (hsized : cfg.Sized)
    (hboot : Boot cfg image s₀) (hrun : ListRun cfg (Intrusive.booted s₀) t) :
    ∃ q, t.lists.Reads q (· = .run) ∧ ∀ p ∈ q .run, ∀ n t', ListWaits cfg p n t t' →
      n < taskQuantum * ((q .run).idxOf p + 1) ∧ ∃ q', t'.lists.Reads q' (· = .run) ∧
      p ∈ q' .run := by
  obtain ⟨s, hs, h⟩ := tracks_of_listRun hboot hrun
  refine ⟨s.queue, h.reads, fun p hp n t' w => ?_⟩
  obtain ⟨s', h', w⟩ := h.waits hsized (alive_of_run hsized hboot hs) w
  obtain ⟨hmem, hlt⟩ := w.lt (by decide) (sound_of_run hsized hboot hs) hp
  exact ⟨hlt, s'.queue, h'.reads, hmem⟩

/-- Plays the events as `Intrusive.runTrace` does, and stops when `p` is the current thread. -/
def Intrusive.waitTrace (cfg : Config) (p : Nat) : List Event → LM Unit
  | [] => pure ()
  | ev :: evs => do
    let t ← get
    if ev.Enabled t.kernel ∧ ev.meets cfg (GuardedWith cfg ResumeInactive) t.kernel = true ∧
        ev.lastUnlinked cfg t = true then do
      exec cfg ev
      let t₁ ← get
      if t₁.kernel.current ≠ p then waitTrace cfg p evs else throw panicked
    else throw panicked

theorem listWaits_of_waitTrace {p : Nat} {evs : List Event} {u : Unit}
    (h : Intrusive.waitTrace cfg p evs t = .ok u t') :
    ListWaits cfg p (evs.map fun ev => ev.isTick.toNat).sum t t' := by
  induction evs generalizing t with
  | nil =>
    obtain ⟨-, rfl⟩ := pure_ok.1 h
    exact .refl t
  | cons ev evs ih =>
    simp only [Intrusive.waitTrace, bind_ok, get_ok] at h
    obtain ⟨_, _, ⟨rfl, rfl⟩, h⟩ := h
    split at h
    · next hev =>
      obtain ⟨hen, hmeets, hlast⟩ := hev
      simp only [bind_ok, get_ok] at h
      obtain ⟨_, t₁, hexec, _, _, ⟨rfl, rfl⟩, h⟩ := h
      split at h
      · next hne =>
        exact .head (Event.meets_of_eval hmeets) (Event.lastUnlinked_of_eval hlast) ⟨hen, hexec⟩ hne
          (ih h)
      · exact (throw_ok.1 h).elim
    · exact (throw_ok.1 h).elim

/-- The thread that the root server has resumed waits for the rest of the root server's time slice,
nineteen interrupts at most. -/
theorem ticks_of_resumed_thread : ∃ s₀ t q p t', Boot .virt demoImage s₀ ∧
    ListRun .virt (Intrusive.booted s₀) t ∧ t.lists.Reads q (· = .run) ∧ p ∈ q .run ∧
    ListWaits .virt p 19 t t' ∧ 19 < taskQuantum * ((q .run).idxOf p + 1) := by
  obtain ⟨s₀, t, hboot, hrun, htest⟩ := exists_listRun .virt demoImage
    [retypeThread, .trap resumeRegs]
    (fun _ t => (t.lists.lists .run).head.any fun p => Intrusive.endsIn
      (Intrusive.waitTrace .virt p (List.replicate 19 (.trap tickRegs)) t) fun _ => true)
    (by decide +kernel)
  obtain ⟨p, hhead, hwait⟩ := (Option.any_eq_true ..).1 htest
  obtain ⟨t', htrace, -⟩ := exists_of_listEndsIn hwait
  have w : ListWaits .virt p 19 t t' := listWaits_of_waitTrace htrace
  obtain ⟨q, hq, hbound⟩ := ticks_of_listWaits sized_virt hboot hrun
  have hp : p ∈ q .run := List.mem_of_mem_head? ((hq.head .run).symm.trans hhead)
  exact ⟨s₀, t, q, p, t', hboot, hrun, hq, hp, w, (hbound p hp 19 t' w).1⟩

/-! ## The idle thread -/

theorem onKernel_ok {α : Type} {x : KM α} {a : α} :
    onKernel x t = .ok a t' ↔ ∃ k, x t.kernel = .ok a k ∧ t' = { t with kernel := k } := by
  unfold Intrusive.onKernel
  cases x t.kernel with
  | ok b k =>
    refine ⟨fun h => ?_, ?_⟩
    · obtain ⟨rfl, rfl⟩ := EStateM.Result.ok.inj h
      exact ⟨k, rfl, rfl⟩
    · rintro ⟨k', hk, rfl⟩
      obtain ⟨rfl, rfl⟩ := EStateM.Result.ok.inj hk
      rfl
  | error e k =>
    refine ⟨(fun h => by cases h), ?_⟩
    rintro ⟨k', hk, -⟩
    cases hk

/-- The idle thread is current, in supervisor mode, and nobody has asked for the scheduler. -/
structure Idles (cfg : Config) (k : KState) : Prop where
  current : k.current = cfg.idleThread
  regBase : k.curRegBase = cfg.idleThread
  mode : ∀ t, k.tcbs cfg.idleThread = some t → t.registers.spp = true
  requested : k.requested = false

/-- From `t` to `t'`, nothing has changed but the memory that user programs write to and the
registers of the idle thread. -/
def Rests (cfg : Config) (t t' : ListState) : Prop :=
  ∃ m th, t' = { t with
    kernel := { t.kernel with mem := m, tcbs := update t.kernel.tcbs cfg.idleThread th } }

theorem Rests.refl (t : ListState) : Rests cfg t t :=
  ⟨t.kernel.mem, t.kernel.tcbs cfg.idleThread, by rw [Function.update_eq_self]⟩

theorem Rests.trans {t'' : ListState} (h : Rests cfg t t') (h' : Rests cfg t' t'') :
    Rests cfg t t'' := by
  obtain ⟨m, th, rfl⟩ := h
  obtain ⟨m', th', rfl⟩ := h'
  exact ⟨m', th', by rw [Function.update_idem]⟩

namespace Idles

/-- The registers of the idle thread are saved. -/
theorem trapEntry {regs : Registers} {u : ListState} (hs : Idles cfg t.kernel)
    (hen : (Event.trap regs).Enabled t.kernel)
    (h : onKernel (trapEntry regs) t = .ok () u) :
    Rests cfg t u ∧ Idles cfg u.kernel ∧ regs.spp = true := by
  obtain ⟨k, hk, rfl⟩ := onKernel_ok.1 h
  obtain ⟨th, hth, rfl⟩ := trapEntry_ok.1 hk
  rw [hs.regBase] at hth ⊢
  have hspp : regs.spp = true := by
    rw [hen.1 th (hs.current ▸ hth)]
    exact hs.mode th hth
  refine ⟨⟨t.kernel.mem, _, rfl⟩, ⟨hs.current, hs.regBase, fun th' hth' => ?_, hs.requested⟩, hspp⟩
  rw [KState.tcbs_setTcb, if_pos rfl] at hth'
  rw [← Option.some.inj hth']
  exact hspp

/-- A trap of the idle thread is a timer interrupt, which does nothing. -/
theorem serveTrap {regs : Registers} {v : ListState} (hs : Idles cfg t.kernel)
    (hen : (Event.trap regs).Enabled t.kernel)
    (h : Intrusive.serveTrap cfg regs t = .ok () v) : Rests cfg t v ∧ Idles cfg v.kernel := by
  obtain ⟨_, u, hentry, htrap⟩ := bind_ok.1 h
  obtain ⟨hrests, hu, hspp⟩ := hs.trapEntry hen hentry
  unfold Intrusive.handleTrap at htrap
  split at htrap
  · split at htrap
    · obtain ⟨k, hk, rfl⟩ := onKernel_ok.1 htrap
      cases (timerTick_of_idle hu.current).symm.trans hk
      exact ⟨hrests, hu⟩
    · exact (throw_ok.1 htrap).elim
  · next hbit =>
    split at htrap
    · next hcode =>
      rw [hen.2 (scause_eq_of_code hbit hcode)] at hspp
      cases hspp
    · exact (throw_ok.1 htrap).elim

theorem step {ev : Event} (hs : Idles cfg t.kernel) (h : Intrusive.Step cfg t ev t') :
    Rests cfg t t' ∧ Idles cfg t'.kernel := by
  obtain ⟨hen, hexec⟩ := h
  cases ev with
  | store a w =>
    change onKernel (modify (·.setWord a w)) t = .ok () t' at hexec
    obtain ⟨k, hk, rfl⟩ := onKernel_ok.1 hexec
    obtain rfl := modify_ok.1 hk
    refine ⟨⟨(t.kernel.setWord a w).mem, t.kernel.tcbs cfg.idleThread, ?_⟩, hs.current, hs.regBase,
      hs.mode, hs.requested⟩
    rw [Function.update_eq_self]
    rfl
  | trap regs =>
    obtain ⟨_, v, hserve, hsched⟩ := bind_ok.1 hexec
    obtain ⟨hrests, hv⟩ := hs.serveTrap hen hserve
    rw [Intrusive.schedule, bind_of_ok (get_ok.2 ⟨rfl, rfl⟩), hv.requested] at hsched
    obtain ⟨-, rfl⟩ := pure_ok.1 hsched
    exact ⟨hrests, hv⟩

theorem run (hs : Idles cfg t.kernel)
    (hrun : Relation.ReflTransGen (fun u v => ∃ ev, Intrusive.Step cfg u ev v) t t') :
    Rests cfg t t' ∧ Idles cfg t'.kernel := by
  induction hrun with
  | refl => exact ⟨.refl t, hs⟩
  | tail _ hstep ih =>
    obtain ⟨ev, hstep⟩ := hstep
    obtain ⟨hrests, hu⟩ := ih
    obtain ⟨hrests', hv⟩ := hu.step hstep
    exact ⟨hrests.trans hrests', hv⟩

end Idles

/-- **The idle thread has the last word.** In every run from boot, when the idle thread is the
current one no thread can run, and whatever happens then, no thread will: nothing changes any more
but the memory that user programs write to and the registers of the idle thread. -/
theorem rest_of_listRun {image : Image} {s₀ : KState} (hsized : cfg.Sized)
    (hboot : Boot cfg image s₀) (hrun : ListRun cfg (Intrusive.booted s₀) t)
    (hidle : t.kernel.current = cfg.idleThread) :
    (∀ p, t.kernel.statusOf p ≠ some .runnable) ∧
      ∀ t', Relation.ReflTransGen (fun u v => ∃ ev, Intrusive.Step cfg u ev v) t t' →
        Rests cfg t t' := by
  obtain ⟨s, hs, h⟩ := tracks_of_listRun hboot hrun
  have hready := (alive_of_run hsized hboot hs).ready
  have hcur : s.current = cfg.idleThread := by
    rw [h.kernel] at hidle
    exact hidle
  obtain ⟨hempty, hreq⟩ := (sound_of_run hsized hboot hs).rest hcur
  have hidles : Idles cfg t.kernel := by
    rw [h.kernel]
    exact ⟨hcur, hready.regBase.trans hcur, hready.queued.idleMode, hreq⟩
  refine ⟨fun p hp => ?_, fun t' hrun' => (hidles.run hrun').1⟩
  rw [h.kernel] at hp
  rcases (placed_of_run hsized hboot hs).ready p hp with rfl | hmem
  · change s.statusOf s.current = _ at hp
    rw [hcur, hready.queued.idle] at hp
    cases hp
  · rw [hempty] at hmem
    cases hmem

/-- The root server waits with nobody else to run, and the timer ticks. -/
theorem rest_after_wait : ∃ s₀ t t', Boot .virt demoImage s₀ ∧
    ListRun .virt (Intrusive.booted s₀) t ∧ t.kernel.current = Config.virt.idleThread ∧
    Intrusive.Step .virt t (.trap { tickRegs with sstatus := 0x120 }) t' ∧
    t.kernel.statusOf s₀.current ≠ some .runnable ∧ Rests .virt t t' := by
  obtain ⟨s₀, t, hboot, hrun, htest⟩ := exists_listRun .virt demoImage
    [retypeNotification, .trap (ecallRegs 21 18 7)]
    (fun _ t => decide (t.kernel.current = Config.virt.idleThread) &&
      decide ((Event.trap { tickRegs with sstatus := 0x120 }).Enabled t.kernel) &&
      Intrusive.endsIn (Intrusive.exec .virt (.trap { tickRegs with sstatus := 0x120 }) t)
        fun _ => true) (by decide +kernel)
  obtain ⟨htest, hexec⟩ := Bool.and_eq_true_iff.1 htest
  obtain ⟨hidle, hen⟩ := Bool.and_eq_true_iff.1 htest
  obtain ⟨t', hexec, -⟩ := exists_of_listEndsIn hexec
  have hidle := of_decide_eq_true hidle
  have hstep : Intrusive.Step .virt t (.trap { tickRegs with sstatus := 0x120 }) t' :=
    ⟨of_decide_eq_true hen, hexec⟩
  obtain ⟨hnone, hrests⟩ := rest_of_listRun sized_virt hboot hrun hidle
  exact ⟨s₀, t, t', hboot, hrun, hidle, hstep, hnone _, hrests t' (.single ⟨_, hstep⟩)⟩

end Zoeax
