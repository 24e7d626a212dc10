import Zoeax.Lib.Queues
import Zoeax.Verify.Allocation

/-!
# Threads and the queues they are in

A thread is in the run queue, in the queue of an endpoint, in that of a notification, or in none.
`ThreadsWF` is what the kernel relies on between traps: a thread is in at most one place, its status
fits the place, and the current thread can run or is the idle thread.

`TcbResume` puts its thread into the run queue without looking at it, and a retype that does not fit
initialises a thread that is already there. `threadsWF_of_run`: as long as the first is used on
inactive threads only and the conditions of `GuardedFits` are met, `ThreadsWF` holds between all
traps. `not_threadsWF_after_resume`: after a thread resumed itself, it is current and in the run
queue.
-/

namespace Zoeax

open Lib Exec

/-! ## Places -/

/-- Where a thread can be queued. -/
inductive Loc where
  | run
  | ep (a : Nat)
  | ntfn (a : Nat)
deriving DecidableEq

/-- The status of the threads in a place. -/
def Loc.status : Loc → ThreadState
  | run => .runnable
  | ep _ => .blocked
  | ntfn _ => .blocked

namespace KState

def queue (s : KState) : Loc → List Nat
  | .run => s.runqueue
  | .ep a => ((s.endpoints a).map (·.queue)).getD []
  | .ntfn a => ((s.notifications a).map (·.waitQueue)).getD []

def statusOf (s : KState) (p : Nat) : Option ThreadState := (s.tcbs p).map (·.status)

/-- `a1` of a thread. -/
def a1Of (s : KState) (p : Nat) : UInt64 := ((s.tcbs p).map (·.registers.a1)).getD 0

variable (s : KState)

theorem queue_setRun (r : List Nat) :
    { s with runqueue := r }.queue = Function.update s.queue .run r := by
  funext l
  cases l <;> simp [queue]

theorem queue_setEndpoint (a : Nat) (ep : Endpoint) :
    (s.setEndpoint a ep).queue = Function.update s.queue (.ep a) ep.queue := by
  funext l
  cases l with
  | ep b => by_cases h : b = a <;> simp [queue, setEndpoint, h]
  | _ => simp [queue, setEndpoint]

theorem queue_setNotification (a : Nat) (n : Notification) :
    (s.setNotification a n).queue = Function.update s.queue (.ntfn a) n.waitQueue := by
  funext l
  cases l with
  | ntfn b => by_cases h : b = a <;> simp [queue, setNotification, h]
  | _ => simp [queue, setNotification]

theorem queue_ep {s : KState} {a : Nat} {ep : Endpoint} (h : s.endpoints a = some ep) :
    s.queue (.ep a) = ep.queue := by
  simp [queue, h]

theorem queue_ntfn {s : KState} {a : Nat} {n : Notification} (h : s.notifications a = some n) :
    s.queue (.ntfn a) = n.waitQueue := by
  simp [queue, h]

theorem statusOf_setTcb (p q : Nat) (t : ThreadInfo) :
    (s.setTcb p t).statusOf q = if q = p then some t.status else s.statusOf q := by
  rw [statusOf, tcbs_setTcb]
  split <;> rfl

end KState

/-- What holds of the threads between traps. -/
structure ThreadsWF (cfg : Config) (s : KState) : Prop where
  exclusive : Exclusive s.queue
  ready : ∀ p ∈ s.runqueue, s.statusOf p = some .runnable ∧ p ≠ s.current
  waiting : ∀ l p, l ≠ .run → p ∈ s.queue l → s.statusOf p = some .blocked
  current : s.statusOf s.current = some .runnable ∨ s.current = cfg.idleThread

/-- `TcbResume` is invoked on an inactive thread. -/
def ResumeInactive : InvokeCond := fun invLabel _ u inv =>
  invLabel = .tcbResume → inv.cap.getCapType = .ok .tcb →
    ∀ t ∈ u.tcbs (TCBCap.getTcb inv.cap), t.status = .inactive

/-! ## The invariant -/

/-- Every thread is in at most one place, with the status of the place. The idle thread is in none,
and its saved mode is supervisor mode, so that it makes no system calls. -/
structure Queued (cfg : Config) (s : KState) : Prop where
  exclusive : Exclusive s.queue
  status : ∀ l p, p ∈ s.queue l → s.statusOf p = some l.status
  idle : s.statusOf cfg.idleThread = some .idle
  idleMode : ∀ t, s.tcbs cfg.idleThread = some t → t.registers.spp = true

variable {cfg : Config} {s s' : KState}

namespace Queued

theorem not_mem (hs : Queued cfg s) {p : Nat} {st : ThreadState} (hp : s.statusOf p = some st)
    (hst : st = .inactive ∨ st = .idle) (l : Loc) : p ∉ s.queue l := fun hmem => by
  have h := hs.status l p hmem
  rw [hp, Option.some.injEq] at h
  cases l <;> rcases hst with rfl | rfl <;> cases h

/-- A runnable thread can only be in the run queue. -/
theorem not_mem_of_runnable (hs : Queued cfg s) {p : Nat} (hp : s.statusOf p = some .runnable)
    (hrun : p ∉ s.runqueue) (l : Loc) : p ∉ s.queue l := fun hmem => by
  have h := hs.status l p hmem
  rw [hp, Option.some.injEq] at h
  cases l with
  | run => exact hrun hmem
  | _ => cases h

theorem idle_not_mem (hs : Queued cfg s) (l : Loc) : cfg.idleThread ∉ s.queue l :=
  hs.not_mem hs.idle (.inr rfl) l

/-- Threads may leave their places. -/
theorem leave (hs : Queued cfg s) (htcbs : s'.tcbs = s.tcbs)
    (hsub : ∀ l, (s'.queue l).Sublist (s.queue l)) : Queued cfg s' where
  exclusive := hs.exclusive.mono hsub
  status l p hp := by
    rw [KState.statusOf, htcbs]
    exact hs.status l p ((hsub l).subset hp)
  idle := by
    rw [KState.statusOf, htcbs]
    exact hs.idle
  idleMode := by
    rw [htcbs]
    exact hs.idleMode

/-- A thread in no place goes to one, with the status of the place. -/
theorem join (hs : Queued cfg s) {l : Loc} {p : Nat} {t : ThreadInfo} (hfree : ∀ l, p ∉ s.queue l)
    (hne : p ≠ cfg.idleThread) (hst : t.status = l.status)
    (htcbs : s'.tcbs = Function.update s.tcbs p (some t))
    (hq : s'.queue = Function.update s.queue l (s.queue l ++ [p])) : Queued cfg s' where
  exclusive := hq ▸ hs.exclusive.push l hfree
  status l' q hmem := by
    rw [KState.statusOf, htcbs, Function.update_apply]
    rw [hq, Exclusive.mem_update, List.mem_append, List.mem_singleton] at hmem
    by_cases hqp : q = p
    · subst hqp
      have : l' = l := by
        rcases hmem with ⟨h, -⟩ | ⟨-, h⟩
        · exact h
        · exact absurd h (hfree l')
      rw [if_pos rfl, this, ← hst]
      rfl
    · rw [if_neg hqp]
      rcases hmem with ⟨rfl, h | h⟩ | ⟨-, h⟩
      · exact hs.status _ q h
      · exact absurd h hqp
      · exact hs.status _ q h
  idle := by
    rw [KState.statusOf, htcbs, Function.update_of_ne hne.symm]
    exact hs.idle
  idleMode := by
    rw [htcbs, Function.update_of_ne hne.symm]
    exact hs.idleMode

end Queued

/-! ## Changes that move no thread -/

/-- No thread changes its place, its status or its saved `sstatus`. -/
structure Quiet (s s' : KState) : Prop where
  tcbs : ∀ p, (s'.tcbs p).map (fun t => (t.status, t.registers.sstatus)) =
    (s.tcbs p).map fun t => (t.status, t.registers.sstatus)
  queue : s'.queue = s.queue
  current : s'.current = s.current
  curRegBase : s'.curRegBase = s.curRegBase

namespace Quiet

theorem refl (s : KState) : Quiet s s := ⟨fun _ => rfl, rfl, rfl, rfl⟩

theorem statusOf (h : Quiet s s') (p : Nat) : s'.statusOf p = s.statusOf p := by
  have := congrArg (Option.map Prod.fst) (h.tcbs p)
  rwa [Option.map_map, Option.map_map] at this

theorem spp (h : Quiet s s') {p : Nat} {t : ThreadInfo} (ht : s'.tcbs p = some t) :
    ∃ t₀, s.tcbs p = some t₀ ∧ t.registers.spp = t₀.registers.spp := by
  have := h.tcbs p
  rw [ht, Option.map_some] at this
  obtain ⟨t₀, ht₀, heq⟩ := Option.map_eq_some_iff.1 this.symm
  exact ⟨t₀, ht₀, by rw [Registers.spp, Registers.spp, (Prod.mk.inj heq).2]⟩

theorem queued (h : Quiet s s') (hs : Queued cfg s) : Queued cfg s' where
  exclusive := h.queue ▸ hs.exclusive
  status l p hp := by
    rw [h.queue] at hp
    exact (h.statusOf p).trans (hs.status l p hp)
  idle := (h.statusOf _).trans hs.idle
  idleMode t ht := by
    obtain ⟨t₀, ht₀, hspp⟩ := h.spp ht
    exact hspp.trans (hs.idleMode t₀ ht₀)

theorem setTcb (h : Quiet s s') {p : Nat} {t t' : ThreadInfo} (ht : s'.tcbs p = some t)
    (hst : t'.status = t.status) (hss : t'.registers.sstatus = t.registers.sstatus) :
    Quiet s (s'.setTcb p t') where
  tcbs q := by
    rw [← h.tcbs q, KState.tcbs_setTcb]
    split
    · next hq => simp only [hq, ht, Option.map_some, hst, hss]
    · rfl
  queue := h.queue
  current := h.current
  curRegBase := h.curRegBase

theorem setSlot {p : Nat} {t : ThreadInfo} (ht : s.tcbs p = some t) (slot : TcbSlot)
    (e : Option CNodeEntry) : Quiet s (s.setTcb p (slot.set t e)) :=
  (Quiet.refl s).setTcb ht (by cases slot <;> rfl) (by cases slot <;> rfl)

/-- The words of a notification change, but not its queue. -/
theorem setNotification (h : Quiet s s') {a : Nat} {n n' : Notification}
    (hn : s.notifications a = some n) (hw : n'.waitQueue = n.waitQueue) :
    Quiet s (s'.setNotification a n') where
  tcbs := h.tcbs
  queue := by
    rw [KState.queue_setNotification, h.queue, hw, ← KState.queue_ntfn hn, Function.update_eq_self]
  current := h.current
  curRegBase := h.curRegBase

variable (s)

theorem keeps_updateTcb {p : Nat} {f : ThreadInfo → ThreadInfo}
    (hf : ∀ t, (f t).status = t.status ∧ (f t).registers.sstatus = t.registers.sstatus) :
    Keeps (Quiet s) (updateTcb p f) :=
  Zoeax.keeps_updateTcb fun _ t ht hs => hs.setTcb ht (hf t).1 (hf t).2

theorem keeps_setA1 (p : Nat) (v : UInt64) : Keeps (Quiet s) (updateTcb p (·.setA1 v)) :=
  keeps_updateTcb s fun _ => ⟨rfl, rfl⟩

theorem keeps_setBadge (p : Nat) (v : UInt64) :
    Keeps (Quiet s) (updateTcb p fun t => { t with badge := v }) :=
  keeps_updateTcb s fun _ => ⟨rfl, rfl⟩

theorem keeps_transfer (sender receiver : Nat) :
    Keeps (Quiet s) (Endpoint.transfer sender receiver) := by
  refine .bind (.lift _) fun t => .bind (.bind (.lift _) fun t' => ?_) fun _ => keeps_setA1 s _ _
  split
  · refine .bind .get fun _ => .ite (.modify fun _ hs => ?_) (.throw _)
    exact ⟨hs.tcbs, hs.queue, hs.current, hs.curRegBase⟩
  · exact .pure _

theorem keeps_timerTick : Keeps (Quiet s) (timerTick cfg) :=
  .bind .get fun _ => .ite (.pure _) <| .bind (.lift _) fun _ => .bind (.liftExcept _) fun _ =>
    .bind (keeps_updateTcb s fun _ => ⟨rfl, rfl⟩) fun _ =>
      .ite (.modify fun _ hs => ⟨hs.tcbs, hs.queue, hs.current, hs.curRegBase⟩) (.pure _)

end Quiet

/-! ## Waking and blocking -/

/-- A thread in no place becomes ready. -/
theorem Queued.resume (hs : Queued cfg s) {p : Nat} {u : Unit} (hfree : ∀ l, p ∉ s.queue l)
    (hne : p ≠ cfg.idleThread) (h : resume p s = .ok u s') : Queued cfg s' := by
  obtain ⟨t, -, rfl⟩ := resume_ok.1 h
  exact hs.join (l := .run) hfree hne rfl rfl (KState.queue_setRun ..)

/-- The part of the invariant that holds all through a system call. -/
structure Parked (cfg : Config) (s : KState) : Prop where
  queued : Queued cfg s
  regBase : s.curRegBase = s.current
  notReady : s.current ∉ s.runqueue

/-- In a system call, as long as the caller has not blocked. -/
structure Running (cfg : Config) (s : KState) : Prop extends Parked cfg s where
  runnable : s.statusOf s.current = some .runnable

/-- Between traps. -/
structure Ready (cfg : Config) (s : KState) : Prop extends Parked cfg s where
  current : s.statusOf s.current = some .runnable ∨ s.current = cfg.idleThread

/-- When the scheduler is called: a current thread that cannot run has asked for it. -/
structure Settled (cfg : Config) (s : KState) : Prop extends Parked cfg s where
  current : s.statusOf s.current = some .runnable ∨ s.current = cfg.idleThread ∨ s.requested = true

theorem Parked.quiet (hs : Parked cfg s) (h : Quiet s s') : Parked cfg s' where
  queued := h.queued hs.queued
  regBase := h.curRegBase.trans (hs.regBase.trans h.current.symm)
  notReady := by
    rw [h.current, show s'.runqueue = s.runqueue from congrFun h.queue .run]
    exact hs.notReady

theorem Settled.quiet (hs : Settled cfg s) (h : Quiet s s') (hreq : s'.requested = s.requested) :
    Settled cfg s' where
  toParked := hs.toParked.quiet h
  current := by
    rw [h.current, h.statusOf, hreq]
    exact hs.current

namespace Running

theorem settled (hs : Running cfg s) : Settled cfg s := ⟨hs.toParked, .inl hs.runnable⟩

theorem current_ne_idle (hs : Running cfg s) : s.current ≠ cfg.idleThread := fun h => by
  have := hs.runnable
  rw [h, hs.queued.idle] at this
  cases this

theorem current_free (hs : Running cfg s) (l : Loc) : s.current ∉ s.queue l :=
  hs.queued.not_mem_of_runnable hs.runnable hs.notReady l

theorem quiet (hs : Running cfg s) (h : Quiet s s') : Running cfg s' where
  toParked := hs.toParked.quiet h
  runnable := by
    rw [h.current, h.statusOf]
    exact hs.runnable

/-- Another thread in no place is woken. -/
theorem resume (hs : Running cfg s) {p : Nat} {u : Unit} (hfree : ∀ l, p ∉ s.queue l)
    (hne : p ≠ cfg.idleThread) (hcur : p ≠ s.current) (h : resume p s = .ok u s') :
    Running cfg s' := by
  have hq := hs.queued.resume hfree hne h
  obtain ⟨t, -, rfl⟩ := resume_ok.1 h
  refine ⟨⟨hq, hs.regBase, ?_⟩, ?_⟩
  · simpa using ⟨hs.notReady, hcur.symm⟩
  · have := KState.statusOf_setTcb s p s.current t.resume
    rw [if_neg hcur.symm] at this
    exact this.trans hs.runnable

/-- The first thread of a waiting queue leaves it and is woken. -/
theorem wakeFirst (hs : Running cfg s) {l : Loc} {p : Nat} {rest : List Nat} {s₁ s₂ : KState}
    {u : Unit} (hquiet : Quiet s₁ s₂) (h : Zoeax.resume p s₂ = .ok u s')
    (hq : s.queue l = p :: rest) (hl : l ≠ .run) (htcbs : s₁.tcbs = s.tcbs)
    (hq₁ : s₁.queue = Function.update s.queue l rest) (hcur : s₁.current = s.current)
    (hbase : s₁.curRegBase = s.curRegBase) : Running cfg s' := by
  have hmem : p ∈ s.queue l := by rw [hq]; exact List.mem_cons_self ..
  have hrest : rest.Sublist (s.queue l) := by rw [hq]; exact List.sublist_cons_self ..
  have hrun : s₁.runqueue = s.runqueue := by
    have := congrFun hq₁ .run
    rwa [Function.update_of_ne hl.symm] at this
  have hs₁ : Running cfg s₁ := by
    refine ⟨⟨hs.queued.leave htcbs ?_, ?_, ?_⟩, ?_⟩
    · rw [hq₁]
      exact Exclusive.sublist_update hrest
    · rw [hbase, hcur, hs.regBase]
    · rw [hcur, hrun]
      exact hs.notReady
    · rw [KState.statusOf, htcbs, hcur]
      exact hs.runnable
  refine (hs₁.quiet hquiet).resume (fun l' => ?_) ?_ ?_ h
  · rw [hquiet.queue, hq₁]
    exact hs.queued.exclusive.pop hq l'
  · rintro rfl
    exact hs.queued.idle_not_mem l hmem
  · rw [hquiet.current, hcur]
    rintro rfl
    exact hs.current_free l hmem

/-- The caller blocks. -/
theorem block (hs : Running cfg s) {l : Loc} {t : ThreadInfo} (hl : l ≠ .run)
    (htcbs : s'.tcbs = Function.update s.tcbs s.current (some t.suspend))
    (hq : s'.queue = Function.update s.queue l (s.queue l ++ [s.current]))
    (hcur : s'.current = s.current) (hbase : s'.curRegBase = s.curRegBase) : Parked cfg s' where
  queued := by
    refine hs.queued.join hs.current_free hs.current_ne_idle ?_ htcbs hq
    cases l with
    | run => exact absurd rfl hl
    | ep a => rfl
    | ntfn a => rfl
  regBase := by rw [hbase, hcur, hs.regBase]
  notReady := by
    have : s'.runqueue = s.runqueue := by
      have := congrFun hq .run
      rwa [Function.update_of_ne hl.symm] at this
    rw [this, hcur]
    exact hs.notReady

end Running

/-- A call that blocked asks for the scheduler. -/
theorem Parked.scheduleIf {b : Bool} {u : Unit}
    (hs : (b = false ∧ Running cfg s) ∨ (b = true ∧ Parked cfg s))
    (h : scheduleIf b s = .ok u s') : Settled cfg s' := by
  rcases hs with ⟨rfl, hs⟩ | ⟨rfl, hs⟩
  · obtain ⟨-, rfl⟩ := pure_ok.1 h
    exact hs.settled
  · obtain rfl := modify_ok.1 h
    exact ⟨hs.quiet ⟨fun _ => rfl, rfl, rfl, rfl⟩, .inr (.inr rfl)⟩

/-! ## Endpoints and notifications -/

/-- `pop_from_queue` either takes the first thread or leaves the queue as it is. -/
theorem popFromQueue_cases (ep : Endpoint) (st : EndpointState) :
    (∃ p rest, ep.queue = p :: rest ∧ (ep.popFromQueue st).1 = some p ∧
      (ep.popFromQueue st).2.queue = rest) ∨
    ((ep.popFromQueue st).1 = none ∧ (ep.popFromQueue st).2.queue = ep.queue) := by
  unfold Endpoint.popFromQueue
  generalize (if ep.epState = .idel then st else ep.epState) = st'
  by_cases h : st' = st
  · exact .inr (by simp [h])
  · cases hq : ep.queue with
    | cons p rest => exact .inl ⟨p, rest, rfl, by simp [h], by simp [h]⟩
    | nil => exact .inr (by simp [h])

namespace Running

/-- The caller joins the queue of an endpoint from which nobody was taken. -/
theorem enqueue (hs : Running cfg s) {a : Nat} {ep ep' : Endpoint} {u : Unit}
    (hep : s.endpoints a = some ep) (hq : ep'.queue = ep.queue)
    (h : Endpoint.enqueue a s.current (s.setEndpoint a ep') = .ok u s') : Parked cfg s' := by
  simp only [Endpoint.enqueue, blockThread, bind_ok, updateTcb_ok, lift_ok, getEndpoint_ok,
    modify_ok] at h
  obtain ⟨_, _, ⟨t, ht, rfl⟩, e, _, ⟨he, rfl⟩, rfl⟩ := h
  obtain rfl : ep' = e :=
    Option.some.inj ((KState.endpoints_setEndpoint_self s a ep').symm.trans he)
  refine hs.block (l := .ep a) (t := t) nofun rfl ?_ rfl rfl
  rw [KState.queue_setEndpoint, KState.queue_ep hep, ← hq]
  have : ((s.setEndpoint a ep').setTcb s.current t.suspend).queue =
      Function.update s.queue (.ep a) ep'.queue := KState.queue_setEndpoint s a ep'
  rw [this, Function.update_idem]

/-- The longest-waiting thread of an endpoint is woken after the message was handed over. -/
theorem rendezvous (hs : Running cfg s) {a p : Nat} {ep ep' : Endpoint} {rest : List Nat}
    {sender receiver : Nat} {u u' : Unit} {s₂ : KState} (hep : s.endpoints a = some ep)
    (hq : ep.queue = p :: rest) (hq' : ep'.queue = rest)
    (ht : Endpoint.transfer sender receiver (s.setEndpoint a ep') = .ok u s₂)
    (hw : wakeUpThread p s₂ = .ok u' s') : Running cfg s' := by
  have hquiet := (Quiet.keeps_transfer (s.setEndpoint a ep') sender receiver).ok (.refl _) ht
  refine hs.wakeFirst hquiet hw ((KState.queue_ep hep).trans hq) nofun rfl ?_ rfl rfl
  rw [KState.queue_setEndpoint, hq']

theorem endpointSend (hs : Running cfg s) {a : Nat} {b : Bool}
    (h : Endpoint.send a s.current s = .ok b s') :
    (b = false ∧ Running cfg s') ∨ (b = true ∧ Parked cfg s') := by
  simp only [Endpoint.send, bind_ok, lift_ok, getEndpoint_ok, modify_ok] at h
  obtain ⟨ep, _, ⟨hep, rfl⟩, _, _, rfl, h⟩ := h
  rcases popFromQueue_cases ep .send with ⟨p, rest, hq, hp, hrest⟩ | ⟨hp, hq⟩
  · rw [hp] at h
    simp only [Endpoint.sendTo, bind_ok, pure_ok] at h
    obtain ⟨_, s₁, ht, _, s₂, hw, rfl, rfl⟩ := h
    exact .inl ⟨rfl, hs.rendezvous hep hq hrest ht hw⟩
  · rw [hp] at h
    simp only [Endpoint.sendTo, bind_ok, pure_ok] at h
    obtain ⟨_, s₁, hen, rfl, rfl⟩ := h
    exact .inr ⟨rfl, hs.enqueue hep hq hen⟩

theorem endpointRecv (hs : Running cfg s) {a : Nat} {b : Bool}
    (h : Endpoint.recv a s.current s = .ok b s') :
    (b = false ∧ Running cfg s') ∨ (b = true ∧ Parked cfg s') := by
  simp only [Endpoint.recv, bind_ok, lift_ok, getEndpoint_ok, modify_ok] at h
  obtain ⟨ep, _, ⟨hep, rfl⟩, _, _, rfl, h⟩ := h
  rcases popFromQueue_cases ep .recv with ⟨p, rest, hq, hp, hrest⟩ | ⟨hp, hq⟩
  · rw [hp] at h
    simp only [Endpoint.recvFrom, bind_ok, pure_ok] at h
    obtain ⟨_, s₁, ht, _, s₂, hw, rfl, rfl⟩ := h
    exact .inl ⟨rfl, hs.rendezvous hep hq hrest ht hw⟩
  · rw [hp] at h
    simp only [Endpoint.recvFrom, bind_ok, pure_ok] at h
    obtain ⟨_, s₁, hen, rfl, rfl⟩ := h
    exact .inr ⟨rfl, hs.enqueue hep hq hen⟩

theorem invokeEndPoint (hs : Running cfg s) {invLabel : InvLabel} {c : CapabilityData}
    {v : Option Nat} (h : invokeEndPoint invLabel s.current c s = .ok v s') : Settled cfg s' := by
  unfold Zoeax.invokeEndPoint at h
  split at h
  · simp only [EndPointCap.send, bind_ok, pure_ok] at h
    obtain ⟨b, s₂, ⟨_, s₁, hbadge, hsend⟩, _, s₃, hsched, rfl, rfl⟩ := h
    have hquiet := (Quiet.keeps_setBadge s _ _).ok (.refl s) hbadge
    rw [← hquiet.current] at hsend
    exact Parked.scheduleIf ((hs.quiet hquiet).endpointSend hsend) hsched
  · simp only [EndPointCap.recv, bind_ok, pure_ok] at h
    obtain ⟨b, s₂, hrecv, _, s₃, hsched, rfl, rfl⟩ := h
    exact Parked.scheduleIf (hs.endpointRecv hrecv) hsched
  · exact (throw_ok.1 h).elim

theorem sendSignal (hs : Running cfg s) {a : Nat} {val : UInt64} {u : Unit}
    (h : Notification.sendSignal a val s = .ok u s') : Running cfg s' := by
  simp only [Notification.sendSignal, bind_ok, lift_ok, getNotification_ok] at h
  obtain ⟨n, _, ⟨hn, rfl⟩, h⟩ := h
  cases hq : n.waitQueue with
  | cons p rest =>
    simp only [hq, bind_ok, modify_ok] at h
    obtain ⟨_, _, rfl, _, s₂, ha1, hw⟩ := h
    have hquiet := (Quiet.keeps_setA1 (s.setNotification a { n with waitQueue := rest }) p val).ok
      (.refl _) ha1
    refine hs.wakeFirst hquiet hw ((KState.queue_ntfn hn).trans hq) nofun rfl ?_ rfl rfl
    rw [KState.queue_setNotification]
  | nil =>
    simp only [hq, modify_ok] at h
    subst h
    exact hs.quiet ((Quiet.refl s).setNotification hn hq.symm)

theorem waitSignal (hs : Running cfg s) {a : Nat} {b : Bool}
    (h : Notification.waitSignal a s.current s = .ok b s') :
    (b = false ∧ Running cfg s') ∨ (b = true ∧ Parked cfg s') := by
  simp only [Notification.waitSignal, bind_ok, lift_ok, getNotification_ok] at h
  obtain ⟨n, _, ⟨hn, rfl⟩, h⟩ := h
  split at h
  · simp only [bind_ok, modify_ok, pure_ok] at h
    obtain ⟨_, s₁, ha1, _, _, rfl, rfl, rfl⟩ := h
    have hquiet := (Quiet.keeps_setA1 s s.current n.notifyBit).ok (.refl _) ha1
    exact .inl ⟨rfl, hs.quiet (hquiet.setNotification hn rfl)⟩
  · simp only [blockThread, bind_ok, updateTcb_ok, modify_ok, pure_ok] at h
    obtain ⟨_, _, ⟨t, ht, rfl⟩, _, _, rfl, rfl, rfl⟩ := h
    refine .inr ⟨rfl, hs.block (l := .ntfn a) (t := t) nofun rfl ?_ rfl rfl⟩
    rw [KState.queue_setNotification, KState.queue_ntfn hn]
    rfl

theorem invokeNotification (hs : Running cfg s) {invLabel : InvLabel} {c : CapabilityData}
    {v : Option Nat} (h : invokeNotification invLabel s.current c s = .ok v s') :
    Settled cfg s' := by
  unfold Zoeax.invokeNotification at h
  split at h
  · simp only [NotificationCap.send, bind_ok, pure_ok] at h
    obtain ⟨_, s₁, hsend, rfl, rfl⟩ := h
    exact (hs.sendSignal hsend).settled
  · simp only [NotificationCap.wait, bind_ok, pure_ok] at h
    obtain ⟨b, s₂, hwait, _, s₃, hsched, rfl, rfl⟩ := h
    exact Parked.scheduleIf (hs.waitSignal hwait) hsched
  · exact (throw_ok.1 h).elim

end Running

/-! ## Invocations -/

theorem KState.statusOf_setRegisters {p : Nat} {t : ThreadInfo} (ht : s.tcbs p = some t)
    (regs : Registers) (q : Nat) :
    (s.setTcb p { t with registers := regs }).statusOf q = s.statusOf q := by
  rw [KState.statusOf_setTcb]
  split
  · next h => rw [h, KState.statusOf, ht, Option.map_some]
  · rfl

theorem Queued.setRegisters (hs : Queued cfg s) {p : Nat} {t : ThreadInfo} {regs : Registers}
    (ht : s.tcbs p = some t) (hmode : p = cfg.idleThread → regs.spp = true) :
    Queued cfg (s.setTcb p { t with registers := regs }) := by
  have hstatus := KState.statusOf_setRegisters ht regs
  refine ⟨hs.exclusive, fun l q hq => (hstatus q).trans (hs.status l q hq),
    (hstatus _).trans hs.idle, fun t' ht' => ?_⟩
  rw [KState.tcbs_setTcb] at ht'
  split at ht'
  · next h =>
    obtain rfl := Option.some.inj ht'
    exact hmode h.symm
  · exact hs.idleMode t' ht'

theorem KState.queue_born (s : KState) (o : Object) (l : Loc) :
    ((s.born o).queue l).Sublist (s.queue l) := by
  unfold KState.born
  split
  · exact .refl _
  · rw [KState.queue_setEndpoint]
    exact Exclusive.sublist_update (List.nil_sublist _) l
  · rw [KState.queue_setNotification]
    exact Exclusive.sublist_update (List.nil_sublist _) l
  all_goals exact .refl _

theorem KState.statusOf_born {o : Object} {p : Nat} (hp : s.statusOf p ≠ none)
    (hheap : HeapWF cfg s) (ho : o.Fresh cfg s) : (s.born o).statusOf p = s.statusOf p := by
  rw [statusOf, tcbs_born, if_neg]
  · rfl
  · rintro ⟨hk, rfl⟩
    exact hp (by rw [statusOf, hheap.fresh_tcb ho hk, Option.map_none])

/-- A new object: a thread is inactive, a queue is empty. -/
theorem Queued.born (hs : Queued cfg s) (hheap : HeapWF cfg s) {o : Object} (ho : o.Fresh cfg s) :
    Queued cfg (s.born o) where
  exclusive := hs.exclusive.mono (s.queue_born o)
  status l p hp := by
    have h := hs.status l p ((s.queue_born o l).subset hp)
    rwa [KState.statusOf_born (by rw [h]; nofun) hheap ho]
  idle := by
    rw [KState.statusOf_born (by rw [hs.idle]; nofun) hheap ho]
    exact hs.idle
  idleMode t ht := by
    rw [tcbs_born, if_neg fun h => ho.start_ne_idle h.1 h.2.symm] at ht
    exact hs.idleMode t ht

namespace Running

theorem setRegisters (hs : Running cfg s) {p : Nat} {t : ThreadInfo} {regs : Registers}
    (ht : s.tcbs p = some t) (hne : p ≠ cfg.idleThread) :
    Running cfg (s.setTcb p { t with registers := regs }) := by
  refine ⟨⟨hs.queued.setRegisters ht fun h => absurd h hne, hs.regBase, hs.notReady⟩, ?_⟩
  rw [KState.statusOf_setRegisters ht]
  exact hs.runnable

theorem born (hs : Running cfg s) (hheap : HeapWF cfg s) {o : Object} (ho : o.Fresh cfg s) :
    Running cfg (s.born o) where
  queued := hs.queued.born hheap ho
  regBase := by simpa using hs.regBase
  notReady := by
    rw [current_born]
    exact fun h => hs.notReady ((s.queue_born o .run).subset h)
  runnable := by
    rw [current_born, KState.statusOf_born (by rw [hs.runnable]; nofun) hheap ho]
    exact hs.runnable

/-- `TcbResume` of an inactive thread. -/
theorem resumeInactive (hs : Running cfg s) {p : Nat} {u : Unit}
    (hp : ∀ t ∈ s.tcbs p, t.status = .inactive) (h : Zoeax.resume p s = .ok u s') :
    Running cfg s' := by
  obtain ⟨t, ht, -⟩ := resume_ok.1 h
  have hst : s.statusOf p = some .inactive := by
    rw [KState.statusOf, ht, Option.map_some, hp t ht]
  refine hs.resume (hs.queued.not_mem hst (.inl rfl)) ?_ ?_ h
  · rintro rfl
    cases hst.symm.trans hs.queued.idle
  · rintro rfl
    cases hst.symm.trans hs.runnable

end Running

theorem running_mapStable : MapStable cfg (fun _ _ _ => True)
    fun s => HeapWF cfg s ∧ Running cfg s where
  toCapStable := .of_slots
    (fun _ _ hs => ⟨hs.1.of_eq rfl rfl,
      hs.2.quiet ⟨fun _ => rfl, rfl, rfl, rfl⟩⟩)
    (fun _ _ _ slot e ht _ hs => ⟨hs.1.setTcb _ ht,
      hs.2.quiet (.setSlot ht slot e)⟩)
    fun _ _ ho hs => ⟨hs.1.born ho, hs.2.born hs.1 ho⟩
  mem s m hs := ⟨heapWF_bootStable.mem s m hs.1, hs.2.quiet ⟨fun _ => rfl, rfl, rfl, rfl⟩⟩
  root s a hs := ⟨heapWF_bootStable.root s a hs.1, hs.2.quiet ⟨fun _ => rfl, rfl, rfl, rfl⟩⟩

/-- An invocation under `ResumeInactive`. -/
theorem Running.invoke {u w : KState} {invLabel : InvLabel} {reg : Registers} {inv : Invocation}
    {k : CapabilityType} {v : Option Nat} (hu : Running cfg u) (hheap : HeapWF cfg u)
    (hcap : ObjectCap u.objects u.rooted inv.cap) (hcur : inv.current = u.current)
    (hslot : u.capAt inv.slot = some inv.cap) (hk : inv.cap.getCapType = .ok k)
    (hcond : ResumeInactive invLabel reg u inv) (hnew : RetypesApart cfg invLabel reg u inv)
    (h : invoke cfg invLabel reg inv k u = .ok v w) : Settled cfg w := by
  have hI : MapStable cfg _ _ := running_mapStable
  cases k with
  | untyped =>
    refine (hI.invokeUntyped .trivial (.inr fun c hc => ?_) ⟨hheap, hu⟩ h).2.settled
    obtain rfl : inv.cap = c := Option.some.inj (hslot.symm.trans hc)
    exact hnew hk
  | cNode =>
    exact (hI.invokeCNode .trivial (capsAll_trivial u) (fun _ _ _ _ _ => trivial) ⟨hheap, hu⟩
      h).2.settled
  | tcb =>
    refine (hI.invokeTcb .trivial (capsAll_trivial u) ?_ ?_ ⟨hheap, hu⟩ h).2.settled
    · intro hl hres
      exact ⟨(heapWF_threadStable.steady.resume _).ok hheap hres,
        hu.resumeInactive (hcond hl hk) hres⟩
    · intro _ _ t _ _ _ ht
      exact ⟨hheap.setTcb _ ht, hu.setRegisters ht (ObjectCap.getTcb_ne_idle hheap hcap hk)⟩
  | notification => exact hu.invokeNotification (by rw [← hcur]; exact h)
  | endPoint => exact hu.invokeEndPoint (by rw [← hcur]; exact h)
  | page => exact (hI.invokePage .trivial hk trivial ⟨hheap, hu⟩ h).2.settled
  | pageTable => exact (hI.invokePageTable .trivial hk trivial ⟨hheap, hu⟩ h).2.settled

/-! ## The scheduler -/

theorem switchTo_ok {next : Nat} {u : Unit} (h : switchTo cfg next s = .ok u s') :
    ∃ a, s' = { s with satp := a, curRegBase := next, current := next, requested := false } := by
  simp only [switchTo, activateVspace, bind_ok, lift_ok, modify_ok] at h
  obtain ⟨_, s₁, ⟨t, _, ⟨-, rfl⟩, hact⟩, rfl⟩ := h
  have hsatp : ∃ a, s₁ = { s with satp := a } := by
    cases hv : t.vspace with
    | some e =>
      simp only [hv] at hact
      split at hact <;> exact ⟨_, (modify_ok.1 hact).symm⟩
    | none =>
      simp only [hv] at hact
      exact ⟨_, (modify_ok.1 hact).symm⟩
  obtain ⟨a, rfl⟩ := hsatp
  exact ⟨a, rfl⟩

/-- `schedule`, taken apart: it does nothing; or it takes the first ready thread, and a current
thread that can still run becomes the last one; or nobody is ready, and the current thread goes on
or the idle thread takes over. -/
theorem schedule_cases {u : Unit} (h : schedule cfg s = .ok u s') :
    (s.requested = false ∧ s' = s) ∨
    (s.requested = true ∧ ∃ next rest t tc r a, s.runqueue = next :: rest ∧
      s.tcbs next = some t ∧
      (s.setTcb next (t.setTimeout taskQuantum)).tcbs s.current = some tc ∧
      r = (if tc.isRunnable then rest ++ [s.current] else rest) ∧
      s' = { s.setTcb next (t.setTimeout taskQuantum) with
        runqueue := r, satp := a, curRegBase := next, current := next, requested := false }) ∨
    (s.requested = true ∧ s.runqueue = [] ∧ ∃ t, s.tcbs s.current = some t ∧
      ((t.isRunnable = true ∧ s' = s.setTcb s.current (t.setTimeout taskQuantum)) ∨
        (t.isRunnable = false ∧ ∃ a, s' = { s with
          satp := a, curRegBase := cfg.idleThread, current := cfg.idleThread,
          requested := false }))) := by
  simp only [schedule, bind_ok, get_ok] at h
  obtain ⟨_, _, ⟨rfl, rfl⟩, h⟩ := h
  split at h
  · next hreq =>
    exact .inl ⟨by simpa using hreq, (pure_ok.1 h).2.symm⟩
  · next hreq =>
    have hreq : s.requested = true := by simpa using hreq
    cases hq : s.runqueue with
    | cons next rest =>
      simp only [hq, requeue, bind_ok, modify_ok, updateTcb_ok, lift_ok, getTcb_ok] at h
      obtain ⟨_, _, rfl, _, _, ⟨t, ht, rfl⟩, _, s₃, ⟨tc, _, ⟨htc, rfl⟩, hpush⟩, hswitch⟩ := h
      obtain ⟨a, rfl⟩ := switchTo_ok hswitch
      refine .inr (.inl ⟨hreq, next, rest, t, tc, _, a, rfl, ht, htc, rfl, ?_⟩)
      split at hpush
      · next hrun =>
        obtain rfl := modify_ok.1 hpush
        rw [if_pos hrun]
        rfl
      · next hrun =>
        obtain ⟨-, rfl⟩ := pure_ok.1 hpush
        rw [if_neg hrun]
        rfl
    | nil =>
      simp only [hq, bind_ok, lift_ok, getTcb_ok] at h
      obtain ⟨t, _, ⟨ht, rfl⟩, h⟩ := h
      refine .inr (.inr ⟨hreq, rfl, t, ht, ?_⟩)
      split at h
      · next hrun =>
        obtain ⟨t', ht', rfl⟩ := updateTcb_ok.1 h
        obtain rfl := Option.some.inj (ht.symm.trans ht')
        exact .inl ⟨hrun, rfl⟩
      · next hrun =>
        obtain ⟨a, ha⟩ := switchTo_ok h
        exact .inr ⟨by simpa using hrun, a, by rw [ha, hq]⟩

theorem isRunnable_iff {p : Nat} {t : ThreadInfo} (ht : s.tcbs p = some t) :
    t.isRunnable = true ↔ s.statusOf p = some .runnable := by
  rw [KState.statusOf, ht, Option.map_some, Option.some.injEq, ThreadInfo.isRunnable,
    decide_eq_true_eq]

/-- The first ready thread leaves the run queue, and a current thread that can run joins it. -/
theorem Parked.rotate (hs : Parked cfg s) {next : Nat} {rest r : List Nat} {tc : ThreadInfo}
    (hq : s.runqueue = next :: rest) (htc : s.tcbs s.current = some tc)
    (hr : r = if tc.isRunnable then rest ++ [s.current] else rest) :
    Queued cfg { s with runqueue := r } ∧ next ∉ r := by
  have hsub : rest.Sublist (s.queue .run) := by
    rw [KState.queue, hq]
    exact List.sublist_cons_self ..
  have hrest : Queued cfg { s with runqueue := rest } := by
    refine hs.queued.leave rfl ?_
    rw [KState.queue_setRun]
    exact Exclusive.sublist_update hsub
  have hnext : next ∉ rest := by
    have := hs.queued.exclusive.nodup .run
    rw [KState.queue, hq, List.nodup_cons] at this
    exact this.1
  have hcur : s.current ∉ next :: rest := hq ▸ hs.notReady
  rw [List.mem_cons, not_or] at hcur
  by_cases hrun : tc.isRunnable
  · rw [if_pos hrun] at hr
    subst hr
    have hst := (isRunnable_iff htc).1 hrun
    refine ⟨?_, by simpa using ⟨hnext, Ne.symm hcur.1⟩⟩
    refine hrest.join (l := .run) (p := s.current) (t := tc)
      (hrest.not_mem_of_runnable hst hcur.2) ?_ ?_ ?_ ?_
    · intro h
      rw [h] at hst
      cases hst.symm.trans hs.queued.idle
    · exact of_decide_eq_true hrun
    · show s.tcbs = Function.update s.tcbs s.current (some tc)
      rw [← htc, Function.update_eq_self]
    · exact KState.queue_setRun { s with runqueue := rest } (rest ++ [s.current])
  · rw [if_neg hrun] at hr
    subst hr
    exact ⟨hrest, hnext⟩

/-- **The scheduler** leaves a current thread that can run, or the idle thread. -/
theorem Settled.schedule (hs : Settled cfg s) {u : Unit} (h : schedule cfg s = .ok u s') :
    Ready cfg s' := by
  rcases schedule_cases h with ⟨hreq, rfl⟩ | ⟨-, next, rest, t, tc, r, a, hq, ht, htc, hr, rfl⟩ |
    ⟨-, hq, t, ht, ⟨hrun, rfl⟩ | ⟨-, a, rfl⟩⟩
  · refine ⟨hs.toParked, ?_⟩
    rcases hs.current with h | h | h
    · exact .inl h
    · exact .inr h
    · rw [hreq] at h
      cases h
  · have hquiet : Quiet s (s.setTcb next (t.setTimeout taskQuantum)) :=
      (Quiet.refl s).setTcb ht rfl rfl
    obtain ⟨hqueued, hnext⟩ := (hs.toParked.quiet hquiet).rotate hq htc hr
    refine ⟨⟨hqueued.leave rfl fun _ => .refl _, rfl, hnext⟩, .inl ?_⟩
    have hmem : next ∈ s.queue .run := by
      rw [KState.queue, hq]
      exact List.mem_cons_self ..
    exact (hquiet.statusOf next).trans (hs.queued.status .run next hmem)
  · have hquiet : Quiet s (s.setTcb s.current (t.setTimeout taskQuantum)) :=
      (Quiet.refl s).setTcb ht rfl rfl
    exact ⟨hs.toParked.quiet hquiet,
      .inl ((hquiet.statusOf _).trans ((isRunnable_iff ht).1 hrun))⟩
  · refine ⟨⟨?_, rfl, hs.queued.idle_not_mem .run⟩, .inr rfl⟩
    exact hs.queued.leave rfl fun _ => .refl _

/-! ## Runs -/

namespace Ready

theorem threadsWF (hs : Ready cfg s) : ThreadsWF cfg s where
  exclusive := hs.queued.exclusive
  ready p hp := ⟨hs.queued.status .run p hp, fun h => hs.notReady (h ▸ hp)⟩
  waiting l p hl hp := by
    have := hs.queued.status l p hp
    cases l with
    | run => exact absurd rfl hl
    | ep a => exact this
    | ntfn a => exact this
  current := hs.current

theorem quiet (hs : Ready cfg s) (h : Quiet s s') : Ready cfg s' where
  toParked := hs.toParked.quiet h
  current := by
    rw [h.current, h.statusOf]
    exact hs.current

/-- The registers of the current thread are saved. -/
theorem trapEntry (hs : Ready cfg s) {regs : Registers} {t : ThreadInfo}
    (hen : (Event.trap regs).Enabled s) (ht : s.tcbs s.curRegBase = some t) :
    Ready cfg (s.setTcb s.curRegBase { t with registers := regs }) := by
  rw [hs.regBase] at ht ⊢
  refine ⟨⟨hs.queued.setRegisters ht fun h => ?_, hs.regBase, hs.notReady⟩, ?_⟩
  · rw [hen.1 t ht]
    exact hs.queued.idleMode t (h ▸ ht)
  · rw [KState.statusOf_setRegisters ht]
    exact hs.current

/-- Only a thread that can run makes system calls. -/
theorem running_of_ecall (hs : Ready cfg s) {t : ThreadInfo} (ht : s.tcbs s.current = some t)
    (hmode : t.registers.spp = false) : Running cfg s := by
  refine ⟨hs.toParked, hs.current.resolve_right fun h => ?_⟩
  rw [h] at ht
  cases hmode.symm.trans (hs.queued.idleMode t ht)

/-- A trap, up to the scheduler. -/
theorem handleTrap (hs : Ready cfg s) (hheap : HeapWF cfg s) (hcaps : CapsAll ObjectCap s)
    {regs : Registers} {u v : KState} (hen : (Event.trap regs).Enabled s)
    (hcond : (Event.trap regs).Meets cfg ResumeInactive s)
    (hnew : (Event.trap regs).Meets cfg (RetypesApart cfg) s)
    (hentry : Zoeax.trapEntry regs s = .ok () u)
    (htrap : Zoeax.handleTrap cfg regs.scause.toNat u = .ok () v) : Settled cfg v := by
  obtain ⟨t, ht, hu⟩ := trapEntry_ok.1 hentry
  have hready : Ready cfg u := hu ▸ hs.trapEntry hen ht
  have hheapu : HeapWF cfg u := hu ▸ hheap.setTcb _ ht
  have hcapsu : CapsAll ObjectCap u := hu ▸ hcaps.setRegisters ht regs
  rcases handleTrap_cases hentry htrap with htimer | ⟨hcause, ret, w, hret, hw⟩
  · have hv := hready.quiet ((Quiet.keeps_timerTick u).ok (.refl u) htimer)
    exact ⟨hv.toParked, hv.current.imp_right .inl⟩
  · have hrunning : Running cfg u := by
      refine hready.running_of_ecall (t := { t with registers := regs }) ?_ (hen.2 hcause)
      rw [hu, hs.regBase]
      exact Function.update_self ..
    have hsettled : Settled cfg w := by
      rcases hw with rfl | ⟨invLabel, inv, k, val, -, hinvk, hk, hinvoke⟩
      · exact hrunning.settled
      · obtain ⟨hcur, -, -, -, -, hcap⟩ := findInvocation_ok hinvk.found
        exact hrunning.invoke hheapu (hcapsu _ (.inl ⟨_, hcap⟩)) hcur hcap hk
          (hcond _ _ _ _ hinvk) (hnew _ _ _ _ hinvk) hinvoke
    obtain ⟨t', sepc, ht', -, rfl⟩ := returnSyscall_ok.1 hret
    refine hsettled.quiet ((Quiet.refl w).setTcb ht' rfl ?_) rfl
    cases ret with
    | error e => rfl
    | ok v => cases v <;> rfl

/-- **One event** keeps the threads in order. -/
theorem step (hs : Ready cfg s) (hheap : HeapWF cfg s) (hcaps : CapsAll ObjectCap s) {ev : Event}
    (hcond : ev.Meets cfg ResumeInactive s) (hnew : ev.Meets cfg (RetypesApart cfg) s)
    (h : Step cfg s ev s') : Ready cfg s' := by
  cases ev with
  | store a w =>
    obtain rfl := modify_ok.1 h.2
    exact hs.quiet ⟨fun _ => rfl, rfl, rfl, rfl⟩
  | trap regs =>
    obtain ⟨u, v, hentry, htrap, hsched⟩ := step_parts h
    exact (hs.handleTrap hheap hcaps h.1 hcond hnew hentry htrap).schedule hsched

end Ready

/-! ## Boot -/

/-- Nobody is waiting or ready, and the idle thread is the only one that is not inactive. -/
structure Dormant (cfg : Config) (s : KState) : Prop where
  queues : ∀ l, s.queue l = []
  idle : s.statusOf cfg.idleThread = some .idle

/-- The idle thread is current, in supervisor mode. -/
structure IdleRuns (cfg : Config) (s : KState) : Prop where
  mode : ∀ t, s.tcbs cfg.idleThread = some t → t.registers.spp = true
  current : s.current = cfg.idleThread
  regBase : s.curRegBase = cfg.idleThread

theorem Dormant.quiet (hs : Dormant cfg s) (h : Quiet s s') : Dormant cfg s' :=
  ⟨fun l => h.queue ▸ hs.queues l, (h.statusOf _).trans hs.idle⟩

theorem dormant_bootStable : BootStable cfg (fun _ _ _ => True) (Dormant cfg) where
  toCapStable := .of_slots (fun _ _ hs => hs.quiet ⟨fun _ => rfl, rfl, rfl, rfl⟩)
    (fun _ _ _ slot e ht _ hs => hs.quiet (.setSlot ht slot e))
    fun s o ho hs => by
      refine ⟨fun l => List.sublist_nil.1 (hs.queues l ▸ s.queue_born o l), ?_⟩
      rw [KState.statusOf, tcbs_born, if_neg fun h => ho.start_ne_idle h.1 h.2.symm]
      exact hs.idle
  mem _ _ hs := hs.quiet ⟨fun _ => rfl, rfl, rfl, rfl⟩
  root _ _ hs := hs.quiet ⟨fun _ => rfl, rfl, rfl, rfl⟩
  regs _ _ _ _ _ ht _ hs := ⟨hs.queues, (KState.statusOf_setRegisters ht _ _).trans hs.idle⟩
  refill _ _ _ slot _ ht hs := hs.quiet (.setSlot ht slot _)

theorem IdleRuns.quiet (hs : IdleRuns cfg s) (h : Quiet s s') : IdleRuns cfg s' := by
  refine ⟨fun t ht => ?_, h.current.trans hs.current, h.curRegBase.trans hs.regBase⟩
  obtain ⟨t₀, ht₀, hspp⟩ := h.spp ht
  exact hspp.trans (hs.mode t₀ ht₀)

theorem idleRuns_bootStable : BootStable cfg (fun _ _ _ => True) (IdleRuns cfg) where
  toCapStable := .of_slots (fun _ _ hs => hs.quiet ⟨fun _ => rfl, rfl, rfl, rfl⟩)
    (fun _ _ _ slot e ht _ hs => hs.quiet (.setSlot ht slot e))
    fun s o ho hs => by
      refine ⟨fun t ht => ?_, by simpa using hs.current, by simpa using hs.regBase⟩
      rw [tcbs_born, if_neg fun h => ho.start_ne_idle h.1 h.2.symm] at ht
      exact hs.mode t ht
  mem _ _ hs := hs.quiet ⟨fun _ => rfl, rfl, rfl, rfl⟩
  root _ _ hs := hs.quiet ⟨fun _ => rfl, rfl, rfl, rfl⟩
  regs _ _ _ _ hne _ _ hs := by
    refine ⟨fun t ht => ?_, hs.current, hs.regBase⟩
    rw [KState.tcbs_setTcb, if_neg hne.symm] at ht
    exact hs.mode t ht
  refill _ _ _ slot _ ht hs := hs.quiet (.setSlot ht slot _)

theorem ready_boot {image : Image} (h : Boot cfg image s) : Ready cfg s := by
  have hidle : ∀ s s' u, Dormant cfg s → createIdleThread cfg s = .ok u s' →
      Dormant cfg s' ∧ IdleRuns cfg s' := by
    intro s s' u hs hidle
    obtain ⟨t, ht, rfl⟩ := createIdleThread_ok.1 hidle
    refine ⟨⟨hs.queues, (KState.statusOf_setRegisters ht _ _).trans hs.idle⟩, fun t' ht' => ?_,
      rfl, rfl⟩
    simp only [KState.setTcb, Function.update_self, Option.some.injEq] at ht'
    rw [← ht']
    show (sstatusSpp ||| sstatusSpie).toNat.testBit 8 = true
    decide
  obtain ⟨thread, s₃, s₄, hne, ⟨hd, hi⟩, hres, hsched⟩ :=
    dormant_bootStable.toMapStable.boot (dormant_bootStable.and idleRuns_bootStable) .trivial hidle
      ⟨fun l => by cases l <;> rfl, by simp [KState.statusOf, KState.afterVmInit, KState.initial,
        ThreadInfo.idleInit]⟩ h
  have hempty : ∀ l p, p ∉ s₃.queue l := by
    intro l p hp
    rw [hd.queues l] at hp
    cases hp
  have hqueued : Queued cfg s₃ :=
    ⟨⟨fun l => hd.queues l ▸ .nil, fun h => absurd h (hempty _ _)⟩,
      fun l p hp => absurd hp (hempty l p), hd.idle, hi.mode⟩
  have hq := hqueued.resume (fun l => hempty l _) hne hres
  have hs₄ : s₄.runqueue = [thread] ∧ s₄.current = cfg.idleThread ∧
      s₄.curRegBase = cfg.idleThread := by
    obtain ⟨t, -, rfl⟩ := resume_ok.1 hres
    exact ⟨congrArg (· ++ [thread]) (hd.queues .run), hi.current, hi.regBase⟩
  refine Settled.schedule ?_ hsched
  refine ⟨⟨hq.leave rfl fun _ => .refl _, hs₄.2.2.trans hs₄.2.1.symm, ?_⟩, .inr (.inl hs₄.2.1)⟩
  show s₄.current ∉ s₄.runqueue
  rw [hs₄.1, hs₄.2.1, List.mem_singleton]
  exact hne.symm

theorem ready_of_run {image : Image} {s₀ : KState} (hboot : Boot cfg image s₀)
    (hrun : Run cfg (GuardedWith cfg ResumeInactive) s₀ s) :
    HeapWF cfg s ∧ Allocated cfg s ∧ CapsAll ObjectCap s ∧ Ready cfg s := by
  refine run_invariant_apart (P := fun s => CapsAll ObjectCap s ∧ Ready cfg s) hrun
    (fun _ _ _ _ h => h.1.retypeFits) (heapWF_boot hboot) (boot_allocated hboot)
    ⟨CapsAll.boot objectCap_capRule hboot, ready_boot hboot⟩ ?_
  rintro u v ev hheap - hmeets hnew ⟨hcaps, hready⟩ hstep
  exact ⟨hcaps.step objectCap_capRule (fun _ _ _ _ _ => mintKeeps_objectCap) hstep,
    hready.step hheap hcaps (hmeets.mono fun _ _ _ _ h => h.2) hnew hstep⟩

/-- **Threads stay in order**, in every run from boot in which `TcbResume` is used on inactive
threads only and the other conditions are met. -/
theorem threadsWF_of_run {image : Image} {s₀ : KState} (hboot : Boot cfg image s₀)
    (hrun : Run cfg (GuardedWith cfg ResumeInactive) s₀ s) : ThreadsWF cfg s :=
  (ready_of_run hboot hrun).2.2.2.threadsWF

instance (invLabel : InvLabel) (reg : Registers) (u : KState) (inv : Invocation) :
    Decidable (ResumeInactive invLabel reg u inv) := by
  unfold ResumeInactive
  infer_instance

/-- The root server makes a thread and resumes it. -/
theorem threadsWF_after_resume : ∃ s₀ s, Boot .virt demoImage s₀ ∧
    Run .virt (GuardedWith .virt ResumeInactive) s₀ s ∧ s.runqueue ≠ [] ∧ ThreadsWF .virt s := by
  obtain ⟨s₀, s, hboot, hrun, htest⟩ := exists_run_of_trace .virt
    (GuardedWith .virt ResumeInactive) demoImage
    [.trap { ecallRegs 9 18 1 with a3 := 2, a4 := 18 + 19 * 2 ^ 32, a5 := 1, a6 := 3 },
      .trap (ecallRegs 19 18 5)]
    (fun s => s.runqueue ≠ []) (by decide +kernel)
  exact ⟨s₀, s, hboot, hrun, of_decide_eq_true htest, threadsWF_of_run hboot hrun⟩

/-- The root server resumes itself: it is current and in the run queue. -/
theorem not_threadsWF_after_resume : ∃ s₀ s, Boot .virt demoImage s₀ ∧
    Run .virt (fun _ _ _ _ => True) s₀ s ∧ s.current ∈ s.runqueue ∧ ¬ThreadsWF .virt s := by
  obtain ⟨s₀, s, hboot, hrun, htest⟩ := exists_run_of_trace .virt (fun _ _ _ _ => True)
    demoImage [.trap (ecallRegs 1 18 5)] (fun s => s.current ∈ s.runqueue) (by decide +kernel)
  have hmem := of_decide_eq_true htest
  exact ⟨s₀, s, hboot, hrun, hmem, fun h => (h.ready _ hmem).2 rfl⟩

end Zoeax
