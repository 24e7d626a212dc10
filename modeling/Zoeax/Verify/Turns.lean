import Zoeax.Lib.Sched
import Zoeax.Verify.TimeSlice

/-!
# The kernel as a round robin with waiting queues

`KState.sched` is the kernel as its threads see it (`Lib/Sched.lean`): no registers, no
capabilities, no memory. An invocation wakes a thread, blocks its caller, or moves nobody
(`Called`), the timer counts down, and `schedule` is the turn. So every run is a run of the round
robin (`sched_of_run`), and what holds of that one holds of the kernel (`placed_of_run`,
`sound_of_run`). `Intrusive/Progress.lean` says what this means for the kernel on its linked lists.

A waiting queue is part of an endpoint or a notification, and must not be made anew while somebody
waits in it: it belongs to a live object (`Housed`), and a new object takes memory of its own if the
request fits. This is where the sizes of the two matter (`Config.Sized`). A run of the model ends
where a call leaves the live objects; `Verify/Guards.lean` says which runs are those of the code.
-/

namespace Zoeax

open Lib Exec
open Function (update)

variable {cfg : Config} {s s' : KState}

/-! ## The threads as the scheduler sees them -/

/-- What is left of the time slice of the current thread. -/
def KState.slice (s : KState) : Nat := ((s.tcbs s.current).map (·.timeSlice)).getD 0

/-- The waiting queues are those of endpoints and notifications; the place `run` has none. -/
def KState.sched (s : KState) : Sched Loc Nat where
  runnable := {p | s.statusOf p = some .runnable}
  blocked := {p | s.statusOf p = some .blocked}
  ready := s.runqueue
  waiting := update s.queue .run []
  current := s.current
  requested := s.requested
  slice := s.slice

namespace KState

theorem slice_of_tcb {t : ThreadInfo} (ht : s.tcbs s.current = some t) : s.slice = t.timeSlice := by
  rw [slice, ht, Option.map_some, Option.getD_some]

theorem slice_of_update {f : Nat → Option ThreadInfo} {t : ThreadInfo}
    (h : s.tcbs = update f s.current (some t)) : s.slice = t.timeSlice :=
  slice_of_tcb (by rw [h, Function.update_self])

theorem slice_setTcb {p : Nat} {t t' : ThreadInfo} (ht : s.tcbs p = some t)
    (hslice : t'.timeSlice = t.timeSlice) : (s.setTcb p t').slice = s.slice := by
  change (((s.setTcb p t').tcbs s.current).map _).getD 0 = _
  rw [tcbs_setTcb]
  split
  · next h =>
    subst h
    exact hslice.trans (slice_of_tcb ht).symm
  · rfl

theorem waiting_congr (h : ∀ l, l ≠ .run → s'.queue l = s.queue l) :
    update s'.queue .run [] = update s.queue .run [] := by
  funext l
  by_cases hl : l = .run
  · rw [hl, Function.update_self, Function.update_self]
  · rw [Function.update_of_ne hl, Function.update_of_ne hl, h l hl]

/-- Threads that are made in between are inactive and do not count. -/
theorem sched_congr (hst : ∀ p, s'.statusOf p = s.statusOf p ∨
      s.statusOf p = none ∧ s'.statusOf p = some .inactive)
    (hq : s'.queue = s.queue) (hcur : s'.current = s.current)
    (hreq : s'.requested = s.requested) (hslice : s'.slice = s.slice) : s'.sched = s.sched := by
  have hset : ∀ st, st ≠ .inactive →
      {p | s'.statusOf p = some st} = {p | s.statusOf p = some st} := by
    intro st hne
    ext p
    change s'.statusOf p = some st ↔ s.statusOf p = some st
    rcases hst p with h | ⟨hnone, hnew⟩
    · rw [h]
    · rw [hnone, hnew]
      exact ⟨fun h => absurd (Option.some.inj h).symm hne, fun h => by cases h⟩
  exact Sched.ext (hset _ (by decide)) (hset _ (by decide)) (congrFun hq .run)
    (waiting_congr fun l _ => congrFun hq l) hcur hreq hslice

theorem statusOf_setTcb_of_eq {p : Nat} {t u : ThreadInfo} (ht : s.tcbs p = some t)
    (hst : u.status = t.status) (q : Nat) : (s.setTcb p u).statusOf q = s.statusOf q := by
  rw [statusOf_setTcb]
  split
  · next h => rw [h, statusOf, ht, Option.map_some, hst]
  · rfl

theorem sched_setTcb {p : Nat} {t t' : ThreadInfo} (ht : s.tcbs p = some t)
    (hst : t'.status = t.status) (hslice : t'.timeSlice = t.timeSlice) :
    (s.setTcb p t').sched = s.sched :=
  sched_congr (fun q => .inl (statusOf_setTcb_of_eq ht hst q)) rfl rfl rfl (slice_setTcb ht hslice)

end KState

/-! ## Queues belong to live objects -/

/-- An endpoint and a notification take memory. -/
structure Config.Sized (cfg : Config) : Prop where
  endpoint : 0 < cfg.endpointSize
  notification : 0 < cfg.notificationSize

/-- The object with the queue is alive. -/
def KState.Houses (s : KState) : Loc → Prop
  | .run => True
  | .ep a => ∃ o ∈ s.objects, o.kind = .endPoint ∧ o.start = a
  | .ntfn a => ∃ o ∈ s.objects, o.kind = .notification ∧ o.start = a

theorem KState.Houses.mono (hobj : s.objects ⊆ s'.objects) {l : Loc} (h : s.Houses l) :
    s'.Houses l := by
  cases l with
  | run => trivial
  | ep a =>
    obtain ⟨o, ho, hk⟩ := h
    exact ⟨o, hobj ho, hk⟩
  | ntfn a =>
    obtain ⟨o, ho, hk⟩ := h
    exact ⟨o, hobj ho, hk⟩

/-- Threads wait in queues of live objects. -/
def Housed (s : KState) : Prop := ∀ l, s.queue l ≠ [] → s.Houses l

theorem Housed.of_eq (hs : Housed s) (hq : s'.queue = s.queue) (hobj : s'.objects = s.objects) :
    Housed s' := by
  intro l hne
  rw [hq] at hne
  refine (hs l hne).mono ?_
  rw [hobj]
  exact List.Subset.refl _

/-- A new object is not where a live one of its type is, if these take memory. -/
theorem Object.Fresh.start_notMem {o : Object} (ho : o.Fresh cfg s) (hheap : HeapWF cfg s)
    {k : CapabilityType} {n : Nat} (hk : o.kind = k)
    (hsize : ∀ userSize, k.getObjectSize cfg userSize = .ok n) (hpos : 0 < n) :
    ¬∃ o' ∈ s.objects, o'.kind = k ∧ o'.start = o.start := by
  rintro ⟨o', ho', rfl, hstart⟩
  have hn : o.size = n := Except.ok.inj (ho.size.symm.trans (hk ▸ hsize _))
  have hn' : o'.size = n := Except.ok.inj ((hheap.size o' ho').symm.trans (hsize _))
  have hapart := ho.apart o' ho'
  have h₀ := (Object.start_lt (hheap.admissible o' ho')).1
  have h₁ := (Object.start_lt ho.admissible).1
  simp only [Object.overlaps, Bool.and_eq_false_iff, decide_eq_false_iff_not] at hapart
  omega

/-- Nobody waits in the queue of an object that is being made. -/
theorem Housed.queue_born (hs : Housed s) (hsized : cfg.Sized) (hheap : HeapWF cfg s) {o : Object}
    (ho : o.Fresh cfg s) : (s.born o).queue = s.queue := by
  unfold KState.born
  cases hk : o.kind with
  | endPoint =>
    refine (KState.queue_setEndpoint _ _ _).trans (Function.update_eq_self_iff.2 ?_)
    by_contra hne
    exact ho.start_notMem hheap hk (fun _ => rfl) hsized.endpoint (hs (.ep o.start) (Ne.symm hne))
  | notification =>
    refine (KState.queue_setNotification _ _ _).trans (Function.update_eq_self_iff.2 ?_)
    by_contra hne
    exact ho.start_notMem hheap hk (fun _ => rfl) hsized.notification
      (hs (.ntfn o.start) (Ne.symm hne))
  | _ => rfl

/-- A thread that is made is inactive. -/
theorem KState.statusOf_born_cases (hheap : HeapWF cfg s) {o : Object} (ho : o.Fresh cfg s)
    (p : Nat) : (s.born o).statusOf p = s.statusOf p ∨
      s.statusOf p = none ∧ (s.born o).statusOf p = some .inactive := by
  by_cases hp : s.statusOf p = none
  · rw [hp, statusOf, tcbs_born]
    split
    · exact .inr ⟨rfl, rfl⟩
    · exact .inl hp
  · exact .inl (statusOf_born hp hheap ho)

/-! ## What an invocation does to the threads -/

/-- `p` has become runnable and joined the run queue; the other queues were `w` before. -/
structure Woken (p : Nat) (w : Loc → List Nat) (s s' : KState) : Prop where
  status : ∀ q, s'.statusOf q = if q = p then some .runnable else s.statusOf q
  queue : s'.queue = update w .run (s.runqueue ++ [p])

/-- The caller has blocked and joined the queue at `l`. -/
structure Joined (l : Loc) (s s' : KState) : Prop where
  place : l ≠ .run
  status : ∀ q, s'.statusOf q = if q = s.current then some .blocked else s.statusOf q
  queue : s'.queue = update s.queue l (s.queue l ++ [s.current])

/-- An invocation moves no thread, or makes one runnable, or wakes the first one of a queue, or
blocks its caller. -/
inductive Called (cfg : Config) (s s' : KState) : Prop
  | pass (status : ∀ p, s'.statusOf p = s.statusOf p ∨
        s.statusOf p = none ∧ s'.statusOf p = some .inactive)
      (queue : s'.queue = s.queue) (requested : s'.requested = s.requested)
  | resume (p : Nat) (hp : p ≠ cfg.idleThread) (h : Woken p s.queue s s')
      (requested : s'.requested = s.requested)
  | wake (l : Loc) (p : Nat) (rest : List Nat) (hl : l ≠ .run) (hq : s.queue l = p :: rest)
      (h : Woken p (update s.queue l rest) s s') (requested : s'.requested = s.requested)
  | block (l : Loc) (hl : s.Houses l) (h : Joined l s s') (requested : s'.requested = true)

theorem Woken.sched {p : Nat} {w : Loc → List Nat} (h : Woken p w s s')
    (hreq : s'.requested = s.requested) (hcur : s'.current = s.current)
    (hslice : s'.slice = s.slice) :
    s'.sched = { s.sched with waiting := update w .run [] }.wakeUp p := by
  have hrun : s'.runqueue = s.runqueue ++ [p] := by
    have := congrFun h.queue .run
    rwa [Function.update_self] at this
  refine Sched.ext ?_ ?_ hrun ?_ hcur hreq hslice
  · ext q
    change s'.statusOf q = some .runnable ↔ q = p ∨ s.statusOf q = some .runnable
    rw [h.status]
    by_cases hq : q = p <;> simp [hq]
  · ext q
    change s'.statusOf q = some .blocked ↔ s.statusOf q = some .blocked ∧ q ≠ p
    rw [h.status]
    by_cases hq : q = p <;> simp [hq]
  · change update s'.queue .run [] = update w .run []
    rw [h.queue, Function.update_idem]

theorem Joined.sched {l : Loc} (h : Joined l s s') (hreq : s'.requested = true)
    (hcur : s'.current = s.current) (hslice : s'.slice = s.slice) :
    s'.sched = s.sched.block l := by
  have hrun : s'.runqueue = s.runqueue := by
    have := congrFun h.queue .run
    rwa [Function.update_of_ne h.place.symm] at this
  refine Sched.ext ?_ ?_ hrun ?_ hcur hreq hslice
  · ext q
    change s'.statusOf q = some .runnable ↔ s.statusOf q = some .runnable ∧ q ≠ s.current
    rw [h.status]
    by_cases hq : q = s.current <;> simp [hq]
  · ext q
    change s'.statusOf q = some .blocked ↔ q = s.current ∨ s.statusOf q = some .blocked
    rw [h.status]
    by_cases hq : q = s.current <;> simp [hq]
  · change update s'.queue .run [] =
      update (update s.queue .run []) l (update s.queue .run [] l ++ [s.current])
    rw [h.queue, Function.update_of_ne h.place, Function.update_comm h.place]

/-- In the terms of the scheduler. -/
theorem Called.sched (h : Called cfg s s') (hcur : s'.current = s.current)
    (hslice : s'.slice = s.slice) :
    s'.sched = s.sched ∨ Sched.Calls cfg.idleThread s.sched s'.sched := by
  cases h with
  | pass status queue requested =>
    exact .inl (KState.sched_congr status queue hcur requested hslice)
  | resume p hp h hreq =>
    rw [h.sched hreq hcur hslice]
    exact .inr (.resume hp)
  | wake l p rest hl hq h hreq =>
    rw [h.sched hreq hcur hslice, Function.update_comm hl]
    refine .inr (.wake ?_)
    change update s.queue .run [] l = p :: rest
    rw [Function.update_of_ne hl]
    exact hq
  | block l _ h hreq =>
    rw [h.sched hreq hcur hslice]
    exact .inr (.block l)

/-- Queues stay where they belong. -/
theorem Called.housed (h : Called cfg s s') (hs : Housed s) (hobj : s.objects ⊆ s'.objects) :
    Housed s' := by
  have hmono : ∀ l, s.queue l ≠ [] → s'.Houses l := fun l hne => (hs l hne).mono hobj
  intro l hne
  cases h with
  | pass _ hq => exact hmono l (hq ▸ hne)
  | resume p _ h =>
    by_cases hl : l = .run
    · subst hl
      trivial
    · rw [h.queue, Function.update_of_ne hl] at hne
      exact hmono l hne
  | wake k p rest _ hq h =>
    by_cases hl : l = .run
    · subst hl
      trivial
    · rw [h.queue, Function.update_of_ne hl] at hne
      by_cases hk : l = k
      · subst hk
        exact hmono l (hq ▸ List.cons_ne_nil p rest)
      · rw [Function.update_of_ne hk] at hne
        exact hmono l hne
  | block k hk h =>
    by_cases hl : l = k
    · subst hl
      exact hk.mono hobj
    · rw [h.queue, Function.update_of_ne hl] at hne
      exact hmono l hne

/-! ## Endpoints and notifications -/

theorem requested_threadQuiet (b : Bool) : ThreadQuiet (fun s => s.requested = b) where
  tcb _ _ _ _ _ _ hs := hs
  queues _ _ _ _ hs := hs
  copy _ _ _ _ hs := hs

theorem Woken.of_resume {p : Nat} {w : Loc → List Nat} {s₁ s₂ : KState} {u : Unit}
    (htcbs : s₁.tcbs = s.tcbs) (hq : s₁.queue = w) (hrun : s₁.runqueue = s.runqueue)
    (hquiet : Quiet s₁ s₂) (h : resume p s₂ = .ok u s') : Woken p w s s' := by
  obtain ⟨t, -, rfl⟩ := resume_ok.1 h
  refine ⟨fun q => ?_, ?_⟩
  · refine (KState.statusOf_setTcb s₂ p q t.resume).trans ?_
    rw [hquiet.statusOf, KState.statusOf, htcbs]
    rfl
  · refine (KState.queue_setRun (s₂.setTcb p t.resume) _).trans ?_
    change update s₂.queue .run (s₂.queue .run ++ [p]) = _
    rw [hquiet.queue, hq, ← hrun, ← hq]
    rfl

/-- The first thread of a queue is woken, after changes that move no thread. -/
theorem Called.of_pop {l : Loc} {p : Nat} {rest : List Nat} {s₁ s₂ : KState} {u : Unit}
    (hquiet : Quiet s₁ s₂) (h : Zoeax.resume p s₂ = .ok u s') (hq : s.queue l = p :: rest)
    (hl : l ≠ .run) (htcbs : s₁.tcbs = s.tcbs) (hq₁ : s₁.queue = update s.queue l rest)
    (hreq : s'.requested = s.requested) : Called cfg s s' := by
  refine .wake l p rest hl hq (.of_resume htcbs hq₁ ?_ hquiet h) hreq
  have := congrFun hq₁ .run
  rwa [Function.update_of_ne hl.symm] at this

theorem Joined.of_quiet {l : Loc} {s₁ : KState} (hquiet : Quiet s s₁) (h : Joined l s₁ s') :
    Joined l s s' := by
  refine ⟨h.place, fun q => ?_, ?_⟩
  · rw [h.status, hquiet.current, hquiet.statusOf]
  · rw [h.queue, hquiet.current, hquiet.queue]

theorem Joined.enqueue {a : Nat} {ep ep' : Endpoint} {u : Unit} (hep : s.endpoints a = some ep)
    (hq : ep'.queue = ep.queue)
    (h : Endpoint.enqueue a s.current (s.setEndpoint a ep') = .ok u s') : Joined (.ep a) s s' := by
  simp only [Endpoint.enqueue, blockThread, bind_ok, updateTcb_ok, lift_ok, getEndpoint_ok,
    modify_ok] at h
  obtain ⟨_, _, ⟨t, ht, rfl⟩, e, _, ⟨he, rfl⟩, rfl⟩ := h
  obtain rfl : ep' = e :=
    Option.some.inj ((KState.endpoints_setEndpoint_self s a ep').symm.trans he)
  refine ⟨by simp, fun q => KState.statusOf_setTcb s s.current q t.suspend, ?_⟩
  rw [KState.queue_setEndpoint, KState.queue_ep hep, ← hq]
  have : ((s.setEndpoint a ep').setTcb s.current t.suspend).queue =
      update s.queue (.ep a) ep'.queue := KState.queue_setEndpoint s a ep'
  rw [this, Function.update_idem]

/-- The longest-waiting thread of an endpoint is woken after the message was handed over. -/
theorem Called.rendezvous {a p sender receiver : Nat} {ep ep' : Endpoint} {rest : List Nat}
    {u u' : Unit} {s₂ : KState} (hep : s.endpoints a = some ep) (hq : ep.queue = p :: rest)
    (hq' : ep'.queue = rest)
    (ht : Endpoint.transfer sender receiver (s.setEndpoint a ep') = .ok u s₂)
    (hw : wakeUpThread p s₂ = .ok u' s') (hreq : s'.requested = s.requested) :
    Called cfg s s' := by
  have hquiet := (Quiet.keeps_transfer (s.setEndpoint a ep') sender receiver).ok (.refl _) ht
  refine .of_pop hquiet hw ((KState.queue_ep hep).trans hq) (fun h => by cases h) rfl ?_ hreq
  rw [KState.queue_setEndpoint, hq']

/-- `Endpoint::send` and `Endpoint::recv` end with a wake-up, or with the caller in the queue. -/
theorem called_endpointSend {a : Nat} {b : Bool} (h : Endpoint.send a s.current s = .ok b s') :
    (b = false ∧ Called cfg s s') ∨ (b = true ∧ Joined (.ep a) s s') := by
  have hreq := ((requested_threadQuiet s.requested).steady.endpointSend a s.current).ok rfl h
  simp only [Endpoint.send, bind_ok, lift_ok, getEndpoint_ok, modify_ok] at h
  obtain ⟨ep, _, ⟨hep, rfl⟩, _, _, rfl, h⟩ := h
  rcases popFromQueue_cases ep .send with ⟨p, rest, hq, hp, hrest⟩ | ⟨hp, hq⟩
  · rw [hp] at h
    simp only [Endpoint.sendTo, bind_ok, pure_ok] at h
    obtain ⟨_, s₁, ht, _, s₂, hw, rfl, rfl⟩ := h
    exact .inl ⟨rfl, .rendezvous hep hq hrest ht hw hreq⟩
  · rw [hp] at h
    simp only [Endpoint.sendTo, bind_ok, pure_ok] at h
    obtain ⟨_, s₁, hen, rfl, rfl⟩ := h
    exact .inr ⟨rfl, .enqueue hep hq hen⟩

theorem called_endpointRecv {a : Nat} {b : Bool} (h : Endpoint.recv a s.current s = .ok b s') :
    (b = false ∧ Called cfg s s') ∨ (b = true ∧ Joined (.ep a) s s') := by
  have hreq := ((requested_threadQuiet s.requested).steady.endpointRecv a s.current).ok rfl h
  simp only [Endpoint.recv, bind_ok, lift_ok, getEndpoint_ok, modify_ok] at h
  obtain ⟨ep, _, ⟨hep, rfl⟩, _, _, rfl, h⟩ := h
  rcases popFromQueue_cases ep .recv with ⟨p, rest, hq, hp, hrest⟩ | ⟨hp, hq⟩
  · rw [hp] at h
    simp only [Endpoint.recvFrom, bind_ok, pure_ok] at h
    obtain ⟨_, s₁, ht, _, s₂, hw, rfl, rfl⟩ := h
    exact .inl ⟨rfl, .rendezvous hep hq hrest ht hw hreq⟩
  · rw [hp] at h
    simp only [Endpoint.recvFrom, bind_ok, pure_ok] at h
    obtain ⟨_, s₁, hen, rfl, rfl⟩ := h
    exact .inr ⟨rfl, .enqueue hep hq hen⟩

theorem called_sendSignal {a : Nat} {val : UInt64} {u : Unit}
    (h : Notification.sendSignal a val s = .ok u s') : Called cfg s s' := by
  have hreq := ((requested_threadQuiet s.requested).steady.sendSignal a val).ok rfl h
  simp only [Notification.sendSignal, bind_ok, lift_ok, getNotification_ok] at h
  obtain ⟨n, _, ⟨hn, rfl⟩, h⟩ := h
  cases hq : n.waitQueue with
  | cons p rest =>
    simp only [hq, bind_ok, modify_ok] at h
    obtain ⟨_, _, rfl, _, s₂, ha1, hw⟩ := h
    have hquiet := (Quiet.keeps_setA1 (s.setNotification a { n with waitQueue := rest }) p val).ok
      (.refl _) ha1
    refine .of_pop hquiet hw ((KState.queue_ntfn hn).trans hq) (fun h => by cases h) rfl ?_ hreq
    rw [KState.queue_setNotification]
  | nil =>
    simp only [hq, modify_ok] at h
    subst h
    have hquiet : Quiet s (s.setNotification a { n with
        waitQueue := [], notifyBit := n.notifyBit ||| val, bitIsSet := true }) :=
      (Quiet.refl s).setNotification hn hq.symm
    exact .pass (fun p => .inl (hquiet.statusOf p)) hquiet.queue rfl

theorem called_waitSignal {a : Nat} {b : Bool}
    (h : Notification.waitSignal a s.current s = .ok b s') :
    (b = false ∧ Called cfg s s') ∨ (b = true ∧ Joined (.ntfn a) s s') := by
  have hreq := ((requested_threadQuiet s.requested).steady.waitSignal a s.current).ok rfl h
  simp only [Notification.waitSignal, bind_ok, lift_ok, getNotification_ok] at h
  obtain ⟨n, _, ⟨hn, rfl⟩, h⟩ := h
  split at h
  · simp only [bind_ok, modify_ok, pure_ok] at h
    obtain ⟨_, s₁, ha1, _, _, rfl, rfl, rfl⟩ := h
    have hquiet : Quiet s (s₁.setNotification a { n with notifyBit := 0, bitIsSet := false }) :=
      ((Quiet.keeps_setA1 s s.current n.notifyBit).ok (.refl _) ha1).setNotification hn rfl
    exact .inl ⟨rfl, .pass (fun p => .inl (hquiet.statusOf p)) hquiet.queue hreq⟩
  · simp only [blockThread, bind_ok, updateTcb_ok, modify_ok, pure_ok] at h
    obtain ⟨_, _, ⟨t, ht, rfl⟩, _, _, rfl, rfl, rfl⟩ := h
    refine .inr ⟨rfl, by simp, fun q => KState.statusOf_setTcb s s.current q t.suspend, ?_⟩
    rw [KState.queue_setNotification, KState.queue_ntfn hn]
    rfl

/-- A call that blocked asks for the scheduler. -/
theorem Called.of_scheduleIf {l : Loc} {b : Bool} {s₁ : KState} {u : Unit} (hl : s.Houses l)
    (hs : (b = false ∧ Called cfg s s₁) ∨ (b = true ∧ Joined l s s₁))
    (h : scheduleIf b s₁ = .ok u s') : Called cfg s s' := by
  rcases hs with ⟨rfl, hs⟩ | ⟨rfl, hs⟩
  · obtain ⟨-, rfl⟩ := pure_ok.1 h
    exact hs
  · obtain rfl := modify_ok.1 h
    exact .block l hl ⟨hs.place, hs.status, hs.queue⟩ rfl

theorem Called.of_quiet {s₁ : KState} (hquiet : Quiet s s₁) (hreq : s₁.requested = s.requested)
    (h : Called cfg s₁ s') (hobj : s₁.objects = s.objects) : Called cfg s s' := by
  have hrun : s₁.runqueue = s.runqueue := congrFun hquiet.queue .run
  have hwoken : ∀ {p w}, Woken p w s₁ s' → Woken p w s s' := by
    intro p w h
    refine ⟨fun q => ?_, ?_⟩
    · rw [h.status, hquiet.statusOf]
    · rw [h.queue, hrun]
  cases h with
  | pass hst hq hr =>
    exact .pass (fun p => hquiet.statusOf p ▸ hst p) (hq.trans hquiet.queue) (hr.trans hreq)
  | resume p hp h hr => exact .resume p hp (hquiet.queue ▸ hwoken h) (hr.trans hreq)
  | wake l p rest hl hq h hr =>
    rw [hquiet.queue] at hq h
    exact .wake l p rest hl hq (hwoken h) (hr.trans hreq)
  | block l hl h hr =>
    refine .block l (hl.mono ?_) (h.of_quiet hquiet) hr
    rw [hobj]
    exact List.Subset.refl _

theorem called_invokeEndPoint {invLabel : InvLabel} {c : CapabilityData} {v : Option Nat}
    (hl : s.Houses (.ep (EndPointCap.getEp c)))
    (h : invokeEndPoint invLabel s.current c s = .ok v s') : Called cfg s s' := by
  unfold invokeEndPoint at h
  split at h
  · simp only [EndPointCap.send, bind_ok, pure_ok] at h
    obtain ⟨b, s₂, ⟨_, s₁, hbadge, hsend⟩, _, s₃, hsched, rfl, rfl⟩ := h
    have hquiet := (Quiet.keeps_setBadge s _ _).ok (.refl s) hbadge
    rw [← hquiet.current] at hsend
    obtain ⟨t, ht, rfl⟩ := updateTcb_ok.1 hbadge
    refine .of_quiet hquiet rfl (.of_scheduleIf ?_ (called_endpointSend hsend) hsched) rfl
    exact hl.mono (List.Subset.refl s.objects)
  · simp only [EndPointCap.recv, bind_ok, pure_ok] at h
    obtain ⟨b, s₂, hrecv, _, s₃, hsched, rfl, rfl⟩ := h
    exact .of_scheduleIf hl (called_endpointRecv hrecv) hsched
  · exact (throw_ok.1 h).elim

theorem called_invokeNotification {invLabel : InvLabel} {c : CapabilityData} {v : Option Nat}
    (hl : s.Houses (.ntfn (NotificationCap.getNotify c)))
    (h : invokeNotification invLabel s.current c s = .ok v s') : Called cfg s s' := by
  unfold invokeNotification at h
  split at h
  · simp only [NotificationCap.send, bind_ok, pure_ok] at h
    obtain ⟨_, s₁, hsend, rfl, rfl⟩ := h
    exact called_sendSignal hsend
  · simp only [NotificationCap.wait, bind_ok, pure_ok] at h
    obtain ⟨b, s₂, hwait, _, s₃, hsched, rfl, rfl⟩ := h
    exact .of_scheduleIf hl (called_waitSignal hwait) hsched
  · exact (throw_ok.1 h).elim

/-! ## The other invocations -/

/-- From `s` to `u`, no thread has moved, and threads that were made are inactive. -/
structure Passed (cfg : Config) (s u : KState) : Prop where
  heap : HeapWF cfg u
  housed : Housed u
  status : ∀ p, u.statusOf p = s.statusOf p ∨ s.statusOf p = none ∧ u.statusOf p = some .inactive
  queue : u.queue = s.queue
  requested : u.requested = s.requested

namespace Passed

variable {u u' : KState}

theorem refl (hheap : HeapWF cfg s) (hs : Housed s) : Passed cfg s s :=
  ⟨hheap, hs, fun _ => .inl rfl, rfl, rfl⟩

theorem called (h : Passed cfg s u) : Called cfg s u := .pass h.status h.queue h.requested

theorem of_eq (h : Passed cfg s u) (hst : ∀ p, u'.statusOf p = u.statusOf p)
    (hq : u'.queue = u.queue) (hreq : u'.requested = u.requested) (hheap : HeapWF cfg u')
    (hobj : u'.objects = u.objects) : Passed cfg s u' where
  heap := hheap
  housed := h.housed.of_eq hq hobj
  status p := hst p ▸ h.status p
  queue := hq.trans h.queue
  requested := hreq.trans h.requested

theorem setTcb (h : Passed cfg s u) {p : Nat} {t t' : ThreadInfo} (ht : u.tcbs p = some t)
    (hst : t'.status = t.status) : Passed cfg s (u.setTcb p t') :=
  h.of_eq (KState.statusOf_setTcb_of_eq ht hst) rfl rfl (h.heap.setTcb _ ht) rfl

theorem born (hsized : cfg.Sized) (h : Passed cfg s u) {o : Object} (ho : o.Fresh cfg u) :
    Passed cfg s (u.born o) where
  heap := h.heap.born ho
  housed l hne := by
    rw [h.housed.queue_born hsized h.heap ho] at hne
    refine (h.housed l hne).mono ?_
    rw [objects_born]
    exact List.subset_cons_self ..
  status p := by
    rcases KState.statusOf_born_cases h.heap ho p with hsame | ⟨hnone, hnew⟩
    · exact hsame ▸ h.status p
    · refine .inr ⟨?_, hnew⟩
      rcases h.status p with hp | ⟨hp, -⟩
      · exact hp ▸ hnone
      · exact hp
  queue := (h.housed.queue_born hsized h.heap ho).trans h.queue
  requested := (requested_born u o).trans h.requested

end Passed

theorem passed_mapStable (hsized : cfg.Sized) (s : KState) :
    MapStable cfg (fun _ _ _ => True) (Passed cfg s) where
  toCapStable := .of_slots
    (fun _ _ h => h.of_eq (fun _ => rfl) rfl rfl (h.heap.of_eq rfl rfl) rfl)
    (fun _ _ _ slot _ ht _ h => h.setTcb ht (by cases slot <;> rfl))
    fun _ _ ho h => h.born hsized ho
  mem _ _ h := h.of_eq (fun _ => rfl) rfl rfl (h.heap.of_eq rfl rfl) rfl
  root _ _ h := h.of_eq (fun _ => rfl) rfl rfl (h.heap.of_eq rfl rfl) rfl

/-- A typed capability is for a live object. -/
theorem ObjectCap.houses {c : CapabilityData} (hc : ObjectCap s.objects s.rooted c) :
    (c.getCapType = .ok .endPoint → s.Houses (.ep (EndPointCap.getEp c))) ∧
      (c.getCapType = .ok .notification → s.Houses (.ntfn (NotificationCap.getNotify c))) := by
  have hlive : ∀ k, c.getCapType = .ok k → k ≠ .untyped →
      ∃ o ∈ s.objects, o.kind = k ∧ o.start = toKernelV c.getAddress := by
    intro k hk hne
    obtain ⟨o, ho, hkind, haddr⟩ := hc k hk hne
    exact ⟨o, ho, hkind, congrArg toKernelV haddr⟩
  exact ⟨fun hk => hlive _ hk (by decide), fun hk => hlive _ hk (by decide)⟩

/-- **What an invocation does to the threads.** -/
theorem called_invoke (hsized : cfg.Sized) {invLabel : InvLabel} {reg : Registers}
    {inv : Invocation} {k : CapabilityType} {v : Option Nat} (hheap : HeapWF cfg s)
    (hs : Housed s) (hslot : s.capAt inv.slot = some inv.cap)
    (hcap : ObjectCap s.objects s.rooted inv.cap) (hcur : inv.current = s.current)
    (hk : inv.cap.getCapType = .ok k) (hnew : RetypesApart cfg invLabel reg s inv)
    (h : invoke cfg invLabel reg inv k s = .ok v s') :
    Called cfg s s' := by
  have hI := passed_mapStable hsized s
  have hrefl := Passed.refl hheap hs
  cases k with
  | untyped =>
    refine (hI.invokeUntyped .trivial (.inr fun c hc => ?_) hrefl h).called
    obtain rfl : inv.cap = c := Option.some.inj (hslot.symm.trans hc)
    exact hnew hk
  | cNode =>
    exact (hI.invokeCNode .trivial (capsAll_trivial s) (fun _ _ _ _ _ => trivial) hrefl h).called
  | tcb =>
    by_cases hl : invLabel = .tcbResume
    · subst hl
      simp only [invoke, invokeTcb, TCBCap.makeRunnable, bind_ok, pure_ok] at h
      obtain ⟨_, _, hres, rfl, rfl⟩ := h
      refine .resume _ (ObjectCap.getTcb_ne_idle hheap hcap hk)
        (.of_resume rfl rfl rfl (.refl s) hres) ?_
      exact ((requested_threadQuiet s.requested).steady.resume _).ok rfl hres
    · refine (hI.invokeTcb .trivial (capsAll_trivial s) (fun h => absurd h hl) ?_ hrefl h).called
      exact fun _ _ _ _ _ _ ht => hrefl.setTcb ht rfl
  | notification => exact called_invokeNotification (hcap.houses.2 hk) (by rw [← hcur]; exact h)
  | endPoint => exact called_invokeEndPoint (hcap.houses.1 hk) (by rw [← hcur]; exact h)
  | page => exact (hI.invokePage .trivial hk trivial hrefl h).called
  | pageTable => exact (hI.invokePageTable .trivial hk trivial hrefl h).called

/-! ## A trap -/

/-- The event is an interrupt. The only one that the kernel serves is that of the timer. -/
def Event.isTick : Event → Bool
  | .trap regs => regs.scause.toNat.testBit 63
  | .store _ _ => false

theorem handleTrap_split {regs : Registers} {u v : KState} {a : Unit}
    (h : handleTrap cfg regs.scause.toNat u = .ok a v) :
    (Event.trap regs).isTick = true ∧ timerTick cfg u = .ok a v ∨
      (Event.trap regs).isTick = false ∧ regs.scause.toNat = ecallUser ∧
        handleSyscall cfg u = .ok a v := by
  unfold handleTrap at h
  split at h
  · next hbit =>
    split at h
    · exact .inl ⟨hbit, h⟩
    · exact (throw_ok.1 h).elim
  · next hbit =>
    split at h
    · next hcode =>
      exact .inr ⟨by simpa [Event.isTick] using hbit, scause_eq_of_code hbit hcode, h⟩
    · exact (throw_ok.1 h).elim

theorem Metered.slice_eq {c n : Nat} (hs : Metered cfg c n s) (hne : c ≠ cfg.idleThread) :
    s.slice = n := by
  obtain ⟨t, ht, hn⟩ := hs.slice.resolve_left hne
  rw [← hs.current] at ht
  exact (KState.slice_of_tcb ht).trans hn

/-- Objects stay. -/
theorem objects_subset_invoke {invLabel : InvLabel} {reg : Registers} {inv : Invocation}
    {k : CapabilityType} {v : Option Nat} (hslot : s.capAt inv.slot = some inv.cap)
    (hk : inv.cap.getCapType = .ok k) (h : invoke cfg invLabel reg inv k s = .ok v s') :
    s.objects ⊆ s'.objects := by
  intro o ho
  have hI : MapStable cfg (fun _ _ _ => True) fun u => o ∈ u.objects := live_mapStable o
  have hT : ThreadSteady fun u : KState => o ∈ u.objects :=
    ⟨fun _ _ _ _ _ _ h => h, fun _ _ _ _ h => h, fun _ _ _ _ h => h⟩
  exact hI.toCapStable.invoke hT (fun _ _ h => h) .trivial hk hslot (capsAll_trivial s)
    (.inl (live_renews o)) (fun _ _ _ _ _ _ _ _ h => h) (fun _ _ _ _ _ _ _ => .intro)
    (hI.mappingKeeps .trivial) ho h

/-- A timer interrupt. -/
theorem moves_timerTick (hs : Sliced cfg s) (h : timerTick cfg s = .ok () s') :
    Sched.Moves cfg.idleThread s.sched true s'.sched := by
  by_cases hidle : s.current = cfg.idleThread
  · cases (timerTick_of_idle hidle).symm.trans h
    exact .idleTick hidle
  · obtain ⟨t, ht, hpos, -⟩ := hs.resolve_left hidle
    obtain ⟨m, hm⟩ : ∃ m, t.timeSlice = m + 1 := ⟨t.timeSlice - 1, by omega⟩
    cases (timerTick_of_succ hidle ht hm).symm.trans h
    have hst := KState.statusOf_setTcb_of_eq (u := t.setTimeout m) ht rfl
    have hslice : s.slice - 1 = m := by
      rw [KState.slice_of_tcb ht, hm, Nat.add_sub_cancel]
    have heq : KState.sched { s.setTcb s.current (t.setTimeout m) with
        requested := m = 0 || s.requested } = s.sched.countDown := by
      refine Sched.ext ?_ ?_ rfl rfl rfl ?_ ?_
      · exact congrArg (fun f : Nat → Option ThreadState => {p | f p = some .runnable}) (funext hst)
      · exact congrArg (fun f : Nat → Option ThreadState => {p | f p = some .blocked}) (funext hst)
      · change (decide (m = 0) || s.requested) = (decide (s.slice - 1 = 0) || s.requested)
        rw [hslice]
      · exact (KState.slice_of_update (t := t.setTimeout m) rfl).trans hslice.symm
    rw [heq]
    exact .tick hidle

theorem returnSyscall_sched {thread : Nat} {ret : Except KernelError (Option Nat)} {u : Unit}
    (h : returnSyscall cfg thread ret s = .ok u s') :
    s'.sched = s.sched ∧ (Housed s → Housed s') := by
  obtain ⟨t, sepc, ht, -, rfl⟩ := returnSyscall_ok.1 h
  refine ⟨KState.sched_setTcb ht ?_ ?_, fun hs => hs.of_eq rfl rfl⟩
  · rfl
  · rfl

/-- A system call. -/
theorem moves_syscall (hsized : cfg.Sized) {c n : Nat} {u : Unit} (hs : Metered cfg c n s)
    (hne : c ≠ cfg.idleThread) (hcaps : CapsAll ObjectCap s) (hhoused : Housed s)
    (hnew : ∀ t invLabel inv, s.tcbs s.curRegBase = some t →
      t.registers.a7.toNat ≠ sysCallNoPrint →
      InvLabel.ofUsize? t.registers.a2.toNat = some invLabel →
      findInvocation cfg t.registers.a0.toNat t.registers.a1.toNat s = .ok inv →
      RetypesApart cfg invLabel t.registers s inv)
    (h : handleSyscall cfg s = .ok u s') :
    Sched.Moves cfg.idleThread s.sched false s'.sched ∧ Housed s' := by
  obtain ⟨t, ret, w, ht, hret, hw⟩ := handleSyscall_ok h
  obtain ⟨hsched, hreturn⟩ := returnSyscall_sched hret
  rw [hsched]
  rcases hw with rfl | ⟨invLabel, inv, k, _, -, hcall, hlabel, hinv, hk, hinvoke⟩
  · exact ⟨.pass, hreturn hhoused⟩
  · obtain ⟨hcur, -, -, -, -, hslot⟩ := findInvocation_ok hinv
    have hapart := hnew t invLabel inv ht hcall hlabel hinv
    have hcalled : Called cfg s w := called_invoke hsized hs.heap hhoused hslot
      (hcaps _ (.inl ⟨_, hslot⟩)) hcur hk hapart hinvoke
    have hmw := hs.invoke hslot hk hapart hinvoke
    refine ⟨?_, hreturn (hcalled.housed hhoused (objects_subset_invoke hslot hk hinvoke))⟩
    rcases hcalled.sched (hmw.current.trans hs.current.symm)
      ((hmw.slice_eq hne).trans (hs.slice_eq hne).symm) with heq | hcalls
    · rw [heq]
      exact .pass
    · refine .call ?_ hcalls
      change s.current ≠ _
      rw [hs.current]
      exact hne

/-- What a run keeps. -/
structure Alive (cfg : Config) (s : KState) : Prop where
  heap : HeapWF cfg s
  allocated : Allocated cfg s
  caps : CapsAll ObjectCap s
  ready : Ready cfg s
  sliced : Sliced cfg s
  housed : Housed s

/-- New objects are apart from those that live. -/
theorem Alive.retypesApart (hs : Alive cfg s) {ev : Event}
    (hcond : ev.Meets cfg (GuardedWith cfg ResumeInactive) s) : ev.Meets cfg (RetypesApart cfg) s :=
  hs.allocated.meets_retypesApart hs.heap (hcond.mono fun _ _ _ _ h => h.1.retypeFits)

/-- A trap, up to the scheduler. -/
theorem Alive.moves (hsized : cfg.Sized) (hs : Alive cfg s) {regs : Registers} {u v : KState}
    (hen : (Event.trap regs).Enabled s)
    (hnew : (Event.trap regs).Meets cfg (RetypesApart cfg) s) (hentry : trapEntry regs s = .ok () u)
    (htrap : handleTrap cfg regs.scause.toNat u = .ok () v) :
    Sched.Moves cfg.idleThread s.sched (Event.trap regs).isTick v.sched ∧ Housed v := by
  obtain ⟨n, hpos, hle, hmeter⟩ := hs.sliced.exists_metered hs.heap
  have hmu := hmeter.trapEntry hentry
  obtain ⟨t, ht, hu⟩ := trapEntry_ok.1 hentry
  have hhoused : Housed u := hu ▸ hs.housed.of_eq rfl rfl
  have hsched : u.sched = s.sched := by
    rw [hu]
    exact KState.sched_setTcb ht rfl rfl
  rw [← hsched]
  rcases handleTrap_split htrap with ⟨hbit, htimer⟩ | ⟨hbit, hcause, hsys⟩
  · rw [hbit]
    refine ⟨moves_timerTick (hmu.sliced hpos hle) htimer, ?_⟩
    rcases timerTick_ok htimer with rfl | ⟨-, _, _, -, -, rfl⟩
    · exact hhoused
    · exact hhoused.of_eq rfl rfl
  · rw [hbit]
    have hready : Ready cfg u := hu ▸ hs.ready.trapEntry hen ht
    have hcaps : CapsAll ObjectCap u := hu ▸ hs.caps.setRegisters ht regs
    -- the idle thread runs in supervisor mode
    have htu : u.tcbs u.curRegBase = some { t with registers := regs } := by
      rw [hu]
      exact Function.update_self ..
    have hne : u.current ≠ cfg.idleThread := by
      rw [hready.regBase] at htu
      exact (hready.running_of_ecall htu (hen.2 hcause)).current_ne_idle
    refine moves_syscall hsized hmu (hmu.current ▸ hne) hcaps hhoused ?_ hsys
    intro t' invLabel inv ht' hcall hlabel hinv
    obtain rfl := Option.some.inj (htu.symm.trans ht')
    exact hnew _ _ _ _ ⟨rfl, hcause, hcall, hlabel, hentry, hinv⟩

/-! ## The turn -/

/-- `schedule` as a turn of the round robin. -/
theorem turns_schedule {u : Unit} (h : schedule cfg s = .ok u s') :
    Sched.Turns cfg.idleThread taskQuantum s.sched s'.sched := by
  have hset : ∀ {p : Nat} {t : ThreadInfo}, s.tcbs p = some t → ∀ st,
      {q | (s.setTcb p (t.setTimeout taskQuantum)).statusOf q = some st} =
        {q | s.statusOf q = some st} := by
    intro p t ht st
    exact congrArg (fun f : Nat → Option ThreadState => {q | f q = some st})
      (funext (KState.statusOf_setTcb_of_eq ht rfl))
  rcases schedule_cases h with ⟨hreq, rfl⟩ | ⟨hreq, next, rest, t, tc, r, a, hq, ht, htc, hr, rfl⟩ |
    ⟨hreq, hq, t, ht, ⟨hrun, rfl⟩ | ⟨hrun, a, rfl⟩⟩
  · exact .calm hreq
  · have hcur : tc.isRunnable = true ↔ s.current ∈ s.sched.runnable := by
      rw [isRunnable_iff htc, KState.statusOf_setTcb_of_eq (u := t.setTimeout taskQuantum) ht rfl]
      rfl
    have hnew : KState.sched { s.setTcb next (t.setTimeout taskQuantum) with
        runqueue := r, satp := a, curRegBase := next, current := next, requested := false } =
        { s.sched with ready := r, current := next, requested := false, slice := taskQuantum } := by
      refine Sched.ext (hset ht _) (hset ht _) rfl (KState.waiting_congr fun l hl => ?_) rfl rfl ?_
      · cases l with
        | run => exact absurd rfl hl
        | ep _ => rfl
        | ntfn _ => rfl
      · exact KState.slice_of_update (t := t.setTimeout taskQuantum) rfl
    rw [hnew, hr]
    by_cases hrun : tc.isRunnable = true
    · rw [if_pos hrun]
      exact .preempt hreq hq (hcur.1 hrun)
    · rw [if_neg hrun]
      exact .switch hreq hq fun h => hrun (hcur.2 h)
  · have hnew : (s.setTcb s.current (t.setTimeout taskQuantum)).sched =
        { s.sched with slice := taskQuantum } :=
      Sched.ext (hset ht _) (hset ht _) rfl rfl rfl rfl
        (KState.slice_of_update (t := t.setTimeout taskQuantum) rfl)
    rw [hnew]
    exact .again hreq hq ((isRunnable_iff ht).1 hrun)
  · refine Sched.Turns.sleep _ hreq hq fun h => ?_
    rw [(isRunnable_iff ht).2 h] at hrun
    cases hrun

theorem Housed.of_waiting (hs : Housed s) (hq : ∀ l, l ≠ .run → s'.queue l = s.queue l)
    (hobj : s'.objects = s.objects) : Housed s' := by
  intro l hne
  by_cases hl : l = .run
  · subst hl
    trivial
  · refine (hs l (hq l hl ▸ hne)).mono ?_
    rw [hobj]
    exact List.Subset.refl _

theorem Housed.schedule (hs : Housed s) {u : Unit} (h : schedule cfg s = .ok u s') :
    Housed s' := by
  rcases schedule_cases h with ⟨-, rfl⟩ | ⟨-, _, _, _, _, _, _, -, -, -, -, rfl⟩ |
    ⟨-, -, _, -, ⟨-, rfl⟩ | ⟨-, _, rfl⟩⟩
  · exact hs
  · refine hs.of_waiting (fun l hl => ?_) rfl
    cases l with
    | run => exact absurd rfl hl
    | ep _ => rfl
    | ntfn _ => rfl
  · exact hs.of_eq rfl rfl
  · exact hs.of_eq rfl rfl

/-! ## Runs -/

/-- **One event** is a step of the round robin. A store of a user program is none. -/
theorem Alive.sched_step (hsized : cfg.Sized) (hs : Alive cfg s) {ev : Event}
    (hcond : ev.Meets cfg (GuardedWith cfg ResumeInactive) s) (h : Step cfg s ev s') :
    ev.isTick = false ∧ s'.sched = s.sched ∨
      Sched.Step cfg.idleThread taskQuantum ev.isTick s.sched s'.sched := by
  cases ev with
  | store a w =>
    obtain rfl := modify_ok.1 h.2
    exact .inl ⟨rfl, rfl⟩
  | trap regs =>
    obtain ⟨u, v, hentry, htrap, hsched⟩ := step_parts h
    exact .inr ⟨v.sched, (hs.moves hsized h.1 (hs.retypesApart hcond) hentry htrap).1,
      turns_schedule hsched⟩

theorem Alive.step (hsized : cfg.Sized) (hs : Alive cfg s) {ev : Event}
    (hcond : ev.Meets cfg (GuardedWith cfg ResumeInactive) s) (h : Step cfg s ev s') :
    Alive cfg s' where
  heap := hs.heap.step h
  allocated := hs.allocated.step hs.heap (hcond.mono fun _ _ _ _ h => h.1.retypeFits) h
  caps := hs.caps.step objectCap_capRule (fun _ _ _ _ _ => mintKeeps_objectCap) h
  ready := hs.ready.step hs.heap hs.caps (hcond.mono fun _ _ _ _ h => h.2) (hs.retypesApart hcond) h
  sliced := hs.sliced.step hs.heap (hs.retypesApart hcond) h
  housed := by
    cases ev with
    | store a w =>
      obtain rfl := modify_ok.1 h.2
      exact hs.housed
    | trap regs =>
      obtain ⟨u, v, hentry, htrap, hsched⟩ := step_parts h
      exact (hs.moves hsized h.1 (hs.retypesApart hcond) hentry htrap).2.schedule hsched

/-! ## Boot -/

/-- Before the first thread is resumed: nobody can run, and nobody waits. -/
structure Asleep (s : KState) : Prop where
  queues : ∀ l, s.queue l = []
  status : ∀ p, s.statusOf p ≠ some .runnable ∧ s.statusOf p ≠ some .blocked

theorem Asleep.of_eq (hs : Asleep s) (hst : ∀ p, s'.statusOf p = s.statusOf p)
    (hq : s'.queue = s.queue) : Asleep s' :=
  ⟨fun l => hq ▸ hs.queues l, fun p => hst p ▸ hs.status p⟩

theorem Asleep.born (hs : Asleep s) (o : Object) : Asleep (s.born o) := by
  refine ⟨fun l => List.sublist_nil.1 (hs.queues l ▸ s.queue_born o l), fun p => ?_⟩
  have hst : (s.born o).statusOf p = some .inactive ∨ (s.born o).statusOf p = s.statusOf p := by
    rw [KState.statusOf, tcbs_born]
    split
    · exact .inl rfl
    · exact .inr rfl
  rcases hst with h | h
  · rw [h]
    decide
  · rw [h]
    exact hs.status p

theorem asleep_bootStable : BootStable cfg (fun _ _ _ => True) Asleep where
  toCapStable := .of_slots (fun _ _ hs => hs.of_eq (fun _ => rfl) rfl)
    (fun _ _ _ slot _ ht _ hs =>
      hs.of_eq (KState.statusOf_setTcb_of_eq ht (by cases slot <;> rfl)) rfl)
    fun _ o _ hs => hs.born o
  mem _ _ hs := hs.of_eq (fun _ => rfl) rfl
  root _ _ hs := hs.of_eq (fun _ => rfl) rfl
  regs _ _ _ _ _ ht _ hs := hs.of_eq (KState.statusOf_setTcb_of_eq ht rfl) rfl
  refill _ _ _ slot _ ht hs :=
    hs.of_eq (KState.statusOf_setTcb_of_eq ht (by cases slot <;> rfl)) rfl

/-- The end of boot: the first thread is resumed and scheduled. -/
theorem boot_asleep {image : Image} (h : Boot cfg image s) :
    ∃ thread s₃ s₄, thread ≠ cfg.idleThread ∧ Asleep s₃ ∧ resume thread s₃ = .ok () s₄ ∧
      schedule cfg { s₄ with requested := true } = .ok () s := by
  refine asleep_bootStable.toMapStable.boot asleep_bootStable .trivial (fun s s' u hs hidle => ?_)
    ⟨fun l => by cases l <;> rfl, fun p => ?_⟩ h
  · obtain ⟨t, ht, rfl⟩ := createIdleThread_ok.1 hidle
    exact hs.of_eq (KState.statusOf_setTcb_of_eq ht rfl) rfl
  · by_cases hp : p = cfg.idleThread <;>
      simp [KState.statusOf, KState.afterVmInit, KState.initial, ThreadInfo.idleInit, hp]

theorem alive_boot {image : Image} (h : Boot cfg image s) : Alive cfg s where
  heap := heapWF_boot h
  allocated := boot_allocated h
  caps := CapsAll.boot objectCap_capRule h
  ready := ready_boot h
  sliced := sliced_boot h
  housed := by
    obtain ⟨thread, s₃, s₄, -, hasleep, hres, hsched⟩ := boot_asleep h
    refine Housed.schedule (fun l hne => ?_) hsched
    obtain ⟨t, -, rfl⟩ := resume_ok.1 hres
    cases l with
    | run => trivial
    | ep a => exact absurd (hasleep.queues (.ep a)) hne
    | ntfn a => exact absurd (hasleep.queues (.ntfn a)) hne

theorem placed_boot {image : Image} (h : Boot cfg image s) : s.sched.Placed := by
  obtain ⟨thread, s₃, s₄, -, hasleep, hres, hsched⟩ := boot_asleep h
  obtain ⟨t, -, rfl⟩ := resume_ok.1 hres
  refine Sched.Placed.turns ⟨fun p hp => .inr ?_, fun p hp => ?_⟩ (turns_schedule hsched)
  all_goals
    have hp := (KState.statusOf_setTcb s₃ thread p t.resume).symm.trans hp
    split at hp
  · next heq =>
    subst heq
    exact List.mem_append_right _ (List.mem_singleton_self _)
  · exact absurd hp (hasleep.status p).1
  · cases hp
  · exact absurd hp (hasleep.status p).2

/-- The idle thread hands over to the first thread. -/
theorem current_boot {image : Image} (h : Boot cfg image s) : s.current ≠ cfg.idleThread := by
  obtain ⟨thread, s₃, s₄, hne, hasleep, hres, hsched⟩ := boot_asleep h
  obtain ⟨t, -, rfl⟩ := resume_ok.1 hres
  have hq : s₃.runqueue ++ [thread] = [thread] := congrArg (· ++ [thread]) (hasleep.queues .run)
  rcases schedule_cases hsched with ⟨hreq, -⟩ | ⟨-, next, rest, _, _, _, _, hnext, -, -, -, rfl⟩ |
    ⟨-, hnil, -⟩
  · cases hreq
  · obtain ⟨rfl, -⟩ := List.cons.inj (hq.symm.trans hnext)
    exact hne
  · cases hq.symm.trans hnil

theorem sound_boot {image : Image} (h : Boot cfg image s) :
    s.sched.Sound cfg.idleThread taskQuantum where
  rest hidle := absurd hidle (current_boot h)
  slice hne := by
    obtain ⟨t, ht, hslice⟩ := (sliced_boot h).resolve_left hne
    rw [← KState.slice_of_tcb ht] at hslice
    exact hslice
  ready := (ready_boot h).queued.idle_not_mem .run
  waiting l := by
    change cfg.idleThread ∉ update s.queue .run [] l
    by_cases hl : l = .run
    · rw [hl, Function.update_self]
      exact List.not_mem_nil
    · rw [Function.update_of_ne hl]
      exact (ready_boot h).queued.idle_not_mem l

/-! ## Whole runs -/

theorem alive_of_run {image : Image} {s₀ : KState} (hsized : cfg.Sized) (hboot : Boot cfg image s₀)
    (hrun : Run cfg (GuardedWith cfg ResumeInactive) s₀ s) : Alive cfg s := by
  refine run_invariant (P := Alive cfg) hrun (alive_boot hboot) ?_
  rintro u v hu ⟨ev, hcond, hstep⟩
  exact hu.step hsized hcond hstep

/-- **A run of the kernel is a run of the round robin.** -/
theorem sched_of_run {image : Image} {s₀ : KState} (hsized : cfg.Sized) (hboot : Boot cfg image s₀)
    (hrun : Run cfg (GuardedWith cfg ResumeInactive) s₀ s) :
    Sched.Runs cfg.idleThread taskQuantum s₀.sched s.sched := by
  induction hrun with
  | refl => exact .refl
  | tail hrun hstep ih =>
    obtain ⟨ev, hcond, hstep⟩ := hstep
    rcases (alive_of_run hsized hboot hrun).sched_step hsized hcond hstep with ⟨-, heq⟩ | hnext
    · rw [heq]
      exact ih
    · exact ih.tail ⟨_, hnext⟩

theorem placed_of_run {image : Image} {s₀ : KState} (hsized : cfg.Sized) (hboot : Boot cfg image s₀)
    (hrun : Run cfg (GuardedWith cfg ResumeInactive) s₀ s) : s.sched.Placed :=
  (placed_boot hboot).runs (sched_of_run hsized hboot hrun)

theorem sound_of_run {image : Image} {s₀ : KState} (hsized : cfg.Sized) (hboot : Boot cfg image s₀)
    (hrun : Run cfg (GuardedWith cfg ResumeInactive) s₀ s) :
    s.sched.Sound cfg.idleThread taskQuantum :=
  (sound_boot hboot).runs (by decide) (sched_of_run hsized hboot hrun)

end Zoeax
