import Zoeax.Lib.Waiting
import Zoeax.Verify.Threads

/-!
# Rendezvous at an endpoint

One queue and one state byte serve senders and receivers. The threads that wait at an endpoint are
those of an abstract rendezvous (`Serves`), and a call takes the step of the rendezvous
(`Serves.exec`), as a system call on the endpoint does (`Serves.handleSyscall`). From there, for
every sequence of calls on an endpoint, with anything in between that leaves the endpoint and the
threads in its queue alone: the `k`-th `EpSend` is met by the `k`-th `EpRecv`
(`rendezvous_of_calls`).
-/

namespace Zoeax

open Lib Exec

variable {cfg : Config} {s s' : KState} {ep : Nat}

/-! ## Calls -/

inductive IpcRole where
  | sender
  | receiver
deriving DecidableEq, Repr

/-- `EpSend` or `EpRecv` by a thread, on a capability. -/
structure IpcCall where
  role : IpcRole
  thread : Nat
  cap : CapabilityData

namespace IpcCall

def invLabel (c : IpcCall) : InvLabel :=
  match c.role with
  | .sender => .epSend
  | .receiver => .epRecv

/-- `EndPointCap::send` or `recv`: whether the caller blocks. -/
def op (c : IpcCall) : KM Bool :=
  match c.role with
  | .sender => EndPointCap.send c.cap c.thread
  | .receiver => EndPointCap.recv c.cap c.thread

theorem invokeEndPoint_eq (c : IpcCall) : invokeEndPoint c.invLabel c.thread c.cap = (do
    let blocked ← c.op
    scheduleIf blocked
    return none) := by
  obtain ⟨role, thread, cap⟩ := c
  cases role <;> rfl

/-- The call, and the return of `handle_syscall` to the caller. -/
def exec (cfg : Config) (c : IpcCall) : KM Bool := do
  let blocked ← c.op
  scheduleIf blocked
  returnSyscall cfg c.thread (.ok none)
  return blocked

/-- The caller is a thread that does not wait at the endpoint. -/
structure Valid (ep : Nat) (s : KState) (c : IpcCall) : Prop where
  target : EndPointCap.getEp c.cap = ep
  live : ∃ t, s.tcbs c.thread = some t
  free : c.thread ∉ s.queue (.ep ep)

/-- A sender with the badge of the capability that it invoked, or a receiver. -/
def request (c : IpcCall) : (Nat × UInt64) ⊕ Nat :=
  match c.role with
  | .sender => .inl (c.thread, c.cap.getBadge)
  | .receiver => .inr c.thread

/-- The state of an endpoint at which such calls wait. -/
def epState (c : IpcCall) : EndpointState :=
  match c.role with
  | .sender => .send
  | .receiver => .recv

/-- The caller, when its call arrives at the endpoint. -/
def arrive (c : IpcCall) (t : ThreadInfo) : ThreadInfo :=
  match c.role with
  | .sender => { t with badge := c.cap.getBadge }
  | .receiver => t

/-- The sender and the receiver, when the call is met by `partner`. -/
def ends (c : IpcCall) (partner : Nat) : Nat × Nat :=
  match c.role with
  | .sender => (c.thread, partner)
  | .receiver => (partner, c.thread)

end IpcCall

/-! ## What a call does -/

/-- Every IPC buffer is a page. -/
def KState.BuffersLive (s : KState) : Prop :=
  ∀ p t f, s.tcbs p = some t → t.ipcBufferRef = some f → s.isObject .page f = true

theorem KState.setTcb_eq_self {p : Nat} {t : ThreadInfo} (ht : s.tcbs p = some t) :
    s.setTcb p t = s := by
  rw [setTcb, ← ht, Function.update_eq_self]

/-- The memory after `set_ipc_msg`. -/
def KState.withMessage (s : KState) : Option Nat → Option Nat → KState
  | some src, some dst => s.copyMem dst src (8 * ipcBufferWords)
  | _, _ => s

/-- The state after a message of `ts` went to the thread `receiver`. -/
def KState.handedOver (s : KState) (ts : ThreadInfo) (receiver : Nat) (tr : ThreadInfo) : KState :=
  (s.withMessage ts.ipcBufferRef tr.ipcBufferRef).setTcb receiver (tr.setA1 ts.badge)

@[simp] theorem KState.tcbs_withMessage (s : KState) (src dst : Option Nat) :
    (s.withMessage src dst).tcbs = s.tcbs := by
  cases src <;> cases dst <;> rfl

@[simp] theorem KState.endpoints_withMessage (s : KState) (src dst : Option Nat) :
    (s.withMessage src dst).endpoints = s.endpoints := by
  cases src <;> cases dst <;> rfl

@[simp] theorem KState.objects_withMessage (s : KState) (src dst : Option Nat) :
    (s.withMessage src dst).objects = s.objects := by
  cases src <;> cases dst <;> rfl

theorem transfer_eq (hs : s.BuffersLive) {sender receiver : Nat} {ts tr : ThreadInfo}
    (hts : s.tcbs sender = some ts) (htr : s.tcbs receiver = some tr) :
    Endpoint.transfer sender receiver s = .ok () (s.handedOver ts receiver tr) := by
  refine bind_ok.2 ⟨ts, s, lift_ok.2 ⟨getTcb_ok.2 hts, rfl⟩, ?_⟩
  refine bind_ok.2 ⟨(), s.withMessage ts.ipcBufferRef tr.ipcBufferRef, ?_, ?_⟩
  · refine bind_ok.2 ⟨tr, s, lift_ok.2 ⟨getTcb_ok.2 htr, rfl⟩, ?_⟩
    cases hdst : tr.ipcBufferRef with
    | none => cases ts.ipcBufferRef <;> rfl
    | some dst =>
      cases hsrc : ts.ipcBufferRef with
      | none => rfl
      | some src =>
        refine bind_ok.2 ⟨s, s, get_ok.2 ⟨rfl, rfl⟩, ?_⟩
        rw [hs _ _ _ hts hsrc, hs _ _ _ htr hdst]
        rfl
  · exact updateTcb_ok.2 ⟨tr, by rwa [KState.tcbs_withMessage], rfl⟩

namespace IpcCall

/-- `Endpoint::send` or `recv`. -/
def meet (c : IpcCall) : KM Bool :=
  match c.role with
  | .sender => Endpoint.send (EndPointCap.getEp c.cap) c.thread
  | .receiver => Endpoint.recv (EndPointCap.getEp c.cap) c.thread

theorem op_eq (c : IpcCall) {t : ThreadInfo} (ht : s.tcbs c.thread = some t) :
    c.op s = c.meet (s.setTcb c.thread (c.arrive t)) := by
  obtain ⟨role, thread, cap⟩ := c
  cases role with
  | sender =>
    have h : updateTcb thread (fun t => { t with badge := cap.getBadge }) s = .ok () _ :=
      updateTcb_ok.2 ⟨t, ht, rfl⟩
    change EStateM.bind (updateTcb thread _) _ s = _
    rw [EStateM.bind, h]
    rfl
  | receiver =>
    rw [arrive, KState.setTcb_eq_self ht]
    rfl

/-- The caller blocks when `pop_from_queue` returns nobody. -/
theorem meet_blocks (c : IpcCall) {t : ThreadInfo} {e e' : Endpoint} (ht : s.tcbs c.thread = some t)
    (htarget : EndPointCap.getEp c.cap = ep) (he : s.endpoints ep = some e)
    (hpop : e.popFromQueue c.epState = (none, e')) :
    c.meet s = .ok true (((s.setEndpoint ep e').setTcb c.thread t.suspend).setEndpoint ep
      { e' with queue := e'.queue ++ [c.thread] }) := by
  obtain ⟨role, thread, cap⟩ := c
  have henqueue : Endpoint.enqueue ep thread (s.setEndpoint ep e') =
      .ok () (((s.setEndpoint ep e').setTcb thread t.suspend).setEndpoint ep
        { e' with queue := e'.queue ++ [thread] }) :=
    bind_ok.2 ⟨(), _, updateTcb_ok.2 ⟨t, ht, rfl⟩, bind_ok.2 ⟨e', _,
      lift_ok.2 ⟨getEndpoint_ok.2 (KState.endpoints_setEndpoint_self ..), rfl⟩, rfl⟩⟩
  subst htarget
  have hread := lift_ok.2 ⟨getEndpoint_ok.2 he, rfl⟩
  cases role <;> refine bind_ok.2 ⟨e, s, hread, bind_ok.2 ⟨(), _, rfl, ?_⟩⟩ <;>
  · simp only [epState] at hpop
    rw [hpop]
    exact bind_ok.2 ⟨(), _, henqueue, rfl⟩

/-- The caller is met by the thread that `pop_from_queue` returns. -/
theorem meet_pairs (c : IpcCall) {partner : Nat} {ts tr tp : ThreadInfo} {e e' : Endpoint}
    {v : KState} (hs : s.BuffersLive) (htarget : EndPointCap.getEp c.cap = ep)
    (he : s.endpoints ep = some e) (hpop : e.popFromQueue c.epState = (some partner, e'))
    (hts : s.tcbs (c.ends partner).1 = some ts) (htr : s.tcbs (c.ends partner).2 = some tr)
    (hv : v = (s.setEndpoint ep e').handedOver ts (c.ends partner).2 tr)
    (htp : v.tcbs partner = some tp) :
    c.meet s = .ok false
      { v.setTcb partner tp.resume with runqueue := v.runqueue ++ [partner] } := by
  obtain ⟨role, thread, cap⟩ := c
  have hwake : wakeUpThread partner v =
      .ok () { v.setTcb partner tp.resume with runqueue := v.runqueue ++ [partner] } :=
    resume_ok.2 ⟨tp, htp, rfl⟩
  have htransfer := transfer_eq (s := s.setEndpoint ep e') hs hts htr
  rw [← hv] at htransfer
  subst htarget
  have hread := lift_ok.2 ⟨getEndpoint_ok.2 he, rfl⟩
  cases role <;> refine bind_ok.2 ⟨e, s, hread, bind_ok.2 ⟨(), _, rfl, ?_⟩⟩ <;>
  · simp only [epState] at hpop
    rw [hpop]
    exact bind_ok.2 ⟨(), v, htransfer, bind_ok.2 ⟨(), _, hwake, rfl⟩⟩

end IpcCall

/-! ## The abstract rendezvous -/

/-- Senders with their badges, and receivers. -/
abbrev Waiting := Rendezvous (Nat × UInt64) Nat

namespace Waiting

/-- The threads that wait, first come first. -/
def threads (w : Waiting) : List Nat := w.senders.map Prod.fst ++ w.receivers

/-- The state of an endpoint at which they wait. -/
def epState (w : Waiting) : EndpointState :=
  match w.senders, w.receivers with
  | _ :: _, _ => .send
  | [], _ :: _ => .recv
  | [], [] => .idel

/-- **`pop_from_queue` and the rendezvous agree.** Either nobody waits in the opposite role and the
caller will wait, or the call is met by the first thread in the queue. -/
theorem pop_cases (w : Waiting) (c : IpcCall) :
    (∃ w' : Waiting, w.step c.request = (w', none) ∧
      (⟨w.epState, w.threads⟩ : Endpoint).popFromQueue c.epState = (none, ⟨c.epState, w.threads⟩) ∧
      w'.epState = c.epState ∧ w'.threads = w.threads ++ [c.thread] ∧
      ∀ a ∈ w'.senders, a ∈ w.senders ∨ c.request = .inl a) ∨
    ∃ (w' : Waiting) (a : Nat × UInt64) (b partner : Nat), w.step c.request = (w', some (a, b)) ∧
      (⟨w.epState, w.threads⟩ : Endpoint).popFromQueue c.epState =
        (some partner, ⟨w'.epState, w'.threads⟩) ∧
      w.threads = partner :: w'.threads ∧ c.ends partner = (a.1, b) ∧
      (a ∈ w.senders ∨ c.request = .inl a) ∧ ∀ x ∈ w'.senders, x ∈ w.senders := by
  obtain ⟨role, thread, cap⟩ := c
  obtain ⟨senders, receivers, hone⟩ := w
  cases role with
  | sender =>
    cases receivers with
    | nil =>
      refine .inl ⟨_, rfl, ?_, ?_, ?_, ?_⟩
      · cases senders <;> rfl
      · cases senders <;> rfl
      · simp [threads]
      · intro a ha
        rcases List.mem_append.1 ha with ha | ha
        · exact .inl ha
        · exact .inr (by rw [List.mem_singleton.1 ha]; rfl)
    | cons b bs =>
      obtain rfl : senders = [] := hone.resolve_right nofun
      refine .inr ⟨_, _, _, b, rfl, ?_, rfl, rfl, .inr rfl, nofun⟩
      cases bs <;> rfl
  | receiver =>
    cases senders with
    | nil =>
      refine .inl ⟨_, rfl, ?_, ?_, ?_, nofun⟩
      · cases receivers <;> rfl
      · cases receivers <;> rfl
      · simp [threads]
    | cons a as =>
      obtain rfl : receivers = [] := hone.resolve_left nofun
      refine .inr ⟨_, _, _, a.1, rfl, ?_, rfl, rfl, .inl (List.mem_cons_self ..),
        fun x hx => List.mem_cons_of_mem _ hx⟩
      cases as <;> rfl

end Waiting

/-- The threads in the queue of the endpoint are those that wait in the rendezvous. -/
structure Serves (ep : Nat) (w : Waiting) (s : KState) : Prop where
  endpoint : s.endpoints ep = some ⟨w.epState, w.threads⟩
  nodup : w.threads.Nodup
  blocked : ∀ p ∈ w.threads, ∃ t, s.tcbs p = some t ∧ t.status = .blocked
  badge : ∀ a ∈ w.senders, ∃ t, s.tcbs a.1 = some t ∧ t.badge = a.2
  buffers : s.BuffersLive

/-- The state in which a call is over, from the one in which the endpoint is done: only the caller's
registers change, and not its `a1`. -/
structure Returned (thread : Nat) (s s' : KState) : Prop where
  endpoints : s'.endpoints = s.endpoints
  mem : s'.mem = s.mem
  objects : s'.objects = s.objects
  other : ∀ p ≠ thread, s'.tcbs p = s.tcbs p
  caller : ∃ t regs, s.tcbs thread = some t ∧ s'.tcbs thread = some { t with registers := regs } ∧
    regs.a1 = t.registers.a1

theorem IpcCall.exec_ok {c : IpcCall} {b : Bool} (h : c.exec cfg s = .ok b s') :
    ∃ s₁, c.op s = .ok b s₁ ∧ Returned c.thread s₁ s' := by
  simp only [exec, bind_ok, returnSyscall_ok, pure_ok] at h
  obtain ⟨b, s₁, hop, _, s₂, hsched, _, _, ⟨t, sepc, ht, -, rfl⟩, rfl, rfl⟩ := h
  have hs₂ : ∃ r, s₂ = { s₁ with requested := r } := by
    cases b with
    | true => exact ⟨true, (modify_ok.1 hsched).symm⟩
    | false => exact ⟨s₁.requested, (pure_ok.1 hsched).2.symm⟩
  obtain ⟨r, rfl⟩ := hs₂
  refine ⟨s₁, hop, rfl, rfl, rfl, fun p hp => ?_, t,
    { t.registers.setResult (.ok none) with sepc := UInt64.ofNat sepc }, ht, ?_, rfl⟩
  · exact (KState.tcbs_setTcb ..).trans (if_neg hp)
  · exact (KState.tcbs_setTcb ..).trans (if_pos rfl)

/-- The thread is the same up to registers. -/
theorem Returned.tcb {thread : Nat} (h : Returned thread s s') {p : Nat} {t : ThreadInfo}
    (ht : s.tcbs p = some t) :
    ∃ regs, s'.tcbs p = some { t with registers := regs } ∧ regs.a1 = t.registers.a1 := by
  by_cases hp : p = thread
  · subst hp
    obtain ⟨t', regs, ht', heq, ha1⟩ := h.caller
    obtain rfl := Option.some.inj (ht.symm.trans ht')
    exact ⟨regs, heq, ha1⟩
  · exact ⟨t.registers, (h.other p hp).trans ht, rfl⟩

/-- No thread changed its IPC buffer. -/
theorem KState.BuffersLive.mono (hs : s.BuffersLive) (hobj : s'.objects = s.objects)
    (htcbs : ∀ p t', s'.tcbs p = some t' → ∃ t, s.tcbs p = some t ∧ t'.ipcBuffer = t.ipcBuffer) :
    s'.BuffersLive := by
  intro p t' f ht' hf
  obtain ⟨t, ht, heq⟩ := htcbs p t' ht'
  rw [ThreadInfo.ipcBufferRef, heq] at hf
  rw [isObject, hobj]
  exact hs p t f ht hf

theorem KState.BuffersLive.setTcb (hs : s.BuffersLive) {p : Nat} {t t' : ThreadInfo}
    (ht : s.tcbs p = some t) (heq : t'.ipcBuffer = t.ipcBuffer) : (s.setTcb p t').BuffersLive := by
  refine hs.mono rfl fun q t'' hq => ?_
  rw [tcbs_setTcb] at hq
  split at hq
  · next h =>
    obtain rfl := Option.some.inj hq
    exact ⟨t, h ▸ ht, heq⟩
  · exact ⟨t'', hq, rfl⟩

theorem Serves.returned {w : Waiting} {thread : Nat} (hs : Serves ep w s)
    (h : Returned thread s s') : Serves ep w s' where
  endpoint := h.endpoints ▸ hs.endpoint
  nodup := hs.nodup
  blocked p hp := by
    obtain ⟨t, ht, hst⟩ := hs.blocked p hp
    obtain ⟨regs, ht', -⟩ := h.tcb ht
    exact ⟨_, ht', hst⟩
  badge a ha := by
    obtain ⟨t, ht, hbadge⟩ := hs.badge a ha
    obtain ⟨regs, ht', -⟩ := h.tcb ht
    exact ⟨_, ht', hbadge⟩
  buffers := by
    refine hs.buffers.mono h.objects fun p t' ht' => ?_
    by_cases hp : p = thread
    · subst hp
      obtain ⟨t, regs, ht, heq, -⟩ := h.caller
      obtain rfl := Option.some.inj (heq.symm.trans ht')
      exact ⟨t, ht, rfl⟩
    · exact ⟨t', (h.other p hp).symm.trans ht', rfl⟩

/-! ## The outcome of a call -/

/-- The message of `sender` reached `receiver`. -/
structure Received (sender receiver : Nat) (badge : UInt64) (s s' : KState) : Prop where
  a1 : ∃ t, s'.tcbs receiver = some t ∧ t.registers.a1 = badge
  buffer : ∀ ts tr src dst, s.tcbs sender = some ts → s.tcbs receiver = some tr →
    ts.ipcBufferRef = some src → tr.ipcBufferRef = some dst →
    ∀ i < ipcBufferWords, s'.mem (dst + 8 * i) = s.mem (src + 8 * i)

/-- The caller waits at the end of the queue, or it was met by the first thread of the queue, which
left the queue and is runnable. -/
inductive IpcCall.Outcome (ep : Nat) (c : IpcCall) (s s' : KState) :
    Option ((Nat × UInt64) × Nat) → Bool → Prop
  | blocks : s'.queue (.ep ep) = s.queue (.ep ep) ++ [c.thread] →
      s'.statusOf c.thread = some .blocked → Outcome ep c s s' none true
  | pairs {sender partner receiver : Nat} {badge : UInt64} :
      c.ends partner = (sender, receiver) → s.queue (.ep ep) = partner :: s'.queue (.ep ep) →
      partner ∉ s'.queue (.ep ep) → s'.statusOf partner = some .runnable →
      Received sender receiver badge s s' →
      Outcome ep c s s' (some ((sender, badge), receiver)) false

section Call

variable {w : Waiting} {c : IpcCall} {t : ThreadInfo}

/-- The caller is in no queue, so its arrival changes nothing there; its badge is the one of the
capability that it invoked. -/
theorem Serves.arrive (hs : Serves ep w s) (hfree : c.thread ∉ w.threads)
    (ht : s.tcbs c.thread = some t) :
    Serves ep w (s.setTcb c.thread (c.arrive t)) ∧
    ∀ a, a ∈ w.senders ∨ c.request = .inl a →
      ∃ t', (s.setTcb c.thread (c.arrive t)).tcbs a.1 = some t' ∧ t'.badge = a.2 := by
  have hother : ∀ p ∈ w.threads, (s.setTcb c.thread (c.arrive t)).tcbs p = s.tcbs p := by
    intro p hp
    rw [KState.tcbs_setTcb, if_neg]
    rintro rfl
    exact hfree hp
  have hsender : ∀ a ∈ w.senders, ∃ t', (s.setTcb c.thread (c.arrive t)).tcbs a.1 = some t' ∧
      t'.badge = a.2 := by
    intro a ha
    rw [hother a.1 (List.mem_append_left _ (List.mem_map_of_mem ha))]
    exact hs.badge a ha
  refine ⟨⟨hs.endpoint, hs.nodup, fun p hp => ?_, hsender, hs.buffers.setTcb ht ?_⟩, ?_⟩
  · rw [hother p hp]
    exact hs.blocked p hp
  · obtain ⟨role, thread, cap⟩ := c
    cases role <;> rfl
  · rintro a (ha | ha)
    · exact hsender a ha
    · obtain ⟨role, thread, cap⟩ := c
      cases role with
      | sender =>
        obtain rfl := Sum.inl.inj ha
        exact ⟨_, (KState.tcbs_setTcb ..).trans (if_pos rfl), rfl⟩
      | receiver => cases ha

/-- The caller joins the queue. -/
theorem Serves.blocks (hs : Serves ep w s) (hfree : c.thread ∉ w.threads)
    (ht : s.tcbs c.thread = some t) {w' : Waiting} (hstate : w'.epState = c.epState)
    (hthreads : w'.threads = w.threads ++ [c.thread])
    (hbadge : ∀ a ∈ w'.senders, ∃ t, s.tcbs a.1 = some t ∧ t.badge = a.2) :
    Serves ep w' (((s.setEndpoint ep ⟨c.epState, w.threads⟩).setTcb c.thread t.suspend).setEndpoint
      ep ⟨c.epState, w.threads ++ [c.thread]⟩) where
  endpoint := by rw [KState.endpoints_setEndpoint_self, hstate, hthreads]
  nodup := by
    rw [hthreads]
    exact hs.nodup.append (List.nodup_singleton _) (by simpa using hfree)
  blocked p hp := by
    change ∃ t', (s.setTcb c.thread t.suspend).tcbs p = some t' ∧ _
    rw [KState.tcbs_setTcb]
    split
    · exact ⟨_, rfl, rfl⟩
    · next hne =>
      rw [hthreads, List.mem_append, List.mem_singleton] at hp
      exact hs.blocked p (hp.resolve_right hne)
  badge a ha := by
    obtain ⟨ta, hta, hb⟩ := hbadge a ha
    change ∃ t', (s.setTcb c.thread t.suspend).tcbs a.1 = some t' ∧ _
    rw [KState.tcbs_setTcb]
    split
    · next h =>
      rw [h] at hta
      obtain rfl := Option.some.inj (ht.symm.trans hta)
      exact ⟨_, rfl, hb⟩
    · exact ⟨ta, hta, hb⟩
  buffers := hs.buffers.setTcb ht rfl

/-- The state after a call was met: `v` is the one after the message. -/
theorem Serves.pairs (hs : Serves ep w s) {w' : Waiting} {partner sender receiver : Nat}
    {ts tr tp : ThreadInfo} {v : KState} (hthreads : w.threads = partner :: w'.threads)
    (hends : c.ends partner = (sender, receiver)) (hfree : c.thread ∉ w.threads)
    (hsenders : ∀ x ∈ w'.senders, x ∈ w.senders) (htr : s.tcbs receiver = some tr)
    (hv : v = (s.setEndpoint ep ⟨w'.epState, w'.threads⟩).handedOver ts receiver tr)
    (htp : v.tcbs partner = some tp) :
    Serves ep w' { v.setTcb partner tp.resume with runqueue := v.runqueue ++ [partner] } := by
  have hmem : ∀ p ∈ w'.threads, p ∈ w.threads := fun p hp => hthreads ▸ List.mem_cons_of_mem _ hp
  have hpartner : partner ∉ w'.threads := (List.nodup_cons.1 (hthreads ▸ hs.nodup)).1
  have hreceiver : receiver ∉ w'.threads := by
    obtain ⟨role, thread, cap⟩ := c
    cases role with
    | sender =>
      obtain ⟨-, rfl⟩ := Prod.mk.inj hends
      exact hpartner
    | receiver =>
      obtain ⟨-, rfl⟩ := Prod.mk.inj hends
      exact fun h => hfree (hmem _ h)
  have hvt : ∀ p, v.tcbs p = if p = receiver then some (tr.setA1 ts.badge) else s.tcbs p := by
    intro p
    rw [hv, KState.handedOver, KState.tcbs_setTcb, KState.tcbs_withMessage]
    rfl
  have hother : ∀ p ∈ w'.threads, (v.setTcb partner tp.resume).tcbs p = s.tcbs p := by
    intro p hp
    rw [KState.tcbs_setTcb, if_neg (by rintro rfl; exact hpartner hp), hvt,
      if_neg (by rintro rfl; exact hreceiver hp)]
  have hbuffers : v.BuffersLive := by
    refine hs.buffers.mono ?_ fun p t' ht' => ?_
    · rw [hv]
      exact KState.objects_withMessage ..
    · rw [hvt] at ht'
      split at ht'
      · next h =>
        obtain rfl := Option.some.inj ht'
        exact ⟨tr, h ▸ htr, rfl⟩
      · exact ⟨t', ht', rfl⟩
  refine ⟨?_, (List.nodup_cons.1 (hthreads ▸ hs.nodup)).2, fun p hp => ?_, fun a ha => ?_,
    hbuffers.setTcb htp rfl⟩
  · change v.endpoints ep = _
    rw [hv, KState.handedOver]
    change (KState.withMessage ..).endpoints ep = _
    rw [KState.endpoints_withMessage, KState.endpoints_setEndpoint_self]
  · obtain ⟨t, ht, hst⟩ := hs.blocked p (hmem p hp)
    exact ⟨t, (hother p hp).trans ht, hst⟩
  · obtain ⟨t, ht, hb⟩ := hs.badge a (hsenders a ha)
    exact ⟨t, (hother a.1 (List.mem_append_left _ (List.mem_map_of_mem ha))).trans ht, hb⟩

/-- The message is handed over, the partner wakes up, and the call returns. -/
theorem received_of_pairs {sender receiver partner thread : Nat} {ts tr tp : ThreadInfo}
    {e : Endpoint} {v : KState} (hts : s.tcbs sender = some ts) (htr : s.tcbs receiver = some tr)
    (hv : v = (s.setEndpoint ep e).handedOver ts receiver tr) (htp : v.tcbs partner = some tp)
    (hret : Returned thread
      { v.setTcb partner tp.resume with runqueue := v.runqueue ++ [partner] } s') :
    Received sender receiver ts.badge s s' := by
  have hvr : v.tcbs receiver = some (tr.setA1 ts.badge) := by
    rw [hv, KState.handedOver, KState.tcbs_setTcb, if_pos rfl]
  refine ⟨?_, fun ts' tr' src dst hts' htr' hsrc hdst i hi => ?_⟩
  · have hwoken : ∃ t, (v.setTcb partner tp.resume).tcbs receiver = some t ∧
        t.registers.a1 = ts.badge := by
      rw [KState.tcbs_setTcb]
      split
      · next h =>
        subst h
        obtain rfl := Option.some.inj (htp.symm.trans hvr)
        exact ⟨_, rfl, rfl⟩
      · exact ⟨_, hvr, rfl⟩
    obtain ⟨t, ht, ha1⟩ := hwoken
    obtain ⟨regs, ht', hregs⟩ := hret.tcb ht
    exact ⟨_, ht', hregs.trans ha1⟩
  · obtain rfl := Option.some.inj (hts.symm.trans hts')
    obtain rfl := Option.some.inj (htr.symm.trans htr')
    rw [hret.mem]
    change v.mem _ = _
    rw [hv, KState.handedOver, hsrc, hdst]
    refine (if_pos (by omega)).trans ?_
    rw [Nat.add_sub_cancel_left]
    rfl

theorem Received.of_arrive {sender receiver : Nat} {badge : UInt64}
    (h : Received sender receiver badge (s.setTcb c.thread (c.arrive t)) s')
    (ht : s.tcbs c.thread = some t) : Received sender receiver badge s s' := by
  have hsame : ∀ p t', s.tcbs p = some t' → ∃ t'',
      (s.setTcb c.thread (c.arrive t)).tcbs p = some t'' ∧ t''.ipcBufferRef = t'.ipcBufferRef := by
    intro p t' hp
    rw [KState.tcbs_setTcb]
    split
    · next hpc =>
      rw [hpc] at hp
      obtain rfl := Option.some.inj (ht.symm.trans hp)
      refine ⟨_, rfl, ?_⟩
      obtain ⟨role, thread, cap⟩ := c
      cases role <;> rfl
    · exact ⟨t', hp, rfl⟩
  refine ⟨h.a1, fun ts tr src dst hts htr hsrc hdst i hi => ?_⟩
  obtain ⟨ts', hts', hsrc'⟩ := hsame _ _ hts
  obtain ⟨tr', htr', hdst'⟩ := hsame _ _ htr
  exact h.buffer ts' tr' src dst hts' htr' (hsrc'.trans hsrc) (hdst'.trans hdst) i hi

/-- **A call takes the step of the rendezvous**, and returns. -/
theorem Serves.op (hs : Serves ep w s) (hc : c.Valid ep s) :
    ∃ b s₁, c.op s = .ok b s₁ ∧ Serves ep (w.step c.request).1 s₁ ∧
      ∀ s', Returned c.thread s₁ s' → c.Outcome ep s s' (w.step c.request).2 b := by
  obtain ⟨htarget, ⟨t, ht⟩, hfree⟩ := hc
  rw [KState.queue_ep hs.endpoint] at hfree
  obtain ⟨hs', hbadge⟩ := hs.arrive hfree ht
  have hcaller : (s.setTcb c.thread (c.arrive t)).tcbs c.thread = some (c.arrive t) :=
    (KState.tcbs_setTcb ..).trans (if_pos rfl)
  rw [c.op_eq ht]
  rcases w.pop_cases c with ⟨w', hstep, hpop, hstate, hthreads, hsenders⟩ |
    ⟨w', a, b, partner, hstep, hpop, hthreads, hends, ha, hsenders⟩
  · -- nobody waits in the opposite role
    refine ⟨true, _, c.meet_blocks hcaller htarget hs'.endpoint hpop, ?_⟩
    have hserves := hs'.blocks hfree hcaller hstate hthreads
      fun a ha => hbadge a (hsenders a ha)
    rw [hstep]
    refine ⟨hserves, fun s' hret => .blocks ?_ ?_⟩
    · rw [KState.queue_ep hs.endpoint, KState.queue_ep (hserves.returned hret).endpoint, hthreads]
    · obtain ⟨t', ht', hst⟩ := (hserves.returned hret).blocked c.thread
        (by rw [hthreads]; exact List.mem_append_right _ (List.mem_singleton_self _))
      rw [KState.statusOf, ht', Option.map_some, hst]
  · -- the first thread of the queue is in the opposite role
    obtain ⟨tp, htp, -⟩ := hs'.blocked partner (hthreads ▸ List.mem_cons_self ..)
    obtain ⟨ts, hts, hbadge⟩ := hbadge a ha
    have hreceiver : ∃ tr, (s.setTcb c.thread (c.arrive t)).tcbs b = some tr := by
      obtain ⟨role, thread, cap⟩ := c
      cases role with
      | sender =>
        obtain ⟨-, rfl⟩ := Prod.mk.inj hends
        exact ⟨tp, htp⟩
      | receiver =>
        obtain ⟨-, rfl⟩ := Prod.mk.inj hends
        exact ⟨_, hcaller⟩
    obtain ⟨tr, htr⟩ := hreceiver
    obtain ⟨v, hv⟩ : ∃ v, v = ((s.setTcb c.thread (c.arrive t)).setEndpoint ep
      ⟨w'.epState, w'.threads⟩).handedOver ts b tr := ⟨_, rfl⟩
    have hvt : ∃ tv, v.tcbs partner = some tv := by
      rw [hv, KState.handedOver, KState.tcbs_setTcb, KState.tcbs_withMessage]
      split
      · exact ⟨_, rfl⟩
      · exact ⟨tp, htp⟩
    obtain ⟨tv, htv⟩ := hvt
    refine ⟨false, _, c.meet_pairs hs'.buffers htarget hs'.endpoint hpop (by rwa [hends])
      (by rwa [hends]) (by rwa [hends]) htv, ?_⟩
    have hserves := hs'.pairs hthreads hends hfree hsenders htr hv htv
    rw [hstep]
    refine ⟨hserves, fun s' hret => ?_⟩
    have hqueue : s'.queue (.ep ep) = w'.threads :=
      KState.queue_ep (hserves.returned hret).endpoint
    refine .pairs hends ?_ ?_ ?_ ?_
    · rw [KState.queue_ep hs.endpoint, hthreads, hqueue]
    · rw [hqueue]
      exact (List.nodup_cons.1 (hthreads ▸ hs.nodup)).1
    · have hwoken : (v.setTcb partner tv.resume).tcbs partner = some tv.resume :=
        (KState.tcbs_setTcb ..).trans (if_pos rfl)
      obtain ⟨regs, ht', -⟩ := hret.tcb hwoken
      rw [KState.statusOf, ht']
      rfl
    · exact hbadge ▸ (received_of_pairs hts htr hv htv hret).of_arrive ht

end Call

/-! ## Sequences of calls -/

/-- The message that a call handed over, if it did not block: the sender with the badge that the
receiver sees, and the receiver. -/
def IpcCall.observed (ep : Nat) (c : IpcCall) (blocked : Bool) (s s' : KState) :
    List ((Nat × UInt64) × Nat) :=
  if blocked then []
  else (s.queue (.ep ep)).head?.toList.map fun partner =>
    (((c.ends partner).1, s'.a1Of (c.ends partner).2), (c.ends partner).2)

theorem IpcCall.Outcome.observed {c : IpcCall} {pair : Option ((Nat × UInt64) × Nat)} {b : Bool}
    (h : c.Outcome ep s s' pair b) : c.observed ep b s s' = pair.toList := by
  cases h with
  | blocks => rfl
  | pairs hends hqueue _ _ hreceived =>
    obtain ⟨t, ht, ha1⟩ := hreceived.a1
    rw [IpcCall.observed, hqueue]
    simp [hends, KState.a1Of, ht, ha1]

/-- Whatever else happens leaves the endpoint and the threads in its queue alone, and gives threads
only pages as IPC buffers. -/
structure Undisturbed (ep : Nat) (s s' : KState) : Prop where
  endpoint : s'.endpoints ep = s.endpoints ep
  threads : ∀ p ∈ s.queue (.ep ep), s'.tcbs p = s.tcbs p
  buffers : s.BuffersLive → s'.BuffersLive

/-- Calls on an endpoint by threads that do not wait there, and the messages that they handed
over. -/
inductive Calls (cfg : Config) (ep : Nat) :
    KState → List IpcCall → List ((Nat × UInt64) × Nat) → KState → Prop
  | nil (s : KState) : Calls cfg ep s [] [] s
  | call {s s₁ s₂ : KState} {c : IpcCall} {cs : List IpcCall} {ms : List ((Nat × UInt64) × Nat)}
      {blocked : Bool} : c.Valid ep s → c.exec cfg s = .ok blocked s₁ → Calls cfg ep s₁ cs ms s₂ →
      Calls cfg ep s (c :: cs) (c.observed ep blocked s s₁ ++ ms) s₂
  | other {s s₁ s₂ : KState} {cs : List IpcCall} {ms : List ((Nat × UInt64) × Nat)} :
      Undisturbed ep s s₁ → Calls cfg ep s₁ cs ms s₂ → Calls cfg ep s cs ms s₂

theorem Serves.exec {w : Waiting} {c : IpcCall} {b : Bool} (hs : Serves ep w s)
    (hc : c.Valid ep s) (h : c.exec cfg s = .ok b s') :
    Serves ep (w.step c.request).1 s' ∧ c.Outcome ep s s' (w.step c.request).2 b := by
  obtain ⟨b', s₁, hop, hserves, houtcome⟩ := hs.op hc
  obtain ⟨s₂, hop', hret⟩ := IpcCall.exec_ok h
  obtain ⟨rfl, rfl⟩ := EStateM.Result.ok.inj (hop.symm.trans hop')
  exact ⟨hserves.returned hret, houtcome s' hret⟩

/-- What a system call of the running thread reads from its registers: the label, and the endpoint
capability that it invokes. -/
structure IpcCall.Requested (cfg : Config) (s : KState) (c : IpcCall) (regs : Registers) :
    Prop where
  call : regs.a7.toNat ≠ sysCallNoPrint
  label : InvLabel.ofUsize? regs.a2.toNat = some c.invLabel
  found : ∃ inv, findInvocation cfg regs.a0.toNat regs.a1.toNat s = .ok inv ∧
    inv.current = c.thread ∧ inv.cap = c.cap
  capType : c.cap.getCapType = .ok .endPoint

theorem IpcCall.Requested.dispatchSyscall {c : IpcCall} {regs : Registers}
    (h : c.Requested cfg s regs) :
    dispatchSyscall cfg regs s = invokeEndPoint c.invLabel c.thread c.cap s := by
  obtain ⟨inv, hfound, hcurrent, hcap⟩ := h.found
  have hinvoke : (do
      let capType ← inv.cap.getCapType
      invoke cfg c.invLabel regs inv capType : KM (Option Nat)) s =
      invokeEndPoint c.invLabel c.thread c.cap s := by
    rw [hcap, h.capType]
    change invokeEndPoint c.invLabel inv.current inv.cap s = _
    rw [hcurrent, hcap]
  simp only [Zoeax.dispatchSyscall, h.label, if_neg h.call, handleInvocation]
  exact (lift_bind_of_ok hfound).trans hinvoke

/-- **A system call on the endpoint takes the step of the rendezvous.** -/
theorem Serves.handleSyscall {w : Waiting} {c : IpcCall} {t : ThreadInfo} (hs : Serves ep w s)
    (hc : c.Valid ep s) (hbase : s.curRegBase = c.thread) (ht : s.tcbs c.thread = some t)
    (hreq : c.Requested cfg s t.registers) (h : handleSyscall cfg s = .ok () s') :
    Serves ep (w.step c.request).1 s' ∧ ∃ b, c.Outcome ep s s' (w.step c.request).2 b := by
  obtain ⟨b, s₁, hop, -⟩ := hs.op hc
  have hcall : dispatchSyscall cfg t.registers s = (do
      let blocked ← c.op
      scheduleIf blocked
      return none) s := by
    rw [hreq.dispatchSyscall, c.invokeEndPoint_eq]
  simp only [Zoeax.handleSyscall, bind_ok, get_ok, lift_ok, getTcb_ok] at h
  obtain ⟨_, _, ⟨rfl, rfl⟩, t', _, ⟨ht', rfl⟩, ret, s₃, hcatch, hret⟩ := h
  rw [hbase] at ht' hret
  obtain rfl := Option.some.inj (ht.symm.trans ht')
  obtain ⟨s₂, hsched⟩ : ∃ s₂, scheduleIf b s₁ = .ok () s₂ := by
    cases b with
    | true => exact ⟨_, rfl⟩
    | false => exact ⟨_, rfl⟩
  have hnone : dispatchSyscall cfg t.registers s = .ok none s₂ :=
    hcall.trans (bind_ok.2 ⟨b, s₁, hop, bind_ok.2 ⟨(), s₂, hsched, rfl⟩⟩)
  rw [catchErr, hnone] at hcatch
  obtain ⟨rfl, rfl⟩ := EStateM.Result.ok.inj hcatch
  have hexec : c.exec cfg s = .ok b s' :=
    bind_ok.2 ⟨b, s₁, hop, bind_ok.2 ⟨(), s₂, hsched, bind_ok.2 ⟨(), s', hret, rfl⟩⟩⟩
  obtain ⟨hserves, houtcome⟩ := hs.exec hc hexec
  exact ⟨hserves, b, houtcome⟩

theorem Serves.undisturbed {w : Waiting} (hs : Serves ep w s) (h : Undisturbed ep s s') :
    Serves ep w s' := by
  have hsame : ∀ p ∈ w.threads, s'.tcbs p = s.tcbs p := fun p hp =>
    h.threads p (by rwa [KState.queue_ep hs.endpoint])
  refine ⟨h.endpoint.trans hs.endpoint, hs.nodup, fun p hp => ?_, fun a ha => ?_,
    h.buffers hs.buffers⟩
  · rw [hsame p hp]
    exact hs.blocked p hp
  · rw [hsame a.1 (List.mem_append_left _ (List.mem_map_of_mem ha))]
    exact hs.badge a ha

/-- **The endpoint runs the rendezvous.** -/
theorem Serves.calls {w : Waiting} {cs : List IpcCall} {ms : List ((Nat × UInt64) × Nat)}
    (hs : Serves ep w s) (h : Calls cfg ep s cs ms s') :
    Serves ep (w.run (cs.map IpcCall.request)).1 s' ∧ ms = (w.run (cs.map IpcCall.request)).2 := by
  induction h generalizing w with
  | nil s => exact ⟨hs, rfl⟩
  | call hc hexec _ ih =>
    obtain ⟨hs₁, houtcome⟩ := hs.exec hc hexec
    obtain ⟨hs₂, hms⟩ := ih hs₁
    refine ⟨hs₂, ?_⟩
    rw [houtcome.observed, hms]
    rfl
  | other hother _ ih => exact ih (hs.undisturbed hother)

theorem serves_new (h : s.endpoints ep = some .new) (hbuffers : s.BuffersLive) :
    Serves ep .empty s := ⟨h, List.nodup_nil, nofun, nofun, hbuffers⟩

/-- **Rendezvous.** After any sequence of calls on a new endpoint, with the `EpSend`s and the
`EpRecv`s each in their order: the messages handed over are the pairs of the two sequences, the rest
of the longer one waits, the state says which it is, and the next call returns and is either met by
the longest-waiting thread or waits itself. -/
theorem rendezvous_of_calls {s₀ : KState} {cs : List IpcCall} {ms : List ((Nat × UInt64) × Nat)}
    (hnew : s₀.endpoints ep = some .new) (hbuffers : s₀.BuffersLive)
    (h : Calls cfg ep s₀ cs ms s) :
    let sends := lefts (cs.map IpcCall.request)
    let recvs := rights (cs.map IpcCall.request)
    ms = sends.zip recvs ∧
    ∃ w : Waiting, w.senders = sends.drop recvs.length ∧ w.receivers = recvs.drop sends.length ∧
      (∃ e, s.endpoints ep = some e ∧ e.queue = w.senders.map Prod.fst ++ w.receivers ∧
        (e.epState = .idel ↔ e.queue = []) ∧
        (e.epState = .send ↔ e.queue ≠ [] ∧ e.queue = w.senders.map Prod.fst) ∧
        (e.epState = .recv ↔ e.queue ≠ [] ∧ e.queue = w.receivers)) ∧
      (∀ p ∈ s.queue (.ep ep), s.statusOf p = some .blocked) ∧
      ∀ c : IpcCall, c.Valid ep s → (∃ b s₁, c.op s = .ok b s₁) ∧
        ∀ b s', c.exec cfg s = .ok b s' → c.Outcome ep s s' (w.step c.request).2 b := by
  intro sends recvs
  obtain ⟨hs, hms⟩ := (serves_new hnew hbuffers).calls h
  obtain ⟨hpairs, hsenders, hreceivers⟩ :=
    Rendezvous.run_eq (.empty : Waiting) (cs.map IpcCall.request)
  refine ⟨hms.trans hpairs, _, hsenders, hreceivers, ⟨_, hs.endpoint, rfl, ?_⟩, fun p hp => ?_,
    fun c hc => ⟨?_, fun b s' hexec => (hs.exec hc hexec).2⟩⟩
  · generalize (Rendezvous.run (.empty : Waiting) (cs.map IpcCall.request)).1 = w
    obtain ⟨senders, receivers, hone⟩ := w
    cases senders with
    | nil => cases receivers <;> simp [Waiting.epState, Waiting.threads]
    | cons a as =>
      obtain rfl : receivers = [] := hone.resolve_left nofun
      simp [Waiting.epState, Waiting.threads]
  · rw [KState.queue_ep hs.endpoint] at hp
    obtain ⟨t, ht, hst⟩ := hs.blocked p hp
    rw [KState.statusOf, ht, Option.map_some, hst]
  · obtain ⟨b, s₁, hop, -⟩ := hs.op hc
    exact ⟨b, s₁, hop⟩

instance IpcCall.decidableValid (c : IpcCall) : Decidable (c.Valid ep s) :=
  decidable_of_iff (EndPointCap.getEp c.cap = ep ∧ (s.tcbs c.thread).isSome = true ∧
      c.thread ∉ s.queue (.ep ep))
    ⟨fun h => ⟨h.1, Option.isSome_iff_exists.1 h.2.1, h.2.2⟩,
      fun h => ⟨h.target, Option.isSome_iff_exists.2 h.live, h.free⟩⟩

/-- The calls one after the other. -/
def callTrace (cfg : Config) (ep : Nat) : List IpcCall → KM (List ((Nat × UInt64) × Nat))
  | [] => return []
  | c :: cs => do
    let s ← get
    if c.Valid ep s then
      let blocked ← c.exec cfg
      let s₁ ← get
      let ms ← callTrace cfg ep cs
      return c.observed ep blocked s s₁ ++ ms
    else throw undefinedAccess

theorem calls_of_callTrace {cs : List IpcCall} {ms : List ((Nat × UInt64) × Nat)}
    (h : callTrace cfg ep cs s = .ok ms s') : Calls cfg ep s cs ms s' := by
  induction cs generalizing s ms with
  | nil =>
    obtain ⟨rfl, rfl⟩ := pure_ok.1 h
    exact .nil s
  | cons c cs ih =>
    obtain ⟨_, _, hget, h⟩ := bind_ok.1 h
    obtain ⟨rfl, rfl⟩ := get_ok.1 hget
    split at h
    · next hvalid =>
      simp only [bind_ok, get_ok, pure_ok] at h
      obtain ⟨b, s₁, hexec, _, _, ⟨rfl, rfl⟩, ms', s₂, hrest, rfl, rfl⟩ := h
      exact .call hvalid hexec (ih hrest)
    · cases h

/-- An endpoint capability with badge 7. -/
def demoEndPointCap : CapabilityData := .new .endPoint 0x80000000 7

/-- A thread with an IPC buffer. -/
def withIpcBuffer (frame : Nat) : ThreadInfo := { ipcBuffer := some ⟨.new .page frame 0, ⟨0, 0⟩⟩ }

/-- A new endpoint and three threads: 1 and 2 have IPC buffers, with 42 in that of thread 1. -/
def ipcDemo : KState :=
  let s := { KState.initial .virt with
    objects := [⟨.page, 0x80001000, 0, 4096⟩, ⟨.page, 0x80002000, 0, 4096⟩] }
  ((((s.setWord 0x80001000 42).setTcb 1 (withIpcBuffer 0x80001000)).setTcb 2
    (withIpcBuffer 0x80002000)).setTcb 3 {}).setEndpoint (EndPointCap.getEp demoEndPointCap) .new

/-- Threads 2 and 3 wait for a message; thread 1 sends one, which is in the buffer of thread 2, and
thread 3 still waits. -/
theorem rendezvous_of_three_calls : ∃ s ms,
    Calls .virt (EndPointCap.getEp demoEndPointCap) ipcDemo [⟨.receiver, 2, demoEndPointCap⟩,
      ⟨.receiver, 3, demoEndPointCap⟩, ⟨.sender, 1, demoEndPointCap⟩] ms s ∧
    ms = [((1, 7), 2)] ∧ s.mem 0x80002000 = 42 ∧
    ∃ e, s.endpoints (EndPointCap.getEp demoEndPointCap) = some e ∧ e.queue = [3] := by
  have htest : endsIn (callTrace .virt (EndPointCap.getEp demoEndPointCap)
      [⟨.receiver, 2, demoEndPointCap⟩, ⟨.receiver, 3, demoEndPointCap⟩,
        ⟨.sender, 1, demoEndPointCap⟩] ipcDemo) (fun s => s.mem 0x80002000 = 42) = true := by
    decide +kernel
  obtain ⟨ms, s, htrace, hmem⟩ := exists_of_endsIn htest
  have hcalls := calls_of_callTrace htrace
  have hbuffers : ipcDemo.BuffersLive := by
    intro p t f ht hf
    simp only [ipcDemo, KState.initial, KState.setWord, KState.setEndpoint, KState.tcbs_setTcb,
      Function.update_apply] at ht
    split_ifs at ht <;> cases ht <;> cases hf <;> decide +kernel
  obtain ⟨hms, w, hsenders, hreceivers, ⟨e, he, hqueue, -⟩, -⟩ :=
    rendezvous_of_calls rfl hbuffers hcalls
  refine ⟨s, ms, hcalls, hms, of_decide_eq_true hmem, e, he, ?_⟩
  rw [hqueue, hsenders, hreceivers]
  rfl

end Zoeax
