import Zoeax.Intrusive.Refinement

/-!
# Threads with a link

`pop` leaves the link of the thread that it returns. So a thread that was not alone in its list
still has a link when it is woken, or when it runs. `wake_up_thread` and `block_thread` assert that
there is none: an invocation that wakes or blocks a thread with a link ends the kernel
(`ends_of_linked`). Two threads that wait at one object are enough. Then the next call that is to
wake one of them, a signal or the matching side of an IPC, ends the kernel (`ends_of_two_waiting`).
-/

namespace Zoeax

open Lib Exec
open Intrusive (onKernel)

/-- The kernel ends. -/
def Ends {α : Type} (r : EStateM.Result Stop ListState α) : Prop :=
  ∃ e t, r = .error e t ∧ e.Halts

variable {cfg : Config} {t t' : ListState} {α β : Type}

theorem Stop.halts_of_not_isErr {e : Stop} (h : ¬e.IsErr) : e.Halts := by
  cases e with
  | err e => exact absurd trivial h
  | halt e => exact ⟨e, rfl⟩

namespace Ends

theorem bind {x : LM α} {f : α → LM β} (h : Ends (x t)) : Ends ((x >>= f) t) := by
  obtain ⟨e, t', hx, he⟩ := h
  exact ⟨e, t', bind_error.2 (.inl hx), he⟩

theorem bind_of_ok {x : LM α} {f : α → LM β} {a : α} (hx : x t = .ok a t') (h : Ends (f a t')) :
    Ends ((x >>= f) t) := by
  rwa [Exec.bind_of_ok hx]

/-- Code that cannot answer `Err` returns or ends the kernel. -/
theorem onKernel_bind {x : KM α} (hx : NoErr x) {f : α → LM β}
    (hf : ∀ a k, x t.kernel = .ok a k → Ends (f a { t with kernel := k })) :
    Ends ((onKernel x >>= f) t) := by
  cases hk : x t.kernel with
  | ok a k => exact .bind_of_ok (onKernel_of_ok hk) (hf a k hk)
  | error e k =>
    refine .bind ⟨e, { t with kernel := k }, ?_, Stop.halts_of_not_isErr (hx hk)⟩
    rw [Intrusive.onKernel, hk]

theorem assertUnlinked {p : Nat} (hp : t.lists.next p ≠ none) :
    Ends (Intrusive.assertUnlinked p t) := by
  cases h : Intrusive.assertUnlinked p t with
  | ok u t' => exact absurd (assertUnlinked_ok.1 h).1 hp
  | error e t' =>
    refine ⟨e, t', rfl, ?_⟩
    change (if t.lists.nextIsNone p then pure () else throw panicked : LM Unit) t = _ at h
    split at h
    · cases h
    · obtain ⟨rfl, -⟩ := EStateM.Result.error.inj h
      exact ⟨_, rfl⟩

theorem wakeUpThread {p : Nat} (hp : t.lists.next p ≠ none) :
    Ends (Intrusive.wakeUpThread p t) := (assertUnlinked hp).bind

theorem blockThread {p : Nat} (hp : t.lists.next p ≠ none) :
    Ends (Intrusive.blockThread p t) := (assertUnlinked hp).bind

theorem catchErr {x : LM α} (h : Ends (x t)) : Ends (Intrusive.catchErr x t) := by
  obtain ⟨_, t', hx, e, rfl⟩ := h
  refine ⟨.halt e, t', ?_, e, rfl⟩
  rw [Intrusive.catchErr, hx]

end Ends

/-! ## Who is woken or blocked -/

/-- The thread that a call on an endpoint wakes or blocks: `st` is the state that the endpoint is in
when others wait for such a call. -/
def endpointAsserts (c : Lists Loc Nat) (caller ep : Nat) (st : EndpointState) (e : Endpoint) :
    Nat :=
  if e.epState = st then (c.lists (.ep ep)).head.getD caller else caller

/-- The thread that an invocation wakes or blocks. -/
def Invocation.asserts (inv : Invocation) (c : Lists Loc Nat) (u : KState) :
    InvLabel → CapabilityType → Option Nat
  | .notifySend, .notification => (c.lists (.ntfn (NotificationCap.getNotify inv.cap))).head
  | .notifyWait, .notification =>
    (u.notifications (NotificationCap.getNotify inv.cap)).bind fun n =>
      if n.bitIsSet then none else some inv.current
  | .epSend, .endPoint => (u.endpoints (EndPointCap.getEp inv.cap)).map
      (endpointAsserts c inv.current (EndPointCap.getEp inv.cap) .recv)
  | .epRecv, .endPoint => (u.endpoints (EndPointCap.getEp inv.cap)).map
      (endpointAsserts c inv.current (EndPointCap.getEp inv.cap) .send)
  | _, _ => none

theorem idleIfEmpty_links {a : Nat} {e : Endpoint} (he : t.kernel.endpoints a = some e) :
    ∃ k, Intrusive.Endpoint.idleIfEmpty a t = .ok () { t with kernel := k } := by
  rw [Intrusive.Endpoint.idleIfEmpty, bind_of_ok (get_ok.2 ⟨rfl, rfl⟩)]
  split
  · exact ⟨_, onKernel_of_ok (setEpState_of_some he .idel)⟩
  · exact ⟨t.kernel, rfl⟩

/-- `pop_from_queue` on the linked list: it returns the first thread if the endpoint is in the other
state, and leaves the links alone. -/
theorem popFromQueue_links {a : Nat} {e : Endpoint} (he : t.kernel.endpoints a = some e)
    (st : EndpointState) : ∃ t', Intrusive.Endpoint.popFromQueue a st t =
      .ok (if e.epState = .idel ∨ e.epState = st then none else (t.lists.lists (.ep a)).head) t' ∧
      t'.lists.next = t.lists.next := by
  have hget : onKernel (getEndpoint a) t = .ok e t :=
    onKernel_of_ok (lift_ok.2 ⟨getEndpoint_ok.2 he, rfl⟩)
  rw [Intrusive.Endpoint.popFromQueue, bind_of_ok hget,
    bind_of_ok (onKernel_of_ok (setEpState_of_some he _))]
  by_cases hst : e.epState = .idel ∨ e.epState = st
  · have : (if e.epState = .idel then st else e.epState) = st := by
      rcases hst with h | h <;> simp [h]
    rw [if_pos this, if_pos hst]
    exact ⟨_, rfl, rfl⟩
  · have : (if e.epState = .idel then st else e.epState) ≠ st := by
      rw [if_neg fun h => hst (.inl h)]
      exact fun h => hst (.inr h)
    rw [if_neg this, if_neg hst]
    obtain ⟨k, hidle⟩ := idleIfEmpty_links (a := a)
      (t := ⟨t.kernel.setEndpoint a _, (t.lists.pop (.ep a)).2⟩)
      (KState.endpoints_setEndpoint_self ..)
    exact ⟨_, (bind_of_ok rfl).trans (bind_of_ok hidle), rfl⟩

namespace Ends

/-- `send` and `recv`. -/
theorem exchange {a caller : Nat} {e : Endpoint} (he : t.kernel.endpoints a = some e)
    (st other : EndpointState) (hst : e.epState = other ↔ ¬(e.epState = .idel ∨ e.epState = st))
    (hp : t.lists.next (endpointAsserts t.lists caller a other e) ≠ none)
    (sender receiver : Nat → Nat) :
    Ends ((do
        match ← Intrusive.Endpoint.popFromQueue a st with
        | some p => do
          onKernel (Endpoint.transfer (sender p) (receiver p))
          Intrusive.wakeUpThread p
          return false
        | none => do
          Intrusive.Endpoint.enqueue a caller
          return true : LM Bool) t) := by
  obtain ⟨t₁, hpop, hnext⟩ := popFromQueue_links he st
  refine .bind_of_ok hpop ?_
  rw [← hnext] at hp
  have hblock : t₁.lists.next caller ≠ none → Ends ((do
      Intrusive.Endpoint.enqueue a caller
      return true : LM Bool) t₁) := fun h => (blockThread h).bind.bind
  rw [endpointAsserts] at hp
  by_cases h : e.epState = other
  · rw [if_pos h] at hp
    rw [if_neg (hst.1 h)]
    cases hhead : (t.lists.lists (.ep a)).head with
    | none =>
      rw [hhead] at hp
      exact hblock hp
    | some p =>
      rw [hhead] at hp
      exact .onKernel_bind (noErr_transfer ..) fun _ _ _ => .bind (wakeUpThread hp)
  · rw [if_neg h] at hp
    rw [if_pos (not_not.1 fun hn => h (hst.2 hn))]
    exact hblock hp

theorem sendSignal {a p : Nat} {val : UInt64} (hhead : (t.lists.lists (.ntfn a)).head = some p)
    (hp : t.lists.next p ≠ none) : Ends (Intrusive.Notification.sendSignal a val t) := by
  refine .onKernel_bind (noErr_deref _) fun n k _ => ?_
  have hpop : Intrusive.popFrom (.ntfn a) { t with kernel := k } =
      .ok (some p) ⟨k, (t.lists.pop (.ntfn a)).2⟩ := by
    rw [← hhead]
    rfl
  refine .bind_of_ok hpop ?_
  exact .onKernel_bind (noErr_updateTcb ..) fun _ _ _ => wakeUpThread hp

theorem waitSignal {a caller : Nat} {n : Notification} (hn : t.kernel.notifications a = some n)
    (hbit : n.bitIsSet = false) (hp : t.lists.next caller ≠ none) :
    Ends (Intrusive.Notification.waitSignal a caller t) := by
  refine .bind_of_ok (onKernel_of_ok (lift_ok.2 ⟨getNotification_ok.2 hn, rfl⟩)) ?_
  rw [if_neg (by simp [hbit])]
  exact (blockThread hp).bind

/-- The invocations. -/
theorem invoke {invLabel : InvLabel} {reg : Registers} {inv : Invocation} {k : CapabilityType}
    {p : Nat} (hp : inv.asserts t.lists t.kernel invLabel k = some p)
    (hlink : t.lists.next p ≠ none) :
    Ends (Intrusive.invoke cfg invLabel reg inv k t) := by
  unfold Invocation.asserts at hp
  split at hp
  · exact (sendSignal hp hlink).bind
  · obtain ⟨n, hn, hp⟩ := Option.bind_eq_some_iff.1 hp
    split at hp
    · cases hp
    · next hbit =>
      obtain rfl := Option.some.inj hp
      exact (waitSignal hn (by simpa using hbit) hlink).bind
  · obtain ⟨e, he, rfl⟩ := Option.map_eq_some_iff.1 hp
    refine .bind (.onKernel_bind (noErr_updateTcb ..) fun _ k hk => ?_)
    obtain ⟨th, -, rfl⟩ := updateTcb_ok.1 hk
    exact exchange (t := ⟨t.kernel.setTcb inv.current _, t.lists⟩) he .send .recv
      (by cases e.epState <;> simp) hlink (fun _ => inv.current) id
  · obtain ⟨e, he, rfl⟩ := Option.map_eq_some_iff.1 hp
    exact .bind
      (exchange he .recv .send (by cases e.epState <;> simp) hlink id fun _ => inv.current)
  · cases hp

end Ends

/-- **An invocation that wakes or blocks a thread with a link ends the kernel.** -/
theorem ends_of_linked {regs : Registers} {invLabel : InvLabel} {u : KState} {inv : Invocation}
    {k : CapabilityType} {p : Nat} (hinv : Invokes cfg t.kernel (.trap regs) invLabel regs u inv)
    (hk : inv.cap.getCapType = .ok k) (hp : inv.asserts t.lists u invLabel k = some p)
    (hlink : t.lists.next p ≠ none) : Ends (Intrusive.exec cfg (.trap regs) t) := by
  obtain ⟨-, hcause, hcall, hl, hentry, hfound⟩ := hinv
  obtain ⟨th, -, hu⟩ := trapEntry_ok.1 hentry
  have hth : u.tcbs u.curRegBase = some { th with registers := regs } := by
    rw [hu]
    exact Function.update_self ..
  refine .bind (.bind_of_ok (onKernel_of_ok hentry) ?_)
  rw [hcause, show Intrusive.handleTrap cfg ecallUser = Intrusive.handleSyscall cfg from rfl]
  refine .bind_of_ok (get_ok.2 ⟨rfl, rfl⟩)
    (.bind_of_ok (onKernel_of_ok (lift_ok.2 ⟨getTcb_ok.2 hth, rfl⟩)) (.bind (.catchErr ?_)))
  rw [Intrusive.dispatchSyscall, hl]
  dsimp only
  rw [if_neg hcall]
  exact .bind_of_ok (onKernel_of_ok (lift_ok.2 ⟨hfound, rfl⟩))
    (.bind_of_ok (onKernel_of_ok (liftExcept_ok.2 ⟨hk, rfl⟩)) (.invoke hp hlink))

/-! ## Two threads that wait -/

/-- The list that an invocation takes a thread out of, to wake it. -/
def Invocation.wakesFrom (inv : Invocation) (u : KState) : InvLabel → CapabilityType → Option Loc
  | .notifySend, .notification => some (.ntfn (NotificationCap.getNotify inv.cap))
  | .epSend, .endPoint =>
    if (u.endpoints (EndPointCap.getEp inv.cap)).any (·.epState = .recv) then
      some (.ep (EndPointCap.getEp inv.cap))
    else none
  | .epRecv, .endPoint =>
    if (u.endpoints (EndPointCap.getEp inv.cap)).any (·.epState = .send) then
      some (.ep (EndPointCap.getEp inv.cap))
    else none
  | _, _ => none

/-- It is the first thread of that list that is woken. -/
theorem asserts_of_wakesFrom {inv : Invocation} {c : Lists Loc Nat} {u : KState}
    {invLabel : InvLabel} {k : CapabilityType} {l : Loc} {p : Nat}
    (hl : inv.wakesFrom u invLabel k = some l)
    (hp : (c.lists l).head = some p) : inv.asserts c u invLabel k = some p := by
  have hep : ∀ {st ep}, (u.endpoints ep).any (·.epState = st) = true →
      (c.lists (.ep ep)).head = some p →
      (u.endpoints ep).map (endpointAsserts c inv.current ep st) = some p := by
    intro st ep hst hhead
    obtain ⟨e, he, hst⟩ := (Option.any_eq_true ..).1 hst
    rw [he, Option.map_some, endpointAsserts, if_pos (of_decide_eq_true hst), hhead,
      Option.getD_some]
  unfold Invocation.wakesFrom at hl
  split at hl
  · obtain rfl := Option.some.inj hl
    exact hp
  · split at hl
    · next hst =>
      obtain rfl := Option.some.inj hl
      exact hep hst hp
    · cases hl
  · split at hl
    · next hst =>
      obtain rfl := Option.some.inj hl
      exact hep hst hp
    · cases hl
  · cases hl

/-- **Two threads that wait at one object end the kernel.** In every run from boot, the call that is
to wake the first of them panics: a signal, a send to an endpoint at which receivers wait, or a
receive from one at which senders wait. -/
theorem ends_of_two_waiting {image : Image} {s₀ : KState} (hboot : Boot cfg image s₀)
    (hrun : ListRun cfg (Intrusive.booted s₀) t) :
    ∃ q, t.lists.Reads q (· = .run) ∧ ∀ regs invLabel u inv k l p p' rest,
      Invokes cfg t.kernel (.trap regs) invLabel regs u inv → inv.cap.getCapType = .ok k →
      inv.wakesFrom u invLabel k = some l → q l = p :: p' :: rest →
      Ends (Intrusive.exec cfg (.trap regs) t) := by
  obtain ⟨s, -, h⟩ := tracks_of_listRun hboot hrun
  refine ⟨s.queue, h.reads, fun regs invLabel u inv k l p p' rest hinv hk hl hq => ?_⟩
  have hhead : (t.lists.lists l).head = some p := by rw [h.reads.head, hq, List.head?_cons]
  have hlink : t.lists.next p = some p' :=
    h.reads.next (l := l) (i := 0) (by simp [hq]) (by simp [hq])
  refine ends_of_linked hinv hk (asserts_of_wakesFrom hl hhead) ?_
  rw [hlink]
  exact Option.some_ne_none p'

/-- A list with two ends has a second item. -/
theorem Lists.Reads.two_of_ends {ι α : Type} {c : Lists ι α} {q : ι → List α} {F : ι → Prop}
    (h : c.Reads q F) {l : ι} {x y : α} (hx : (c.lists l).head = some x)
    (hy : (c.lists l).last = some y) (hne : x ≠ y) : ∃ z rest, q l = x :: z :: rest := by
  rw [h.head] at hx
  rw [h.last] at hy
  rcases hq : q l with _ | ⟨a, _ | ⟨b, rest⟩⟩
  · rw [hq] at hx
    cases hx
  · rw [hq] at hx hy
    exact absurd (Option.some.inj (hx.symm.trans hy)) hne
  · rw [hq] at hx
    obtain rfl := Option.some.inj hx
    exact ⟨b, rest, rfl⟩

/-- The root server makes two threads and a notification. It waits, and so does the first thread;
when the second one signals, the kernel ends. -/
theorem ends_after_two_waits : ∃ s₀ t, Boot .virt demoImage s₀ ∧
    ListRun .virt (Intrusive.booted s₀) t ∧
    Ends (Intrusive.exec .virt (.trap (ecallRegs 21 18 8)) t) := by
  obtain ⟨s₀, t, hboot, hrun, htest⟩ := exists_listRun .virt demoImage
    [.trap { ecallRegs 9 18 2 with a3 := 2, a4 := 18 + 19 * 2 ^ 32, a5 := 1, a6 := 3 },
      .trap { ecallRegs 9 18 2 with a3 := 2, a4 := 18 + 20 * 2 ^ 32, a5 := 1, a6 := 3 },
      .trap { ecallRegs 9 18 2 with a3 := 2, a4 := 18 + 21 * 2 ^ 32, a5 := 1, a6 := 9 },
      .trap { ecallRegs 19 18 3 with a3 := 2, a4 := 18, a5 := 3, a6 := 18 },
      .trap { ecallRegs 20 18 3 with a3 := 2, a4 := 18, a5 := 3, a6 := 18 },
      .trap (ecallRegs 19 18 5), .trap (ecallRegs 21 18 7),
      .trap (ecallRegs 20 18 5), .trap (ecallRegs 21 18 7)]
    (fun s₀ t => ((Event.trap (ecallRegs 21 18 8)).invocation? .virt t.kernel).any fun x =>
      x.2.2.2.cap.getCapType = .ok .notification &&
      (x.2.2.2.wakesFrom x.2.2.1 x.1 .notification).any fun l =>
        (t.lists.lists l).head = some s₀.current &&
        (t.lists.lists l).last.any fun p => s₀.current ≠ p) (by decide +kernel)
  obtain ⟨⟨invLabel, regs, u, inv⟩, hinv, htest⟩ := (Option.any_eq_true ..).1 htest
  obtain ⟨hk, htest⟩ := Bool.and_eq_true_iff.1 htest
  obtain ⟨l, hl, htest⟩ := (Option.any_eq_true ..).1 htest
  obtain ⟨hhead, htest⟩ := Bool.and_eq_true_iff.1 htest
  obtain ⟨p, hlast, hne⟩ := (Option.any_eq_true ..).1 htest
  have hinvokes := Event.invokes_of_eval hinv
  obtain rfl : ecallRegs 21 18 8 = regs := by
    have := hinvokes.event
    injection this
  obtain ⟨q, hreads, hends⟩ := ends_of_two_waiting hboot hrun
  obtain ⟨z, rest, hq⟩ :=
    hreads.two_of_ends (of_decide_eq_true hhead) hlast (of_decide_eq_true hne)
  exact ⟨s₀, t, hboot, hrun, hends _ _ _ _ _ _ _ _ _ hinvokes (of_decide_eq_true hk) hl hq⟩

end Zoeax
