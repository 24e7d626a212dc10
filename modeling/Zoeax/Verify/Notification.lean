import Zoeax.Lib.Waiting
import Zoeax.Verify.Threads

/-!
# Signals of a notification

A notification keeps signals for the next wait, or waits for the next signal; never both. What it
keeps is the abstract `Signals` (`Holds`), and a call takes the step of it (`Holds.exec`). From
there, for every sequence of `send_signal` and `wait_signal` on a notification: every signal is part
of what exactly one completed wait returns, and waits complete in their order
(`conservation_of_signals`).
-/

namespace Zoeax

open Lib Exec

variable {s s' : KState} {ntfn : Nat}

/-- The disjunction of the values. -/
def orAll (vs : List UInt64) : UInt64 := vs.foldl (· ||| ·) 0

@[simp] theorem orAll_nil : orAll [] = 0 := rfl

theorem foldl_or (a : UInt64) (vs : List UInt64) : vs.foldl (· ||| ·) a = a ||| orAll vs := by
  induction vs generalizing a with
  | nil => simp
  | cons v vs ih =>
    rw [orAll, List.foldl_cons, List.foldl_cons, ih, ih, UInt64.zero_or, UInt64.or_assoc]

theorem orAll_append (us vs : List UInt64) : orAll (us ++ vs) = orAll us ||| orAll vs := by
  rw [orAll, List.foldl_append, foldl_or]
  rfl

theorem orAll_flatMap {α : Type} (gs : List (α × List UInt64)) :
    orAll (gs.flatMap Prod.snd) = orAll (gs.map fun g => orAll g.2) := by
  induction gs with
  | nil => rfl
  | cons g gs ih =>
    rw [List.flatMap_cons, orAll_append, ih, List.map_cons, ← List.singleton_append, orAll_append]
    simp [orAll]

/-! ## Calls -/

/-- `send_signal` with a value, or `wait_signal` by a thread. -/
inductive SignalCall where
  | send (val : UInt64)
  | wait (thread : Nat)

namespace SignalCall

/-- The call on the notification at `ntfn`: whether the caller blocks. -/
def exec (ntfn : Nat) : SignalCall → KM Bool
  | send val => do
    Notification.sendSignal ntfn val
    return false
  | wait thread => Notification.waitSignal ntfn thread

/-- The thread that waits exists. -/
def Valid (s : KState) : SignalCall → Prop
  | send _ => True
  | wait thread => ∃ t, s.tcbs thread = some t

def request : SignalCall → UInt64 ⊕ Nat
  | send val => .inl val
  | wait thread => .inr thread

/-- The wait that a call completed, with the `a1` that its thread sees. -/
def completed (ntfn : Nat) (blocked : Bool) (s s' : KState) : SignalCall → List (Nat × UInt64)
  | send _ => (s.queue (.ntfn ntfn)).head?.toList.map fun p => (p, s'.a1Of p)
  | wait thread => if blocked then [] else [(thread, s'.a1Of thread)]

end SignalCall

/-! ## The abstract signals -/

/-- The notification has the signals that are kept, and the threads that wait. -/
structure Holds (ntfn : Nat) (w : Signals UInt64 Nat) (s : KState) : Prop where
  notification : s.notifications ntfn = some ⟨orAll w.kept, w.takers, !w.kept.isEmpty⟩
  live : ∀ p ∈ w.takers, ∃ t, s.tcbs p = some t

/-- What a call does: the wait that it completes, if any, has everything that was kept, or the one
signal that woke it. -/
inductive SignalCall.Outcome (ntfn : Nat) (s s' : KState) :
    SignalCall → Option (Nat × List UInt64) → Bool → Prop
  | keeps {val : UInt64} : s.queue (.ntfn ntfn) = [] → s'.queue (.ntfn ntfn) = [] →
      Outcome ntfn s s' (.send val) none false
  | wakes {val : UInt64} {p : Nat} : s.queue (.ntfn ntfn) = p :: s'.queue (.ntfn ntfn) →
      s'.statusOf p = some .runnable → s'.a1Of p = val →
      Outcome ntfn s s' (.send val) (some (p, [val])) false
  | takes {thread : Nat} {vs : List UInt64} : s'.a1Of thread = orAll vs →
      Outcome ntfn s s' (.wait thread) (some (thread, vs)) false
  | waits {thread : Nat} : s'.queue (.ntfn ntfn) = s.queue (.ntfn ntfn) ++ [thread] →
      s'.statusOf thread = some .blocked → Outcome ntfn s s' (.wait thread) none true

theorem SignalCall.Outcome.completed {c : SignalCall} {r : Option (Nat × List UInt64)} {b : Bool}
    (h : c.Outcome ntfn s s' r b) :
    c.completed ntfn b s s' = r.toList.map fun g => (g.1, orAll g.2) := by
  cases h with
  | keeps hq => simp [SignalCall.completed, hq]
  | wakes hq _ ha1 => simp [SignalCall.completed, hq, ha1, orAll]
  | takes ha1 => simp [SignalCall.completed, ha1]
  | waits => simp [SignalCall.completed]

namespace Holds

variable {w : Signals UInt64 Nat}

theorem queue (hs : Holds ntfn w s) : s.queue (.ntfn ntfn) = w.takers :=
  KState.queue_ntfn hs.notification

/-- `send_signal`. -/
theorem send (hs : Holds ntfn w s) (val : UInt64) :
    ∃ s', SignalCall.exec ntfn (.send val) s = .ok false s' ∧
      Holds ntfn (w.step (.inl val)).1 s' ∧
      SignalCall.Outcome ntfn s s' (.send val) (w.step (.inl val)).2 false := by
  have hread := getNotification_ok.2 hs.notification
  obtain ⟨kept, takers, hone⟩ := w
  cases takers with
  | nil =>
    refine ⟨s.setNotification ntfn ⟨orAll kept ||| val, [], true⟩, ?_, ⟨?_, fun p hp => ?_⟩,
      .keeps hs.queue ?_⟩
    · exact bind_ok.2 ⟨(), _, bind_ok.2 ⟨_, s, lift_ok.2 ⟨hread, rfl⟩, rfl⟩, rfl⟩
    · simp [KState.setNotification, Signals.step, orAll]
    · cases hp
    · rw [KState.queue_setNotification, Function.update_self]
  | cons p rest =>
    obtain rfl : kept = [] := hone.resolve_right (List.cons_ne_nil _ _)
    obtain ⟨t, ht⟩ := hs.live p (List.mem_cons_self ..)
    let u := (s.setNotification ntfn ⟨0, rest, false⟩).setTcb p (t.setA1 val)
    have hup : u.tcbs p = some (t.setA1 val) := (KState.tcbs_setTcb ..).trans (if_pos rfl)
    let v : KState := { u.setTcb p (t.setA1 val).resume with runqueue := u.runqueue ++ [p] }
    have hvp : v.tcbs p = some (t.setA1 val).resume := (KState.tcbs_setTcb ..).trans (if_pos rfl)
    have hholds : Holds ntfn ⟨[], rest, .inl rfl⟩ v := by
      refine ⟨Function.update_self .., fun q hq => ?_⟩
      by_cases hqp : q = p
      · exact ⟨_, hqp ▸ hvp⟩
      · obtain ⟨t', ht'⟩ := hs.live q (List.mem_cons_of_mem _ hq)
        refine ⟨t', ?_⟩
        change (u.setTcb p _).tcbs q = _
        rw [KState.tcbs_setTcb, if_neg hqp, KState.tcbs_setTcb, if_neg hqp]
        exact ht'
    refine ⟨v, ?_, hholds, .wakes ?_ ?_ ?_⟩
    · refine bind_ok.2 ⟨(), v, bind_ok.2 ⟨_, s, lift_ok.2 ⟨hread, rfl⟩, ?_⟩, rfl⟩
      exact bind_ok.2 ⟨(), _, rfl, bind_ok.2 ⟨(), u, updateTcb_ok.2 ⟨t, ht, rfl⟩,
        resume_ok.2 ⟨_, hup, rfl⟩⟩⟩
    · rw [hs.queue, hholds.queue]
    · rw [KState.statusOf, hvp]
      rfl
    · rw [KState.a1Of, hvp]
      rfl

/-- `wait_signal`. -/
theorem wait (hs : Holds ntfn w s) {thread : Nat} {t : ThreadInfo} (ht : s.tcbs thread = some t) :
    ∃ b s', SignalCall.exec ntfn (.wait thread) s = .ok b s' ∧
      Holds ntfn (w.step (.inr thread)).1 s' ∧
      SignalCall.Outcome ntfn s s' (.wait thread) (w.step (.inr thread)).2 b := by
  have hread := getNotification_ok.2 hs.notification
  obtain ⟨kept, takers, hone⟩ := w
  cases kept with
  | cons v vs =>
    obtain rfl : takers = [] := hone.resolve_left nofun
    refine ⟨false,
      (s.setTcb thread (t.setA1 (orAll (v :: vs)))).setNotification ntfn ⟨0, [], false⟩,
      ?_, ⟨Function.update_self .., nofun⟩, .takes ?_⟩
    · exact bind_ok.2 ⟨_, s, lift_ok.2 ⟨hread, rfl⟩, bind_ok.2 ⟨(), _,
        updateTcb_ok.2 ⟨t, ht, rfl⟩, rfl⟩⟩
    · change KState.a1Of (s.setTcb ..) thread = _
      rw [KState.a1Of, KState.tcbs_setTcb, if_pos rfl]
      rfl
  | nil =>
    have hholds : Holds ntfn ⟨[], takers ++ [thread], .inl rfl⟩
        ((s.setTcb thread t.suspend).setNotification ntfn ⟨0, takers ++ [thread], false⟩) := by
      refine ⟨Function.update_self .., fun p hp => ?_⟩
      change ∃ t', (s.setTcb thread t.suspend).tcbs p = some t'
      rw [KState.tcbs_setTcb]
      split
      · exact ⟨_, rfl⟩
      · next hne =>
        rw [List.mem_append, List.mem_singleton] at hp
        exact hs.live p (hp.resolve_right hne)
    refine ⟨true, _, ?_, hholds, .waits ?_ ?_⟩
    · exact bind_ok.2 ⟨_, s, lift_ok.2 ⟨hread, rfl⟩, bind_ok.2 ⟨(), _,
        updateTcb_ok.2 ⟨t, ht, rfl⟩, rfl⟩⟩
    · rw [hs.queue, hholds.queue]
    · change KState.statusOf (s.setTcb ..) thread = _
      rw [KState.statusOf_setTcb, if_pos rfl]
      rfl

/-- **A call takes the step of the abstract signals**, and returns. -/
theorem exec (hs : Holds ntfn w s) {c : SignalCall} (hc : c.Valid s) :
    ∃ b s', c.exec ntfn s = .ok b s' ∧ Holds ntfn (w.step c.request).1 s' ∧
      c.Outcome ntfn s s' (w.step c.request).2 b := by
  cases c with
  | send val => exact ⟨false, hs.send val⟩
  | wait thread =>
    obtain ⟨t, ht⟩ := hc
    exact hs.wait ht

end Holds

/-! ## Sequences of calls -/

/-- Calls on a notification, with whatever else happens that leaves it and the threads in its queue
alone, and the waits that were completed. -/
inductive SignalCalls (ntfn : Nat) :
    KState → List SignalCall → List (Nat × UInt64) → KState → Prop
  | nil (s : KState) : SignalCalls ntfn s [] [] s
  | call {s s₁ s₂ : KState} {c : SignalCall} {cs : List SignalCall} {done : List (Nat × UInt64)}
      {blocked : Bool} : c.Valid s → c.exec ntfn s = .ok blocked s₁ →
      SignalCalls ntfn s₁ cs done s₂ →
      SignalCalls ntfn s (c :: cs) (c.completed ntfn blocked s s₁ ++ done) s₂
  | other {s s₁ s₂ : KState} {cs : List SignalCall} {done : List (Nat × UInt64)} :
      s₁.notifications ntfn = s.notifications ntfn →
      (∀ p ∈ s.queue (.ntfn ntfn), s₁.tcbs p = s.tcbs p) → SignalCalls ntfn s₁ cs done s₂ →
      SignalCalls ntfn s cs done s₂

/-- **The notification runs the abstract signals.** -/
theorem Holds.calls {w : Signals UInt64 Nat} {cs : List SignalCall} {done : List (Nat × UInt64)}
    (hs : Holds ntfn w s) (h : SignalCalls ntfn s cs done s') :
    Holds ntfn (w.run (cs.map SignalCall.request)).1 s' ∧
    done = (w.run (cs.map SignalCall.request)).2.map fun g => (g.1, orAll g.2) := by
  induction h generalizing w with
  | nil s => exact ⟨hs, rfl⟩
  | call hc hexec _ ih =>
    obtain ⟨b, s₁, hexec', hs₁, houtcome⟩ := hs.exec hc
    obtain ⟨rfl, rfl⟩ := EStateM.Result.ok.inj (hexec'.symm.trans hexec)
    obtain ⟨hs₂, hdone⟩ := ih hs₁
    refine ⟨hs₂, ?_⟩
    rw [houtcome.completed, hdone, ← List.map_append]
    rfl
  | other hntfn htcbs _ ih =>
    refine ih ⟨hntfn.trans hs.notification, fun p hp => ?_⟩
    rw [htcbs p (hs.queue.symm ▸ hp)]
    exact hs.live p hp

/-- **Signals are conserved.** For any sequence of calls on a notification that keeps no signal,
with threads `q` waiting: every signal is in what exactly one completed wait got or is still kept,
in order; the threads complete their waits in the order in which they came; `a1` of a completed wait
is the disjunction of what it got. The next call returns: a signal goes alone to the first waiting
thread, and a wait gets all that is kept, after which nothing is kept. -/
theorem conservation_of_signals {s₀ : KState} {q : List Nat} {cs : List SignalCall}
    {done : List (Nat × UInt64)} (hstart : s₀.notifications ntfn = some ⟨0, q, false⟩)
    (hlive : ∀ p ∈ q, ∃ t, s₀.tcbs p = some t) (h : SignalCalls ntfn s₀ cs done s) :
    let sent := lefts (cs.map SignalCall.request)
    let waits := rights (cs.map SignalCall.request)
    ∃ (n : Notification) (got : List (Nat × List UInt64)) (w : Signals UInt64 Nat),
      s.notifications ntfn = some n ∧ n.waitQueue = w.takers ∧ n.notifyBit = orAll w.kept ∧
      (n.bitIsSet = true → n.waitQueue = []) ∧ (n.bitIsSet = false → n.notifyBit = 0) ∧
      done = got.map (fun g => (g.1, orAll g.2)) ∧
      got.flatMap Prod.snd ++ w.kept = sent ∧ (done = [] → w.kept = sent) ∧
      done.map Prod.fst ++ n.waitQueue = q ++ waits ∧
      orAll (done.map Prod.snd) ||| n.notifyBit = orAll sent ∧
      ∀ c : SignalCall, c.Valid s → ∃ b s', c.exec ntfn s = .ok b s' ∧
        c.Outcome ntfn s s' (w.step c.request).2 b ∧
        ((w.step c.request).2 ≠ none →
          ∃ q', s'.notifications ntfn = some ⟨0, q', false⟩) := by
  intro sent waits
  have hs₀ : Holds ntfn ⟨[], q, .inl rfl⟩ s₀ := ⟨hstart, hlive⟩
  obtain ⟨hs, hdone⟩ := hs₀.calls h
  have hputs := Signals.run_puts (⟨[], q, .inl rfl⟩ : Signals UInt64 Nat)
    (cs.map SignalCall.request)
  have htakes := Signals.run_takes (⟨[], q, .inl rfl⟩ : Signals UInt64 Nat)
    (cs.map SignalCall.request)
  generalize (Signals.run (⟨[], q, .inl rfl⟩ : Signals UInt64 Nat)
    (cs.map SignalCall.request)) = r at hs hdone hputs htakes
  obtain ⟨w, got⟩ := r
  change got.flatMap Prod.snd ++ w.kept = sent at hputs
  refine ⟨_, got, w, hs.notification, rfl, rfl, fun hset => ?_, fun hset => ?_, hdone, hputs,
    fun hnil => ?_, ?_, ?_, fun c hc => ?_⟩
  · exact w.oneSided.resolve_left (by simpa using hset)
  · have hkept : w.kept = [] := by simpa using hset
    rw [hkept, orAll_nil]
  · have hgot : got = [] := List.map_eq_nil_iff.1 (hdone.symm.trans hnil)
    rw [← hputs, hgot]
    rfl
  · rw [hdone, List.map_map]
    exact htakes
  · rw [← hputs, orAll_append, orAll_flatMap, hdone, List.map_map]
    rfl
  · obtain ⟨b, s', hexec, hs', houtcome⟩ := hs.exec hc
    refine ⟨b, s', hexec, houtcome, fun hsome => ?_⟩
    rw [hs'.notification, Signals.kept_of_served hsome]
    exact ⟨_, rfl⟩

instance SignalCall.decidableValid (c : SignalCall) : Decidable (c.Valid s) :=
  match c with
  | .send _ => isTrue trivial
  | .wait thread =>
    decidable_of_iff ((s.tcbs thread).isSome = true) Option.isSome_iff_exists

/-- The calls one after the other. -/
def signalTrace (ntfn : Nat) : List SignalCall → KM (List (Nat × UInt64))
  | [] => return []
  | c :: cs => do
    let s ← get
    if c.Valid s then
      let blocked ← c.exec ntfn
      let s₁ ← get
      let done ← signalTrace ntfn cs
      return c.completed ntfn blocked s s₁ ++ done
    else throw undefinedAccess

theorem calls_of_signalTrace {cs : List SignalCall} {done : List (Nat × UInt64)}
    (h : signalTrace ntfn cs s = .ok done s') : SignalCalls ntfn s cs done s' := by
  induction cs generalizing s done with
  | nil =>
    obtain ⟨rfl, rfl⟩ := pure_ok.1 h
    exact .nil s
  | cons c cs ih =>
    obtain ⟨_, _, hget, h⟩ := bind_ok.1 h
    obtain ⟨rfl, rfl⟩ := get_ok.1 hget
    split at h
    · next hvalid =>
      simp only [bind_ok, get_ok, pure_ok] at h
      obtain ⟨b, s₁, hexec, _, _, ⟨rfl, rfl⟩, done', s₂, hrest, rfl, rfl⟩ := h
      exact .call hvalid hexec (ih hrest)
    · cases h

/-- Threads 1, 2 and 3, and a notification at which thread 3 waits. -/
def signalDemo : KState :=
  ((((KState.initial .virt).setTcb 1 {}).setTcb 2 {}).setTcb 3
    { status := .blocked }).setNotification 0 ⟨0, [3], false⟩

/-- Thread 1 waits behind thread 3, and the first two signals go to them. The next two are kept for
thread 2, which gets both, and thread 1 waits again. -/
theorem conservation_of_four_signals : ∃ s done,
    SignalCalls 0 signalDemo
      [.wait 1, .send 1, .send 2, .send 4, .send 8, .wait 2, .wait 1] done s ∧
    done = [(3, 1), (1, 2), (2, 12)] ∧
    ∃ n, s.notifications 0 = some n ∧ n.waitQueue = [1] ∧
      orAll (done.map Prod.snd) ||| n.notifyBit = 15 := by
  have htest : returnsWith (signalTrace 0
      [.wait 1, .send 1, .send 2, .send 4, .send 8, .wait 2, .wait 1] signalDemo)
      (fun done _ => done = [(3, 1), (1, 2), (2, 12)]) = true := by
    decide +kernel
  obtain ⟨done, s, htrace, hdone⟩ := exists_of_returnsWith htest
  have hcalls := calls_of_signalTrace htrace
  have hlive : ∀ p ∈ [3], ∃ t, signalDemo.tcbs p = some t := by
    intro p hp
    rw [List.mem_singleton.1 hp]
    exact ⟨{ status := .blocked }, rfl⟩
  obtain ⟨n, got, w, hn, -, -, -, -, -, -, -, hthreads, hor, -⟩ :=
    conservation_of_signals rfl hlive hcalls
  obtain rfl := of_decide_eq_true hdone
  refine ⟨s, _, hcalls, rfl, n, hn, ?_, hor⟩
  exact (List.append_right_inj [3, 1, 2]).1 hthreads

end Zoeax
