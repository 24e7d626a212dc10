import Zoeax.Intrusive.Blind
import Zoeax.Verify.LinkedList
import Zoeax.Verify.Quantum

/-!
# The kernel on linked lists against the kernel on sequences

`Tracks t s`: the linked lists of `t` hold the queues of `s`, and everything else is the same. Each
part of a trap, done with the linked lists, follows the part of the model (`Follows`): it returns
what the model returns, in states that are related again, or it stops the kernel, at an assertion
that the model does not have.

`pop` leaves the link of the thread that it takes out. A thread that blocks or is woken is asserted
to have none, but the scheduler puts the current thread back into the run queue whatever its link
is. At the end of the run queue such a link does no harm (`Lists.Reads`), and a `push` behind it
repairs it. It does when the thread is taken out as the only one: then the run queue goes on where
the link leads. `LastUnlinked` excludes this, and then a run of the kernel on linked lists is a run
of the model (`run_of_listRun`).

Both models end a run where a call leaves the live objects, and the code does not. So the runs have
to meet the conditions of `Verify/Guards.lean`: a thread control block that is laid over a queued
one cuts the list there.
-/

namespace Zoeax

open Lib Exec
open Intrusive (onKernel)

/-! ## Lists and queues -/

namespace Lists

variable {ι α : Type} [DecidableEq ι] [DecidableEq α] {c : Lists ι α} {q : ι → List α}

/-- The lists of `c` hold the sequences `q`. The last item of a list in `F` may have a link. -/
structure Reads (c : Lists ι α) (q : ι → List α) (F : ι → Prop) : Prop where
  head : ∀ l, (c.lists l).head = (q l).head?
  last : ∀ l, (c.lists l).last = (q l).getLast?
  next : ∀ {l : ι} {i : Nat} {x y : α}, (q l)[i]? = some x → (q l)[i + 1]? = some y →
    c.next x = some y
  ends : ∀ {l : ι} {x : α}, ¬F l → (q l).getLast? = some x → c.next x = none
  once : ∀ {l l' : ι} {i j : Nat} {x : α}, (q l)[i]? = some x → (q l')[j]? = some x →
    l = l' ∧ i = j

namespace Reads

variable {F : ι → Prop}

omit [DecidableEq ι] [DecidableEq α] in
theorem isEmpty_iff (h : Reads c q F) (l : ι) : (c.lists l).isEmpty = true ↔ q l = [] := by
  simp only [LinkedList.isEmpty, h.head l, Option.isNone_iff_eq_none, List.head?_eq_none_iff]

omit [DecidableEq ι] [DecidableEq α] in
/-- A list of one item. -/
theorem eq_singleton_iff (h : Reads c q F) (l : ι) (x : α) :
    q l = [x] ↔ (c.lists l).head = some x ∧ (c.lists l).last = some x := by
  rw [h.head, h.last]
  constructor
  · intro hq
    simp [hq]
  · rintro ⟨hhead, hlast⟩
    have hi : (q l)[0]? = some x := by rw [← List.head?_eq_getElem?, hhead]
    have hj : (q l)[(q l).length - 1]? = some x := by rw [← List.getLast?_eq_getElem?, hlast]
    have hlen := (h.once hi hj).2
    have hpos := List.length_pos_of_mem (List.mem_of_getElem? hi)
    obtain ⟨y, hy⟩ := List.length_eq_one_iff.1 (by omega : (q l).length = 1)
    rw [hy] at hi ⊢
    rw [Option.some.inj hi]

omit [DecidableEq ι] [DecidableEq α] in
/-- The last item is not the last one of another list, and has no other behind it. -/
theorem last_unique (h : Reads c q F) {l k : ι} {i : Nat} {p : α}
    (hp : (c.lists l).last = some p) (hi : (q k)[i]? = some p) : k = l ∧ i + 1 = (q l).length := by
  have hj : (q l)[(q l).length - 1]? = some p := by rw [← List.getLast?_eq_getElem?, ← h.last, hp]
  have hpos := List.length_pos_of_mem (List.mem_of_getElem? hj)
  obtain ⟨hk, hij⟩ := h.once hi hj
  exact ⟨hk, by omega⟩

/-- `push` writes the link of the last item only. -/
theorem next_push_of_ne (c : Lists ι α) (l : ι) (x : α) {y : α} (hy : (c.lists l).last ≠ some y) :
    (c.push l x).next y = c.next y := by
  unfold Lists.push
  cases hp : (c.lists l).last with
  | none => rfl
  | some p =>
    have hne : y ≠ p := fun h => hy (h ▸ hp)
    exact Function.update_of_ne hne ..

theorem next_push_last {l : ι} {x p : α} (hp : (c.lists l).last = some p) :
    (c.push l x).next p = some x := by
  unfold Lists.push
  rw [hp]
  exact Function.update_self ..

/-- `push` appends an item that is in no list. -/
theorem push (h : Reads c q F) {l : ι} {x : α} (hx : ∀ k, x ∉ q k)
    (hnext : ¬F l → c.next x = none) :
    Reads (c.push l x) (Function.update q l (q l ++ [x])) F := by
  have hnot : (c.lists l).last ≠ some x := fun hl => hx l (List.mem_of_getLast? (h.last l ▸ hl))
  have hends : ((c.push l x).lists l).head = (q l ++ [x]).head? ∧
      ((c.push l x).lists l).last = some x := by
    unfold Lists.push
    cases hp : (c.lists l).last with
    | none => simp [List.getLast?_eq_none_iff.1 ((h.last l).symm.trans hp)]
    | some p =>
      have hne : q l ≠ [] := List.ne_nil_of_mem (List.mem_of_getLast? (h.last l ▸ hp))
      simp [h.head l, List.head?_append_of_ne_nil _ hne]
  have hother : ∀ k, k ≠ l → (c.push l x).lists k = c.lists k := by
    intro k hk
    unfold Lists.push
    cases (c.lists l).last <;> exact Function.update_of_ne hk ..
  refine ⟨fun k => ?_, fun k => ?_, fun {k i y z} hy hz => ?_, fun {k y} hF hy => ?_,
    Rep.once_append h.once hx⟩
  · by_cases hk : k = l
    · subst hk
      rw [Function.update_self, hends.1]
    · rw [Function.update_of_ne hk, hother k hk, h.head k]
  · by_cases hk : k = l
    · subst hk
      rw [Function.update_self, hends.2, List.getLast?_concat]
    · rw [Function.update_of_ne hk, hother k hk, h.last k]
  · rcases Rep.getElem?_append_item hy with hy' | ⟨rfl, rfl, rfl⟩
    · rcases Rep.getElem?_append_item hz with hz' | ⟨rfl, hi, rfl⟩
      · -- an item with another one behind it is not the last
        rw [next_push_of_ne c l x, h.next hy' hz']
        intro hl
        obtain ⟨rfl, hi⟩ := h.last_unique hl hy'
        have := (List.getElem?_eq_some_iff.1 hz').1
        omega
      · refine next_push_last ?_
        rw [h.last, List.getLast?_eq_getElem?, ← hi, Nat.add_sub_cancel, hy']
    · rw [Function.update_self, List.getElem?_append_right (by omega)] at hz
      simp at hz
  · by_cases hk : k = l
    · subst hk
      rw [Function.update_self, List.getLast?_concat] at hy
      obtain rfl := Option.some.inj hy
      rw [next_push_of_ne c k _ hnot, hnext hF]
    · rw [Function.update_of_ne hk] at hy
      rw [next_push_of_ne c l x, h.ends hF hy]
      intro hl
      rw [List.getLast?_eq_getElem?] at hy
      exact hk (h.last_unique hl hy).1

omit [DecidableEq α] in
/-- `pop` takes the first item, if a link of the last one does not get in the way. -/
theorem pop (h : Reads c q F) {l : ι} (hlast : ∀ x, q l = [x] → c.next x = none) :
    Reads (c.pop l).2 (Function.update q l (q l).tail) F := by
  have hget : ∀ k i, (Function.update q l (q l).tail k)[i]? =
      (q k)[if k = l then i + 1 else i]? := by
    intro k i
    by_cases hk : k = l
    · subst hk; simp
    · simp [hk]
  have hnext : ((c.lists l).head.bind c.next) = (q l).tail.head? := by
    rw [h.head l]
    cases hq : q l with
    | nil => rfl
    | cons y rest =>
      rw [List.head?_cons, Option.bind_some, List.tail_cons]
      cases rest with
      | nil => exact hlast y hq
      | cons z rest => exact h.next (i := 0) (by rw [hq]; rfl) (by rw [hq]; rfl)
  refine ⟨fun k => ?_, fun k => ?_, fun {k i x y} hx hy => ?_, fun {k x} hF hx => ?_,
    fun {k k' i j x} hi hj => ?_⟩
  · by_cases hk : k = l
    · subst hk; simpa [Lists.pop] using hnext
    · simp [Lists.pop, Function.update_of_ne hk, h.head k]
  · by_cases hk : k = l
    · subst hk
      simp only [Lists.pop, Function.update_self, hnext]
      cases hq : q k with
      | nil => simp
      | cons y rest =>
        cases rest with
        | nil => simp
        | cons z rest => simp [h.last k, hq]
    · simp [Lists.pop, Function.update_of_ne hk, h.last k]
  · rw [hget] at hx hy
    refine h.next hx ?_
    rw [← hy]
    split <;> rfl
  · refine h.ends hF ?_
    by_cases hk : k = l
    · subst hk
      rw [Function.update_self] at hx
      cases hq : q k with
      | nil => simp [hq] at hx
      | cons y rest =>
        rw [hq, List.tail_cons] at hx
        rw [List.getLast?_cons, hx]
        rfl
    · rwa [Function.update_of_ne hk] at hx
  · rw [hget] at hi hj
    obtain ⟨rfl, hij⟩ := h.once hi hj
    refine ⟨rfl, ?_⟩
    split at hij <;> omega

omit [DecidableEq ι] [DecidableEq α] in
/-- Links of items outside the queues do not count. -/
theorem of_next (h : Reads c q F) {n : α → Option α} (hn : ∀ l, ∀ x ∈ q l, n x = c.next x) :
    Reads { c with next := n } q F where
  head := h.head
  last := h.last
  next hx hy := (hn _ _ (List.mem_of_getElem? hx)).trans (h.next hx hy)
  ends hF hx := (hn _ _ (List.mem_of_getLast? hx)).trans (h.ends hF hx)
  once := h.once

omit [DecidableEq α] in
/-- A list is replaced by a new one. -/
theorem renew (h : Reads c q F) (l : ι) :
    Reads { c with lists := Function.update c.lists l LinkedList.new }
      (Function.update q l []) F := by
  have hget : ∀ {k : ι} {i : Nat} {x : α}, (Function.update q l [] k)[i]? = some x →
      (q k)[i]? = some x ∧ k ≠ l := by
    intro k i x hx
    by_cases hk : k = l
    · subst hk
      simp at hx
    · rw [Function.update_of_ne hk] at hx
      exact ⟨hx, hk⟩
  refine ⟨fun k => ?_, fun k => ?_, fun {k i x y} hx hy => h.next (hget hx).1 (hget hy).1,
    fun {k x} hF hx => h.ends hF ?_, fun hi hj => h.once (hget hi).1 (hget hj).1⟩
  · by_cases hk : k = l
    · subst hk; simp [LinkedList.new]
    · simp [Function.update_of_ne hk, h.head k]
  · by_cases hk : k = l
    · subst hk; simp [LinkedList.new]
    · simp [Function.update_of_ne hk, h.last k]
  · by_cases hk : k = l
    · subst hk
      simp at hx
    · rwa [Function.update_of_ne hk] at hx

omit [DecidableEq ι] [DecidableEq α] in
theorem new : Reads (Lists.new : Lists ι α) (fun _ => []) F where
  head _ := rfl
  last _ := rfl
  next h := by simp at h
  ends _ h := by simp at h
  once h := by simp at h

/-- Pushed and popped again. -/
theorem new_push_pop (l : ι) (x : α) :
    Reads (((Lists.new : Lists ι α).push l x).pop l).2 (fun _ => []) F := by
  have hpush := (new (ι := ι) (α := α) (F := F)).push (l := l) (x := x)
    (fun _ => List.not_mem_nil) fun _ => rfl
  have hpop := hpush.pop (l := l) fun _ _ => rfl
  rw [Function.update_self, Function.update_idem] at hpop
  have hq : Function.update (fun _ => []) l ([] ++ [x]).tail = fun _ : ι => ([] : List α) :=
    Function.update_eq_self l fun _ : ι => ([] : List α)
  rwa [hq] at hpop

end Reads

end Lists

/-! ## The relation -/

/-- The linked lists hold the queues of the state, and the rest is the same. -/
structure Tracks (t : ListState) (s : KState) : Prop where
  kernel : t.kernel = s.bare
  reads : t.lists.Reads s.queue (· = .run)

variable {cfg : Config} {t t' : ListState} {s s' : KState}

namespace KState

theorem bare_setEndpoint (s : KState) (a : Nat) (ep : Endpoint) :
    (s.setEndpoint a ep).bare = s.bare.setEndpoint a { ep with queue := [] } := by
  simp only [bare, setEndpoint, KState.mk.injEq, true_and, and_true]
  funext b
  by_cases h : b = a <;> simp [h]

theorem bare_setNotification (s : KState) (a : Nat) (n : Notification) :
    (s.setNotification a n).bare = s.bare.setNotification a { n with waitQueue := [] } := by
  simp only [bare, setNotification, KState.mk.injEq, true_and, and_true]
  funext b
  by_cases h : b = a <;> simp [h]

theorem endpoints_bare {a : Nat} {ep : Endpoint} (h : s.endpoints a = some ep) :
    s.bare.endpoints a = some { ep with queue := [] } := by
  simp [bare, h]

theorem notifications_bare {a : Nat} {n : Notification} (h : s.notifications a = some n) :
    s.bare.notifications a = some { n with waitQueue := [] } := by
  simp [bare, h]

/-- The bare state does not see a change of an endpoint's queue. -/
theorem bare_setEndpoint_queue {a : Nat} {ep : Endpoint} (h : s.endpoints a = some ep)
    (q : List Nat) : (s.setEndpoint a { ep with queue := q }).bare = s.bare := by
  rw [bare_setEndpoint, setEndpoint, ← endpoints_bare h, Function.update_eq_self]

theorem bare_setNotification_queue {a : Nat} {n : Notification} (h : s.notifications a = some n)
    (q : List Nat) : (s.setNotification a { n with waitQueue := q }).bare = s.bare := by
  rw [bare_setNotification, setNotification, ← notifications_bare h, Function.update_eq_self]

end KState

theorem onKernel_of_ok {α : Type} {x : KM α} {a : α} {k : KState} (h : x t.kernel = .ok a k) :
    onKernel x t = .ok a { t with kernel := k } := by
  rw [Intrusive.onKernel, h]

theorem onKernel_of_error {α : Type} {x : KM α} {e : Stop} (h : x t.kernel = .error e t.kernel) :
    onKernel x t = .error e t := by
  rw [Intrusive.onKernel, h]

theorem setEpState_of_some {k : KState} {a : Nat} {e : Endpoint} (he : k.endpoints a = some e)
    (st : EndpointState) : Intrusive.Endpoint.setEpState a st k =
      .ok () (k.setEndpoint a { e with epState := st }) := by
  rw [Intrusive.Endpoint.setEpState, lift_bind_of_ok (getEndpoint_ok.2 he), modify_ok]

theorem deref_none {α : Type} {cell : KState → Option α} (h : cell s = none) :
    deref cell s = .error undefinedAccess := by
  simp only [deref, Query.bind_of_ok (Query.read_ok.2 rfl), h]
  rfl

theorem onKernel_lists {α : Type} {x : KM α} {a : α} (h : onKernel x t = .ok a t') :
    t'.lists = t.lists := by
  unfold Intrusive.onKernel at h
  split at h
  · obtain ⟨-, rfl⟩ := EStateM.Result.ok.inj h
    rfl
  · cases h

namespace Tracks

/-- Code without queues. -/
theorem onKernel {α : Type} (h : Tracks t s) {x : KM α} (hx : Blind x) :
    Follows Stop.Halts Tracks (onKernel x t) (x s) := by
  have hf := hx.follows s
  unfold Intrusive.onKernel
  rw [h.kernel]
  generalize x s.bare = r at hf
  generalize x s = r' at hf
  cases hf with
  | ok hc => exact .ok ⟨hc.1, hc.2 ▸ h.reads⟩
  | error hc => exact .error ⟨hc.1, hc.2 ▸ h.reads⟩
  | stop he => exact .stop he

/-- A thread in no queue joins a list; it must not have a link, unless it is the run queue. -/
theorem push (h : Tracks t s) {l : Loc} {p : Nat} (hfree : ∀ l, p ∉ s.queue l)
    (hnext : l ≠ .run → t.lists.next p = none) (hbare : s'.bare = s.bare)
    (hq : s'.queue = Function.update s.queue l (s.queue l ++ [p])) :
    Tracks { t with lists := t.lists.push l p } s' :=
  ⟨h.kernel.trans hbare.symm, hq ▸ h.reads.push hfree hnext⟩

/-- The first thread leaves a list; alone in the run queue, it must not have a link. -/
theorem pop (h : Tracks t s) {l : Loc} (hlast : l = .run → ∀ p, s.queue l = [p] →
      t.lists.next p = none) (hbare : s'.bare = s.bare)
    (hq : s'.queue = Function.update s.queue l (s.queue l).tail) :
    Tracks { t with lists := (t.lists.pop l).2 } s' := by
  refine ⟨h.kernel.trans hbare.symm, hq ▸ h.reads.pop fun p hp => ?_⟩
  by_cases hl : l = .run
  · exact hlast hl p hp
  · exact h.reads.ends hl (by rw [hp, List.getLast?_singleton])

end Tracks

theorem assertUnlinked_ok {p : Nat} {u : Unit} :
    Intrusive.assertUnlinked p t = .ok u t' ↔ t.lists.next p = none ∧ t = t' := by
  change (if t.lists.nextIsNone p then pure () else throw panicked : LM Unit) t = .ok u t' ↔ _
  cases hn : t.lists.next p with
  | none =>
    rw [if_pos (by simp [Lists.nextIsNone, hn]), pure_ok]
    simp
  | some y =>
    rw [if_neg (by simp [Lists.nextIsNone, hn]), throw_ok]
    simp

/-- A thread that was the first of a queue is in no queue. -/
theorem Queued.popped (hs : Queued cfg s) {l : Loc} {p : Nat} {rest : List Nat} {s₁ s₂ : KState}
    (hquiet : Quiet s₁ s₂) (hq : s.queue l = p :: rest)
    (hq₁ : s₁.queue = Function.update s.queue l rest) (k : Loc) : p ∉ s₂.queue k := by
  rw [hquiet.queue, hq₁]
  exact hs.exclusive.pop hq k

/-- After an assertion, the thread has no link. -/
theorem follows_assert {α : Type} {p : Nat} {f : LM α} {r : EStateM.Result Stop KState α}
    (hf : t.lists.next p = none → Follows Stop.Halts Tracks (f t) r) :
    Follows Stop.Halts Tracks ((do Intrusive.assertUnlinked p; f) t) r := by
  cases hn : t.lists.next p with
  | none =>
    have hassert : Intrusive.assertUnlinked p t = .ok () t := assertUnlinked_ok.2 ⟨hn, rfl⟩
    rw [bind_of_ok hassert]
    exact hf hn
  | some y =>
    have hassert : Intrusive.assertUnlinked p t = .error panicked t := by
      change (if t.lists.nextIsNone p then pure () else throw panicked : LM Unit) t = _
      rw [if_neg (by simp [Lists.nextIsNone, hn])]
      rfl
    rw [bind_error.2 (.inl hassert)]
    exact .stop ⟨_, rfl⟩

namespace Tracks

/-! ## Threads -/

theorem resume (h : Tracks t s) {p : Nat} (hfree : ∀ l, p ∉ s.queue l) :
    Follows Stop.Halts Tracks (Intrusive.resume p t) (resume p s) := by
  refine (h.onKernel (blind_updateTcb _ _)).bind fun _ t₁ s₁ _ hy h₁ => ?_
  obtain ⟨th, -, rfl⟩ := updateTcb_ok.1 hy
  exact .ok (h₁.push hfree (fun hl => absurd rfl hl) rfl (KState.queue_setRun ..))

theorem wakeUpThread (h : Tracks t s) {p : Nat} (hfree : ∀ l, p ∉ s.queue l) :
    Follows Stop.Halts Tracks (Intrusive.wakeUpThread p t) (wakeUpThread p s) :=
  follows_assert fun _ => h.resume hfree

/-- A thread is blocked and joins a waiting list; in the model, `join` puts it there. -/
theorem block (h : Tracks t s) (l : Loc) {p : Nat} (join : KM Unit)
    (hfree : ∀ l, p ∉ s.queue l)
    (hjoin : ∀ th, s.tcbs p = some th → ∃ s', join (s.setTcb p th.suspend) = .ok () s' ∧
      s'.bare = (s.setTcb p th.suspend).bare ∧
      s'.queue = Function.update s.queue l (s.queue l ++ [p])) :
    Follows Stop.Halts Tracks ((do Intrusive.blockThread p; Intrusive.pushTo l p) t)
      ((do blockThread p; join) s) := by
  have hblock : Follows Stop.Halts Tracks (Intrusive.blockThread p t) (blockThread p s) :=
    follows_assert fun _ => h.onKernel (blind_updateTcb _ _)
  refine hblock.bind fun _ t₁ s₁ hx hy h₁ => ?_
  obtain ⟨_, _, hassert, hx⟩ := bind_ok.1 hx
  obtain ⟨hn, rfl⟩ := assertUnlinked_ok.1 hassert
  obtain ⟨th, hth, rfl⟩ := updateTcb_ok.1 hy
  obtain ⟨s', hs', hbare, hq⟩ := hjoin th hth
  rw [hs']
  refine .ok (h₁.push hfree (fun _ => ?_) hbare hq)
  rw [onKernel_lists hx, hn]

/-- A thread that can run goes back into the run queue. -/
theorem requeue (h : Tracks t s) (hs : Queued cfg s) {p : Nat} (hrun : p ∉ s.runqueue) :
    Follows Stop.Halts Tracks (Intrusive.requeue p t) (requeue p s) := by
  refine (h.onKernel (.lift (blindQuery_getTcb p))).bind fun th t₁ s₁ _ hy h₁ => ?_
  obtain ⟨hth, rfl⟩ := lift_ok.1 hy
  refine .ite (fun hr => ?_) fun _ => .ok h₁
  have hst := (isRunnable_iff (getTcb_ok.1 hth)).1 hr
  exact .ok (h₁.push (hs.not_mem_of_runnable hst hrun) (fun hl => absurd rfl hl) rfl
    (KState.queue_setRun ..))

/-- `LinkedList::pop`, with what it returns. -/
theorem popFrom (h : Tracks t s) (l : Loc) : Intrusive.popFrom l t =
    .ok (s.queue l).head? { t with lists := (t.lists.pop l).2 } := by
  rw [Intrusive.popFrom, ← h.reads.head]
  rfl

/-- The scheduler, if the only thread of the run queue has no link. -/
theorem schedule (h : Tracks t s) (hs : Parked cfg s)
    (hlast : s.requested = true → ∀ p, s.runqueue = [p] → t.lists.next p = none) :
    Follows Stop.Halts Tracks (Intrusive.schedule cfg t) (schedule cfg s) := by
  have hreq : t.kernel.requested = s.requested := by rw [h.kernel]; rfl
  have hcur : t.kernel.current = s.current := by rw [h.kernel]; rfl
  rw [Intrusive.schedule, Zoeax.schedule, bind_of_ok (get_ok.2 ⟨rfl, rfl⟩),
    bind_of_ok (get_ok.2 ⟨rfl, rfl⟩), hreq, hcur]
  refine .ite (fun _ => .ok h) fun hr => ?_
  have hlast := hlast (by simpa using hr)
  rw [bind_of_ok (h.popFrom .run)]
  cases hq : s.runqueue with
  | cons next rest =>
    have hq₁ : ({ s with runqueue := rest } : KState).queue =
        Function.update s.queue .run (s.queue .run).tail := by
      rw [KState.queue_setRun, KState.queue, hq, List.tail_cons]
    have hs₁ : Queued cfg { s with runqueue := rest } := by
      refine hs.queued.leave rfl ?_
      rw [hq₁]
      exact Exclusive.sublist_update (List.tail_sublist _)
    have h₁ : Tracks { t with lists := (t.lists.pop .run).2 } { s with runqueue := rest } :=
      h.pop (fun _ => hlast) rfl hq₁
    rw [show (s.queue .run).head? = some next by rw [KState.queue, hq, List.head?_cons]]
    refine (h₁.onKernel (blind_updateTcb _ _)).bind fun _ t₂ s₂ _ hy h₂ => ?_
    have hkeeps : Keeps (Quiet { s with runqueue := rest })
        (updateTcb next (·.setTimeout taskQuantum)) := Quiet.keeps_updateTcb _ fun _ => ⟨rfl, rfl⟩
    have hquiet := hkeeps.ok (.refl _) hy
    have hnot : s.current ∉ rest := fun hmem => hs.notReady (hq ▸ List.mem_cons_of_mem _ hmem)
    refine (h₂.requeue (hquiet.queued hs₁) ?_).bind fun _ t₃ s₃ _ _ h₃ =>
      h₃.onKernel (blind_switchTo cfg next)
    rw [show s₂.runqueue = rest from congrFun hquiet.queue .run]
    exact hnot
  | nil =>
    have h₁ : Tracks { t with lists := (t.lists.pop .run).2 } s := by
      refine h.pop (fun _ => hlast) rfl ?_
      rw [show (s.queue .run).tail = s.queue .run by rw [KState.queue, hq, List.tail_nil],
        Function.update_eq_self]
    rw [show (s.queue .run).head? = none by rw [KState.queue, hq, List.head?_nil]]
    refine (h₁.onKernel (.lift (blindQuery_getTcb _))).bind fun _ t₂ s₂ _ _ h₂ => ?_
    exact .ite (fun _ => h₂.onKernel (blind_updateTcb _ _)) fun _ => h₂.onKernel (blind_switchTo ..)

/-! ## Endpoints -/

/-- `self.ep_state = ..`. -/
theorem setEpState (h : Tracks t s) {a : Nat} {e : Endpoint} (he : s.endpoints a = some e)
    (st : EndpointState) : ∃ t₁, Intrusive.onKernel (Intrusive.Endpoint.setEpState a st) t =
      .ok () t₁ ∧ Tracks t₁ (s.setEndpoint a { e with epState := st }) := by
  have hset := setEpState_of_some (k := s.bare) (KState.endpoints_bare he) st
  rw [← h.kernel] at hset
  refine ⟨_, onKernel_of_ok hset, ?_, ?_⟩
  · rw [h.kernel, KState.bare_setEndpoint]
  · rw [KState.queue_setEndpoint, ← KState.queue_ep he, Function.update_eq_self]
    exact h.reads

/-- Nobody is left, or somebody is. -/
theorem idleIfEmpty (h : Tracks t s) {a : Nat} {e : Endpoint} (he : s.endpoints a = some e) :
    ∃ t₁, Intrusive.Endpoint.idleIfEmpty a t = .ok () t₁ ∧ Tracks t₁
      (s.setEndpoint a { e with epState := if e.queue.isEmpty then .idel else e.epState }) := by
  have hempty := h.reads.isEmpty_iff (.ep a)
  rw [KState.queue_ep he] at hempty
  rw [Intrusive.Endpoint.idleIfEmpty, bind_of_ok (get_ok.2 ⟨rfl, rfl⟩)]
  by_cases hq : e.queue = []
  · obtain ⟨t₁, hset, h₁⟩ := h.setEpState he .idel
    rw [if_pos (hempty.2 hq), if_pos (List.isEmpty_iff.2 hq)]
    exact ⟨t₁, hset, h₁⟩
  · rw [if_neg (fun hn => hq (hempty.1 hn)), if_neg (fun hn => hq (List.isEmpty_iff.1 hn))]
    refine ⟨t, rfl, ?_⟩
    rw [KState.setEndpoint, ← he, Function.update_eq_self]
    exact h

/-- `pop_from_queue` on the list does what it does on the sequence. -/
theorem popFromQueue (h : Tracks t s) {a : Nat} {e : Endpoint} (he : s.endpoints a = some e)
    (st : EndpointState) : ∃ t₁, Intrusive.Endpoint.popFromQueue a st t =
      .ok (e.popFromQueue st).1 t₁ ∧ Tracks t₁ (s.setEndpoint a (e.popFromQueue st).2) := by
  have hget : Intrusive.onKernel (getEndpoint a) t = .ok { e with queue := [] } t := by
    refine onKernel_of_ok (lift_ok.2 ⟨getEndpoint_ok.2 ?_, rfl⟩)
    rw [h.kernel]
    exact KState.endpoints_bare he
  rw [Intrusive.Endpoint.popFromQueue, bind_of_ok hget, Endpoint.popFromQueue]
  dsimp only
  generalize (if e.epState = .idel then st else e.epState) = st'
  obtain ⟨t₁, hset, h₁⟩ := h.setEpState he st'
  rw [bind_of_ok hset]
  by_cases hst : st' = st
  · rw [if_pos hst, if_pos hst]
    exact ⟨t₁, rfl, h₁⟩
  · have he₁ := KState.endpoints_setEndpoint_self s a { e with epState := st' }
    have h₂ : Tracks { t₁ with lists := (t₁.lists.pop (.ep a)).2 }
        (s.setEndpoint a ⟨st', e.queue.tail⟩) := by
      refine h₁.pop (l := .ep a) (fun hl => by cases hl) ?_ ?_
      · rw [KState.bare_setEndpoint, KState.bare_setEndpoint]
      · rw [KState.queue_ep he₁, KState.queue_setEndpoint, KState.queue_setEndpoint,
          Function.update_idem]
    obtain ⟨t₃, hidle, h₃⟩ := h₂.idleIfEmpty (KState.endpoints_setEndpoint_self ..)
    rw [if_neg hst, if_neg hst, bind_of_ok (h₁.popFrom (.ep a)), bind_of_ok hidle,
      KState.queue_ep he₁]
    refine ⟨t₃, rfl, ?_⟩
    rw [KState.setEndpoint, KState.setEndpoint, Function.update_idem] at h₃
    exact h₃

theorem popFromQueue_none (h : Tracks t s) {a : Nat} (he : s.endpoints a = none)
    (st : EndpointState) :
    Intrusive.Endpoint.popFromQueue a st t = .error undefinedAccess t := by
  refine bind_error.2 (.inl (onKernel_of_error (lift_error.2 ⟨deref_none ?_, rfl⟩)))
  simp [h.kernel, KState.bare, he]

/-- The message is handed over and the thread that waited is woken. -/
theorem rendezvous {t₁ : ListState} {a p : Nat} {e e' : Endpoint} {rest : List Nat}
    (h₁ : Tracks t₁ (s.setEndpoint a e')) (hs : Queued cfg s) (he : s.endpoints a = some e)
    (hq : e.queue = p :: rest) (hq' : e'.queue = rest) (sender receiver : Nat) :
    Follows Stop.Halts Tracks
      ((do
        Intrusive.onKernel (Endpoint.transfer sender receiver)
        Intrusive.wakeUpThread p
        return false : LM Bool) t₁)
      ((do
        Endpoint.transfer sender receiver
        Zoeax.wakeUpThread p
        return false : KM Bool) (s.setEndpoint a e')) := by
  refine (h₁.onKernel (blind_transfer ..)).bind fun _ t₂ s₂ _ hy h₂ => ?_
  have hquiet := (Quiet.keeps_transfer (s.setEndpoint a e') sender receiver).ok (.refl _) hy
  have hfree := hs.popped hquiet ((KState.queue_ep he).trans hq)
    (by rw [KState.queue_setEndpoint, hq'])
  exact (h₂.wakeUpThread hfree).bind fun _ _ _ _ _ h₃ => .ok h₃

/-- The caller joins the list of an endpoint from which nobody was taken. -/
theorem enqueue {t₁ : ListState} {a : Nat} {e e' : Endpoint} (h₁ : Tracks t₁ (s.setEndpoint a e'))
    (hs : Running cfg s) (he : s.endpoints a = some e) (hq : e'.queue = e.queue) :
    Follows Stop.Halts Tracks
      ((do
        Intrusive.Endpoint.enqueue a s.current
        return true : LM Bool) t₁)
      ((do
        Endpoint.enqueue a s.current
        return true : KM Bool) (s.setEndpoint a e')) := by
  have hqueue : (s.setEndpoint a e').queue = s.queue := by
    rw [KState.queue_setEndpoint, hq, ← KState.queue_ep he, Function.update_eq_self]
  have hfree : ∀ l, s.current ∉ (s.setEndpoint a e').queue l := hqueue ▸ hs.current_free
  have he₁ := KState.endpoints_setEndpoint_self s a e'
  have hblock := h₁.block (.ep a) (do
    let e ← getEndpoint a
    modify (·.setEndpoint a { e with queue := e.queue ++ [s.current] })) hfree fun th _ => ?_
  · exact hblock.bind fun _ _ _ _ _ h₂ => .ok h₂
  · have he₂ : ((s.setEndpoint a e').setTcb s.current th.suspend).endpoints a = some e' := he₁
    refine ⟨_, lift_bind_of_ok (getEndpoint_ok.2 he₂), KState.bare_setEndpoint_queue he₂ _, ?_⟩
    rw [KState.queue_setEndpoint, KState.queue_ep he₁]
    rfl

/-- `send` and `recv`: what differs is who is sender and who is receiver. -/
theorem exchange (h : Tracks t s) (hs : Running cfg s) (a : Nat) (st : EndpointState)
    (sender receiver : Nat → Nat) :
    Follows Stop.Halts Tracks
      ((do
        match ← Intrusive.Endpoint.popFromQueue a st with
        | some p => do
          Intrusive.onKernel (Endpoint.transfer (sender p) (receiver p))
          Intrusive.wakeUpThread p
          return false
        | none => do
          Intrusive.Endpoint.enqueue a s.current
          return true : LM Bool) t)
      ((do
        let e ← getEndpoint a
        modify (·.setEndpoint a (e.popFromQueue st).2)
        match (e.popFromQueue st).1 with
        | some p => do
          Endpoint.transfer (sender p) (receiver p)
          Zoeax.wakeUpThread p
          return false
        | none => do
          Endpoint.enqueue a s.current
          return true : KM Bool) s) := by
  cases he : s.endpoints a with
  | none =>
    rw [bind_error.2 (.inl (h.popFromQueue_none he st))]
    exact .stop ⟨_, rfl⟩
  | some e =>
    obtain ⟨t₁, hpop, h₁⟩ := h.popFromQueue he st
    rw [bind_of_ok hpop, lift_bind_of_ok (getEndpoint_ok.2 he),
      bind_of_ok (a := ()) (modify_ok.2 rfl)]
    rcases popFromQueue_cases e st with ⟨p, rest, hq, hp, hrest⟩ | ⟨hp, hq⟩
    · rw [hp]
      exact h₁.rendezvous hs.queued he hq hrest _ _
    · rw [hp]
      exact h₁.enqueue hs he hq

theorem invokeEndPoint (h : Tracks t s) (hs : Running cfg s) (invLabel : InvLabel)
    (c : CapabilityData) :
    Follows Stop.Halts Tracks (Intrusive.invokeEndPoint invLabel s.current c t)
      (invokeEndPoint invLabel s.current c s) := by
  cases invLabel with
  | epSend =>
    refine Follows.bind (R := Tracks) ?_ fun b _ _ _ _ h₁ => ?_
    · refine (h.onKernel (blind_updateTcb _ _)).bind fun _ t₁ s₁ _ hy h₁ => ?_
      have hquiet := (Quiet.keeps_setBadge s _ _).ok (.refl s) hy
      rw [← hquiet.current]
      exact h₁.exchange (hs.quiet hquiet) _ .send (fun _ => s₁.current) id
    · exact (h₁.onKernel (blind_scheduleIf b)).bind fun _ _ _ _ _ h₂ => .ok h₂
  | epRecv =>
    refine Follows.bind (R := Tracks) ?_ fun b _ _ _ _ h₁ => ?_
    · exact h.exchange hs _ .recv id fun _ => s.current
    · exact (h₁.onKernel (blind_scheduleIf b)).bind fun _ _ _ _ _ h₂ => .ok h₂
  | _ => exact .error h

/-! ## Notifications -/

theorem getNotification (h : Tracks t s) {a : Nat} {n : Notification}
    (hn : s.notifications a = some n) :
    Intrusive.onKernel (getNotification a) t = .ok { n with waitQueue := [] } t := by
  refine onKernel_of_ok (lift_ok.2 ⟨getNotification_ok.2 ?_, rfl⟩)
  rw [h.kernel]
  exact KState.notifications_bare hn

theorem getNotification_none (h : Tracks t s) {a : Nat} (hn : s.notifications a = none) :
    Intrusive.onKernel (Zoeax.getNotification a) t = .error undefinedAccess t := by
  refine onKernel_of_error (lift_error.2 ⟨deref_none ?_, rfl⟩)
  simp [h.kernel, KState.bare, hn]

/-- The word of a notification changes, but not its queue. -/
theorem setNotification (h : Tracks t s) {a : Nat} {n : Notification}
    (hn : s.notifications a = some n) (n' : Notification) (hw : n'.waitQueue = n.waitQueue) :
    Follows Stop.Halts Tracks
      (Intrusive.onKernel (modify (·.setNotification a { n' with waitQueue := [] })) t)
      ((modify (·.setNotification a n') : KM Unit) s) := by
  refine .ok ⟨?_, ?_⟩
  · show t.kernel.setNotification a _ = _
    rw [h.kernel, KState.bare_setNotification]
  · rw [KState.queue_setNotification, hw, ← KState.queue_ntfn hn, Function.update_eq_self]
    exact h.reads

theorem sendSignal (h : Tracks t s) (hs : Queued cfg s) (a : Nat) (val : UInt64) :
    Follows Stop.Halts Tracks (Intrusive.Notification.sendSignal a val t)
      (Notification.sendSignal a val s) := by
  rw [Intrusive.Notification.sendSignal, Notification.sendSignal]
  cases hn : s.notifications a with
  | none =>
    rw [bind_error.2 (.inl (h.getNotification_none hn))]
    exact .stop ⟨_, rfl⟩
  | some n =>
    rw [bind_of_ok (h.getNotification hn), lift_bind_of_ok (getNotification_ok.2 hn),
      bind_of_ok (h.popFrom (.ntfn a)), KState.queue_ntfn hn]
    cases hq : n.waitQueue with
    | cons p rest =>
      have hq₁ : (s.setNotification a { n with waitQueue := rest }).queue =
          Function.update s.queue (.ntfn a) rest := KState.queue_setNotification ..
      have h₁ : Tracks { t with lists := (t.lists.pop (.ntfn a)).2 }
          (s.setNotification a { n with waitQueue := rest }) := by
        refine h.pop (fun hl => by cases hl) (KState.bare_setNotification_queue hn rest)
          (hq₁.trans ?_)
        rw [KState.queue_ntfn hn, hq, List.tail_cons]
      dsimp only [List.head?_cons]
      rw [bind_of_ok (a := ()) (modify_ok.2 rfl)]
      refine (h₁.onKernel (blind_updateTcb _ _)).bind fun _ t₂ s₂ _ hy h₂ => ?_
      have hquiet := (Quiet.keeps_setA1 _ p val).ok (.refl _) hy
      exact h₂.wakeUpThread (hs.popped hquiet ((KState.queue_ntfn hn).trans hq) hq₁)
    | nil =>
      have h₁ : Tracks { t with lists := (t.lists.pop (.ntfn a)).2 } s := by
        refine h.pop (fun hl => by cases hl) rfl ?_
        rw [KState.queue_ntfn hn, hq, List.tail_nil, ← hq, ← KState.queue_ntfn hn,
          Function.update_eq_self]
      dsimp only [List.head?_nil]
      exact h₁.setNotification hn ⟨n.notifyBit ||| val, [], true⟩ hq.symm

theorem waitSignal (h : Tracks t s) (hs : Running cfg s) (a : Nat) :
    Follows Stop.Halts Tracks (Intrusive.Notification.waitSignal a s.current t)
      (Notification.waitSignal a s.current s) := by
  rw [Intrusive.Notification.waitSignal, Notification.waitSignal]
  cases hn : s.notifications a with
  | none =>
    rw [bind_error.2 (.inl (h.getNotification_none hn))]
    exact .stop ⟨_, rfl⟩
  | some n =>
    rw [bind_of_ok (h.getNotification hn), lift_bind_of_ok (getNotification_ok.2 hn)]
    refine .ite (fun _ => ?_) fun _ => ?_
    · refine (h.onKernel (blind_updateTcb _ _)).bind fun _ t₁ s₁ _ hy h₁ => ?_
      obtain ⟨th, -, rfl⟩ := updateTcb_ok.1 hy
      exact (h₁.setNotification hn { n with notifyBit := 0, bitIsSet := false } rfl).bind
        fun _ _ _ _ _ h₂ => .ok h₂
    · have hblock := h.block (.ntfn a)
        (modify (·.setNotification a { n with waitQueue := n.waitQueue ++ [s.current] }))
        hs.current_free fun th _ => ?_
      · rw [← bind_assoc, ← bind_assoc]
        exact hblock.bind fun _ _ _ _ _ h₂ => .ok h₂
      · refine ⟨_, rfl,
          KState.bare_setNotification_queue (s := s.setTcb s.current th.suspend) hn _, ?_⟩
        rw [KState.queue_setNotification, KState.queue_ntfn hn]
        rfl

theorem invokeNotification (h : Tracks t s) (hs : Running cfg s) (invLabel : InvLabel)
    (c : CapabilityData) :
    Follows Stop.Halts Tracks (Intrusive.invokeNotification invLabel s.current c t)
      (invokeNotification invLabel s.current c s) := by
  cases invLabel with
  | notifySend => exact (h.sendSignal hs.queued _ _).bind fun _ _ _ _ _ h₁ => .ok h₁
  | notifyWait =>
    refine (h.waitSignal hs _).bind fun b _ _ _ _ h₁ => ?_
    exact (h₁.onKernel (blind_scheduleIf b)).bind fun _ _ _ _ _ h₂ => .ok h₂
  | _ => exact .error h

/-! ## New objects -/

theorem initObject (h : Tracks t s) {k : CapabilityType} {cap : CapabilityData}
    (hfree : k = .tcb → ∀ l, toKernelV cap.getAddress ∉ s.queue l) :
    Follows Stop.Halts Tracks (Intrusive.initObject k cap t) (initObject k cap s) := by
  cases k with
  | tcb =>
    refine .ok ⟨?_, ?_⟩
    · show t.kernel.setTcb _ _ = _
      rw [h.kernel]
      rfl
    · refine h.reads.of_next fun l p hp => Function.update_of_ne ?_ ..
      rintro rfl
      exact hfree rfl l hp
  | endPoint =>
    refine .ok ⟨?_, ?_⟩
    · show t.kernel.setEndpoint _ _ = _
      rw [h.kernel, KState.bare_setEndpoint]
      rfl
    · rw [KState.queue_setEndpoint]
      exact h.reads.renew _
  | notification =>
    refine .ok ⟨?_, ?_⟩
    · show t.kernel.setNotification _ _ = _
      rw [h.kernel, KState.bare_setNotification]
      rfl
    · rw [KState.queue_setNotification]
      exact h.reads.renew _
  | pageTable =>
    refine .ok ⟨?_, h.reads⟩
    show t.kernel.zeroMem _ _ = _
    rw [h.kernel]
    rfl
  | _ => exact .ok h

theorem insertNew (h : Tracks t s) (hheap : HeapWF cfg s) (hs : Queued cfg s) {n a b : Nat}
    {g g' : CapGenerator} {cap : CapabilityData} (hnew : g.Apart cfg (n + 1) a b s)
    (hnext : g.next cfg = .ok (cap, g')) (window parent i : Nat) :
    Follows Stop.Halts Tracks (Intrusive.insertNew cfg window parent g cap i t)
      (insertNew cfg window parent g cap i s) := by
  refine (h.onKernel (.liftExcept _)).bind fun size t₁ s₁ _ hy h₁ => ?_
  obtain ⟨hsize, rfl⟩ := liftExcept_ok.1 hy
  refine (h₁.onKernel (blind_placeObject cfg _)).bind fun _ t₂ s₂ _ hy h₂ => ?_
  obtain ⟨⟨-, hmem⟩, -⟩ | ⟨-, hcreate⟩ := placeObject_ok.1 hy
  · exact absurd hmem (hnew.not_mem hnext hsize)
  obtain ⟨hadm, hapart, rfl⟩ := createObject_ok.1 hcreate
  refine (h₂.initObject fun hk l hmem => ?_).bind fun _ t₃ s₃ _ _ h₃ =>
    h₃.onKernel (blind_insertCap ..)
  -- a new thread is in no queue: there was none at its address
  have hnone : s.tcbs (toKernelV cap.getAddress) = none := hheap.fresh_tcb ⟨hadm, hapart, hsize⟩ hk
  have hst := hs.status l _ hmem
  rw [KState.statusOf, hnone] at hst
  cases hst

theorem insertCaps (h : Tracks t s) (hs : HeapWF cfg s ∧ Running cfg s) {g : CapGenerator}
    (hg : g.userSize < 2 ^ 32) {n : Nat} (hnew : ∃ a b, g.Apart cfg n a b s)
    (window parent i : Nat) :
    Follows Stop.Halts Tracks (Intrusive.insertCaps cfg window parent n g i t)
      (insertCaps cfg window parent n g i s) := by
  have hI : MapStable cfg _ _ := running_mapStable
  induction n generalizing t s g i with
  | zero => exact .ok h
  | succ n ih =>
    refine (h.onKernel (.liftExcept _)).bind fun next t₁ s₁ _ hy h₁ => ?_
    obtain ⟨hnext, rfl⟩ := liftExcept_ok.1 hy
    obtain ⟨cap, g'⟩ := next
    obtain ⟨a, b, hapart⟩ := hnew
    refine (h₁.insertNew hs.1 hs.2.queued hapart hnext ..).bind fun _ t₂ s₂ _ hround h₂ => ?_
    obtain ⟨size, hfresh, hins, hrest⟩ := hapart.round hnext hround
    obtain ⟨hg', -⟩ := next_fresh hnext hg size
    exact ih h₂ (hI.insertCap trivial (hI.born _ _ hfresh hs) hins) (hg' ▸ hg) ⟨_, _, hrest⟩ _

theorem retypeAndInsert (h : Tracks t s) (hs : HeapWF cfg s ∧ Running cfg s)
    {userSize num slot : Nat} {k : CapabilityType} (hsize : userSize < 2 ^ 32)
    (hnew : ∀ c ∈ s.capAt slot, ∀ c' gen, c.invokeRetype cfg userSize num k = .ok (c', gen) →
      ∃ a b, gen.Apart cfg gen.num a b s) (window : Nat) :
    Follows Stop.Halts Tracks (Intrusive.retypeAndInsert cfg slot window userSize num k t)
      (retypeAndInsert cfg slot window userSize num k s) := by
  refine (h.onKernel (.lift (blindQuery_slot slot))).bind fun src t₁ s₁ _ hy h₁ => ?_
  obtain ⟨hsrc, rfl⟩ := lift_ok.1 hy
  refine (h₁.onKernel (.liftExcept _)).bind fun _ t₂ s₂ _ hy h₂ => ?_
  obtain ⟨-, rfl⟩ := liftExcept_ok.1 hy
  refine (h₂.onKernel (.liftExcept _)).bind fun ret t₃ s₃ _ hy h₃ => ?_
  obtain ⟨hret, rfl⟩ := liftExcept_ok.1 hy
  obtain ⟨c, gen⟩ := ret
  obtain ⟨-, hgen, -⟩ := invokeRetype_frame hret
  refine (h₃.onKernel (blind_writeCap slot c)).bind fun _ t₄ s₄ _ hy h₄ => ?_
  obtain rfl := modify_ok.1 hy
  have hI : MapStable cfg _ _ := running_mapStable
  have hcap : s.capAt slot = some src.cap := congrArg (Option.map _) (deref_ok.1 hsrc)
  obtain ⟨a, b, hapart⟩ := hnew _ hcap c gen hret
  exact h₄.insertCaps (hI.setCap _ _ _ trivial hs) (hgen ▸ hsize)
    ⟨a, b, hapart.toBetween, hapart.sized, hapart.clear⟩ ..

theorem invokeUntyped (h : Tracks t s) (hs : HeapWF cfg s ∧ Running cfg s) {reg : Registers}
    {slot : Nat} (hnew : ∀ c ∈ s.capAt slot, c.RetypesApart cfg reg s) (root : CapabilityData) :
    Follows Stop.Halts Tracks (Intrusive.invokeUntyped cfg reg root slot t)
      (invokeUntyped cfg reg root slot s) := by
  have hsize : reg.a5.toNat >>> 32 < 2 ^ 32 := by
    have := reg.a5.toNat_lt
    rw [Nat.shiftRight_eq_div_pow]
    omega
  refine (h.onKernel (.liftExcept _)).bind fun k t₁ s₁ _ hy h₁ => ?_
  obtain ⟨hkind, rfl⟩ := liftExcept_ok.1 hy
  refine (h₁.onKernel (.lift (blindQuery_lookupCap ..))).bind fun dest t₂ s₂ _ hy h₂ => ?_
  obtain ⟨-, rfl⟩ := lift_ok.1 hy
  refine (h₂.onKernel (.lift (blindQuery_getWritable ..))).bind fun window t₃ s₃ _ hy h₃ => ?_
  obtain ⟨-, rfl⟩ := lift_ok.1 hy
  exact (h₃.retypeAndInsert hs hsize (fun c hc c' gen => hnew c hc k c' gen hkind) ..).bind
    fun _ _ _ _ _ h₄ => .ok h₄

/-! ## System calls -/

/-- `TcbResume` of an inactive thread. -/
theorem resumeInactive (h : Tracks t s) (hs : Queued cfg s) {p : Nat}
    (hp : ∀ th ∈ s.tcbs p, th.status = .inactive) :
    Follows Stop.Halts Tracks (Intrusive.resume p t) (Zoeax.resume p s) := by
  have hst : ∀ st, s.statusOf p = some st → st = .inactive := by
    intro st hst
    obtain ⟨th, hth, rfl⟩ := Option.map_eq_some_iff.1 hst
    exact hp th hth
  refine h.resume fun l hmem => ?_
  have hl := hst _ (hs.status l p hmem)
  cases l <;> cases hl

theorem invoke (h : Tracks t s) (hheap : HeapWF cfg s) (hs : Running cfg s) {invLabel : InvLabel}
    {reg : Registers} {inv : Invocation} {k : CapabilityType} (hcur : inv.current = s.current)
    (hslot : s.capAt inv.slot = some inv.cap) (hk : inv.cap.getCapType = .ok k)
    (hcond : ResumeInactive invLabel reg s inv) (hnew : RetypesApart cfg invLabel reg s inv) :
    Follows Stop.Halts Tracks (Intrusive.invoke cfg invLabel reg inv k t)
      (invoke cfg invLabel reg inv k s) := by
  cases k with
  | untyped =>
    refine h.invokeUntyped ⟨hheap, hs⟩ (fun c hc => ?_) _
    obtain rfl : inv.cap = c := Option.some.inj (hslot.symm.trans hc)
    exact hnew hk
  | cNode => exact h.onKernel (blind_invokeCNode ..)
  | tcb =>
    by_cases hl : invLabel = .tcbResume
    · have hp := hcond hl hk
      subst hl
      exact (h.resumeInactive hs.queued hp).bind fun _ _ _ _ _ h₁ => .ok h₁
    · show Follows _ _ (Intrusive.invokeTcb cfg invLabel reg inv t) _
      rw [Intrusive.invokeTcb, if_neg hl]
      exact h.onKernel (blind_invokeTcb cfg hl ..)
  | notification =>
    have := h.invokeNotification hs invLabel inv.cap
    rwa [← hcur] at this
  | endPoint =>
    have := h.invokeEndPoint hs invLabel inv.cap
    rwa [← hcur] at this
  | page => exact h.onKernel (blind_invokePage ..)
  | pageTable => exact h.onKernel (blind_invokePageTable ..)

theorem dispatchSyscall (h : Tracks t s) (hheap : HeapWF cfg s) (hs : Running cfg s)
    {reg : Registers}
    (hcond : ∀ invLabel inv, reg.a7.toNat ≠ sysCallNoPrint →
      InvLabel.ofUsize? reg.a2.toNat = some invLabel →
      findInvocation cfg reg.a0.toNat reg.a1.toNat s = .ok inv →
      ResumeInactive invLabel reg s inv ∧ RetypesApart cfg invLabel reg s inv) :
    Follows Stop.Halts Tracks (Intrusive.dispatchSyscall cfg reg t)
      (dispatchSyscall cfg reg s) := by
  unfold Intrusive.dispatchSyscall Zoeax.dispatchSyscall
  cases hl : InvLabel.ofUsize? reg.a2.toNat with
  | none => exact .error h
  | some invLabel =>
    refine .ite (fun _ => h.onKernel (blind_handlePrint ..)) fun hcall => ?_
    refine (h.onKernel (.lift (blindQuery_findInvocation ..))).bind fun inv t₁ s₁ _ hy h₁ => ?_
    obtain ⟨hinv, rfl⟩ := lift_ok.1 hy
    refine (h₁.onKernel (.liftExcept _)).bind fun k t₂ s₂ _ hy h₂ => ?_
    obtain ⟨hk, rfl⟩ := liftExcept_ok.1 hy
    obtain ⟨hcur, -, -, -, -, hslot⟩ := findInvocation_ok hinv
    obtain ⟨hresume, hnew⟩ := hcond invLabel inv hcall hl hinv
    exact h₂.invoke hheap hs hcur hslot hk hresume hnew

end Tracks

theorem follows_catchErr {α : Type} {x : LM α} {y : KM α}
    (h : Follows Stop.Halts Tracks (x t) (y s)) :
    Follows Stop.Halts Tracks (Intrusive.catchErr x t) (catchErr y s) := by
  unfold Intrusive.catchErr catchErr
  generalize x t = r at h
  generalize y s = r' at h
  cases h with
  | ok h => exact .ok h
  | @error e _ _ h =>
    cases e with
    | err e => exact .ok h
    | halt e => exact .error h
  | stop he =>
    obtain ⟨e, rfl⟩ := he
    exact .stop ⟨e, rfl⟩

namespace Tracks

theorem handleSyscall (h : Tracks t s) (hheap : HeapWF cfg s) (hs : Running cfg s) {th : ThreadInfo}
    (hth : s.tcbs s.curRegBase = some th)
    (hcond : ∀ invLabel inv, th.registers.a7.toNat ≠ sysCallNoPrint →
      InvLabel.ofUsize? th.registers.a2.toNat = some invLabel →
      findInvocation cfg th.registers.a0.toNat th.registers.a1.toNat s = .ok inv →
      ResumeInactive invLabel th.registers s inv ∧ RetypesApart cfg invLabel th.registers s inv) :
    Follows Stop.Halts Tracks (Intrusive.handleSyscall cfg t) (handleSyscall cfg s) := by
  have hbase : t.kernel.curRegBase = s.curRegBase := by rw [h.kernel]; rfl
  rw [Intrusive.handleSyscall, Zoeax.handleSyscall, bind_of_ok (get_ok.2 ⟨rfl, rfl⟩),
    bind_of_ok (get_ok.2 ⟨rfl, rfl⟩), hbase]
  refine (h.onKernel (.lift (blindQuery_getTcb _))).bind fun th' t₁ s₁ _ hy h₁ => ?_
  obtain ⟨hth', rfl⟩ := lift_ok.1 hy
  obtain rfl := Option.some.inj (hth.symm.trans (getTcb_ok.1 hth'))
  exact (follows_catchErr (h₁.dispatchSyscall hheap hs hcond)).bind
    fun ret _ _ _ _ h₂ => h₂.onKernel (blind_returnSyscall ..)

/-- A trap, up to the scheduler. -/
theorem serveTrap (h : Tracks t s) (hs : Ready cfg s) (hheap : HeapWF cfg s) {regs : Registers}
    (hen : (Event.trap regs).Enabled s) (hcond : (Event.trap regs).Meets cfg ResumeInactive s)
    (hnew : (Event.trap regs).Meets cfg (RetypesApart cfg) s) :
    Follows Stop.Halts Tracks (Intrusive.serveTrap cfg regs t)
      ((do trapEntry regs; handleTrap cfg regs.scause.toNat : KM Unit) s) := by
  refine (h.onKernel (blind_trapEntry regs)).bind fun _ t₁ u _ hentry h₁ => ?_
  unfold Intrusive.handleTrap handleTrap
  refine .ite (fun _ => .ite (fun _ => h₁.onKernel (blind_timerTick cfg)) fun _ => .error h₁)
    fun hbit => .ite (fun hcode => ?_) fun _ => .error h₁
  have hcause := scause_eq_of_code hbit hcode
  obtain ⟨th, hth, hu⟩ := trapEntry_ok.1 hentry
  have hready : Ready cfg u := hu ▸ hs.trapEntry hen hth
  have hthu : u.tcbs u.curRegBase = some { th with registers := regs } := by
    rw [hu]
    exact Function.update_self ..
  have hheapu : HeapWF cfg u := hu ▸ hheap.setTcb _ hth
  have hrunning : Running cfg u := by
    rw [hready.regBase] at hthu
    exact hready.running_of_ecall hthu (hen.2 hcause)
  refine h₁.handleSyscall hheapu hrunning hthu ?_
  intro invLabel inv hcall hl hinv
  have hinvokes : Invokes cfg s (.trap regs) invLabel regs u inv :=
    ⟨rfl, hcause, hcall, hl, hentry, hinv⟩
  exact ⟨hcond _ _ _ _ hinvokes, hnew _ _ _ _ hinvokes⟩

end Tracks

/-! ## Runs -/

/-- If the scheduler is about to take the only thread out of the run queue, that thread has no
link. -/
def ListState.LastUnlinked (t : ListState) : Prop :=
  t.kernel.requested = true → ∀ p ∈ (t.lists.lists .run).head,
    (t.lists.lists .run).last = some p → t.lists.next p = none

/-- The same for the state in which a trap calls the scheduler. -/
def Event.LastUnlinked (cfg : Config) (t : ListState) : Event → Prop
  | .trap regs => ∀ v, Intrusive.serveTrap cfg regs t = .ok () v → v.LastUnlinked
  | .store _ _ => True

/-- Runs of the kernel on linked lists that meet what is left to the callers, in which `TcbResume`
is used on inactive threads only, and the scheduler does not take the last thread out of the run
queue while that one has a link. -/
def ListRun (cfg : Config) : ListState → ListState → Prop :=
  Relation.ReflTransGen fun t t' => ∃ ev : Event,
    ev.Meets cfg (GuardedWith cfg ResumeInactive) t.kernel ∧
    ev.LastUnlinked cfg t ∧ Intrusive.Step cfg t ev t'

/-- After boot. The root thread was pushed into the run queue by `make_runnable`, and popped by
`schedule`. -/
def Intrusive.booted (s : KState) : ListState :=
  ⟨s.bare, ((Lists.new.push .run s.current).pop .run).2⟩

/-- The conditions do not look at the queues. -/
theorem GuardedFits.of_bare {invLabel : InvLabel} {reg : Registers} {inv : Invocation}
    (h : GuardedFits cfg invLabel reg s.bare inv) : GuardedFits cfg invLabel reg s inv := by
  obtain ⟨⟨hstatus, ⟨hmaps, hlink⟩, hmint⟩, hfits⟩ := h
  refine ⟨⟨hstatus, ⟨fun vaddr hv => ?_, hlink⟩, ?_⟩, hfits⟩
  · obtain ⟨hlt, hroot⟩ := hmaps vaddr hv
    refine ⟨hlt, fun r hr => hroot r ?_⟩
    rw [(blindQuery_lookupCap ..).same]
    exact hr
  · intro hl hk slot hslot
    refine hmint hl hk slot ?_
    rw [(blindQuery_lookupEntryMut ..).same]
    exact hslot

theorem Event.Meets.of_bare {ev : Event}
    (h : ev.Meets cfg (GuardedWith cfg ResumeInactive) s.bare) :
    ev.Meets cfg (GuardedWith cfg ResumeInactive) s := by
  rintro invLabel reg u inv ⟨hev, hcause, hcall, hl, hentry, hinv⟩
  obtain ⟨th, hth, rfl⟩ := trapEntry_ok.1 hentry
  obtain ⟨hfits, hresume⟩ := h invLabel reg
    (s.setTcb s.curRegBase { th with registers := reg }).bare inv
    ⟨hev, hcause, hcall, hl, trapEntry_ok.2 ⟨th, hth, rfl⟩, by
      rw [(blindQuery_findInvocation ..).same]
      exact hinv⟩
  exact ⟨hfits.of_bare, hresume⟩

/-- After boot no thread waits and none is ready. -/
theorem queue_boot {image : Image} (h : Boot cfg image s) (l : Loc) : s.queue l = [] := by
  have hidle : ∀ s s' u, Dormant cfg s → createIdleThread cfg s = .ok u s' →
      Dormant cfg s' ∧ IdleRuns cfg s' := by
    intro s s' u hs hidle
    obtain ⟨th, hth, rfl⟩ := createIdleThread_ok.1 hidle
    refine ⟨⟨hs.queues, (KState.statusOf_setRegisters hth _ _).trans hs.idle⟩, fun th' hth' => ?_,
      rfl, rfl⟩
    simp only [KState.setTcb, Function.update_self, Option.some.injEq] at hth'
    rw [← hth']
    show (sstatusSpp ||| sstatusSpie).toNat.testBit 8 = true
    decide
  obtain ⟨thread, s₃, s₄, hne, ⟨hd, hi⟩, hres, hsched⟩ :=
    dormant_bootStable.toMapStable.boot (dormant_bootStable.and idleRuns_bootStable) .trivial hidle
      ⟨fun l => by cases l <;> rfl, by simp [KState.statusOf, KState.afterVmInit, KState.initial,
        ThreadInfo.idleInit]⟩ h
  obtain ⟨th, -, rfl⟩ := resume_ok.1 hres
  have hrun : s₃.runqueue = [] := hd.queues .run
  rcases schedule_cases hsched with ⟨hreq, -⟩ | ⟨-, next, rest, t, tc, r, a, hq, ht, htc, hr, rfl⟩ |
    ⟨-, hq, -⟩
  · cases hreq
  · -- the root thread was alone in the run queue, and the idle thread does not join it
    have hq' : s₃.runqueue ++ [thread] = next :: rest := hq
    rw [hrun, List.nil_append] at hq'
    obtain ⟨rfl, rfl⟩ := List.cons.inj hq'
    have htc' : s₃.tcbs cfg.idleThread = some tc := by
      have : ((s₃.setTcb thread th.resume).setTcb thread (t.setTimeout taskQuantum)).tcbs
        s₃.current = some tc := htc
      rwa [hi.current, KState.tcbs_setTcb, if_neg hne.symm, KState.tcbs_setTcb,
        if_neg hne.symm] at this
    have hidle : tc.isRunnable = false := by
      rw [← Bool.not_eq_true, isRunnable_iff htc', hd.idle]
      decide
    rw [hidle] at hr
    cases l with
    | run => exact hr
    | ep a => exact hd.queues (.ep a)
    | ntfn a => exact hd.queues (.ntfn a)
  · have hq' : s₃.runqueue ++ [thread] = [] := hq
    rw [hrun] at hq'
    cases hq'

namespace Tracks

/-- **One event** of the kernel on linked lists is one of the model. -/
theorem step (h : Tracks t s) (hs : Ready cfg s) (hheap : HeapWF cfg s)
    (hcaps : CapsAll ObjectCap s) {ev : Event} (hcond : ev.Meets cfg ResumeInactive s)
    (hnew : ev.Meets cfg (RetypesApart cfg) s) (hlast : ev.LastUnlinked cfg t)
    (hstep : Intrusive.Step cfg t ev t') :
    ∃ s', Step cfg s ev s' ∧ Tracks t' s' := by
  obtain ⟨hen, hexec⟩ := hstep
  rw [h.kernel] at hen
  cases ev with
  | store a w =>
    have hfollows := h.onKernel (blind_setWord a w)
    rw [show Intrusive.onKernel (modify (·.setWord a w)) t = .ok () t' from hexec] at hfollows
    obtain ⟨s', hs', h'⟩ := hfollows.of_ok
    exact ⟨s', ⟨hen, hs'⟩, h'⟩
  | trap regs =>
    obtain ⟨_, v, hserve, hsched⟩ := bind_ok.1 hexec
    have hfollows := h.serveTrap hs hheap hen hcond hnew
    rw [hserve] at hfollows
    obtain ⟨w, hw, hv⟩ := hfollows.of_ok
    obtain ⟨_, u, hentry, htrap⟩ := bind_ok.1 hw
    have hsettled := hs.handleTrap hheap hcaps hen hcond hnew hentry htrap
    have hfollows' := hv.schedule hsettled.toParked fun hr p hq => by
      have hreq : v.kernel.requested = true := by rw [hv.kernel]; exact hr
      obtain ⟨hhead, hend⟩ := (hv.reads.eq_singleton_iff .run p).1 hq
      exact hlast v hserve hreq p hhead hend
    rw [hsched] at hfollows'
    obtain ⟨s', hs', h'⟩ := hfollows'.of_ok
    refine ⟨s', ⟨hen, ?_⟩, h'⟩
    exact bind_ok.2 ⟨_, u, hentry, bind_ok.2 ⟨_, w, htrap, hs'⟩⟩

theorem boot {image : Image} (h : Boot cfg image s) : Tracks (Intrusive.booted s) s := by
  refine ⟨rfl, ?_⟩
  rw [show s.queue = fun _ => [] from funext (queue_boot h)]
  exact .new_push_pop ..

end Tracks

theorem tracks_of_listRun {image : Image} {s₀ : KState} (hboot : Boot cfg image s₀)
    (hrun : ListRun cfg (Intrusive.booted s₀) t) :
    ∃ s, Run cfg (GuardedWith cfg ResumeInactive) s₀ s ∧ Tracks t s := by
  induction hrun with
  | refl => exact ⟨s₀, .refl, .boot hboot⟩
  | tail _ hstep ih =>
    obtain ⟨s, hs, h⟩ := ih
    obtain ⟨ev, hcond, hlast, hstep⟩ := hstep
    obtain ⟨hheap, hall, hcaps, hready⟩ := ready_of_run hboot hs
    rw [h.kernel] at hcond
    have hmeets := hcond.of_bare
    have hnew := hall.meets_retypesApart hheap (hmeets.mono fun _ _ _ _ h => h.1.retypeFits)
    have hresume := hmeets.mono fun _ _ _ _ h => h.2
    obtain ⟨s', hs', h'⟩ := h.step hready hheap hcaps hresume hnew hlast hstep
    exact ⟨s', hs.tail ⟨ev, hmeets, hs'⟩, h'⟩

/-- **The model against the code's lists.** From boot, a run of the kernel on its linked lists is a
run of the kernel on sequences, and the lists hold the sequences, as long as what is left to the
callers is met, `TcbResume` is used on inactive threads and the scheduler does not take the last
thread out of the run queue while that one has a link. -/
theorem run_of_listRun {image : Image} {s₀ : KState} (hboot : Boot cfg image s₀)
    (hrun : ListRun cfg (Intrusive.booted s₀) t) :
    ∃ s, Run cfg (GuardedWith cfg ResumeInactive) s₀ s ∧ t.kernel = s.bare ∧
      t.lists.Reads s.queue (· = .run) := by
  obtain ⟨s, hs, h⟩ := tracks_of_listRun hboot hrun
  exact ⟨s, hs, h.kernel, h.reads⟩

/-! ## Evaluating runs -/

instance (t : ListState) : Decidable t.LastUnlinked := by
  unfold ListState.LastUnlinked
  infer_instance

/-- The condition on the scheduler, evaluated. -/
def Event.lastUnlinked (cfg : Config) (t : ListState) : Event → Bool
  | .trap regs =>
    match Intrusive.serveTrap cfg regs t with
    | .ok _ v => v.LastUnlinked
    | .error _ _ => true
  | .store _ _ => true

theorem Event.lastUnlinked_of_eval {ev : Event} (h : ev.lastUnlinked cfg t = true) :
    ev.LastUnlinked cfg t := by
  cases ev with
  | store a w => trivial
  | trap regs =>
    intro v hv
    simpa only [Event.lastUnlinked, hv, decide_eq_true_eq] using h

/-- Plays the events on the kernel over linked lists; stops at one that the conditions exclude. -/
def Intrusive.runTrace (cfg : Config) : List Event → LM Unit
  | [] => pure ()
  | ev :: evs => do
    let t ← get
    if ev.Enabled t.kernel ∧ ev.meets cfg (GuardedWith cfg ResumeInactive) t.kernel = true ∧
        ev.lastUnlinked cfg t = true then do
      exec cfg ev
      runTrace cfg evs
    else throw panicked

theorem listRun_of_runTrace {evs : List Event} {u : Unit}
    (h : Intrusive.runTrace cfg evs t = .ok u t') : ListRun cfg t t' := by
  induction evs generalizing t with
  | nil =>
    obtain ⟨-, rfl⟩ := pure_ok.1 h
    exact .refl
  | cons ev evs ih =>
    simp only [Intrusive.runTrace, bind_ok, get_ok] at h
    obtain ⟨_, _, ⟨rfl, rfl⟩, h⟩ := h
    split at h
    · next hev =>
      obtain ⟨hen, hmeets, hlast⟩ := hev
      obtain ⟨_, t₁, hexec, h⟩ := bind_ok.1 h
      exact .head ⟨ev, Event.meets_of_eval hmeets, Event.lastUnlinked_of_eval hlast, hen, hexec⟩
        (ih h)
    · exact (throw_ok.1 h).elim

/-- The run returns, and the state it ends in passes the test. -/
def Intrusive.endsIn (x : EStateM.Result Stop ListState Unit) (test : ListState → Bool) : Bool :=
  match x with
  | .ok _ t => test t
  | .error _ _ => false

theorem exists_of_listEndsIn {x : EStateM.Result Stop ListState Unit} {test : ListState → Bool}
    (h : Intrusive.endsIn x test = true) : ∃ t, x = .ok () t ∧ test t = true := by
  cases x with
  | ok u t => exact ⟨t, rfl, h⟩
  | error e t => cases h

/-- **An accepted list of events is a run from boot** of the kernel on linked lists. -/
theorem exists_listRun (cfg : Config) (image : Image) (evs : List Event)
    (test : KState → ListState → Bool)
    (h : endsIn (initKernel cfg image (.initial cfg)) (fun s₀ => Intrusive.endsIn
      (Intrusive.runTrace cfg evs (Intrusive.booted s₀)) (test s₀)) = true) :
    ∃ s₀ t, Boot cfg image s₀ ∧ ListRun cfg (Intrusive.booted s₀) t ∧ test s₀ t = true := by
  obtain ⟨s₀, hboot, h⟩ := exists_boot cfg image _ h
  obtain ⟨t, htrace, ht⟩ := exists_of_listEndsIn h
  exact ⟨s₀, t, hboot, listRun_of_runTrace htrace, ht⟩

/-- The root server makes a thread in slot 20. -/
def retypeSecond : Event :=
  .trap { ecallRegs 9 18 2 with a3 := 2, a4 := 18 + 20 * 2 ^ 32, a5 := 1, a6 := 3 }

/-- Three threads take turns: the one that was put back last has a link to the one that runs. -/
theorem run_after_turns : ∃ s₀ t s, Boot .virt demoImage s₀ ∧
    ListRun .virt (Intrusive.booted s₀) t ∧
    (∃ p, (t.lists.lists .run).last = some p ∧ t.lists.next p = some t.kernel.current) ∧
    Run .virt (GuardedWith .virt ResumeInactive) s₀ s ∧ t.kernel = s.bare ∧
    t.lists.Reads s.queue (· = .run) := by
  obtain ⟨s₀, t, hboot, hrun, htest⟩ := exists_listRun .virt demoImage
    (retypeThread :: retypeSecond :: .trap resumeRegs :: .trap (ecallRegs 20 18 5) ::
      List.replicate 40 (.trap tickRegs))
    (fun _ t => (t.lists.lists .run).last.any fun p => t.lists.next p = some t.kernel.current)
    (by decide +kernel)
  obtain ⟨p, hlast, hlink⟩ := (Option.any_eq_true ..).1 htest
  obtain ⟨s, hs⟩ := run_of_listRun hboot hrun
  exact ⟨s₀, t, s, hboot, hrun, ⟨p, hlast, of_decide_eq_true hlink⟩, hs⟩

end Zoeax
