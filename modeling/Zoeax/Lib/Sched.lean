import Mathlib.Data.List.Basic
import Mathlib.Data.Set.Insert
import Mathlib.Logic.Relation

/-!
# Round robin with waiting queues

A scheduler as its threads see it: who can run, who is blocked, the queue of the ready threads, the
queues that threads wait in, the current thread and what is left of its time slice. Nothing is said
about how any of this is stored.

One step is a clock tick or a call of the current thread (`Moves`), and then a turn of the round
robin (`Turns`). No step loses a thread (`Placed.step`). A thread that is ready is served after a
number of ticks that depends on its position only, whatever the others call in the meantime
(`Waits.lt`): each tick takes something off its rank, the ticks that the threads before it can still
use up.
-/

namespace Zoeax.Lib

open Function (update)

/-- The threads `α`, the queues `ι` that they can wait in, and whose turn it is. -/
@[ext] structure Sched (ι α : Type) where
  runnable : Set α
  blocked : Set α
  ready : List α
  waiting : ι → List α
  current : α
  requested : Bool
  slice : Nat

namespace Sched

variable {ι α : Type} [DecidableEq ι] {idle p : α} {quantum : Nat} {tick : Bool}
  {x y z : Sched ι α}

/-! ## Steps -/

/-- The thread becomes runnable and joins the ready ones. -/
def wakeUp (x : Sched ι α) (p : α) : Sched ι α :=
  { x with runnable := insert p x.runnable, blocked := x.blocked \ {p}, ready := x.ready ++ [p] }

/-- The current thread waits in the queue `l`, and somebody else is to run. -/
def block (x : Sched ι α) (l : ι) : Sched ι α :=
  { x with
    runnable := x.runnable \ {x.current}
    blocked := insert x.current x.blocked
    waiting := update x.waiting l (x.waiting l ++ [x.current])
    requested := true }

/-- The clock ticks for the current thread. -/
def countDown (x : Sched ι α) : Sched ι α :=
  { x with slice := x.slice - 1, requested := x.slice - 1 = 0 || x.requested }

/-- What a call of the current thread does to the threads. -/
inductive Calls (idle : α) (x : Sched ι α) : Sched ι α → Prop
  | resume {p : α} (hp : p ≠ idle) : Calls idle x (x.wakeUp p)
  | wake {l : ι} {p : α} {rest : List α} (hq : x.waiting l = p :: rest) :
      Calls idle x ({ x with waiting := update x.waiting l rest }.wakeUp p)
  | block (l : ι) : Calls idle x (x.block l)

/-- What happens before the turn, and whether it is a tick of the clock. The idle thread makes no
calls, and its time does not run out. -/
inductive Moves (idle : α) (x : Sched ι α) : Bool → Sched ι α → Prop
  | pass : Moves idle x false x
  | tick (hne : x.current ≠ idle) : Moves idle x true x.countDown
  | idleTick (hidle : x.current = idle) : Moves idle x true x
  | call {y : Sched ι α} (hne : x.current ≠ idle) (h : Calls idle x y) : Moves idle x false y

/-- A turn of the round robin. -/
inductive Turns (idle : α) (quantum : Nat) (x : Sched ι α) : Sched ι α → Prop
  | calm (hreq : x.requested = false) : Turns idle quantum x x
  | preempt {q : α} {rest : List α} (hreq : x.requested = true) (hq : x.ready = q :: rest)
      (hrun : x.current ∈ x.runnable) : Turns idle quantum x
        { x with ready := rest ++ [x.current], current := q, requested := false, slice := quantum }
  | switch {q : α} {rest : List α} (hreq : x.requested = true) (hq : x.ready = q :: rest)
      (hrun : x.current ∉ x.runnable) : Turns idle quantum x
        { x with ready := rest, current := q, requested := false, slice := quantum }
  | again (hreq : x.requested = true) (hq : x.ready = []) (hrun : x.current ∈ x.runnable) :
      Turns idle quantum x { x with slice := quantum }
  | sleep (n : Nat) (hreq : x.requested = true) (hq : x.ready = [])
      (hrun : x.current ∉ x.runnable) :
      Turns idle quantum x { x with current := idle, requested := false, slice := n }

/-- One step, and whether the clock ticked. -/
def Step (idle : α) (quantum : Nat) (tick : Bool) (x z : Sched ι α) : Prop :=
  ∃ y, Moves idle x tick y ∧ Turns idle quantum y z

/-- Any number of steps. -/
def Runs (idle : α) (quantum : Nat) : Sched ι α → Sched ι α → Prop :=
  Relation.ReflTransGen fun x z => ∃ tick, Step idle quantum tick x z

/-! ## No thread is lost -/

/-- A thread that can run is current or ready, and one that is blocked waits in some queue. -/
structure Placed (x : Sched ι α) : Prop where
  ready : ∀ p ∈ x.runnable, p = x.current ∨ p ∈ x.ready
  waiting : ∀ p ∈ x.blocked, ∃ l, p ∈ x.waiting l

namespace Placed

omit [DecidableEq ι] in
theorem wakeUp (hx : Placed x) {w : ι → List α}
    (hw : ∀ q ∈ x.blocked, q ≠ p → ∃ l, q ∈ w l) : Placed ({ x with waiting := w }.wakeUp p) where
  ready q hq := by
    rcases hq with rfl | hq
    · exact .inr (List.mem_append_right _ (List.mem_singleton_self q))
    · exact (hx.ready q hq).imp_right (List.mem_append_left _)
  waiting q hq := hw q hq.1 hq.2

theorem block (hx : Placed x) (l : ι) : Placed (x.block l) where
  ready q hq := hx.ready q hq.1
  waiting q hq := by
    rcases hq with rfl | hq
    · exact ⟨l, by simp [Sched.block]⟩
    · obtain ⟨k, hk⟩ := hx.waiting q hq
      refine ⟨k, ?_⟩
      by_cases h : k = l
      · subst h
        simp [Sched.block, hk]
      · simpa [Sched.block, h] using hk

theorem calls (hx : Placed x) (h : Calls idle x y) : Placed y := by
  cases h with
  | resume => exact hx.wakeUp fun q hq _ => hx.waiting q hq
  | @wake l p rest hl =>
    refine hx.wakeUp fun q hq hne => ?_
    obtain ⟨k, hk⟩ := hx.waiting q hq
    refine ⟨k, ?_⟩
    by_cases h : k = l
    · subst h
      rw [hl] at hk
      simpa using (List.mem_cons.1 hk).resolve_left hne
    · simpa [h] using hk
  | block l => exact hx.block l

theorem moves (hx : Placed x) (h : Moves idle x tick y) : Placed y := by
  cases h with
  | pass => exact hx
  | tick => exact ⟨hx.ready, hx.waiting⟩
  | idleTick => exact hx
  | call _ hc => exact hx.calls hc

omit [DecidableEq ι] in
theorem turns (hx : Placed x) (h : Turns idle quantum x y) : Placed y := by
  cases h with
  | calm => exact hx
  | again => exact ⟨hx.ready, hx.waiting⟩
  | @preempt q rest _ hq =>
    refine ⟨fun p hp => ?_, hx.waiting⟩
    change p = q ∨ p ∈ rest ++ [x.current]
    rcases hx.ready p hp with rfl | hmem
    · exact .inr (by simp)
    · rw [hq] at hmem
      exact (List.mem_cons.1 hmem).imp_right (List.mem_append_left _)
  | @switch q rest _ hq hrun =>
    refine ⟨fun p hp => ?_, hx.waiting⟩
    rcases hx.ready p hp with rfl | hmem
    · exact absurd hp hrun
    · rw [hq] at hmem
      exact List.mem_cons.1 hmem
  | sleep _ _ hq hrun =>
    refine ⟨fun p hp => ?_, hx.waiting⟩
    rcases hx.ready p hp with rfl | hmem
    · exact absurd hp hrun
    · rw [hq] at hmem
      cases hmem

/-- **One step** loses no thread. -/
theorem step (hx : Placed x) (h : Step idle quantum tick x z) : Placed z := by
  obtain ⟨y, hmove, hturn⟩ := h
  exact (hx.moves hmove).turns hturn

theorem runs (hx : Placed x) (h : Runs idle quantum x z) : Placed z := by
  induction h with
  | refl => exact hx
  | tail _ hstep ih =>
    obtain ⟨tick, hstep⟩ := hstep
    exact ih.step hstep

end Placed

/-! ## The idle thread and the time slice -/

/-- The idle thread is in no queue, and current only while nobody is ready and nothing is
requested. Another current thread has between one tick and a quantum left. -/
structure Sound (idle : α) (quantum : Nat) (x : Sched ι α) : Prop where
  rest : x.current = idle → x.ready = [] ∧ x.requested = false
  slice : x.current ≠ idle → 1 ≤ x.slice ∧ x.slice ≤ quantum
  ready : idle ∉ x.ready
  waiting : ∀ l, idle ∉ x.waiting l

/-- What holds of `Sound` before the turn: a time slice that is used up has asked for it. -/
structure Due (idle : α) (quantum : Nat) (x : Sched ι α) : Prop where
  rest : x.current = idle → x.ready = [] ∧ x.requested = false
  slice : x.current ≠ idle → x.slice ≤ quantum ∧ (x.requested = false → 1 ≤ x.slice)
  ready : idle ∉ x.ready
  waiting : ∀ l, idle ∉ x.waiting l

namespace Sound

omit [DecidableEq ι] in
theorem due (hx : Sound idle quantum x) : Due idle quantum x :=
  ⟨hx.rest, fun h => ⟨(hx.slice h).2, fun _ => (hx.slice h).1⟩, hx.ready, hx.waiting⟩

omit [DecidableEq ι] in
theorem wakeUp (hx : Sound idle quantum x) (hp : p ≠ idle) (hne : x.current ≠ idle)
    {w : ι → List α} (hw : ∀ l, idle ∉ w l) :
    Due idle quantum ({ x with waiting := w }.wakeUp p) where
  rest h := absurd h hne
  slice _ := ⟨(hx.slice hne).2, fun _ => (hx.slice hne).1⟩
  ready h := (List.mem_append.1 h).elim hx.ready fun h => hp (List.mem_singleton.1 h).symm
  waiting := hw

theorem calls (hx : Sound idle quantum x) (hne : x.current ≠ idle) (h : Calls idle x y) :
    Due idle quantum y := by
  cases h with
  | resume hp => exact hx.wakeUp hp hne hx.waiting
  | @wake l p rest hq =>
    have hmem := hx.waiting l
    rw [hq, List.mem_cons, not_or] at hmem
    refine hx.wakeUp (Ne.symm hmem.1) hne fun k => ?_
    by_cases h : k = l
    · subst h
      simpa using hmem.2
    · simpa [h] using hx.waiting k
  | block l =>
    refine ⟨fun h => absurd h hne, fun _ => ⟨(hx.slice hne).2, fun h => by cases h⟩, hx.ready,
      fun k => ?_⟩
    by_cases h : k = l
    · subst h
      simpa [Sched.block] using ⟨hx.waiting k, hne.symm⟩
    · simpa [Sched.block, h] using hx.waiting k

theorem moves (hx : Sound idle quantum x) (h : Moves idle x tick y) : Due idle quantum y := by
  cases h with
  | pass => exact hx.due
  | tick hne =>
    refine ⟨fun h => absurd h hne, fun _ => ⟨?_, fun h => ?_⟩, hx.ready, hx.waiting⟩
    · exact (Nat.sub_le ..).trans (hx.slice hne).2
    · obtain ⟨h, -⟩ := Bool.or_eq_false_iff.1 h
      exact Nat.pos_of_ne_zero (of_decide_eq_false h)
  | idleTick => exact hx.due
  | call hne hc => exact hx.calls hne hc

end Sound

omit [DecidableEq ι] in
theorem Due.turns (hpos : 1 ≤ quantum) (hx : Due idle quantum x) (h : Turns idle quantum x y) :
    Sound idle quantum y := by
  have hnext : ∀ {q rest}, x.ready = q :: rest → q ≠ idle ∧ idle ∉ rest := by
    intro q rest hq
    have := hx.ready
    rw [hq, List.mem_cons, not_or] at this
    exact ⟨Ne.symm this.1, this.2⟩
  cases h with
  | calm hreq =>
    exact ⟨hx.rest, fun h => ⟨(hx.slice h).2 hreq, (hx.slice h).1⟩, hx.ready, hx.waiting⟩
  | preempt hreq hq =>
    have hne : x.current ≠ idle := fun h => by
      rw [(hx.rest h).2] at hreq
      cases hreq
    refine ⟨fun h => absurd h (hnext hq).1, fun _ => ⟨hpos, le_rfl⟩, ?_, hx.waiting⟩
    simpa using ⟨(hnext hq).2, hne.symm⟩
  | switch _ hq =>
    exact ⟨fun h => absurd h (hnext hq).1, fun _ => ⟨hpos, le_rfl⟩, (hnext hq).2, hx.waiting⟩
  | again hreq hq =>
    exact ⟨hx.rest, fun _ => ⟨hpos, le_rfl⟩, hx.ready, hx.waiting⟩
  | sleep _ _ hq =>
    exact ⟨fun _ => ⟨hq, rfl⟩, fun h => absurd rfl h, hx.ready, hx.waiting⟩

theorem Sound.step (hpos : 1 ≤ quantum) (hx : Sound idle quantum x)
    (h : Step idle quantum tick x z) : Sound idle quantum z := by
  obtain ⟨y, hmove, hturn⟩ := h
  exact (hx.moves hmove).turns hpos hturn

theorem Sound.runs (hpos : 1 ≤ quantum) (hx : Sound idle quantum x) (h : Runs idle quantum x z) :
    Sound idle quantum z := by
  induction h with
  | refl => exact hx
  | tail _ hstep ih =>
    obtain ⟨tick, hstep⟩ := hstep
    exact ih.step hpos hstep

/-! ## How long a ready thread waits -/

/-- Others join the ready threads at the end. -/
theorem Moves.ready (h : Moves idle x tick y) : ∃ l, y.ready = x.ready ++ l := by
  have hsame : ∃ l, x.ready = x.ready ++ l := ⟨[], (List.append_nil _).symm⟩
  cases h with
  | pass => exact hsame
  | tick => exact hsame
  | idleTick => exact hsame
  | call _ hc =>
    cases hc with
    | @resume p => exact ⟨[p], rfl⟩
    | @wake _ p => exact ⟨[p], rfl⟩
    | block => exact hsame

/-- Before the turn, a tick has taken one off the time slice. -/
theorem Moves.slice (hx : Sound idle quantum x) (hready : x.ready ≠ [])
    (h : Moves idle x tick y) : tick.toNat + y.slice = x.slice := by
  cases h with
  | pass => exact Nat.zero_add _
  | tick hne =>
    have := (hx.slice hne).1
    change 1 + (x.slice - 1) = x.slice
    omega
  | idleTick hidle => exact absurd (hx.rest hidle).1 hready
  | call _ hc => cases hc <;> exact Nat.zero_add _

section Waits

variable [DecidableEq α]

/-- The ticks that the current thread and those before `p` can still use up. -/
def rank (quantum : Nat) (p : α) (x : Sched ι α) : Nat := quantum * x.ready.idxOf p + x.slice

theorem rank_moves (hx : Sound idle quantum x) (hp : p ∈ x.ready) (h : Moves idle x tick y) :
    p ∈ y.ready ∧ tick.toNat + y.rank quantum p = x.rank quantum p := by
  obtain ⟨l, hl⟩ := h.ready
  have hslice := h.slice hx (List.ne_nil_of_mem hp)
  refine ⟨hl ▸ List.mem_append_left l hp, ?_⟩
  rw [rank, rank, hl, List.idxOf_append_of_mem hp, ← hslice]
  omega

omit [DecidableEq ι] in
theorem rank_turns (hp : p ∈ x.ready) (h : Turns idle quantum x y) (hne : y.current ≠ p) :
    p ∈ y.ready ∧ y.rank quantum p ≤ x.rank quantum p := by
  -- the first thread leaves, the others move up, and the one that leaves gets a full time slice
  have hturn : ∀ {q rest l}, x.ready = q :: rest → q ≠ p →
      p ∈ rest ++ l ∧ quantum * (rest ++ l).idxOf p + quantum ≤ x.rank quantum p := by
    intro q rest l hq hne
    rw [hq] at hp
    have hmem : p ∈ rest := (List.mem_cons.1 hp).resolve_left hne.symm
    refine ⟨List.mem_append_left l hmem, ?_⟩
    rw [rank, hq, List.idxOf_cons_ne _ hne, List.idxOf_append_of_mem hmem, Nat.mul_succ]
    omega
  cases h with
  | calm => exact ⟨hp, le_rfl⟩
  | preempt _ hq => exact hturn hq hne
  | @switch q rest _ hq =>
    have := hturn (l := []) hq hne
    rwa [List.append_nil] at this
  | again _ hq =>
    rw [hq] at hp
    cases hp
  | sleep _ _ hq =>
    rw [hq] at hp
    cases hp

/-- Steps with `n` ticks in which it was never the turn of `p`. -/
inductive Waits (idle : α) (quantum : Nat) (p : α) : Nat → Sched ι α → Sched ι α → Prop
  | refl (x : Sched ι α) : Waits idle quantum p 0 x x
  | head {n : Nat} {tick : Bool} {x y z : Sched ι α} (h : Step idle quantum tick x y)
      (hne : y.current ≠ p) (w : Waits idle quantum p n y z) :
      Waits idle quantum p (tick.toNat + n) x z

namespace Waits

variable {n : Nat}

/-- Every tick counts, and every turn that goes to somebody else counts as a quantum. -/
theorem rank_le (hpos : 1 ≤ quantum) (hx : Sound idle quantum x) (hp : p ∈ x.ready)
    (w : Waits idle quantum p n x z) :
    Sound idle quantum z ∧ p ∈ z.ready ∧ n + z.rank quantum p ≤ x.rank quantum p := by
  induction w with
  | refl => exact ⟨hx, hp, by omega⟩
  | head h hne _ ih =>
    have hy := hx.step hpos h
    obtain ⟨v, hmove, hturn⟩ := h
    obtain ⟨hv, hmoved⟩ := rank_moves hx hp hmove
    obtain ⟨hmem, hturned⟩ := rank_turns hv hturn hne
    obtain ⟨hz, hlast, hle⟩ := ih hy hmem
    exact ⟨hz, hlast, by omega⟩

/-- **Bounded waiting.** A ready thread with `i` threads before it is served within `i + 1` quanta,
and waits in the queue until then. -/
theorem lt (hpos : 1 ≤ quantum) (hx : Sound idle quantum x) (hp : p ∈ x.ready)
    (w : Waits idle quantum p n x y) :
    p ∈ y.ready ∧ n < quantum * (x.ready.idxOf p + 1) := by
  obtain ⟨hy, hmem, hle⟩ := w.rank_le hpos hx hp
  have hbusy : ∀ {v : Sched ι α}, Sound idle quantum v → p ∈ v.ready → v.current ≠ idle := by
    intro v hv hmem hidle
    rw [(hv.rest hidle).1] at hmem
    cases hmem
  have hfirst := (hx.slice (hbusy hx hp)).2
  have hlast := (hy.slice (hbusy hy hmem)).1
  refine ⟨hmem, ?_⟩
  rw [rank, rank] at hle
  rw [Nat.mul_succ]
  omega

end Waits

end Waits

end Sched

end Zoeax.Lib
