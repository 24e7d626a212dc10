import Zoeax.Kernel.LinkedList

/-!
# The intrusive list against FIFO queues

`Rep c q` says that the lists of `c` hold the sequences `q`: the two pointers of a list are the
ends of its sequence, and the `next` field of the `i`-th item names the `(i + 1)`-th. `push` keeps
it for an item that is in no list and has no `next` (`Rep.push`), and `pop` keeps it always
(`Rep.pop`).

`pop` does not clear the `next` field of the item it returns. So an item that leaves a list of two
or more members keeps a stale link to the new head: `next_is_none` is false of it, and pushing it
again ties the two lists together. `refinesFifo_iff_shortPops` says that this is the only way to
break the refinement: a run of guarded operations is a run of FIFO queues exactly when no `pop` is
made on a list of two or more members.
-/

namespace Zoeax

open Function (update)

variable {ι α : Type} [DecidableEq ι] [DecidableEq α]

/-! ## The representation -/

/-- The lists of `c` hold the sequences `q`. -/
structure Lists.Rep (c : Lists ι α) (q : ι → List α) : Prop where
  head : ∀ l, (c.lists l).head = (q l).head?
  last : ∀ l, (c.lists l).last = (q l).getLast?
  next : ∀ {l : ι} {i : Nat} {x : α}, (q l)[i]? = some x → c.next x = (q l)[i + 1]?
  once : ∀ {l l' : ι} {i j : Nat} {x : α}, (q l)[i]? = some x → (q l')[j]? = some x →
    l = l' ∧ i = j

namespace Lists.Rep

omit [DecidableEq ι] [DecidableEq α] in
theorem new : Rep (Lists.new : Lists ι α) (fun _ => []) where
  head _ := rfl
  last _ := rfl
  next h := by simp at h
  once h := by simp at h

omit [DecidableEq ι] [DecidableEq α] in
theorem isEmpty_iff {c : Lists ι α} {q : ι → List α} (h : Rep c q) (l : ι) :
    (c.lists l).isEmpty = true ↔ q l = [] := by
  simp only [LinkedList.isEmpty, h.head l, Option.isNone_iff_eq_none, List.head?_eq_none_iff]

omit [DecidableEq α] in
/-- After an item was appended every position is an old one or the new one. -/
theorem getElem?_append_item {q : ι → List α} {l k : ι} {x y : α} {i : Nat}
    (h : (update q l (q l ++ [x]) k)[i]? = some y) :
    (q k)[i]? = some y ∨ (k = l ∧ i = (q l).length ∧ y = x) := by
  by_cases hk : k = l
  · subst hk
    rw [Function.update_self, List.getElem?_append] at h
    split at h
    · exact .inl h
    · next hlt =>
      simp only [List.getElem?_singleton, Option.ite_none_right_eq_some, Option.some.injEq] at h
      obtain ⟨hz, rfl⟩ := h
      exact .inr ⟨rfl, by omega, rfl⟩
  · rw [Function.update_of_ne hk] at h
    exact .inl h

omit [DecidableEq α] in
/-- Appending an item that is in no list keeps every item in one place. -/
theorem once_append {q : ι → List α}
    (once : ∀ {l l' : ι} {i j : Nat} {x : α}, (q l)[i]? = some x → (q l')[j]? = some x →
      l = l' ∧ i = j)
    {l : ι} {x : α} (hx : ∀ k, x ∉ q k) {k k' : ι} {i j : Nat} {y : α}
    (hi : (update q l (q l ++ [x]) k)[i]? = some y)
    (hj : (update q l (q l ++ [x]) k')[j]? = some y) : k = k' ∧ i = j := by
  rcases getElem?_append_item hi with hi' | ⟨hk, hi', hyx⟩ <;>
    rcases getElem?_append_item hj with hj' | ⟨hk', hj', hyx'⟩
  · exact once hi' hj'
  · exact absurd (List.mem_of_getElem? (hyx' ▸ hi')) (hx _)
  · exact absurd (List.mem_of_getElem? (hyx ▸ hj')) (hx _)
  · exact ⟨hk.trans hk'.symm, hi'.trans hj'.symm⟩

omit [DecidableEq α] in
/-- Behind an item that is not the last of the list nothing changes. -/
theorem getElem?_succ_append_item {q : ι → List α} {l k : ι} {x y : α} {i : Nat}
    (hy : (q k)[i]? = some y) (hlast : k = l → i + 1 ≠ (q l).length) :
    (update q l (q l ++ [x]) k)[i + 1]? = (q k)[i + 1]? := by
  by_cases hk : k = l
  · subst hk
    have hlt : i < (q k).length := (List.getElem?_eq_some_iff.1 hy).1
    have hne := hlast rfl
    rw [Function.update_self, List.getElem?_append_left (by omega)]
  · rw [Function.update_of_ne hk]

/-- `push` appends, for an item that is in no list and has no `next`. -/
theorem push {c : Lists ι α} {q : ι → List α} (h : Rep c q) {l : ι} {x : α}
    (hx : ∀ k, x ∉ q k) (hnext : c.next x = none) :
    Rep (c.push l x) (update q l (q l ++ [x])) := by
  have hlast := h.last l
  -- nothing is behind the new item
  have hend : (update q l (q l ++ [x]) l)[(q l).length + 1]? = none := by
    rw [Function.update_self, List.getElem?_eq_none_iff, List.length_append]
    exact Nat.le_refl _
  unfold Lists.push
  cases hp : (c.lists l).last with
  | none =>
    have hnil : q l = [] := List.getLast?_eq_none_iff.1 (hlast.symm.trans hp)
    refine ⟨fun k => ?_, fun k => ?_, fun {k i y} hy => ?_, once_append h.once hx⟩
    · by_cases hk : k = l
      · subst hk; simp [hnil]
      · simp [Function.update_of_ne hk, h.head k]
    · by_cases hk : k = l
      · subst hk; simp [hnil]
      · simp [Function.update_of_ne hk, h.last k]
    · rcases getElem?_append_item hy with hy' | ⟨rfl, rfl, rfl⟩
      · rw [getElem?_succ_append_item hy' fun _ => by rw [hnil]; exact Nat.succ_ne_zero i]
        exact h.next hy'
      · exact hnext.trans hend.symm
  | some p =>
    have hpl : (q l)[(q l).length - 1]? = some p := by
      rw [← List.getLast?_eq_getElem?, ← hlast, hp]
    have hmem : p ∈ q l := List.mem_of_getElem? hpl
    have hlen : 0 < (q l).length := List.length_pos_of_mem hmem
    have hxp : x ≠ p := fun e => hx l (e ▸ hmem)
    refine ⟨fun k => ?_, fun k => ?_, fun {k i y} hy => ?_, once_append h.once hx⟩
    · by_cases hk : k = l
      · subst hk
        simp only [Function.update_self, h.head k, List.head?_append]
        cases hq : q k with
        | nil => simp [hq] at hlen
        | cons a t => rfl
      · simp [Function.update_of_ne hk, h.head k]
    · by_cases hk : k = l
      · subst hk; simp
      · simp [Function.update_of_ne hk, h.last k]
    · dsimp only
      rcases getElem?_append_item hy with hy' | ⟨rfl, rfl, rfl⟩
      · -- an old item: only the former last one gets a new link
        by_cases hyp : y = p
        · subst hyp
          obtain ⟨rfl, rfl⟩ := h.once hy' hpl
          rw [Function.update_self, Function.update_self, Nat.sub_add_cancel hlen,
            List.getElem?_concat_length]
        · rw [Function.update_of_ne hyp, getElem?_succ_append_item hy', h.next hy']
          rintro rfl hi
          rw [show i = (q k).length - 1 by omega, hpl] at hy'
          exact hyp (Option.some.inj hy').symm
      · exact (Function.update_of_ne hxp ..).trans (hnext.trans hend.symm)

omit [DecidableEq α] in
/-- `pop` returns the first item and leaves the rest. -/
theorem pop {c : Lists ι α} {q : ι → List α} (h : Rep c q) (l : ι) :
    (c.pop l).1 = (q l).head? ∧ Rep (c.pop l).2 (update q l (q l).tail) := by
  have hget : ∀ k i, (update q l (q l).tail k)[i]? = (q k)[if k = l then i + 1 else i]? := by
    intro k i
    by_cases hk : k = l
    · subst hk; simp
    · simp [hk]
  have hnxt : ((c.lists l).head.bind c.next) = (q l).tail.head? := by
    rw [h.head l]
    cases hq : q l with
    | nil => rfl
    | cons y t =>
      have hy : (q l)[0]? = some y := by simp [hq]
      simp only [List.head?_cons, Option.bind_some, List.tail_cons, h.next hy, hq]
      simp [List.head?_eq_getElem?]
  refine ⟨h.head l, fun k => ?_, fun k => ?_, fun {k i x} hx => ?_, fun {k k' i j x} hi hj => ?_⟩
  · by_cases hk : k = l
    · subst hk; simpa [Lists.pop] using hnxt
    · simp [Lists.pop, Function.update_of_ne hk, h.head k]
  · by_cases hk : k = l
    · subst hk
      simp only [Lists.pop, Function.update_self, hnxt]
      cases hq : q k with
      | nil => simp
      | cons y t =>
        cases t with
        | nil => simp
        | cons z t => simp [h.last k, hq]
    · simp [Lists.pop, Function.update_of_ne hk, h.last k]
  · rw [hget] at hx ⊢
    simp only [Lists.pop]
    rw [h.next hx]
    split <;> rfl
  · rw [hget] at hi hj
    obtain ⟨rfl, hij⟩ := h.once hi hj
    refine ⟨rfl, ?_⟩
    split at hij <;> omega

end Lists.Rep

/-! ## Runs -/

/-- What the users of the lists rely on between operations: `is_empty` tells the truth, and an
item that is in no list has no `next`, so that the assertions of `block_thread` and
`wake_up_thread` hold of it. -/
def Lists.AgreesAt (c : Lists ι α) (q : ι → List α) : Prop :=
  (∀ l, (c.lists l).isEmpty = true ↔ q l = []) ∧
    ∀ x, (∀ l, x ∉ q l) → c.nextIsNone x = true

/-- An operation returns what the FIFO queues return, and an item it returns has no `next`. -/
def ListOp.ReturnsFifo (c : Lists ι α) (q : ι → List α) (op : ListOp ι α) : Prop :=
  (op.exec c).1 = (op.spec q).1 ∧ ∀ x, (op.exec c).1 = some x → (op.exec c).2.nextIsNone x = true

/-- The intrusive lists from `c` behave as the FIFO queues from `q`, all along a sequence of
operations. -/
def ListOp.RefinesFifo (c : Lists ι α) (q : ι → List α) : List (ListOp ι α) → Prop
  | [] => c.AgreesAt q
  | op :: ops => c.AgreesAt q ∧ op.ReturnsFifo c q ∧ RefinesFifo (op.exec c).2 (op.spec q).2 ops

/-- No `pop` of the sequence is made on a list of two or more members. -/
def ListOp.ShortPops (q : ι → List α) : List (ListOp ι α) → Prop
  | [] => True
  | .push l x :: ops => ShortPops ((ListOp.push l x).spec q).2 ops
  | .pop l :: ops => (q l).length ≤ 1 ∧ ShortPops ((ListOp.pop l).spec q).2 ops

namespace Lists

/-- The invariant of a run without long pops: the lists hold the queues, and no item outside them
keeps a link. -/
structure Clean (c : Lists ι α) (q : ι → List α) : Prop where
  rep : c.Rep q
  unlinked : ∀ x, (∀ l, x ∉ q l) → c.next x = none

namespace Clean

variable {c : Lists ι α} {q : ι → List α}

omit [DecidableEq ι] [DecidableEq α] in
theorem new : Clean (Lists.new : Lists ι α) (fun _ => []) := ⟨.new, fun _ _ => rfl⟩

omit [DecidableEq ι] [DecidableEq α] in
theorem agreesAt (h : Clean c q) : c.AgreesAt q :=
  ⟨h.rep.isEmpty_iff, fun x hx => by simp [nextIsNone, h.unlinked x hx]⟩

theorem push (h : Clean c q) {l : ι} {x : α} (hx : ∀ k, x ∉ q k) :
    Clean (c.push l x) (update q l (q l ++ [x])) := by
  refine ⟨h.rep.push hx (h.unlinked x hx), fun y hy => ?_⟩
  have hyx : y ≠ x := fun e => hy l (by simp [e])
  have hyq : ∀ k, y ∉ q k := by
    intro k hk
    by_cases hkl : k = l
    · subst hkl; exact hy k (by simp [hk])
    · exact hy k (by rwa [Function.update_of_ne hkl])
  unfold Lists.push
  cases hp : (c.lists l).last with
  | none => exact h.unlinked y hyq
  | some p =>
    have hmem : p ∈ q l := List.mem_of_getLast? (h.rep.last l ▸ hp)
    have hyp : y ≠ p := fun e => hyq l (e ▸ hmem)
    exact (Function.update_of_ne hyp ..).trans (h.unlinked y hyq)

/-- Popping the only member of a list (or nothing) leaves no stale link. -/
theorem pop (h : Clean c q) {l : ι} (hl : (q l).length ≤ 1) :
    Clean (c.pop l).2 (update q l (q l).tail) := by
  refine ⟨(h.rep.pop l).2, fun y hy => ?_⟩
  show c.next y = none
  by_cases hyl : y ∈ q l
  · obtain ⟨i, hi⟩ := List.getElem?_of_mem hyl
    rw [h.rep.next hi, List.getElem?_eq_none_iff]
    have hlt := (List.getElem?_eq_some_iff.1 hi).1
    omega
  · refine h.unlinked y fun k hk => ?_
    by_cases hkl : k = l
    · exact hyl (hkl ▸ hk)
    · exact hy k (by rwa [Function.update_of_ne hkl])

omit [DecidableEq α] in
/-- The second member of a list is the `next` of the first: popping the first returns an item
that is still linked. -/
theorem next_of_long_pop (h : Clean c q) {l : ι} (hl : 2 ≤ (q l).length) :
    ∃ x y, (c.pop l).1 = some x ∧ (c.pop l).2.next x = some y := by
  cases hq : q l with
  | nil => simp [hq] at hl
  | cons x t =>
    cases t with
    | nil => simp [hq] at hl
    | cons y t =>
      have hx : (q l)[0]? = some x := by simp [hq]
      refine ⟨x, y, by rw [(h.rep.pop l).1, hq]; rfl, ?_⟩
      show c.next x = some y
      rw [h.rep.next hx, hq]
      rfl

/-- A `pop` on a short list returns what the queue returns, unlinked. -/
theorem returnsFifo_pop (h : Clean c q) {l : ι} (hl : (q l).length ≤ 1) :
    (ListOp.pop l).ReturnsFifo c q := by
  refine ⟨(h.rep.pop l).1, fun x hx => ?_⟩
  have hx' : (q l).head? = some x := (h.rep.pop l).1.symm.trans hx
  have hget : (q l)[0]? = some x := by rw [← List.head?_eq_getElem?, hx']
  have hnone : c.next x = none := by
    rw [h.rep.next hget, List.getElem?_eq_none_iff]
    omega
  simp [nextIsNone, ListOp.exec, Lists.pop, hnone]

end Clean

end Lists

/-- From clean lists, a guarded run refines the FIFO queues exactly when its pops are short. -/
theorem refinesFifo_iff_of_clean (ops : List (ListOp ι α)) {c : Lists ι α} {q : ι → List α}
    (h : c.Clean q) (hg : ListOp.GuardedRun q ops) :
    ListOp.RefinesFifo c q ops ↔ ListOp.ShortPops q ops := by
  induction ops generalizing c q with
  | nil => exact iff_of_true h.agreesAt trivial
  | cons op ops ih =>
    obtain ⟨hop, hg⟩ := hg
    cases op with
    | push l x =>
      have hret : (ListOp.push l x).ReturnsFifo c q := ⟨rfl, fun y hy => by cases hy⟩
      have hstep := ih (h.push (l := l) hop) hg
      exact ⟨fun hr => hstep.1 hr.2.2, fun hs => ⟨h.agreesAt, hret, hstep.2 hs⟩⟩
    | pop l =>
      by_cases hl : (q l).length ≤ 1
      · have hstep := ih (h.pop hl) hg
        exact ⟨fun hr => ⟨hl, hstep.1 hr.2.2⟩,
          fun hs => ⟨h.agreesAt, h.returnsFifo_pop hl, hstep.2 hs.2⟩⟩
      · -- the popped item keeps its link to the new head
        refine iff_of_false (fun hr => ?_) (fun hs => hl hs.1)
        obtain ⟨x, y, hx, hy⟩ := h.next_of_long_pop (l := l) (by omega)
        have hnone := hr.2.1.2 x hx
        simp only [ListOp.exec, Lists.nextIsNone, hy] at hnone
        cases hnone

/-- **LinkedList against FIFO queues.** For every set of lists over the same items and every
sequence of operations that pushes an item only while it is in no list: the lists behave as FIFO
queues all along (values returned, `is_empty`, no `next` on a returned item or on any item outside
the lists) if and only if no `pop` is made on a list of two or more members. -/
theorem refinesFifo_iff_shortPops (ops : List (ListOp ι α))
    (hg : ListOp.GuardedRun (fun _ => []) ops) :
    ListOp.RefinesFifo Lists.new (fun _ => []) ops ↔ ListOp.ShortPops (fun _ => []) ops :=
  refinesFifo_iff_of_clean ops .new hg

theorem refinesFifo_two_lists :
    ListOp.RefinesFifo (Lists.new : Lists Bool Nat) (fun _ => [])
      [.push true 1, .push false 2, .pop true, .push false 1, .pop true] :=
  (refinesFifo_iff_shortPops _ (by simp [ListOp.GuardedRun, ListOp.Guarded, ListOp.spec,
    Function.update_apply])).2 (by simp [ListOp.ShortPops, ListOp.spec])

/-- Two items on one list, the first popped and pushed again: its stale link makes the list
cyclic, and item `2` is returned twice. -/
theorem not_refinesFifo_stale_next :
    ListOp.GuardedRun (fun _ : Bool => ([] : List Nat))
        [.push true 1, .push true 2, .pop true, .push true 1, .pop true, .pop true, .pop true] ∧
      ListOp.results (Lists.new : Lists Bool Nat)
          [.push true 1, .push true 2, .pop true, .push true 1, .pop true, .pop true, .pop true] =
        [none, none, some 1, none, some 2, some 1, some 2] ∧
      ¬ListOp.RefinesFifo (Lists.new : Lists Bool Nat) (fun _ => [])
          [.push true 1, .push true 2, .pop true, .push true 1, .pop true, .pop true,
            .pop true] := by
  refine ⟨by simp [ListOp.GuardedRun, ListOp.Guarded, ListOp.spec, Function.update_apply],
    by decide, fun h => ?_⟩
  -- the last `pop` answers `some 2`; the queue is empty by then
  obtain ⟨-, -, -, -, -, -, -, -, -, -, -, -, -, ⟨hlast, -⟩, -⟩ := h
  simp [ListOp.exec, ListOp.spec, Lists.pop, Lists.push, Lists.new, LinkedList.new] at hlast

end Zoeax
