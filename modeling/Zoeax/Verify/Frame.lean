import Zoeax.Kernel.Syscall

/-!
# What the capability operations write

The operations on capability spaces are made of four writes: an entry is built in a local variable,
links are changed, an entry is copied into a slot, a slot is cleared. An invariant that survives
those writes survives the operations. The lemmas here say so for each operation, with the writes it
makes as hypotheses.
-/

namespace Zoeax

open Lib Exec

variable {cfg : Config} {I : KState → Prop}

/-! ## Threads -/

/-- Reading a thread control block and then changing the state. -/
theorem keeps_deref_modify {α : Type} {cell : KState → Option α} {g : α → KState → KState}
    (h : ∀ s a, cell s = some a → I s → I (g a s)) :
    Keeps I (do let a ← deref cell; modify (g a) : KM Unit) := by
  intro s hs
  cases hr : (do let a ← deref cell; modify (g a) : KM Unit) s with
  | ok u s' =>
    simp only [Exec.bind_ok, Exec.lift_ok, Exec.modify_ok, deref_ok] at hr
    obtain ⟨a, _, ⟨ha, rfl⟩, rfl⟩ := hr
    exact h s a ha hs
  | error e s' =>
    rcases bind_error.1 hr with hr | ⟨a, u, -, hr⟩
    · obtain ⟨-, rfl⟩ := lift_error.1 hr
      exact hs
    · cases hr

theorem keeps_updateTcb {p : Nat} {f : ThreadInfo → ThreadInfo}
    (h : ∀ s t, s.tcbs p = some t → I s → I (s.setTcb p (f t))) : Keeps I (updateTcb p f) :=
  keeps_deref_modify h

/-! ## Links -/

section Links

variable (hlink : ∀ s p f, I s → I (s.relink p f))

include hlink

theorem keeps_setNode (p node : Nat) (isNext : Bool) : Keeps I (setNode cfg p node isNext) := by
  have hset : ∀ p isNext node, Keeps I (setLink cfg p isNext node) := fun p isNext node =>
    .bind .get fun _ => .ite (.modify fun s hs => hlink s p _ hs) (.throw _)
  exact .bind (hset ..) fun _ => hset ..

theorem keeps_insertAfter (p parent : Nat) : Keeps I (insertAfter cfg p parent) := by
  refine .bind (.bind (.lift _) fun o => ?_) fun _ => keeps_setNode hlink ..
  cases o with
  | some prevNext => exact keeps_setNode hlink ..
  | none => exact .pure _

theorem keeps_replaceEntry (p src : Nat) : Keeps I (replaceEntry cfg p src) := by
  refine .bind (.bind (.lift _) fun o => ?_) fun _ => .bind (.lift _) fun o => ?_
  · cases o with
    | some srcNext => exact .bind (keeps_setNode hlink ..) fun _ => keeps_setNode hlink ..
    | none => exact .pure _
  · cases o with
    | some srcPrev => exact .bind (keeps_setNode hlink ..) fun _ => keeps_setNode hlink ..
    | none => exact .pure _

/-! ## New entries -/

theorem keeps_holdEntry {slot : TcbSlot} {site : Site} {cap : CapabilityData} {thread : Nat}
    (hnew : ∀ s, I s → I (s.setSlot (cfg.localAddr site) (some (.newWithRawcap cap))))
    (hhold : ∀ s t p, s.tcbs thread = some t → I s →
      I (s.setTcb thread (slot.set t (s.slots p)))) (parent : Nat) :
    Keeps I (holdEntry cfg slot site thread cap parent) :=
  .bind (.bind (.modify hnew) fun _ => .pure _) fun _ =>
    .bind (keeps_insertAfter hlink ..) fun _ => keeps_deref_modify fun s t ht hs =>
      hhold s t _ ht hs

end Links

end Zoeax
