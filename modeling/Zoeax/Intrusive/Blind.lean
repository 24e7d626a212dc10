import Zoeax.Intrusive.Kernel
import Zoeax.Lib.Follows

/-!
# Code without queues

`KState.bare` is a state with every queue emptied, which is what the kernel over linked lists keeps
of it. `Blind` says of kernel code that it cannot tell: on the bare state it does what it does on
the state itself, and it moves no thread. All code that has nothing to do with queues is blind.
-/

namespace Zoeax

open Lib

/-- The state without its queues. -/
def KState.bare (s : KState) : KState :=
  { s with
    runqueue := []
    endpoints := fun a => (s.endpoints a).map fun ep => { ep with queue := [] }
    notifications := fun a => (s.notifications a).map fun n => { n with waitQueue := [] } }

/-- The query finds the same in the bare state. -/
structure BlindQuery {α : Type} (q : KR α) : Prop where
  same : ∀ s : KState, q s.bare = q s

/-- The code does the same on the bare state, and leaves the queues alone. -/
structure Blind {α : Type} (x : KM α) : Prop where
  follows : ∀ s : KState,
    Follows Stop.Halts (fun k s' => k = s'.bare ∧ s'.queue = s.queue) (x s.bare) (x s)

variable {α β : Type}

/-! ## Rules -/

namespace BlindQuery

theorem pure (a : α) : BlindQuery (Pure.pure a) := ⟨fun _ => rfl⟩

theorem throw (e : Stop) : BlindQuery (MonadExcept.throw e : KR α) := ⟨fun _ => rfl⟩

theorem liftExcept (x : Except Stop α) : BlindQuery (liftM x) := ⟨fun _ => rfl⟩

theorem bind {q : KR α} {f : α → KR β} (hq : BlindQuery q) (hf : ∀ a, BlindQuery (f a)) :
    BlindQuery (q >>= f) := ⟨fun s => by
  change (q s.bare >>= fun a => f a s.bare) = (q s >>= fun a => f a s)
  rw [hq.same s]
  cases q s with
  | ok a => exact (hf a).same s
  | error e => rfl⟩

theorem read_bind {f : KState → KR α} (hsame : ∀ s : KState, f s.bare = f s)
    (hf : ∀ s, BlindQuery (f s)) : BlindQuery (read >>= f) := ⟨fun s => by
  change f s.bare s.bare = f s s
  rw [hsame s]
  exact (hf s).same s⟩

theorem ite {c : Prop} [Decidable c] {q r : KR α} (hq : BlindQuery q) (hr : BlindQuery r) :
    BlindQuery (if c then q else r) := by
  split
  · exact hq
  · exact hr

end BlindQuery

namespace Blind

theorem pure (a : α) : Blind (Pure.pure a) := ⟨fun _ => .ok ⟨rfl, rfl⟩⟩

theorem throw (e : Stop) : Blind (MonadExcept.throw e : KM α) := ⟨fun _ => .error ⟨rfl, rfl⟩⟩

theorem modify {f : KState → KState} (hf : ∀ s, f s.bare = (f s).bare ∧ (f s).queue = s.queue) :
    Blind (modify f) := ⟨fun s => .ok (hf s)⟩

theorem lift {q : KR α} (hq : BlindQuery q) : Blind (liftM q) := ⟨fun s => by
  change Follows _ _ (Query.toExec q s.bare) (Query.toExec q s)
  unfold Query.toExec
  rw [hq.same s]
  cases q s with
  | ok a => exact .ok ⟨rfl, rfl⟩
  | error e => exact .error ⟨rfl, rfl⟩⟩

theorem liftExcept (x : Except Stop α) : Blind (liftM x) := lift (.liftExcept x)

theorem bind {x : KM α} {f : α → KM β} (hx : Blind x) (hf : ∀ a, Blind (f a)) : Blind (x >>= f) :=
  ⟨fun s => (hx.follows s).bind fun a k s' _ _ h => by
    obtain ⟨rfl, hc⟩ := h
    exact ((hf a).follows s').mono fun _ _ h' => ⟨h'.1, h'.2.trans hc⟩⟩

theorem get_bind {f : KState → KM α} (hsame : ∀ s : KState, f s.bare = f s)
    (hf : ∀ s, Blind (f s)) : Blind (get >>= f) := ⟨fun s => by
  change Follows _ _ (f s.bare s.bare) (f s s)
  rw [hsame s]
  exact (hf s).follows s⟩

theorem ite {c : Prop} [Decidable c] {x y : KM α} (hx : Blind x) (hy : Blind y) :
    Blind (if c then x else y) := by
  split
  · exact hx
  · exact hy

end Blind

/-! ## Queries -/

theorem blindQuery_deref {cell : KState → Option α} (h : ∀ s : KState, cell s.bare = cell s) :
    BlindQuery (deref cell) := by
  refine .read_bind (fun s => by rw [h s]) fun s => ?_
  cases cell s with
  | some a => exact .pure a
  | none => exact .throw _

theorem blindQuery_slot (p : Nat) : BlindQuery (deref (·.slots p)) := blindQuery_deref fun _ => rfl

theorem blindQuery_getTcb (p : Nat) : BlindQuery (getTcb p) := blindQuery_deref fun _ => rfl

theorem blindQuery_readSlot (p : Nat) : BlindQuery (readSlot p) :=
  .read_bind (fun _ => rfl) fun _ => .ite (.pure _) (.throw _)

theorem blindQuery_occupied (p : Nat) : BlindQuery (occupied p) := by
  refine .bind (blindQuery_readSlot p) fun e => ?_
  cases e with
  | some e => exact .pure _
  | none => exact .throw _

theorem blindQuery_getLink (p : Nat) (isNext : Bool) : BlindQuery (getLink p isNext) :=
  .bind (blindQuery_slot p) fun _ => .pure _

theorem blindQuery_readRegisters (cfg : Config) (buffer : Nat) :
    BlindQuery (readRegisters cfg buffer) :=
  .read_bind (fun _ => rfl) fun _ => .ite (.pure _) (.throw _)

theorem blindQuery_readPte (cfg : Config) (a : Nat) : BlindQuery (readPte cfg a) :=
  .read_bind (fun _ => rfl) fun _ => .ite (.pure _) (.throw _)

theorem blindQuery_lookupLoop (cfg : Config) (n : Nat) (c : CapabilityData)
    (capptr depthBits : Nat) : BlindQuery (CapabilityData.lookupLoop cfg n c capptr depthBits) := by
  induction n generalizing c depthBits with
  | zero => exact .throw _
  | succ n ih =>
    refine .bind (.liftExcept _) fun pr => .bind (blindQuery_readSlot _) fun e => ?_
    cases e with
    | none => exact .pure _
    | some e =>
      refine .ite (.pure _) (.bind (.liftExcept _) fun k => ?_)
      exact .ite (ih ..) (.pure _)

theorem blindQuery_lookupEntryMut (cfg : Config) (c : CapabilityData) (capptr depthBits : Nat) :
    BlindQuery (c.lookupEntryMut cfg capptr depthBits) := blindQuery_lookupLoop ..

theorem blindQuery_lookupTwoEntriesMut (cfg : Config) (c : CapabilityData)
    (capptr depthBits capptr2 depthBits2 : Nat) :
    BlindQuery (c.lookupTwoEntriesMut cfg capptr depthBits capptr2 depthBits2) :=
  .bind (blindQuery_lookupEntryMut ..) fun _ => .bind (blindQuery_lookupEntryMut ..) fun _ =>
    .bind (.liftExcept _) fun _ => .pure _

theorem blindQuery_lookupCap (cfg : Config) (root : CapabilityData) (ptr depth : Nat)
    (k : CapabilityType) : BlindQuery (lookupCap cfg root ptr depth k) :=
  .bind (blindQuery_lookupEntryMut ..) fun _ => .bind (blindQuery_occupied _) fun _ =>
    .bind (.liftExcept _) fun _ => .pure _

theorem blindQuery_allEmpty (n p : Nat) : BlindQuery (allEmpty n p) := by
  induction n generalizing p with
  | zero => exact .pure _
  | succ n ih =>
    refine .bind (blindQuery_readSlot _) fun e => ?_
    cases e with
    | none => exact ih _
    | some e => exact .pure _

theorem blindQuery_getWritable (cfg : Config) (c : CapabilityData) (num index : Nat) :
    BlindQuery (c.getWritable cfg num index) :=
  .bind (.liftExcept _) fun _ => .bind (.liftExcept _) fun _ => .bind (.liftExcept _) fun _ =>
    .bind (blindQuery_allEmpty ..) fun _ => .bind (.liftExcept _) fun _ =>
      .bind (.liftExcept _) fun _ => .pure _

theorem blindQuery_printSlots (c : CapabilityData) {sub : CapabilityData → KR Unit}
    (hsub : ∀ c, BlindQuery (sub c)) (n i : Nat) : BlindQuery (c.printSlots sub n i) := by
  induction n generalizing i with
  | zero => exact .pure _
  | succ n ih =>
    refine .bind (blindQuery_readSlot _) fun e => ?_
    cases e with
    | none => exact ih _
    | some e =>
      dsimp only
      split
      · exact ih _
      · exact .ite (ih _) (.bind (hsub _) fun _ => ih _)

theorem blindQuery_printLevel (cfg : Config) (fuel : Nat) (c : CapabilityData) :
    BlindQuery (CapabilityData.printLevel cfg fuel c) := by
  induction fuel generalizing c with
  | zero => exact .throw _
  | succ fuel ih =>
    exact .bind (.liftExcept _) fun _ => .bind (.liftExcept _) fun _ =>
      blindQuery_printSlots c ih _ _

theorem blindQuery_walkFrom (cfg : Config) (level table vaddr : Nat) :
    BlindQuery (PageTable.walkFrom cfg level table vaddr) := by
  induction level generalizing table with
  | zero => exact .pure _
  | succ level ih => exact .bind (blindQuery_readPte ..) fun _ => .ite (ih _) (.pure _)

theorem blindQuery_findInvocation (cfg : Config) (capPtr depth : Nat) :
    BlindQuery (findInvocation cfg capPtr depth) := by
  refine .read_bind (fun _ => rfl) fun s => .bind (blindQuery_getTcb _) fun tcb => ?_
  cases tcb.rootCnode with
  | none => exact .throw _
  | some root =>
    exact .bind (blindQuery_lookupEntryMut ..) fun _ => .bind (blindQuery_occupied _) fun _ =>
      .pure _

/-! ## Threads -/

theorem blind_updateTcb (p : Nat) (f : ThreadInfo → ThreadInfo) : Blind (updateTcb p f) :=
  .bind (.lift (blindQuery_getTcb p)) fun _ => .modify fun _ => ⟨rfl, rfl⟩

theorem blind_requireSchedule : Blind requireSchedule := .modify fun _ => ⟨rfl, rfl⟩

theorem blind_scheduleIf (b : Bool) : Blind (scheduleIf b) := .ite blind_requireSchedule (.pure _)

theorem blind_activateVspace (cfg : Config) (p : Nat) : Blind (activateVspace cfg p) := by
  refine .bind (.lift (blindQuery_getTcb p)) fun t => ?_
  have hsatp : ∀ a, Blind (modify fun s : KState => { s with satp := a }) := fun _ =>
    .modify fun _ => ⟨rfl, rfl⟩
  cases t.vspace with
  | some e => exact .ite (hsatp _) (hsatp _)
  | none => exact hsatp _

theorem blind_switchTo (cfg : Config) (next : Nat) : Blind (switchTo cfg next) :=
  .bind (blind_activateVspace cfg next) fun _ => .modify fun _ => ⟨rfl, rfl⟩

theorem blind_timerTick (cfg : Config) : Blind (timerTick cfg) := by
  refine .get_bind (fun _ => rfl) fun s => .ite (.pure _) ?_
  exact .bind (.lift (blindQuery_getTcb _)) fun _ => .bind (.liftExcept _) fun _ =>
    .bind (blind_updateTcb _ _) fun _ => .ite blind_requireSchedule (.pure _)

theorem blind_setIpcMsg (p : Nat) (sender : Option Nat) : Blind (setIpcMsg p sender) := by
  refine .bind (.lift (blindQuery_getTcb p)) fun t => ?_
  split
  · exact .get_bind (fun _ => rfl) fun _ => .ite (.modify fun _ => ⟨rfl, rfl⟩) (.throw _)
  · exact .pure _

theorem blind_transfer (sender receiver : Nat) : Blind (Endpoint.transfer sender receiver) :=
  .bind (.lift (blindQuery_getTcb _)) fun _ =>
    .bind (blind_setIpcMsg _ _) fun _ => blind_updateTcb _ _

theorem blind_trapEntry (regs : Registers) : Blind (trapEntry regs) :=
  .get_bind (fun _ => rfl) fun _ => blind_updateTcb _ _

theorem blind_returnSyscall (cfg : Config) (thread : Nat) (ret : Except KernelError (Option Nat)) :
    Blind (returnSyscall cfg thread ret) :=
  .bind (.lift (blindQuery_getTcb _)) fun _ => .bind (.liftExcept _) fun _ =>
    blind_updateTcb _ _

theorem blind_setWord (a : Nat) (w : UInt64) : Blind (modify (·.setWord a w)) :=
  .modify fun _ => ⟨rfl, rfl⟩

/-! ## Capability spaces -/

theorem blind_writeCap (p : Nat) (c : CapabilityData) : Blind (writeCap p c) :=
  .modify fun _ => ⟨rfl, rfl⟩

theorem blind_setLink (cfg : Config) (p : Nat) (isNext : Bool) (node : Nat) :
    Blind (setLink cfg p isNext node) :=
  .get_bind (fun _ => rfl) fun _ => .ite (.modify fun _ => ⟨rfl, rfl⟩) (.throw _)

theorem blind_setNode (cfg : Config) (p node : Nat) (isNext : Bool) :
    Blind (setNode cfg p node isNext) :=
  .bind (blind_setLink ..) fun _ => blind_setLink ..

theorem blind_newLocal (cfg : Config) (site : Site) (cap : CapabilityData) :
    Blind (newLocal cfg site cap) :=
  .bind (.modify fun _ => ⟨rfl, rfl⟩) fun _ => .pure _

theorem blind_insertAfter (cfg : Config) (p parent : Nat) : Blind (insertAfter cfg p parent) := by
  refine .bind (.bind (.lift (blindQuery_getLink _ _)) fun node => ?_) fun _ => blind_setNode ..
  cases node with
  | some n => exact blind_setNode ..
  | none => exact .pure _

theorem blind_replaceEntry (cfg : Config) (p src : Nat) : Blind (replaceEntry cfg p src) := by
  refine .bind (.bind (.lift (blindQuery_getLink _ _)) fun node => ?_) fun _ =>
    .bind (.lift (blindQuery_getLink _ _)) fun node => ?_
  all_goals
    cases node with
    | some n => exact .bind (blind_setNode ..) fun _ => blind_setNode ..
    | none => exact .pure _

theorem blind_moveEntry (p dest : Nat) : Blind (moveEntry p dest) :=
  .modify fun _ => ⟨rfl, rfl⟩

theorem blind_insertCap (cfg : Config) (k : CapabilityType) (window parent : Nat)
    (cap : CapabilityData) (i : Nat) : Blind (insertCap cfg k window parent cap i) :=
  .bind (blind_newLocal ..) fun _ => .bind (blind_insertAfter ..) fun _ => blind_moveEntry ..

theorem blind_createObject (cfg : Config) (o : Object) : Blind (createObject cfg o) :=
  .get_bind (fun _ => rfl) fun _ => .ite (.modify fun _ => ⟨rfl, rfl⟩) (.throw _)

theorem blind_placeObject (cfg : Config) (o : Object) : Blind (placeObject cfg o) :=
  .get_bind (fun _ => rfl) fun _ => .ite (.pure _) (blind_createObject ..)

theorem blind_linkNew (cfg : Config) (invLabel : InvLabel) (p src : Nat) :
    Blind (linkNew cfg invLabel p src) :=
  .ite (.bind (blind_replaceEntry ..) fun _ => .modify fun _ => ⟨rfl, rfl⟩)
    (blind_insertAfter ..)

theorem blind_invokeCNode (cfg : Config) (invLabel : InvLabel) (reg : Registers)
    (root dest : CapabilityData) : Blind (invokeCNode cfg invLabel reg root dest) :=
  .bind (.lift (blindQuery_lookupEntryMut ..)) fun _ =>
    .bind (.lift (blindQuery_occupied _)) fun _ =>
    .bind (.lift (blindQuery_lookupEntryMut ..)) fun _ =>
      .bind (.lift (blindQuery_readSlot _)) fun _ => .bind (.liftExcept _) fun _ =>
        .bind (.liftExcept _) fun _ =>
          .bind (.bind (blind_newLocal ..) fun _ => .bind (blind_linkNew ..) fun _ =>
            blind_moveEntry ..) fun _ => .pure _

/-! ## Invocations -/

theorem blind_holdLocal (slot : TcbSlot) (thread p : Nat) : Blind (holdLocal slot thread p) :=
  .bind (.lift (blindQuery_getTcb thread)) fun _ => .modify fun _ => ⟨rfl, rfl⟩

theorem blind_setSlotCap (cfg : Config) (slot : TcbSlot) (c : CapabilityData) (src : Nat) :
    Blind (TCBCap.setSlot cfg slot c src) :=
  .bind (.lift (blindQuery_slot src)) fun _ => .bind (.liftExcept _) fun _ =>
    .bind (.lift (blindQuery_getTcb _)) fun _ => .bind (.liftExcept _) fun _ =>
      .bind (blind_newLocal ..) fun _ => .bind (blind_insertAfter ..) fun _ => blind_holdLocal ..

theorem blind_configure (cfg : Config) (tcbCap : CapabilityData) (cnodeSlot vspaceSlot : Nat) :
    Blind (configure cfg tcbCap cnodeSlot vspaceSlot) :=
  .bind (.lift (blindQuery_occupied _)) fun _ => .bind (.liftExcept _) fun _ =>
    .bind (.lift (blindQuery_occupied _)) fun _ => .bind (.liftExcept _) fun _ =>
      .bind (blind_setSlotCap ..) fun _ => blind_setSlotCap ..

theorem blind_invokeTcb (cfg : Config) {invLabel : InvLabel} (hne : invLabel ≠ .tcbResume)
    (reg : Registers) (ipcBuffer : Option Nat) (root tcbCap : CapabilityData) :
    Blind (invokeTcb cfg invLabel reg ipcBuffer root tcbCap) := by
  unfold invokeTcb
  split
  · exact .bind (.lift (blindQuery_lookupTwoEntriesMut ..)) fun _ =>
      .bind (blind_configure ..) fun _ => .pure _
  · cases ipcBuffer with
    | none => exact .throw _
    | some buffer =>
      exact .bind (.lift (blindQuery_readRegisters ..)) fun _ =>
        .bind (blind_updateTcb _ _) fun _ => .pure _
  · exact .bind (.lift (blindQuery_lookupCap ..)) fun _ => .bind (blind_setSlotCap ..) fun _ =>
      .pure _
  · exact absurd rfl hne
  · exact .throw _

theorem blind_writePte (cfg : Config) (a : Nat) (pte : UInt64) : Blind (writePte cfg a pte) :=
  .get_bind (fun _ => rfl) fun _ => .ite (blind_setWord a pte) (.throw _)

theorem blind_invokePage (cfg : Config) (invLabel : InvLabel) (reg : Registers)
    (root : CapabilityData) (slot : Nat) (c : CapabilityData) :
    Blind (invokePage cfg invLabel reg root slot c) := by
  unfold invokePage
  split
  · refine .bind (.liftExcept _) fun _ => .bind (.lift (blindQuery_lookupCap ..)) fun _ =>
      .bind (.bind (.liftExcept _) fun _ => .bind ?_ fun _ => .bind (.pure _) fun _ => .pure _)
        fun _ => .bind (blind_writeCap ..) fun _ => .pure _
    exact .bind (.lift (blindQuery_walkFrom ..)) fun _ => .ite (.throw _)
      (.bind (.lift (blindQuery_readPte ..)) fun _ => .ite (.throw _) (blind_writePte ..))
  · refine .bind (.lift (blindQuery_lookupCap ..)) fun _ =>
      .bind (.bind (.liftExcept _) fun _ => .bind ?_ fun _ => .pure _)
        fun _ => .bind (blind_writeCap ..) fun _ => .pure _
    exact .bind (.lift (blindQuery_walkFrom ..)) fun _ => .ite (.throw _)
      (.bind (.lift (blindQuery_readPte ..)) fun _ => .ite (.throw _)
        (.ite (.throw _) (blind_writePte ..)))
  · exact .throw _

theorem blind_invokePageTable (cfg : Config) (invLabel : InvLabel) (reg : Registers)
    (root : CapabilityData) (slot : Nat) (c : CapabilityData) :
    Blind (invokePageTable cfg invLabel reg root slot c) := by
  unfold invokePageTable
  split
  · refine .bind (.liftExcept _) fun _ => .bind (.lift (blindQuery_lookupCap ..)) fun _ =>
      .bind (.bind (.liftExcept _) fun _ => .bind ?_ fun _ => .pure _) fun _ =>
        .bind (blind_writeCap ..) fun _ => .pure _
    exact .bind (.lift (blindQuery_walkFrom ..)) fun _ => .ite (.throw _)
      (.bind (blind_writePte ..) fun _ => .pure _)
  · exact .throw _
  · refine .bind (.bind (.liftExcept _) fun _ => .bind ?_ fun _ => .bind ?_ fun _ => .pure _)
      fun _ =>
      .bind (blind_writeCap ..) fun _ => .pure _
    · exact .get_bind (fun _ => rfl) fun _ =>
        .ite (.modify fun _ => ⟨rfl, rfl⟩) (.throw _)
    · exact .modify fun _ => ⟨rfl, rfl⟩
  · exact .throw _

theorem blind_handlePrint (cfg : Config) (invLabel : InvLabel) :
    Blind (handlePrint cfg invLabel) := by
  unfold handlePrint
  split
  · exact .pure _
  · refine .get_bind (fun _ => rfl) fun s => .bind (.lift (blindQuery_getTcb _)) fun t => ?_
    cases t.rootCnode with
    | some root => exact .bind (.lift (blindQuery_printLevel ..)) fun _ => .pure _
    | none => exact .throw _
  · exact .throw _

end Zoeax
