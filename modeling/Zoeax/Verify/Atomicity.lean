import Zoeax.Verify.Frame

/-!
# An invocation that fails changes nothing

`handleInvocation` answers `Err` only while it is still reading: once it has written, it either
returns or ends the kernel. So the state after a failed invocation is the state before it
(`errAtomic_dispatchSyscall`), and everything proved about a system call only has to look at the
invocations that return.

The proof follows the code. `Avoids` marks what cannot answer `Err` any more, `Atomic` what has not
written when it does.
-/

namespace Zoeax

open Lib

/-- The stop is the `Err` of a `KernelResult`. -/
def Stop.IsErr : Stop → Prop
  | .err _ => True
  | .halt _ => False

/-- A stop that ends the kernel. -/
def Stop.Halts (e : Stop) : Prop := ∃ h, e = .halt h

variable (cfg : Config)

/-- Code that returns or ends the kernel. -/
abbrev NoErr {α : Type} (x : KM α) : Prop := Exec.Avoids Stop.IsErr x

/-- Code that has not written when it answers `Err`. -/
abbrev ErrAtomic {α : Type} (x : KM α) : Prop := Exec.Atomic Stop.IsErr x

/-! ## Code that does not answer `Err` -/

theorem arith_not_isErr {α : Type} {x : Option α} (e : Stop) (h : arith x = .error e) :
    ¬e.IsErr := by
  cases x with
  | some a => cases h
  | none => exact Except.error.inj h ▸ id

theorem noErr_require (c : Bool) : NoErr (liftM (require c panicked) : KM Unit) :=
  .liftExcept fun e h => by
    cases c with
    | true => cases h
    | false => exact Except.error.inj h ▸ id

theorem avoids_deref {α : Type} (cell : KState → Option α) :
    (deref cell).Avoids Stop.IsErr :=
  .bind .read fun s => by
    cases cell s with
    | some a => exact .pure a
    | none => exact .throw id

theorem noErr_deref {α : Type} (cell : KState → Option α) : NoErr (liftM (deref cell) : KM α) :=
  .lift (avoids_deref cell)

theorem noErr_updateTcb (p : Nat) (f : ThreadInfo → ThreadInfo) : NoErr (updateTcb p f) :=
  .bind (noErr_deref _) fun _ => .modify _

theorem noErr_createObject (o : Object) : NoErr (createObject cfg o) :=
  .bind .get fun _ => .ite (.modify _) (.throw id)

theorem noErr_placeObject (o : Object) : NoErr (placeObject cfg o) :=
  .bind .get fun _ => .ite (.pure _) (noErr_createObject ..)

theorem noErr_setLink (p : Nat) (isNext : Bool) (node : Nat) : NoErr (setLink cfg p isNext node) :=
  .bind .get fun _ => .ite (.modify _) (.throw id)

theorem noErr_setNode (p node : Nat) (isNext : Bool) : NoErr (setNode cfg p node isNext) :=
  .bind (noErr_setLink ..) fun _ => noErr_setLink ..

theorem noErr_getLink (p : Nat) (isNext : Bool) :
    NoErr (liftM (getLink p isNext) : KM (Option Nat)) :=
  .lift <| .bind (avoids_deref _) fun _ => .pure _

theorem noErr_insertAfter (p parent : Nat) : NoErr (insertAfter cfg p parent) :=
  .bind (.bind (noErr_getLink ..) fun o => by
    cases o with
    | some _ => exact noErr_setNode ..
    | none => exact .pure _) fun _ => noErr_setNode ..

theorem noErr_replaceNext (p src : Nat) : NoErr (replaceNext cfg p src) :=
  .bind (noErr_getLink ..) fun o => by
    cases o with
    | some _ => exact .bind (noErr_setNode ..) fun _ => noErr_setNode ..
    | none => exact .pure _

theorem noErr_replacePrev (p src : Nat) : NoErr (replacePrev cfg p src) :=
  .bind (noErr_getLink ..) fun o => by
    cases o with
    | some _ => exact .bind (noErr_setNode ..) fun _ => noErr_setNode ..
    | none => exact .pure _

theorem noErr_newLocal (site : Site) (cap : CapabilityData) : NoErr (newLocal cfg site cap) :=
  .bind (.modify _) fun _ => .pure _

theorem noErr_insertCap (k : CapabilityType) (window parent : Nat) (cap : CapabilityData)
    (i : Nat) : NoErr (insertCap cfg k window parent cap i) :=
  .bind (noErr_newLocal ..) fun _ => .bind (noErr_insertAfter ..) fun _ => .modify _

theorem noErr_linkNew (invLabel : InvLabel) (newSlot srcSlot : Nat) :
    NoErr (linkNew cfg invLabel newSlot srcSlot) :=
  .ite (.bind (.bind (noErr_replaceNext ..) fun _ => noErr_replacePrev ..) fun _ => .modify _)
    (noErr_insertAfter ..)

theorem noErr_installEntry (invLabel : InvLabel) (cap : CapabilityData) (srcSlot destSlot : Nat) :
    NoErr (installEntry cfg invLabel cap srcSlot destSlot) :=
  .bind (noErr_newLocal ..) fun _ => .bind (noErr_linkNew ..) fun _ => .modify _

theorem noErr_holdEntry (slot : TcbSlot) (site : Site) (thread : Nat) (cap : CapabilityData)
    (parent : Nat) : NoErr (holdEntry cfg slot site thread cap parent) :=
  .bind (noErr_newLocal ..) fun _ => .bind (noErr_insertAfter ..) fun _ =>
    .bind (noErr_deref _) fun _ => .modify _

theorem noErr_setTcbSlot (slot : TcbSlot) (thread : Nat) (cap : CapabilityData) (parent : Nat) :
    NoErr (setTcbSlot cfg slot thread cap parent) :=
  .bind (noErr_deref _) fun _ => .bind (noErr_require _) fun _ => noErr_holdEntry ..

theorem getObjectSize_not_isErr (k : CapabilityType) (userSize : Nat) (e : Stop)
    (h : k.getObjectSize cfg userSize = .error e) : ¬e.IsErr := by
  cases k with
  | cNode => exact except_bind_avoids arith_not_isErr (fun _ => arith_not_isErr) e h
  | _ => cases h

theorem createCapDepVal_not_isErr (k : CapabilityType) (addr userSize : Nat) (e : Stop)
    (h : k.createCapDepVal addr userSize = .error e) : ¬e.IsErr := by
  cases k with
  | untyped =>
    simp only [CapabilityType.createCapDepVal] at h
    split at h
    · exact Except.error.inj h ▸ id
    · cases h
  | _ => cases h

theorem next_not_isErr (g : CapGenerator) (e : Stop) (h : g.next cfg = .error e) : ¬e.IsErr :=
  except_bind_avoids (createCapDepVal_not_isErr _ _ _)
    (fun _ => except_bind_avoids arith_not_isErr fun _ _ h => by cases h) e h

theorem noErr_initObject (k : CapabilityType) (cap : CapabilityData) :
    NoErr (initObject k cap) := by
  cases k <;> exact .modify _

theorem noErr_insertNew (window parent : Nat) (g : CapGenerator) (cap : CapabilityData) (i : Nat) :
    NoErr (insertNew cfg window parent g cap i) :=
  .bind (.liftExcept (getObjectSize_not_isErr cfg _ _)) fun _ =>
    .bind (noErr_placeObject ..) fun _ =>
    .bind (noErr_initObject ..) fun _ => noErr_insertCap ..

theorem noErr_insertCaps (window parent n : Nat) (g : CapGenerator) (i : Nat) :
    NoErr (insertCaps cfg window parent n g i) := by
  induction n generalizing g i with
  | zero => exact .pure _
  | succ n ih =>
    exact .bind (.liftExcept (next_not_isErr cfg _)) fun _ =>
      .bind (noErr_insertNew ..) fun _ => ih _ _

theorem noErr_resume (thread : Nat) : NoErr (resume thread) :=
  .bind (noErr_updateTcb ..) fun _ => .modify _

theorem noErr_copyIpcBuffer (src dst : Nat) : NoErr (copyIpcBuffer src dst) :=
  .bind .get fun _ => .ite (.modify _) (.throw id)

theorem noErr_setIpcMsg (thread : Nat) (senderRef : Option Nat) :
    NoErr (setIpcMsg thread senderRef) :=
  .bind (noErr_deref _) fun t => by
    split
    · exact noErr_copyIpcBuffer ..
    · exact .pure _

theorem noErr_transfer (sender receiver : Nat) : NoErr (Endpoint.transfer sender receiver) :=
  .bind (noErr_deref _) fun _ => .bind (noErr_setIpcMsg ..) fun _ => noErr_updateTcb ..

theorem noErr_enqueue (ep thread : Nat) : NoErr (Endpoint.enqueue ep thread) :=
  .bind (noErr_updateTcb ..) fun _ => .bind (noErr_deref _) fun _ => .modify _

theorem noErr_sendTo (ep thread : Nat) (popped : Option Nat) :
    NoErr (Endpoint.sendTo ep thread popped) := by
  cases popped with
  | some r => exact .bind (noErr_transfer ..) fun _ => .bind (noErr_resume ..) fun _ => .pure _
  | none => exact .bind (noErr_enqueue ..) fun _ => .pure _

theorem noErr_recvFrom (ep thread : Nat) (popped : Option Nat) :
    NoErr (Endpoint.recvFrom ep thread popped) := by
  cases popped with
  | some r => exact .bind (noErr_transfer ..) fun _ => .bind (noErr_resume ..) fun _ => .pure _
  | none => exact .bind (noErr_enqueue ..) fun _ => .pure _

theorem noErr_epSend (c : CapabilityData) (thread : Nat) : NoErr (EndPointCap.send c thread) :=
  .bind (noErr_updateTcb ..) fun _ => .bind (noErr_deref _) fun _ => .bind (.modify _) fun _ =>
    noErr_sendTo ..

theorem noErr_epRecv (c : CapabilityData) (thread : Nat) : NoErr (EndPointCap.recv c thread) :=
  .bind (noErr_deref _) fun _ => .bind (.modify _) fun _ => noErr_recvFrom ..

theorem noErr_sendSignal (ntfn : Nat) (val : UInt64) : NoErr (Notification.sendSignal ntfn val) :=
  .bind (noErr_deref _) fun n => by
    split
    · exact .bind (.modify _) fun _ => .bind (noErr_updateTcb ..) fun _ => noErr_resume ..
    · exact .modify _

theorem noErr_waitSignal (ntfn thread : Nat) : NoErr (Notification.waitSignal ntfn thread) :=
  .bind (noErr_deref _) fun _ => .ite
    (.bind (noErr_updateTcb ..) fun _ => .bind (.modify _) fun _ => .pure _)
    (.bind (noErr_updateTcb ..) fun _ => .bind (.modify _) fun _ => .pure _)

theorem noErr_scheduleIf (blocked : Bool) : NoErr (scheduleIf blocked) := .ite (.modify _) (.pure _)

theorem noErr_writePte (a : Nat) (pte : UInt64) : NoErr (writePte cfg a pte) :=
  .bind .get fun _ => .ite (.modify _) (.throw id)

/-! ## Code that answers `Err` only before it writes -/

/-- Where all checks are made before the first write, the checks alone decide about `Err`. -/
theorem err_iff_of_check {α β : Type} {q : KR α} {f : α → KM β} (hf : ∀ a, NoErr (f a))
    {s : KState} : (∃ e, (liftM q >>= f) s = .error (.err e) s) ↔ ∃ e, q s = .error (.err e) := by
  refine exists_congr fun e => ⟨fun h => ?_, fun h => ?_⟩
  · rcases Exec.bind_error.1 h with h | ⟨a, u, -, h⟩
    · exact (Exec.lift_error.1 h).1
    · exact absurd trivial (hf a h)
  · exact Exec.bind_error.2 (.inl (Exec.lift_error.2 ⟨h, rfl⟩))

theorem errAtomic_retypeAndInsert (slot window userSize num : Nat) (newType : CapabilityType) :
    ErrAtomic (retypeAndInsert cfg slot window userSize num newType) :=
  .lift_bind _ fun _ => .liftExcept_bind _ fun _ => .liftExcept_bind _ fun _ =>
    .bind_avoids (Exec.Avoids.modify _).atomic fun _ => noErr_insertCaps ..

theorem errAtomic_invokeUntyped (reg : Registers) (rootCnode : CapabilityData) (slot : Nat) :
    ErrAtomic (invokeUntyped cfg reg rootCnode slot) :=
  .liftExcept_bind _ fun _ => .lift_bind _ fun _ => .lift_bind _ fun _ =>
    .bind_avoids (errAtomic_retypeAndInsert ..) fun _ => .pure _

theorem errAtomic_invokeCNode (invLabel : InvLabel) (reg : Registers)
    (rootCnode destRoot : CapabilityData) :
    ErrAtomic (invokeCNode cfg invLabel reg rootCnode destRoot) :=
  .lift_bind _ fun _ => .lift_bind _ fun _ => .lift_bind _ fun _ => .lift_bind _ fun _ =>
    .liftExcept_bind _ fun _ => .liftExcept_bind _ fun _ =>
    .bind_avoids (noErr_installEntry ..).atomic fun _ => .pure _

theorem errAtomic_setSlot (slot : TcbSlot) (c : CapabilityData) (src : Nat) :
    ErrAtomic (TCBCap.setSlot cfg slot c src) :=
  .lift_bind _ fun _ => .liftExcept_bind _ fun _ => (noErr_setTcbSlot ..).atomic

theorem derive_of_table {c : CapabilityData} (h : c.getCapType = .ok .pageTable ∨
    c.getCapType = .ok .cNode) : c.derive = .ok c := by
  rcases h with h | h <;> simp only [CapabilityData.derive, h] <;> rfl

/-- The slot holds a capability that can be derived. -/
def HoldsTable (p : Nat) (s : KState) : Prop :=
  ∃ c, s.capAt p = some c ∧ (c.getCapType = .ok .pageTable ∨ c.getCapType = .ok .cNode)

theorem holdsTable_of_occupied {p : Nat} {s : KState} {e : CNodeEntry} {k : CapabilityType}
    {u : Unit} (he : occupied p s = .ok e) (hk : e.cap.tryRefAs k = .ok u)
    (hk' : k = .pageTable ∨ k = .cNode) :
    HoldsTable p s := by
  refine ⟨e.cap, by rw [KState.capAt, (occupied_ok.1 he).2]; rfl, ?_⟩
  rw [CapabilityData.tryRefAs_ok.1 hk]
  rcases hk' with rfl | rfl <;> simp

theorem HoldsTable.exists_derive {p : Nat} {s : KState} (h : HoldsTable p s) :
    ∃ e, s.slots p = some e ∧ e.cap.derive = .ok e.cap := by
  obtain ⟨c, hc, hk⟩ := h
  obtain ⟨e, he, rfl⟩ := Option.map_eq_some_iff.1 hc
  exact ⟨e, he, derive_of_table hk⟩

theorem HoldsTable.setCspace {c : CapabilityData} {src p : Nat} {s s' : KState} {u : Unit}
    (hp : HoldsTable p s) (hsrc : HoldsTable src s)
    (h : TCBCap.setCspace cfg c src s = .ok u s') : HoldsTable p s' := by
  obtain ⟨e, he, hd⟩ := hsrc.exists_derive
  simp only [TCBCap.setCspace, TCBCap.setSlot, setTcbSlot, Exec.bind_ok, Exec.lift_ok,
    Exec.liftExcept_ok, deref_ok] at h
  obtain ⟨e', _, ⟨he', rfl⟩, cap, _, ⟨hd', rfl⟩, t, _, ⟨-, rfl⟩, _, _, ⟨-, rfl⟩, h⟩ := h
  obtain rfl : e = e' := Option.some.inj (he.symm.trans he')
  obtain rfl : e.cap = cap := Except.ok.inj (hd.symm.trans hd')
  obtain ⟨c, hc, hk⟩ := hsrc
  obtain rfl : e.cap = c := by rw [KState.capAt, he] at hc; exact Option.some.inj hc
  refine (keeps_holdEntry (I := HoldsTable p) ?_ ?_ ?_ _).ok hp h
  · intro s q f hs
    simpa only [HoldsTable, KState.capAt_relink] using hs
  · intro s hs
    unfold HoldsTable
    rw [KState.capAt_setSlot]
    split
    · exact ⟨e.cap, rfl, hk⟩
    · exact hs
  · intro s t q _ hs
    exact hs

/-- `TcbConfigure` writes to the new thread before it derives the second capability. The slot of
that one still holds a capability that can be derived. -/
theorem errAtomic_configure (tcbCap : CapabilityData) (cnodeSlot vspaceSlot : Nat) :
    ErrAtomic (configure cfg tcbCap cnodeSlot vspaceSlot) := by
  intro s
  refine .lift_bind _ fun cspace hcspace => .liftExcept_bind _ fun _ hcnode => ?_
  refine .lift_bind _ fun vspace hvspace => .liftExcept_bind _ fun _ htable => ?_
  intro e t h he
  rcases Exec.bind_error.1 h with h | ⟨_, u, hset, h⟩
  · exact errAtomic_setSlot cfg _ _ _ h he
  have hu := (holdsTable_of_occupied hvspace htable (.inl rfl)).setCspace cfg
    (holdsTable_of_occupied hcspace hcnode (.inr rfl)) hset
  obtain ⟨e', he', hd⟩ := hu.exists_derive
  rcases Exec.bind_error.1 h with h | ⟨a, _, ha, h⟩
  · exact absurd he (noErr_deref _ h)
  obtain ⟨hda, rfl⟩ := Exec.lift_ok.1 ha
  obtain rfl : e' = a := Option.some.inj (he'.symm.trans (deref_ok.1 hda))
  rcases Exec.bind_error.1 h with h | ⟨_, _, -, h⟩
  · rw [hd] at h
    cases h
  · exact absurd he (noErr_setTcbSlot cfg _ _ _ _ h)

theorem errAtomic_invokeTcb (invLabel : InvLabel) (reg : Registers) (ipcBuffer : Option Nat)
    (rootCnode tcbCap : CapabilityData) :
    ErrAtomic (invokeTcb cfg invLabel reg ipcBuffer rootCnode tcbCap) := by
  unfold invokeTcb
  split
  · exact .lift_bind _ fun _ => .bind_avoids (errAtomic_configure ..) fun _ => .pure _
  · split
    · exact .throw _
    · exact .lift_bind _ fun _ => .bind_avoids (noErr_updateTcb ..).atomic fun _ => .pure _
  · exact .lift_bind _ fun _ => .bind_avoids (errAtomic_setSlot ..) fun _ => .pure _
  · exact .bind_avoids (noErr_resume ..).atomic fun _ => .pure _
  · exact .throw _

theorem errAtomic_invokeNotification (invLabel : InvLabel) (current : Nat)
    (notifyCap : CapabilityData) : ErrAtomic (invokeNotification invLabel current notifyCap) := by
  unfold invokeNotification
  split
  · exact .bind_avoids (noErr_sendSignal ..).atomic fun _ => .pure _
  · exact .bind_avoids (noErr_waitSignal ..).atomic fun _ =>
      .bind (noErr_scheduleIf _) fun _ => .pure _
  · exact .throw _

theorem errAtomic_invokeEndPoint (invLabel : InvLabel) (current : Nat) (epCap : CapabilityData) :
    ErrAtomic (invokeEndPoint invLabel current epCap) := by
  unfold invokeEndPoint
  split
  · exact .bind_avoids (noErr_epSend ..).atomic fun _ => .bind (noErr_scheduleIf _) fun _ => .pure _
  · exact .bind_avoids (noErr_epRecv ..).atomic fun _ => .bind (noErr_scheduleIf _) fun _ => .pure _
  · exact .throw _

theorem errAtomic_pageMap (page parent vaddr flags : Nat) :
    ErrAtomic (Page.map cfg page parent vaddr flags) :=
  .lift_bind _ fun _ => .ite (.throw _) <| .lift_bind _ fun _ =>
    .ite (.throw _) (noErr_writePte ..).atomic

theorem errAtomic_pageCapMap (c rootTable : CapabilityData) (vaddr flags : Nat) :
    ErrAtomic (PageCap.map cfg c rootTable vaddr flags) :=
  .liftExcept_bind _ fun _ => .bind_avoids (errAtomic_pageMap ..) fun _ =>
    .bind (.pure _) fun _ => .pure _

theorem errAtomic_pageUnmap (page parent vaddr : Nat) :
    ErrAtomic (Page.unmap cfg page parent vaddr) :=
  .lift_bind _ fun _ => .ite (.throw _) <| .lift_bind _ fun _ =>
    .ite (.throw _) <| .ite (.throw _) (noErr_writePte ..).atomic

theorem errAtomic_pageTableMap (table parent vaddr : Nat) :
    ErrAtomic (PageTable.map cfg table parent vaddr) :=
  .lift_bind _ fun _ => .ite (.throw _) <| .bind_avoids (noErr_writePte ..).atomic fun _ => .pure _

theorem errAtomic_makeAsRoot (c : CapabilityData) : ErrAtomic (PageTableCap.makeAsRoot cfg c) :=
  .liftExcept_bind _ fun _ => .bind_avoids
    (Exec.Avoids.bind .get fun _ => .ite (.modify _) (.throw id)).atomic fun _ =>
      .bind (.modify _) fun _ => .pure _

theorem errAtomic_invokePage (invLabel : InvLabel) (reg : Registers) (rootCnode : CapabilityData)
    (slot : Nat) (pageCap : CapabilityData) :
    ErrAtomic (invokePage cfg invLabel reg rootCnode slot pageCap) := by
  have write : ∀ c, NoErr (do writeCap slot c; return none : KM (Option Nat)) :=
    fun _ => .bind (.modify _) fun _ => .pure _
  unfold invokePage
  split
  · exact .liftExcept_bind _ fun _ => .lift_bind _ fun _ =>
      .bind_avoids (errAtomic_pageCapMap ..) fun _ => write _
  · exact .lift_bind _ fun _ => .bind_avoids
      (.liftExcept_bind _ fun _ => .bind_avoids (errAtomic_pageUnmap ..) fun _ => .pure _)
      fun _ => write _
  · exact .throw _

theorem errAtomic_invokePageTable (invLabel : InvLabel) (reg : Registers)
    (rootCnode : CapabilityData) (slot : Nat) (pageTableCap : CapabilityData) :
    ErrAtomic (invokePageTable cfg invLabel reg rootCnode slot pageTableCap) := by
  unfold invokePageTable
  split
  · exact .liftExcept_bind _ fun _ => .lift_bind _ fun _ => .bind_avoids
      (.liftExcept_bind _ fun _ => .bind_avoids (errAtomic_pageTableMap ..) fun _ => .pure _)
      fun _ => .bind (.modify _) fun _ => .pure _
  · exact .throw _
  · exact .bind_avoids (errAtomic_makeAsRoot ..) fun _ => .bind (.modify _) fun _ => .pure _
  · exact .throw _

theorem errAtomic_handleInvocation (invLabel : InvLabel) (reg : Registers) :
    ErrAtomic (handleInvocation cfg invLabel reg) :=
  .lift_bind _ fun inv => .liftExcept_bind _ fun k => by
    cases k with
    | untyped => exact errAtomic_invokeUntyped ..
    | cNode => exact errAtomic_invokeCNode ..
    | tcb => exact errAtomic_invokeTcb ..
    | notification => exact errAtomic_invokeNotification ..
    | endPoint => exact errAtomic_invokeEndPoint ..
    | page => exact errAtomic_invokePage ..
    | pageTable => exact errAtomic_invokePageTable ..

theorem errAtomic_handlePrint (invLabel : InvLabel) : ErrAtomic (handlePrint cfg invLabel) := by
  unfold handlePrint
  split
  · exact .pure _
  · refine .get_bind fun _ => .lift_bind _ fun t => ?_
    cases t.rootCnode with
    | some root => exact .lift_bind _ fun _ => .pure _
    | none => exact .throw _
  · exact .throw _

/-- **A system call that answers `Err` has changed nothing.** -/
theorem errAtomic_dispatchSyscall (reg : Registers) : ErrAtomic (dispatchSyscall cfg reg) := by
  unfold dispatchSyscall
  split
  · exact .throw _
  · exact .ite (errAtomic_handlePrint ..) (errAtomic_handleInvocation ..)

end Zoeax
