import Zoeax.Verify.Trace

/-!
# The errors of invocations

Two of the error kinds are unknown to `ErrKind::try_from`, and a value of more than 16 bits does not
survive the way back to the caller. No invocation answers such an error
(`reportable_handleInvocation`): each of the kinds that the kernel uses is known, and the values are
0, a level of a page table, or the size of a page.

As in the proof of atomicity, the proof follows the code; what cannot answer `Err` at all is known
from there. `handleSyscall_of_error` is what atomicity means for the caller: a failed call leaves
the state as it was, up to the result.
-/

namespace Zoeax

open Lib

/-- `ErrKind::try_from` and `as u16` give the error back. -/
def KernelError.Reportable (e : KernelError) : Prop :=
  ErrKind.ofUsize? e.eKind.toUsize = some e.eKind ∧ e.eVal < 2 ^ 16

instance (e : KernelError) : Decidable e.Reportable := inferInstanceAs (Decidable (_ ∧ _))

/-- An error that the caller does not get as it is. -/
def Stop.Garbled : Stop → Prop
  | .err e => ¬e.Reportable
  | .halt _ => False

theorem Stop.Garbled.isErr (e : Stop) (h : e.Garbled) : e.IsErr := by
  cases e with
  | err _ => exact trivial
  | halt _ => exact h

/-- The error of `kerr!` with a known kind and a short value. -/
theorem not_garbled_kerr {k : ErrKind} {v : Nat} (hk : ErrKind.ofUsize? k.toUsize = some k)
    (hv : v < 2 ^ 16) : ¬(kerr k v).Garbled := fun h => h ⟨hk, hv⟩

variable (cfg : Config)

/-- Code whose errors can be reported. -/
abbrev ReportableErr {α : Type} (x : KM α) : Prop := Exec.Avoids Stop.Garbled x

theorem reportable_of_noErr {α : Type} {x : KM α} (h : NoErr x) : ReportableErr x :=
  h.mono Stop.Garbled.isErr

/-! ## Checks -/

theorem arith_not_garbled {α : Type} (x : Option α) (e : Stop) (h : arith x = .error e) :
    ¬e.Garbled := fun he => arith_not_isErr e h he.isErr

theorem require_not_garbled (c : Bool) {x : Stop} (hx : ¬x.Garbled) (e : Stop)
    (h : require c x = .error e) : ¬e.Garbled := by
  cases c with
  | true => cases h
  | false => exact Except.error.inj h ▸ hx

theorem capTryFromU8_not_garbled (v : UInt8) (e : Stop) (h : capTryFromU8 v = .error e) :
    ¬e.Garbled := by
  unfold capTryFromU8 at h
  split at h
  · cases h
  · exact Except.error.inj h ▸ not_garbled_kerr rfl (by decide)

theorem getCapType_not_garbled (c : CapabilityData) (e : Stop) (h : c.getCapType = .error e) :
    ¬e.Garbled := capTryFromU8_not_garbled _ e h

theorem tryRefAs_not_garbled (c : CapabilityData) (k : CapabilityType) (e : Stop)
    (h : c.tryRefAs k = .error e) : ¬e.Garbled :=
  except_bind_avoids (getCapType_not_garbled c)
    (fun _ => require_not_garbled _ (not_garbled_kerr rfl (by decide))) e h

theorem derive_not_garbled (c : CapabilityData) (e : Stop) (h : c.derive = .error e) :
    ¬e.Garbled := by
  refine except_bind_avoids (getCapType_not_garbled c) (fun k e h => ?_) e h
  cases k with
  | tcb => exact Except.error.inj h ▸ not_garbled_kerr rfl (by decide)
  | untyped => exact Except.error.inj h ▸ not_garbled_kerr rfl (by decide)
  | cNode => cases h
  | notification => cases h
  | endPoint => cases h
  | pageTable => cases h
  | page =>
    exact except_bind_avoids (require_not_garbled _ (not_garbled_kerr rfl (by decide)))
      (fun _ _ h => by cases h) e h

/-! ## Lookups -/

theorem reportable_readSlot (p : Nat) : (readSlot p).Avoids Stop.Garbled :=
  .bind .read fun _ => .ite (.pure _) (.throw id)

theorem reportable_occupied (p : Nat) : (occupied p).Avoids Stop.Garbled :=
  .bind (reportable_readSlot p) fun e => by
    cases e with
    | some e => exact .pure e
    | none => exact .throw (not_garbled_kerr rfl (by decide))

theorem lookupStep_not_garbled (c : CapabilityData) (capptr depthBits : Nat) (e : Stop)
    (h : c.lookupStep cfg capptr depthBits = .error e) : ¬e.Garbled := by
  have hslice : ∀ n e, checkSlice cfg n = .error e → ¬e.Garbled := fun n =>
    require_not_garbled _ (by split <;> exact id)
  exact except_bind_avoids (require_not_garbled _ (not_garbled_kerr rfl (by decide)))
    (fun _ => except_bind_avoids (arith_not_garbled _) fun _ => except_bind_avoids (hslice _)
      fun _ => except_bind_avoids (arith_not_garbled _) fun _ =>
      except_bind_avoids (arith_not_garbled _) fun _ =>
      except_bind_avoids (arith_not_garbled _) fun _ =>
      except_bind_avoids (require_not_garbled _ id) fun _ _ h => by cases h) e h

theorem reportable_lookupLoop (n : Nat) (c : CapabilityData) (capptr depthBits : Nat) :
    (CapabilityData.lookupLoop cfg n c capptr depthBits).Avoids Stop.Garbled := by
  induction n generalizing c depthBits with
  | zero => exact .throw id
  | succ n ih =>
    refine .bind (.liftExcept (lookupStep_not_garbled cfg c capptr depthBits)) fun r => ?_
    refine .bind (reportable_readSlot r.1) fun slot => ?_
    cases slot with
    | none => exact .pure _
    | some e =>
      refine .ite (.pure _) (.bind (.liftExcept (getCapType_not_garbled e.cap)) fun k => ?_)
      exact .ite (ih e.cap r.2) (.pure _)

theorem reportable_lookupTwoEntriesMut (c : CapabilityData)
    (capptr depthBits capptr2 depthBits2 : Nat) :
    (c.lookupTwoEntriesMut cfg capptr depthBits capptr2 depthBits2).Avoids Stop.Garbled :=
  .bind (reportable_lookupLoop cfg ..) fun _ => .bind (reportable_lookupLoop cfg ..) fun _ =>
    .bind (.liftExcept (require_not_garbled _ (not_garbled_kerr rfl (by decide)))) fun _ => .pure _

theorem reportable_lookupCap (rootCnode : CapabilityData) (ptr depth : Nat) (k : CapabilityType) :
    (lookupCap cfg rootCnode ptr depth k).Avoids Stop.Garbled :=
  .bind (reportable_lookupLoop cfg ..) fun _ => .bind (reportable_occupied _) fun e =>
    .bind (.liftExcept (tryRefAs_not_garbled e.cap k)) fun _ => .pure _

theorem reportable_allEmpty (n p : Nat) : (allEmpty n p).Avoids Stop.Garbled := by
  induction n generalizing p with
  | zero => exact .pure _
  | succ n ih =>
    refine .bind (reportable_readSlot p) fun slot => ?_
    cases slot with
    | none => exact ih _
    | some _ => exact .pure _

theorem reportable_getWritable (c : CapabilityData) (num index : Nat) :
    (c.getWritable cfg num index).Avoids Stop.Garbled := by
  refine .bind (.liftExcept (arith_not_garbled _)) fun _ => ?_
  refine .bind (.liftExcept (require_not_garbled _ (not_garbled_kerr rfl (by decide)))) fun _ => ?_
  refine .bind (.liftExcept (require_not_garbled _ (by split <;> exact id))) fun _ => ?_
  refine .bind (reportable_allEmpty _ _) fun _ => ?_
  refine .bind (.liftExcept (require_not_garbled _ (not_garbled_kerr rfl (by decide)))) fun _ => ?_
  exact .bind (.liftExcept (require_not_garbled _ id)) fun _ => .pure _

theorem reportable_findInvocation (capPtr depth : Nat) :
    (findInvocation cfg capPtr depth).Avoids Stop.Garbled := by
  refine .bind .read fun s => .bind ((avoids_deref _).mono Stop.Garbled.isErr) fun t => ?_
  cases t.rootCnode with
  | none => exact .throw (not_garbled_kerr rfl (by decide))
  | some root =>
    exact .bind (reportable_lookupLoop cfg ..) fun _ => .bind (reportable_occupied _) fun _ =>
      .pure _

/-! ## Retypes -/

theorem retype_not_garbled (c : CapabilityData) (k : CapabilityType) (userSize num : Nat) (e : Stop)
    (h : c.retype cfg k userSize num = .error e) : ¬e.Garbled := by
  have hno : ∀ {α : Type} {x : Except Stop α}, (∀ e, x = .error e → ¬e.IsErr) →
      ∀ e, x = .error e → ¬e.Garbled := fun hx e h he => hx e h he.isErr
  have hfree : ∀ e, c.getFreeBytes cfg = .error e → ¬e.Garbled :=
    except_bind_avoids (arith_not_garbled _) fun _ => arith_not_garbled _
  have hnew : ∀ start objectSize e,
      CapGenerator.new cfg k num start userSize objectSize = .error e → ¬e.Garbled :=
    fun start objectSize => except_bind_avoids (arith_not_garbled _) fun _ =>
      except_bind_avoids (arith_not_garbled _) fun _ _ h => by cases h
  exact except_bind_avoids (require_not_garbled _ (not_garbled_kerr rfl (by decide))) (fun _ =>
    except_bind_avoids (hno (getObjectSize_not_isErr cfg k userSize)) fun _ =>
    except_bind_avoids (arith_not_garbled _) fun _ => except_bind_avoids hfree fun _ =>
    except_bind_avoids (require_not_garbled _ (not_garbled_kerr rfl (by decide))) fun _ =>
    except_bind_avoids (arith_not_garbled _) fun _ => except_bind_avoids (hnew _ _) fun _ =>
    except_bind_avoids (hno (createCapDepVal_not_isErr .untyped _ _)) fun _ _ h => by cases h) e h

theorem invokeRetype_not_garbled (c : CapabilityData) (userSize num : Nat) (k : CapabilityType)
    (e : Stop) (h : c.invokeRetype cfg userSize num k = .error e) : ¬e.Garbled := by
  cases k with
  | untyped => exact Except.error.inj h ▸ not_garbled_kerr rfl (by decide)
  | _ => exact retype_not_garbled cfg c _ userSize num e h

theorem reportable_invokeUntyped (reg : Registers) (rootCnode : CapabilityData) (slot : Nat) :
    ReportableErr (invokeUntyped cfg reg rootCnode slot) := by
  refine .bind (.liftExcept (capTryFromU8_not_garbled _)) fun k => ?_
  refine .bind (.lift (reportable_lookupCap cfg ..)) fun r => ?_
  refine .bind (.lift (reportable_getWritable cfg ..)) fun window => .bind ?_ fun _ => .pure _
  refine .bind (reportable_of_noErr (noErr_deref _)) fun src => ?_
  refine .bind (.liftExcept (tryRefAs_not_garbled _ _)) fun _ => ?_
  refine .bind (.liftExcept (invokeRetype_not_garbled cfg _ _ _ _)) fun r => ?_
  exact .bind (.modify _) fun _ => reportable_of_noErr (noErr_insertCaps ..)

/-! ## Page tables -/

theorem reportable_readPte (a : Nat) : (readPte cfg a).Avoids Stop.Garbled :=
  .bind .read fun _ => .ite (.pure _) (.throw id)

theorem reportable_walkFrom (n table vaddr : Nat) :
    (PageTable.walkFrom cfg n table vaddr).Avoids Stop.Garbled := by
  induction n generalizing table with
  | zero => exact .pure _
  | succ n ih => exact .bind (reportable_readPte cfg _) fun _ => .ite (ih _) (.pure _)

/-- A walk stops at one of its levels. -/
theorem walkFrom_level_le {n table vaddr level a : Nat} {s : KState}
    (h : PageTable.walkFrom cfg n table vaddr s = .ok (level, a)) : level ≤ n := by
  induction n generalizing table with
  | zero =>
    obtain ⟨rfl, -⟩ := Prod.mk.inj (Query.pure_ok.1 h)
    exact le_refl _
  | succ n ih =>
    obtain ⟨pte, -, h⟩ := Query.bind_ok.1 h
    split at h
    · exact (ih h).trans (Nat.le_succ n)
    · obtain ⟨rfl, -⟩ := Prod.mk.inj (Query.pure_ok.1 h)
      exact le_refl _

theorem reportable_pageCapMap (c root : CapabilityData) (vaddr flags : Nat) :
    ReportableErr (PageCap.map cfg c root vaddr flags) := by
  refine .bind (.liftExcept (require_not_garbled _ (not_garbled_kerr rfl (by decide)))) fun _ => ?_
  refine .bind (.lift_bind (reportable_walkFrom cfg ..) fun s r hr => ?_) fun _ =>
    .bind (.pure _) fun _ => .pure _
  have hlevel : r.1 ≤ 3 := walkFrom_level_le cfg hr
  refine .ite (.throw (not_garbled_kerr rfl (by omega))) ?_
  refine .bind (.lift (reportable_readPte cfg _)) fun _ => ?_
  exact .ite (.throw (not_garbled_kerr rfl (by decide))) (reportable_of_noErr (noErr_writePte ..))

theorem reportable_pageCapUnmap (c root : CapabilityData) :
    ReportableErr (PageCap.unmap cfg c root) := by
  refine .bind (.liftExcept (require_not_garbled _ (not_garbled_kerr rfl (by decide)))) fun _ => ?_
  refine .bind (.lift_bind (reportable_walkFrom cfg ..) fun s r hr => ?_) fun _ => .pure _
  have hlevel : r.1 ≤ 3 := walkFrom_level_le cfg hr
  refine .ite (.throw (not_garbled_kerr rfl (by omega))) ?_
  refine .bind (.lift (reportable_readPte cfg _)) fun _ => ?_
  refine .ite (.throw (not_garbled_kerr rfl (by decide))) ?_
  exact .ite (.throw (not_garbled_kerr rfl (by decide))) (reportable_of_noErr (noErr_writePte ..))

theorem reportable_pageTableCapMap (c root : CapabilityData) (vaddr : Nat) :
    ReportableErr (PageTableCap.map cfg c root vaddr) := by
  refine .bind (.liftExcept (require_not_garbled _ (not_garbled_kerr rfl (by decide)))) fun _ => ?_
  refine .bind (.bind (.lift (reportable_walkFrom cfg ..)) fun r => ?_) fun _ => .pure _
  refine .ite (.throw (not_garbled_kerr rfl (by decide))) ?_
  exact .bind (reportable_of_noErr (noErr_writePte ..)) fun _ => .pure _

theorem reportable_makeAsRoot (c : CapabilityData) :
    ReportableErr (PageTableCap.makeAsRoot cfg c) := by
  refine .bind (.liftExcept (require_not_garbled _ (not_garbled_kerr rfl (by decide)))) fun _ => ?_
  refine .bind (.bind .get fun _ => .ite (.modify _) (.throw id)) fun _ => ?_
  exact .bind (.modify _) fun _ => .pure _

/-! ## Invocations -/

theorem reportable_invokeCNode (invLabel : InvLabel) (reg : Registers)
    (rootCnode destRoot : CapabilityData) :
    ReportableErr (invokeCNode cfg invLabel reg rootCnode destRoot) := by
  refine .bind (.lift (reportable_lookupLoop cfg ..)) fun _ => ?_
  refine .bind (.lift (reportable_occupied _)) fun _ => ?_
  refine .bind (.lift (reportable_lookupLoop cfg ..)) fun _ => ?_
  refine .bind (.lift (reportable_readSlot _)) fun _ => ?_
  refine .bind (.liftExcept (require_not_garbled _ (not_garbled_kerr rfl (by decide)))) fun _ => ?_
  refine .bind (.liftExcept (derive_not_garbled _)) fun _ => ?_
  refine .bind (reportable_of_noErr ?_) fun _ => .pure _
  exact .bind (noErr_newLocal ..) fun _ => .bind (noErr_linkNew ..) fun _ => .modify _

theorem reportable_setSlot (slot : TcbSlot) (c : CapabilityData) (src : Nat) :
    ReportableErr (TCBCap.setSlot cfg slot c src) :=
  .bind (reportable_of_noErr (noErr_deref _)) fun _ =>
    .bind (.liftExcept (derive_not_garbled _)) fun _ => reportable_of_noErr (noErr_setTcbSlot ..)

theorem reportable_configure (tcbCap : CapabilityData) (cnodeSlot vspaceSlot : Nat) :
    ReportableErr (configure cfg tcbCap cnodeSlot vspaceSlot) := by
  refine .bind (.lift (reportable_occupied _)) fun _ => ?_
  refine .bind (.liftExcept (tryRefAs_not_garbled _ _)) fun _ => ?_
  refine .bind (.lift (reportable_occupied _)) fun _ => ?_
  refine .bind (.liftExcept (tryRefAs_not_garbled _ _)) fun _ => ?_
  exact .bind (reportable_setSlot cfg ..) fun _ => reportable_setSlot cfg ..

theorem reportable_invokeTcb (invLabel : InvLabel) (reg : Registers) (ipcBuffer : Option Nat)
    (rootCnode tcbCap : CapabilityData) :
    ReportableErr (invokeTcb cfg invLabel reg ipcBuffer rootCnode tcbCap) := by
  unfold invokeTcb
  split
  · exact .bind (.lift (reportable_lookupTwoEntriesMut cfg ..)) fun _ =>
      .bind (reportable_configure cfg ..) fun _ => .pure _
  · split
    · exact .throw (not_garbled_kerr rfl (by decide))
    · exact .bind (.lift (.bind .read fun _ => .ite (.pure _) (.throw id))) fun _ =>
        .bind (reportable_of_noErr (noErr_updateTcb ..)) fun _ => .pure _
  · exact .bind (.lift (reportable_lookupCap cfg ..)) fun _ =>
      .bind (reportable_setSlot cfg ..) fun _ => .pure _
  · exact .bind (reportable_of_noErr (noErr_resume ..)) fun _ => .pure _
  · exact .throw (not_garbled_kerr rfl (by decide))

theorem reportable_invokeNotification (invLabel : InvLabel) (current : Nat)
    (notifyCap : CapabilityData) :
    ReportableErr (invokeNotification invLabel current notifyCap) := by
  unfold invokeNotification
  split
  · exact .bind (reportable_of_noErr (noErr_sendSignal ..)) fun _ => .pure _
  · exact .bind (reportable_of_noErr (noErr_waitSignal ..)) fun _ =>
      .bind (reportable_of_noErr (noErr_scheduleIf _)) fun _ => .pure _
  · exact .throw (not_garbled_kerr rfl (by decide))

theorem reportable_invokeEndPoint (invLabel : InvLabel) (current : Nat) (epCap : CapabilityData) :
    ReportableErr (invokeEndPoint invLabel current epCap) := by
  unfold invokeEndPoint
  split
  · exact .bind (reportable_of_noErr (noErr_epSend ..)) fun _ =>
      .bind (reportable_of_noErr (noErr_scheduleIf _)) fun _ => .pure _
  · exact .bind (reportable_of_noErr (noErr_epRecv ..)) fun _ =>
      .bind (reportable_of_noErr (noErr_scheduleIf _)) fun _ => .pure _
  · exact .throw (not_garbled_kerr rfl (by decide))

theorem reportable_invokePage (invLabel : InvLabel) (reg : Registers) (rootCnode : CapabilityData)
    (slot : Nat) (pageCap : CapabilityData) :
    ReportableErr (invokePage cfg invLabel reg rootCnode slot pageCap) := by
  unfold invokePage
  split
  · refine .bind (.liftExcept (require_not_garbled _ (not_garbled_kerr rfl (by decide))))
      fun _ => ?_
    exact .bind (.lift (reportable_lookupCap cfg ..)) fun _ =>
      .bind (reportable_pageCapMap cfg ..) fun _ => .bind (.modify _) fun _ => .pure _
  · exact .bind (.lift (reportable_lookupCap cfg ..)) fun _ =>
      .bind (reportable_pageCapUnmap cfg ..) fun _ => .bind (.modify _) fun _ => .pure _
  · exact .throw (not_garbled_kerr rfl (by decide))

theorem reportable_invokePageTable (invLabel : InvLabel) (reg : Registers)
    (rootCnode : CapabilityData) (slot : Nat) (pageTableCap : CapabilityData) :
    ReportableErr (invokePageTable cfg invLabel reg rootCnode slot pageTableCap) := by
  unfold invokePageTable
  split
  · refine .bind (.liftExcept (require_not_garbled _ (not_garbled_kerr rfl (by decide))))
      fun _ => ?_
    exact .bind (.lift (reportable_lookupCap cfg ..)) fun _ =>
      .bind (reportable_pageTableCapMap cfg ..) fun _ => .bind (.modify _) fun _ => .pure _
  · exact .throw id
  · exact .bind (reportable_makeAsRoot cfg _) fun _ => .bind (.modify _) fun _ => .pure _
  · exact .throw (not_garbled_kerr rfl (by decide))

/-- **Every error of an invocation can be reported.** -/
theorem reportable_handleInvocation (invLabel : InvLabel) (reg : Registers) :
    ReportableErr (handleInvocation cfg invLabel reg) :=
  .bind (.lift (reportable_findInvocation cfg ..)) fun inv =>
    .bind (.liftExcept (getCapType_not_garbled _)) fun k => by
      cases k with
      | untyped => exact reportable_invokeUntyped cfg ..
      | cNode => exact reportable_invokeCNode cfg ..
      | tcb => exact reportable_invokeTcb cfg ..
      | notification => exact reportable_invokeNotification ..
      | endPoint => exact reportable_invokeEndPoint ..
      | page => exact reportable_invokePage cfg ..
      | pageTable => exact reportable_invokePageTable cfg ..

/-! ## Failed system calls -/

open Exec

/-- **Error atomicity.** A system call whose inner result is `Err` changes the caller's `a0`, `a1`
and `sepc`, and nothing else. -/
theorem handleSyscall_of_error {cfg : Config} {s s' w : KState} {t : ThreadInfo} {e : KernelError}
    (ht : s.tcbs s.curRegBase = some t)
    (he : dispatchSyscall cfg t.registers s = .error (.err e) w)
    (h : handleSyscall cfg s = .ok () s') :
    s' = s.setTcb s.curRegBase { t with
      registers := { t.registers with
        a0 := UInt64.ofNat e.eKind.toUsize, a1 := UInt64.ofNat e.eVal,
        sepc := t.registers.sepc + 4 } } := by
  obtain rfl : w = s := errAtomic_dispatchSyscall cfg t.registers he True.intro
  have hcatch : catchErr (dispatchSyscall cfg t.registers) w = .ok (.error e) w := by
    rw [catchErr, he]
  simp only [handleSyscall, bind_ok, get_ok, lift_ok, getTcb_ok] at h
  obtain ⟨_, _, ⟨rfl, rfl⟩, t', _, ⟨ht', rfl⟩, ret, w', hdisp, hret⟩ := h
  obtain rfl := Option.some.inj (ht.symm.trans ht')
  obtain ⟨rfl, rfl⟩ := EStateM.Result.ok.inj (hcatch.symm.trans hdisp)
  obtain ⟨t', sepc, ht', hsepc, rfl⟩ := returnSyscall_ok.1 hret
  obtain rfl := Option.some.inj (ht.symm.trans ht')
  rw [ofNat_add_four hsepc]
  rfl

/-- `PageMap` of the page in slot 19 at an address for which there is no page table yet. -/
def mapFarRegs : Registers := { ecallRegs 19 18 12 with a3 := 3, a4 := 18, a5 := 0x8000000000 }

/-- The root server makes a page and cannot map it: the walk ends at the root. -/
theorem handleSyscall_of_missing_table : ∃ s₀ s u t w s', Boot .virt demoImage s₀ ∧
    Run .virt (fun _ _ _ _ => True) s₀ s ∧ trapEntry mapFarRegs s = .ok () u ∧
    u.tcbs u.curRegBase = some t ∧ t.registers = mapFarRegs ∧
    dispatchSyscall .virt t.registers u = .error (.err ⟨.pageTableNotMappedYet, 3⟩) w ∧
    handleSyscall .virt u = .ok () s' ∧
    s' = u.setTcb u.curRegBase { t with registers := { mapFarRegs with
      a0 := UInt64.ofNat ErrKind.pageTableNotMappedYet.toUsize, a1 := 3, sepc := 0x10004 } } := by
  obtain ⟨s₀, s, hboot, hrun, htest⟩ := exists_run_of_trace .virt (fun _ _ _ _ => True) demoImage
    [.trap { ecallRegs 9 18 2 with a3 := 2, a4 := 18 + 19 * 2 ^ 32, a5 := 1, a6 := 4 }]
    (fun s => endsIn (trapEntry mapFarRegs s) fun u => (u.tcbs u.curRegBase).any fun t =>
      t.registers = mapFarRegs && stopsWith (dispatchSyscall .virt t.registers u)
        (.err ⟨.pageTableNotMappedYet, 3⟩) && endsIn (handleSyscall .virt u) fun _ => true)
    (by decide +kernel)
  obtain ⟨_, u, hentry, htest⟩ := exists_of_endsIn htest
  obtain ⟨t, ht, htest⟩ := (Option.any_eq_true ..).1 htest
  simp only [Bool.and_eq_true, decide_eq_true_eq] at htest
  obtain ⟨⟨hregs, hstop⟩, hret⟩ := htest
  obtain ⟨w, hstop⟩ := exists_of_stopsWith hstop
  obtain ⟨_, s', hret, -⟩ := exists_of_endsIn hret
  have hs' := handleSyscall_of_error ht hstop hret
  rw [hregs] at hs'
  exact ⟨s₀, s, u, t, w, s', hboot, hrun, hentry, ht, hregs, hstop, hret, hs'⟩

end Zoeax
