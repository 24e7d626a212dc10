import Zoeax.Client.Elf
import Zoeax.Verify.Abi
import Zoeax.Verify.Slots
import Zoeax.Verify.UserImage

/-!
# What a call leaves to its caller

A thread that makes a call goes on afterwards with the same root CNode in the same address space,
and its capabilities still name what they named: slots in use keep their capability, but for the
marks of a page or a table and what is left of untyped memory (`Continues`). A call that failed has
changed nothing else (`Call.run_error`); what a call that succeeded has done is said call by call.
-/

namespace Zoeax.Client

open Lib Exec CapabilityData
open Zoeax.PageTable (entry)

variable {cfg : Config} {s s' s'' : KState}

/-! ## Going on -/

/-- What may become of a capability in a slot. -/
def Evolves (c c' : CapabilityData) : Prop :=
  c' = c ∨ ∃ k, k ≠ .cNode ∧ c.getCapType = .ok k ∧ c'.getCapType = .ok k ∧
    (k ≠ .untyped → c'.getFrame = c.getFrame)

theorem Evolves.trans {c c' c'' : CapabilityData} (h : Evolves c c') (h' : Evolves c' c'') :
    Evolves c c'' := by
  rcases h with rfl | ⟨k, hne, hk, hk', hframe⟩
  · exact h'
  · rcases h' with rfl | ⟨k', -, hk'', hk''', hframe'⟩
    · exact .inr ⟨k, hne, hk, hk', hframe⟩
    · obtain rfl : k = k' := Except.ok.inj (hk'.symm.trans hk'')
      exact .inr ⟨k, hne, hk, hk''', fun h => (hframe' h).trans (hframe h)⟩

/-- The current thread goes on: no other thread, no other address space, no other root CNode, and
what its capabilities name is still there. -/
structure Continues (s s' : KState) : Prop where
  current : s'.current = s.current
  base : s'.curRegBase = s.curRegBase
  satp : s'.satp = s.satp
  tcbs : ∀ p t', s'.tcbs p = some t' → ∃ t, s.tcbs p = some t ∧ t'.rootCnode = t.rootCnode
  thread : ∀ t, s.tcbs s.current = some t → ∃ t', s'.tcbs s.current = some t'
  objects : ∀ o ∈ s.objects, o ∈ s'.objects
  caps : ∀ p c, s.isSlot p = true → s.capAt p = some c → ∃ c', s'.capAt p = some c' ∧ Evolves c c'

namespace Continues

theorem isSlot (h : Continues s s') {p : Nat} (hp : s.isSlot p = true) : s'.isSlot p = true := by
  obtain ⟨o, ho, hslot⟩ := List.any_eq_true.1 hp
  exact List.any_eq_true.2 ⟨o, h.objects o ho, hslot⟩

theorem trans (h : Continues s s') (h' : Continues s' s'') : Continues s s'' where
  current := h'.current.trans h.current
  base := h'.base.trans h.base
  satp := h'.satp.trans h.satp
  tcbs p t'' ht'' := by
    obtain ⟨t', ht', hroot'⟩ := h'.tcbs p t'' ht''
    obtain ⟨t, ht, hroot⟩ := h.tcbs p t' ht'
    exact ⟨t, ht, hroot'.trans hroot⟩
  thread t ht := by
    obtain ⟨t', ht'⟩ := h.thread t ht
    obtain ⟨t'', ht''⟩ := h'.thread t' (h.current ▸ ht')
    exact ⟨t'', h.current ▸ ht''⟩
  objects o ho := h'.objects o (h.objects o ho)
  caps p c hp hc := by
    obtain ⟨c', hc', hevolves⟩ := h.caps p c hp hc
    obtain ⟨c'', hc'', hevolves'⟩ := h'.caps p c' (h.isSlot hp) hc'
    exact ⟨c'', hc'', hevolves.trans hevolves'⟩

/-- Only the registers of the thread have changed. -/
theorem setTcb {t t' : ThreadInfo} (ht : s.tcbs s.current = some t)
    (hroot : t'.rootCnode = t.rootCnode) : Continues s (s.setTcb s.current t') where
  current := rfl
  base := rfl
  satp := rfl
  tcbs p t₁ ht₁ := by
    rw [KState.tcbs_setTcb] at ht₁
    split at ht₁
    · next hp => exact ⟨t, hp ▸ ht, Option.some.inj ht₁ ▸ hroot⟩
    · exact ⟨t₁, ht₁, rfl⟩
  thread _ _ := ⟨t', (KState.tcbs_setTcb ..).trans (if_pos rfl)⟩
  objects _ ho := ho
  caps _ c _ hc := ⟨c, hc, .inl rfl⟩

/-- Only the memory of pages and tables has changed. -/
theorem memory (s : KState) (mem : Nat → UInt64) (rooted : List Nat) :
    Continues s { s with mem := mem, rooted := rooted } :=
  ⟨rfl, rfl, rfl, fun _ t ht => ⟨t, ht, rfl⟩, fun t ht => ⟨t, ht⟩, fun _ ho => ho,
    fun _ c _ hc => ⟨c, hc, .inl rfl⟩⟩

/-- A capability evolves in its slot. -/
theorem setCap {p : Nat} {c c' : CapabilityData} (hp : s.capAt p = some c) (hc : Evolves c c') :
    Continues s (s.setCap p c') where
  current := rfl
  base := rfl
  satp := rfl
  tcbs _ t ht := ⟨t, ht, rfl⟩
  thread t ht := ⟨t, ht⟩
  objects _ ho := ho
  caps q d hq hd := by
    rw [KState.setCap, KState.capAt_setSlot]
    split
    · next heq =>
      obtain rfl : c = d := Option.some.inj (hp.symm.trans (heq ▸ hd))
      obtain ⟨e, he, -⟩ := Option.map_eq_some_iff.1 hp
      exact ⟨c', congrArg (Option.map _) (congrArg (Option.map _) he), hc⟩
    · exact ⟨d, hd, .inl rfl⟩

/-- A word changes, and the mark of a frame. -/
theorem map {p : Nat} {c : CapabilityData} (hp : s.capAt p = some c)
    (hk : c.getCapType = .ok .page ∨ c.getCapType = .ok .pageTable) (a : Nat) (w d : UInt64) :
    Continues s ((s.setWord a w).setCap p (c.setCapDepVal d)) := by
  refine (memory s _ _).trans (setCap (s := s.setWord a w) hp ?_)
  rcases hk with hk | hk
  · exact .inr ⟨.page, by decide, hk, hk, fun _ => rfl⟩
  · exact .inr ⟨.pageTable, by decide, hk, hk, fun _ => rfl⟩

/-- An empty slot gets a capability. -/
theorem putCap {q : Nat} {c : CapabilityData} (hwf : HeapWF cfg s) (hq : s.capAt q = none)
    (h : PutCap cfg q c s s') : Continues s s' := by
  obtain ⟨⟨slots, rfl⟩, hcaps⟩ := h
  refine ⟨rfl, rfl, rfl, fun _ t ht => ⟨t, ht, rfl⟩, fun t ht => ⟨t, ht⟩, fun _ ho => ho,
    fun p d hp hd => ⟨d, ?_, .inl rfl⟩⟩
  rw [hcaps p (hwf.not_isLocal hp), if_neg, hd]
  rintro rfl
  cases hq.symm.trans hd

/-- A page or a page table comes to life. -/
theorem born (s : KState) {o : Object} (hk : o.kind ≠ .tcb) : Continues s (s.born o) where
  current := current_born s o
  base := by
    unfold KState.born
    split <;> rfl
  satp := by
    unfold KState.born
    split <;> rfl
  tcbs p t ht := ⟨t, by rwa [tcbs_born, if_neg fun h => hk h.1] at ht, rfl⟩
  thread t ht := ⟨t, by rwa [tcbs_born, if_neg fun h => hk h.1]⟩
  objects o' ho' := by
    rw [objects_born]
    exact List.mem_cons_of_mem _ ho'
  caps p c _ hc := ⟨c, (capAt_born s o p).trans hc, .inl rfl⟩

theorem heapWF (h : Continues s s') (hobj : s'.objects = s.objects) (hwf : HeapWF cfg s) :
    HeapWF cfg s' where
  admissible := hobj ▸ hwf.admissible
  size := hobj ▸ hwf.size
  apart := hobj ▸ hwf.apart
  tcbs p t' ht' := by
    obtain ⟨t, ht, -⟩ := h.tcbs p t' ht'
    exact hobj ▸ hwf.tcbs p t ht

end Continues

/-! ## Names -/

/-- From the root CNode `root`, the path leads to a slot with a capability of type `k`, for the
frame `f` if it is for a frame. -/
def Names (cfg : Config) (s : KState) (root : CapabilityData) (ptr : UInt64) (depth : UInt32)
    (k : CapabilityType) (f : Nat) : Prop :=
  ∃ p c, Leads cfg s ptr.toNat root depth.toNat p ∧ s.isSlot p = true ∧ s.capAt p = some c ∧
    c.getCapType = .ok k ∧ (k ≠ .untyped → c.getFrame = f)

/-- A path to a capability stays. -/
theorem leads_continues (h : Continues s s') {ptr depth p : Nat} {root c : CapabilityData}
    (hlead : Leads cfg s ptr root depth p) (hp : s.capAt p = some c) :
    Leads cfg s' ptr root depth p := by
  induction hlead with
  | empty _ _ hnone => cases hnone.symm.trans hp
  | last hstep hslot => exact .last hstep (h.isSlot hslot)
  | leaf hstep hslot hd hk =>
    obtain ⟨d', hd', rfl | ⟨k, hne, -, hk', -⟩⟩ := h.caps _ _ hslot hd
    · exact .leaf hstep (h.isSlot hslot) hd' hk
    · refine .leaf hstep (h.isSlot hslot) hd' fun hcnode => hne ?_
      exact Except.ok.inj (hk'.symm.trans hcnode)
  | next hstep hrem hslot hd hk _ ih =>
    obtain ⟨d', hd', rfl | ⟨k, hne, hk', -⟩⟩ := h.caps _ _ hslot hd
    · exact .next hstep hrem (h.isSlot hslot) hd' hk (ih hp)
    · exact absurd (Except.ok.inj (hk'.symm.trans hk)) hne

/-- The kernel finds it in as many iterations. -/
theorem lookupLoop_continues (h : Continues s s') {n ptr depth p : Nat} {root c : CapabilityData}
    (hlook : lookupLoop cfg n root ptr depth s = .ok p) (hp : s.capAt p = some c) :
    lookupLoop cfg n root ptr depth s' = .ok p := by
  induction n generalizing root depth with
  | zero => cases hlook
  | succ n ih =>
    simp only [lookupLoop, Query.bind_ok, Query.lift_ok] at hlook ⊢
    obtain ⟨⟨q, rem⟩, hstep, slot, hread, hlook⟩ := hlook
    obtain ⟨hslot, rfl⟩ := readSlot_ok.1 hread
    refine ⟨(q, rem), hstep, s'.slots q, readSlot_ok.2 ⟨h.isSlot hslot, rfl⟩, ?_⟩
    cases he : s.slots q with
    | none =>
      rw [he] at hlook
      obtain rfl := Query.pure_ok.1 hlook
      rw [KState.capAt, he] at hp
      cases hp
    | some e =>
      obtain ⟨c', hc', hevolves⟩ := h.caps q e.cap hslot (congrArg (Option.map _) he)
      obtain ⟨e', he', rfl⟩ := Option.map_eq_some_iff.1 hc'
      rw [he] at hlook
      rw [he']
      dsimp only at hlook ⊢
      split at hlook
      · next hrem => rwa [if_pos hrem]
      · next hrem =>
        rw [if_neg hrem]
        simp only [Query.bind_ok, Query.lift_ok] at hlook ⊢
        obtain ⟨k, hk, hlook⟩ := hlook
        rcases hevolves with heq | ⟨k', hne, hk', hk'', -⟩
        · refine ⟨k, heq ▸ hk, ?_⟩
          split at hlook
          · next hcnode => rw [if_pos hcnode, heq]; exact ih hlook
          · next hcnode => rwa [if_neg hcnode]
        · obtain rfl : k = k' := Except.ok.inj (hk.symm.trans hk')
          rw [if_neg hne] at hlook
          exact ⟨k, hk'', by rwa [if_neg hne]⟩

theorem Names.continues {root : CapabilityData} {ptr : UInt64} {depth : UInt32}
    {k : CapabilityType} {f : Nat} (hn : Names cfg s root ptr depth k f) (h : Continues s s') :
    Names cfg s' root ptr depth k f := by
  obtain ⟨p, c, hlead, hslot, hc, hk, hframe⟩ := hn
  obtain ⟨c', hc', rfl | ⟨k', -, hk', hk'', hframe'⟩⟩ := h.caps p c hslot hc
  · exact ⟨p, c', leads_continues h hlead hc, h.isSlot hslot, hc', hk, hframe⟩
  · obtain rfl : k = k' := Except.ok.inj (hk.symm.trans hk')
    exact ⟨p, c', leads_continues h hlead hc, h.isSlot hslot, hc', hk'',
      fun hne => (hframe' hne).trans (hframe hne)⟩

/-- The kernel finds the capability `c` at the end of the path, in the slot `p`. -/
structure Finds (cfg : Config) (s : KState) (root : CapabilityData) (ptr : UInt64) (depth : UInt32)
    (p : Nat) (c : CapabilityData) : Prop where
  lookup : root.lookupEntryMut cfg ptr.toNat depth.toNat s = .ok p
  slot : s.isSlot p = true
  cap : s.capAt p = some c

namespace Finds

variable {root c : CapabilityData} {ptr : UInt64} {depth : UInt32} {p : Nat} {k : CapabilityType}

theorem continues (h : Finds cfg s root ptr depth p c) (hs : Continues s s') {c' : CapabilityData}
    (hc' : s'.capAt p = some c') : Finds cfg s' root ptr depth p c' :=
  ⟨lookupLoop_continues hs h.lookup h.cap, hs.isSlot h.slot, hc'⟩

theorem names (h : Finds cfg s root ptr depth p c) (hk : c.getCapType = .ok k) :
    Names cfg s root ptr depth k c.getFrame :=
  ⟨p, c, leads_of_lookupLoop h.lookup, h.slot, h.cap, hk, fun _ => rfl⟩

theorem lookupCap (h : Finds cfg s root ptr depth p c) (hk : c.getCapType = .ok k) :
    lookupCap cfg root ptr.toNat depth.toNat k s = .ok (p, c) := by
  obtain ⟨e, he, rfl⟩ := Option.map_eq_some_iff.1 h.cap
  simp only [Zoeax.lookupCap, Query.bind_ok, Query.lift_ok, occupied_ok, Query.pure_ok,
    tryRefAs_ok]
  exact ⟨p, h.lookup, e, ⟨h.slot, he⟩, (), hk, rfl⟩

end Finds

/-- A path names one frame. -/
theorem Names.unique {root : CapabilityData} {ptr : UInt64} {depth : UInt32} {k : CapabilityType}
    {f g : Nat} (hf : Names cfg s root ptr depth k f) (hg : Names cfg s root ptr depth k g)
    (hne : k ≠ .untyped) : f = g := by
  obtain ⟨p, c, hlead, -, hc, -, hframe⟩ := hf
  obtain ⟨q, d, hlead', -, hd, -, hframe'⟩ := hg
  obtain rfl : p = q := hlead.unique hlead'
  obtain rfl : c = d := Option.some.inj (hc.symm.trans hd)
  exact (hframe hne).symm.trans (hframe' hne)

theorem cnodePath_continues (h : Continues s s') {ptr depth : Nat} {root c : CapabilityData}
    (hpath : CNodePath cfg s ptr root depth c) : CNodePath cfg s' ptr root depth c := by
  have hcnode : ∀ {p d}, s.isSlot p = true → s.capAt p = some d → d.getCapType = .ok .cNode →
      s'.capAt p = some d := by
    intro p d hslot hd hk
    obtain ⟨d', hd', rfl | ⟨k, hne, hk', -⟩⟩ := h.caps _ _ hslot hd
    · exact hd'
    · exact absurd (Except.ok.inj (hk'.symm.trans hk)) hne
  induction hpath with
  | last hstep hslot hd hk => exact .last hstep (h.isSlot hslot) (hcnode hslot hd hk) hk
  | next hstep hrem hslot hd hk _ ih =>
    exact .next hstep hrem (h.isSlot hslot) (hcnode hslot hd hk) hk ih

/-- The current thread can make calls, with `root` as its root CNode. -/
structure Caller (s : KState) (root : CapabilityData) : Prop where
  base : s.curRegBase = s.current
  thread : ∃ t e, s.tcbs s.current = some t ∧ t.rootCnode = some e ∧ e.cap = root

theorem Caller.continues {root : CapabilityData} (hc : Caller s root) (h : Continues s s') :
    Caller s' root := by
  obtain ⟨hbase, t, e, ht, he, hroot⟩ := hc
  obtain ⟨t', ht'⟩ := h.thread t ht
  obtain ⟨t₁, ht₁, hroot'⟩ := h.tcbs _ t' ht'
  obtain rfl : t = t₁ := Option.some.inj (ht.symm.trans ht₁)
  refine ⟨h.base.trans (hbase.trans h.current.symm), t', e, h.current.symm ▸ ht', ?_, hroot⟩
  exact hroot'.trans he

/-- The path of the root that a call is given leads to a table that has that name. -/
theorem lookupCap_names {root c : CapabilityData} {ptr : UInt64} {depth : UInt32} {f p : Nat}
    {k : CapabilityType} (hn : Names cfg s root ptr depth k f) (hne : k ≠ .untyped)
    (h : lookupCap cfg root ptr.toNat depth.toNat k s = .ok (p, c)) : c.getFrame = f := by
  obtain ⟨q, d, hlead, -, hd, -, hframe⟩ := hn
  have hc := (lookupCap_ok h).2.1
  simp only [lookupCap, Query.bind_ok, Query.lift_ok, occupied_ok, Query.pure_ok,
    Prod.mk.injEq] at h
  obtain ⟨_, hlook, _, -, _, -, rfl, -⟩ := h
  obtain rfl := hlead.unique (leads_of_lookupLoop hlook)
  obtain rfl := Option.some.inj (hd.symm.trans hc)
  exact hframe hne

/-! ## Calls -/

/-- The state in which the kernel starts to work for a call. -/
def entered (reg : Registers) (s : KState) (t : ThreadInfo) : KState :=
  s.setTcb s.current { t with registers := reg }

theorem continues_entered (reg : Registers) {t : ThreadInfo} (ht : s.tcbs s.current = some t) :
    Continues s (entered reg s t) := .setTcb ht rfl

section Syscall

variable {regs : Registers} {capPtr a3 a4 a5 a6 : UInt64} {capDepth : UInt32} {invLabel : InvLabel}

/-- **A call**: the kernel either answers an error, and has only read, or it returns from the
invocation. Then it writes the registers of the caller. -/
theorem syscall_cases {res : SysCallRes} {t : ThreadInfo} (hcur : s.curRegBase = s.current)
    (ht : s.tcbs s.current = some t)
    (h : syscall cfg regs capPtr capDepth invLabel a3 a4 a5 a6 .call s = .ok res s') :
    let reg := callRegs regs capPtr capDepth invLabel a3 a4 a5 a6 .call
    ∃ w t₁ t₂ sepc, w.tcbs s.current = some t₁ ∧ t₂.rootCnode = t₁.rootCnode ∧
      cfg.profile.add t₁.registers.sepc.toNat 4 = some sepc ∧ s' = w.setTcb s.current t₂ ∧
      ((∃ e : KernelError, res = .error (e.eKind, UInt16.ofNat e.eVal) ∧
          handleInvocation cfg invLabel reg (entered reg s t) = .error (.err e) w) ∧
          w = entered reg s t ∨
        (∃ v, res = .ok v) ∧ ∃ val, handleInvocation cfg invLabel reg (entered reg s t) =
          .ok val w) := by
  intro reg
  simp only [syscall, bind_ok, get_ok, lift_ok, getTcb_ok, pure_ok] at h
  obtain ⟨_, _, ⟨rfl, rfl⟩, _, u, hentry, _, _, hsys, t₂, _, ⟨ht₂, rfl⟩, rfl, rfl⟩ := h
  obtain ⟨t', ht', rfl⟩ := trapEntry_ok.1 hentry
  obtain rfl : t = t' := Option.some.inj (ht.symm.trans (hcur ▸ ht'))
  simp only [handleSyscall, bind_ok, get_ok, lift_ok, getTcb_ok] at hsys
  obtain ⟨_, _, ⟨rfl, rfl⟩, t₁, _, ⟨ht₁, rfl⟩, ret, w, hdisp, hret⟩ := hsys
  obtain ⟨t₃, sepc, ht₃, hsepc, rfl⟩ := returnSyscall_ok.1 hret
  obtain rfl := Option.some.inj (ht₁.symm.trans ((KState.tcbs_setTcb ..).trans (if_pos rfl)))
  obtain rfl := Option.some.inj (ht₂.symm.trans ((KState.tcbs_setTcb ..).trans (if_pos hcur.symm)))
  dsimp only [KState.setTcb] at ht₃
  rw [hcur] at hdisp ht₃
  refine ⟨w, t₃,
    { t₃ with registers := { t₃.registers.setResult ret with sepc := UInt64.ofNat sepc } }, sepc,
    ht₃, rfl, hsepc, congrArg (KState.setTcb w · _) hcur, ?_⟩
  change catchErr (dispatchSyscall cfg reg) (entered reg s t) = _ at hdisp
  rw [Call.dispatchSyscall_callRegs] at hdisp
  rcases catchErr_ok hdisp with ⟨val, rfl, hinv⟩ | ⟨e, rfl, hinv⟩
  · refine .inr ⟨?_, val, hinv⟩
    cases val with
    | some v => exact ⟨_, if_pos rfl⟩
    | none => exact ⟨_, if_pos rfl⟩
  · have he : e.Reportable := by
      by_contra hnot
      exact reportable_handleInvocation cfg _ _ hinv hnot
    exact .inl ⟨⟨e, Call.sysCallRes_error he .., hinv⟩,
      errAtomic_handleInvocation cfg _ _ hinv True.intro⟩

variable {root : CapabilityData} (hc : Caller s root)

include hc

/-- **A call that failed** has changed nothing but registers. -/
theorem syscall_error {e : SysCallFailed}
    (h : syscall cfg regs capPtr capDepth invLabel a3 a4 a5 a6 .call s = .ok (.error e) s') :
    Continues s s' ∧ s'.mem = s.mem ∧ s'.objects = s.objects := by
  obtain ⟨hbase, t, -, ht, -⟩ := hc
  obtain ⟨w, t₁, t₂, -, ht₁, hroot, -, rfl, ⟨-, rfl⟩ | ⟨⟨v, hv⟩, -⟩⟩ := syscall_cases hbase ht h
  · exact ⟨(continues_entered _ ht).trans (.setTcb ht₁ hroot), rfl, rfl⟩
  · cases hv

/-- **A call that succeeded** has invoked the capability that it names. -/
theorem syscall_invoke {k : CapabilityType} {f : Nat} {v : UInt64}
    (hn : Names cfg s root capPtr capDepth k f)
    (h : syscall cfg regs capPtr capDepth invLabel a3 a4 a5 a6 .call s = .ok (.ok v) s') :
    let reg := callRegs regs capPtr capDepth invLabel a3 a4 a5 a6 .call
    ∃ t inv val w t₂, s.tcbs s.current = some t ∧ inv.rootCnode = root ∧
      Leads cfg s capPtr.toNat root capDepth.toNat inv.slot ∧ s.isSlot inv.slot = true ∧
      (entered reg s t).capAt inv.slot = some inv.cap ∧ inv.cap.getCapType = .ok k ∧
      (k ≠ .untyped → inv.cap.getFrame = f) ∧
      invoke cfg invLabel reg inv k (entered reg s t) = .ok val w ∧
      s' = w.setTcb s.current t₂ ∧ (Continues (entered reg s t) w → Continues s s') := by
  intro reg
  obtain ⟨hbase, t, e, ht, he, hroot⟩ := hc
  obtain ⟨p, c, hlead, hslot, hp, hk, hframe⟩ := hn
  obtain ⟨w, t₁, t₂, -, ht₁, hroot₂, -, rfl, ⟨⟨_, hv, -⟩, -⟩ | ⟨-, val, hinv⟩⟩ :=
    syscall_cases hbase ht h
  · cases hv
  · obtain ⟨inv, k', hfind, hk', hinvoke⟩ := handleInvocation_ok hinv
    change findInvocation cfg capPtr.toNat capDepth.toUInt64.toNat _ = _ at hfind
    rw [Call.findInvocation_mod] at hfind
    obtain ⟨-, htcb, ⟨root', hroot', hcap⟩, hlook, -, hcap'⟩ := findInvocation_ok hfind
    have htcb' := Option.some.inj (htcb.symm.trans ((KState.tcbs_setTcb ..).trans (if_pos rfl)))
    rw [htcb'] at hroot'
    obtain rfl : e = root' := Option.some.inj (he.symm.trans hroot')
    rw [Nat.mod_eq_of_lt capDepth.toNat_lt, ← hcap, hroot] at hlook
    obtain rfl : p = inv.slot := hlead.unique (leads_of_lookupLoop hlook).of_setTcb
    obtain rfl : c = inv.cap := Option.some.inj (hp.symm.trans hcap')
    obtain rfl : k = k' := Except.ok.inj (hk.symm.trans hk')
    refine ⟨t, inv, val, w, t₂, ht, hcap.symm.trans hroot, hlead, hslot, hp, hk, hframe,
      hinvoke, rfl, fun hw => ?_⟩
    have hlast : Continues w (w.setTcb w.current t₂) :=
      .setTcb (hw.current.symm ▸ ht₁ : w.tcbs w.current = some t₁) hroot₂
    rw [hw.current] at hlast
    exact ((continues_entered reg ht).trans hw).trans hlast

end Syscall

section Outcome

variable {call : Call} {regs : Registers} {root : CapabilityData} (hc : Caller s root)

include hc

theorem Call.run_error {e : SysCallFailed} (h : call.run cfg regs s = .ok (.error e) s') :
    Continues s s' ∧ s'.mem = s.mem ∧ s'.objects = s.objects := by
  obtain ⟨a3, a4, a5, a6, hrun, -⟩ := exists_syscall cfg regs call
  rw [hrun] at h
  exact syscall_error hc h

/-- On a capability of the type it is meant for, a call that succeeded has done what it asked
for. -/
theorem Call.run_perform {f : Nat} {v : UInt64}
    (hn : Names cfg s root call.capPtr call.capDepth call.target f)
    (h : call.run cfg regs s = .ok (.ok v) s') :
    ∃ t inv val w t₂, s.tcbs s.current = some t ∧ inv.rootCnode = root ∧
      Leads cfg s call.capPtr.toNat root call.capDepth.toNat inv.slot ∧ s.isSlot inv.slot = true ∧
      (entered (call.registers regs) s t).capAt inv.slot = some inv.cap ∧
      inv.cap.getCapType = .ok call.target ∧
      (call.target ≠ .untyped → inv.cap.getFrame = f) ∧
      call.perform cfg inv (entered (call.registers regs) s t) = .ok val w ∧
      s' = w.setTcb s.current t₂ ∧
      (Continues (entered (call.registers regs) s t) w → Continues s s') := by
  obtain ⟨a3, a4, a5, a6, hrun, hregs⟩ := exists_syscall cfg regs call
  rw [hrun] at h
  obtain ⟨t, inv, val, w, t₂, ht, hroot, hlead, hslot, hcap, hk, hframe, hinv, hs, hcont⟩ :=
    syscall_invoke hc hn h
  rw [← hregs] at hcap hinv hcont
  rw [invoke_registers] at hinv
  exact ⟨t, inv, val, w, t₂, ht, hroot, hlead, hslot, hcap, hk, hframe, hinv, hs, hcont⟩

end Outcome

/-! ## Calls that go through -/

section Through

variable {root c : CapabilityData} {p : Nat} (hc : Caller s root) {t : ThreadInfo}
  (ht : s.tcbs s.current = some t)

include hc ht

theorem findInvocation_of_finds {ptr : UInt64} {depth : UInt32}
    (hfind : Finds cfg s root ptr depth p c) (reg : Registers) :
    ∃ inv, findInvocation cfg ptr.toNat depth.toNat (entered reg s t) = .ok inv ∧
      inv.rootCnode = root ∧ inv.slot = p ∧ inv.cap = c := by
  obtain ⟨-, t', e, ht', he, hroot⟩ := hc
  obtain rfl := Option.some.inj (ht.symm.trans ht')
  have hlook := lookupLoop_continues (continues_entered reg ht) hfind.lookup hfind.cap
  obtain ⟨e', he', rfl⟩ := Option.map_eq_some_iff.1 hfind.cap
  refine ⟨⟨s.current, { t with registers := reg }, root, p, e'.cap⟩, ?_, rfl, rfl, rfl⟩
  simp only [findInvocation, Query.bind_ok, Query.read_ok, exists_eq_left', getTcb_ok]
  refine ⟨{ t with registers := reg }, (KState.tcbs_setTcb ..).trans (if_pos rfl), ?_⟩
  rw [he]
  simp only [Query.bind_ok, occupied_ok, Query.pure_ok]
  rw [Nat.mod_eq_of_lt depth.toNat_lt, hroot]
  exact ⟨p, hlook, e', ⟨hfind.slot, he'⟩, rfl⟩

variable (call : Call) (hfind : Finds cfg s root call.capPtr call.capDepth p c)
  (hk : c.getCapType = .ok call.target)

include hfind hk

/-- On a capability of the type it is meant for, the kernel does what the call asks for. -/
theorem Call.handleInvocation_of_finds (regs : Registers) :
    ∃ inv, inv.rootCnode = root ∧ inv.slot = p ∧ inv.cap = c ∧
      handleInvocation cfg call.invLabel (call.registers regs)
          (entered (call.registers regs) s t) =
        call.perform cfg inv (entered (call.registers regs) s t) := by
  obtain ⟨inv, hinv, hroot, hslot, hcap⟩ :=
    findInvocation_of_finds hc ht hfind (call.registers regs)
  refine ⟨inv, hroot, hslot, hcap, ?_⟩
  rw [Call.handleInvocation_registers, lift_bind_of_ok hinv,
    bind_of_ok (liftExcept_ok.2 ⟨hcap ▸ hk, rfl⟩), if_pos rfl]

/-- **A call that the kernel carries out** succeeds. -/
theorem Call.run_of_perform {regs : Registers} {sepc : Nat}
    (hsepc : cfg.profile.add regs.sepc.toNat 4 = some sepc) :
    ∃ inv, inv.rootCnode = root ∧ inv.slot = p ∧ inv.cap = c ∧ ∀ {val w},
      call.perform cfg inv (entered (call.registers regs) s t) = .ok val w →
      w.tcbs = (entered (call.registers regs) s t).tcbs →
      ∃ v t₂, call.run cfg regs s = .ok (.ok v) (w.setTcb s.current t₂) ∧
        t₂.rootCnode = t.rootCnode ∧ ∀ x, val = some x → v = UInt64.ofNat x := by
  obtain ⟨inv, hroot, hslot, hcap, hinv⟩ := Call.handleInvocation_of_finds hc ht call hfind hk regs
  refine ⟨inv, hroot, hslot, hcap, fun {val w} hperform hw => ?_⟩
  have hbase := hc.base
  let t₁ : ThreadInfo := { t with registers := call.registers regs }
  let t₂ : ThreadInfo :=
    { t₁ with registers := { t₁.registers.setResult (.ok val) with sepc := UInt64.ofNat sepc } }
  have ht₁ : w.tcbs s.current = some t₁ :=
    (congrFun hw _).trans ((KState.tcbs_setTcb ..).trans (if_pos rfl))
  have hsepc₁ : cfg.profile.add t₁.registers.sepc.toNat 4 = some sepc := by
    cases call <;> exact hsepc
  obtain ⟨v, hv, hval⟩ : ∃ v, sysCallRes t₂.registers = .ok v ∧
      ∀ x, val = some x → v = UInt64.ofNat x := by
    cases val with
    | some x => exact ⟨_, if_pos rfl, fun y hy => congrArg UInt64.ofNat (Option.some.inj hy)⟩
    | none => exact ⟨_, if_pos rfl, nofun⟩
  have hcatch : catchErr (dispatchSyscall cfg (call.registers regs))
      (entered (call.registers regs) s t) = .ok (.ok val) w := by
    rw [catchErr, Call.dispatchSyscall_registers, hinv, hperform]
  have hsys : handleSyscall cfg (entered (call.registers regs) s t) =
      .ok () (w.setTcb s.current t₂) := by
    refine bind_ok.2 ⟨_, _, get_ok.2 ⟨rfl, rfl⟩, bind_ok.2 ⟨t₁, _, lift_ok.2 ⟨getTcb_ok.2 ?_, rfl⟩,
      bind_ok.2 ⟨_, w, hcatch, returnSyscall_ok.2 ⟨t₁, sepc, ?_, hsepc₁, ?_⟩⟩⟩⟩
    · exact (KState.tcbs_setTcb ..).trans (if_pos hbase)
    · exact (congrArg w.tcbs hbase).trans ht₁
    · exact congrArg (KState.setTcb w · t₂) hbase.symm
  refine ⟨v, t₂, ?_, rfl, hval⟩
  rw [Call.run_eq]
  refine bind_ok.2 ⟨s, s, get_ok.2 ⟨rfl, rfl⟩, bind_ok.2 ⟨(), _, trapEntry_ok.2 ⟨t, ?_, ?_⟩,
    bind_ok.2 ⟨(), _, hsys, bind_ok.2 ⟨t₂, _, lift_ok.2 ⟨getTcb_ok.2 ?_, rfl⟩,
      pure_ok.2 ⟨hv, rfl⟩⟩⟩⟩⟩
  · rw [hbase, ht]
  · rw [hbase]
    rfl
  · exact (KState.tcbs_setTcb ..).trans (if_pos rfl)

end Through

/-! ## Mapping -/

theorem readPte_setTcb (p : Nat) (t : ThreadInfo) (a : Nat) :
    readPte cfg a (s.setTcb p t) = readPte cfg a s := by
  unfold readPte
  change (if (s.isFrame a || cfg.isStaticTable a) = true then (pure (s.mem a) : KR UInt64)
    else throw undefinedAccess) (s.setTcb p t) =
      (if (s.isFrame a || cfg.isStaticTable a) = true then
      (pure (s.mem a) : KR UInt64) else throw undefinedAccess) s
  split
  · rfl
  · rfl

/-- A walk reads memory only. -/
theorem walkFrom_setTcb (p : Nat) (t : ThreadInfo) (level table v : Nat) :
    PageTable.walkFrom cfg level table v (s.setTcb p t) =
      PageTable.walkFrom cfg level table v s := by
  induction level generalizing table with
  | zero => rfl
  | succ level ih =>
    rw [PageTable.walkFrom]
    cases hpte : readPte cfg (entry table (getVpn v (level + 1))) s with
    | error e => rw [Query.bind_of_error hpte, Query.bind_of_error ((readPte_setTcb ..).trans hpte)]
    | ok pte =>
      rw [Query.bind_of_ok hpte, Query.bind_of_ok ((readPte_setTcb ..).trans hpte)]
      split
      · exact ih _
      · rfl

theorem walk_entered (reg : Registers) (t : ThreadInfo) (root v : Nat) :
    PageTable.walk cfg root v (entered reg s t) = PageTable.walk cfg root v s :=
  walkFrom_setTcb ..

theorem capAt_setCap {p : Nat} {c : CapabilityData} (hp : s.capAt p = some c)
    (c' : CapabilityData) : (s.setCap p c').capAt p = some c' :=
  (KState.capAt_setCap hp p).trans (if_pos rfl)

section Mapping

variable {root : CapabilityData} {regs : Registers} {capPtr destPtr v vaddr : UInt64}
  {capDepth destDepth : UInt32} {f r : Nat} (hc : Caller s root)
  (hd : Names cfg s root destPtr destDepth .pageTable r)

include hc hd

/-- `map_page`: the page is at the entry that the walk ends at, which was free. -/
theorem mapPage_ok {flags : PageFlags} (hn : Names cfg s root capPtr capDepth .page f)
    (h : mapPage cfg regs capPtr capDepth destPtr destDepth vaddr flags.toUsize s =
      .ok (.ok v) s') :
    ∃ p c a, Leads cfg s capPtr.toNat root capDepth.toNat p ∧ s.capAt p = some c ∧
      c.getCapType = .ok .page ∧ c.getFrame = f ∧ vaddr.toNat % pageSize = 0 ∧
      PageTable.walk cfg r vaddr.toNat s = .ok (0, a) ∧
      s'.mem = (s.setWord a (Pte.write f (pageU ||| flags.entryBits ||| pageV))).mem ∧
      s'.objects = s.objects ∧ s'.capAt p = some (c.setMapped vaddr.toNat) ∧ Continues s s' := by
  have hrun : (Call.mapPage capPtr capDepth destPtr destDepth vaddr flags).run cfg regs s =
    .ok (.ok v) s' := h
  obtain ⟨t, inv, val, w, t₂, ht, rfl, hlead, hslot, hp, hk, hframe, hperform, rfl, hcont⟩ :=
    Call.run_perform hc hn hrun
  simp only [Call.perform, bind_ok, liftExcept_ok, require_ok, lift_ok, writeCap, modify_ok,
    pure_ok] at hperform
  obtain ⟨_, _, ⟨hal, rfl⟩, ⟨q, d⟩, _, ⟨hlookup, rfl⟩, c', w', hmap, _, _, rfl, -, rfl⟩ := hperform
  obtain ⟨-, rfl, a, hwalk, -, -, rfl⟩ := pageCapMap_ok hmap
  have hr : d.getFrame = r :=
    lookupCap_names (hd.continues (continues_entered _ ht)) (by decide) hlookup
  rw [hr, walk_entered] at hwalk
  have hf : inv.cap.getFrame = f := hframe (by simp [Call.target])
  refine ⟨inv.slot, inv.cap, a, hlead, hp, hk, hf, of_decide_eq_true hal, hwalk, ?_, rfl,
    capAt_setCap hp _, hcont (.map hp (.inl hk) _ _ _)⟩
  rw [← hf]
  rfl

/-- `unmap_page`: the entry for the address that the capability is marked with is cleared. -/
theorem unmapPage_ok (hn : Names cfg s root capPtr capDepth .page f)
    (h : unmapPage cfg regs capPtr capDepth destPtr destDepth s = .ok (.ok v) s') :
    ∃ p c a, Leads cfg s capPtr.toNat root capDepth.toNat p ∧ s.capAt p = some c ∧
      PageTable.walk cfg r c.getMappedAddress s = .ok (0, a) ∧
      s'.mem = (s.setWord a 0).mem ∧ s'.objects = s.objects ∧ Continues s s' := by
  have hrun : (Call.unmapPage capPtr capDepth destPtr destDepth).run cfg regs s =
    .ok (.ok v) s' := h
  obtain ⟨t, inv, val, w, t₂, ht, rfl, hlead, hslot, hp, hk, hframe, hperform, rfl, hcont⟩ :=
    Call.run_perform hc hn hrun
  simp only [Call.perform, bind_ok, lift_ok, writeCap, modify_ok, pure_ok] at hperform
  obtain ⟨⟨q, d⟩, _, ⟨hlookup, rfl⟩, c', w', hmap, _, _, rfl, -, rfl⟩ := hperform
  obtain ⟨-, rfl, a, hwalk, -, -, -, rfl⟩ := pageCapUnmap_ok hmap
  have hr : d.getFrame = r :=
    lookupCap_names (hd.continues (continues_entered _ ht)) (by decide) hlookup
  rw [hr, walk_entered] at hwalk
  exact ⟨inv.slot, inv.cap, a, hlead, hp, hwalk, rfl, rfl,
    hcont (.map hp (.inl hk) _ _ _)⟩

/-- `map_page_table`: the table is at the entry that the walk ends at, above the last level. -/
theorem mapPageTable_ok (hn : Names cfg s root capPtr capDepth .pageTable f)
    (h : mapPageTable cfg regs capPtr capDepth destPtr destDepth vaddr s = .ok (.ok v) s') :
    ∃ level a, level ≠ 0 ∧ PageTable.walk cfg r vaddr.toNat s = .ok (level, a) ∧
      s'.mem = (s.setWord a (Pte.write f pageV)).mem ∧ s'.objects = s.objects ∧
      Continues s s' := by
  have hrun : (Call.mapPageTable capPtr capDepth destPtr destDepth vaddr).run cfg regs s =
    .ok (.ok v) s' := h
  obtain ⟨t, inv, val, w, t₂, ht, rfl, hlead, hslot, hp, hk, hframe, hperform, rfl, hcont⟩ :=
    Call.run_perform hc hn hrun
  simp only [Call.perform, bind_ok, liftExcept_ok, require_ok, lift_ok, writeCap, modify_ok,
    pure_ok] at hperform
  obtain ⟨_, _, ⟨-, rfl⟩, ⟨q, d⟩, _, ⟨hlookup, rfl⟩, ⟨c', level'⟩, w', hmap, _, _, rfl, -, rfl⟩ :=
    hperform
  obtain ⟨-, rfl, level, a, hwalk, hl, -, -, rfl⟩ := pageTableCapMap_ok hmap
  have hr : d.getFrame = r :=
    lookupCap_names (hd.continues (continues_entered _ ht)) (by decide) hlookup
  rw [hr, walk_entered] at hwalk
  have hf : inv.cap.getFrame = f := hframe (by simp [Call.target])
  refine ⟨level, a, hl, hwalk, ?_, rfl,
    hcont (.map hp (.inr hk) _ _ _)⟩
  rw [← hf]
  rfl

omit hd in
/-- `make_page_table_root`: the table gets the entries of the kernel's root. -/
theorem makePageTableRoot_ok (hn : Names cfg s root capPtr capDepth .pageTable f)
    (h : makePageTableRoot cfg regs capPtr capDepth s = .ok (.ok v) s') :
    s'.mem = (s.madeRoot cfg f).mem ∧ s'.objects = s.objects ∧ Continues s s' := by
  obtain ⟨t, inv, val, w, t₂, ht, rfl, -, -, hp, hk, hframe, hinv, rfl, hcont⟩ :=
    syscall_invoke hc hn h
  let reg := callRegs regs capPtr capDepth .pageTableMakeRoot 0 0 0 0 .call
  change invokePageTable cfg .pageTableMakeRoot reg inv.rootCnode inv.slot inv.cap
    (entered reg s t) = _ at hinv
  obtain ⟨-, ⟨hlabel, -⟩ | ⟨-, -, rfl⟩⟩ := invokePageTable_ok hinv
  · cases hlabel
  · rw [hframe (by decide)] at hcont ⊢
    refine ⟨rfl, rfl, hcont ?_⟩
    have hroot : Continues (entered reg s t) ((entered reg s t).madeRoot cfg f) := .memory ..
    exact hroot.trans (.setCap (s := (entered reg s t).madeRoot cfg f) hp
      (.inr ⟨.pageTable, by decide, hk, hk, fun _ => rfl⟩))

end Mapping

/-! ## Slots of the client's CNode -/

/-- The client's CNode is there, and the paths of its slots have at most 64 bits. -/
structure Ready (cfg : Config) (s : KState) (root : CapabilityData) (cnode : CNodeCapability)
    (c : CapabilityData) : Prop where
  path : CNodePath cfg s cnode.capPtr.toNat root cnode.capDepth.toNat c
  radix : cnode.capData.radix.toNat = c.radix
  depth : cnode.capDepth.toNat + cnode.capData.radix.toNat ≤ 64
  live : SlotsLive s c
  radix_ne : c.radix ≠ 0
  root_ne : root.radix ≠ 0

/-- The address of slot number `i` of the CNode. -/
def slotAddr (c : CapabilityData) (i : Nat) : Nat :=
  toKernelV c.getAddress + CapabilityType.entrySize * i

namespace Ready

variable {root c : CapabilityData} {cnode : CNodeCapability} {p : Profile}

theorem continues (h : Ready cfg s root cnode c) (hs : Continues s s') :
    Ready cfg s' root cnode c :=
  { h with
    path := cnodePath_continues hs h.path
    live := ⟨h.live.1, fun i hi => hs.isSlot (h.live.2 i hi)⟩ }

theorem advance (h : Ready cfg s root cnode c) : Ready cfg s root cnode.advance c := { h with }

theorem radix_lt (h : Ready cfg s root cnode c) : cnode.capData.radix.toNat < 64 := by
  have := h.radix_ne
  have := h.depth
  by_contra hge
  have hpow : 2 ^ 64 ≤ 2 ^ c.radix := Nat.pow_le_pow_right (by decide) (h.radix ▸ not_lt.1 hge)
  have hfit := h.live.1
  rw [CapabilityType.entrySize] at hfit
  omega

/-- The slot that the cursor is on is one of the CNode's. -/
theorem getSlot_ok {slot : CSlot} {cnode' : CNodeCapability} (h : Ready cfg s root cnode c)
    (hget : cnode.getSlot p = some (.ok slot, cnode')) :
    slot = slotOf cnode ∧ cnode' = cnode.advance ∧ slot.index.toNat < 2 ^ c.radix := by
  have hsize : cnode.getSize p = some (2 ^ cnode.capData.radix.toNat) :=
    p.wrap_of_lt (Nat.pow_lt_pow_right (by decide) h.radix_lt)
  rw [CNodeCapability.getSlot, hsize, Option.bind_eq_bind, Option.bind_some] at hget
  split at hget
  · cases hget
  · next hlt =>
    obtain ⟨hslot, rfl⟩ := Prod.mk.inj (Option.some.inj hget)
    obtain rfl := Except.ok.inj hslot
    exact ⟨rfl, rfl, h.radix ▸ index_lt (not_le.1 hlt)⟩

theorem takeSlot_ok {slot : CSlot} {cnode' : CNodeCapability} (h : Ready cfg s root cnode c)
    (ht : cnode.takeSlot p s = .ok (.ok (slot, cnode')) s') :
    s' = s ∧ slot = slotOf cnode ∧ cnode' = cnode.advance ∧
      slot.index.toNat < 2 ^ c.radix := by
  simp only [CNodeCapability.takeSlot, Fallible.bind_ok, Fallible.lift_ok, liftExcept_ok,
    arith_ok] at ht
  obtain ⟨⟨r, cnode₁⟩, _, ⟨hget, rfl⟩, ht⟩ := ht
  cases r with
  | error e => exact (Fallible.throw_ok.1 ht).elim
  | ok slot₁ =>
    obtain ⟨heq, rfl⟩ := Fallible.pure_ok.1 ht
    obtain ⟨rfl, rfl⟩ := Prod.mk.inj heq
    exact ⟨rfl, h.getSlot_ok hget⟩

theorem names (h : Ready cfg s root cnode c) :
    Names cfg s root cnode.capPtr cnode.capDepth .cNode c.getFrame := by
  obtain ⟨q, hslot, hq, hk, hres⟩ := h.path.resolves (fun _ h => h) fun _ _ _ h => h
  exact ⟨q, c, hres.leads, hslot, hq, hk, fun _ => rfl⟩

/-- The kernel finds the CNode at the client's path. -/
theorem lookupCap_eq {q : Nat} {d : CapabilityData} (h : Ready cfg s root cnode c)
    (hl : lookupCap cfg root cnode.capPtr.toNat cnode.capDepth.toNat .cNode s = .ok (q, d)) :
    d = c := by
  obtain ⟨q', -, hq', -, hres⟩ := h.path.resolves (fun _ h => h) fun _ _ _ h => h
  have hd := (lookupCap_ok hl).2.1
  simp only [lookupCap, Query.bind_ok, Query.lift_ok, occupied_ok, Query.pure_ok,
    Prod.mk.injEq] at hl
  obtain ⟨_, hlook, _, -, _, -, rfl, -⟩ := hl
  obtain rfl := hres.leads.unique (leads_of_lookupLoop hlook)
  exact Option.some.inj (hd.symm.trans hq')

/-- The path of a slot is that of the CNode with the number of the slot appended. -/
theorem getCapPtr_ok {slot : CSlot} {ptr : UInt64} {depth : UInt32} (h : Ready cfg s root cnode c)
    (hslot : slot.pptr = cnode.capPtr ∧ slot.depth = cnode.capDepth ∧
      slot.radix = cnode.capData.radix) (hi : slot.index.toNat < 2 ^ c.radix)
    (hget : slot.getCapPtr p = some (ptr, depth)) :
    ptr.toNat = (cnode.capPtr.toNat <<< c.radix) % 2 ^ 64 + slot.index.toNat ∧
      depth.toNat = cnode.capDepth.toNat + c.radix := by
  obtain ⟨hptr, hdepth, hradix⟩ := hslot
  have hr : slot.radix.toNat = c.radix := hradix ▸ h.radix
  obtain ⟨ptr', depth', hget', hptr', hdepth'⟩ := getCapPtr_eq p slot (hradix ▸ h.radix_lt)
    (hdepth ▸ hradix ▸ h.depth) (hr ▸ hi)
  obtain ⟨rfl, rfl⟩ := Prod.mk.inj (Option.some.inj (hget.symm.trans hget'))
  rw [hptr', hdepth', hptr, hdepth, hr]
  exact ⟨rfl, rfl⟩

/-- The path of a slot leads to the slot. -/
theorem leads {slot : CSlot} {ptr : UInt64} {depth : UInt32} (h : Ready cfg s root cnode c)
    (hslot : slot.pptr = cnode.capPtr ∧ slot.depth = cnode.capDepth ∧
      slot.radix = cnode.capData.radix) (hi : slot.index.toNat < 2 ^ c.radix)
    (hget : slot.getCapPtr p = some (ptr, depth)) :
    Leads cfg s ptr.toNat root depth.toNat (slotAddr c slot.index.toNat) := by
  obtain ⟨hptr, hdepth⟩ := h.getCapPtr_ok hslot hi hget
  rw [hptr, hdepth]
  exact (h.path.append h.radix_ne h.live hi (h.radix ▸ h.depth) (.inl h.root_ne)).leads

/-- With one iteration to spare for the CNode, the kernel finds the slot. -/
theorem lookupEntryMut_eq {slot : CSlot} {ptr : UInt64} {depth : UInt32} {q : Nat}
    (h : Ready cfg s root cnode c)
    (hspare : lookupLoop cfg (cfg.loopBound - 1) root cnode.capPtr.toNat cnode.capDepth.toNat s =
      .ok q)
    (hslot : slot.pptr = cnode.capPtr ∧ slot.depth = cnode.capDepth ∧
      slot.radix = cnode.capData.radix) (hi : slot.index.toNat < 2 ^ c.radix)
    (hget : slot.getCapPtr p = some (ptr, depth)) :
    root.lookupEntryMut cfg ptr.toNat depth.toNat s = .ok (slotAddr c slot.index.toNat) := by
  obtain ⟨hptr, hdepth⟩ := h.getCapPtr_ok hslot hi hget
  have hbound : cfg.loopBound - 1 + 1 = cfg.loopBound := Nat.sub_add_cancel <| by
    by_contra hzero
    rw [show cfg.loopBound - 1 = 0 by omega] at hspare
    cases hspare
  rw [hptr, hdepth, lookupEntryMut, ← hbound]
  exact h.path.lookupLoop_append h.radix_ne h.live hi (h.radix ▸ h.depth) (.inl h.root_ne) hspare

end Ready

/-! ## New objects and copies -/

/-- What a request for a frame has brought: the object `o`, with its capability in the slot `q`. A
table is empty, and the capability is not marked as mapped. -/
structure Granted (cfg : Config) (s s' : KState) (q : Nat) (o : Object) : Prop where
  creates : Creates cfg s s' o
  continues : Continues s s'
  empty : s.capAt q = none
  slot : s'.isSlot q = true
  cap : ∃ d, s'.capAt q = some d ∧ d.FreshFor o ∧ d.capDepVal = 0
  zero : o.kind = .pageTable → ∀ i < 512, s'.mem (entry o.addr i) = 0
  others : ∀ p c, s.isSlot p = true → s.capAt p = some c → c.getCapType ≠ .ok .untyped →
    s'.capAt p = some c

theorem Granted.names {q : Nat} {o : Object} {root : CapabilityData} {ptr : UInt64} {depth : UInt32}
    (h : Granted cfg s s' q o) (hlead : Leads cfg s' ptr.toNat root depth.toNat q) :
    Names cfg s' root ptr depth o.kind o.addr := by
  obtain ⟨d, hd, hfor, -⟩ := h.cap
  exact ⟨q, d, hlead, h.slot, hd, hfor.capType, fun _ => hfor.getFrame h.creates.fresh.admissible⟩

/-- What a request for one frame does to the caller. -/
theorem granted_of_put {slot q : Nat} {src c' cap : CapabilityData} {o : Object}
    (hwf : HeapWF cfg s) (hsrc : s.capAt slot = some src) (hk₁ : src.getCapType = .ok .untyped)
    (hk₂ : c'.getCapType = .ok .untyped) (hk : o.kind = .page ∨ o.kind = .pageTable)
    (hfresh : o.Fresh cfg s) (hslot : s.isSlot q = true) (hq : s.capAt q = none)
    (hfor : cap.FreshFor o) (hword : cap.capDepVal = 0)
    (hput : PutCap cfg q cap ((s.setCap slot c').born o) s') : Granted cfg s s' q o := by
  have hset : Continues s (s.setCap slot c') := .setCap hsrc (.inr ⟨.untyped, by decide, hk₁, hk₂,
    fun hne => absurd rfl hne⟩)
  have hfresh' : o.Fresh cfg (s.setCap slot c') := ⟨hfresh.admissible, hfresh.apart, hfresh.size⟩
  have hborn : Continues (s.setCap slot c') ((s.setCap slot c').born o) :=
    .born _ (by rcases hk with hk | hk <;> rw [hk] <;> decide)
  have hwf' := (hset.heapWF rfl hwf).born hfresh'
  have hempty : ((s.setCap slot c').born o).capAt q = none := by
    rw [capAt_born, KState.setCap, KState.capAt_setSlot, if_neg, hq]
    rintro rfl
    cases hq.symm.trans hsrc
  have hgo := (hset.trans hborn).trans (.putCap hwf' hempty hput)
  have hcaps := hput.2
  obtain ⟨slots, rfl⟩ := hput.1
  refine ⟨⟨hfresh, hk, objects_born .., fun p t ht => ?_, fun a => ?_⟩, hgo, hq, hgo.isSlot hslot,
    ⟨cap, ?_, hfor, hword⟩, fun hk' i hi => ?_, fun p d hp hd hne => ?_⟩
  · obtain ⟨t', ht', -⟩ := hgo.tcbs p t ht
    exact ⟨t', ht'⟩
  · rcases hk with hk | hk
    · exact .inl (congrFun (mem_born (s.setCap slot c') (by rw [hk]; decide)) a)
    · have hmem := congrFun (mem_born_table hfresh' hk) a
      dsimp only at hmem ⊢
      rw [hmem]
      split
      · next hin => exact .inr ⟨rfl, hin⟩
      · exact .inl rfl
  · exact (hcaps q (hwf.not_isLocal hslot)).trans (if_pos rfl)
  · have hmem := congrFun (mem_born_table hfresh' hk') (entry o.addr i)
    refine hmem.trans (if_pos ?_)
    rw [entry, pageSize]
    omega
  · rw [hcaps p (hwf.not_isLocal hp), if_neg, capAt_born, KState.setCap, KState.capAt_setSlot,
      if_neg, hd]
    · rintro rfl
      obtain rfl := Option.some.inj (hd.symm.trans hsrc)
      exact hne hk₁
    · rintro rfl
      cases hq.symm.trans hd

theorem derive_page {c c' : CapabilityData} (hk : c.getCapType = .ok .page)
    (h : c.derive = .ok c') : c' = c.setCapDepVal 0 := by
  unfold CapabilityData.derive at h
  obtain ⟨k, hk', h⟩ := except_bind_ok.1 h
  obtain rfl : CapabilityType.page = k := Except.ok.inj (hk.symm.trans hk')
  obtain ⟨_, -, h⟩ := except_bind_ok.1 h
  exact (Except.ok.inj h).symm

/-- The system call of `copy`. -/
theorem takeCopy_call {cnode cnode' : CNodeCapability} {p : Profile} {regs : Registers}
    {cap new : PageCapability} (h : cnode.takeCopy cfg p regs cap s = .ok (.ok (new, cnode')) s') :
    ∃ slot v, cnode.getSlot p = some (.ok slot, cnode') ∧
      slot.getCapPtr p = some (new.capPtr, new.capDepth) ∧
      (Call.cnodeCopy cnode'.capPtr cnode'.capDepth slot.index.toUInt64 slot.radix cap.capPtr
        cap.capDepth).run cfg regs s = .ok (.ok v) s' := by
  simp only [CNodeCapability.takeCopy, Fallible.bind_ok, Fallible.lift_ok, CNodeCapability.copy,
    bind_ok, liftExcept_ok, arith_ok] at h
  obtain ⟨⟨r, cnode₁⟩, s₁, ⟨⟨slot, cnode₂⟩, _, ⟨hget, rfl⟩, hcopy⟩, h⟩ := h
  cases r with
  | error e => exact (Fallible.throw_ok.1 h).elim
  | ok new₁ =>
    obtain ⟨heq, rfl⟩ := Fallible.pure_ok.1 h
    obtain ⟨rfl, rfl⟩ := Prod.mk.inj heq
    cases slot with
    | error e => cases (pure_ok.1 hcopy).1
    | ok slot =>
      simp only [bind_ok, liftExcept_ok, arith_ok, pure_ok, Prod.mk.injEq] at hcopy
      obtain ⟨⟨ptr, depth⟩, _, ⟨hptr, rfl⟩, res, _, hsys, ⟨hres, rfl⟩, rfl⟩ := hcopy
      cases res with
      | error e => cases hres
      | ok v =>
        obtain rfl := Except.ok.inj hres
        exact ⟨slot, v, hget, hptr, hsys⟩

section Slots

variable {root c : CapabilityData} {cnode : CNodeCapability} {p : Profile} {regs : Registers}
  (hc : Caller s root) (hwf : HeapWF cfg s) (hready : Ready cfg s root cnode c)

include hc hwf hready

/-- `retype_single` of a frame: the object is new, and its capability is in the slot. -/
theorem retypeSingle_ok {K : Type} [KernelObject K]
    (hk : KernelObject.capType K = .page ∨ KernelObject.capType K = .pageTable)
    {ut : UntypedCapability} {userSize : UInt64} {new : Capability K} {slot : CSlot}
    (hut : Names cfg s root ut.capPtr ut.capDepth .untyped 0)
    (hslot : slot.pptr = cnode.capPtr ∧ slot.depth = cnode.capDepth ∧
      slot.radix = cnode.capData.radix) (hi : slot.index.toNat < 2 ^ c.radix)
    (h : ut.retypeSingle cfg p regs K slot userSize s = .ok (.ok new) s') :
    slot.getCapPtr p = some (new.capPtr, new.capDepth) ∧
      ∃ o, o.kind = KernelObject.capType K ∧ Granted cfg s s' (slotAddr c slot.index.toNat) o := by
  simp only [UntypedCapability.retypeSingle, Fallible.bind_ok, Fallible.lift_ok, liftExcept_ok,
    arith_ok, Fallible.pure_ok] at h
  obtain ⟨v, s₁, hcall, ⟨ptr, depth⟩, _, ⟨hget, rfl⟩, rfl, rfl⟩ := h
  obtain ⟨hptr, hdepth, -⟩ := hslot
  rw [hptr, hdepth] at hcall
  have hrun : (Call.untypedRetype ut.capPtr ut.capDepth cnode.capPtr cnode.capDepth slot.index
      userSize.toUInt32 1 (KernelObject.capType K)).run cfg regs s = .ok (.ok v) s₁ := hcall
  obtain ⟨t, inv, val, w, t₂, ht, rfl, -, -, -, -, -, hperform, rfl, hcont⟩ :=
    Call.run_perform hc hut hrun
  have hent := continues_entered (Call.registers regs (.untypedRetype ut.capPtr ut.capDepth
    cnode.capPtr cnode.capDepth slot.index userSize.toUInt32 1 (KernelObject.capType K))) ht
  simp only [Call.perform, bind_ok, lift_ok, pure_ok] at hperform
  obtain ⟨⟨q, d⟩, _, ⟨hlookup, rfl⟩, window, _, ⟨hwindow, rfl⟩, _, w', hins, -, rfl⟩ := hperform
  obtain rfl := (hready.continues hent).lookupCap_eq hlookup
  obtain ⟨hslot, hnone⟩ := getWritable_ok hwindow 0 (by decide)
  rw [Nat.mul_zero, Nat.add_zero, getWritable_eq hwindow] at hslot hnone
  rw [getWritable_eq hwindow] at hins
  obtain ⟨src, c', o, cap, hsrc, hk₁, hk₂, hkind, hfresh, hfor, hword, hput⟩ :=
    retypeAndInsert_one hk userSize.toUInt32.toNat_lt hins
  have hgrant := granted_of_put (hent.heapWF rfl hwf) hsrc hk₁ hk₂ (hkind ▸ hk) hfresh hslot
    (congrArg (Option.map _) hnone) hfor hword hput
  have hs' := hcont hgrant.continues
  refine ⟨hget, o, hkind, ⟨⟨?_, hkind ▸ hk, hgrant.creates.objects, fun p t ht => ?_,
    hgrant.creates.mem⟩, hs', hgrant.empty, hs'.isSlot hslot, ?_, hgrant.zero, hgrant.others⟩⟩
  · exact ⟨hfresh.admissible, hfresh.apart, hfresh.size⟩
  · obtain ⟨t', ht', -⟩ := hs'.tcbs p t ht
    exact ⟨t', ht'⟩
  · exact hgrant.cap

/-- `copy` of a page: the copy is in the slot that the client thinks, and it is not marked as
mapped. -/
theorem takeCopy_ok {f : Nat} {cap new : PageCapability} {cnode' : CNodeCapability}
    (hn : Names cfg s root cap.capPtr cap.capDepth .page f)
    (h : cnode.takeCopy cfg p regs cap s = .ok (.ok (new, cnode')) s') :
    cnode' = cnode.advance ∧ s'.mem = s.mem ∧ s'.objects = s.objects ∧ Continues s s' ∧
      ∃ q d, Leads cfg s' new.capPtr.toNat root new.capDepth.toNat q ∧ s'.isSlot q = true ∧
        s'.capAt q = some d ∧ d.getCapType = .ok .page ∧ d.getFrame = f ∧ d.capDepVal = 0 := by
  obtain ⟨slot, v, hget, hptr, hcall⟩ := takeCopy_call h
  obtain ⟨rfl, rfl, hi⟩ := hready.getSlot_ok hget
  obtain ⟨t, inv, val, w, t₂, ht, rfl, hlead, -, hcap, -, -, hperform, rfl, hcont⟩ :=
    Call.run_perform hc hready.names hcall
  have hent := continues_entered (Call.registers regs (.cnodeCopy cnode.advance.capPtr
    cnode.advance.capDepth (slotOf cnode).index.toUInt64 (slotOf cnode).radix cap.capPtr
    cap.capDepth)) ht
  have hwf' := hent.heapWF rfl hwf
  have hready' := hready.continues hent
  -- the CNode that is invoked, the page in the source slot, and the slot for the copy
  obtain ⟨q, -, hq, -, hres⟩ := hready'.path.resolves (fun _ h => h) fun _ _ _ h => h
  obtain rfl : q = inv.slot := hres.leads.unique (leads_continues hent hlead hcap)
  obtain rfl : c = inv.cap := Option.some.inj (hq.symm.trans hcap)
  simp only [Call.perform, Call.transfer, bind_ok, lift_ok, liftExcept_ok, pure_ok, occupied_ok,
    readSlot_ok, require_ok, Option.isNone_iff_eq_none] at hperform
  obtain ⟨src, _, ⟨hsrc, rfl⟩, e, _, ⟨⟨hslot, he⟩, rfl⟩, dest, _, ⟨hdest, rfl⟩, _, _,
    ⟨⟨hslot', rfl⟩, rfl⟩, _, _, ⟨hnone, rfl⟩, rawCap, _, ⟨hd, rfl⟩, _, w', hinstall, -, rfl⟩ :=
      hperform
  obtain ⟨p', d, hlead', -, hp', hk, hframe⟩ := hn.continues hent
  obtain rfl : p' = src := hlead'.unique (leads_of_lookupLoop hsrc)
  obtain rfl : d = e.cap := Option.some.inj (hp'.symm.trans (congrArg (Option.map _) he))
  obtain rfl := derive_page hk hd
  obtain rfl : dest = slotAddr inv.cap (slotOf cnode).index.toNat := by
    have hleadd := leads_of_lookupLoop hdest
    rw [UInt32.toNat_toUInt64, show (slotOf cnode).radix.toNat = inv.cap.radix from hready.radix]
      at hleadd
    exact leads_index hready'.live hi hleadd
  obtain ⟨hslots, hcaps⟩ := installEntry_capAt (ne_localAddr (hwf'.not_isLocal hslot) _) hinstall
  have hput : PutCap cfg _ _ _ _ := ⟨hslots, fun r hr => (hcaps r (ne_localAddr hr _)).trans
    (by rw [if_neg (fun h => nomatch h.1) (c := InvLabel.cNodeCopy = .cNodeMove ∧ _)])⟩
  have hs' := hcont (.putCap hwf' (congrArg (Option.map _) hnone) hput)
  have hlead₂ := (hready.continues hs').leads ⟨rfl, rfl, rfl⟩ hi hptr
  refine ⟨rfl, ?_, ?_, hs', slotAddr inv.cap (slotOf cnode).index.toNat, e.cap.setCapDepVal 0,
    hlead₂, hs'.isSlot hslot', ?_, hk, hframe (by decide), rfl⟩
  · obtain ⟨slots, rfl⟩ := hslots
    rfl
  · obtain ⟨slots, rfl⟩ := hslots
    rfl
  · exact (hput.2 _ (hwf'.not_isLocal hslot')).trans (if_pos rfl)

end Slots

end Zoeax.Client
