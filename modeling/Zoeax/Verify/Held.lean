import Zoeax.Verify.Guards
import Zoeax.Verify.Slots

/-!
# What threads hold

A thread control block has slots for a root CNode, an address space and an IPC buffer.
`TcbConfigure` and `TcbSetIpcBuffer` fill them with capabilities derived from those that the caller
names (`invokeTcb_cases`), and nothing empties or changes them.

`held_of_run`: in every run that meets `GuardedFits`, what is in such a slot has the type of the
slot and stands for a live object. The proof uses none of the conditions. They are needed for the
model to follow the code: a run of the model ends where a call leaves the live objects, and the code
goes on, and may write over a thread control block then.
-/

namespace Zoeax

open Lib Exec

variable {cfg : Config} {s s' : KState}

/-! ## Invocations on threads -/

/-- `s'` is `s` with the capability `c` in a slot of the thread at `p` that was empty, and other
links and local variables. -/
structure HoldCap (cfg : Config) (p : Nat) (slot : TcbSlot) (c : CapabilityData) (s s' : KState) :
    Prop where
  written : ∃ t e slots, s.tcbs p = some t ∧ slot.get t = none ∧ e.cap = c ∧
    s' = { s with slots := slots }.setTcb p (slot.set t (some e))
  caps : ∀ q, cfg.isLocal q = false → s'.capAt q = s.capAt q

theorem setTcbSlot_holdCap {slot : TcbSlot} {thread parent : Nat} {cap : CapabilityData} {u : Unit}
    (h : setTcbSlot cfg slot thread cap parent s = .ok u s') :
    HoldCap cfg thread slot cap s s' := by
  simp only [setTcbSlot, holdEntry, holdLocal, newLocal, bind_ok, lift_ok, liftExcept_ok, modify_ok,
    pure_ok, getTcb_ok, require_ok, Option.isNone_iff_eq_none] at h
  obtain ⟨t, _, ⟨ht, rfl⟩, _, _, ⟨hnone, rfl⟩, _, _, ⟨_, _, rfl, rfl, rfl⟩, _, s₂, hins, t', _,
    ⟨ht', rfl⟩, rfl⟩ := h
  obtain ⟨⟨slots, rfl⟩, hcap⟩ :=
    (keeps_insertAfter (I := SameCaps _) (fun _ p f hv => hv.relink p f) _ _).ok .rfl hins
  obtain rfl : t = t' := Option.some.inj (ht.symm.trans ht')
  have hlocal := hcap (cfg.localAddr slot.site)
  rw [KState.capAt_setSlot, if_pos rfl] at hlocal
  obtain ⟨e, he, hc⟩ := Option.map_eq_some_iff.1 hlocal
  refine ⟨⟨t, e, slots, ht, hnone, hc, ?_⟩, fun q hq => ?_⟩
  · rw [← he]
    rfl
  · refine (hcap q).trans ?_
    rw [KState.capAt_setSlot, if_neg (ne_localAddr hq _)]

theorem setSlot_holdCap {slot : TcbSlot} {c d : CapabilityData} {src : Nat} {u : Unit}
    (hsrc : s.capAt src = some d) (h : TCBCap.setSlot cfg slot c src s = .ok u s') :
    ∃ cap, d.derive = .ok cap ∧ HoldCap cfg (TCBCap.getTcb c) slot cap s s' := by
  simp only [TCBCap.setSlot, bind_ok, lift_ok, liftExcept_ok, deref_ok] at h
  obtain ⟨e, _, ⟨he, rfl⟩, cap, _, ⟨hd, rfl⟩, h⟩ := h
  obtain rfl : e.cap = d := Option.some.inj ((congrArg (Option.map _) he).symm.trans hsrc)
  exact ⟨cap, hd, setTcbSlot_holdCap h⟩

/-- `TcbConfigure` fills two slots of the thread. -/
theorem configure_ok {tcbCap : CapabilityData} {p q : Nat} {u : Unit} (hwf : HeapWF cfg s)
    (h : configure cfg tcbCap p q s = .ok u s') :
    ∃ c d c' d' s₁, s.isSlot p = true ∧ s.capAt p = some c ∧ c.getCapType = .ok .cNode ∧
      c.derive = .ok c' ∧ s.isSlot q = true ∧ s.capAt q = some d ∧ d.getCapType = .ok .pageTable ∧
      d.derive = .ok d' ∧ HoldCap cfg (TCBCap.getTcb tcbCap) .rootCnode c' s s₁ ∧
      HoldCap cfg (TCBCap.getTcb tcbCap) .vspace d' s₁ s' := by
  simp only [configure, bind_ok, lift_ok, liftExcept_ok, occupied_ok,
    CapabilityData.tryRefAs_ok] at h
  obtain ⟨e, _, ⟨⟨hp, he⟩, rfl⟩, _, _, ⟨hk, rfl⟩, e', _, ⟨⟨hq, he'⟩, rfl⟩, _, _, ⟨hk', rfl⟩, _, s₁,
    hcspace, hvspace⟩ := h
  have hc : s.capAt p = some e.cap := congrArg (Option.map _) he
  have hc' : s.capAt q = some e'.cap := congrArg (Option.map _) he'
  obtain ⟨c', hd, hhold⟩ := setSlot_holdCap hc hcspace
  obtain ⟨d', hd', hhold'⟩ :=
    setSlot_holdCap ((hhold.caps q (hwf.not_isLocal hq)).trans hc') hvspace
  exact ⟨e.cap, e'.cap, c', d', s₁, hp, hc, hk, hd, hq, hc', hk', hd', hhold, hhold'⟩

/-- **An invocation on a thread** fills two of its slots or one, writes its registers, or makes it
runnable. -/
theorem invokeTcb_cases {invLabel : InvLabel} {reg : Registers} {ipcBuffer : Option Nat}
    {rootCnode tcbCap : CapabilityData} {v : Option Nat} (hwf : HeapWF cfg s)
    (h : invokeTcb cfg invLabel reg ipcBuffer rootCnode tcbCap s = .ok v s') :
    (invLabel = .tcbConfigure ∧ ∃ p q c d c' d' s₁,
      rootCnode.lookupTwoEntriesMut cfg reg.a3.toNat (reg.a4.toNat % 2 ^ 32) reg.a5.toNat
        (reg.a6.toNat % 2 ^ 32) s = .ok (p, q) ∧
      s.isSlot p = true ∧ s.capAt p = some c ∧ c.getCapType = .ok .cNode ∧ c.derive = .ok c' ∧
      s.isSlot q = true ∧ s.capAt q = some d ∧ d.getCapType = .ok .pageTable ∧ d.derive = .ok d' ∧
      HoldCap cfg (TCBCap.getTcb tcbCap) .rootCnode c' s s₁ ∧
      HoldCap cfg (TCBCap.getTcb tcbCap) .vspace d' s₁ s') ∨
    (invLabel = .tcbWriteReg ∧ ∃ b regs t, ipcBuffer = some b ∧ readRegisters cfg b s = .ok regs ∧
      s.tcbs (TCBCap.getTcb tcbCap) = some t ∧
      s' = s.setTcb (TCBCap.getTcb tcbCap) { t with registers := regs }) ∨
    (invLabel = .tcbSetIpcBuffer ∧ ∃ p c c',
      lookupCap cfg rootCnode reg.a3.toNat (reg.a4.toNat % 2 ^ 32) .page s = .ok (p, c) ∧
      c.derive = .ok c' ∧ HoldCap cfg (TCBCap.getTcb tcbCap) .ipcBuffer c' s s') ∨
    (invLabel = .tcbResume ∧ resume (TCBCap.getTcb tcbCap) s = .ok () s') := by
  unfold invokeTcb at h
  split at h
  · simp only [bind_ok, lift_ok, pure_ok] at h
    obtain ⟨⟨p, q⟩, _, ⟨hlook, rfl⟩, _, _, hconf, rfl, rfl⟩ := h
    obtain ⟨c, d, c', d', s₁, hconf⟩ := configure_ok hwf hconf
    exact .inl ⟨rfl, p, q, c, d, c', d', s₁, hlook, hconf⟩
  · split at h
    · exact (throw_ok.1 h).elim
    · simp only [TCBCap.setRegisters, bind_ok, lift_ok, pure_ok, updateTcb_ok] at h
      obtain ⟨regs, _, ⟨hread, rfl⟩, _, _, ⟨t, ht, rfl⟩, rfl, rfl⟩ := h
      exact .inr (.inl ⟨rfl, _, regs, t, rfl, hread, ht, rfl⟩)
  · simp only [TCBCap.setIpcBuffer, bind_ok, lift_ok, pure_ok] at h
    obtain ⟨⟨p, c⟩, _, ⟨hlook, rfl⟩, _, _, hset, rfl, rfl⟩ := h
    obtain ⟨c', hd, hhold⟩ := setSlot_holdCap (lookupCap_ok hlook).2.1 hset
    exact .inr (.inr (.inl ⟨rfl, p, c, c', hlook, hd, hhold⟩))
  · simp only [TCBCap.makeRunnable, bind_ok, pure_ok] at h
    obtain ⟨_, _, hres, rfl, rfl⟩ := h
    exact .inr (.inr (.inr ⟨rfl, hres⟩))
  · exact (throw_ok.1 h).elim

/-! ## The invariant -/

/-- What a thread holds has the type of the slot that it is in, and the idle thread holds
nothing. -/
def TypedSlots (cfg : Config) (s : KState) : Prop :=
  ∀ p t slot e, s.tcbs p = some t → TcbSlot.get slot t = some e →
    e.cap.getCapType = .ok slot.capType ∧ p ≠ cfg.idleThread

theorem derive_getCapType {c c' : CapabilityData} (h : c.derive = .ok c') :
    c'.getCapType = c.getCapType := by
  obtain ⟨v, rfl⟩ := derive_eq h
  rfl

theorem derive_ne_untyped {c c' : CapabilityData} (h : c.derive = .ok c') :
    c.getCapType ≠ .ok .untyped := by
  intro hk
  simp only [CapabilityData.derive, hk] at h
  cases h

namespace TypedSlots

theorem of_tcbs (hs : TypedSlots cfg s) (h : s'.tcbs = s.tcbs) : TypedSlots cfg s' := by
  intro p t slot e ht
  rw [h] at ht
  exact hs p t slot e ht

/-- The slots of a thread stay, or get something of their type. -/
theorem setTcb (hs : TypedSlots cfg s) {p : Nat} {t t' : ThreadInfo} (ht : s.tcbs p = some t)
    (h : ∀ (slot : TcbSlot) e, slot.get t' = some e →
      slot.get t = some e ∨ e.cap.getCapType = .ok slot.capType ∧ p ≠ cfg.idleThread) :
    TypedSlots cfg (s.setTcb p t') := by
  intro q u slot e hq he
  rw [KState.tcbs_setTcb] at hq
  split at hq
  · next hqp =>
    obtain rfl := Option.some.inj hq
    subst hqp
    rcases h slot e he with hold | hnew
    · exact hs q t slot e ht hold
    · exact hnew
  · exact hs q u slot e hq he

theorem hold (hs : TypedSlots cfg s) {p : Nat} {slot : TcbSlot} {c : CapabilityData}
    (h : HoldCap cfg p slot c s s') (hk : c.getCapType = .ok slot.capType)
    (hne : p ≠ cfg.idleThread) : TypedSlots cfg s' := by
  obtain ⟨t, e, slots, ht, -, rfl, rfl⟩ := h.written
  have hs₁ : TypedSlots cfg { s with slots := slots } := hs.of_tcbs rfl
  refine hs₁.setTcb ht fun slot' e' he' => ?_
  rw [TcbSlot.get_set] at he'
  split at he'
  · next heq =>
    obtain rfl := Option.some.inj he'
    exact .inr ⟨heq ▸ hk, hne⟩
  · exact .inl he'

theorem born (hs : TypedSlots cfg s) (o : Object) : TypedSlots cfg (s.born o) := by
  intro p t slot e ht he
  rw [tcbs_born] at ht
  split at ht
  · obtain rfl := Option.some.inj ht
    cases slot <;> cases he
  · exact hs p t slot e ht he

theorem renewed (hs : TypedSlots cfg s) (o : Object) : TypedSlots cfg (s.renewed o) := by
  intro p t slot e ht he
  rw [tcbs_renewed] at ht
  split at ht
  · obtain rfl := Option.some.inj ht
    cases slot <;> cases he
  · exact hs p t slot e ht he

theorem threadStable : ThreadStable (TypedSlots cfg) where
  tcb _ _ _ _ ht ha hs := hs.setTcb ht fun slot _ he => .inl (ha.held slot ▸ he)
  queues _ _ _ _ hs := hs.of_tcbs rfl
  request _ _ hs := hs.of_tcbs rfl
  vspace _ _ hs := hs.of_tcbs rfl
  switch _ _ hs := hs.of_tcbs rfl
  copy _ _ _ _ hs := hs.of_tcbs rfl

theorem retypeStable : RetypeStable cfg (TypedSlots cfg) where
  untyped _ _ _ _ _ _ _ hs := hs.of_tcbs rfl
  place s _ o _ _ _ _ _ _ _ hput hs := by
    obtain ⟨⟨slots, rfl⟩, -⟩ := hput
    exact (hs.born o).of_tcbs rfl
  renew s _ o _ _ _ _ _ _ _ hput hs := by
    obtain ⟨⟨slots, rfl⟩, -⟩ := hput
    exact (hs.renewed o).of_tcbs rfl

theorem setRegisters (hs : TypedSlots cfg s) {p : Nat} {t : ThreadInfo} (ht : s.tcbs p = some t)
    (regs : Registers) : TypedSlots cfg (s.setTcb p { t with registers := regs }) :=
  hs.setTcb ht fun slot _ he => .inl (by cases slot <;> exact he)

theorem invokeTcb {invLabel : InvLabel} {reg : Registers} {ipcBuffer : Option Nat}
    {rootCnode tcbCap : CapabilityData} {v : Option Nat} (hwf : HeapWF cfg s)
    (hs : TypedSlots cfg s)
    (hne : TCBCap.getTcb tcbCap ≠ cfg.idleThread)
    (h : invokeTcb cfg invLabel reg ipcBuffer rootCnode tcbCap s = .ok v s') :
    TypedSlots cfg s' := by
  rcases invokeTcb_cases hwf h with
    ⟨-, p, q, c, d, c', d', s₁, -, -, -, hk, hd, -, -, hk', hd', hhold, hhold'⟩ |
    ⟨-, b, regs, t, -, -, ht, rfl⟩ | ⟨-, p, c, c', hlook, hd, hhold⟩ | ⟨-, hres⟩
  · exact (hs.hold hhold ((derive_getCapType hd).trans hk) hne).hold hhold'
      ((derive_getCapType hd').trans hk') hne
  · exact hs.setRegisters ht regs
  · exact hs.hold hhold ((derive_getCapType hd).trans (lookupCap_ok hlook).2.2) hne
  · have hT : ThreadStable (TypedSlots cfg) := threadStable
    exact (hT.steady.resume _).ok hs hres

theorem invoke {invLabel : InvLabel} {reg : Registers} {inv : Invocation} {k : CapabilityType}
    {v : Option Nat} (hwf : HeapWF cfg s) (hs : TypedSlots cfg s)
    (hcap : ObjectCap s.objects s.rooted inv.cap) (hk : inv.cap.getCapType = .ok k)
    (h : invoke cfg invLabel reg inv k s = .ok v s') : TypedSlots cfg s' := by
  have hT : ThreadStable (TypedSlots cfg) := threadStable
  cases k with
  | untyped => exact retypeStable.invokeUntyped hwf hs h
  | cNode =>
    obtain ⟨_, _, _, _, -, -, -, -, -, -, ⟨slots, rfl⟩, -⟩ := invokeCNode_capAt hwf h
    exact hs.of_tcbs rfl
  | tcb => exact hs.invokeTcb hwf (hcap.getTcb_ne_idle hwf hk) h
  | notification => exact (hT.steady.invokeNotification hT.request ..).ok hs h
  | endPoint => exact (hT.steady.invokeEndPoint hT.request ..).ok hs h
  | page =>
    obtain ⟨_, _, _, -, -, ⟨-, -, -, -, rfl⟩ | ⟨-, -, -, -, -, rfl⟩⟩ := invokePage_cases h
    · exact hs.of_tcbs rfl
    · exact hs.of_tcbs rfl
  | pageTable =>
    obtain ⟨-, ⟨-, _, _, _, _, -, -, -, -, rfl⟩ | ⟨-, -, rfl⟩⟩ := invokePageTable_ok h
    · exact hs.of_tcbs rfl
    · exact hs.of_tcbs rfl

/-- **One event.** -/
theorem step {ev : Event} (hwf : HeapWF cfg s) (hcaps : CapsAll ObjectCap s) (hs : TypedSlots cfg s)
    (h : Step cfg s ev s') : TypedSlots cfg s' := by
  have hT : ThreadStable (TypedSlots cfg) := threadStable
  cases ev with
  | store a w =>
    obtain rfl := modify_ok.1 h.2
    exact hs.of_tcbs rfl
  | trap regs =>
    obtain ⟨t, u, v, ht, -, rfl, hsched, hcases⟩ := step_trap h
    have hu := hs.setRegisters ht regs
    refine hT.schedule.ok ?_ hsched
    rcases hcases with htimer | ⟨-, ret, w, hret, hw⟩
    · exact hT.timerTick.ok hu htimer
    · refine (hT.steady.returnSyscall _ _).ok ?_ hret
      rcases hw with rfl | ⟨invLabel, inv, k, val, -, hinv, hk, hinvoke⟩
      · exact hu
      · obtain ⟨-, -, -, -, -, hcap⟩ := findInvocation_ok hinv.found
        exact hu.invoke (hwf.setTcb _ ht) (hcaps.setRegisters ht regs _ (.inl ⟨_, hcap⟩)) hk hinvoke

end TypedSlots

/-! ## Boot -/

/-- The capabilities that boot gives to the root thread. -/
theorem createRootSpaces_types {image : Image} {mem : RootServerMemory} {m : ResourceManager}
    {r : RootSpaces} (h : createRootSpaces cfg image mem m s = .ok r s') :
    r.rootCnodeCap.getCapType = .ok .cNode ∧ r.vspaceCap.getCapType = .ok .pageTable ∧
      r.ipcPageCap.getCapType = .ok .page := by
  simp only [createRootSpaces, createFrame, bind_ok, liftExcept_ok, arith_ok, pure_ok] at h
  obtain ⟨cnodeCap, s₁, hcnode, ⟨vspaceCap, em⟩, s₂, hvspace, ⟨ipcCap, m₁⟩, s₃,
    ⟨v, _, -, ⟨c', m'⟩, _, hipc, _, _, -, hret, -⟩, ipcVaddr, _, -, ⟨infoCap, m₂⟩, s₄, -, rfl,
    -⟩ := h
  obtain ⟨o, p, hk, -, hfor, -⟩ := createRootCnode_ok hcnode
  obtain ⟨o', c, p', -, hk', hfor', -, -, -, rfl, -⟩ := createAddressSpace_ok hvspace
  obtain ⟨rfl, rfl⟩ := Prod.mk.inj hret
  obtain ⟨o'', c'', _, _, hk'', -, -, hfor'', -, rfl, -⟩ := createMappedPageCap_ok hipc
  exact ⟨hk ▸ hfor.capType, hk' ▸ hfor'.capType, hk'' ▸ hfor''.capType⟩

/-- The address space of the root server is made without a look at threads. -/
theorem createRootSpaces_tcbs {image : Image} {mem : RootServerMemory} {m : ResourceManager}
    {r : RootSpaces} (h : createRootSpaces cfg image mem m s = .ok r s') : s'.tcbs = s.tcbs := by
  have hI : SpaceRule cfg mem.vspace (fun _ => True) fun u => u.tcbs = s.tcbs :=
    ⟨fun _ _ _ _ hu => hu, fun _ _ _ _ _ _ _ _ _ _ _ _ _ _ _ hu => hu,
      fun _ _ _ _ _ _ _ _ _ _ _ _ _ _ hu => hu, fun _ _ _ _ _ _ hu => hu⟩
  have hroot : FirstRoot cfg (fun u => u.tcbs = s.tcbs) fun _ u => u.tcbs = s.tcbs := by
    intro u o c p _ hk _ _ _ hu
    rw [← hu]
    funext q
    refine (tcbs_born u o q).trans (if_neg fun hq => ?_)
    rw [hk] at hq
    cases hq.1
  have hcnode : FirstCNode cfg s fun u => u.tcbs = s.tcbs := fun _ _ _ _ _ _ _ _ => rfl
  exact (SpaceRule.createRootSpaces (P := fun _ _ _ => True) hI .trivial hcnode hroot
    image.within_trivial h).1.1

theorem TypedSlots.holdRootCap {slot : TcbSlot} {site : Site} {thread idx : Nat}
    {cnodeCap cap : CapabilityData} {u : Unit} (hs : TypedSlots cfg s)
    (hk : cap.getCapType = .ok slot.capType) (hne : thread ≠ cfg.idleThread)
    (h : holdRootCap cfg slot site thread cnodeCap cap idx s = .ok u s') : TypedSlots cfg s' := by
  obtain ⟨parent, s₁, t, -, hins, ht, rfl⟩ := holdRootCap_ok h
  obtain ⟨⟨slots, rfl⟩, hcap⟩ :=
    (keeps_insertAfter (I := SameCaps _) (fun _ p f hv => hv.relink p f) _ _).ok .rfl hins
  have hlocal := hcap (cfg.localAddr site)
  rw [KState.capAt_setSlot, if_pos rfl] at hlocal
  refine (hs.of_tcbs rfl).setTcb ht fun slot' e he => ?_
  rw [TcbSlot.get_set] at he
  split at he
  · next heq =>
    have hc : e.cap = cap := by
      rw [KState.capAt, he] at hlocal
      exact Option.some.inj hlocal
    exact .inr ⟨by rw [hc, hk, heq], hne⟩
  · exact .inl he

/-- A thread that holds nothing. -/
theorem TypedSlots.setTcb_new (hs : TypedSlots cfg s) (p : Nat) (regs : Registers) :
    TypedSlots cfg (s.setTcb p { registers := regs }) := by
  intro q t slot e ht he
  rw [KState.tcbs_setTcb] at ht
  split at ht
  · obtain rfl := Option.some.inj ht
    cases slot <;> cases he
  · exact hs q t slot e ht he

theorem TypedSlots.createRootTcb {tcb : Nat} {cnodeCap vspaceCap ipcBufCap cap : CapabilityData}
    {entry : UInt64} (hs : TypedSlots cfg s) (hcnode : cnodeCap.getCapType = .ok .cNode)
    (hvspace : vspaceCap.getCapType = .ok .pageTable) (hipc : ipcBufCap.getCapType = .ok .page)
    (h : createRootTcb cfg tcb cnodeCap vspaceCap ipcBufCap entry s = .ok cap s') :
    TypedSlots cfg s' := by
  simp only [Zoeax.createRootTcb, bind_ok, liftExcept_ok, pure_ok, modify_ok] at h
  obtain ⟨_, s₀, hobj, _, _, rfl, _, s₁, hhold₁, _, s₂, hhold₂, _, s₃, hhold₃, _, _, ⟨-, rfl⟩, _, _,
    hwrite, rfl, rfl⟩ := h
  obtain ⟨size, hfresh, rfl⟩ := bootObject_ok hobj
  have hne : toKernelV tcb ≠ cfg.idleThread := hfresh.start_ne_idle rfl
  have hs₀ : TypedSlots cfg { s with objects := ⟨.tcb, tcb, 0, size⟩ :: s.objects } :=
    hs.of_tcbs rfl
  have hs₁ := (hs₀.setTcb_new _ _).holdRootCap hcnode hne hhold₁
  have hs₃ := (hs₁.holdRootCap hvspace hne hhold₂).holdRootCap hipc hne hhold₃
  obtain ⟨p, -, -, -, rfl⟩ := writeSlot_ok (unwrap_ok.1 hwrite)
  exact hs₃.of_tcbs rfl

theorem typedSlots_boot {image : Image} (h : Boot cfg image s) : TypedSlots cfg s := by
  obtain ⟨mem, m, r, rootTcb, info, s₁, s₂, s₃, s₄, hspaces, hidle, hroot, hres, hsched⟩ :=
    boot_cases h
  have hT : ThreadStable (TypedSlots cfg) := TypedSlots.threadStable
  obtain ⟨hcnode, hvspace, hipc⟩ := createRootSpaces_types hspaces
  -- there is only the idle thread, which holds nothing
  have hs₁ : TypedSlots cfg s₁ := by
    refine TypedSlots.of_tcbs ?_ (createRootSpaces_tcbs hspaces)
    intro p t slot e ht he
    simp only [KState.afterVmInit, KState.initial, Function.update_apply] at ht
    split at ht
    · obtain rfl := Option.some.inj ht
      cases slot <;> cases he
    · cases ht
  obtain ⟨t, ht, hs₂⟩ := createIdleThread_ok.1 hidle
  have hs₂ : TypedSlots cfg s₂ := hs₂ ▸ (hs₁.setRegisters ht _).of_tcbs rfl
  simp only [createRootThread, bind_ok, liftExcept_ok, pure_ok, modify_ok] at hroot
  obtain ⟨tcbCap, u₁, htcb, info', u₂, huntyped, _, _, rfl, a0, _, ⟨-, rfl⟩, _, _, hupdate,
      -, rfl⟩ :=
    hroot
  have hu₂ : TypedSlots cfg u₂ := insertUntyped_keeps (fun _ _ _ _ _ _ hs => hs.of_tcbs rfl)
    (hs₂.createRootTcb hcnode hvspace hipc htcb) huntyped
  obtain ⟨t', ht', rfl⟩ := updateTcb_ok.1 hupdate
  refine hT.start (TypedSlots.setRegisters ?_ ht' _) hres hsched
  exact hu₂.of_tcbs rfl

/-! ## Runs -/

theorem typedSlots_of_run {C : InvokeCond} {image : Image} {s₀ : KState} (hboot : Boot cfg image s₀)
    (hrun : Run cfg C s₀ s) : HeapWF cfg s ∧ CapsAll ObjectCap s ∧ TypedSlots cfg s := by
  refine run_invariant (P := fun s => HeapWF cfg s ∧ CapsAll ObjectCap s ∧ TypedSlots cfg s) hrun
    ⟨heapWF_boot hboot, CapsAll.boot objectCap_capRule hboot, typedSlots_boot hboot⟩ ?_
  rintro u v ⟨hwf, hcaps, hs⟩ ⟨ev, -, hstep⟩
  exact ⟨hwf.step hstep,
    hcaps.step objectCap_capRule (fun _ _ _ _ _ => mintKeeps_objectCap) hstep,
    hs.step hwf hcaps hstep⟩

/-- **What threads hold is typed and alive**, in every run from boot that meets the conditions. -/
theorem held_of_run {image : Image} {s₀ : KState} (hboot : Boot cfg image s₀)
    (hrun : Run cfg (GuardedFits cfg) s₀ s) {p : Nat} {t : ThreadInfo} {slot : TcbSlot}
    {e : CNodeEntry} (ht : s.tcbs p = some t) (he : slot.get t = some e) :
    e.cap.getCapType = .ok slot.capType ∧
      ∃ o ∈ s.objects, o.kind = slot.capType ∧ o.addr = e.cap.getAddress := by
  obtain ⟨-, hcaps, htyped⟩ := typedSlots_of_run hboot hrun
  have hk := htyped p t slot e ht he
  have hobj : ObjectCap s.objects s.rooted e.cap := hcaps.held ht he
  refine ⟨hk.1, hobj slot.capType hk.1 ?_⟩
  cases slot <;> decide

/-- The root server makes a thread in slot 19 and gives it its own capability space and address
space. -/
theorem held_after_configure : ∃ s₀ s t e, Boot .virt demoImage s₀ ∧
    Run .virt (GuardedFits .virt) s₀ s ∧ s.tcbs (toKernelV 2160095232) = some t ∧
    t.vspace = some e ∧ e.cap.getCapType = .ok .pageTable ∧
    ∃ o ∈ s.objects, o.kind = .pageTable ∧ o.addr = e.cap.getAddress := by
  obtain ⟨s₀, s, hboot, hrun, htest⟩ := exists_run_of_trace .virt (GuardedFits .virt) demoImage
    [.trap { ecallRegs 9 18 2 with a3 := 2, a4 := 18 + 19 * 2 ^ 32, a5 := 1, a6 := 3 },
      .trap { ecallRegs 19 18 3 with a3 := 2, a4 := 18, a5 := 3, a6 := 18 }]
    (fun s => (s.tcbs (toKernelV 2160095232)).any fun t => t.vspace.isSome) (by decide +kernel)
  obtain ⟨t, ht, hsome⟩ := (Option.any_eq_true ..).1 htest
  obtain ⟨e, he⟩ := Option.isSome_iff_exists.1 hsome
  have hheld : TcbSlot.vspace.get t = some e := he
  exact ⟨s₀, s, t, e, hboot, hrun, ht, he, held_of_run hboot hrun ht hheld⟩

end Zoeax
