import Zoeax.Verify.Atomicity
import Zoeax.Verify.Stable

/-!
# One event, and runs

`step_trap` takes a trap apart: the registers are saved, then the timer ticks or a system call is
served, and the scheduler has the last word. A system call that answers `Err` has changed nothing
(`Verify/Atomicity.lean`), so that only invocations that return are left (`Invokes`).

`Run cfg C` are the runs in which every invocation meets the condition `C` on the state in which it
starts. `CapStable.step` is the step lemma of all invariants that do not look into queues.
-/

namespace Zoeax

open Lib Exec

/-! ## What an invocation starts from -/

theorem findInvocation_ok {cfg : Config} {capPtr depth : Nat} {u : KState} {inv : Invocation}
    (h : findInvocation cfg capPtr depth u = .ok inv) :
    inv.current = u.current ∧ u.tcbs u.current = some inv.tcb ∧
      (∃ root, inv.tcb.rootCnode = some root ∧ root.cap = inv.rootCnode) ∧
      inv.rootCnode.lookupEntryMut cfg capPtr (depth % 2 ^ 32) u = .ok inv.slot ∧
      u.isSlot inv.slot = true ∧ u.capAt inv.slot = some inv.cap := by
  simp only [findInvocation, Query.bind_ok, Query.read_ok, exists_eq_left', getTcb_ok] at h
  obtain ⟨tcb, ht, h⟩ := h
  cases hroot : tcb.rootCnode with
  | none =>
    rw [hroot] at h
    exact (Query.throw_ok.1 h).elim
  | some root =>
    rw [hroot] at h
    simp only [Query.bind_ok, occupied_ok, Query.pure_ok] at h
    obtain ⟨slot, hlook, e, ⟨hslot, he⟩, rfl⟩ := h
    exact ⟨rfl, ht, ⟨root, hroot, rfl⟩, hlook, hslot, by rw [KState.capAt, he]; rfl⟩

/-- The event is a system call that invokes a capability: `u` is the state after the registers `reg`
were saved, `inv` what the invocation finds there. -/
structure Invokes (cfg : Config) (s : KState) (ev : Event) (invLabel : InvLabel) (reg : Registers)
    (u : KState) (inv : Invocation) : Prop where
  event : ev = .trap reg
  ecall : reg.scause.toNat = ecallUser
  call : reg.a7.toNat ≠ sysCallNoPrint
  label : InvLabel.ofUsize? reg.a2.toNat = some invLabel
  entry : trapEntry reg s = .ok () u
  found : findInvocation cfg reg.a0.toNat reg.a1.toNat u = .ok inv

/-- A condition on invocations: label, registers, state, and what was found. -/
abbrev InvokeCond := InvLabel → Registers → KState → Invocation → Prop

/-- Every invocation of the event meets the condition. -/
def Event.Meets (cfg : Config) (C : InvokeCond) (s : KState) (ev : Event) : Prop :=
  ∀ invLabel reg u inv, Invokes cfg s ev invLabel reg u inv → C invLabel reg u inv

/-- Runs in which every invocation meets the condition. -/
def Run (cfg : Config) (C : InvokeCond) : KState → KState → Prop :=
  Relation.ReflTransGen fun s s' => ∃ ev : Event, ev.Meets cfg C s ∧ Step cfg s ev s'

/-! ## A trap, taken apart -/

theorem trapEntry_ok {regs : Registers} {s u : KState} {a : Unit} :
    trapEntry regs s = .ok a u ↔
      ∃ t, s.tcbs s.curRegBase = some t ∧
        u = s.setTcb s.curRegBase { t with registers := regs } := by
  simp only [trapEntry, bind_ok, get_ok, updateTcb_ok]
  constructor
  · rintro ⟨_, _, ⟨rfl, rfl⟩, h⟩
    exact h
  · intro h
    exact ⟨s, s, ⟨rfl, rfl⟩, h⟩

theorem scause_eq_of_code {scause : UInt64} (hbit : ¬scause.toNat.testBit 63)
    (hcode : scause.toNat % 2 ^ 63 = ecallUser) : scause.toNat = ecallUser := by
  have hlt : scause.toNat < 2 ^ 63 := by
    by_contra hge
    exact hbit (Nat.testBit_of_two_pow_le_and_two_pow_add_one_gt (by omega) scause.toNat_lt)
  rwa [Nat.mod_eq_of_lt hlt] at hcode

theorem handleTrap_ok {cfg : Config} {regs : Registers} {u v : KState} {a : Unit}
    (h : handleTrap cfg regs.scause.toNat u = .ok a v) :
    timerTick cfg u = .ok a v ∨ regs.scause.toNat = ecallUser ∧ handleSyscall cfg u = .ok a v := by
  unfold handleTrap at h
  split at h
  · split at h
    · exact .inl h
    · exact (throw_ok.1 h).elim
  · next hbit =>
    split at h
    · next hcode => exact .inr ⟨scause_eq_of_code hbit hcode, h⟩
    · exact (throw_ok.1 h).elim

theorem catchErr_ok {α : Type} {x : KM α} {s s' : KState} {r : Except KernelError α}
    (h : catchErr x s = .ok r s') :
    (∃ a, r = .ok a ∧ x s = .ok a s') ∨ ∃ e, r = .error e ∧ x s = .error (.err e) s' := by
  unfold catchErr at h
  split at h
  · next hx =>
    obtain ⟨rfl, rfl⟩ := EStateM.Result.ok.inj h
    exact .inl ⟨_, rfl, hx⟩
  · next hx =>
    obtain ⟨rfl, rfl⟩ := EStateM.Result.ok.inj h
    exact .inr ⟨_, rfl, hx⟩
  · cases h

theorem handlePrint_ok {cfg : Config} {invLabel : InvLabel} {u w : KState} {v : Option Nat}
    (h : handlePrint cfg invLabel u = .ok v w) : w = u := by
  unfold handlePrint at h
  split at h
  · exact (pure_ok.1 h).2.symm
  · simp only [bind_ok, get_ok, lift_ok] at h
    obtain ⟨_, _, ⟨rfl, rfl⟩, t, _, ⟨-, rfl⟩, h⟩ := h
    cases hroot : t.rootCnode with
    | some root =>
      simp only [hroot, bind_ok, lift_ok, pure_ok] at h
      obtain ⟨_, _, ⟨-, rfl⟩, -, rfl⟩ := h
      rfl
    | none =>
      rw [hroot] at h
      exact (throw_ok.1 h).elim
  · exact (throw_ok.1 h).elim

theorem handleInvocation_ok {cfg : Config} {invLabel : InvLabel} {reg : Registers} {u w : KState}
    {v : Option Nat} (h : handleInvocation cfg invLabel reg u = .ok v w) :
    ∃ inv k, findInvocation cfg reg.a0.toNat reg.a1.toNat u = .ok inv ∧
      inv.cap.getCapType = .ok k ∧ invoke cfg invLabel reg inv k u = .ok v w := by
  simp only [handleInvocation, bind_ok, lift_ok, liftExcept_ok] at h
  obtain ⟨inv, _, ⟨hinv, rfl⟩, k, _, ⟨hk, rfl⟩, h⟩ := h
  exact ⟨inv, k, hinv, hk, h⟩

/-- A system call either leaves the state alone or is an invocation that returned. -/
theorem dispatchSyscall_cases {cfg : Config} {reg : Registers} {u w : KState}
    {ret : Except KernelError (Option Nat)}
    (h : catchErr (dispatchSyscall cfg reg) u = .ok ret w) :
    w = u ∨ ∃ invLabel inv k v, ret = .ok v ∧ reg.a7.toNat ≠ sysCallNoPrint ∧
      InvLabel.ofUsize? reg.a2.toNat = some invLabel ∧
      findInvocation cfg reg.a0.toNat reg.a1.toNat u = .ok inv ∧
      inv.cap.getCapType = .ok k ∧ invoke cfg invLabel reg inv k u = .ok v w := by
  rcases catchErr_ok h with ⟨v, rfl, hd⟩ | ⟨e, rfl, hd⟩
  · unfold dispatchSyscall at hd
    cases hl : InvLabel.ofUsize? reg.a2.toNat with
    | none =>
      rw [hl] at hd
      exact (throw_ok.1 hd).elim
    | some invLabel =>
      simp only [hl] at hd
      split at hd
      · exact .inl (handlePrint_ok hd)
      · next hcall =>
        obtain ⟨inv, k, hinv, hk, hd⟩ := handleInvocation_ok hd
        exact .inr ⟨invLabel, inv, k, v, rfl, hcall, rfl, hinv, hk, hd⟩
  · exact .inl (errAtomic_dispatchSyscall cfg reg hd True.intro)

theorem returnSyscall_ok {cfg : Config} {thread : Nat} {ret : Except KernelError (Option Nat)}
    {s s' : KState} {u : Unit} :
    returnSyscall cfg thread ret s = .ok u s' ↔
      ∃ t sepc, s.tcbs thread = some t ∧ cfg.profile.add t.registers.sepc.toNat 4 = some sepc ∧
        s' = s.setTcb thread { t with
          registers := { t.registers.setResult ret with sepc := UInt64.ofNat sepc } } := by
  simp only [returnSyscall, bind_ok, lift_ok, getTcb_ok, liftExcept_ok, arith_ok, updateTcb_ok]
  constructor
  · rintro ⟨t, _, ⟨ht, rfl⟩, sepc, _, ⟨hsepc, rfl⟩, t', ht', rfl⟩
    obtain rfl := Option.some.inj (ht.symm.trans ht')
    exact ⟨t, sepc, ht, hsepc, rfl⟩
  · rintro ⟨t, sepc, ht, hsepc, rfl⟩
    exact ⟨t, s, ⟨ht, rfl⟩, sepc, s, ⟨hsepc, rfl⟩, t, ht, rfl⟩

theorem ofNat_add_four {p : Profile} {x : UInt64} {n : Nat}
    (h : p.add x.toNat 4 = some n) : UInt64.ofNat n = x + 4 := by
  rw [Profile.wrap_eq_mod h]
  refine UInt64.toNat_inj.1 ?_
  simp [UInt64.toNat_add, UInt64.toNat_ofNat']

/-- A system call, taken apart: `w` is the state when the call itself is over. -/
theorem handleSyscall_ok {cfg : Config} {u v : KState} {a : Unit}
    (h : handleSyscall cfg u = .ok a v) :
    ∃ t ret w, u.tcbs u.curRegBase = some t ∧ returnSyscall cfg u.curRegBase ret w = .ok () v ∧
      (w = u ∨ ∃ invLabel inv k val, ret = .ok val ∧ t.registers.a7.toNat ≠ sysCallNoPrint ∧
        InvLabel.ofUsize? t.registers.a2.toNat = some invLabel ∧
        findInvocation cfg t.registers.a0.toNat t.registers.a1.toNat u = .ok inv ∧
        inv.cap.getCapType = .ok k ∧ invoke cfg invLabel t.registers inv k u = .ok val w) := by
  simp only [handleSyscall, bind_ok, get_ok, lift_ok, getTcb_ok] at h
  obtain ⟨_, _, ⟨rfl, rfl⟩, t, _, ⟨ht, rfl⟩, ret, w, hdisp, hret⟩ := h
  exact ⟨t, ret, w, ht, hret, dispatchSyscall_cases hdisp⟩

/-- The three parts of a trap: `u` is the state after the registers were saved, `v` the state in
which the scheduler starts. -/
theorem step_parts {cfg : Config} {s s' : KState} {regs : Registers}
    (h : Step cfg s (.trap regs) s') :
    ∃ u v, trapEntry regs s = .ok () u ∧ handleTrap cfg regs.scause.toNat u = .ok () v ∧
      schedule cfg v = .ok () s' := by
  obtain ⟨-, h⟩ := h
  simp only [Event.exec, kernelTrap, bind_ok] at h
  obtain ⟨_, u, hentry, _, v, htrap, hsched⟩ := h
  exact ⟨u, v, hentry, htrap, hsched⟩

/-- Before the scheduler, the timer ticks or a system call is served; `w` is the state when the
system call is over. -/
theorem handleTrap_cases {cfg : Config} {s u v : KState} {regs : Registers}
    (hentry : trapEntry regs s = .ok () u)
    (htrap : handleTrap cfg regs.scause.toNat u = .ok () v) :
    timerTick cfg u = .ok () v ∨ regs.scause.toNat = ecallUser ∧ ∃ ret w,
      returnSyscall cfg s.curRegBase ret w = .ok () v ∧
      (w = u ∨ ∃ invLabel inv k val, ret = .ok val ∧
        Invokes cfg s (.trap regs) invLabel regs u inv ∧
        inv.cap.getCapType = .ok k ∧ invoke cfg invLabel regs inv k u = .ok val w) := by
  obtain ⟨t, ht, hu⟩ := trapEntry_ok.1 hentry
  refine (handleTrap_ok htrap).imp_right fun ⟨hcause, hsys⟩ => ⟨hcause, ?_⟩
  obtain ⟨t', ret, w, ht', hret, hcases⟩ := handleSyscall_ok hsys
  -- the registers that the system call reads are those just saved
  have hregs : t'.registers = regs := by
    rw [hu] at ht'
    simp only [KState.setTcb, Function.update_self, Option.some.injEq] at ht'
    rw [← ht']
  rw [hregs] at hcases
  refine ⟨ret, w, by rw [hu] at hret; exact hret, hcases.imp_right ?_⟩
  rintro ⟨invLabel, inv, k, val, hret, hcall, hl, hinv, hk, h⟩
  exact ⟨invLabel, inv, k, val, hret, ⟨rfl, hcause, hcall, hl, hentry, hinv⟩, hk, h⟩

/-- **A trap**, taken apart. -/
theorem step_trap {cfg : Config} {s s' : KState} {regs : Registers}
    (h : Step cfg s (.trap regs) s') :
    ∃ t u v, s.tcbs s.curRegBase = some t ∧ trapEntry regs s = .ok () u ∧
      u = s.setTcb s.curRegBase { t with registers := regs } ∧ schedule cfg v = .ok () s' ∧
      (timerTick cfg u = .ok () v ∨ regs.scause.toNat = ecallUser ∧ ∃ ret w,
        returnSyscall cfg s.curRegBase ret w = .ok () v ∧
        (w = u ∨ ∃ invLabel inv k val, ret = .ok val ∧
          Invokes cfg s (.trap regs) invLabel regs u inv ∧
          inv.cap.getCapType = .ok k ∧ invoke cfg invLabel regs inv k u = .ok val w)) := by
  obtain ⟨u, v, hentry, htrap, hsched⟩ := step_parts h
  obtain ⟨t, ht, hu⟩ := trapEntry_ok.1 hentry
  exact ⟨t, u, v, ht, hentry, hu, hsched, handleTrap_cases hentry htrap⟩

/-! ## The step lemma -/

section StepLemma

variable {cfg : Config} {P : CapProp} {I : KState → Prop} {u w : KState} {invLabel : InvLabel}
  {reg : Registers} {inv : Invocation} {v : Option Nat}

/-- An invocation on a thread; `TcbWriteReg` and `TcbResume` are up to the invariant. -/
theorem CapStable.invokeTcb (hI : CapStable cfg P I) (hP : CapRule P) {ipcBuffer : Option Nat}
    {rootCnode c : CapabilityData} (hcaps : CapsAll P u)
    (hresume : invLabel = .tcbResume → resume (TCBCap.getTcb c) u = .ok () w → I w)
    (hwrite : ∀ b regs t, invLabel = .tcbWriteReg → ipcBuffer = some b →
      readRegisters cfg b u = .ok regs → u.tcbs (TCBCap.getTcb c) = some t →
      I (u.setTcb (TCBCap.getTcb c) { t with registers := regs }))
    (hu : I u) (h : invokeTcb cfg invLabel reg ipcBuffer rootCnode c u = .ok v w) : I w := by
  unfold Zoeax.invokeTcb at h
  split at h
  · simp only [bind_ok, lift_ok, pure_ok] at h
    obtain ⟨_, _, ⟨-, rfl⟩, _, _, hconf, rfl, rfl⟩ := h
    exact hI.configure hP hcaps hu hconf
  · split at h
    · exact (throw_ok.1 h).elim
    · simp only [TCBCap.setRegisters, bind_ok, lift_ok, pure_ok, updateTcb_ok] at h
      obtain ⟨regs, _, ⟨hread, rfl⟩, _, _, ⟨t, ht, rfl⟩, rfl, rfl⟩ := h
      exact hwrite _ regs t rfl rfl hread ht
  · simp only [TCBCap.setIpcBuffer, bind_ok, lift_ok, pure_ok] at h
    obtain ⟨_, _, ⟨-, rfl⟩, _, _, hset, rfl, rfl⟩ := h
    exact hI.setSlot hP hcaps hu hset
  · simp only [TCBCap.makeRunnable, bind_ok, pure_ok] at h
    obtain ⟨_, _, hres, rfl, rfl⟩ := h
    exact hresume rfl hres
  · exact (throw_ok.1 h).elim

/-- What `TcbWriteReg` has to respect. -/
def WriteRegKeeps (cfg : Config) (I : KState → Prop) : InvokeCond := fun invLabel _ u inv =>
  ∀ b regs t, invLabel = .tcbWriteReg → inv.cap.getCapType = .ok .tcb →
    inv.tcb.ipcBufferRef = some b → readRegisters cfg b u = .ok regs →
    u.tcbs (TCBCap.getTcb inv.cap) = some t → I u →
    I (u.setTcb (TCBCap.getTcb inv.cap) { t with registers := regs })

/-- What `CNodeMint` has to respect. -/
def MintKeeps (cfg : Config) (P : CapProp) : InvokeCond := fun invLabel reg u inv =>
  invLabel = .cNodeMint → inv.cap.getCapType = .ok .cNode → ∀ slot c,
    inv.rootCnode.lookupEntryMut cfg reg.a3.toNat (reg.a4.toNat >>> 32) u = .ok slot →
    u.capAt slot = some c → P u.objects u.rooted c → P u.objects u.rooted (c.setCapDepVal reg.a6)

/-- What invocations on pages and page tables have to respect. -/
def MappingKeeps (cfg : Config) (P : CapProp) (I : KState → Prop) : InvokeCond :=
  fun invLabel reg u inv => ∀ k v w, k = .page ∨ k = .pageTable → inv.cap.getCapType = .ok k →
    P u.objects u.rooted inv.cap → I u → invoke cfg invLabel reg inv k u = .ok v w → I w

/-- What a retype makes comes where there is no object. -/
def RetypesApart (cfg : Config) : InvokeCond := fun _ reg u inv =>
  inv.cap.getCapType = .ok .untyped → inv.cap.RetypesApart cfg reg u

theorem MapStable.mappingKeeps (hI : MapStable cfg P I) (hP : CapRule P) :
    MappingKeeps cfg P I invLabel reg u inv := by
  rintro k v w (rfl | rfl) hk hcap hu h
  · exact hI.invokePage hP hk hcap hu h
  · exact hI.invokePageTable hP hk hcap hu h

theorem CapStable.invoke (hI : CapStable cfg P I) (hT : ThreadSteady I)
    (hreq : ∀ s b, I s → I { s with requested := b }) (hP : CapRule P)
    {k : CapabilityType} (hk : inv.cap.getCapType = .ok k)
    (hslot : u.capAt inv.slot = some inv.cap) (hcaps : CapsAll P u)
    (hnew : Renews I ∨ RetypesApart cfg invLabel reg u inv)
    (hwrite : WriteRegKeeps cfg I invLabel reg u inv) (hmint : MintKeeps cfg P invLabel reg u inv)
    (hmap : MappingKeeps cfg P I invLabel reg u inv)
    (hu : I u) (h : invoke cfg invLabel reg inv k u = .ok v w) : I w := by
  have hcap : P u.objects u.rooted inv.cap := hcaps _ (.inl ⟨inv.slot, hslot⟩)
  cases k with
  | untyped =>
    refine hI.invokeUntyped hP (hnew.imp_right fun hnew c hc => ?_) hu h
    obtain rfl : inv.cap = c := Option.some.inj (hslot.symm.trans hc)
    exact hnew hk
  | cNode =>
    exact hI.invokeCNode hP hcaps (fun hl slot c hlook hc =>
      hmint hl hk slot c hlook hc (hcaps _ (.inl ⟨slot, hc⟩))) hu h
  | tcb =>
    exact hI.invokeTcb hP hcaps (fun _ hres => (hT.resume _).ok hu hres)
      (fun b regs t hl hb hr ht => hwrite b regs t hl hk hb hr ht hu) hu h
  | notification => exact (hT.invokeNotification hreq ..).ok hu h
  | endPoint => exact (hT.invokeEndPoint hreq ..).ok hu h
  | page => exact hmap .page v w (.inl rfl) hk hcap hu h
  | pageTable => exact hmap .pageTable v w (.inr rfl) hk hcap hu h

/-- A trap, up to the scheduler, keeps an invariant that survives the writes of the kernel, if
saving the registers, `TcbWriteReg`, `CNodeMint` and the invocations on pages and page tables
respect it, and if it survives that objects are initialised again or none is. -/
theorem CapStable.trap (hI : CapStable cfg P I) (hT : TrapStable I) (hP : CapRule P)
    {s v : KState} {regs : Registers}
    (hsave : ∀ t, s.tcbs s.curRegBase = some t → CapsAll P s → I s →
      I (s.setTcb s.curRegBase { t with registers := regs }))
    (hnew : Renews I ∨ (Event.trap regs).Meets cfg (RetypesApart cfg) s)
    (hwrite : (Event.trap regs).Meets cfg (WriteRegKeeps cfg I) s)
    (hmint : (Event.trap regs).Meets cfg (MintKeeps cfg P) s)
    (hmap : (Event.trap regs).Meets cfg (MappingKeeps cfg P I) s)
    (hcaps : CapsAll P s) (hs : I s) (hentry : trapEntry regs s = .ok () u)
    (htrap : handleTrap cfg regs.scause.toNat u = .ok () v) : I v := by
  obtain ⟨t, ht, hu⟩ := trapEntry_ok.1 hentry
  have hIu : I u := hu ▸ hsave t ht hcaps hs
  have hcapsu : CapsAll P u := hu ▸ hcaps.setRegisters ht regs
  rcases handleTrap_cases hentry htrap with htimer | ⟨-, ret, w, hret, hw⟩
  · exact hT.timerTick.ok hIu htimer
  · refine (hT.steady.returnSyscall _ _).ok ?_ hret
    rcases hw with rfl | ⟨invLabel, inv, k, val, -, hinvk, hk, hinvoke⟩
    · exact hIu
    · exact hI.invoke hT.steady hT.request hP hk (findInvocation_ok hinvk.found).2.2.2.2.2 hcapsu
        (hnew.imp_right fun h => h _ _ _ _ hinvk) (hwrite _ _ _ _ hinvk) (hmint _ _ _ _ hinvk)
        (hmap _ _ _ _ hinvk) hIu hinvoke

/-- **The step lemma.** An invariant that survives the writes of the kernel survives every event,
if the stores of user programs, saving the registers, `TcbWriteReg`, `CNodeMint` and the invocations
on pages and page tables respect it, and if it survives that objects are initialised again or none
is. -/
theorem CapStable.step (hI : CapStable cfg P I) (hT : ThreadStable I) (hP : CapRule P)
    {s s' : KState} {ev : Event}
    (hstore : ∀ a w, ev = .store a w → ev.Enabled s → I s → I (s.setWord a w))
    (hentry : ∀ regs t, ev = .trap regs → s.tcbs s.curRegBase = some t → CapsAll P s → I s →
      I (s.setTcb s.curRegBase { t with registers := regs }))
    (hnew : Renews I ∨ ev.Meets cfg (RetypesApart cfg) s)
    (hwrite : ev.Meets cfg (WriteRegKeeps cfg I) s) (hmint : ev.Meets cfg (MintKeeps cfg P) s)
    (hmap : ev.Meets cfg (MappingKeeps cfg P I) s)
    (hcaps : CapsAll P s) (hs : I s) (h : Step cfg s ev s') : I s' := by
  cases ev with
  | store a w =>
    obtain rfl := modify_ok.1 h.2
    exact hstore a w rfl h.1 hs
  | trap regs =>
    obtain ⟨u, v, hsave, htrap, hsched⟩ := step_parts h
    have hv : I v := hI.trap hT.toTrapStable hP (fun t => hentry regs t rfl) hnew hwrite hmint hmap
      hcaps hs hsave htrap
    exact hT.schedule.ok hv hsched

/-- The same for invariants that do not look at the memory of pages and page tables. -/
theorem MapStable.step (hI : MapStable cfg P I) (hT : ThreadStable I) (hP : CapRule P)
    {s s' : KState} {ev : Event}
    (hentry : ∀ regs t, ev = .trap regs → s.tcbs s.curRegBase = some t → CapsAll P s → I s →
      I (s.setTcb s.curRegBase { t with registers := regs }))
    (hnew : Renews I ∨ ev.Meets cfg (RetypesApart cfg) s)
    (hwrite : ev.Meets cfg (WriteRegKeeps cfg I) s) (hmint : ev.Meets cfg (MintKeeps cfg P) s)
    (hcaps : CapsAll P s) (hs : I s) (h : Step cfg s ev s') : I s' :=
  hI.toCapStable.step hT hP (fun _ _ _ _ hs => hI.mem s _ hs) hentry hnew hwrite hmint
    (fun _ _ _ _ _ => hI.mappingKeeps hP) hcaps hs h

end StepLemma

/-- Every capability keeps `P`. -/
theorem CapsAll.step {cfg : Config} {P : CapProp} (hP : CapRule P) {s s' : KState} {ev : Event}
    (hmint : ev.Meets cfg (MintKeeps cfg P) s) (hs : CapsAll P s) (h : Step cfg s ev s') :
    CapsAll P s' :=
  (hP.mapStable cfg).step (capsAll_threadStable P) hP
    (fun regs _ _ ht _ hs => hs.setRegisters ht regs) (.inl (capsAll_renews P))
    (fun _ _ _ _ _ _ regs _ _ _ _ _ ht hu => hu.setRegisters ht regs) hmint hs hs h

end Zoeax
