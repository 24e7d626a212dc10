import Zoeax.Lib.Integrity
import Zoeax.Verify.Domains
import Zoeax.Verify.Retype

/-!
# Isolation

`isolated_of_machineRun`: a sealed machine stays sealed, and a thread changes nothing in a domain
that its own domain has no endpoint or notification in common with. This is about the machine:
stores go where cached translations lead, stale ones too. What belongs to no domain is left out: the
run queue, the time slices, and the links of the derivation list. Of a slot, the capability counts.

As in `Verify/Protection.lean`, the machine starts in a state of a run that meets what is left to
the callers (`Guard`), so that no object lies in the free part of a block, and the conditions are
met in every step.
-/

namespace Zoeax

open Lib Exec
open CapabilityType (entrySize)
open PageTable (entry)
open Sv48 (Translation)

variable {cfg : Config} {δ : Type} {pol : Policy δ} {d e : δ} {s s' : KState}

/-! ## Invocations -/

/-- The caller and what it invokes are of the domain. -/
structure CallOf (pol : Policy δ) (e : δ) (s : KState) (inv : Invocation) : Prop where
  current : pol.owner inv.current = e
  root : CNodeOf pol e s inv.rootCnode
  slot : pol.owner inv.slot = e
  cap : s.capAt inv.slot = some inv.cap
  within : inv.cap.Within pol e

theorem Sealed.calls (hs : Sealed cfg pol s) (hwf : HeapWF cfg s) (htyped : TypedSlots cfg s)
    (hcaps : CapsAll Confined s) {capPtr depth : Nat} {inv : Invocation}
    (h : findInvocation cfg capPtr depth s = .ok inv) : CallOf pol (pol.owner s.current) s inv := by
  obtain ⟨hcur, ht, ⟨root, hroot, hcap⟩, hlook, hslot, hinv⟩ := findInvocation_ok h
  have hget : TcbSlot.rootCnode.get inv.tcb = some root := hroot
  have hcnode : CNodeOf pol (pol.owner s.current) s inv.rootCnode := by
    rw [← hcap]
    exact ⟨(htyped _ _ .rootCnode _ ht hget).1, hcaps.held ht hget,
      hs.held _ _ .rootCnode _ ht hget⟩
  have howner := hs.lookupEntry hwf hcaps hcnode hlook
  exact ⟨hcur ▸ rfl, hcnode, howner, hinv, hs.within hwf hslot hinv howner⟩

/-- Less of the block is left. -/
theorem CapabilityData.Within.shrink {c c' : CapabilityData} (hin : c.Within pol d)
    (hc : c.getCapType = .ok .untyped) (hc' : c'.getCapType = .ok .untyped)
    (haddr : c'.getAddress = c.getAddress) (hsize : c'.blockSize = c.blockSize)
    (hle : c.freePhys ≤ c'.freePhys) (hstop : c'.freePhys ≤ c.blockEnd) : c'.Within pol d := by
  rw [Within, hc] at hin
  obtain ⟨hblock, hfree⟩ := hin
  have hend : c'.blockEnd = c.blockEnd := by rw [blockEnd, haddr, hsize, blockEnd]
  rw [Within, hc']
  refine ⟨⟨?_, ?_, ?_⟩, fun a ha hlt => hfree a (hle.trans ha) (hend ▸ hlt)⟩
  · rw [hend]
    exact hblock.end_le
  · rw [haddr]
    exact hblock.base_le_free.trans hle
  · rw [hend]
    exact hstop

namespace Acts

variable {s₀ : KState}

/-- The loop: objects of the domain, with their capabilities in slots of the domain. -/
theorem insertCaps {window parent n i a b : Nat} {g : CapGenerator} {u : Unit}
    (hg : g.Apart cfg n a b s) (hsize : g.userSize < 2 ^ 32) (hk : g.k ≠ .untyped)
    (hexact : ∀ size, g.k.getObjectSize cfg g.userSize = .ok size → SizeExact g.k g.userSize size)
    (hdom : ∀ x, a ≤ x → x < b → pol.dom x = e)
    (hwindow : ∀ j, i ≤ j → j < i + n → pol.owner (window + entrySize * j) = e)
    (h : Acts cfg pol e s₀ s) (hins : insertCaps cfg window parent n g i s = .ok u s') :
    Acts cfg pol e s₀ s' := by
  induction n generalizing g i a s with
  | zero =>
    obtain ⟨-, rfl⟩ := pure_ok.1 hins
    exact h
  | succ n ih =>
    simp only [Zoeax.insertCaps, bind_ok, liftExcept_ok] at hins
    obtain ⟨⟨cap, g'⟩, _, ⟨hnext, rfl⟩, _, s₁, hnew, hins⟩ := hins
    obtain ⟨size, hfresh, hput, hg'⟩ := hg.round hnext hnew
    obtain ⟨-, hcap⟩ := next_fresh hnext hsize size
    obtain ⟨haddr, hk', huser', -⟩ := hg.toBetween.next hnext
    obtain ⟨hpos, hcnode⟩ := hexact size hfresh.size
    have hfit := hg.fits size hfresh.size (Nat.succ_ne_zero n)
    have hstop := hg'.stop
    have hin : ∀ x, cap.getAddress ≤ x → x < cap.getAddress + size → pol.dom x = e :=
      fun x hle hlt => hdom x (by omega) (by omega)
    have hobj : pol.dom cap.getAddress = e := hin _ le_rfl (by omega)
    have hframe : pol.dom cap.getFrame = e := by rwa [hcap.getFrame hfresh.admissible]
    have hnew := (h.born hfresh hobj hin hcnode).putCap (hwindow i le_rfl (by omega))
      (.of_frame hcap.capType hk hframe) (insertCap_putCap hput)
    refine ih hg' (huser' ▸ hsize) (hk' ▸ hk) (by rwa [hk', huser'])
      (fun x hle => hdom x (by omega)) (fun j hle hlt => hwindow j (by omega) (by omega)) hnew hins

/-- **`UntypedRetype`**, if it fits: less of the block is left, and the new objects come from what
was left of it before. -/
theorem invokeUntyped (h : Acts cfg pol e s₀ s) (hcaps : CapsAll Confined s)
    (hall : Allocated cfg s) {invLabel : InvLabel} {reg : Registers} {inv : Invocation}
    {v : Option Nat}
    (hcalls : CallOf pol e s inv) (hslot : s.isSlot inv.slot = true)
    (hk : inv.cap.getCapType = .ok .untyped) (hcond : RetypeFits cfg invLabel reg s inv)
    (hinv : invokeUntyped cfg reg inv.rootCnode inv.slot s = .ok v s') : Acts cfg pol e s₀ s' := by
  simp only [Zoeax.invokeUntyped, retypeAndInsert, bind_ok, lift_ok, liftExcept_ok, pure_ok,
    deref_ok, writeCap, modify_ok, CapabilityData.tryRefAs_ok] at hinv
  obtain ⟨k, _, ⟨hkind, rfl⟩, ⟨p, dest⟩, _, ⟨hdest, rfl⟩, window, _, ⟨hwindow, rfl⟩, _, _,
    ⟨src, _, ⟨hsrc, rfl⟩, _, _, ⟨-, rfl⟩, ⟨c, gen⟩, _, ⟨hret, rfl⟩, _, _, rfl, hins⟩, rfl,
    rfl⟩ := hinv
  have hsrccap : src.cap = inv.cap :=
    Option.some.inj ((congrArg (Option.map _) hsrc).symm.trans hcalls.cap)
  rw [hsrccap] at hret
  have hne : k ≠ .untyped := by
    rintro rfl
    cases hret
  have huntyped : s.Untyped cfg inv.slot inv.cap := ⟨h.wf.not_isLocal hslot, hcalls.cap, hk⟩
  obtain ⟨⟨haddr, hbits⟩, hle, hstop, hapart⟩ := hcond.apart hk (hall.block _ _ huntyped)
    (hall.free _ _ huntyped) hkind hret
  obtain ⟨hc, huser, hnum⟩ := invokeRetype_frame hret
  obtain rfl := invokeRetype_kind hret
  have hfree : ∀ x, roundUp inv.cap.freePhys gen.k.align ≤ x → x < c.freePhys → pol.dom x = e := by
    have hin := hcalls.within
    rw [CapabilityData.Within, hk] at hin
    exact fun x hx hlt => hin.2 x (hle.trans hx) (hlt.trans_le hstop)
  have hwithin : c.Within pol e := hcalls.within.shrink hk (hc.trans hk) haddr hbits
    (hle.trans ((Nat.le_add_right ..).trans hapart.stop)) hstop
  -- the window is in a CNode of the domain
  obtain ⟨-, hdcap, hdk⟩ := lookupCap_ok hdest
  have hdin := (h.sealed.lookupCap h.wf hcaps hcalls.root hdest).frame hdk (.inl rfl)
  have howner := h.sealed.getWritable h.wf ⟨hdk, hcaps _ (.inl ⟨p, hdcap⟩), hdin⟩ hwindow
  have hset : gen.Apart cfg gen.num (roundUp inv.cap.freePhys gen.k.align) c.freePhys
      (s.setCap inv.slot c) := ⟨hapart.toBetween, hapart.sized, hapart.clear⟩
  refine insertCaps hset ?_ hne (fun size hsize => ?_) hfree (fun j _ hlt => howner j (by omega))
    (h.setCap hcalls.slot hwithin) hins
  · have := reg.a5.toNat_lt
    rw [huser, Nat.shiftRight_eq_div_pow]
    omega
  · rw [huser] at hsize ⊢
    exact (hcond hk _ hkind size hsize).1

end Acts

namespace Acts

variable {s₀ : KState}

theorem invokeTcb (h : Acts cfg pol e s₀ s) (hcaps : CapsAll Confined s) {invLabel : InvLabel}
    {reg : Registers} {inv : Invocation} {v : Option Nat} (hcalls : CallOf pol e s inv)
    (hk : inv.cap.getCapType = .ok .tcb)
    (hinv : invokeTcb cfg invLabel reg inv.tcb.ipcBufferRef inv.rootCnode inv.cap s = .ok v s') :
    Acts cfg pol e s₀ s' := by
  have hp : pol.owner (TCBCap.getTcb inv.cap) = e := hcalls.within.frame hk (.inr (.inl rfl))
  have hmeets : pol.Meets e (pol.owner (TCBCap.getTcb inv.cap)) := hp ▸ pol.meets_self e
  -- what a thread of the domain gets is derived from what a slot of the domain has
  have hframe : ∀ {p c c' k}, s.isSlot p = true → s.capAt p = some c → pol.owner p = e →
      c.getCapType = .ok k → k = .cNode ∨ k = .tcb ∨ k = .page ∨ k = .pageTable →
      c.derive = .ok c' → pol.dom c'.getFrame = e := by
    intro p c c' k hslot hcap howner hc hk hd
    obtain ⟨w, rfl⟩ := derive_eq hd
    exact (h.sealed.within h.wf hslot hcap howner).frame hc hk
  rcases invokeTcb_cases h.wf hinv with
    ⟨-, p, q, c, d, c', d', s₁, hlook, hslot, hc, hck, hd, hslot', hc', hck', hd', hhold, hhold'⟩ |
    ⟨-, b, regs, t, -, -, ht, rfl⟩ | ⟨-, p, c, c', hlook, hd, hhold⟩ | ⟨-, hres⟩
  · simp only [CapabilityData.lookupTwoEntriesMut, Query.bind_ok, Query.lift_ok,
      Query.pure_ok] at hlook
    obtain ⟨p', hp', q', hq', _, -, hpair⟩ := hlook
    obtain ⟨rfl, rfl⟩ := Prod.mk.inj hpair
    have howner := h.sealed.lookupEntry h.wf hcaps hcalls.root hp'
    have howner' := h.sealed.lookupEntry h.wf hcaps hcalls.root hq'
    exact (h.hold hp (hframe hslot hc howner hck (.inl rfl) hd) hhold).hold hp
      (hframe hslot' hc' howner' hck' (.inr (.inr (.inr rfl))) hd') hhold'
  · exact h.setTcb ht hmeets fun slot _ he => .inl (by cases slot <;> exact he)
  · have hin := h.sealed.lookupCap h.wf hcaps hcalls.root hlook
    have hdom : pol.dom c'.getFrame = e := by
      obtain ⟨w, rfl⟩ := derive_eq hd
      exact hin.frame (lookupCap_ok hlook).2.2 (.inr (.inr (.inl rfl)))
    exact h.hold hp hdom hhold
  · exact (resume hmeets).ok h hres

/-- Invocations on pages and page tables. -/
theorem mapping (h : Acts cfg pol e s₀ s) (hguard : Paged cfg s) (hcaps : CapsAll Confined s)
    (hobj : CapsAll ObjectCap s) {invLabel : InvLabel} {reg : Registers} {inv : Invocation}
    {k : CapabilityType} {v : Option Nat} (hcalls : CallOf pol e s inv)
    (hcond : MapsBelowRoots cfg invLabel reg s inv) (hkind : k = .page ∨ k = .pageTable)
    (hk : inv.cap.getCapType = .ok k) (hinv : invoke cfg invLabel reg inv k s = .ok v s') :
    Acts cfg pol e s₀ s' := by
  have hshield : Shielded cfg (fun f g => pol.dom f = pol.dom g) s := ⟨hguard, h.sealed.entries⟩
  have hframe : pol.dom inv.cap.getFrame = e := hcalls.within.frame hk (.inr (.inr hkind))
  have hslot : ∀ {u} d, Acts cfg pol e s₀ u →
      Acts cfg pol e s₀ (u.setCap inv.slot (inv.cap.setCapDepVal d)) := fun d hu =>
    hu.setCap hcalls.slot
      (hcalls.within.setCapDepVal (by rcases hkind with rfl | rfl <;> simp [hk]) d)
  obtain ⟨d, ⟨p, root, g, i, pte, hlookup, hreach, hg, hi, hknown, rfl⟩ | ⟨htable, rfl⟩⟩ :=
    hshield.mapping_cases hcond (hobj _ (.inl ⟨_, hcalls.cap⟩)) hkind hk hinv
  · have hroot := (h.sealed.lookupCap h.wf hcaps hcalls.root hlookup).frame
      (lookupCap_ok hlookup).2.2 (.inr (.inr (.inr rfl)))
    have hdom : pol.dom g = e := (pol.dom_of_reach hreach).trans hroot
    refine hslot d (h.setFrame (.inr rfl) hg (hdom ▸ pol.meets_self e) (fun a ha => ?_)
      (fun _ _ => .rfl) (h.sealed.entries.setWord h.wf hg hi fun hvalid => ?_))
    · refine Function.update_of_ne ?_ ..
      rw [entry]
      omega
    · exact (hknown hvalid).imp fun f hf => hdom.trans (hf ▸ hframe.symm)
  · obtain ⟨hwf, lvl, hp⟩ := hguard
    refine hslot d (h.setFrame (.inr rfl) htable (hframe ▸ pol.meets_self e) (fun a ha => ?_)
      (fun f hf => ?_) (h.sealed.entries.makeRoot hp hwf htable))
    · refine if_neg ?_
      rw [pageSize]
      omega
    · rw [List.mem_cons, or_iff_right hf]

end Acts

/-! ## One trap -/

namespace Acts

variable {s₀ : KState}

theorem invoke (h : Acts cfg pol e s₀ s) (hpaged : Paged cfg s) (hall : Allocated cfg s)
    (hcaps : CapsAll Confined s) (hobj : CapsAll ObjectCap s) {invLabel : InvLabel}
    {reg : Registers}
    {inv : Invocation} {k : CapabilityType} {v : Option Nat} (hcalls : CallOf pol e s inv)
    (hslot : s.isSlot inv.slot = true) (hcond : GuardedFits cfg invLabel reg s inv)
    (hk : inv.cap.getCapType = .ok k)
    (hinv : invoke cfg invLabel reg inv k s = .ok v s') : Acts cfg pol e s₀ s' := by
  cases k with
  | untyped => exact h.invokeUntyped hcaps hall hcalls hslot hk hcond.retypeFits hinv
  | cNode =>
    refine h.invokeCNode hcaps hcalls.root ⟨hk, hcaps _ (.inl ⟨_, hcalls.cap⟩), ?_⟩ hinv
    exact hcalls.within.frame hk (.inl rfl)
  | tcb => exact h.invokeTcb hcaps hcalls hk hinv
  | notification =>
    exact (invokeNotification hcalls.current (hcalls.within.channel hk (.inr rfl))).ok h hinv
  | endPoint =>
    exact (invokeEndPoint hcalls.current (hcalls.within.channel hk (.inl rfl))).ok h hinv
  | page => exact h.mapping hpaged hcaps hobj hcalls hcond.mapsBelowRoots (.inl rfl) hk hinv
  | pageTable => exact h.mapping hpaged hcaps hobj hcalls hcond.mapsBelowRoots (.inr rfl) hk hinv

/-- The scheduler writes time slices, and what belongs to nobody. -/
theorem schedule (h : Acts cfg pol e s₀ s) {u : Unit} (hsched : schedule cfg s = .ok u s') :
    Acts cfg pol e s₀ s' := by
  rcases schedule_cases hsched with ⟨-, rfl⟩ | ⟨-, next, rest, t, tc, r, a, -, ht, -, -, rfl⟩ |
    ⟨-, -, t, ht, ⟨-, rfl⟩ | ⟨-, a, rfl⟩⟩
  · exact h
  · exact (h.setTimeout ht _).of_eq r false next next a
  · exact h.setTimeout ht _
  · exact h.of_eq s.runqueue false cfg.idleThread cfg.idleThread a

theorem timerTick : Keeps (Acts cfg pol e s₀) (timerTick cfg) := by
  refine .get_bind fun s hs => ?_
  split
  · exact hs
  · refine Keeps.bind (.lift _) (fun _ => .bind (.liftExcept _) fun _ => .bind ?_ fun _ =>
      .ite requireSchedule (.pure _)) hs
    exact keeps_updateTcb fun _ _ ht hs => hs.setTimeout ht _

end Acts

/-- **A trap** of a thread changes nothing in domains that its own domain does not meet. -/
theorem Sealed.trap (hs : Sealed cfg pol s) (hguard : Guard cfg s) {regs : Registers}
    (hmeets : (Event.trap regs).Meets cfg (GuardedFits cfg) s) (h : Step cfg s (.trap regs) s') :
    Acts cfg pol (pol.owner s.current) s s' := by
  obtain ⟨t, u, v, ht, hentry, hu, hsched, hcases⟩ := step_trap h
  rw [hguard.mode.regBase] at ht hu hcases
  have hself : pol.Meets (pol.owner s.current) (pol.owner s.current) := pol.meets_self _
  have hstart : Acts cfg pol (pol.owner s.current) s u := by
    rw [hu]
    exact (Acts.start hguard.shielded.1.1 hs).setTcb ht hself fun slot _ he =>
      .inl (by cases slot <;> exact he)
  refine Acts.schedule ?_ hsched
  rcases hcases with htimer | ⟨-, ret, w, hret, hw⟩
  · exact Acts.timerTick.ok hstart htimer
  · obtain ⟨t', sepc, ht', -, rfl⟩ := returnSyscall_ok.1 hret
    have hacts : Acts cfg pol (pol.owner s.current) s w := by
      rcases hw with rfl | ⟨invLabel, inv, k, val, -, hinvk, hk, hinvoke⟩
      · exact hstart
      · have hpaged : Paged cfg u := hu ▸ hguard.shielded.1.setTcb ht _
        have hcaps : CapsAll Confined u := hu ▸ hguard.confined.setRegisters ht regs
        have hobj : CapsAll ObjectCap u := hu ▸ hguard.objects.setRegisters ht regs
        have hall : Allocated cfg u := hu ▸ hguard.allocated.of_eq rfl fun _ _ => rfl
        have htyped : TypedSlots cfg u := hu ▸ hguard.typed.setRegisters ht regs
        have hcur : u.current = s.current := by rw [hu]; rfl
        have hcalls := hstart.sealed.calls hstart.wf htyped hcaps hinvk.found
        rw [hcur] at hcalls
        obtain ⟨-, -, -, -, hslot, -⟩ := findInvocation_ok hinvk.found
        exact hstart.invoke hpaged hall hcaps hobj hcalls hslot (hmeets _ _ _ _ hinvk) hk hinvoke
    refine hacts.setTcb ht' hself fun slot _ he => .inl ?_
    cases slot <;> exact he

/-! ## The machine -/

/-- The table that `satp` points to and the current thread. -/
def Runs (satp current : Nat) (s : KState) : Prop := s.satp = satp ∧ s.current = current

theorem runs_trap {satp current : Nat} {u v : KState} {regs : Registers} (hs : Runs satp current s)
    (hentry : trapEntry regs s = .ok () u) (htrap : handleTrap cfg regs.scause.toNat u = .ok () v) :
    Runs satp current v := by
  have hI : CapStable cfg (fun _ _ _ => True) (Runs satp current) :=
    .of_slots (fun _ _ hs => hs) (fun _ _ _ _ _ _ _ hs => hs) fun s o _ hs =>
      ⟨(satp_born s o).trans hs.1, (current_born s o).trans hs.2⟩
  have hT : TrapStable (Runs satp current) :=
    ⟨⟨fun _ _ _ _ _ _ hs => hs, fun _ _ _ _ hs => hs, fun _ _ _ _ hs => hs⟩, fun _ _ hs => hs⟩
  have hrenews : Renews (Runs satp current) := by
    intro s o _ _ hs
    obtain ⟨tcbs, endpoints, notifications, h⟩ := renewed_cells s o
    rw [h]
    exact hs
  refine hI.trap hT .trivial (fun _ _ _ hs => hs) (.inl hrenews)
    (fun _ _ _ _ _ _ _ _ _ _ _ _ _ hu => hu)
    (fun _ _ _ _ _ _ _ _ _ _ _ _ => trivial) (fun _ _ u inv _ k v w hkind _ _ hu h => ?_)
    (capsAll_trivial s) hs hentry htrap
  rcases hkind with rfl | rfl
  · obtain ⟨_, _, _, -, -, ⟨-, -, -, -, rfl⟩ | ⟨-, -, -, -, -, rfl⟩⟩ := invokePage_cases h
    · exact hu
    · exact hu
  · obtain ⟨-, ⟨-, _, _, _, _, -, -, -, -, rfl⟩ | ⟨-, -, rfl⟩⟩ := invokePageTable_ok h
    · exact hu
    · exact hu

theorem current_of_not_switches {u : Unit} (hs : ¬s.Switches) (h : schedule cfg s = .ok u s') :
    s'.current = s.current := by
  rcases schedule_cases h with ⟨-, rfl⟩ | ⟨hreq, next, rest, _, _, _, _, hq, -, -, -, -⟩ |
    ⟨hreq, -, t, ht, ⟨-, rfl⟩ | ⟨hrun, -, -⟩⟩
  · rfl
  · exact (hs ⟨hreq, .inl (hq ▸ List.cons_ne_nil next rest)⟩).elim
  · rfl
  · exact (hs ⟨hreq, .inr ⟨t, ht, hrun⟩⟩).elim

/-- A sealed state, with the address space and the cached translations of the current thread. -/
structure SealedMachine (cfg : Config) (pol : Policy δ) (c : Cached) : Prop where
  guard : MachineGuard cfg c
  sealed : Sealed cfg pol c.kernel
  active : c.kernel.satp = imagePhys cfg.kernelVmRoot ∨
    pol.dom c.kernel.satp = pol.owner c.kernel.current
  tlb : ∀ t ∈ c.tlb, Sv48.user t.pte = true →
    pol.dom (Sv48.ppn t.pte * 2 ^ 12) = pol.owner c.kernel.current

namespace SealedMachine

/-- What the machine finds is in the domain of the current thread. -/
theorem translation {c : Cached} (hc : SealedMachine cfg pol c) {t : Translation}
    (h : t.Present c.kernel.mem c.kernel.satp) (hu : Sv48.user t.pte = true) :
    pol.dom (Sv48.ppn t.pte * 2 ^ 12) = pol.owner c.kernel.current := by
  obtain ⟨hwf, lvl, hp⟩ := hc.guard.guard.shielded.1
  obtain ⟨-, o, -, -, haddr, hreach⟩ :=
    hc.sealed.entries.user_walk hp hwf hc.guard.guard.active h hu
  rw [haddr, pol.dom_of_reach hreach.to_reflTransGen]
  refine hc.active.resolve_left fun hkernel => ?_
  rw [Translation.Present, hkernel] at h
  rw [hp.user_of_walk_static rfl h] at hu
  cases hu

/-- A store goes to a page of the domain of the current thread. -/
theorem store {c c' : Cached} {t : Translation} {v : Nat} {w : UInt64}
    (hc : SealedMachine cfg pol c) (h : MachineStep cfg c (.store t v w) c') :
    Acts cfg pol (pol.owner c.kernel.current) c.kernel c'.kernel := by
  cases h with
  | @store s tlb _ _ _ thread hidle hthread ht hcovers haligned hpermits =>
    have hspp := hc.guard.guard.mode.user _ _ hthread hidle
    rw [Translation.permitsStore, hspp, Bool.false_or] at hpermits
    have hu := (Bool.and_eq_true_iff.1 hpermits).2
    obtain ⟨hl, o, ho, hk, haddr⟩ := hc.guard.tlb t ht hu
    have hdom := hc.tlb t ht hu
    rw [haddr] at hdom
    have hstart : Acts cfg pol (pol.owner s.current) s s :=
      .start hc.guard.guard.shielded.1.1 hc.sealed
    refine hstart.setPage (KState.isObject_iff.2 ⟨o, ho, hk, rfl⟩) (hdom ▸ pol.meets_self _)
      fun a ha => Function.update_of_ne ?_ ..
    rw [t.target_of_page hl, haddr]
    omega

/-- A trap, with what the machine has cached after it. -/
theorem kernelStep {tlb tlb' : Set Translation} {regs : Registers}
    (hc : SealedMachine cfg pol ⟨s, tlb⟩) (hmeets : (Event.trap regs).Meets cfg (GuardedFits cfg) s)
    (h : Step cfg s (.trap regs) s') (htlb : tlb' ⊆ tlb)
    (hcur : ∀ t ∈ tlb', s'.current = s.current) :
    SealedMachine cfg pol ⟨s', tlb'⟩ ∧ Acts cfg pol (pol.owner s.current) s s' := by
  have hacts := hc.sealed.trap hc.guard.guard hmeets h
  refine ⟨⟨hc.guard.kernelStep hmeets h htlb, hacts.sealed, ?_,
    fun t ht hu => (hc.tlb t (htlb ht) hu).trans (by rw [hcur t ht])⟩, hacts⟩
  obtain ⟨u, v, hentry, htrap, hsched⟩ := step_parts h
  obtain ⟨hsatp, hvcur⟩ := runs_trap ⟨rfl, rfl⟩ hentry htrap
  rcases schedule_satp hsched with ⟨hsame, hsame'⟩ | hkernel | ⟨t, e, ht, he, -, hframe⟩
  · have hactive := hc.active
    dsimp only at hactive ⊢
    rwa [hsame, hsame', hsatp, hvcur]
  · exact .inl hkernel
  · exact .inr ((congrArg pol.dom hframe).trans (hacts.sealed.held _ t .vspace e ht he))

/-- **One step** of the machine. -/
theorem step {c c' : Cached} {ev : MachineEvent} (hc : SealedMachine cfg pol c)
    (hmeets : ev.Meets cfg (GuardedFits cfg) c.kernel) (h : MachineStep cfg c ev c') :
    SealedMachine cfg pol c' ∧ Acts cfg pol (pol.owner c.kernel.current) c.kernel c'.kernel := by
  cases ev with
  | access t =>
    have hnone : (MachineEvent.access t).Meets cfg (GuardedFits cfg) c.kernel := trivial
    have hguard := (hc.guard.step hnone h).1
    cases h with
    | access hpresent =>
      refine ⟨⟨hguard, hc.sealed, hc.active, ?_⟩, .start hc.guard.guard.shielded.1.1 hc.sealed⟩
      rintro t' (rfl | ht') hu
      · exact hc.translation hpresent hu
      · exact hc.tlb t' ht' hu
  | store t v w =>
    have hacts := hc.store h
    have hnone : (MachineEvent.store t v w).Meets cfg (GuardedFits cfg) c.kernel := trivial
    have hguard := (hc.guard.step hnone h).1
    cases h with
    | store => exact ⟨⟨hguard, hacts.sealed, hc.active, hc.tlb⟩, hacts⟩
  | trap regs =>
    cases h with
    | trap h =>
      cases h with
      | fenced hstep =>
        exact hc.kernelStep hmeets hstep (Set.empty_subset _) fun _ ht => ht.elim
      | unfenced hstep hentry htrap _ hswitch =>
        refine hc.kernelStep hmeets hstep (Set.Subset.refl _) fun _ _ => ?_
        obtain ⟨u', v', hentry', htrap', hsched⟩ := step_parts hstep
        obtain ⟨-, rfl⟩ := EStateM.Result.ok.inj (hentry.symm.trans hentry')
        obtain ⟨-, rfl⟩ := EStateM.Result.ok.inj (htrap.symm.trans htrap')
        exact (current_of_not_switches hswitch hsched).trans (runs_trap ⟨rfl, rfl⟩ hentry htrap).2

end SealedMachine

/-- The machine respects the policy. -/
theorem integrity_machine (cfg : Config) (pol : Policy δ) :
    Integrity (fun c c' => ∃ ev : MachineEvent,
        ev.Meets cfg (GuardedFits cfg) c.kernel ∧ MachineStep cfg c ev c')
      (SealedMachine cfg pol) (fun c => pol.owner c.kernel.current) pol.Meets
      fun d c c' => Unchanged cfg pol d c.kernel c'.kernel where
  refl d c := .refl d c.kernel
  trans h h' := h.trans h'
  keep hc h := by
    obtain ⟨ev, hmeets, hstep⟩ := h
    exact (hc.step hmeets hstep).1
  respect hc h hd := by
    obtain ⟨ev, hmeets, hstep⟩ := h
    exact (hc.step hmeets hstep).2.unchanged _ hd

/-- **Isolation.** From a sealed state in which what a run keeps holds, a sealed machine stays
sealed if every step meets what is left to the callers. As long as no thread of a domain runs that
may use an endpoint or a notification together with the domain `d`, nothing of `d` changes: the
capabilities in its CNodes (not the links of their slots), its threads up to their time slices, its
endpoints, notifications, pages and page tables. -/
theorem isolated_of_machineRun {d : δ} {c₀ c : Cached} (hc₀ : SealedMachine cfg pol c₀)
    (hrun : Relation.ReflTransGen (fun c c' => (∃ ev : MachineEvent,
      ev.Meets cfg (GuardedFits cfg) c.kernel ∧ MachineStep cfg c ev c') ∧
      ¬pol.Meets (pol.owner c.kernel.current) d) c₀ c) :
    SealedMachine cfg pol c ∧ Unchanged cfg pol d c₀.kernel c.kernel :=
  (integrity_machine cfg pol).same_of_run hc₀ hrun

/-! ### Three threads -/

namespace Cells

/-- One domain for each MiB. Threads of domains `0x805` and `0x808` may use the notification in
`0x806`; the thread of `0x807` is on its own. -/
def policy : Policy Nat where
  dom a := a / 2 ^ 20
  uses d x := d = x ∨ x = 0x806 ∧ (d = 0x805 ∨ d = 0x808)
  self _ := .inl rfl

/-- The first slot of the CNode of a domain. -/
def slot (m : Nat) : Nat := toKernelV (m * 2 ^ 20)

def thread (m : Nat) : Nat := toKernelV (m * 2 ^ 20 + 0x1000)

def ntfn : Nat := toKernelV 0x80600000

def cnodeCap (m : Nat) : CapabilityData := .new .cNode (m * 2 ^ 20) 1

def ntfnCap : CapabilityData := .new .notification 0x80600000 5

/-- The thread of `0x805` runs, and that of `0x808` waits for the notification. -/
def state : KState where
  slots p :=
    if p = slot 0x805 then some (.newWithRawcap ntfnCap)
    else if p = slot 0x807 then some (.newWithRawcap (cnodeCap 0x807))
    else none
  tcbs p :=
    if p = thread 0x805 then
      some { status := .runnable, rootCnode := some (.newWithRawcap (cnodeCap 0x805)),
             registers := { sstatus := 0x20 } }
    else if p = thread 0x807 then
      some { rootCnode := some (.newWithRawcap (cnodeCap 0x807)), registers := { sstatus := 0x20 } }
    else if p = thread 0x808 then some { status := .blocked, registers := { sstatus := 0x20 } }
    else none
  endpoints _ := none
  notifications p := if p = ntfn then some ⟨0, [thread 0x808], false⟩ else none
  mem := kernelVmWords .virt fun _ => 0
  objects := [⟨.cNode, 0x80500000, 1, 64⟩, ⟨.tcb, 0x80501000, 0, Config.virt.tcbSize⟩,
    ⟨.notification, 0x80600000, 0, Config.virt.notificationSize⟩, ⟨.cNode, 0x80700000, 1, 64⟩,
    ⟨.tcb, 0x80701000, 0, Config.virt.tcbSize⟩, ⟨.tcb, 0x80801000, 0, Config.virt.tcbSize⟩]
  rooted := []
  runqueue := []
  requested := false
  current := thread 0x805
  curRegBase := thread 0x805
  satp := imagePhys Config.virt.kernelVmRoot

theorem capAt_cases {p : Nat} {c : CapabilityData} (h : state.capAt p = some c) :
    p = slot 0x805 ∧ c = ntfnCap ∨ p = slot 0x807 ∧ c = cnodeCap 0x807 := by
  simp only [KState.capAt, state] at h
  split at h
  · next hp => exact .inl ⟨hp, (Option.some.inj h).symm⟩
  · split at h
    · next hp => exact .inr ⟨hp, (Option.some.inj h).symm⟩
    · cases h

theorem tcbs_cases {p : Nat} {t : ThreadInfo} (h : state.tcbs p = some t) :
    (∃ m, (m = 0x805 ∨ m = 0x807) ∧ p = thread m ∧
      t.rootCnode = some (.newWithRawcap (cnodeCap m)) ∧ t.vspace = none ∧ t.ipcBuffer = none ∧
      t.registers.spp = false) ∨
    p = thread 0x808 ∧ t.rootCnode = none ∧ t.vspace = none ∧ t.ipcBuffer = none ∧
      t.registers.spp = false := by
  simp only [state] at h
  split at h
  · next hp =>
    obtain rfl := Option.some.inj h
    exact .inl ⟨0x805, .inl rfl, hp, rfl, rfl, rfl, by decide⟩
  · split at h
    · next hp =>
      obtain rfl := Option.some.inj h
      exact .inl ⟨0x807, .inr rfl, hp, rfl, rfl, rfl, by decide⟩
    · split at h
      · next hp =>
        obtain rfl := Option.some.inj h
        exact .inr ⟨hp, rfl, rfl, rfl, by decide⟩
      · cases h

/-- Threads hold their root CNode, and nothing else. -/
theorem held_cases {p : Nat} {t : ThreadInfo} {slot : TcbSlot} {e : CNodeEntry}
    (ht : state.tcbs p = some t) (he : slot.get t = some e) :
    ∃ m, (m = 0x805 ∨ m = 0x807) ∧ p = thread m ∧ slot = .rootCnode ∧ e.cap = cnodeCap m := by
  rcases tcbs_cases ht with ⟨m, hm, hp, hroot, hv, hi, -⟩ | ⟨-, hroot, hv, hi, -⟩ <;> cases slot
  · exact ⟨m, hm, hp, rfl, by rw [← Option.some.inj (hroot.symm.trans he)]; rfl⟩
  · cases hv.symm.trans he
  · cases hi.symm.trans he
  · cases hroot.symm.trans he
  · cases hv.symm.trans he
  · cases hi.symm.trans he

theorem caps_cases {c : CapabilityData} (h : state.HasCap c) :
    c = ntfnCap ∨ c = cnodeCap 0x805 ∨ c = cnodeCap 0x807 := by
  rcases h with ⟨p, hp⟩ | ⟨p, t, slot, e, ht, he, rfl⟩
  · exact (capAt_cases hp).imp And.right fun h => .inr h.2
  · obtain ⟨m, rfl | rfl, -, -, hc⟩ := held_cases ht he
    · exact .inr (.inl hc)
    · exact .inr (.inr hc)

theorem heapWF : HeapWF .virt state := by
  refine ⟨by decide, by decide, by decide, fun p t ht => .inr ?_⟩
  rcases tcbs_cases ht with ⟨m, rfl | rfl, rfl, -⟩ | ⟨rfl, -⟩
  · exact ⟨_, .tail _ (.head _), rfl, by decide⟩
  · exact ⟨_, .tail _ (.tail _ (.tail _ (.tail _ (.head _)))), rfl, by decide⟩
  · exact ⟨_, .tail _ (.tail _ (.tail _ (.tail _ (.tail _ (.head _))))), rfl, by decide⟩

theorem not_isTable {f : Nat} : ¬state.IsTable f := by
  intro h
  obtain ⟨o, ho, hk, -⟩ := KState.isTable_iff.1 h
  have hnone : ∀ o ∈ state.objects, o.kind ≠ .pageTable := by decide
  exact hnone o ho hk

theorem guard : Guard .virt state where
  shielded := by
    refine ⟨⟨heapWF, fun _ => none, ⟨?_, ?_, ?_⟩, ?_, ?_, ?_, fun _ _ => rfl⟩, ?_⟩
    · exact fun h => (List.not_mem_nil h).elim
    · exact fun h => (Option.some_ne_none _ h.symm).elim
    · exact fun h => (Option.some_ne_none _ h.symm).elim
    · exact fun h => (Option.some_ne_none _ h.symm).elim
    · exact fun h => (not_isTable h).elim
    · exact fun _ h => (List.not_mem_nil h).elim
    · exact fun _ h => (not_isTable h).elim
  allocated := by
    -- there is no untyped capability
    have hnone : ∀ p c, ¬state.Untyped .virt p c := by
      rintro p c ⟨-, hcap, hk⟩
      rcases capAt_cases hcap with ⟨-, rfl⟩ | ⟨-, rfl⟩ <;> exact absurd hk (by decide)
    exact ⟨fun p c h => (hnone p c h).elim, fun p c h => (hnone p c h).elim,
      fun p c h => (hnone p c h).elim, fun p _ c _ h => (hnone p c h).elim⟩
  objects c hc k hk _ := by
    rcases caps_cases hc with rfl | rfl | rfl <;> obtain rfl := Except.ok.inj hk
    · exact ⟨_, .tail _ (.tail _ (.head _)), rfl, by decide⟩
    · exact ⟨_, .head _, rfl, by decide⟩
    · exact ⟨_, .tail _ (.tail _ (.tail _ (.head _))), rfl, by decide⟩
  confined c hc := by
    rcases caps_cases hc with rfl | rfl | rfl
    · exact ⟨fun hk => absurd hk (by decide), fun hk => absurd hk (by decide)⟩
    · exact ⟨fun _ => ⟨_, .head _, rfl, by decide, by decide⟩, fun hk => absurd hk (by decide)⟩
    · exact ⟨fun _ => ⟨_, .tail _ (.tail _ (.tail _ (.head _))), rfl, by decide, by decide⟩,
        fun hk => absurd hk (by decide)⟩
  typed p t slot e ht he := by
    obtain ⟨m, rfl | rfl, rfl, rfl, hc⟩ := held_cases ht he <;> rw [hc] <;> decide
  mode := by
    refine ⟨rfl, fun p t ht _ => ?_⟩
    rcases tcbs_cases ht with ⟨-, -, -, -, -, -, hspp⟩ | ⟨-, -, -, -, hspp⟩ <;> exact hspp
  active := .inr rfl

theorem sealedMachine : SealedMachine .virt policy ⟨state, ∅⟩ where
  guard := ⟨guard, fun _ ht => ht.elim⟩
  sealed :=
    { objects := by
        intro o ho a hle hlt
        have hobj : ∀ o ∈ state.objects, (o.addr + o.size - 1) / 2 ^ 20 = o.addr / 2 ^ 20 := by
          decide
        have := hobj o ho
        change a / 2 ^ 20 = o.addr / 2 ^ 20
        omega
      cnodes := by decide
      slots := by
        intro p c _ hc
        rcases capAt_cases hc with ⟨rfl, rfl⟩ | ⟨rfl, rfl⟩
        · exact .inr ⟨by decide, .inl (by decide)⟩
        · exact (by decide : policy.dom (cnodeCap 0x807).getFrame = policy.owner (slot 0x807))
      held := by
        intro p t slot e ht he
        obtain ⟨m, rfl | rfl, rfl, -, hc⟩ := held_cases ht he <;> rw [hc] <;> decide
      entries := fun _ h => (not_isTable h).elim
      endpoints := fun _ _ h => (Option.some_ne_none _ h.symm).elim
      notifications := by
        intro p n hn q hq
        simp only [state] at hn
        split at hn
        · next hp =>
          obtain rfl := Option.some.inj hn
          obtain rfl := List.mem_singleton.1 hq
          rw [hp]
          exact .inr ⟨by decide, .inr (by decide)⟩
        · cases hn }
  active := .inl rfl
  tlb _ ht := ht.elim

/-- The thread of `0x805` sends the signal, which wakes the thread of `0x808`. The domain `0x807` is
as before. -/
theorem isolated_after_signal : ∃ s', SealedMachine .virt policy ⟨state, ∅⟩ ∧
    MachineStep .virt ⟨state, ∅⟩ (.trap (ecallRegs 0 1 8)) ⟨s', ∅⟩ ∧ s'.runqueue = [thread 0x808] ∧
    SealedMachine .virt policy ⟨s', ∅⟩ ∧ Unchanged .virt policy 0x807 state s' := by
  obtain ⟨s', hstep, htest⟩ := exists_unfenced ∅ (by decide +kernel : unfencedTrap .virt state
    (ecallRegs 0 1 8) (fun s => s.runqueue = [thread 0x808]) = true)
  have hmeets : (Event.trap (ecallRegs 0 1 8)).Meets .virt (GuardedFits .virt) state :=
    Event.meets_of_eval (by decide +kernel)
  have hapart : ¬policy.Meets (policy.owner state.current) 0x807 := by
    have howner : policy.owner state.current = 0x805 := by decide
    rw [howner]
    rintro ⟨x, h | h, h' | h'⟩ <;> omega
  have hrun := isolated_of_machineRun sealedMachine
    (.single ⟨⟨.trap (ecallRegs 0 1 8), hmeets, .trap hstep⟩, hapart⟩)
  exact ⟨s', sealedMachine, .trap hstep, of_decide_eq_true htest, hrun⟩

end Cells

end Zoeax
