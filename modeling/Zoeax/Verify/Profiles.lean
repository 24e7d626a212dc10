import Zoeax.Lib.Checks
import Zoeax.Verify.Overflow
import Zoeax.Verify.Trace

/-!
# The build without overflow checks

`Config.unchecked` is the same kernel with wrapping arithmetic and without the check of
`slice::from_raw_parts_mut`. Every function of the kernel is compared with itself in that build: it
halts, or it does the same (`Checked`). The errors of a system call are part of what is compared,
since `handle_syscall` turns them into values.

`run_unchecked`: a run of the checked build, from boot on, is a run of the other one. Both have one
layout: `debug_assertions` also puts `tid` into a thread control block, which is 8 bytes longer with
it, so that two builds that differ there place their objects differently. What is compared with the
release build (`Config.virtRelease`) is that build with the checks switched on.
-/

namespace Zoeax

open Lib

/-- The same layout, built without the checks. -/
def Config.unchecked (cfg : Config) : Config := { cfg with profile := .release }

variable {cfg : Config}

/-! ## Arithmetic -/

section Arithmetic

variable {p : Profile} {a b n v : Nat}

theorem wrap_unchecked (h : p.wrap n = some v) : Profile.release.wrap n = some v := by
  unfold Profile.wrap at h ⊢
  split
  · next hn => rwa [if_pos hn] at h
  · next hn =>
    rw [if_neg hn] at h
    cases p with
    | debug => cases h
    | release => exact h

theorem sub_unchecked (h : p.sub a b = some v) : Profile.release.sub a b = some v := by
  unfold Profile.sub at h ⊢
  split
  · next hn => rwa [if_pos hn] at h
  · next hn =>
    rw [if_neg hn] at h
    cases p with
    | debug => cases h
    | release => exact h

theorem shiftAmount_unchecked (h : p.shiftAmount n = some v) :
    Profile.release.shiftAmount n = some v := by
  unfold Profile.shiftAmount at h ⊢
  split
  · next hn => rwa [if_pos hn] at h
  · next hn =>
    rw [if_neg hn] at h
    cases p with
    | debug => cases h
    | release => exact h

theorem shr_unchecked (h : p.shr a n = some v) : Profile.release.shr a n = some v := by
  obtain ⟨m, hm, rfl⟩ := Option.map_eq_some_iff.1 h
  exact Option.map_eq_some_iff.2 ⟨m, shiftAmount_unchecked hm, rfl⟩

theorem shl_unchecked (h : p.shl a n = some v) : Profile.release.shl a n = some v := by
  obtain ⟨m, hm, rfl⟩ := Option.map_eq_some_iff.1 h
  exact Option.map_eq_some_iff.2 ⟨m, shiftAmount_unchecked hm, rfl⟩

theorem alignUp_unchecked (h : alignUp p a b = some v) : alignUp .release a b = some v := by
  simp only [alignUp, Option.bind_eq_bind, Option.bind_eq_some_iff] at h ⊢
  obtain ⟨sum, hsum, top, htop, low, hlow, hv⟩ := h
  exact ⟨sum, wrap_unchecked hsum, top, sub_unchecked htop, low, sub_unchecked hlow, hv⟩

end Arithmetic

theorem checked_arith {α : Type} {x y : Option α} (h : ∀ a, x = some a → y = some a) :
    Checked Stop.Halts (arith x) (arith y) := by
  cases x with
  | some a =>
    rw [h a rfl]
    exact .refl _
  | none => exact .inr ⟨panicked, rfl, .panic, rfl⟩

/-! ## Retyping -/

theorem checked_getObjectSize (k : CapabilityType) (userSize : Nat) :
    Checked Stop.Halts (k.getObjectSize cfg userSize) (k.getObjectSize cfg.unchecked userSize) := by
  cases k with
  | cNode =>
    apply Checked.bind (checked_arith fun _ => wrap_unchecked)
    intro slots
    exact checked_arith fun _ => wrap_unchecked
  | _ => exact .refl _

theorem checked_getFreeBytes (c : CapabilityData) :
    Checked Stop.Halts (c.getFreeBytes cfg) (c.getFreeBytes cfg.unchecked) := by
  apply Checked.bind (checked_arith fun _ => wrap_unchecked)
  intro endAddress
  exact checked_arith fun _ => sub_unchecked

theorem checked_generator (k : CapabilityType) (num startAddress userSize objSize : Nat) :
    Checked Stop.Halts (CapGenerator.new cfg k num startAddress userSize objSize)
      (CapGenerator.new cfg.unchecked k num startAddress userSize objSize) := by
  apply Checked.bind (checked_arith fun _ => wrap_unchecked)
  intro total
  apply Checked.bind (checked_arith fun _ => wrap_unchecked)
  intro endAddress
  exact .refl _

theorem checked_next (g : CapGenerator) :
    Checked Stop.Halts (g.next cfg) (g.next cfg.unchecked) := by
  apply Checked.bind (.refl _)
  intro capDepVal
  apply Checked.bind (checked_arith fun _ => wrap_unchecked)
  intro address
  exact .refl _

theorem checked_retype (k : CapabilityType) (c : CapabilityData) (userSize num : Nat) :
    Checked Stop.Halts (c.retype cfg k userSize num) (c.retype cfg.unchecked k userSize num) := by
  apply Checked.bind (.refl _)
  intro _
  apply Checked.bind (checked_getObjectSize k userSize)
  intro size
  apply Checked.bind (checked_arith fun _ => wrap_unchecked)
  intro objectSize
  apply Checked.bind (checked_getFreeBytes c)
  intro freeBytes
  apply Checked.bind (.refl _)
  intro _
  apply Checked.bind (checked_arith fun _ => alignUp_unchecked)
  intro freeIdxAligned
  apply Checked.bind (checked_generator ..)
  intro gen
  exact .refl _

theorem checked_invokeRetype (c : CapabilityData) (userSize num : Nat) (newType : CapabilityType) :
    Checked Stop.Halts (c.invokeRetype cfg userSize num newType)
      (c.invokeRetype cfg.unchecked userSize num newType) := by
  cases newType with
  | untyped => exact .refl _
  | _ => exact checked_retype ..

theorem checked_insertNew (window parent : Nat) (g : CapGenerator) (cap : CapabilityData)
    (i : Nat) :
    Exec.Checked Stop.Halts (insertNew cfg window parent g cap i)
      (insertNew cfg.unchecked window parent g cap i) := by
  apply Exec.Checked.bind (.liftExcept (checked_getObjectSize ..))
  intro size
  exact .refl _

theorem checked_insertCaps (window parent n : Nat) (g : CapGenerator) (i : Nat) :
    Exec.Checked Stop.Halts (insertCaps cfg window parent n g i)
      (insertCaps cfg.unchecked window parent n g i) := by
  induction n generalizing g i with
  | zero => exact .refl _
  | succ n ih =>
    apply Exec.Checked.bind (.liftExcept (checked_next g))
    rintro ⟨cap, g'⟩
    apply Exec.Checked.bind (checked_insertNew ..)
    intro _
    exact ih g' (i + 1)

theorem checked_retypeAndInsert (slot window userSize num : Nat) (newType : CapabilityType) :
    Exec.Checked Stop.Halts (retypeAndInsert cfg slot window userSize num newType)
      (retypeAndInsert cfg.unchecked slot window userSize num newType) := by
  apply Exec.Checked.bind (.refl _)
  intro src
  apply Exec.Checked.bind (.refl _)
  intro _
  apply Exec.Checked.bind (.liftExcept (checked_invokeRetype ..))
  rintro ⟨c, gen⟩
  apply Exec.Checked.bind (.refl _)
  intro _
  exact checked_insertCaps ..

/-! ## Lookup -/

theorem checked_checkSlice (len : Nat) :
    Checked Stop.Halts (checkSlice cfg len) (checkSlice cfg.unchecked len) := by
  unfold checkSlice require
  split
  · exact .refl _
  · refine .inr ⟨_, rfl, ?_⟩
    split
    · exact ⟨.panic, rfl⟩
    · exact ⟨.undefined, rfl⟩

theorem checked_lookupStep (c : CapabilityData) (capptr depthBits : Nat) :
    Checked Stop.Halts (c.lookupStep cfg capptr depthBits)
      (c.lookupStep cfg.unchecked capptr depthBits) := by
  apply Checked.bind (.refl _)
  intro _
  apply Checked.bind (checked_arith fun _ => wrap_unchecked)
  intro capacity
  apply Checked.bind (checked_checkSlice capacity)
  intro _
  apply Checked.bind (checked_arith fun _ => shr_unchecked)
  intro shifted
  apply Checked.bind (checked_arith fun _ => shl_unchecked)
  intro top
  apply Checked.bind (checked_arith fun _ => sub_unchecked)
  intro mask
  exact .refl _

theorem checked_lookupLoop (n : Nat) (c : CapabilityData) (capptr depthBits : Nat) :
    Query.Checked Stop.Halts (CapabilityData.lookupLoop cfg n c capptr depthBits)
      (CapabilityData.lookupLoop cfg.unchecked n c capptr depthBits) := by
  induction n generalizing c depthBits with
  | zero => exact .refl _
  | succ n ih =>
    apply Query.Checked.bind (.liftExcept (checked_lookupStep ..))
    rintro ⟨p, rem⟩
    apply Query.Checked.bind (.refl _)
    intro slot
    cases slot with
    | none => exact .refl _
    | some e =>
      apply Query.Checked.ite (.refl _)
      apply Query.Checked.bind (.refl _)
      intro capType
      exact .ite (ih e.cap rem) (.refl _)

theorem checked_lookupEntryMut (c : CapabilityData) (capptr depthBits : Nat) :
    Query.Checked Stop.Halts (c.lookupEntryMut cfg capptr depthBits)
      (c.lookupEntryMut cfg.unchecked capptr depthBits) :=
  checked_lookupLoop ..

theorem checked_lookupTwoEntriesMut (c : CapabilityData) (capptr depth capptr2 depth2 : Nat) :
    Query.Checked Stop.Halts (c.lookupTwoEntriesMut cfg capptr depth capptr2 depth2)
      (c.lookupTwoEntriesMut cfg.unchecked capptr depth capptr2 depth2) := by
  apply Query.Checked.bind (checked_lookupEntryMut ..)
  intro entry1
  apply Query.Checked.bind (checked_lookupEntryMut ..)
  intro entry2
  exact .refl _

theorem checked_getWritable (c : CapabilityData) (num index : Nat) :
    Query.Checked Stop.Halts (c.getWritable cfg num index)
      (c.getWritable cfg.unchecked num index) := by
  apply Query.Checked.bind (.liftExcept (checked_arith fun _ => wrap_unchecked))
  intro capacity
  apply Query.Checked.bind (.refl _)
  intro _
  apply Query.Checked.bind (.liftExcept (checked_checkSlice num))
  intro _
  exact .refl _

theorem checked_writeSlot (c cap : CapabilityData) (index : Nat) :
    Exec.Checked Stop.Halts (c.writeSlot cfg cap index) (c.writeSlot cfg.unchecked cap index) := by
  apply Exec.Checked.bind (.liftExcept (checked_arith fun _ => wrap_unchecked))
  intro capacity
  apply Exec.Checked.bind (.refl _)
  intro _
  apply Exec.Checked.bind (.liftExcept (checked_checkSlice capacity))
  intro _
  exact .refl _

theorem checked_printSlots (c : CapabilityData) {sub sub' : CapabilityData → KR Unit}
    (hsub : ∀ c, (sub c).Checked Stop.Halts (sub' c)) (n i : Nat) :
    Query.Checked Stop.Halts (c.printSlots sub n i) (c.printSlots sub' n i) := by
  induction n generalizing i with
  | zero => exact .refl _
  | succ n ih =>
    apply Query.Checked.bind (.refl _)
    intro slot
    cases slot with
    | none => exact ih (i + 1)
    | some e =>
      cases h : e.cap.tryRefAs .cNode with
      | error err =>
        simp only [h]
        exact ih (i + 1)
      | ok u =>
        simp only [h]
        apply Query.Checked.ite (ih (i + 1))
        exact .bind (hsub e.cap) fun _ => ih (i + 1)

theorem checked_printLevel (fuel : Nat) (c : CapabilityData) :
    Query.Checked Stop.Halts (CapabilityData.printLevel cfg fuel c)
      (CapabilityData.printLevel cfg.unchecked fuel c) := by
  induction fuel generalizing c with
  | zero => exact .refl _
  | succ fuel ih =>
    apply Query.Checked.bind (.liftExcept (checked_arith fun _ => wrap_unchecked))
    intro capacity
    apply Query.Checked.bind (.liftExcept (checked_checkSlice capacity))
    intro _
    exact checked_printSlots c ih capacity 0

/-! ## Invocations -/

theorem checked_lookupCap (rootCnode : CapabilityData) (ptr depth : Nat) (k : CapabilityType) :
    Query.Checked Stop.Halts (lookupCap cfg rootCnode ptr depth k)
      (lookupCap cfg.unchecked rootCnode ptr depth k) := by
  apply Query.Checked.bind (checked_lookupEntryMut ..)
  intro slot
  exact .refl _

theorem checked_invokeUntyped (reg : Registers) (rootCnode : CapabilityData) (slot : Nat) :
    Exec.Checked Stop.Halts (invokeUntyped cfg reg rootCnode slot)
      (invokeUntyped cfg.unchecked reg rootCnode slot) := by
  apply Exec.Checked.bind (.refl _)
  intro newType
  apply Exec.Checked.bind (.lift (checked_lookupCap ..))
  rintro ⟨_, destCnodeCap⟩
  apply Exec.Checked.bind (.lift (checked_getWritable ..))
  intro window
  apply Exec.Checked.bind (checked_retypeAndInsert ..)
  intro _
  exact .refl _

theorem checked_invokeCNode (invLabel : InvLabel) (reg : Registers)
    (rootCnode destRoot : CapabilityData) :
    Exec.Checked Stop.Halts (invokeCNode cfg invLabel reg rootCnode destRoot)
      (invokeCNode cfg.unchecked invLabel reg rootCnode destRoot) := by
  apply Exec.Checked.bind (.lift (checked_lookupEntryMut ..))
  intro srcSlot
  apply Exec.Checked.bind (.refl _)
  intro srcEntry
  apply Exec.Checked.bind (.lift (checked_lookupEntryMut ..))
  intro destSlot
  exact .refl _

theorem checked_invokeTcb (invLabel : InvLabel) (reg : Registers) (ipcBuffer : Option Nat)
    (rootCnode tcbCap : CapabilityData) :
    Exec.Checked Stop.Halts (invokeTcb cfg invLabel reg ipcBuffer rootCnode tcbCap)
      (invokeTcb cfg.unchecked invLabel reg ipcBuffer rootCnode tcbCap) := by
  cases invLabel with
  | tcbConfigure =>
    apply Exec.Checked.bind (.lift (checked_lookupTwoEntriesMut ..))
    rintro ⟨cnodeSlot, vspaceSlot⟩
    exact .refl _
  | tcbSetIpcBuffer =>
    apply Exec.Checked.bind (.lift (checked_lookupCap ..))
    rintro ⟨pageSlot, _⟩
    exact .refl _
  | _ => exact .refl _

theorem checked_invokePage (invLabel : InvLabel) (reg : Registers) (rootCnode : CapabilityData)
    (slot : Nat) (pageCap : CapabilityData) :
    Exec.Checked Stop.Halts (invokePage cfg invLabel reg rootCnode slot pageCap)
      (invokePage cfg.unchecked invLabel reg rootCnode slot pageCap) := by
  cases invLabel with
  | pageMap =>
    apply Exec.Checked.bind (.refl _)
    intro _
    apply Exec.Checked.bind (.lift (checked_lookupCap ..))
    rintro ⟨_, root⟩
    exact .refl _
  | pageUnMap =>
    apply Exec.Checked.bind (.lift (checked_lookupCap ..))
    rintro ⟨_, root⟩
    exact .refl _
  | _ => exact .refl _

theorem checked_invokePageTable (invLabel : InvLabel) (reg : Registers)
    (rootCnode : CapabilityData) (slot : Nat) (pageTableCap : CapabilityData) :
    Exec.Checked Stop.Halts (invokePageTable cfg invLabel reg rootCnode slot pageTableCap)
      (invokePageTable cfg.unchecked invLabel reg rootCnode slot pageTableCap) := by
  cases invLabel with
  | pageTableMap =>
    apply Exec.Checked.bind (.refl _)
    intro _
    apply Exec.Checked.bind (.lift (checked_lookupCap ..))
    rintro ⟨_, root⟩
    exact .refl _
  | _ => exact .refl _

theorem checked_findInvocation (capPtr depth : Nat) :
    Query.Checked Stop.Halts (findInvocation cfg capPtr depth)
      (findInvocation cfg.unchecked capPtr depth) := by
  apply Query.Checked.bind (.refl _)
  intro s
  apply Query.Checked.bind (.refl _)
  intro tcb
  cases tcb.rootCnode with
  | none => exact .refl _
  | some root =>
    apply Query.Checked.bind (checked_lookupEntryMut ..)
    intro slot
    exact .refl _

theorem checked_invoke (invLabel : InvLabel) (reg : Registers) (inv : Invocation)
    (k : CapabilityType) :
    Exec.Checked Stop.Halts (invoke cfg invLabel reg inv k)
      (invoke cfg.unchecked invLabel reg inv k) := by
  cases k with
  | untyped => exact checked_invokeUntyped ..
  | cNode => exact checked_invokeCNode ..
  | tcb => exact checked_invokeTcb ..
  | notification => exact .refl _
  | endPoint => exact .refl _
  | page => exact checked_invokePage ..
  | pageTable => exact checked_invokePageTable ..

/-! ## Traps -/

theorem checked_handlePrint (invLabel : InvLabel) :
    Exec.Checked Stop.Halts (handlePrint cfg invLabel) (handlePrint cfg.unchecked invLabel) := by
  cases invLabel with
  | cNodeTraverse =>
    apply Exec.Checked.bind (.refl _)
    intro s
    apply Exec.Checked.bind (.refl _)
    intro t
    cases t.rootCnode with
    | none => exact .refl _
    | some root =>
      apply Exec.Checked.bind (.lift (checked_printLevel ..))
      intro _
      exact .refl _
  | _ => exact .refl _

theorem checked_dispatchSyscall (reg : Registers) :
    Exec.Checked Stop.Halts (dispatchSyscall cfg reg) (dispatchSyscall cfg.unchecked reg) := by
  unfold dispatchSyscall
  cases InvLabel.ofUsize? reg.a2.toNat with
  | none => exact .refl _
  | some invLabel =>
    apply Exec.Checked.ite (checked_handlePrint invLabel)
    apply Exec.Checked.bind (.lift (checked_findInvocation ..))
    intro inv
    apply Exec.Checked.bind (.refl _)
    intro capType
    exact checked_invoke ..

/-- A halt is not caught. -/
theorem checked_catchErr {α : Type} {x y : KM α} (h : Exec.Checked Stop.Halts x y) :
    Exec.Checked Stop.Halts (catchErr x) (catchErr y) := by
  constructor
  intro s
  unfold catchErr
  rcases h.from_state s with hs | ⟨_, t, hs, halt, rfl⟩
  · rw [hs]
    exact .inl rfl
  · rw [hs]
    exact .inr ⟨.halt halt, t, rfl, halt, rfl⟩

theorem checked_returnSyscall (thread : Nat) (ret : Except KernelError (Option Nat)) :
    Exec.Checked Stop.Halts (returnSyscall cfg thread ret)
      (returnSyscall cfg.unchecked thread ret) := by
  apply Exec.Checked.bind (.refl _)
  intro t
  apply Exec.Checked.bind (.liftExcept (checked_arith fun _ => wrap_unchecked))
  intro sepc
  exact .refl _

theorem checked_timerTick : Exec.Checked Stop.Halts (timerTick cfg) (timerTick cfg.unchecked) := by
  apply Exec.Checked.bind (.refl _)
  intro s
  apply Exec.Checked.ite (.refl _)
  apply Exec.Checked.bind (.refl _)
  intro t
  apply Exec.Checked.bind (.liftExcept (checked_arith fun _ => sub_unchecked))
  intro timeSlice
  exact .refl _

theorem checked_handleSyscall :
    Exec.Checked Stop.Halts (handleSyscall cfg) (handleSyscall cfg.unchecked) := by
  apply Exec.Checked.bind (.refl _)
  intro s
  apply Exec.Checked.bind (.refl _)
  intro t
  apply Exec.Checked.bind (checked_catchErr (checked_dispatchSyscall _))
  intro ret
  exact checked_returnSyscall ..

theorem checked_handleTrap (scause : Nat) :
    Exec.Checked Stop.Halts (handleTrap cfg scause) (handleTrap cfg.unchecked scause) :=
  .ite (.ite checked_timerTick (.refl _)) (.ite checked_handleSyscall (.refl _))

theorem checked_exec (ev : Event) :
    Exec.Checked Stop.Halts (ev.exec cfg) (ev.exec cfg.unchecked) := by
  cases ev with
  | store a w => exact .refl _
  | trap regs =>
    apply Exec.Checked.bind (.refl _)
    intro _
    apply Exec.Checked.bind (checked_handleTrap _)
    intro _
    exact .refl _

/-! ## Boot -/

theorem checked_unwrap {α : Type} {x y : KM α} (h : Exec.Checked Stop.Halts x y) :
    Exec.Checked Stop.Halts (unwrap x) (unwrap y) := by
  constructor
  intro s
  unfold unwrap
  rcases h.from_state s with hs | ⟨_, t, hs, halt, rfl⟩
  · rw [hs]
    exact .inl rfl
  · rw [hs]
    exact .inr ⟨.halt halt, t, rfl, halt, rfl⟩

theorem checked_allocObj (m : ResourceManager) (k : CapabilityType) (userSize : Nat) :
    Checked Stop.Halts (m.allocObj cfg k userSize) (m.allocObj cfg.unchecked k userSize) := by
  apply Checked.bind (checked_getObjectSize ..)
  intro size
  apply Checked.bind (checked_arith fun _ => alignUp_unchecked)
  intro bytes
  exact .refl _

theorem checked_initWithUninit (m : ResourceManager) :
    Checked Stop.Halts (RootServerMemory.initWithUninit cfg m)
      (RootServerMemory.initWithUninit cfg.unchecked m) := by
  apply Checked.bind (checked_allocObj ..)
  rintro ⟨cnode, m⟩
  apply Checked.bind (checked_allocObj ..)
  rintro ⟨vspace, m⟩
  apply Checked.bind (checked_allocObj ..)
  rintro ⟨tcb, m⟩
  apply Checked.bind (checked_allocObj ..)
  rintro ⟨ipcBuf, m⟩
  apply Checked.bind (checked_allocObj ..)
  rintro ⟨bootFrame, m⟩
  exact .refl _

theorem checked_bootObject (k : CapabilityType) (addr userSize : Nat) :
    Exec.Checked Stop.Halts (bootObject cfg k addr userSize)
      (bootObject cfg.unchecked k addr userSize) := by
  apply Exec.Checked.bind (.liftExcept (checked_getObjectSize ..))
  intro size
  exact .refl _

theorem checked_createRootCnode (cnode : Nat) :
    Exec.Checked Stop.Halts (createRootCnode cfg cnode) (createRootCnode cfg.unchecked cnode) := by
  apply Exec.Checked.bind (checked_bootObject ..)
  intro _
  apply Exec.Checked.bind (.refl _)
  intro cap
  apply Exec.Checked.bind (checked_unwrap (checked_writeSlot ..))
  intro _
  exact .refl _

theorem checked_mapPageTables (cnodeCap rootTableCap : CapabilityData) (vaddr n : Nat)
    (m : ResourceManager) :
    Exec.Checked Stop.Halts (mapPageTables cfg cnodeCap rootTableCap vaddr n m)
      (mapPageTables cfg.unchecked cnodeCap rootTableCap vaddr n m) := by
  induction n generalizing m with
  | zero => exact .refl _
  | succ n ih =>
    apply Exec.Checked.bind (.refl _)
    rintro ⟨addr, m⟩
    apply Exec.Checked.bind (checked_bootObject ..)
    intro _
    apply Exec.Checked.bind (.refl _)
    intro cap
    apply Exec.Checked.bind (.refl _)
    rintro ⟨idx, m⟩
    apply Exec.Checked.bind (checked_unwrap (checked_writeSlot ..))
    intro _
    apply Exec.Checked.bind (.refl _)
    rintro ⟨_, level⟩
    exact .ite (.refl _) (ih m)

theorem checked_createMappedPageCap (cnodeCap rootTableCap : CapabilityData) (m : ResourceManager)
    (paddr vaddr flags : Nat) :
    Exec.Checked Stop.Halts (createMappedPageCap cfg cnodeCap rootTableCap m paddr vaddr flags)
      (createMappedPageCap cfg.unchecked cnodeCap rootTableCap m paddr vaddr flags) := by
  apply Exec.Checked.bind (checked_bootObject ..)
  intro _
  apply Exec.Checked.bind (.refl _)
  intro pageCap
  apply Exec.Checked.bind (.refl _)
  intro first
  cases first with
  | ok cap => exact .refl _
  | error e =>
    refine .ite ?_ (.refl _)
    apply Exec.Checked.bind (checked_mapPageTables ..)
    intro m
    exact .refl _

theorem checked_mapProgramPage (cnodeCap rootTableCap : CapabilityData) (h : Phdr) (em : ElfMapper)
    (pageIdx : Nat) :
    Exec.Checked Stop.Halts (mapProgramPage cfg cnodeCap rootTableCap h em pageIdx)
      (mapProgramPage cfg.unchecked cnodeCap rootTableCap h em pageIdx) := by
  apply Exec.Checked.bind (.liftExcept (checked_arith fun _ => wrap_unchecked))
  intro vaddr
  apply Exec.Checked.bind (.refl _)
  rintro ⟨addr, m⟩
  apply Exec.Checked.bind (checked_createMappedPageCap ..)
  rintro ⟨pageCap, m⟩
  apply Exec.Checked.bind (.refl _)
  rintro ⟨idx, m⟩
  apply Exec.Checked.bind (checked_unwrap (checked_writeSlot ..))
  intro _
  exact .refl _

theorem checked_mapPages (cnodeCap rootTableCap : CapabilityData) (h : Phdr) (n i : Nat)
    (em : ElfMapper) :
    Exec.Checked Stop.Halts (mapPages cfg cnodeCap rootTableCap h n i em)
      (mapPages cfg.unchecked cnodeCap rootTableCap h n i em) := by
  induction n generalizing i em with
  | zero => exact .refl _
  | succ n ih =>
    apply Exec.Checked.bind (checked_mapProgramPage ..)
    intro em
    exact ih (i + 1) em

theorem checked_mapSelf (cnodeCap rootTableCap : CapabilityData) (hs : List Phdr)
    (em : ElfMapper) :
    Exec.Checked Stop.Halts (mapSelf cfg cnodeCap rootTableCap hs em)
      (mapSelf cfg.unchecked cnodeCap rootTableCap hs em) := by
  induction hs generalizing em with
  | nil => exact .refl _
  | cons h hs ih =>
    refine Exec.Checked.bind (.ite ?_ (.refl _)) ih
    apply Exec.Checked.bind (.liftExcept (checked_arith fun _ => alignUp_unchecked))
    intro bytes
    exact checked_mapPages ..

theorem checked_createAddressSpace (vspace : Nat) (cnodeCap : CapabilityData) (image : Image)
    (m : ResourceManager) :
    Exec.Checked Stop.Halts (createAddressSpace cfg vspace cnodeCap image m)
      (createAddressSpace cfg.unchecked vspace cnodeCap image m) := by
  apply Exec.Checked.bind (checked_bootObject ..)
  intro _
  apply Exec.Checked.bind (.refl _)
  intro _
  apply Exec.Checked.bind (.refl _)
  intro cap
  apply Exec.Checked.bind (.refl _)
  intro cap
  apply Exec.Checked.bind (checked_unwrap (checked_writeSlot ..))
  intro _
  apply Exec.Checked.bind (checked_mapSelf ..)
  intro em
  exact .refl _

theorem checked_createFrame (frame : Nat) (cnodeCap vspaceCap : CapabilityData)
    (maxVaddr flags idx : Nat) (m : ResourceManager) :
    Exec.Checked Stop.Halts (createFrame cfg frame cnodeCap vspaceCap maxVaddr flags idx m)
      (createFrame cfg.unchecked frame cnodeCap vspaceCap maxVaddr flags idx m) := by
  apply Exec.Checked.bind (.liftExcept (checked_arith fun _ => wrap_unchecked))
  intro vaddr
  apply Exec.Checked.bind (checked_createMappedPageCap ..)
  rintro ⟨pageCap, m⟩
  apply Exec.Checked.bind (checked_unwrap (checked_writeSlot ..))
  intro _
  exact .refl _

theorem checked_holdRootCap (slot : TcbSlot) (site : Site) (thread : Nat)
    (cnodeCap cap : CapabilityData) (idx : Nat) :
    Exec.Checked Stop.Halts (holdRootCap cfg slot site thread cnodeCap cap idx)
      (holdRootCap cfg.unchecked slot site thread cnodeCap cap idx) := by
  apply Exec.Checked.bind (checked_unwrap (.lift (checked_lookupEntryMut ..)))
  intro parent
  exact .refl _

theorem checked_createRootTcb (tcb : Nat) (cnodeCap vspaceCap ipcBufCap : CapabilityData)
    (entryPoint : UInt64) :
    Exec.Checked Stop.Halts (createRootTcb cfg tcb cnodeCap vspaceCap ipcBufCap entryPoint)
      (createRootTcb cfg.unchecked tcb cnodeCap vspaceCap ipcBufCap entryPoint) := by
  apply Exec.Checked.bind (checked_bootObject ..)
  intro _
  apply Exec.Checked.bind (.refl _)
  intro _
  apply Exec.Checked.bind (checked_holdRootCap ..)
  intro _
  apply Exec.Checked.bind (checked_holdRootCap ..)
  intro _
  apply Exec.Checked.bind (checked_holdRootCap ..)
  intro _
  apply Exec.Checked.bind (.refl _)
  intro cap
  apply Exec.Checked.bind (checked_unwrap (checked_writeSlot ..))
  intro _
  exact .refl _

theorem checked_untypedNext (g : UntypedCapGenerator) :
    Checked Stop.Halts (g.next cfg) (g.next cfg.unchecked) := by
  apply Checked.bind (checked_arith fun _ => wrap_unchecked)
  intro bound
  split
  · exact .refl _
  · apply Checked.bind (.refl _)
    intro _
    apply Checked.bind (checked_arith fun _ => sub_unchecked)
    intro blockSize
    apply Checked.bind (.refl _)
    intro untypedCap
    apply Checked.bind (checked_arith fun _ => wrap_unchecked)
    intro startAddress
    exact .refl _

theorem checked_insertUntyped (cnodeCap : CapabilityData) (n : Nat) (g : UntypedCapGenerator)
    (info : BootInfo) :
    Exec.Checked Stop.Halts (insertUntyped cfg cnodeCap n g info)
      (insertUntyped cfg.unchecked cnodeCap n g info) := by
  induction n generalizing g info with
  | zero =>
    apply Exec.Checked.bind (.liftExcept (checked_untypedNext g))
    intro next
    exact .refl _
  | succ n ih =>
    apply Exec.Checked.bind (.liftExcept (checked_untypedNext g))
    intro next
    cases next with
    | none => exact .refl _
    | some next =>
      obtain ⟨idx, cap, g'⟩ := next
      apply Exec.Checked.bind (checked_unwrap (checked_writeSlot ..))
      intro _
      exact ih ..

theorem checked_createRootSpaces (image : Image) (mem : RootServerMemory) (m : ResourceManager) :
    Exec.Checked Stop.Halts (createRootSpaces cfg image mem m)
      (createRootSpaces cfg.unchecked image mem m) := by
  apply Exec.Checked.bind (checked_createRootCnode _)
  intro rootCnodeCap
  apply Exec.Checked.bind (checked_createAddressSpace ..)
  rintro ⟨vspaceCap, em⟩
  apply Exec.Checked.bind (checked_createFrame ..)
  rintro ⟨ipcPageCap, m⟩
  apply Exec.Checked.bind (.liftExcept (checked_arith fun _ => wrap_unchecked))
  intro ipcVaddr
  apply Exec.Checked.bind (checked_createFrame ..)
  rintro ⟨_, m⟩
  exact .refl _

theorem checked_createRootThread (image : Image) (mem : RootServerMemory) (r : RootSpaces) :
    Exec.Checked Stop.Halts (createRootThread cfg image mem r)
      (createRootThread cfg.unchecked image mem r) := by
  apply Exec.Checked.bind (checked_createRootTcb ..)
  intro rootTcb
  apply Exec.Checked.bind (checked_insertUntyped ..)
  intro info
  apply Exec.Checked.bind (.refl _)
  intro _
  apply Exec.Checked.bind (.liftExcept (checked_arith fun _ => wrap_unchecked))
  intro a0
  exact .refl _

theorem checked_initKernel (image : Image) :
    Exec.Checked Stop.Halts (initKernel cfg image) (initKernel cfg.unchecked image) := by
  apply Exec.Checked.bind (.refl _)
  intro _
  apply Exec.Checked.bind (.refl _)
  intro _
  apply Exec.Checked.bind (.liftExcept (checked_initWithUninit _))
  rintro ⟨mem, m⟩
  refine Exec.Checked.bind ?_ fun info => .refl _
  apply Exec.Checked.bind (checked_createRootSpaces ..)
  intro r
  apply Exec.Checked.bind (.refl _)
  intro _
  apply Exec.Checked.bind (checked_createRootThread ..)
  rintro ⟨rootTcb, info⟩
  exact .refl _

/-! ## Runs -/

theorem step_unchecked {s s' : KState} {ev : Event} (h : Step cfg s ev s') :
    Step cfg.unchecked s ev s' := ⟨h.1, (checked_exec ev).ok h.2⟩

/-- **The build without checks does what the checked build of the same layout does**, from boot on,
until the checked build halts. -/
theorem run_unchecked {image : Image} {C : InvokeCond} {s₀ s : KState} (hboot : Boot cfg image s₀)
    (hrun : Run cfg C s₀ s) :
    Boot cfg.unchecked image s₀ ∧ Run cfg.unchecked (fun _ _ _ _ => True) s₀ s ∧
      ∀ ev : Event, ev.exec cfg s = ev.exec cfg.unchecked s ∨
        ∃ halt s', ev.exec cfg s = .error (.halt halt) s' := by
  refine ⟨?_, ?_, ?_⟩
  · obtain ⟨info, h⟩ := hboot
    exact ⟨info, (checked_initKernel image).ok h⟩
  · refine Relation.ReflTransGen.mono ?_ _ _ hrun
    rintro u v ⟨ev, -, hstep⟩
    exact ⟨ev, fun _ _ _ _ _ => trivial, step_unchecked hstep⟩
  · intro ev
    have hexec : Exec.Checked Stop.Halts (ev.exec cfg) (ev.exec cfg.unchecked) := checked_exec ev
    rcases hexec.from_state s with h | ⟨_, s', h, halt, rfl⟩
    · exact .inl h
    · exact .inr ⟨halt, s', h⟩

/-- The root server makes a thread in slot 19. The layout is that of the release build. -/
theorem run_unchecked_after_retype : ∃ s₀ s, Boot Config.virtRelease.checked demoImage s₀ ∧
    Run Config.virtRelease.checked (fun _ _ _ _ => True) s₀ s ∧
    s.objects.any (·.addr = 2160095232) = true ∧
    Boot .virtRelease demoImage s₀ ∧ Run .virtRelease (fun _ _ _ _ => True) s₀ s := by
  obtain ⟨s₀, s, hboot, hrun, htest⟩ := exists_run_of_trace Config.virtRelease.checked
    (fun _ _ _ _ => True) demoImage
    [.trap { ecallRegs 9 18 2 with a3 := 2, a4 := 81604378642, a5 := 1, a6 := 3 }]
    (fun s => s.objects.any (·.addr = 2160095232)) (by decide +kernel)
  obtain ⟨hboot', hrun', -⟩ := run_unchecked hboot hrun
  exact ⟨s₀, s, hboot, hrun, htest, hboot', hrun'⟩

end Zoeax
