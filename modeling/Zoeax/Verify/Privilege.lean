import Zoeax.Verify.Guards

/-!
# The mode of user threads

`return_to_user` restores the saved `sstatus` of the current thread and leaves the kernel with
`sret`: a thread whose saved `sstatus` has the SPP bit set continues in supervisor mode.

Every thread but the idle thread starts with the bit clear, and a trap saves the bit with which the
thread was running. `TcbWriteReg` is the only other writer of a saved `sstatus`, and it takes the
word from the caller's IPC buffer as it is. `userMode_of_run`: as long as that word has the bit
clear, user threads stay in user mode, if nothing else than the kernel writes to thread control
blocks; so the run has to meet the other conditions of `Verify/Guards.lean`, too.
`supervisor_after_writeReg`: two events after boot the root server is about to continue in
supervisor mode.
-/

namespace Zoeax

open Lib Exec

/-- The saved `sstatus` of every thread but the idle thread has SPP clear, and the registers are
saved to and restored from the current thread. -/
structure UserMode (cfg : Config) (s : KState) : Prop where
  regBase : s.curRegBase = s.current
  user : ∀ p t, s.tcbs p = some t → p ≠ cfg.idleThread → t.registers.spp = false

variable {cfg : Config} {s : KState}

theorem spp_of_sstatus {r r' : Registers} (h : r.sstatus = r'.sstatus) : r.spp = r'.spp := by
  rw [Registers.spp, h, Registers.spp]

namespace UserMode

theorem setTcb (hs : UserMode cfg s) {p : Nat} {t : ThreadInfo}
    (ht : p ≠ cfg.idleThread → t.registers.spp = false) : UserMode cfg (s.setTcb p t) where
  regBase := hs.regBase
  user q t' hq hne := by
    rw [KState.tcbs_setTcb] at hq
    split at hq
    · next heq =>
      obtain rfl := Option.some.inj hq
      exact ht (heq ▸ hne)
    · exact hs.user q t' hq hne

/-- A thread keeps its saved `sstatus`. -/
theorem setTcb_same (hs : UserMode cfg s) {p : Nat} {t t' : ThreadInfo} (ht : s.tcbs p = some t)
    (h : t'.registers.sstatus = t.registers.sstatus) : UserMode cfg (s.setTcb p t') :=
  hs.setTcb fun hne => (spp_of_sstatus h).trans (hs.user p t ht hne)

theorem born (hs : UserMode cfg s) (o : Object) : UserMode cfg (s.born o) where
  regBase := by simpa using hs.regBase
  user p t ht hne := by
    rw [tcbs_born] at ht
    split at ht
    · obtain rfl := Option.some.inj ht
      decide
    · exact hs.user p t ht hne

theorem renewed (hs : UserMode cfg s) (o : Object) : UserMode cfg (s.renewed o) where
  regBase := by
    obtain ⟨t, e, n, h⟩ := renewed_cells s o
    rw [h]
    exact hs.regBase
  user p t ht hne := by
    rw [tcbs_renewed] at ht
    split at ht
    · obtain rfl := Option.some.inj ht
      decide
    · exact hs.user p t ht hne

end UserMode

theorem userMode_bootStable : BootStable cfg (fun _ _ _ => True) (UserMode cfg) where
  toCapStable := .of_slots (fun _ _ hs => ⟨hs.regBase, hs.user⟩)
    (fun _ _ _ slot _ ht _ hs => hs.setTcb_same ht (by cases slot <;> rfl))
    fun _ o _ hs => hs.born o
  mem _ _ hs := ⟨hs.regBase, hs.user⟩
  root _ _ hs := ⟨hs.regBase, hs.user⟩
  regs s p t r _ ht hr hs := hs.setTcb fun hne => by
    rcases hr with hr | hr
    · exact (spp_of_sstatus hr).trans (hs.user p t ht hne)
    · rw [Registers.spp, hr]
      decide
  refill _ _ _ slot _ ht hs := hs.setTcb_same ht (by cases slot <;> rfl)

theorem userMode_threadStable : ThreadStable (UserMode cfg) where
  tcb _ _ _ _ ht ha hs := hs.setTcb_same ht ha.sstatus
  queues _ _ _ _ hs := ⟨hs.regBase, hs.user⟩
  request _ _ hs := ⟨hs.regBase, hs.user⟩
  vspace _ _ hs := ⟨hs.regBase, hs.user⟩
  switch _ _ hs := ⟨rfl, hs.user⟩
  copy _ _ _ _ hs := ⟨hs.regBase, hs.user⟩

theorem userMode_boot {image : Image} (h : Boot cfg image s) : UserMode cfg s := by
  refine userMode_bootStable.boot userMode_threadStable .trivial ?_ ?_ h
  · intro s s' u hs hidle
    obtain ⟨t, -, rfl⟩ := createIdleThread_ok.1 hidle
    exact ⟨rfl, (hs.setTcb fun hne => absurd rfl hne).user⟩
  · refine ⟨rfl, fun p t ht hne => ?_⟩
    simp only [KState.initial, Function.update_of_ne hne] at ht
    cases ht

/-- A trap saves the mode in which the thread was running. -/
theorem UserMode.trapEntry (hs : UserMode cfg s) {regs : Registers} {t : ThreadInfo}
    (hen : (Event.trap regs).Enabled s) (ht : s.tcbs s.curRegBase = some t) :
    UserMode cfg (s.setTcb s.curRegBase { t with registers := regs }) := by
  refine hs.setTcb fun hne => ?_
  rw [hs.regBase] at ht hne
  exact (hen.1 t ht).trans (hs.user _ t ht hne)

/-- `TcbWriteReg` with SPP clear. -/
theorem statusWordClean_keeps {invLabel : InvLabel} {reg : Registers} {u : KState}
    {inv : Invocation} (h : StatusWordClean cfg invLabel reg u inv) :
    WriteRegKeeps cfg (UserMode cfg) invLabel reg u inv := by
  intro b regs t hl hk hb hread _ hu
  refine hu.setTcb fun _ => ?_
  simp only [readRegisters, Query.bind_ok, Query.read_ok, exists_eq_left'] at hread
  split at hread
  · obtain rfl := Query.pure_ok.1 hread
    exact h hl hk b hb
  · exact (Query.throw_ok.1 hread).elim

theorem UserMode.step {s' : KState} {ev : Event} (hs : UserMode cfg s)
    (hclean : ev.Meets cfg (StatusWordClean cfg) s) (h : Step cfg s ev s') : UserMode cfg s' := by
  refine userMode_bootStable.toMapStable.step userMode_threadStable .trivial ?_
    (.inl fun _ o _ _ hs => hs.renewed o) ?_ ?_ (capsAll_trivial s) hs h
  · rintro regs t rfl ht - hs
    exact hs.trapEntry h.1 ht
  · exact fun _ _ _ _ hinv => statusWordClean_keeps (hclean _ _ _ _ hinv)
  · exact fun _ _ _ _ _ _ _ _ _ _ _ _ => trivial

end Zoeax
