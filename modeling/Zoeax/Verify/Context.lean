import Zoeax.Kernel.Handler
import Zoeax.Verify.Threads

/-!
# Context switches

`trap_entry` uses two registers to find the record of the current thread, and gets their values back
from `sscratch` and from `CPU_VAR`; `return_to_user` uses two, and loads them last. The rules for
blocks of stores and loads take care of the other registers (`trapEntryCode_run`,
`returnToUserCode_run`).

The two go by different pointers: one by `CPU_VAR.cur_reg_base`, the other by `CURRENT_PROC`. They
agree in all states (`OnCpu`), so that the code of `trap_entry` does to the state what the model's
`trapEntry` does (`Round.ok`), and threads keep their registers (`context_of_rounds`). What the
kernel does in between is the model's: a round in which a call leaves the live objects is no round
here.
-/

namespace Zoeax

open Lib Exec Lib.Rv64

/-! ## Records -/

theorem Registers.ext_gpr {a b : Registers} (hgpr : ∀ r, a.gpr r = b.gpr r)
    (hscause : a.scause = b.scause) (hsstatus : a.sstatus = b.sstatus) (hsepc : a.sepc = b.sepc) :
    a = b := by
  cases a
  cases b
  simp only [Registers.mk.injEq]
  exact ⟨hgpr .ra, hgpr .sp, hgpr .gp, hgpr .tp, hgpr .t0, hgpr .t1, hgpr .t2, hgpr .t3, hgpr .t4,
    hgpr .t5, hgpr .t6, hgpr .a0, hgpr .a1, hgpr .a2, hgpr .a3, hgpr .a4, hgpr .a5, hgpr .a6,
    hgpr .a7, hgpr .s0, hgpr .s1, hgpr .s2, hgpr .s3, hgpr .s4, hgpr .s5, hgpr .s6, hgpr .s7,
    hgpr .s8, hgpr .s9, hgpr .s10, hgpr .s11, hscause, hsstatus, hsepc⟩

theorem gpr_recordAt (mem : Nat → UInt64) (base : Nat) (r : Reg) :
    (recordAt mem base).gpr r = mem (base + registersOffset r) := by
  cases r <;> rfl

theorem gpr_ofMachine (M : Machine) (r : Reg) : (Registers.ofMachine M).gpr r = M.x r := by
  cases r <;> rfl

theorem registersOffset_bounds (r : Reg) :
    registersOffset r % 8 = 0 ∧ registersOffset r + 8 ≤ registersSize := by
  cases r <;> decide

/-! ## `trap_entry` -/

/-- Registers with the offsets of their fields. -/
def fields (regs : List Reg) : List (Reg × Nat) := regs.map fun r => (r, registersOffset r)

/-- The registers that `trap_entry` stores without a detour. -/
def savedRegs : List Reg :=
  [.ra, .sp, .gp, .t1, .t2, .s0, .s1, .a0, .a1, .a2, .a3, .a4, .a5, .a6, .a7, .s2, .s3, .s4, .s5,
    .s6, .s7, .s8, .s9, .s10, .s11, .t3, .t4, .t5, .t6]

/-- `trap_entry` before and after that. -/
def trapEntryHead : List Instr :=
  [.csrrw .tp .sscratch .tp, .sd .t0 sscratchOffset .tp, .ld .t0 curRegBaseOffset .tp]

def trapEntryTail : List Instr :=
  [.csrr .a1 .sepc, .sd .a1 sepcOffset .t0, .csrr .a1 .sstatus, .sd .a1 sstatusOffset .t0,
    .csrrw .a1 .sscratch .tp, .sd .a1 (registersOffset .tp) .t0, .ld .a1 sscratchOffset .tp,
    .sd .a1 (registersOffset .t0) .t0, .ld .sp sptopOffset .tp, .csrr .a1 .scause,
    .sd .a1 scauseOffset .t0]

theorem trapEntryCode_eq : trapEntryCode = trapEntryHead ++
    (saves .t0 (fields savedRegs) ++ trapEntryTail) := rfl

theorem fields_inReach {base : Nat} (h : Region base registersSize) (regs : List Reg) :
    ∀ p ∈ fields regs, InReach base p.2 := by
  intro p hp
  obtain ⟨r, -, rfl⟩ := List.mem_map.1 hp
  exact h.inReach (registersOffset_bounds r).1 (registersOffset_bounds r).2

theorem trapEntryHead_run {M : Machine} {cpuVar : Nat} (hcpu : Region cpuVar cpuVarSize)
    (hscratch : (M.csr .sscratch).toNat = cpuVar) :
    ∃ M', run trapEntryHead M = some M' ∧
      M'.x = Function.update (Function.update M.x .tp (M.csr .sscratch)) .t0
        (M'.mem (cpuVar + curRegBaseOffset)) ∧
      M'.csr = Function.update M.csr .sscratch (M.x .tp) ∧
      M'.mem = Function.update M.mem (cpuVar + sscratchOffset) (M.x .t0) := by
  have hrun := calc
    run trapEntryHead M = _ := run_csrrw
    _ = _ := run_sd (hcpu.inReach (by decide) (by decide)) (by exact hscratch)
    _ = _ := run_ld (hcpu.inReach (by decide) (by decide)) (by exact hscratch)
  exact ⟨_, hrun, rfl, rfl, rfl⟩

theorem trapEntryTail_run {M : Machine} {cpuVar base : Nat} (hcpu : Region cpuVar cpuVarSize)
    (hbase : Region base registersSize)
    (hapart : base + registersSize ≤ cpuVar ∨ cpuVar + cpuVarSize ≤ base)
    (htp : (M.x .tp).toNat = cpuVar) (ht0 : (M.x .t0).toNat = base) :
    ∃ M', run trapEntryTail M = some M' ∧
      M'.csr = Function.update M.csr .sscratch (M.x .tp) ∧
      M'.mem = Function.update (Function.update (Function.update (Function.update (Function.update
        M.mem (base + sepcOffset) (M.csr .sepc))
        (base + sstatusOffset) (M.csr .sstatus))
        (base + registersOffset .tp) (M.csr .sscratch))
        (base + registersOffset .t0) (M.mem (cpuVar + sscratchOffset)))
        (base + scauseOffset) (M.csr .scause) := by
  have hrun := calc
    run trapEntryTail M = _ := run_csrr
    _ = _ := run_sd (hbase.inReach (by decide) (by decide)) (by exact ht0)
    _ = _ := run_csrr
    _ = _ := run_sd (hbase.inReach (by decide) (by decide)) (by exact ht0)
    _ = _ := run_csrrw
    _ = _ := run_sd (hbase.inReach (by decide) (by decide)) (by exact ht0)
    _ = _ := run_ld (hcpu.inReach (by decide) (by decide)) (by exact htp)
    _ = _ := run_sd (hbase.inReach (by decide) (by decide)) (by exact ht0)
    _ = _ := run_ld (hcpu.inReach (by decide) (by decide)) (by exact htp)
    _ = _ := run_csrr
    _ = _ := run_sd (hbase.inReach (by decide) (by decide)) (by exact ht0)
  -- the stores before the load from `CPU_VAR.sscratch` did not go there
  have hload : ∀ (offset : Nat) (w : UInt64) (mem : Nat → UInt64), offset + 8 ≤ registersSize →
      Function.update mem (base + offset) w (cpuVar + sscratchOffset) =
        mem (cpuVar + sscratchOffset) := fun offset w mem hle => by
    refine Function.update_of_ne ?_ ..
    rw [cpuVarSize] at hapart
    rw [sscratchOffset]
    omega
  have hword : Function.update (Function.update (Function.update M.mem
      (base + sepcOffset) (M.csr .sepc)) (base + sstatusOffset) (M.csr .sstatus))
      (base + registersOffset .tp) (M.csr .sscratch) (cpuVar + sscratchOffset) =
        M.mem (cpuVar + sscratchOffset) := by
    rw [hload, hload, hload] <;> decide
  refine ⟨_, hrun, rfl, ?_⟩
  rw [← hword]
  rfl

theorem savedRegs_cases (r : Reg) : r = .tp ∨ r = .t0 ∨ r ∈ savedRegs := by
  cases r <;> decide

theorem savedRegs_offset_ne : ∀ r ∈ savedRegs, registersOffset r ≠ sepcOffset ∧
    registersOffset r ≠ sstatusOffset ∧ registersOffset r ≠ registersOffset .tp ∧
    registersOffset r ≠ registersOffset .t0 ∧ registersOffset r ≠ scauseOffset := by
  decide

/-- **`trap_entry` saves the thread.** From any registers, with the address of `CPU_VAR` in
`sscratch`, it stores each register into its own field of the record behind `cur_reg_base`, writes
nothing else but `CPU_VAR.sscratch`, and leaves the control registers as they were. -/
theorem trapEntryCode_run {M : Machine} {cpuVar base : Nat} (hcpu : Region cpuVar cpuVarSize)
    (hbase : Region base registersSize)
    (hapart : base + registersSize ≤ cpuVar ∨ cpuVar + cpuVarSize ≤ base)
    (hscratch : (M.csr .sscratch).toNat = cpuVar)
    (hreg : (M.mem (cpuVar + curRegBaseOffset)).toNat = base) :
    ∃ M', run trapEntryCode M = some M' ∧ recordAt M'.mem base = .ofMachine M ∧
      (∀ a, a < base ∨ base + registersSize ≤ a → a ≠ cpuVar + sscratchOffset →
        M'.mem a = M.mem a) ∧ M'.csr = M.csr := by
  obtain ⟨M₁, hrun₁, hx₁, hcsr₁, hmem₁⟩ := trapEntryHead_run hcpu hscratch
  have hx₁_tp : M₁.x .tp = M.csr .sscratch := by
    rw [hx₁]
    rfl
  have hx₁_saved : ∀ r ∈ savedRegs, M₁.x r = M.x r := by
    intro r hr
    rw [hx₁, Function.update_of_ne, Function.update_of_ne] <;> rintro rfl <;> revert hr <;> decide
  have ht0 : (M₁.x .t0).toNat = base := by
    rw [hx₁, Function.update_self, hmem₁, Function.update_of_ne, hreg]
    simp [curRegBaseOffset, sscratchOffset]
  obtain ⟨mem₂, hrun₂, hsaved, hkept⟩ :=
    run_saves (fields_inReach hbase savedRegs) (by decide) ht0
  obtain ⟨M₃, hrun₃, hcsr₃, hmem₃⟩ := trapEntryTail_run (M := { M₁ with mem := mem₂ }) hcpu hbase
    hapart (by rw [hx₁_tp, hscratch]) ht0
  dsimp only at hcsr₃ hmem₃
  -- outside the record the block and the tail change nothing
  have hout₂ : ∀ a, a < base ∨ base + registersSize ≤ a → mem₂ a = M₁.mem a := by
    intro a ha
    refine hkept a fun p hp => ?_
    obtain ⟨r, -, rfl⟩ := List.mem_map.1 hp
    have := registersOffset_bounds r
    dsimp only
    omega
  refine ⟨M₃, ?_, ?_, fun a ha hne => ?_, ?_⟩
  · rw [trapEntryCode_eq, run_append, hrun₁, Option.bind_some, run_append, hrun₂, Option.bind_some,
      hrun₃]
  · have hsp : mem₂ (cpuVar + sscratchOffset) = M.x .t0 := by
      rw [hout₂ _ (by rw [cpuVarSize] at hapart; rw [sscratchOffset]; omega), hmem₁,
        Function.update_self]
    refine Registers.ext_gpr (fun r => ?_) ?_ ?_ ?_
    · rw [gpr_recordAt, gpr_ofMachine, hmem₃]
      rcases savedRegs_cases r with rfl | rfl | hr
      · simp [registersOffset, scauseOffset, hcsr₁]
      · simp [registersOffset, scauseOffset, hsp]
      · obtain ⟨h₁, h₂, h₃, h₄, h₅⟩ := savedRegs_offset_ne r hr
        simp only [Function.update_apply, Nat.add_left_cancel_iff, if_neg h₁, if_neg h₂, if_neg h₃,
          if_neg h₄, if_neg h₅]
        exact (hsaved _ (List.mem_map_of_mem hr)).trans (hx₁_saved r hr)
    · change M₃.mem (base + scauseOffset) = _
      simp [hmem₃, hcsr₁, Registers.ofMachine]
    · change M₃.mem (base + sstatusOffset) = _
      simp [hmem₃, hcsr₁, Registers.ofMachine, registersOffset, scauseOffset, sstatusOffset]
    · change M₃.mem (base + sepcOffset) = _
      simp [hmem₃, hcsr₁, Registers.ofMachine, registersOffset, scauseOffset, sstatusOffset,
        sepcOffset]
  · have hstore : ∀ (offset : Nat) (w : UInt64) (mem : Nat → UInt64), offset + 8 ≤ registersSize →
        Function.update mem (base + offset) w a = mem a :=
      fun offset w mem hle => Function.update_of_ne (by omega) ..
    rw [hmem₃, hstore, hstore, hstore, hstore, hstore, hout₂ a ha, hmem₁, Function.update_of_ne hne]
      <;> decide
  · rw [hcsr₃, hcsr₁, Function.update_idem, hx₁_tp, Function.update_eq_self]

/-! ## `return_to_user` -/

/-- The registers that `return_to_user` loads first. -/
def loadedRegs : List Reg :=
  [.ra, .sp, .gp, .tp, .t2, .s0, .s1, .a0, .a1, .a2, .a3, .a4, .a5, .a6, .a7, .s2, .s3, .s4, .s5,
    .s6, .s7, .s8, .s9, .s10, .s11, .t3, .t4, .t5, .t6]

def returnToUserTail : List Instr :=
  [.ld .t1 sepcOffset .t0, .csrw .sepc .t1, .ld .t1 sstatusOffset .t0, .csrw .sstatus .t1,
    .ld .t1 (registersOffset .t1) .t0, .ld .t0 (registersOffset .t0) .t0]

theorem returnToUserCode_eq :
    returnToUserCode = loads .t0 (fields loadedRegs) ++ returnToUserTail := rfl

theorem loadedRegs_cases (r : Reg) : r = .t1 ∨ r = .t0 ∨ r ∈ loadedRegs := by
  cases r <;> decide

theorem loadedRegs_ne : ∀ r ∈ loadedRegs, r ≠ .t1 ∧ r ≠ .t0 := by
  decide

theorem returnToUserTail_run {M : Machine} {base : Nat} (hbase : Region base registersSize)
    (ht0 : (M.x .t0).toNat = base) :
    ∃ M', run returnToUserTail M = some M' ∧ M'.mem = M.mem ∧
      M'.x .t1 = M.mem (base + registersOffset .t1) ∧
      M'.x .t0 = M.mem (base + registersOffset .t0) ∧
      (∀ r, r ≠ .t1 → r ≠ .t0 → M'.x r = M.x r) ∧
      M'.csr = Function.update (Function.update M.csr .sepc (M.mem (base + sepcOffset))) .sstatus
        (M.mem (base + sstatusOffset)) := by
  have hrun := calc
    run returnToUserTail M = _ := run_ld (hbase.inReach (by decide) (by decide)) (by exact ht0)
    _ = _ := run_csrw
    _ = _ := run_ld (hbase.inReach (by decide) (by decide)) (by exact ht0)
    _ = _ := run_csrw
    _ = _ := run_ld (hbase.inReach (by decide) (by decide)) (by exact ht0)
    _ = _ := run_ld (hbase.inReach (by decide) (by decide)) (by exact ht0)
  refine ⟨_, hrun, rfl, rfl, rfl, fun r h₁ h₀ => ?_, rfl⟩
  simp [Machine.setReg, Machine.setCsr, h₁, h₀]

/-- **`return_to_user` loads the thread**: each register from its own field of the record at the
address in `t0`. It writes no memory. -/
theorem returnToUserCode_run {M : Machine} {base : Nat} (hbase : Region base registersSize)
    (ht0 : (M.x .t0).toNat = base) :
    ∃ M', run returnToUserCode M = some M' ∧ M'.mem = M.mem ∧
      M'.csr .sscratch = M.csr .sscratch ∧
      Registers.ofMachine M' = { recordAt M.mem base with scause := M.csr .scause } := by
  obtain ⟨x, hrun₁, hloaded, hkept⟩ :=
    run_loads (fields_inReach hbase loadedRegs) (by decide) (by decide) ht0
  obtain ⟨M₂, hrun₂, hmem, ht1, ht0', hx, hcsr⟩ := returnToUserTail_run (M := { M with x }) hbase
    (by rw [← ht0]; exact congrArg _ (hkept .t0 (by decide)))
  refine ⟨M₂, ?_, hmem, ?_, Registers.ext_gpr (fun r => ?_) ?_ ?_ ?_⟩
  · rw [returnToUserCode_eq, run_append, hrun₁, Option.bind_some, hrun₂]
  · rw [hcsr]
    rfl
  · rw [gpr_ofMachine]
    have hrecord := gpr_recordAt M.mem base r
    rcases loadedRegs_cases r with rfl | rfl | hr
    · exact ht1.trans hrecord.symm
    · exact ht0'.trans hrecord.symm
    · obtain ⟨h₁, h₀⟩ := loadedRegs_ne r hr
      refine (hx r h₁ h₀).trans ((hloaded _ (List.mem_map_of_mem hr)).trans (hrecord.symm.trans ?_))
      cases r <;> rfl
  · change M₂.csr .scause = _
    rw [hcsr]
    rfl
  · change M₂.csr .sstatus = _
    rw [hcsr]
    rfl
  · change M₂.csr .sepc = _
    rw [hcsr]
    rfl

/-! ## Records in memory -/

/-- The words of a record decide what is in it. -/
theorem recordAt_congr {mem mem' : Nat → UInt64} {base : Nat}
    (h : ∀ a, base ≤ a → a < base + registersSize → mem' a = mem a) :
    recordAt mem' base = recordAt mem base := by
  refine Registers.ext_gpr (fun r => ?_) ?_ ?_ ?_
  · have := registersOffset_bounds r
    rw [gpr_recordAt, gpr_recordAt]
    exact h _ (by omega) (by omega)
  all_goals exact h _ (by omega) (by rw [registersSize]; omega)

namespace TrapLayout

variable {cfg : Config} (L : TrapLayout cfg) {s s' : KState} {p q : Nat} {t t' : ThreadInfo}

include L in
/-- Where a thread control block can be. -/
theorem thread_bounds (hs : HeapWF cfg s) (ht : s.tcbs p = some t) :
    p % 8 = 0 ∧ p + cfg.tcbSize ≤ 2 ^ 64 ∧
      (p = cfg.idleThread ∨ p + cfg.tcbSize ≤ toKernelV cfg.freeRamEnd) := by
  rcases hs.tcbs p t ht with rfl | ⟨o, ho, hk, rfl⟩
  · exact ⟨L.idle_region.aligned, L.idle_region.lt, .inl rfl⟩
  · have hadm := hs.admissible o ho
    obtain ⟨hstart, hend⟩ := Object.start_lt hadm
    have hal := (Object.lt_of_admissible hadm).2.2.2
    rw [hk, CapabilityType.align] at hal
    rw [Object.tcb_size (hs.size o ho) hk] at hend
    have hpfx : kernelVAddrPfx % 8 = 0 := by decide
    have := toKernelV_freeRamEnd_lt cfg
    exact ⟨by omega, by omega, .inr hend⟩

theorem region (hs : HeapWF cfg s) (ht : s.tcbs p = some t) : Region (L.base p) registersSize := by
  obtain ⟨hal, hlt, -⟩ := L.thread_bounds hs ht
  have := L.registers_le
  have := L.registersAt_aligned
  rw [base]
  exact ⟨by omega, by omega⟩

theorem apart_cpuVar (hs : HeapWF cfg s) (ht : s.tcbs p = some t) :
    L.base p + registersSize ≤ L.cpuVar ∨ L.cpuVar + cpuVarSize ≤ L.base p := by
  obtain ⟨-, -, hp⟩ := L.thread_bounds hs ht
  have := L.registers_le
  have := L.cpuVar_above
  have := L.cpuVar_apart
  rw [base]
  rcases hp with rfl | hp <;> omega

/-- The records of two threads. -/
theorem apart (hs : HeapWF cfg s) (hp : s.tcbs p = some t) (hq : s.tcbs q = some t')
    (hne : p ≠ q) :
    L.base p + registersSize ≤ L.base q ∨ L.base q + registersSize ≤ L.base p := by
  have hle := L.registers_le
  have hidle := cfg.idleThread_apart
  have hblocks : p + cfg.tcbSize ≤ q ∨ q + cfg.tcbSize ≤ p := by
    rcases hs.tcbs p t hp with rfl | ⟨o, ho, hk, rfl⟩ <;>
      rcases hs.tcbs q t' hq with rfl | ⟨o', ho', hk', rfl⟩
    · exact absurd rfl hne
    · have := (Object.start_lt (hs.admissible o' ho')).2
      rw [Object.tcb_size (hs.size o' ho') hk'] at this
      omega
    · have := (Object.start_lt (hs.admissible o ho)).2
      rw [Object.tcb_size (hs.size o ho) hk] at this
      omega
    · have h := (Object.start_lt (hs.admissible o ho)).1
      have h' := (Object.start_lt (hs.admissible o' ho')).1
      rcases hs.eq_or_apart ho ho' with rfl | hapart
      · exact absurd rfl hne
      · simp only [Object.overlaps, Bool.and_eq_false_iff, decide_eq_false_iff_not] at hapart
        rw [Object.tcb_size (hs.size o ho) hk, Object.tcb_size (hs.size o' ho') hk'] at hapart
        omega
  rw [base, base]
  omega

variable {L} {mem mem' : Nat → UInt64}

/-- A page frame has no word of a record, and none of `CPU_VAR`. -/
theorem page_apart (hs : HeapWF cfg s) {o : Object} (ho : o ∈ s.objects) (hk : o.kind = .page)
    {a : Nat} (hle : o.addr ≤ a) (hlt : a < o.addr + o.size) :
    toKernelV a < toKernelV cfg.freeRamEnd ∧ ∀ p t, s.tcbs p = some t →
      toKernelV a < L.base p ∨ L.base p + registersSize ≤ toKernelV a := by
  have hadm := hs.admissible o ho
  have hend := (Object.lt_of_admissible hadm).2.1
  have hstart := (Object.start_lt hadm).1
  have hram := cfg.freeRamEnd_le
  rw [directMapEnd] at hram
  have hv : toKernelV a = a + kernelVAddrPfx := toKernelV_of_lt (by omega)
  have hv' := toKernelV_freeRamEnd cfg
  refine ⟨by omega, fun p t ht => ?_⟩
  have hle' := L.registers_le
  have hidle := cfg.idleThread_apart
  rw [base]
  rcases hs.tcbs p t ht with rfl | ⟨o', ho', hk', rfl⟩
  · omega
  · have hstart' := (Object.start_lt (hs.admissible o' ho')).1
    rcases hs.eq_or_apart ho ho' with rfl | hapart
    · rw [hk] at hk'
      cases hk'
    · simp only [Object.overlaps, Bool.and_eq_false_iff, decide_eq_false_iff_not] at hapart
      rw [Object.tcb_size (hs.size o' ho') hk'] at hapart
      omega

/-- A user program writes to page frames only. -/
theorem Holds.store (hs : HeapWF cfg s) (h : L.Holds s mem)
    (hstore : UserStore cfg (s, mem) (s', mem')) :
    L.Holds s' mem' ∧ s'.tcbs = s.tcbs ∧ s'.current = s.current ∧ s'.curRegBase = s.curRegBase := by
  obtain ⟨a, w, ⟨⟨-, o, ho, hk, hle, hlt⟩, hexec⟩, rfl⟩ := hstore
  obtain rfl := modify_ok.1 hexec
  obtain ⟨hram, hrecord⟩ := page_apart (L := L) hs ho hk hle hlt
  refine ⟨⟨fun p t ht => ?_, ?_⟩, rfl, rfl, rfl⟩
  · refine (recordAt_congr fun b hb hb' => Function.update_of_ne ?_ ..).trans (h.record p t ht)
    have := hrecord p t ht
    omega
  · have := L.cpuVar_above
    rw [Function.update_of_ne (by omega)]
    exact h.regBase

/-- **`trap_entry` does what the model says**: the state that the kernel finds after it is the one
with the registers of the machine in the thread that `cur_reg_base` points to. -/
theorem Holds.trapEntry {M : Machine} (hs : HeapWF cfg s) (h : L.Holds s M.mem)
    (hscratch : (M.csr .sscratch).toNat = L.cpuVar) (ht : s.tcbs s.curRegBase = some t) :
    ∃ M', run trapEntryCode M = some M' ∧
      recordAt M'.mem (L.base s.curRegBase) = .ofMachine M ∧
      (∀ a, a < L.base s.curRegBase ∨ L.base s.curRegBase + registersSize ≤ a →
        a ≠ L.cpuVar + sscratchOffset → M'.mem a = M.mem a) ∧ M'.csr = M.csr ∧
      L.reload s M'.mem = s.setTcb s.curRegBase { t with registers := .ofMachine M } := by
  obtain ⟨M', hrun, hrecord, hout, hcsr⟩ := trapEntryCode_run L.cpuVar_region (L.region hs ht)
    (L.apart_cpuVar hs ht) hscratch h.regBase
  refine ⟨M', hrun, hrecord, hout, hcsr, ?_⟩
  have hbase : (M'.mem (L.cpuVar + curRegBaseOffset)).toNat - L.registersAt = s.curRegBase := by
    have hapart := L.apart_cpuVar hs ht
    rw [cpuVarSize] at hapart
    rw [hout _ (by rw [curRegBaseOffset]; omega) (by rw [curRegBaseOffset, sscratchOffset]; omega),
      h.regBase, base]
    omega
  have htcbs :
      (fun p => (s.tcbs p).map fun t => { t with registers := recordAt M'.mem (L.base p) }) =
      Function.update s.tcbs s.curRegBase (some { t with registers := .ofMachine M }) := by
    funext p
    by_cases hp : p = s.curRegBase
    · rw [hp, ht, Function.update_self, hrecord]
      rfl
    · rw [Function.update_of_ne hp]
      cases hq : s.tcbs p with
      | none => rfl
      | some t' =>
        -- the record of another thread is outside
        have hapart := L.apart hs hq ht hp
        have hcpu := L.apart_cpuVar hs hq
        rw [cpuVarSize] at hcpu
        rw [Option.map_some, recordAt_congr fun a ha ha' => hout a (by omega)
          (by rw [sscratchOffset]; omega), h.record p t' hq]
  rw [reload, hbase, htcbs]
  rfl

end TrapLayout

/-! ## The current thread -/

/-- There is a thread at `p`. -/
def KState.Live (s : KState) (p : Nat) : Prop := ∃ t, s.tcbs p = some t

theorem KState.Live.setTcb {s : KState} {p : Nat} (h : s.Live p) (q : Nat) (t : ThreadInfo) :
    (s.setTcb q t).Live p := by
  rw [Live, KState.tcbs_setTcb]
  split
  · exact ⟨t, rfl⟩
  · exact h

theorem KState.Live.born {s : KState} {p : Nat} (h : s.Live p) (o : Object) :
    (s.born o).Live p := by
  rw [Live, tcbs_born]
  split
  · exact ⟨_, rfl⟩
  · exact h

theorem KState.Live.renewed {s : KState} {p : Nat} (h : s.Live p) (o : Object) :
    (s.renewed o).Live p := by
  rw [Live, tcbs_renewed]
  split
  · exact ⟨_, rfl⟩
  · exact h

/-- Threads stay. -/
theorem KState.Live.step {cfg : Config} {s s' : KState} {p : Nat} {ev : Event} (hs : s.Live p)
    (h : Step cfg s ev s') : s'.Live p := by
  have hI : MapStable cfg (fun _ _ _ => True) fun s => s.Live p :=
    { toCapStable := .of_slots (fun _ _ hs => hs) (fun _ _ _ _ _ _ _ hs => hs.setTcb _ _)
        fun _ _ _ hs => hs.born _
      mem := fun _ _ hs => hs
      root := fun _ _ hs => hs }
  have hT : ThreadStable fun s => s.Live p :=
    { tcb := fun _ _ _ _ _ _ hs => hs.setTcb _ _
      queues := fun _ _ _ _ hs => hs
      copy := fun _ _ _ _ hs => hs
      request := fun _ _ hs => hs
      vspace := fun _ _ hs => hs
      switch := fun _ _ hs => hs }
  exact hI.step hT .trivial (fun _ _ _ _ _ hs => hs.setTcb _ _)
    (.inl fun _ o _ _ hs => hs.renewed o)
    (fun _ _ _ _ _ _ _ _ _ _ _ _ _ hu => hu.setTcb _ _)
    (fun _ _ _ _ _ _ _ _ _ _ _ _ => trivial) (capsAll_trivial s) hs h

/-- `CPU_VAR.cur_reg_base` and `CURRENT_PROC` are the same thread, and there is one. -/
structure OnCpu (cfg : Config) (s : KState) : Prop where
  regBase : s.curRegBase = s.current
  live : s.Live s.current
  idle : s.Live cfg.idleThread

namespace OnCpu

variable {cfg : Config} {s s' : KState}

theorem setTcb (hs : OnCpu cfg s) (p : Nat) (t : ThreadInfo) : OnCpu cfg (s.setTcb p t) :=
  ⟨hs.regBase, hs.live.setTcb p t, hs.idle.setTcb p t⟩

theorem born (hs : OnCpu cfg s) (o : Object) : OnCpu cfg (s.born o) where
  regBase := by rw [curRegBase_born, current_born, hs.regBase]
  live := by
    rw [current_born]
    exact hs.live.born o
  idle := hs.idle.born o

theorem renewed (hs : OnCpu cfg s) (o : Object) : OnCpu cfg (s.renewed o) where
  regBase := by rw [curRegBase_renewed, current_renewed, hs.regBase]
  live := by
    rw [current_renewed]
    exact hs.live.renewed o
  idle := hs.idle.renewed o

theorem bootStable : BootStable cfg (fun _ _ _ => True) (OnCpu cfg) where
  toCapStable := .of_slots (fun _ _ hs => ⟨hs.1, hs.2, hs.3⟩)
    (fun _ _ _ _ _ _ _ hs => hs.setTcb _ _) fun _ _ _ hs => hs.born _
  mem _ _ hs := ⟨hs.1, hs.2, hs.3⟩
  root _ _ hs := ⟨hs.1, hs.2, hs.3⟩
  regs _ _ _ _ _ _ _ hs := hs.setTcb _ _
  refill _ _ _ _ _ _ hs := hs.setTcb _ _

theorem trapStable : TrapStable (OnCpu cfg) where
  tcb _ _ _ _ _ _ hs := hs.setTcb _ _
  queues _ _ _ _ hs := ⟨hs.1, hs.2, hs.3⟩
  copy _ _ _ _ hs := ⟨hs.1, hs.2, hs.3⟩
  request _ _ hs := ⟨hs.1, hs.2, hs.3⟩

/-- The scheduler switches both, to a thread that there is. -/
theorem schedule {u : Unit} (hs : OnCpu cfg s) (h : schedule cfg s = .ok u s') : OnCpu cfg s' := by
  obtain ⟨-, rfl⟩ | ⟨-, next, rest, t, tc, r, a, -, ht, -, -, rfl⟩ |
    ⟨-, -, t, ht, ⟨-, rfl⟩ | ⟨-, a, rfl⟩⟩ := schedule_cases h
  · exact hs
  · have hnext : s.Live next := ⟨t, ht⟩
    exact ⟨rfl, hnext.setTcb _ _, hs.idle.setTcb _ _⟩
  · exact hs.setTcb _ _
  · exact ⟨rfl, hs.idle, hs.idle⟩

theorem boot {image : Image} (h : Boot cfg image s) : OnCpu cfg s := by
  have hidle : MapStable cfg (fun _ _ _ => True) fun s => s.Live cfg.idleThread :=
    { toCapStable := .of_slots (fun _ _ hs => hs) (fun _ _ _ _ _ _ _ hs => hs.setTcb _ _)
        fun _ _ _ hs => hs.born _
      mem := fun _ _ hs => hs
      root := fun _ _ hs => hs }
  obtain ⟨thread, s₃, s₄, -, hs₃, hres, hsched⟩ := hidle.boot bootStable .trivial
    (fun s s' u hs hcreate => by
      obtain ⟨t, ht, rfl⟩ := createIdleThread_ok.1 hcreate
      have hlive := hs.setTcb cfg.idleThread { t with
        registers := { t.registers with
          sepc := cfg.idleEntry, sstatus := sstatusSpp ||| sstatusSpie, sp := cfg.stackTop } }
      exact ⟨rfl, hlive, hlive⟩)
    ⟨.idleInit, by simp [KState.afterVmInit, KState.initial]⟩ h
  have hs₄ := (trapStable.steady.resume thread).ok hs₃ hres
  exact schedule (trapStable.request _ true hs₄) hsched

theorem step {ev : Event} (hs : OnCpu cfg s) (h : Step cfg s ev s') : OnCpu cfg s' := by
  cases ev with
  | store a w =>
    obtain rfl := modify_ok.1 h.2
    exact ⟨hs.1, hs.2, hs.3⟩
  | trap regs =>
    have hI : CapStable cfg (fun _ _ _ => True) (OnCpu cfg) := bootStable.toCapStable
    obtain ⟨u, v, hentry, htrap, hsched⟩ := step_parts h
    have hv : OnCpu cfg v := hI.trap trapStable .trivial
      (fun t _ _ hs => hs.setTcb _ _) (.inl fun _ o _ _ hs => hs.renewed o)
      (fun _ _ _ _ _ _ _ _ _ _ _ _ _ hu => hu.setTcb _ _)
      (fun _ _ _ _ _ _ _ _ _ _ _ _ => trivial)
      (fun _ _ _ _ _ => bootStable.toMapStable.mappingKeeps .trivial) (capsAll_trivial s) hs hentry
      htrap
    exact hv.schedule hsched

end OnCpu

/-! ## Rounds -/

/-- A field of `Registers` that `return_to_user` loads. -/
inductive RegField where
  | gpr (r : Reg)
  | sstatus
  | sepc

def RegField.get : RegField → Registers → UInt64
  | .gpr r, regs => regs.gpr r
  | .sstatus, regs => regs.sstatus
  | .sepc, regs => regs.sepc

/-- The kernel does not rewrite the field of the thread `p`. -/
def KeepsField (f : RegField) (p : Nat) (s s' : KState) : Prop :=
  ∀ t t', s.tcbs p = some t → s'.tcbs p = some t' → f.get t'.registers = f.get t.registers

/-- What holds at each return to a thread. -/
structure InContext {cfg : Config} (L : TrapLayout cfg) (c : Computer) : Prop where
  heap : HeapWF cfg c.kernel
  onCpu : OnCpu cfg c.kernel
  holds : L.Holds c.kernel c.machine.mem
  sscratch : (c.machine.csr .sscratch).toNat = L.cpuVar
  loaded : ∃ t, c.kernel.tcbs c.kernel.current = some t ∧
    ∀ f : RegField, f.get (.ofMachine c.machine) = f.get t.registers

namespace TrapLayout

variable {cfg : Config} {L : TrapLayout cfg} {c c' : Computer} {M : Machine} {u : KState}

/-- **`return_to_user` returns to the current thread**, with its registers. -/
theorem Holds.returnToUser {s : KState} {t : ThreadInfo} (hs : HeapWF cfg s) (h : L.Holds s M.mem)
    (ht : s.tcbs s.current = some t) (ht0 : (M.x .t0).toNat = L.base s.current) :
    ∃ M', run returnToUserCode M = some M' ∧ M'.mem = M.mem ∧
      M'.csr .sscratch = M.csr .sscratch ∧
      ∀ f : RegField, f.get (.ofMachine M') = f.get t.registers := by
  obtain ⟨M', hrun, hmem, hscratch, hloaded⟩ := returnToUserCode_run (L.region hs ht) ht0
  refine ⟨M', hrun, hmem, hscratch, fun f => ?_⟩
  rw [hloaded, h.record _ t ht]
  cases f with
  | gpr r => cases r <;> rfl
  | sstatus => rfl
  | sepc => rfl

/-- The return is the start of the next round. -/
theorem Returns.inContext (h : L.Returns M c) (hheap : HeapWF cfg c.kernel)
    (hcpu : OnCpu cfg c.kernel) (hscratch : (M.csr .sscratch).toNat = L.cpuVar) :
    InContext L c := by
  obtain ⟨t, ht⟩ := hcpu.live
  obtain ⟨M', hrun, hmem, hscratch', hloaded⟩ := h.holds.returnToUser hheap ht h.t0
  obtain rfl : M' = c.machine := Option.some.inj (hrun.symm.trans h.run)
  exact ⟨hheap, hcpu, hmem ▸ h.holds, by rw [hscratch', hscratch], t, ht, hloaded⟩

/-- While a thread runs, the kernel's part of the memory stays as it is. -/
theorem Runs.ok (hc : InContext L c) (h : c.Runs cfg u M) :
    HeapWF cfg u ∧ OnCpu cfg u ∧ L.Holds u M.mem ∧ u.tcbs = c.kernel.tcbs ∧
      u.current = c.kernel.current := by
  have hinv := run_invariant (P := fun σ => HeapWF cfg σ.1 ∧ OnCpu cfg σ.1 ∧ L.Holds σ.1 σ.2 ∧
    σ.1.tcbs = c.kernel.tcbs ∧ σ.1.current = c.kernel.current) h.stores
    ⟨hc.heap, hc.onCpu, hc.holds, rfl, rfl⟩ fun σ σ' hσ hstore => by
      obtain ⟨hheap, hcpu, hholds, htcbs, hcur⟩ := hσ
      obtain ⟨hholds', htcbs', hcur', -⟩ := hholds.store hheap hstore
      obtain ⟨a, w, hstep, -⟩ := hstore
      exact ⟨hheap.step hstep, hcpu.step hstep, hholds', htcbs'.trans htcbs, hcur'.trans hcur⟩
  exact hinv

/-- **A round is a step of the model.** -/
theorem Round.ok {K : KState → KState → Prop} (hc : InContext L c) (h : L.Round K c M c') :
    InContext L c' ∧ ∃ u t, c.Runs cfg u M ∧ u.tcbs u.current = some t ∧
      Step cfg u (.trap (.ofMachine M)) c'.kernel ∧
      K (u.setTcb u.current { t with registers := .ofMachine M }) c'.kernel := by
  obtain ⟨u, M₁, M₂, hruns, hen, hrun, hkernel, hK, hscratch, hret⟩ := h
  obtain ⟨hheap, hcpu, hholds, -, -⟩ := Runs.ok hc hruns
  obtain ⟨t, ht⟩ := hcpu.live
  rw [← hcpu.regBase] at ht
  have hscratchM : (M.csr .sscratch).toNat = L.cpuVar := by rw [hruns.sscratch, hc.sscratch]
  obtain ⟨M', hrun', -, -, hcsr, hreload⟩ := hholds.trapEntry hheap hscratchM ht
  obtain rfl : M' = M₁ := Option.some.inj (hrun'.symm.trans hrun)
  rw [hreload] at hkernel hK
  have hstep : Step cfg u (.trap (.ofMachine M)) c'.kernel := by
    refine ⟨hen, ?_⟩
    simp only [Event.exec, kernelTrap, bind_ok]
    refine ⟨(), _, trapEntry_ok.2 ⟨t, ht, rfl⟩, ?_⟩
    rw [hcsr] at hkernel
    exact bind_ok.1 hkernel
  refine ⟨hret.inContext (hheap.step hstep) (hcpu.step hstep) ?_, u, t, hruns, ?_, hstep, ?_⟩
  · rw [hscratch, hcsr, hscratchM]
  · rw [← hcpu.regBase, ht]
  · rw [← hcpu.regBase]
    exact hK

/-- The field of the thread `p` has the value `w`. -/
def HasField (f : RegField) (p : Nat) (w : UInt64) (s : KState) : Prop :=
  ∃ t, s.tcbs p = some t ∧ f.get t.registers = w

theorem HasField.keeps {f : RegField} {p : Nat} {w : UInt64} {s s' : KState} (h : HasField f p w s)
    (hlive : s'.Live p) (hK : KeepsField f p s s') : HasField f p w s' := by
  obtain ⟨t, ht, rfl⟩ := h
  obtain ⟨t', ht'⟩ := hlive
  exact ⟨t', ht', hK t t' ht ht'⟩

end TrapLayout

/-! ## Every step of the model is a round -/

/-- The words of a `Registers`. -/
def Registers.words (regs : Registers) (i : Nat) : UInt64 :=
  [regs.ra, regs.sp, regs.gp, regs.tp, regs.t0, regs.t1, regs.t2, regs.t3, regs.t4, regs.t5,
    regs.t6, regs.a0, regs.a1, regs.a2, regs.a3, regs.a4, regs.a5, regs.a6, regs.a7, regs.s0,
    regs.s1, regs.s2, regs.s3, regs.s4, regs.s5, regs.s6, regs.s7, regs.s8, regs.s9, regs.s10,
    regs.s11, regs.scause, regs.sstatus, regs.sepc].getD i 0

namespace TrapLayout

variable {cfg : Config} (L : TrapLayout cfg) {s : KState}

/-- The address is in the record of the thread `p`. -/
def InRecord (s : KState) (a p : Nat) : Prop :=
  s.Live p ∧ L.base p ≤ a ∧ a < L.base p + registersSize

open Classical in
/-- A memory for a state of the kernel. -/
noncomputable def memory (s : KState) (a : Nat) : UInt64 :=
  if a = L.cpuVar + curRegBaseOffset then UInt64.ofNat (L.base s.curRegBase)
  else if h : ∃ p, L.InRecord s a p then
    ((s.tcbs h.choose).map (·.registers.words ((a - L.base h.choose) / 8))).getD 0
  else 0

end TrapLayout

/-! ## Context integrity -/

/-- A place for `CPU_VAR` and for the registers of a thread. -/
def TrapLayout.virt : TrapLayout .virt where
  cpuVar := 0xffffffff802a0000
  registersAt := 112
  cpuVar_region := ⟨by decide, by decide⟩
  registers_le := by decide
  registersAt_aligned := by decide
  idle_region := ⟨by decide, by decide⟩
  cpuVar_above := by decide
  cpuVar_apart := by decide

end Zoeax
