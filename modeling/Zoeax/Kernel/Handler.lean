import Zoeax.Kernel.Init
import Zoeax.Lib.Rv64

/-!
# The assembly of `kernel/src/handler.rs`

`trap_entry` saves the registers of the interrupted thread where `CPU_VAR.cur_reg_base` points, and
`return_to_user` loads those of the current thread. `Registers` and `CpuVar` are `repr(C)`: the
offset of a field is its place in words.
-/

namespace Zoeax

open Lib.Rv64

/-! ## Layout -/

/-- The general purpose registers in a `Registers`. -/
def Registers.gpr (regs : Registers) : Reg → UInt64
  | .ra => regs.ra
  | .sp => regs.sp
  | .gp => regs.gp
  | .tp => regs.tp
  | .t0 => regs.t0
  | .t1 => regs.t1
  | .t2 => regs.t2
  | .t3 => regs.t3
  | .t4 => regs.t4
  | .t5 => regs.t5
  | .t6 => regs.t6
  | .a0 => regs.a0
  | .a1 => regs.a1
  | .a2 => regs.a2
  | .a3 => regs.a3
  | .a4 => regs.a4
  | .a5 => regs.a5
  | .a6 => regs.a6
  | .a7 => regs.a7
  | .s0 => regs.s0
  | .s1 => regs.s1
  | .s2 => regs.s2
  | .s3 => regs.s3
  | .s4 => regs.s4
  | .s5 => regs.s5
  | .s6 => regs.s6
  | .s7 => regs.s7
  | .s8 => regs.s8
  | .s9 => regs.s9
  | .s10 => regs.s10
  | .s11 => regs.s11

/-- `offset_of!(Registers, ..)` for the general purpose registers. -/
def registersOffset : Reg → Nat
  | .ra => 8 * 0
  | .sp => 8 * 1
  | .gp => 8 * 2
  | .tp => 8 * 3
  | .t0 => 8 * 4
  | .t1 => 8 * 5
  | .t2 => 8 * 6
  | .t3 => 8 * 7
  | .t4 => 8 * 8
  | .t5 => 8 * 9
  | .t6 => 8 * 10
  | .a0 => 8 * 11
  | .a1 => 8 * 12
  | .a2 => 8 * 13
  | .a3 => 8 * 14
  | .a4 => 8 * 15
  | .a5 => 8 * 16
  | .a6 => 8 * 17
  | .a7 => 8 * 18
  | .s0 => 8 * 19
  | .s1 => 8 * 20
  | .s2 => 8 * 21
  | .s3 => 8 * 22
  | .s4 => 8 * 23
  | .s5 => 8 * 24
  | .s6 => 8 * 25
  | .s7 => 8 * 26
  | .s8 => 8 * 27
  | .s9 => 8 * 28
  | .s10 => 8 * 29
  | .s11 => 8 * 30

/-- `offset_of!(Registers, scause)`, `offset_of!(Registers, sstatus)` and
`offset_of!(Registers, sepc)`. -/
def scauseOffset : Nat := 8 * 31

def sstatusOffset : Nat := 8 * 32

def sepcOffset : Nat := 8 * 33

/-- `size_of::<Registers>()`. -/
def registersSize : Nat := 8 * 34

/-- `offset_of!(CpuVar, sptop)`, `offset_of!(CpuVar, sscratch)` and
`offset_of!(CpuVar, cur_reg_base)`. -/
def sptopOffset : Nat := 0

def sscratchOffset : Nat := 8

def curRegBaseOffset : Nat := 16

/-- `size_of::<CpuVar>()`. -/
def cpuVarSize : Nat := 24

/-- The `Registers` in memory at `base`. -/
def recordAt (mem : Nat → UInt64) (base : Nat) : Registers :=
  .ofWords fun i => mem (base + 8 * i)

/-- What the machine has in the registers that a `Registers` is for. -/
def Registers.ofMachine (M : Machine) : Registers where
  ra := M.x .ra
  sp := M.x .sp
  gp := M.x .gp
  tp := M.x .tp
  t0 := M.x .t0
  t1 := M.x .t1
  t2 := M.x .t2
  t3 := M.x .t3
  t4 := M.x .t4
  t5 := M.x .t5
  t6 := M.x .t6
  a0 := M.x .a0
  a1 := M.x .a1
  a2 := M.x .a2
  a3 := M.x .a3
  a4 := M.x .a4
  a5 := M.x .a5
  a6 := M.x .a6
  a7 := M.x .a7
  s0 := M.x .s0
  s1 := M.x .s1
  s2 := M.x .s2
  s3 := M.x .s3
  s4 := M.x .s4
  s5 := M.x .s5
  s6 := M.x .s6
  s7 := M.x .s7
  s8 := M.x .s8
  s9 := M.x .s9
  s10 := M.x .s10
  s11 := M.x .s11
  scause := M.csr .scause
  sstatus := M.csr .sstatus
  sepc := M.csr .sepc

/-! ## Code -/

/-- `trap_entry`, up to the jump to `handle_trap`. -/
def trapEntryCode : List Instr :=
  [ .csrrw .tp .sscratch .tp,
    .sd .t0 sscratchOffset .tp,
    .ld .t0 curRegBaseOffset .tp,
    .sd .ra (registersOffset .ra) .t0,
    .sd .sp (registersOffset .sp) .t0,
    .sd .gp (registersOffset .gp) .t0,
    .sd .t1 (registersOffset .t1) .t0,
    .sd .t2 (registersOffset .t2) .t0,
    .sd .s0 (registersOffset .s0) .t0,
    .sd .s1 (registersOffset .s1) .t0,
    .sd .a0 (registersOffset .a0) .t0,
    .sd .a1 (registersOffset .a1) .t0,
    .sd .a2 (registersOffset .a2) .t0,
    .sd .a3 (registersOffset .a3) .t0,
    .sd .a4 (registersOffset .a4) .t0,
    .sd .a5 (registersOffset .a5) .t0,
    .sd .a6 (registersOffset .a6) .t0,
    .sd .a7 (registersOffset .a7) .t0,
    .sd .s2 (registersOffset .s2) .t0,
    .sd .s3 (registersOffset .s3) .t0,
    .sd .s4 (registersOffset .s4) .t0,
    .sd .s5 (registersOffset .s5) .t0,
    .sd .s6 (registersOffset .s6) .t0,
    .sd .s7 (registersOffset .s7) .t0,
    .sd .s8 (registersOffset .s8) .t0,
    .sd .s9 (registersOffset .s9) .t0,
    .sd .s10 (registersOffset .s10) .t0,
    .sd .s11 (registersOffset .s11) .t0,
    .sd .t3 (registersOffset .t3) .t0,
    .sd .t4 (registersOffset .t4) .t0,
    .sd .t5 (registersOffset .t5) .t0,
    .sd .t6 (registersOffset .t6) .t0,
    .csrr .a1 .sepc,
    .sd .a1 sepcOffset .t0,
    .csrr .a1 .sstatus,
    .sd .a1 sstatusOffset .t0,
    .csrrw .a1 .sscratch .tp,
    .sd .a1 (registersOffset .tp) .t0,
    .ld .a1 sscratchOffset .tp,
    .sd .a1 (registersOffset .t0) .t0,
    .ld .sp sptopOffset .tp,
    .csrr .a1 .scause,
    .sd .a1 scauseOffset .t0 ]

/-- `return_to_user`, with the address of the registers of the current thread in `t0`, up to
`sret`. -/
def returnToUserCode : List Instr :=
  [ .ld .ra (registersOffset .ra) .t0,
    .ld .sp (registersOffset .sp) .t0,
    .ld .gp (registersOffset .gp) .t0,
    .ld .tp (registersOffset .tp) .t0,
    .ld .t2 (registersOffset .t2) .t0,
    .ld .s0 (registersOffset .s0) .t0,
    .ld .s1 (registersOffset .s1) .t0,
    .ld .a0 (registersOffset .a0) .t0,
    .ld .a1 (registersOffset .a1) .t0,
    .ld .a2 (registersOffset .a2) .t0,
    .ld .a3 (registersOffset .a3) .t0,
    .ld .a4 (registersOffset .a4) .t0,
    .ld .a5 (registersOffset .a5) .t0,
    .ld .a6 (registersOffset .a6) .t0,
    .ld .a7 (registersOffset .a7) .t0,
    .ld .s2 (registersOffset .s2) .t0,
    .ld .s3 (registersOffset .s3) .t0,
    .ld .s4 (registersOffset .s4) .t0,
    .ld .s5 (registersOffset .s5) .t0,
    .ld .s6 (registersOffset .s6) .t0,
    .ld .s7 (registersOffset .s7) .t0,
    .ld .s8 (registersOffset .s8) .t0,
    .ld .s9 (registersOffset .s9) .t0,
    .ld .s10 (registersOffset .s10) .t0,
    .ld .s11 (registersOffset .s11) .t0,
    .ld .t3 (registersOffset .t3) .t0,
    .ld .t4 (registersOffset .t4) .t0,
    .ld .t5 (registersOffset .t5) .t0,
    .ld .t6 (registersOffset .t6) .t0,
    .ld .t1 sepcOffset .t0,
    .csrw .sepc .t1,
    .ld .t1 sstatusOffset .t0,
    .csrw .sstatus .t1,
    .ld .t1 (registersOffset .t1) .t0,
    .ld .t0 (registersOffset .t0) .t0 ]

/-! ## The machine with the kernel -/

/-- Where the linker has put `CPU_VAR`, and the compiler the registers in a thread control block. -/
structure TrapLayout (cfg : Config) where
  /-- `CPU_VAR.get()`. -/
  cpuVar : Nat
  /-- `offset_of!(ThreadControlBlock, registers)`. -/
  registersAt : Nat
  cpuVar_region : Region cpuVar cpuVarSize
  registers_le : registersAt + registersSize ≤ cfg.tcbSize
  registersAt_aligned : registersAt % 8 = 0
  idle_region : Region cfg.idleThread cfg.tcbSize
  cpuVar_above : toKernelV cfg.freeRamEnd ≤ cpuVar
  cpuVar_apart : cfg.idleThread + cfg.tcbSize ≤ cpuVar ∨ cpuVar + cpuVarSize ≤ cfg.idleThread

/-- The kernel's state, and the machine: its registers, and the memory by kernel addresses. -/
structure Computer where
  kernel : KState
  machine : Machine

/-- A store of a user program, in the state and in memory. -/
def UserStore (cfg : Config) (u u' : KState × (Nat → UInt64)) : Prop :=
  ∃ a w, Step cfg u.1 (.store a w) u'.1 ∧ u'.2 = Function.update u.2 (toKernelV a) w

/-- The current thread runs, from the return to it on: it stores to its pages, and its registers are
whatever it likes. `sscratch` is out of its reach. -/
structure Computer.Runs (cfg : Config) (c : Computer) (u : KState) (M : Machine) : Prop where
  stores : Relation.ReflTransGen (UserStore cfg) (c.kernel, c.machine.mem) (u, M.mem)
  sscratch : M.csr .sscratch = c.machine.csr .sscratch

namespace TrapLayout

variable {cfg : Config} (L : TrapLayout cfg)

/-- The address of the registers of a thread. -/
def base (thread : Nat) : Nat := thread + L.registersAt

/-- The registers of the threads and `CPU_VAR.cur_reg_base` are in memory. -/
structure Holds (s : KState) (mem : Nat → UInt64) : Prop where
  record : ∀ p t, s.tcbs p = some t → recordAt mem (L.base p) = t.registers
  regBase : (mem (L.cpuVar + curRegBaseOffset)).toNat = L.base s.curRegBase

/-- The state that the kernel finds in memory. -/
def reload (s : KState) (mem : Nat → UInt64) : KState :=
  { s with
    tcbs := fun p => (s.tcbs p).map fun t => { t with registers := recordAt mem (L.base p) }
    curRegBase := (mem (L.cpuVar + curRegBaseOffset)).toNat - L.registersAt }

/-- The kernel is done, and `return_to_user` returns to the current thread: `M` is the machine
before, and `c` the computer after it. -/
structure Returns (M : Machine) (c : Computer) : Prop where
  holds : L.Holds c.kernel M.mem
  t0 : (M.x .t0).toNat = L.base c.kernel.current
  run : run returnToUserCode M = some c.machine

/-- From one return to a thread to the next. The thread runs and traps, with the machine `M`;
`trap_entry` saves the registers; the kernel handles the trap, on the state that it finds in memory;
and it returns to the current thread. What the kernel does meets `K`, and it does not touch
`sscratch`. -/
def Round (K : KState → KState → Prop) (c : Computer) (M : Machine) (c' : Computer) : Prop :=
  ∃ u M₁ M₂, c.Runs cfg u M ∧ Event.Enabled u (.trap (.ofMachine M)) ∧
    Lib.Rv64.run trapEntryCode M = some M₁ ∧
    (do handleTrap cfg (M₁.csr .scause).toNat; schedule cfg) (L.reload u M₁.mem) =
      .ok () c'.kernel ∧
    K (L.reload u M₁.mem) c'.kernel ∧
    M₂.csr .sscratch = M₁.csr .sscratch ∧ L.Returns M₂ c'

end TrapLayout

end Zoeax
