import Mathlib.Data.List.Nodup
import Mathlib.Logic.Function.Basic
import Mathlib.Algebra.Group.Nat.Defs

/-!
# Straight-line RV64 code

Loads and stores of double words, and moves between registers and control registers: what the entry
of a trap handler and the way back are made of. The memory is a word for each aligned address; an
access that is not aligned stops the machine.

`run_saves` and `run_loads` are the rules for a block of stores and a block of loads with one base
register.
-/

namespace Zoeax.Lib.Rv64

/-- The integer registers by their names in the calling convention, without `x0`. -/
inductive Reg where
  | ra | sp | gp | tp | t0 | t1 | t2 | s0 | s1
  | a0 | a1 | a2 | a3 | a4 | a5 | a6 | a7
  | s2 | s3 | s4 | s5 | s6 | s7 | s8 | s9 | s10 | s11
  | t3 | t4 | t5 | t6
deriving DecidableEq, Repr

inductive Csr where
  | sepc | sstatus | scause | sscratch
deriving DecidableEq, Repr

structure Machine where
  x : Reg → UInt64
  csr : Csr → UInt64
  mem : Nat → UInt64

inductive Instr where
  | ld (rd : Reg) (offset : Nat) (base : Reg)
  | sd (rs : Reg) (offset : Nat) (base : Reg)
  | csrrw (rd : Reg) (csr : Csr) (rs : Reg)
  | csrr (rd : Reg) (csr : Csr)
  | csrw (csr : Csr) (rs : Reg)
deriving DecidableEq, Repr

namespace Machine

def setReg (M : Machine) (r : Reg) (w : UInt64) : Machine := { M with x := Function.update M.x r w }

def setCsr (M : Machine) (c : Csr) (w : UInt64) : Machine :=
  { M with csr := Function.update M.csr c w }

def setWord (M : Machine) (a : Nat) (w : UInt64) : Machine :=
  { M with mem := Function.update M.mem a w }

/-- The address of an access. -/
def addr (M : Machine) (offset : Nat) (base : Reg) : Nat := ((M.x base).toNat + offset) % 2 ^ 64

end Machine

def Instr.exec (M : Machine) : Instr → Option Machine
  | .ld rd offset base =>
    let a := M.addr offset base
    if a % 8 = 0 then some (M.setReg rd (M.mem a)) else none
  | .sd rs offset base =>
    let a := M.addr offset base
    if a % 8 = 0 then some (M.setWord a (M.x rs)) else none
  | .csrrw rd csr rs => some ((M.setCsr csr (M.x rs)).setReg rd (M.csr csr))
  | .csrr rd csr => some (M.setReg rd (M.csr csr))
  | .csrw csr rs => some (M.setCsr csr (M.x rs))

def run : List Instr → Machine → Option Machine
  | [], M => some M
  | i :: code, M => (i.exec M).bind (run code)

theorem run_append (code code' : List Instr) (M : Machine) :
    run (code ++ code') M = (run code M).bind (run code') := by
  induction code generalizing M with
  | nil => rfl
  | cons i code ih =>
    rw [List.cons_append, run, run, Option.bind_assoc]
    exact congrArg _ (funext ih)

/-! ## Accesses relative to a base -/

/-- Memory for a record of `size` bytes at `base`. -/
structure Region (base size : Nat) : Prop where
  aligned : base % 8 = 0
  lt : base + size ≤ 2 ^ 64

/-- The offset is that of an aligned word behind the base. -/
structure InReach (base offset : Nat) : Prop where
  aligned : (base + offset) % 8 = 0
  lt : base + offset < 2 ^ 64

theorem Region.inReach {base size offset : Nat} (h : Region base size) (hoff : offset % 8 = 0)
    (hlt : offset + 8 ≤ size) : InReach base offset := by
  have := h.aligned
  have := h.lt
  exact ⟨by omega, by omega⟩

theorem InReach.addr {M : Machine} {b : Reg} {base offset : Nat} (h : InReach base offset)
    (hb : (M.x b).toNat = base) : M.addr offset b = base + offset := by
  rw [Machine.addr, hb]
  exact Nat.mod_eq_of_lt h.lt

theorem run_ld {M : Machine} {rd b : Reg} {base offset : Nat} {code : List Instr}
    (h : InReach base offset) (hb : (M.x b).toNat = base) :
    run (.ld rd offset b :: code) M = run code (M.setReg rd (M.mem (base + offset))) := by
  rw [run, Instr.exec, h.addr hb, if_pos h.aligned, Option.bind_some]

theorem run_sd {M : Machine} {rs b : Reg} {base offset : Nat} {code : List Instr}
    (h : InReach base offset) (hb : (M.x b).toNat = base) :
    run (.sd rs offset b :: code) M = run code (M.setWord (base + offset) (M.x rs)) := by
  rw [run, Instr.exec, h.addr hb, if_pos h.aligned, Option.bind_some]

theorem run_csrrw {M : Machine} {rd rs : Reg} {csr : Csr} {code : List Instr} :
    run (.csrrw rd csr rs :: code) M =
      run code ((M.setCsr csr (M.x rs)).setReg rd (M.csr csr)) := rfl

theorem run_csrr {M : Machine} {rd : Reg} {csr : Csr} {code : List Instr} :
    run (.csrr rd csr :: code) M = run code (M.setReg rd (M.csr csr)) := rfl

theorem run_csrw {M : Machine} {rs : Reg} {csr : Csr} {code : List Instr} :
    run (.csrw csr rs :: code) M = run code (M.setCsr csr (M.x rs)) := rfl

/-! ## Blocks -/

/-- Stores of the given registers at the given offsets. -/
def saves (b : Reg) (block : List (Reg × Nat)) : List Instr := block.map fun p => .sd p.1 p.2 b

/-- Loads of the given registers from the given offsets. -/
def loads (b : Reg) (block : List (Reg × Nat)) : List Instr := block.map fun p => .ld p.1 p.2 b

/-- **A block of stores** writes each register to its own word, and nothing else. -/
theorem run_saves {b : Reg} {base : Nat} {block : List (Reg × Nat)} {M : Machine}
    (hreach : ∀ p ∈ block, InReach base p.2) (hnodup : (block.map Prod.snd).Nodup)
    (hb : (M.x b).toNat = base) :
    ∃ mem, run (saves b block) M = some { M with mem } ∧
      (∀ p ∈ block, mem (base + p.2) = M.x p.1) ∧
      ∀ a, (∀ p ∈ block, a ≠ base + p.2) → mem a = M.mem a := by
  induction block generalizing M with
  | nil => exact ⟨M.mem, rfl, by simp, fun _ _ => rfl⟩
  | cons p block ih =>
    rw [List.map_cons, List.nodup_cons] at hnodup
    obtain ⟨hp, hblock⟩ := List.forall_mem_cons.1 hreach
    obtain ⟨mem, hrun, hsaved, hkept⟩ :=
      ih (M := M.setWord (base + p.2) (M.x p.1)) hblock hnodup.2 hb
    refine ⟨mem, ?_, List.forall_mem_cons.2 ⟨?_, hsaved⟩, fun a ha => ?_⟩
    · rw [saves, List.map_cons, run_sd hp hb]
      exact hrun
    · -- the later stores go to other words
      refine (hkept _ fun q hq heq => hnodup.1 ?_).trans (Function.update_self ..)
      obtain h : p.2 = q.2 := Nat.add_left_cancel heq
      exact h ▸ List.mem_map_of_mem hq
    · obtain ⟨hne, ha⟩ := List.forall_mem_cons.1 ha
      exact (hkept a ha).trans (Function.update_of_ne hne ..)

/-- **A block of loads** reads each register from its own word, if the base is not among them. -/
theorem run_loads {b : Reg} {base : Nat} {block : List (Reg × Nat)} {M : Machine}
    (hreach : ∀ p ∈ block, InReach base p.2) (hnodup : (block.map Prod.fst).Nodup)
    (hbase : b ∉ block.map Prod.fst) (hb : (M.x b).toNat = base) :
    ∃ x, run (loads b block) M = some { M with x } ∧
      (∀ p ∈ block, x p.1 = M.mem (base + p.2)) ∧ ∀ r ∉ block.map Prod.fst, x r = M.x r := by
  induction block generalizing M with
  | nil => exact ⟨M.x, rfl, by simp, fun _ _ => rfl⟩
  | cons p block ih =>
    rw [List.map_cons, List.nodup_cons] at hnodup
    rw [List.map_cons, List.mem_cons, not_or] at hbase
    obtain ⟨hp, hblock⟩ := List.forall_mem_cons.1 hreach
    have hb' : (M.setReg p.1 (M.mem (base + p.2))).x b = M.x b := Function.update_of_ne hbase.1 ..
    obtain ⟨x, hrun, hloaded, hkept⟩ := ih (M := M.setReg p.1 (M.mem (base + p.2))) hblock hnodup.2
      hbase.2 (hb' ▸ hb)
    refine ⟨x, ?_, List.forall_mem_cons.2 ⟨?_, hloaded⟩, fun r hr => ?_⟩
    · rw [loads, List.map_cons, run_ld hp hb]
      exact hrun
    · exact (hkept _ hnodup.1).trans (Function.update_self ..)
    · rw [List.map_cons, List.mem_cons, not_or] at hr
      exact (hkept r hr.2).trans (Function.update_of_ne hr.1 ..)

end Zoeax.Lib.Rv64
