import Zoeax.Verify.Trace

/-!
# What the kernel leaves to its callers

Four things an invocation must respect, which the kernel does not check:

- `TcbWriteReg` takes the saved `sstatus` of the thread from the caller's IPC buffer
  (`StatusWordClean`);
- `PageTableMap`, `PageMap` and `PageUnMap` walk down from whatever table they are given, at any
  address, and a table can be linked twice (`MapsBelowRoots`);
- `CNodeMint` writes any word into a copy of a capability, also where the word is the radix of a
  CNode or marks a root (`MintConfined`);
- `UntypedRetype` compares the request with the block, but takes the request once for each of its
  objects, and takes alignment on top (`RetypeFits`).

Each of them makes the code write or read outside of live objects of the right type. A run of the
model ends there and the code goes on, so that it takes all four (`GuardedFits`) for a run of the
model to be a run of the code. Then user stores go to live pages as `Event.Enabled` has it
(`Verify/Protection.lean`).
-/

namespace Zoeax

open Lib Exec
open CapabilityType (entrySize)
open PageTable (entry)

/-! ## The conditions -/

/-- `TcbWriteReg` gets a `sstatus` with SPP clear from the caller's IPC buffer. -/
def StatusWordClean (cfg : Config) : InvokeCond := fun invLabel _ u inv =>
  invLabel = .tcbWriteReg → inv.cap.getCapType = .ok .tcb → ∀ b ∈ inv.tcb.ipcBufferRef,
    (u.mem (b + 8 * (cfg.messageWord + Registers.sstatusWord))).toNat.testBit 8 = false

/-- The table that a walk goes to from an entry. -/
def Pte.target (pte : UInt64) : Nat := direct (Pte.getAddress pte)

/-- Entry `i` of the table at `f`. -/
def KState.pte (s : KState) (f i : Nat) : UInt64 := s.mem (entry f i)

/-- The table is no root, and no valid entry of a table leads to it. -/
def KState.Unlinked (s : KState) (f : Nat) : Prop :=
  f ∉ s.rooted ∧ ∀ o ∈ s.objects, o.kind = .pageTable → ∀ i < 512,
    Pte.isValid (s.pte o.addr i) = true → Pte.target (s.pte o.addr i) ≠ f

/-- Mappings are made below roots, for addresses in the user half, and a table that is linked or
made a root is in no address space yet. -/
def MapsBelowRoots (cfg : Config) : InvokeCond := fun invLabel reg u inv =>
  (∀ vaddr ∈ walkVaddr? invLabel reg inv.cap, vaddr < 2 ^ 47 ∧ ∀ r,
    lookupCap cfg inv.rootCnode reg.a3.toNat (reg.a4.toNat % 2 ^ 32) .pageTable u = .ok r →
    r.2.getFrame ∈ u.rooted) ∧
  (inv.cap.getCapType = .ok .pageTable → invLabel = .pageTableMap ∨ invLabel = .pageTableMakeRoot →
    u.Unlinked inv.cap.getFrame)

/-- `CNodeMint` of a CNode capability writes its own radix, and that of a page table capability sets
bit 49 only if the table is a root. -/
def MintConfined (cfg : Config) : InvokeCond := fun invLabel reg u inv =>
  invLabel = .cNodeMint → inv.cap.getCapType = .ok .cNode → ∀ slot,
    inv.rootCnode.lookupEntryMut cfg reg.a3.toNat (reg.a4.toNat >>> 32) u = .ok slot →
    ∀ c ∈ u.capAt slot,
    (c.getCapType = .ok .cNode → reg.a6.toNat % 2 ^ 32 = c.radix) ∧
    (c.getCapType = .ok .pageTable → reg.a6.toNat.testBit 49 = true → c.getFrame ∈ u.rooted)

/-- The size of an object is what it takes: a CNode's does not overflow. -/
def SizeExact (k : CapabilityType) (userSize size : Nat) : Prop :=
  0 < size ∧ (k = .cNode → size = 2 ^ userSize * entrySize)

/-- The request fits into what is left of the block. -/
def RetypeFits (cfg : Config) : InvokeCond := fun _ reg _ inv =>
  inv.cap.getCapType = .ok .untyped → ∀ k, capTryFromU8 reg.a6.toUInt8 = .ok k →
    ∀ size, k.getObjectSize cfg (reg.a5.toNat >>> 32) = .ok size →
    SizeExact k (reg.a5.toNat >>> 32) size ∧
    inv.cap.requestEnd k size (reg.a5.toNat % 2 ^ 32) ≤ inv.cap.blockEnd

/-- `TcbWriteReg` keeps threads in user mode, mappings are made below roots and tables are linked
once, and `CNodeMint` leaves the radix of CNodes and the mark of roots alone. -/
def Guarded (cfg : Config) : InvokeCond := fun invLabel reg u inv =>
  StatusWordClean cfg invLabel reg u inv ∧ MapsBelowRoots cfg invLabel reg u inv ∧
    MintConfined cfg invLabel reg u inv

/-- All that is left to the callers. -/
def GuardedFits (cfg : Config) : InvokeCond := fun invLabel reg u inv =>
  Guarded cfg invLabel reg u inv ∧ RetypeFits cfg invLabel reg u inv

/-- And one condition more. -/
def GuardedWith (cfg : Config) (C : InvokeCond) : InvokeCond := fun invLabel reg u inv =>
  GuardedFits cfg invLabel reg u inv ∧ C invLabel reg u inv

/-! ## They can be evaluated -/

section

variable {cfg : Config} (invLabel : InvLabel) (reg : Registers) (u : KState) (inv : Invocation)

instance : Decidable (StatusWordClean cfg invLabel reg u inv) := by
  unfold StatusWordClean
  infer_instance

instance (s : KState) (f : Nat) : Decidable (s.Unlinked f) := by
  unfold KState.Unlinked
  infer_instance

instance : Decidable (MapsBelowRoots cfg invLabel reg u inv) := by
  unfold MapsBelowRoots
  infer_instance

instance : Decidable (MintConfined cfg invLabel reg u inv) := by
  unfold MintConfined
  infer_instance

instance (k : CapabilityType) (userSize size : Nat) : Decidable (SizeExact k userSize size) := by
  unfold SizeExact
  infer_instance

instance : Decidable (RetypeFits cfg invLabel reg u inv) := by
  unfold RetypeFits
  infer_instance

instance : Decidable (Guarded cfg invLabel reg u inv) := by
  unfold Guarded
  infer_instance

instance : Decidable (GuardedFits cfg invLabel reg u inv) := by
  unfold GuardedFits
  infer_instance

instance (C : InvokeCond) [∀ l r u i, Decidable (C l r u i)] :
    Decidable (GuardedWith cfg C invLabel reg u inv) := by
  unfold GuardedWith
  infer_instance

end

/-! ## Weaker conditions -/

variable {cfg : Config} {C D : InvokeCond} {s s' : KState} {ev : Event}

theorem Event.Meets.mono (h : ev.Meets cfg C s) (hCD : ∀ l r u i, C l r u i → D l r u i) :
    ev.Meets cfg D s := by
  intro invLabel reg u inv hinv
  exact hCD _ _ _ _ (h _ _ _ _ hinv)

theorem Run.mono (h : Run cfg C s s') (hCD : ∀ l r u i, C l r u i → D l r u i) :
    Run cfg D s s' := by
  refine Relation.ReflTransGen.mono ?_ _ _ h
  rintro u v ⟨ev, hmeets, hstep⟩
  exact ⟨ev, hmeets.mono hCD, hstep⟩

section

variable {invLabel : InvLabel} {reg : Registers} {u : KState} {inv : Invocation}

theorem GuardedFits.statusWordClean (h : GuardedFits cfg invLabel reg u inv) :
    StatusWordClean cfg invLabel reg u inv := h.1.1

theorem GuardedFits.mapsBelowRoots (h : GuardedFits cfg invLabel reg u inv) :
    MapsBelowRoots cfg invLabel reg u inv := h.1.2.1

theorem GuardedFits.mintConfined (h : GuardedFits cfg invLabel reg u inv) :
    MintConfined cfg invLabel reg u inv := h.1.2.2

theorem GuardedFits.retypeFits (h : GuardedFits cfg invLabel reg u inv) :
    RetypeFits cfg invLabel reg u inv := h.2

end

end Zoeax
