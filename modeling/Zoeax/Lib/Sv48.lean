import Mathlib.Data.Set.Insert
import Mathlib.Data.Nat.Bitwise

/-!
# Sv48 translation and its cache

The page table walk of the machine over a memory of words, the words that it reads, and sets of
translations that were found by walks. A translation stays what a walk finds as long as the words
that its walk read stay what they are (`Fresh.of_words`), and all of these are valid entries
(`Fresh.valid`). Permissions beyond the shape of an entry are for `store?` only.
-/

namespace Zoeax.Lib.Sv48

/-! ## Entries -/

def valid (pte : UInt64) : Bool := pte.toNat.testBit 0

def readable (pte : UInt64) : Bool := pte.toNat.testBit 1

def writable (pte : UInt64) : Bool := pte.toNat.testBit 2

def executable (pte : UInt64) : Bool := pte.toNat.testBit 3

def user (pte : UInt64) : Bool := pte.toNat.testBit 4

/-- The frame number in an entry. -/
def ppn (pte : UInt64) : Nat := pte.toNat / 2 ^ 10 % 2 ^ 44

/-- An entry that a walk can use: valid, and not writable without being readable. -/
def usable (pte : UInt64) : Bool := valid pte && (readable pte || !writable pte)

/-- A leaf; other entries lead to the next table. -/
def leaf (pte : UInt64) : Bool := readable pte || executable pte

/-- A leaf above level 0 is a large page, which has to be aligned. -/
def aligned (level : Nat) (pte : UInt64) : Bool := ppn pte % 2 ^ (9 * level) = 0

/-- Where the walk for `v` reads in a table of this level. -/
def entry (table v level : Nat) : Nat := table + 8 * (v / 2 ^ (12 + 9 * level) % 2 ^ 9)

/-! ## The walk -/

/-- The leaf for `v` below a table, and its level. -/
def walk (mem : Nat → UInt64) : Nat → Nat → Nat → Option (Nat × UInt64)
  | 0, table, v =>
    let pte := mem (entry table v 0)
    if usable pte && leaf pte then some (0, pte) else none
  | level + 1, table, v =>
    let pte := mem (entry table v (level + 1))
    if !usable pte then none
    else if leaf pte then
      if aligned (level + 1) pte then some (level + 1, pte) else none
    else walk mem level (ppn pte * 2 ^ 12) v

/-- Bits 47 and up of an address are alike. -/
def canonical (v : Nat) : Bool := v < 2 ^ 47 || 2 ^ 64 - 2 ^ 47 ≤ v

/-- Where `v` is mapped to, and the leaf. -/
def translate? (mem : Nat → UInt64) (root v : Nat) : Option (Nat × UInt64) :=
  if canonical v then
    (walk mem 3 root v).map fun (level, pte) => (ppn pte * 2 ^ 12 + v % 2 ^ (12 + 9 * level), pte)
  else none

/-- Where a store of a user program to `v` goes, unless it faults. -/
def store? (mem : Nat → UInt64) (root v : Nat) : Option Nat :=
  if canonical v then do
    let (level, pte) ← walk mem 3 root v
    if user pte && writable pte then return ppn pte * 2 ^ 12 + v % 2 ^ (12 + 9 * level) else none
  else none

/-- The words that the walk reads. -/
def reads (mem : Nat → UInt64) : Nat → Nat → Nat → List Nat
  | 0, table, v => [entry table v 0]
  | level + 1, table, v =>
    let pte := mem (entry table v (level + 1))
    entry table v (level + 1) ::
      if usable pte && !leaf pte then reads mem level (ppn pte * 2 ^ 12) v else []

variable {mem mem' : Nat → UInt64}

theorem walk_congr {level table v : Nat}
    (h : ∀ a ∈ reads mem level table v, mem' a = mem a) :
    walk mem' level table v = walk mem level table v := by
  induction level generalizing table with
  | zero =>
    have hpte := h (entry table v 0) (List.mem_singleton_self _)
    simp only [walk, hpte]
  | succ level ih =>
    have hpte := h (entry table v (level + 1)) (List.mem_cons_self ..)
    simp only [walk, hpte]
    split
    · rfl
    · next husable =>
      split
      · rfl
      · next hleaf =>
        refine ih fun a ha => h a ?_
        rw [reads]
        simp only [Bool.not_eq_true', Bool.not_eq_false, Bool.not_eq_true] at husable hleaf
        simp only [husable, hleaf, Bool.not_false, Bool.and_self, if_true]
        exact List.mem_cons_of_mem _ ha

/-- A walk that finds a leaf reads valid entries only. -/
theorem valid_of_mem_reads {level table v a : Nat} {r : Nat × UInt64}
    (h : walk mem level table v = some r) (ha : a ∈ reads mem level table v) :
    valid (mem a) = true := by
  have valid_of_usable : ∀ {pte}, usable pte = true → valid pte = true := by
    intro pte h
    exact (Bool.and_eq_true_iff.1 h).1
  induction level generalizing table with
  | zero =>
    obtain rfl := List.mem_singleton.1 ha
    simp only [walk] at h
    split at h
    · next hcond => exact valid_of_usable (Bool.and_eq_true_iff.1 hcond).1
    · cases h
  | succ level ih =>
    simp only [walk] at h
    split at h
    · cases h
    · next husable =>
      simp only [Bool.not_eq_true', Bool.not_eq_false] at husable
      rcases List.mem_cons.1 ha with rfl | ha
      · exact valid_of_usable husable
      · split at ha
        · next hcond =>
          have hleaf := (Bool.and_eq_true_iff.1 hcond).2
          rw [Bool.not_eq_true'] at hleaf
          rw [if_neg (by rw [hleaf]; exact Bool.false_ne_true)] at h
          exact ih h ha
        · cases ha

/-! ## Cached translations -/

/-- What a cache keeps of a walk. -/
structure Translation where
  vaddr : Nat
  level : Nat
  pte : UInt64
deriving DecidableEq, Repr

/-- The translation is what the machine finds from this root. -/
def Translation.Present (mem : Nat → UInt64) (root : Nat) (t : Translation) : Prop :=
  walk mem 3 root t.vaddr = some (t.level, t.pte)

instance (mem : Nat → UInt64) (root : Nat) (t : Translation) : Decidable (t.Present mem root) :=
  inferInstanceAs (Decidable (_ = _))

/-- The translation is used for accesses to `v`. -/
def Translation.Covers (t : Translation) (v : Nat) : Prop :=
  v / 2 ^ (12 + 9 * t.level) = t.vaddr / 2 ^ (12 + 9 * t.level)

/-- Where it takes `v`. -/
def Translation.target (t : Translation) (v : Nat) : Nat :=
  ppn t.pte * 2 ^ 12 + v % 2 ^ (12 + 9 * t.level)

theorem Translation.target_of_page (t : Translation) (ht : t.level = 0) (v : Nat) :
    t.target v = ppn t.pte * 2 ^ 12 + v % 4096 := by
  rw [target, ht]
  rfl

/-- Stores may use it. Without the user bit it is for supervisor mode only; supervisor mode may use
all of them here. -/
def Translation.permitsStore (supervisor : Bool) (t : Translation) : Bool :=
  writable t.pte && (supervisor || user t.pte)

/-- No cached translation is stale. -/
def Fresh (mem : Nat → UInt64) (root : Nat) (tlb : Set Translation) : Prop :=
  ∀ t ∈ tlb, t.Present mem root

/-- The words that the walks of the cached translations read. -/
def words (mem : Nat → UInt64) (root : Nat) (tlb : Set Translation) : Set Nat :=
  {a | ∃ t ∈ tlb, a ∈ reads mem 3 root t.vaddr}

variable {root : Nat} {tlb : Set Translation}

theorem fresh_empty : Fresh mem root ∅ := fun _ h => h.elim

theorem Fresh.insert (h : Fresh mem root tlb) {t : Translation} (ht : t.Present mem root) :
    Fresh mem root (insert t tlb) := by
  rintro t' (rfl | ht')
  · exact ht
  · exact h t' ht'

theorem Fresh.of_words (h : Fresh mem root tlb)
    (hmem : ∀ a ∈ words mem root tlb, mem' a = mem a) : Fresh mem' root tlb := fun t ht =>
  (walk_congr fun a ha => hmem a ⟨t, ht, ha⟩).trans (h t ht)

theorem Fresh.valid (h : Fresh mem root tlb) {a : Nat} (ha : a ∈ words mem root tlb) :
    valid (mem a) = true := by
  obtain ⟨t, ht, ha⟩ := ha
  exact valid_of_mem_reads (h t ht) ha

end Zoeax.Lib.Sv48
