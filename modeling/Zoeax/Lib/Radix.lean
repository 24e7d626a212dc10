import Mathlib.Data.Set.Basic
import Mathlib.Logic.Function.Basic

/-!
# Radix trees in memory

A radix tree of tables in a memory of words. A key gives an index at each level; an entry in use
above level 0 leads to a table of the next level down. `Reach` says which tables the path of a key
goes through, `walk` follows the path to its end. In a tree (`Unshared`, and `IsTree` if entries not
in use are empty) no table is on two paths, so that one write changes what is found for the keys
that share the written entry and for no others:

- `IsTree.setLeaf`, `lookup_setLeaf_self`, `lookup_setLeaf_of_not_agree`: an entry at level 0;
- `IsTree.link`, `lookup_link_of_agree`, `lookup_link_of_not_agree`: a new empty table at the end of
  a walk.
-/

namespace Zoeax.Lib.Radix

/-- How the tables of a radix tree for keys `K` lie in a memory of words `W` at addresses `A`. -/
structure Format (K A W : Type) where
  /-- The index of a key in a table of a level. -/
  digit : Nat → K → Nat
  /-- The entry of a table with an index. -/
  slot : A → Nat → A
  /-- What an entry that is in use leads to. -/
  next : W → Option A
  /-- What an entry that is not in use holds. -/
  empty : W
  next_empty : next empty = none
  /-- Where a table may lie. -/
  IsTable : A → Prop
  next_isTable : ∀ {w t}, next w = some t → IsTable t
  slot_inj : ∀ {t u i j k l}, IsTable t → IsTable u → slot t (digit i k) = slot u (digit j l) →
    t = u ∧ digit i k = digit j l

variable {K A W : Type}

/-- The table at a level that the path of key `k` goes through, from the table `root` at level
`top`. -/
inductive Reach (F : Format K A W) (mem : A → W) (top : Nat) (root : A) (k : K) : Nat → A → Prop
  | root : Reach F mem top root k top root
  | down {j : Nat} {t u : A} : Reach F mem top root k (j + 1) t →
      F.next (mem (F.slot t (F.digit (j + 1) k))) = some u → Reach F mem top root k j u

/-- The level at which the path of a key ends, and the entry there, from a table of a level. -/
def walk (F : Format K A W) (mem : A → W) (k : K) : Nat → A → Nat × A
  | 0, t => (0, F.slot t (F.digit 0 k))
  | j + 1, t =>
    match F.next (mem (F.slot t (F.digit (j + 1) k))) with
    | some u => walk F mem k j u
    | none => (j + 1, F.slot t (F.digit (j + 1) k))

/-- What the walk of a key finds: the level, the entry and the word in it. -/
def lookup (F : Format K A W) (mem : A → W) (top : Nat) (root : A) (k : K) : Nat × A × W :=
  ((walk F mem k top root).1, (walk F mem k top root).2, mem (walk F mem k top root).2)

/-- The two keys use the same entry of a table of level `j`, and of those above it. -/
def Agree (F : Format K A W) (top j : Nat) (k l : K) : Prop :=
  ∀ m, j ≤ m → m ≤ top → F.digit m k = F.digit m l

/-- The walk of `k` ends in the table `t` of level `j`. -/
structure End (F : Format K A W) (mem : A → W) (top : Nat) (root : A) (k : K) (j : Nat) (t : A) :
    Prop where
  reach : Reach F mem top root k j t
  stop : j ≠ 0 → F.next (mem (F.slot t (F.digit j k))) = none

/-- The tables that the keys in `S` reach form a tree. -/
structure Unshared (F : Format K A W) (S : Set K) (mem : A → W) (top : Nat) (root : A) : Prop where
  isTable : F.IsTable root
  once : ∀ {k l i j t}, k ∈ S → l ∈ S → Reach F mem top root k i t → Reach F mem top root l j t →
    i = j ∧ Agree F top (i + 1) k l

/-- The tables that the keys in `S` reach form a tree, and entries not in use are empty. -/
structure IsTree (F : Format K A W) (S : Set K) (mem : A → W) (top : Nat) (root : A) : Prop where
  isTable : F.IsTable root
  once : ∀ {k l i j t}, k ∈ S → l ∈ S → Reach F mem top root k i t → Reach F mem top root l j t →
    i = j ∧ Agree F top (i + 1) k l
  clean : ∀ {k j t}, k ∈ S → Reach F mem top root k j t →
    F.next (mem (F.slot t (F.digit j k))) = none → mem (F.slot t (F.digit j k)) = F.empty

/-- An empty table that is on the path of no key in `S`. -/
structure Spare (F : Format K A W) (S : Set K) (mem : A → W) (top : Nat) (root y : A) : Prop where
  isTable : F.IsTable y
  empty : ∀ j k, mem (F.slot y (F.digit j k)) = F.empty
  unreached : ∀ {k j}, k ∈ S → ¬Reach F mem top root k j y

variable {F : Format K A W} {mem : A → W} {top : Nat} {root : A} {k l : K} {j : Nat} {t : A}

/-! ## Paths -/

theorem Agree.mono {i : Nat} (h : Agree F top i k l) (hij : i ≤ j) : Agree F top j k l :=
  fun m hm => h m (hij.trans hm)

theorem Agree.symm (h : Agree F top j k l) : Agree F top j l k :=
  fun m hm hmt => (h m hm hmt).symm

theorem Agree.trans {n : K} (h : Agree F top j k l) (h' : Agree F top j l n) :
    Agree F top j k n :=
  fun m hm hmt => (h m hm hmt).trans (h' m hm hmt)

theorem Agree.cons (h : Agree F top (j + 1) k l) (hj : F.digit j k = F.digit j l) :
    Agree F top j k l := by
  intro m hm hmt
  rcases Nat.eq_or_lt_of_le hm with rfl | hlt
  · exact hj
  · exact h m hlt hmt

namespace Reach

theorem le_top (h : Reach F mem top root k j t) : j ≤ top := by
  induction h with
  | root => exact le_rfl
  | down _ _ ih => omega

theorem isTable (hroot : F.IsTable root) (h : Reach F mem top root k j t) : F.IsTable t := by
  cases h with
  | root => exact hroot
  | down _ hnext => exact F.next_isTable hnext

/-- The table of a level depends on the indices above the level. -/
theorem congr (h : Reach F mem top root k j t) (hkl : Agree F top (j + 1) k l) :
    Reach F mem top root l j t := by
  induction h with
  | root => exact .root
  | @down j t u hr hnext ih =>
    refine .down (ih (hkl.mono (Nat.le_succ _))) ?_
    rwa [← hkl (j + 1) le_rfl hr.le_top]

theorem walk_eq (h : Reach F mem top root k j t) : walk F mem k top root = walk F mem k j t := by
  induction h with
  | root => rfl
  | down _ hnext ih => rw [ih, walk, hnext]

end Reach

namespace End

theorem walk_eq (h : End F mem top root k j t) :
    walk F mem k top root = (j, F.slot t (F.digit j k)) := by
  rw [h.reach.walk_eq]
  cases j with
  | zero => rfl
  | succ j => rw [walk, h.stop (Nat.succ_ne_zero j)]

theorem lookup_eq (h : End F mem top root k j t) : lookup F mem top root k =
    (j, F.slot t (F.digit j k), mem (F.slot t (F.digit j k))) := by
  rw [lookup, h.walk_eq]

end End

theorem Reach.exists_end (h : Reach F mem top root k j t) :
    ∃ i u, End F mem top root k i u := by
  induction j generalizing t with
  | zero => exact ⟨0, t, h, absurd rfl⟩
  | succ j ih =>
    cases hnext : F.next (mem (F.slot t (F.digit (j + 1) k))) with
    | some u => exact ih (h.down hnext)
    | none => exact ⟨j + 1, t, h, fun _ => hnext⟩

variable (F mem top root k) in
/-- Every walk ends. -/
theorem exists_end : ∃ j t, End F mem top root k j t := Reach.root.exists_end

/-- Keys that use the same entry at level 0 have one walk. -/
theorem lookup_congr (h : Agree F top 0 k l) :
    lookup F mem top root k = lookup F mem top root l := by
  obtain ⟨j, t, hend⟩ := exists_end F mem top root k
  have hdigit : F.digit j k = F.digit j l := h j (Nat.zero_le j) hend.reach.le_top
  have hend' : End F mem top root l j t :=
    ⟨hend.reach.congr (h.mono (Nat.zero_le _)), fun h0 => hdigit ▸ hend.stop h0⟩
  rw [hend.lookup_eq, hend'.lookup_eq, hdigit]

theorem IsTree.unshared {S : Set K} (h : IsTree F S mem top root) : Unshared F S mem top root :=
  ⟨h.isTable, h.once⟩

/-! ## Memories that agree on the tree -/

section Agree

variable {S : Set K} {mem' : A → W}
  (hmem : ∀ {k j t}, k ∈ S → Reach F mem top root k j t →
    mem' (F.slot t (F.digit j k)) = mem (F.slot t (F.digit j k)))
include hmem

theorem reach_congr_mem (hk : k ∈ S) :
    Reach F mem' top root k j t ↔ Reach F mem top root k j t := by
  constructor
  · intro hr
    induction hr with
    | root => exact .root
    | down _ hnext ih => exact ih.down (by rwa [hmem hk ih] at hnext)
  · intro hr
    induction hr with
    | root => exact .root
    | down hr hnext ih => exact ih.down (by rwa [hmem hk hr])

theorem lookup_congr_mem (hk : k ∈ S) :
    lookup F mem' top root k = lookup F mem top root k := by
  obtain ⟨j, t, hend⟩ := exists_end F mem top root k
  have hword := hmem hk hend.reach
  have hend' : End F mem' top root k j t :=
    ⟨(reach_congr_mem hmem hk).2 hend.reach, fun h0 => by rw [hword, hend.stop h0]⟩
  rw [hend.lookup_eq, hend'.lookup_eq, hword]

theorem Unshared.congr_mem (h : Unshared F S mem top root) : Unshared F S mem' top root where
  isTable := h.isTable
  once hk hl hr hr' :=
    h.once hk hl ((reach_congr_mem hmem hk).1 hr) ((reach_congr_mem hmem hl).1 hr')

theorem IsTree.congr_mem (h : IsTree F S mem top root) : IsTree F S mem' top root where
  isTable := h.isTable
  once := (h.unshared.congr_mem hmem).once
  clean hk hr hnone := by
    have hr' := (reach_congr_mem hmem hk).1 hr
    rw [hmem hk hr'] at hnone ⊢
    exact h.clean hk hr' hnone

end Agree

/-! ## Writes -/

namespace Unshared

variable {S : Set K}

/-- Two keys that use one entry agree from its level up. -/
theorem agree_of_slot_eq (h : Unshared F S mem top root) {i : Nat} {u : A} (hk : k ∈ S)
    (hl : l ∈ S) (hr : Reach F mem top root k i u) (hr' : Reach F mem top root l j t)
    (heq : F.slot u (F.digit i k) = F.slot t (F.digit j l)) : i = j ∧ Agree F top j k l := by
  obtain ⟨rfl, hdigit⟩ := F.slot_inj (hr.isTable h.isTable) (hr'.isTable h.isTable) heq
  obtain ⟨rfl, hagree⟩ := h.once hk hl hr hr'
  exact ⟨rfl, hagree.cons hdigit⟩

theorem slot_spare_ne (h : Unshared F S mem top root) {y : A} (hl : l ∈ S)
    (hend : End F mem top root l j t) (hy : Spare F S mem top root y) (i : Nat) (k : K) :
    F.slot y (F.digit i k) ≠ F.slot t (F.digit j l) := fun heq =>
  hy.unreached hl ((F.slot_inj hy.isTable (hend.reach.isTable h.isTable) heq).1 ▸ hend.reach)

variable [DecidableEq A] {w : W}

/-- A write to the entry in which the walk of `l` ends keeps all paths. -/
theorem reach_update (h : Unshared F S mem top root) (hl : l ∈ S) (hend : End F mem top root l j t)
    {i : Nat} {u : A} (hk : k ∈ S) (hr : Reach F mem top root k i u) :
    Reach F (Function.update mem (F.slot t (F.digit j l)) w) top root k i u := by
  induction hr with
  | root => exact .root
  | @down i u v hr hnext ih =>
    refine .down ih ?_
    rw [Function.update_of_ne, hnext]
    intro heq
    obtain ⟨rfl, -⟩ := h.agree_of_slot_eq hk hl hr hend.reach heq
    rw [heq, hend.stop (Nat.succ_ne_zero i)] at hnext
    cases hnext

/-- What the write does not change: the word in any other entry. -/
theorem update_slot_of_not_agree (h : Unshared F S mem top root) (hl : l ∈ S)
    (hend : End F mem top root l j t) {i : Nat} {u : A} (hk : k ∈ S)
    (hr : Reach F mem top root k i u) (hne : ¬Agree F top j k l) :
    Function.update mem (F.slot t (F.digit j l)) w (F.slot u (F.digit i k)) =
      mem (F.slot u (F.digit i k)) :=
  Function.update_of_ne (fun heq => hne (h.agree_of_slot_eq hk hl hr hend.reach heq).2) ..

/-- The walk of a key that does not use the written entry finds what it found. -/
theorem lookup_update_of_not_agree (h : Unshared F S mem top root) (hl : l ∈ S)
    (hend : End F mem top root l j t) (hk : k ∈ S) (hne : ¬Agree F top j k l) :
    lookup F (Function.update mem (F.slot t (F.digit j l)) w) top root k =
      lookup F mem top root k := by
  obtain ⟨i, u, hi⟩ := exists_end F mem top root k
  have hword := h.update_slot_of_not_agree (w := w) hl hend hk hi.reach hne
  have hi' : End F (Function.update mem (F.slot t (F.digit j l)) w) top root k i u :=
    ⟨h.reach_update hl hend hk hi.reach, fun h0 => by rw [hword, hi.stop h0]⟩
  rw [hi.lookup_eq, hi'.lookup_eq, hword]

/-! ### An entry at level 0 -/

theorem reach_of_setLeaf (h : Unshared F S mem top root) (hl : l ∈ S)
    (hend : End F mem top root l 0 t) {i : Nat} {u : A} (hk : k ∈ S)
    (hr : Reach F (Function.update mem (F.slot t (F.digit 0 l)) w) top root k i u) :
    Reach F mem top root k i u := by
  induction hr with
  | root => exact .root
  | @down i u v _ hnext ih =>
    refine ih.down ?_
    rwa [Function.update_of_ne] at hnext
    intro heq
    cases (h.agree_of_slot_eq hk hl ih hend.reach heq).1

theorem end_setLeaf (h : Unshared F S mem top root) (hl : l ∈ S) (hend : End F mem top root l 0 t) :
    End F (Function.update mem (F.slot t (F.digit 0 l)) w) top root l 0 t :=
  ⟨h.reach_update hl hend hl hend.reach, absurd rfl⟩

theorem lookup_setLeaf_self (h : Unshared F S mem top root) (hl : l ∈ S)
    (hend : End F mem top root l 0 t) :
    lookup F (Function.update mem (F.slot t (F.digit 0 l)) w) top root l =
      (0, F.slot t (F.digit 0 l), w) := by
  rw [(h.end_setLeaf hl hend).lookup_eq, Function.update_self]

/-! ### A new table -/

section Link

variable {y : A} (h : Unshared F S mem top root) (hl : l ∈ S)
  (hend : End F mem top root l (j + 1) t) (hy : Spare F S mem top root y) (hw : F.next w = some y)

include h hl hend hy hw

/-- The new table is on the paths of the keys that use its entry, and there are no other new
paths. -/
theorem reach_of_link {i : Nat} {u : A} (hk : k ∈ S)
    (hr : Reach F (Function.update mem (F.slot t (F.digit (j + 1) l)) w) top root k i u) :
    Reach F mem top root k i u ∨ i = j ∧ u = y ∧ Agree F top (j + 1) k l := by
  induction hr with
  | root => exact .inl .root
  | @down i u v _ hnext ih =>
    rcases ih with hold | ⟨rfl, rfl, hagree⟩
    · by_cases heq : F.slot u (F.digit (i + 1) k) = F.slot t (F.digit (j + 1) l)
      · obtain ⟨hij, hagree⟩ := h.agree_of_slot_eq hk hl hold hend.reach heq
        rw [heq, Function.update_self, hw] at hnext
        exact .inr ⟨Nat.succ.inj hij, (Option.some.inj hnext).symm, hagree⟩
      · rw [Function.update_of_ne heq] at hnext
        exact .inl (hold.down hnext)
    · -- the new table is empty
      rw [Function.update_of_ne (h.slot_spare_ne hl hend hy _ k), hy.empty, F.next_empty] at hnext
      cases hnext

/-- The walk of a key that uses the written entry goes one level deeper. -/
theorem end_link (hk : k ∈ S) (hagree : Agree F top (j + 1) k l) :
    End F (Function.update mem (F.slot t (F.digit (j + 1) l)) w) top root k j y := by
  have hreach : Reach F mem top root k (j + 1) t :=
    hend.reach.congr (hagree.mono (Nat.le_succ _)).symm
  refine ⟨.down (h.reach_update hl hend hk hreach) ?_, fun _ => ?_⟩
  · rw [hagree (j + 1) le_rfl hend.reach.le_top, Function.update_self, hw]
  · rw [Function.update_of_ne (h.slot_spare_ne hl hend hy j k), hy.empty, F.next_empty]

theorem lookup_link_of_agree (hk : k ∈ S) (hagree : Agree F top (j + 1) k l) :
    lookup F (Function.update mem (F.slot t (F.digit (j + 1) l)) w) top root k =
      (j, F.slot y (F.digit j k), F.empty) := by
  rw [(h.end_link hl hend hy hw hk hagree).lookup_eq,
    Function.update_of_ne (h.slot_spare_ne hl hend hy j k), hy.empty]

/-- A tree stays a tree when an empty table that is not in it is linked at the end of a walk. -/
theorem link : Unshared F S (Function.update mem (F.slot t (F.digit (j + 1) l)) w) top root where
  isTable := h.isTable
  once {k k' i i' u} hk hk' hr hr' := by
    rcases h.reach_of_link hl hend hy hw hk hr with hold | ⟨rfl, rfl, hagree⟩ <;>
      rcases h.reach_of_link hl hend hy hw hk' hr' with hold' | ⟨rfl, hu, hagree'⟩
    · exact h.once hk hk' hold hold'
    · exact absurd (hu ▸ hold) (hy.unreached hk)
    · exact absurd hold' (hy.unreached hk')
    · exact ⟨rfl, hagree.trans hagree'.symm⟩

/-- Another spare table stays spare. -/
theorem spare_link {z : A} (hz : Spare F S mem top root z) (hne : z ≠ y) :
    Spare F S (Function.update mem (F.slot t (F.digit (j + 1) l)) w) top root z where
  isTable := hz.isTable
  empty i k := by rw [Function.update_of_ne (h.slot_spare_ne hl hend hz i k), hz.empty]
  unreached {k i} hk hr := by
    rcases h.reach_of_link hl hend hy hw hk hr with hold | ⟨-, rfl, -⟩
    · exact hz.unreached hk hold
    · exact hne rfl

end Link

end Unshared

namespace IsTree

variable {S : Set K} [DecidableEq A] {w : W}

/-- A tree stays a tree when an entry at level 0 gets a word that is in use, or the empty one. -/
theorem setLeaf (h : IsTree F S mem top root) (hl : l ∈ S) (hend : End F mem top root l 0 t)
    (hw : F.next w = none → w = F.empty) :
    IsTree F S (Function.update mem (F.slot t (F.digit 0 l)) w) top root where
  isTable := h.isTable
  once hk hl' hr hr' :=
    h.once hk hl' (h.unshared.reach_of_setLeaf hl hend hk hr)
      (h.unshared.reach_of_setLeaf hl hend hl' hr')
  clean {k i u} hk hr hnone := by
    by_cases heq : F.slot u (F.digit i k) = F.slot t (F.digit 0 l)
    · rw [heq, Function.update_self] at hnone ⊢
      exact hw hnone
    · rw [Function.update_of_ne heq] at hnone ⊢
      exact h.clean hk (h.unshared.reach_of_setLeaf hl hend hk hr) hnone

theorem link {y : A} (h : IsTree F S mem top root) (hl : l ∈ S)
    (hend : End F mem top root l (j + 1) t) (hy : Spare F S mem top root y)
    (hw : F.next w = some y) :
    IsTree F S (Function.update mem (F.slot t (F.digit (j + 1) l)) w) top root where
  isTable := h.isTable
  once := (h.unshared.link hl hend hy hw).once
  clean {k i u} hk hr hnone := by
    rcases h.unshared.reach_of_link hl hend hy hw hk hr with hold | ⟨rfl, rfl, -⟩
    · by_cases heq : F.slot u (F.digit i k) = F.slot t (F.digit (j + 1) l)
      · rw [heq, Function.update_self, hw] at hnone
        cases hnone
      · rw [Function.update_of_ne heq] at hnone ⊢
        exact h.clean hk hold hnone
    · rw [Function.update_of_ne (h.unshared.slot_spare_ne hl hend hy i k), hy.empty]

end IsTree

/-! ## A root table without entries -/

section Empty

variable {S : Set K} (hempty : ∀ k ∈ S, mem (F.slot root (F.digit top k)) = F.empty)
include hempty

theorem reach_of_empty (hk : k ∈ S) (hr : Reach F mem top root k j t) : j = top ∧ t = root := by
  induction hr with
  | root => exact ⟨rfl, rfl⟩
  | down _ hnext ih =>
    rw [ih.1, ih.2, hempty k hk, F.next_empty] at hnext
    cases hnext

theorem isTree_of_empty (hroot : F.IsTable root) : IsTree F S mem top root := by
  refine ⟨hroot, fun hk hl hr hr' => ?_, fun hk hr _ => ?_⟩
  · obtain ⟨rfl, -⟩ := reach_of_empty hempty hk hr
    obtain ⟨rfl, -⟩ := reach_of_empty hempty hl hr'
    exact ⟨rfl, fun m hm hmt => absurd hmt (by omega)⟩
  · obtain ⟨rfl, rfl⟩ := reach_of_empty hempty hk hr
    exact hempty _ hk

theorem end_of_empty (hk : k ∈ S) : End F mem top root k top root :=
  ⟨.root, fun _ => by rw [hempty k hk, F.next_empty]⟩

theorem spare_of_empty {y : A} (hy : F.IsTable y) (hne : y ≠ root)
    (hyempty : ∀ j k, mem (F.slot y (F.digit j k)) = F.empty) : Spare F S mem top root y :=
  ⟨hy, hyempty, fun hk hr => hne (reach_of_empty hempty hk hr).2⟩

end Empty

end Zoeax.Lib.Radix
