import Zoeax.Lib.Sv48
import Zoeax.Verify.Mapping

/-!
# What a program sees of its address space

The user half of an address space: below its root the tables are `PageTable` objects that form a
tree, and entries above the last level lead to tables (`UserSpace`). What a program sees at a page
is the flags of the entry and the bytes of the frame (`pageImage`). `Loaded cfg s root done` says
that the pages of the user half are exactly those of `done`, each in a frame of its own. It follows
the steps of a loader:

- `Loaded.of_mem`: memory elsewhere, and new objects;
- `Loaded.link`: a new table;
- `Loaded.setPage`: a blank page at a free address;
- `Loaded.fill`: bytes for a page.
-/

namespace Zoeax

open Lib Exec
open PageTable (entry)

variable {cfg : Config} {s s' : KState} {root v : Nat}

/-! ## Bytes -/

/-- A word made of eight bytes has these bytes. -/
theorem byteOf_foldr {d : Nat → Nat} (hd : ∀ k, d k < 256) {k : Nat} (hk : k < 8) :
    byteOf (UInt64.ofNat ((List.range 8).foldr (fun k acc => 256 * acc + d k) 0)) k = d k := by
  have h0 := hd 0
  have h1 := hd 1
  have h2 := hd 2
  have h3 := hd 3
  have h4 := hd 4
  have h5 := hd 5
  have h6 := hd 6
  have h7 := hd 7
  have hsum : (List.range 8).foldr (fun k acc => 256 * acc + d k) 0 = d 0 + 256 * (d 1 + 256 *
      (d 2 + 256 * (d 3 + 256 * (d 4 + 256 * (d 5 + 256 * (d 6 + 256 * d 7)))))) := by
    simp only [List.range, List.range.loop, List.foldr]
    omega
  rw [byteOf, hsum, UInt64.toNat_ofNat', Nat.shiftRight_eq_div_pow]
  obtain rfl | rfl | rfl | rfl | rfl | rfl | rfl | rfl : k = 0 ∨ k = 1 ∨ k = 2 ∨ k = 3 ∨ k = 4 ∨
    k = 5 ∨ k = 6 ∨ k = 7 := by omega
  all_goals omega

theorem byteOf_mergeBytes (old : UInt64) (src : Nat → Option UInt8) {k : Nat} (hk : k < 8) :
    byteOf (mergeBytes old src) k = ((src k).map UInt8.toNat).getD (byteOf old k) := by
  refine byteOf_foldr (d := fun k => ((src k).map UInt8.toNat).getD (byteOf old k)) (fun k => ?_) hk
  cases src k with
  | none => exact Nat.mod_lt _ (by decide)
  | some b => exact b.toNat_lt

namespace KState

/-- Byte `i` of the frame at `f`. -/
def frameByte (s : KState) (f i : Nat) : UInt8 :=
  UInt8.ofNat (byteOf (s.mem (f + 8 * (i / 8))) (i % 8))

theorem frameByte_copyBytes (s : KState) (f : Nat) (src : Nat → UInt8) (n i : Nat) :
    (s.copyBytes f src n).frameByte f i = if i < n then src i else s.frameByte f i := by
  rw [frameByte, copyBytes]
  dsimp only
  by_cases hword : 8 * (i / 8) < n
  · have hi : f + 8 * (i / 8) - f + i % 8 = i := by omega
    rw [if_pos (by omega), byteOf_mergeBytes _ _ (Nat.mod_lt _ (by decide)), hi]
    split
    · exact UInt8.ofNat_toNat
    · rfl
  · rw [if_neg (by omega), if_neg (by omega)]
    rfl

theorem frameByte_of_zero {f i : Nat} (h : ∀ j < 512, s.mem (f + 8 * j) = 0) (hi : i < 4096) :
    s.frameByte f i = 0 := by
  rw [frameByte, h (i / 8) (by omega)]
  simp [byteOf]

theorem frameByte_congr {f i : Nat} (h : ∀ j < 512, s'.mem (f + 8 * j) = s.mem (f + 8 * j))
    (hi : i < 4096) : s'.frameByte f i = s.frameByte f i := by
  rw [frameByte, h (i / 8) (by omega), frameByte]

end KState

/-! ## The user half -/

theorem entry_sv48 (t v l : Nat) : Sv48.entry t v l = entry t (getVpn v l) := by
  rw [Sv48.entry, entry, getVpn_eq, Nat.mul_comm 9 l]
  rfl

/-- The machine goes from the entry to the table that the kernel goes to. -/
structure Pte.Pointer (pte : UInt64) : Prop where
  usable : Sv48.usable pte = true
  not_leaf : Sv48.leaf pte = false
  target : Sv48.ppn pte * 2 ^ 12 = Pte.target pte

/-- The tables that user addresses reach from `root` are objects and form a tree; above the last
level the machine goes on to the next table. -/
structure UserSpace (s : KState) (root : Nat) : Prop where
  tree : Radix.IsTree sv48 {v | v < 2 ^ 47} s.mem 3 root
  tables : ∀ {v j t}, v < 2 ^ 47 → Radix.Reach sv48 s.mem 3 root v j t → s.IsTable t
  pointers : ∀ {v j t}, v < 2 ^ 47 → Radix.Reach sv48 s.mem 3 root v (j + 1) t →
    Pte.isValid (s.mem (entry t (getVpn v (j + 1)))) = true →
    Pte.Pointer (s.mem (entry t (getVpn v (j + 1))))

theorem HeapWF.liveTable (hwf : HeapWF cfg s) {t : Nat} (ht : s.IsTable t) : s.LiveTable cfg t := by
  obtain ⟨o, ho, hk, rfl⟩ := KState.isTable_iff.1 ht
  exact KState.liveTable_of_mem ho hk (hwf.frame_bounds ho (.inr hk)).1

theorem Pte.testBit_write_flags {y flags : Nat} (hy : y < 2 ^ 47) (hflags : flags < 2 ^ 10)
    {i : Nat} (hi : i < 10) : (Pte.write y flags).toNat.testBit i = flags.testBit i := by
  have hmod : (y / 2 ^ 12 * 2 ^ 10 + flags) % 2 ^ 10 = flags := by omega
  have := Nat.testBit_mod_two_pow (y / 2 ^ 12 * 2 ^ 10 + flags) 10 i
  rw [hmod, decide_eq_true hi, Bool.true_and] at this
  rw [Pte.toNat_write hy hflags, ← this]

/-- The machine and the kernel agree on the frame of an entry. -/
theorem Pte.ppn_write {y flags : Nat} (hy : y < 2 ^ 47) (hal : y % 4096 = 0)
    (hflags : flags < 2 ^ 10) : Sv48.ppn (Pte.write y flags) * 2 ^ 12 = y := by
  rw [Sv48.ppn, Pte.toNat_write hy hflags]
  omega

/-- A table that is linked is not a leaf. -/
theorem Pte.pointer_write {y : Nat} (hy : y < 2 ^ 47) (hal : y % 4096 = 0) :
    Pte.Pointer (Pte.write y pageV) := by
  have hflag : pageV < 2 ^ 10 := by decide
  have hbit : ∀ i < 10, _ = pageV.testBit i := fun i hi => Pte.testBit_write_flags hy hflag hi
  refine ⟨?_, ?_, (Pte.ppn_write hy hal hflag).trans (Pte.target_write hy hal hflag).symm⟩
  · rw [Sv48.usable, Sv48.valid, Sv48.readable, Sv48.writable, hbit 0 (by decide),
      hbit 1 (by decide), hbit 2 (by decide)]
    decide
  · rw [Sv48.leaf, Sv48.readable, Sv48.executable, hbit 1 (by decide), hbit 3 (by decide)]
    decide

namespace UserSpace

theorem addressSpace (h : UserSpace s root) (hwf : HeapWF cfg s) :
    AddressSpace cfg s root (2 ^ 47) :=
  ⟨h.tree, fun hv hr => hwf.liveTable (h.tables hv hr)⟩

/-- The memory may change elsewhere, and there may be more objects. -/
theorem of_mem (h : UserSpace s root) (hobj : ∀ o ∈ s.objects, o ∈ s'.objects)
    (hmem : ∀ {v j t}, v < 2 ^ 47 → Radix.Reach sv48 s.mem 3 root v j t →
      ∀ i < 512, s'.mem (entry t i) = s.mem (entry t i)) : UserSpace s' root := by
  have hagree : ∀ {v j t}, v ∈ {v | v < 2 ^ 47} → Radix.Reach sv48 s.mem 3 root v j t →
      s'.mem (sv48.slot t (sv48.digit j v)) = s.mem (sv48.slot t (sv48.digit j v)) :=
    fun hv hr => hmem hv hr _ (getVpn_lt ..)
  refine ⟨h.tree.congr_mem hagree, fun hv hr => ?_, fun hv hr hvalid => ?_⟩
  · obtain ⟨o, ho, hk⟩ := KState.isTable_iff.1
      (h.tables hv ((Radix.reach_congr_mem hagree hv).1 hr))
    exact KState.isTable_iff.2 ⟨o, hobj o ho, hk⟩
  · have hr' := (Radix.reach_congr_mem hagree hv).1 hr
    rw [hmem hv hr' _ (getVpn_lt ..)] at hvalid ⊢
    exact h.pointers hv hr' hvalid

/-- An entry of a last-level table gets a valid word, or zero. -/
theorem setLeaf (h : UserSpace s root) (hv : v < 2 ^ 47) {t : Nat}
    (hend : Radix.End sv48 s.mem 3 root v 0 t) {w : UInt64} (hw : Pte.isValid w = false → w = 0) :
    UserSpace (s.setWord (entry t (getVpn v 0)) w) root where
  tree := h.tree.setLeaf hv hend fun hnone => hw (sv48_next_eq_none.1 hnone)
  tables hu hr := h.tables hu (h.tree.unshared.reach_of_setLeaf hv hend hu hr)
  pointers {u j t'} hu hr := by
    have hr' := h.tree.unshared.reach_of_setLeaf hv hend hu hr
    have hword : (s.setWord (entry t (getVpn v 0)) w).mem (entry t' (getVpn u (j + 1))) =
        s.mem (entry t' (getVpn u (j + 1))) := by
      refine KState.mem_setWord_of_ne s (fun heq => ?_) w
      cases (h.tree.unshared.agree_of_slot_eq hu hv hr' hend.reach heq).1
    rw [hword]
    exact h.pointers hu hr'

/-- A spare table is linked at the end of a walk. -/
theorem link (h : UserSpace s root) (hv : v < 2 ^ 47) {l t y : Nat}
    (hend : Radix.End sv48 s.mem 3 root v (l + 1) t) (hy : SpareTable cfg s root (2 ^ 47) y)
    (htable : s.IsTable y) :
    UserSpace (s.setWord (entry t (getVpn v (l + 1))) (Pte.write y pageV)) root where
  tree := h.tree.link hv hend hy.spare hy.next_write
  tables hu hr := by
    rcases h.tree.unshared.reach_of_link hv hend hy.spare hy.next_write hu hr with
      hold | ⟨-, rfl, -⟩
    · exact h.tables hu hold
    · exact htable
  pointers {u j t'} hu hr hvalid := by
    rcases h.tree.unshared.reach_of_link hv hend hy.spare hy.next_write hu hr with
      hold | ⟨rfl, rfl, -⟩
    · by_cases heq : entry t' (getVpn u (j + 1)) = entry t (getVpn v (l + 1))
      · rw [heq, KState.mem_setWord_self]
        exact Pte.pointer_write hy.lt hy.spare.isTable
      · rw [KState.mem_setWord_of_ne s heq] at hvalid ⊢
        exact h.pointers hu hold hvalid
    · -- the new table is empty
      have hne := h.tree.unshared.slot_spare_ne hv hend hy.spare (j + 1) u
      have hzero : s.mem (entry t' (getVpn u (j + 1))) = 0 := hy.spare.empty (j + 1) u
      have hword : (s.setWord (entry t (getVpn v (j + 1 + 1))) (Pte.write t' pageV)).mem
          (entry t' (getVpn u (j + 1))) = 0 := (KState.mem_setWord_of_ne s hne _).trans hzero
      rw [hword, Pte.not_isValid_zero] at hvalid
      cases hvalid

end UserSpace

/-! ## Pages -/

/-- What a program sees of a page. -/
structure PageImage where
  flags : Nat
  byte : Nat → UInt8

/-- The word that a walk found, if it is a valid one at level 0. -/
def leafOf (found : Nat × Nat × UInt64) : Option UInt64 :=
  if found.1 = 0 ∧ Pte.isValid found.2.2 = true then some found.2.2 else none

namespace KState

/-- The entry for the page of `v`, if it is mapped. -/
def leaf? (s : KState) (root v : Nat) : Option UInt64 :=
  leafOf (Radix.lookup sv48 s.mem 3 root v)

/-- What a program sees of the frame behind an entry. -/
def frameImage (s : KState) (pte : UInt64) : PageImage where
  flags := pte.toNat % 2 ^ 10
  byte i := if i < pageSize then s.frameByte (Pte.target pte) i else 0

/-- What a program in the address space of `root` sees at the page of `v`. -/
def pageImage (s : KState) (root v : Nat) : Option PageImage :=
  (s.leaf? root v).map s.frameImage

theorem leaf?_of_end {l t : Nat} (h : Radix.End sv48 s.mem 3 root v l t) :
    s.leaf? root v = if l = 0 ∧ Pte.isValid (s.mem (entry t (getVpn v l))) = true then
      some (s.mem (entry t (getVpn v l))) else none := by
  rw [leaf?, h.lookup_eq]
  rfl

/-- A page has one entry. -/
theorem leaf?_congr {u : Nat} (h : u / 2 ^ 12 = v / 2 ^ 12) : s.leaf? root u = s.leaf? root v := by
  have hagree : Radix.Agree sv48 3 0 u v := fun m _ _ => by
    change getVpn u m = getVpn v m
    rw [getVpn_eq, getVpn_eq, pow_add, ← Nat.div_div_eq_div_mul, ← Nat.div_div_eq_div_mul, h]
  rw [leaf?, leaf?, Radix.lookup_congr hagree]

end KState

theorem not_agree_of_page {u : Nat} (hu : u < 2 ^ 47) (hv : v < 2 ^ 47)
    (hne : u / 2 ^ 12 ≠ v / 2 ^ 12) : ¬Radix.Agree sv48 3 0 u v := fun h =>
  hne (div_eq_of_agree (j := 0) (by omega) (by omega) (by decide) h)

namespace UserSpace

theorem leaf?_of_mem (hmem : ∀ {v j t}, v < 2 ^ 47 → Radix.Reach sv48 s.mem 3 root v j t →
    ∀ i < 512, s'.mem (entry t i) = s.mem (entry t i)) (hv : v < 2 ^ 47) :
    s'.leaf? root v = s.leaf? root v := by
  have hlookup := Radix.lookup_congr_mem (F := sv48) (S := {v | v < 2 ^ 47})
    (fun hv hr => hmem hv hr _ (getVpn_lt ..)) hv
  rw [KState.leaf?, KState.leaf?, hlookup]

theorem leaf?_setWord (h : UserSpace s root) (hv : v < 2 ^ 47) {t : Nat}
    (hend : Radix.End sv48 s.mem 3 root v 0 t) (w : UInt64) {u : Nat} (hu : u < 2 ^ 47) :
    (s.setWord (entry t (getVpn v 0)) w).leaf? root u =
      if u / 2 ^ 12 = v / 2 ^ 12 then if Pte.isValid w = true then some w else none
      else s.leaf? root u := by
  split
  · next hpage =>
    rw [KState.leaf?_congr hpage, KState.leaf?_of_end (h.tree.unshared.end_setLeaf hv hend),
      KState.mem_setWord_self]
    exact if_congr (and_iff_right rfl) rfl rfl
  · next hpage =>
    have hlookup := h.tree.unshared.lookup_update_of_not_agree (w := w) hv hend hu
      (not_agree_of_page hu hv hpage)
    exact congrArg leafOf hlookup

theorem leaf?_setLeaf (h : UserSpace s root) (hv : v < 2 ^ 47) {t : Nat}
    (hend : Radix.End sv48 s.mem 3 root v 0 t) {w : UInt64} (hw : Pte.isValid w = true) {u : Nat}
    (hu : u < 2 ^ 47) : (s.setWord (entry t (getVpn v 0)) w).leaf? root u =
      if u / 2 ^ 12 = v / 2 ^ 12 then some w else s.leaf? root u := by
  rw [h.leaf?_setWord hv hend w hu, if_pos hw]

theorem leaf?_link (h : UserSpace s root) (hv : v < 2 ^ 47) {l t y : Nat}
    (hend : Radix.End sv48 s.mem 3 root v (l + 1) t) (hy : SpareTable cfg s root (2 ^ 47) y)
    {u : Nat} (hu : u < 2 ^ 47) :
    (s.setWord (entry t (getVpn v (l + 1))) (Pte.write y pageV)).leaf? root u =
      s.leaf? root u := by
  by_cases hagree : Radix.Agree sv48 3 (l + 1) u v
  · -- the walk ended above the last level, and now ends in an empty table
    have hold : Radix.End sv48 s.mem 3 root u (l + 1) t := by
      have hdigit : getVpn u (l + 1) = getVpn v (l + 1) := hagree _ le_rfl hend.reach.le_top
      refine ⟨hend.reach.congr (hagree.mono (Nat.le_succ _)).symm, fun h0 => ?_⟩
      exact (congrArg (fun i => sv48.next (s.mem (entry t i))) hdigit).trans (hend.stop h0)
    have hnew := h.tree.unshared.lookup_link_of_agree hv hend hy.spare hy.next_write hu hagree
    rw [KState.leaf?_of_end hold, if_neg (fun h0 => Nat.succ_ne_zero l h0.1)]
    refine (congrArg leafOf hnew).trans (if_neg fun h0 => ?_)
    exact absurd h0.2 (show ¬Pte.isValid 0 = true by decide)
  · have hlookup :=
      h.tree.unshared.lookup_update_of_not_agree (w := Pte.write y pageV) hv hend hu hagree
    exact congrArg leafOf hlookup

end UserSpace

/-- The user half of the address space of `root` has the pages of `done`, by page number, each in a
frame of its own. -/
structure Loaded (cfg : Config) (s : KState) (root : Nat) (done : Nat → Option PageImage) :
    Prop where
  wf : HeapWF cfg s
  zero : FreeZero cfg s
  space : UserSpace s root
  image : ∀ v < 2 ^ 47, s.pageImage root v = done (v / 2 ^ 12)
  frames : ∀ v < 2 ^ 47, ∀ pte, s.leaf? root v = some pte →
    s.isObject .page (Pte.target pte) = true
  once : ∀ v < 2 ^ 47, ∀ u < 2 ^ 47, ∀ pte pte', s.leaf? root v = some pte →
    s.leaf? root u = some pte' → Pte.target pte = Pte.target pte' → v / 2 ^ 12 = u / 2 ^ 12

/-- The page at `f` is all zero and not mapped. -/
structure Blank (s : KState) (root f : Nat) : Prop where
  live : s.isObject .page f = true
  zero : ∀ i < 512, s.mem (f + 8 * i) = 0
  unmapped : ∀ v < 2 ^ 47, ∀ pte, s.leaf? root v = some pte → Pte.target pte ≠ f

theorem HeapWF.page_lt (hwf : HeapWF cfg s) {f : Nat} (hf : s.isObject .page f = true) :
    f < 2 ^ 47 ∧ f % 4096 = 0 := by
  obtain ⟨o, ho, hk, rfl⟩ := KState.isObject_iff.1 hf
  obtain ⟨-, hal, -, -⟩ := hwf.frame_bounds ho (.inl hk)
  exact ⟨(Object.lt_of_admissible (hwf.admissible o ho)).2.2.1, hal⟩

/-- The entry of a page leads to it. -/
theorem HeapWF.target_page (hwf : HeapWF cfg s) {f flags : Nat} (hf : s.isObject .page f = true)
    (hflags : flags < 2 ^ 10) : Pte.target (Pte.write f flags) = f :=
  Pte.target_write (hwf.page_lt hf).1 (hwf.page_lt hf).2 hflags

/-- A word of a page is not an entry of a table. -/
theorem HeapWF.word_ne_entry (hwf : HeapWF cfg s) {f t : Nat} (hf : s.isObject .page f = true)
    (ht : s.IsTable t) {i j : Nat} (hj : j < 512) (hi : i < 512) : f + 8 * j ≠ entry t i := by
  obtain ⟨o, ho, hk, rfl⟩ := KState.isObject_iff.1 hf
  have hapart := hwf.page_apart ho hk ht
  rw [entry]
  omega

/-- A table does not change when a page is filled. -/
theorem HeapWF.mem_copyBytes (hwf : HeapWF cfg s) {f t : Nat} (hf : s.isObject .page f = true)
    (ht : s.IsTable t) (src : Nat → UInt8) {n i : Nat} (hn : n ≤ pageSize) (hi : i < 512) :
    (s.copyBytes f src n).mem (entry t i) = s.mem (entry t i) := by
  obtain ⟨o, ho, hk, rfl⟩ := KState.isObject_iff.1 hf
  have hapart := hwf.page_apart ho hk ht
  rw [pageSize] at hn
  refine if_neg ?_
  rw [entry]
  omega

/-- Different pages have different words. -/
theorem HeapWF.pages_apart (hwf : HeapWF cfg s) {f g : Nat} (hf : s.isObject .page f = true)
    (hg : s.isObject .page g = true) (hne : f ≠ g) : f + 4096 ≤ g ∨ g + 4096 ≤ f := by
  obtain ⟨o, ho, hk, rfl⟩ := KState.isObject_iff.1 hf
  obtain ⟨o', ho', hk', rfl⟩ := KState.isObject_iff.1 hg
  have hsize := (hwf.frame_bounds ho (.inl hk)).1
  have hsize' := (hwf.frame_bounds ho' (.inl hk')).1
  rcases hwf.eq_or_apart ho ho' with rfl | hapart
  · exact absurd rfl hne
  · simp only [Object.overlaps, Bool.and_eq_false_iff, decide_eq_false_iff_not] at hapart
    omega

theorem KState.isObject_mono {k : CapabilityType} {f : Nat}
    (hobj : ∀ o ∈ s.objects, o ∈ s'.objects) (h : s.isObject k f = true) :
    s'.isObject k f = true := by
  obtain ⟨o, ho, hk⟩ := KState.isObject_iff.1 h
  exact KState.isObject_iff.2 ⟨o, hobj o ho, hk⟩

theorem KState.frameImage_congr {pte : UInt64}
    (h : ∀ i < 512, s'.mem (Pte.target pte + 8 * i) = s.mem (Pte.target pte + 8 * i)) :
    s'.frameImage pte = s.frameImage pte := by
  have hbyte : ∀ i, (if i < pageSize then s'.frameByte (Pte.target pte) i else 0) =
      if i < pageSize then s.frameByte (Pte.target pte) i else 0 := by
    intro i
    split
    · next hi => exact KState.frameByte_congr h hi
    · rfl
  rw [KState.frameImage, KState.frameImage, funext hbyte]

theorem KState.pageImage_congr (hleaf : s'.leaf? root v = s.leaf? root v)
    (hmem : ∀ pte, s.leaf? root v = some pte →
      ∀ i < 512, s'.mem (Pte.target pte + 8 * i) = s.mem (Pte.target pte + 8 * i)) :
    s'.pageImage root v = s.pageImage root v := by
  rw [KState.pageImage, KState.pageImage, hleaf]
  cases hpte : s.leaf? root v with
  | none => rfl
  | some pte => exact congrArg some (KState.frameImage_congr (hmem pte hpte))

namespace Loaded

variable {done done' : Nat → Option PageImage}

/-- The same pages are mapped, and what is in them is that of `done'`. -/
theorem of_leaf (h : Loaded cfg s root done) (hwf : HeapWF cfg s') (hzero : FreeZero cfg s')
    (hspace : UserSpace s' root) (hobj : ∀ o ∈ s.objects, o ∈ s'.objects)
    (hleaf : ∀ {v}, v < 2 ^ 47 → s'.leaf? root v = s.leaf? root v)
    (himage : ∀ v < 2 ^ 47, s'.pageImage root v = done' (v / 2 ^ 12)) :
    Loaded cfg s' root done' := by
  refine ⟨hwf, hzero, hspace, himage, fun v hv pte hpte => ?_,
    fun v hv u hu pte pte' hpte hpte' => ?_⟩
  · rw [hleaf hv] at hpte
    exact KState.isObject_mono hobj (h.frames v hv pte hpte)
  · rw [hleaf hv] at hpte
    rw [hleaf hu] at hpte'
    exact h.once v hv u hu pte pte' hpte hpte'

/-- The memory may change outside the tables and the pages, and there may be more objects. -/
theorem of_mem (h : Loaded cfg s root done) (hwf : HeapWF cfg s') (hzero : FreeZero cfg s')
    (hobj : ∀ o ∈ s.objects, o ∈ s'.objects)
    (htables : ∀ {v j t}, v < 2 ^ 47 → Radix.Reach sv48 s.mem 3 root v j t →
      ∀ i < 512, s'.mem (entry t i) = s.mem (entry t i))
    (hpages : ∀ v < 2 ^ 47, ∀ pte, s.leaf? root v = some pte →
      ∀ i < 512, s'.mem (Pte.target pte + 8 * i) = s.mem (Pte.target pte + 8 * i)) :
    Loaded cfg s' root done := by
  have hleaf : ∀ {v}, v < 2 ^ 47 → s'.leaf? root v = s.leaf? root v :=
    fun hv => UserSpace.leaf?_of_mem htables hv
  refine h.of_leaf hwf hzero (h.space.of_mem hobj htables) hobj hleaf fun v hv => ?_
  rw [← h.image v hv]
  exact KState.pageImage_congr (hleaf hv) (hpages v hv)

/-- Capabilities and threads do not matter. -/
theorem congr (h : Loaded cfg s root done) (hwf : HeapWF cfg s') (hmem : s'.mem = s.mem)
    (hobj : s'.objects = s.objects) : Loaded cfg s' root done := by
  have hmono : ∀ o ∈ s.objects, o ∈ s'.objects := fun o ho => hobj ▸ ho
  exact h.of_mem hwf (h.zero.mono hmono fun a => .inl (congrFun hmem a)) hmono
    (fun _ _ _ _ => congrFun hmem _) fun _ _ _ _ _ _ => congrFun hmem _

/-- A spare table is linked at the end of a walk. -/
theorem link (h : Loaded cfg s root done) (hv : v < 2 ^ 47) {l t y : Nat}
    (hend : Radix.End sv48 s.mem 3 root v (l + 1) t) (hy : SpareTable cfg s root (2 ^ 47) y)
    (htable : s.IsTable y) :
    Loaded cfg (s.setWord (entry t (getVpn v (l + 1))) (Pte.write y pageV)) root done := by
  have ht := h.space.tables hv hend.reach
  have hleaf : ∀ {u}, u < 2 ^ 47 → _ = s.leaf? root u :=
    fun hu => h.space.leaf?_link hv hend hy hu
  refine h.of_leaf (h.wf.of_eq rfl rfl) (h.zero.setWord h.wf ht (getVpn_lt ..) _)
    (h.space.link hv hend hy htable) (fun _ ho => ho) hleaf fun u hu => ?_
  rw [← h.image u hu]
  refine KState.pageImage_congr (hleaf hu) fun pte hpte i hi => ?_
  exact KState.mem_setWord_of_ne s (h.wf.word_ne_entry (h.frames u hu pte hpte) ht hi
    (getVpn_lt ..)) _

/-- A blank page is mapped at a free address. -/
theorem setPage (h : Loaded cfg s root done) {f : Nat} (hf : Blank s root f) (hv : v < 2 ^ 47)
    {t flags : Nat} (hend : Radix.End sv48 s.mem 3 root v 0 t) (hflags : flags < 2 ^ 10) :
    Loaded cfg (s.setWord (entry t (getVpn v 0)) (Pte.write f (flags ||| pageV))) root
      (Function.update done (v / 2 ^ 12) (some ⟨flags ||| pageV, fun _ => 0⟩)) := by
  have ht := h.space.tables hv hend.reach
  have hflags' : flags ||| pageV < 2 ^ 10 := Nat.or_lt_two_pow hflags (by decide)
  have hvalid : Pte.isValid (Pte.write f (flags ||| pageV)) = true := Pte.isValid_write_or ..
  have htarget := h.wf.target_page hf.live hflags'
  have hleaf : ∀ {u}, u < 2 ^ 47 → _ = if u / 2 ^ 12 = v / 2 ^ 12 then _ else s.leaf? root u :=
    fun hu => h.space.leaf?_setLeaf hv hend hvalid hu
  refine ⟨h.wf.of_eq rfl rfl, h.zero.setWord h.wf ht (getVpn_lt ..) _,
    h.space.setLeaf hv hend fun hinvalid => absurd hinvalid (by simp [hvalid]), fun u hu => ?_,
    fun u hu pte hpte => ?_, fun u hu u' hu' pte pte' hpte hpte' => ?_⟩
  · by_cases hpage : u / 2 ^ 12 = v / 2 ^ 12
    · have hbyte : ∀ i, (if i < pageSize then (s.setWord (entry t (getVpn v 0))
          (Pte.write f (flags ||| pageV))).frameByte f i else 0) = 0 := by
        intro i
        split
        · next hi =>
          refine KState.frameByte_of_zero (fun j hj => ?_) hi
          rw [KState.mem_setWord_of_ne s (h.wf.word_ne_entry hf.live ht hj (getVpn_lt ..))]
          exact hf.zero j hj
        · rfl
      have hmod : (Pte.write f (flags ||| pageV)).toNat % 2 ^ 10 = flags ||| pageV := by
        rw [Pte.toNat_write (h.wf.page_lt hf.live).1 hflags']
        omega
      rw [KState.pageImage, hleaf hu, if_pos hpage, hpage, Function.update_self, Option.map_some,
        KState.frameImage, htarget, hmod, funext hbyte]
    · rw [Function.update_of_ne hpage, ← h.image u hu]
      refine KState.pageImage_congr ((hleaf hu).trans (if_neg hpage)) fun pte hpte i hi => ?_
      exact KState.mem_setWord_of_ne s (h.wf.word_ne_entry (h.frames u hu pte hpte) ht hi
        (getVpn_lt ..)) _
  · rw [hleaf hu] at hpte
    split at hpte
    · rw [← Option.some.inj hpte, htarget]
      exact hf.live
    · exact h.frames u hu pte hpte
  · rw [hleaf hu] at hpte
    rw [hleaf hu'] at hpte'
    intro heq
    split at hpte
    · next hpage =>
      split at hpte'
      · next hpage' => rw [hpage, hpage']
      · rw [← Option.some.inj hpte, htarget] at heq
        exact absurd heq.symm (hf.unmapped u' hu' pte' hpte')
    · split at hpte'
      · rw [← Option.some.inj hpte', htarget] at heq
        exact absurd heq (hf.unmapped u hu pte hpte)
      · exact h.once u hu u' hu' pte pte' hpte hpte' heq

/-- The first `n` bytes of a page that is mapped change. -/
theorem fill (h : Loaded cfg s root done) (hv : v < 2 ^ 47) {pte : UInt64}
    (hpte : s.leaf? root v = some pte) {img : PageImage} (himg : done (v / 2 ^ 12) = some img)
    (src : Nat → UInt8) {n : Nat} (hn : n ≤ pageSize) :
    Loaded cfg (s.copyBytes (Pte.target pte) src n) root (Function.update done (v / 2 ^ 12)
      (some { img with byte := fun i => if i < n then src i else img.byte i })) := by
  have hf := h.frames v hv pte hpte
  have hout : ∀ a, a < Pte.target pte ∨ Pte.target pte + 4096 ≤ a →
      (s.copyBytes (Pte.target pte) src n).mem a = s.mem a := by
    intro a ha
    rw [pageSize] at hn
    exact if_neg (by omega)
  have htables : ∀ {u j t}, u < 2 ^ 47 → Radix.Reach sv48 s.mem 3 root u j t →
      ∀ i < 512, (s.copyBytes (Pte.target pte) src n).mem (entry t i) = s.mem (entry t i) :=
    fun hu hr _ hi => h.wf.mem_copyBytes hf (h.space.tables hu hr) src hn hi
  have hleaf : ∀ {u}, u < 2 ^ 47 → _ = s.leaf? root u :=
    fun hu => UserSpace.leaf?_of_mem htables hu
  refine h.of_leaf (h.wf.of_eq rfl rfl) ?_ (h.space.of_mem (fun _ ho => ho) htables)
    (fun _ ho => ho) hleaf fun u hu => ?_
  · refine h.zero.mono (fun _ ho => ho) fun a => ?_
    obtain ⟨o, ho, hk, heq⟩ := KState.isObject_iff.1 hf
    have hsize := (h.wf.frame_bounds ho (.inl hk)).1
    by_cases ha : a < Pte.target pte ∨ Pte.target pte + 4096 ≤ a
    · exact .inl (hout a ha)
    · exact .inr (.inr ⟨o, ho, by omega⟩)
  · by_cases hpage : u / 2 ^ 12 = v / 2 ^ 12
    · have himg' : s.frameImage pte = img := by
        have := h.image v hv
        rw [KState.pageImage, hpte, himg] at this
        exact Option.some.inj this
      have hbyte : ∀ i, (if i < pageSize then
          (s.copyBytes (Pte.target pte) src n).frameByte (Pte.target pte) i else 0) =
            if i < n then src i else img.byte i := by
        intro i
        rw [KState.frameByte_copyBytes, ← himg', KState.frameImage]
        dsimp only
        split
        · rfl
        · rw [if_neg (by omega)]
      rw [KState.pageImage, hleaf hu, KState.leaf?_congr hpage, hpte, hpage, Function.update_self,
        Option.map_some, KState.frameImage, funext hbyte, ← himg']
      rfl
    · rw [Function.update_of_ne hpage, ← h.image u hu]
      refine KState.pageImage_congr (hleaf hu) fun pte' hpte' i hi => hout _ ?_
      have hne : Pte.target pte' ≠ Pte.target pte := fun heq =>
        hpage (h.once u hu v hv pte' pte hpte' hpte heq)
      have hapart := h.wf.pages_apart (h.frames u hu pte' hpte') hf hne
      omega

end Loaded

namespace Blank

variable {f : Nat}

theorem of_mem (h : Blank s root f) (hobj : ∀ o ∈ s.objects, o ∈ s'.objects)
    (hmem : ∀ i < 512, s'.mem (f + 8 * i) = s.mem (f + 8 * i))
    (hleaf : ∀ {v}, v < 2 ^ 47 → s'.leaf? root v = s.leaf? root v) : Blank s' root f where
  live := KState.isObject_mono hobj h.live
  zero i hi := (hmem i hi).trans (h.zero i hi)
  unmapped v hv pte hpte := h.unmapped v hv pte (hleaf hv ▸ hpte)

theorem congr (h : Blank s root f) (hmem : s'.mem = s.mem) (hobj : s'.objects = s.objects) :
    Blank s' root f := by
  refine h.of_mem (fun o ho => hobj ▸ ho) (fun _ _ => congrFun hmem _) fun _ => ?_
  rw [KState.leaf?, hmem, KState.leaf?]

theorem link (h : Blank s root f) (hwf : HeapWF cfg s) (hspace : UserSpace s root)
    (hv : v < 2 ^ 47) {l t y : Nat} (hend : Radix.End sv48 s.mem 3 root v (l + 1) t)
    (hy : SpareTable cfg s root (2 ^ 47) y) :
    Blank (s.setWord (entry t (getVpn v (l + 1))) (Pte.write y pageV)) root f :=
  h.of_mem (fun _ ho => ho)
    (fun _ hi => KState.mem_setWord_of_ne s (hwf.word_ne_entry h.live
      (hspace.tables hv hend.reach) hi (getVpn_lt ..)) _)
    fun hu => hspace.leaf?_link hv hend hy hu

end Blank

/-! ## New objects -/

/-- A page or a page table comes to life in free memory; a table may be cleared. -/
structure Creates (cfg : Config) (s s' : KState) (o : Object) : Prop where
  fresh : o.Fresh cfg s
  frame : o.kind = .page ∨ o.kind = .pageTable
  objects : s'.objects = o :: s.objects
  tcbs : ∀ p t, s'.tcbs p = some t → ∃ t', s.tcbs p = some t'
  mem : ∀ a, s'.mem a = s.mem a ∨ s'.mem a = 0 ∧ o.addr ≤ a ∧ a < o.addr + 4096

namespace Creates

variable {o : Object}

theorem alone (ho : o.Fresh cfg s) (hk : o.kind = .page ∨ o.kind = .pageTable) :
    Creates cfg s { s with objects := o :: s.objects } o :=
  ⟨ho, hk, rfl, fun _ t ht => ⟨t, ht⟩, fun _ => .inl rfl⟩

/-- With its capability in a slot. -/
theorem withCap (ho : o.Fresh cfg s) (hk : o.kind = .page ∨ o.kind = .pageTable) (p : Nat)
    (cap : CapabilityData) :
    Creates cfg s ({ s with objects := o :: s.objects }.setSlot p (some (.newWithRawcap cap))) o :=
  ⟨ho, hk, rfl, fun _ t ht => ⟨t, ht⟩, fun _ => .inl rfl⟩

theorem mono (h : Creates cfg s s' o) : ∀ o' ∈ s.objects, o' ∈ s'.objects := fun o' ho' => by
  rw [h.objects]
  exact List.mem_cons_of_mem _ ho'

theorem live (h : Creates cfg s s' o) : o ∈ s'.objects := by
  rw [h.objects]
  exact List.mem_cons_self ..

theorem wf (h : Creates cfg s s' o) (hwf : HeapWF cfg s) : HeapWF cfg s' := by
  have hborn := hwf.born h.fresh
  have hobj : s'.objects = (s.born o).objects := h.objects.trans (objects_born s o).symm
  refine ⟨hobj ▸ hborn.admissible, hobj ▸ hborn.size, hobj ▸ hborn.apart, fun p t ht => ?_⟩
  obtain ⟨t', ht'⟩ := h.tcbs p t ht
  refine (hwf.tcbs p t' ht').imp_right ?_
  rintro ⟨o', ho', h'⟩
  exact ⟨o', h.objects ▸ List.mem_cons_of_mem _ ho', h'⟩

/-- What was in an object before is outside the new one. -/
theorem mem_eq (h : Creates cfg s s' o) (hwf : HeapWF cfg s) {o' : Object} (ho' : o' ∈ s.objects)
    {a : Nat} (hle : o'.addr ≤ a) (hlt : a < o'.addr + o'.size) : s'.mem a = s.mem a := by
  rcases h.mem a with heq | ⟨-, hle', hlt'⟩
  · exact heq
  · have hsize := ((h.wf hwf).frame_bounds h.live h.frame).1
    have hapart := h.fresh.apart o' ho'
    simp only [Object.overlaps, Bool.and_eq_false_iff, decide_eq_false_iff_not] at hapart
    omega

theorem mem_table (h : Creates cfg s s' o) (hwf : HeapWF cfg s) {t : Nat} (ht : s.IsTable t)
    {i : Nat} (hi : i < 512) : s'.mem (entry t i) = s.mem (entry t i) := by
  obtain ⟨o', ho', hk, rfl⟩ := KState.isTable_iff.1 ht
  have hsize := (hwf.frame_bounds ho' (.inr hk)).1
  refine h.mem_eq hwf ho' ?_ ?_ <;> rw [entry] <;> omega

theorem mem_page (h : Creates cfg s s' o) (hwf : HeapWF cfg s) {f : Nat}
    (hf : s.isObject .page f = true) {i : Nat} (hi : i < 512) :
    s'.mem (f + 8 * i) = s.mem (f + 8 * i) := by
  obtain ⟨o', ho', hk, rfl⟩ := KState.isObject_iff.1 hf
  have hsize := (hwf.frame_bounds ho' (.inl hk)).1
  exact h.mem_eq hwf ho' (by omega) (by omega)

theorem freeZero (h : Creates cfg s s' o) (hzero : FreeZero cfg s) : FreeZero cfg s' :=
  hzero.mono h.mono fun a => (h.mem a).imp id fun hzero => .inl hzero.1

/-- The new object is in memory that was free. -/
theorem mem_zero (h : Creates cfg s s' o) (hwf : HeapWF cfg s) (hzero : FreeZero cfg s) {i : Nat}
    (hi : i < 512) : s'.mem (o.addr + 8 * i) = 0 := by
  obtain ⟨hsize, -, hle, hend⟩ := (h.wf hwf).frame_bounds h.live h.frame
  rcases h.mem (o.addr + 8 * i) with heq | ⟨hz, -⟩
  · rw [heq]
    refine hzero _ (by omega) (by omega) fun o' ho' => ?_
    have hapart := h.fresh.apart o' ho'
    simp only [Object.overlaps, Bool.and_eq_false_iff, decide_eq_false_iff_not] at hapart
    omega
  · exact hz

/-- No object was there before. -/
theorem not_isObject (h : Creates cfg s s' o) (hwf : HeapWF cfg s) {k : CapabilityType}
    (hk : k = .page ∨ k = .pageTable) : s.isObject k o.addr ≠ true := fun hobj => by
  obtain ⟨o', ho', rfl, heq⟩ := KState.isObject_iff.1 hobj
  have hsize := ((h.wf hwf).frame_bounds h.live h.frame).1
  have hsize' := (hwf.frame_bounds ho' hk).1
  have hapart := h.fresh.apart o' ho'
  simp only [Object.overlaps, Bool.and_eq_false_iff, decide_eq_false_iff_not] at hapart
  omega

end Creates

namespace UserSpace

variable {o : Object}

theorem create (h : UserSpace s root) (hwf : HeapWF cfg s) (hc : Creates cfg s s' o) :
    UserSpace s' root :=
  h.of_mem hc.mono fun hv hr _ hi => hc.mem_table hwf (h.tables hv hr) hi

theorem reach_create (h : UserSpace s root) (hwf : HeapWF cfg s) (hc : Creates cfg s s' o)
    (hv : v < 2 ^ 47) {j t : Nat} :
    Radix.Reach sv48 s'.mem 3 root v j t ↔ Radix.Reach sv48 s.mem 3 root v j t :=
  Radix.reach_congr_mem (S := {v | v < 2 ^ 47})
    (fun hv hr => hc.mem_table hwf (h.tables hv hr) (getVpn_lt ..)) hv

/-- A new table is spare. -/
theorem spare (h : UserSpace s root) (hwf : HeapWF cfg s) (hzero : FreeZero cfg s)
    (hc : Creates cfg s s' o) (hk : o.kind = .pageTable) :
    SpareTable cfg s' root (2 ^ 47) o.addr ∧ s'.IsTable o.addr := by
  have htable : s'.IsTable o.addr := KState.isTable_iff.2 ⟨o, hc.live, hk, rfl⟩
  refine ⟨⟨⟨((hc.wf hwf).table_bounds htable).1, fun j k => ?_, fun hv hr => ?_⟩,
    (hc.wf hwf).liveTable htable, (hc.wf hwf).table_lt htable⟩, htable⟩
  · exact hc.mem_zero hwf hzero (getVpn_lt ..)
  · exact hc.not_isObject hwf (.inr rfl) (h.tables hv ((h.reach_create hwf hc hv).1 hr))

end UserSpace

namespace Loaded

variable {done : Nat → Option PageImage} {o : Object}

theorem create (h : Loaded cfg s root done) (hc : Creates cfg s s' o) : Loaded cfg s' root done :=
  h.of_mem (hc.wf h.wf) (hc.freeZero h.zero) hc.mono
    (fun hv hr _ hi => hc.mem_table h.wf (h.space.tables hv hr) hi)
    fun v hv pte hpte _ hi => hc.mem_page h.wf (h.frames v hv pte hpte) hi

theorem leaf?_create (h : Loaded cfg s root done) (hc : Creates cfg s s' o) (hv : v < 2 ^ 47) :
    s'.leaf? root v = s.leaf? root v :=
  UserSpace.leaf?_of_mem (fun hv hr _ hi => hc.mem_table h.wf (h.space.tables hv hr) hi) hv

/-- A new page is blank. -/
theorem blank (h : Loaded cfg s root done) (hc : Creates cfg s s' o) (hk : o.kind = .page) :
    Blank s' root o.addr where
  live := KState.isObject_iff.2 ⟨o, hc.live, hk, rfl⟩
  zero _ hi := hc.mem_zero h.wf h.zero hi
  unmapped v hv pte hpte heq := by
    rw [h.leaf?_create hc hv] at hpte
    exact hc.not_isObject h.wf (.inl rfl) (heq ▸ h.frames v hv pte hpte)

theorem blank_create (h : Loaded cfg s root done) (hc : Creates cfg s s' o) {f : Nat}
    (hf : Blank s root f) : Blank s' root f :=
  hf.of_mem hc.mono (fun _ hi => hc.mem_page h.wf hf.live hi) fun hv => h.leaf?_create hc hv

/-- The user half of a new root is empty if that of the kernel's root is. -/
theorem empty_madeRoot {f : Nat} (hlow : ∀ i < 256, s.pte (imagePhys cfg.kernelVmRoot) i = 0) :
    ∀ v ∈ {v | v < 2 ^ 47}, (s.madeRoot cfg f).mem (sv48.slot f (sv48.digit 3 v)) = sv48.empty := by
  intro v hv
  have hi : getVpn v 3 < 256 := by
    rw [getVpn_eq]
    change v < 2 ^ 47 at hv
    omega
  exact (KState.pte_madeRoot_self (getVpn_lt ..)).trans (hlow _ hi)

/-- A table that was just made a root has no page in the user half. -/
theorem of_madeRoot (hwf : HeapWF cfg s) (hzero : FreeZero cfg s) {f : Nat} (hf : s.IsTable f)
    (hlow : ∀ i < 256, s.pte (imagePhys cfg.kernelVmRoot) i = 0) :
    Loaded cfg (s.madeRoot cfg f) f fun _ => none := by
  have hempty := empty_madeRoot (f := f) hlow
  have hleaf : ∀ v < 2 ^ 47, (s.madeRoot cfg f).leaf? f v = none := fun v hv => by
    rw [KState.leaf?_of_end (Radix.end_of_empty hempty hv), if_neg (fun h => nomatch h.1)]
  have hbounds := hwf.table_bounds hf
  refine ⟨hwf.of_eq rfl rfl, ?_, ⟨Radix.isTree_of_empty hempty hbounds.1, fun hv hr => ?_,
    fun {v j t} hv hr hvalid => ?_⟩, fun v hv => ?_, fun v hv pte hpte => ?_,
    fun v hv u hu pte pte' hpte => ?_⟩
  · obtain ⟨o, ho, hk, rfl⟩ := KState.isTable_iff.1 hf
    have hsize := (hwf.frame_bounds ho (.inr hk)).1
    refine hzero.mono (fun _ ho => ho) fun a => ?_
    by_cases ha : a < o.addr ∨ o.addr + 4096 ≤ a
    · exact .inl (KState.mem_madeRoot_of_ne ha)
    · exact .inr (.inr ⟨o, ho, by omega⟩)
  · obtain ⟨-, rfl⟩ := Radix.reach_of_empty hempty hv hr
    exact hf
  · obtain ⟨hj, rfl⟩ := Radix.reach_of_empty hempty hv hr
    have hword := hempty v hv
    rw [← hj] at hword
    rw [show (s.madeRoot cfg t).mem (entry t (getVpn v (j + 1))) = 0 from hword,
      Pte.not_isValid_zero] at hvalid
    cases hvalid
  · rw [KState.pageImage, hleaf v hv]
    rfl
  · rw [hleaf v hv] at hpte
    cases hpte
  · rw [hleaf v hv] at hpte
    cases hpte

end Loaded

end Zoeax
