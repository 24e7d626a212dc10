import Zoeax.Verify.Allocation
import Zoeax.Verify.Authority
import Zoeax.Verify.Paging

/-!
# Sharing of page tables

`Unshared`: a page table is led to by one entry at most, roots by none, and the table behind a
capability whose `is_mapped` is clear is in no address space at all.

The flag is in the capability and not in the table. So a copy of a capability that is not mapped
keeps a clear flag when the table is mapped through the other one, and `CNodeMint` can clear it.
`MapsLast` is what the invocations leave to the caller here. Besides, they must not be led to make
objects over others, to take other memory for CNodes, or to walk through anything else than page
tables (`OwnsTables`). `unshared_of_run` says what holds then.
-/

namespace Zoeax

open Lib Exec
open PageTable (entry)

variable {cfg : Config} {s s' : KState}

/-! ## References -/

/-- A valid entry that is no leaf: of the bits X, W, R and V only V is set. -/
def Pte.isPointer (pte : UInt64) : Bool := pte.toNat % 2 ^ 4 = pageV

theorem Pte.isValid_of_isPointer {pte : UInt64} (h : Pte.isPointer pte = true) :
    Pte.isValid pte = true := by
  have h := of_decide_eq_true h
  rw [pageV] at h
  rw [Pte.isValid, Nat.testBit_zero]
  exact decide_eq_true (by omega)

theorem Pte.isPointer_write {f : Nat} (hf : f < 2 ^ 47) :
    Pte.isPointer (Pte.write f pageV) = true := by
  rw [Pte.isPointer, Pte.toNat_write hf (by decide), pageV]
  exact decide_eq_true (by omega)

namespace KState

/-- A page table: an object, or one of the static tables. -/
def IsAnyTable (cfg : Config) (s : KState) (g : Nat) : Prop :=
  s.IsTable g ∨ g = imagePhys cfg.kernelVmRoot ∨ g = imagePhys cfg.lv2Table

/-- Entry `i` of the table at `g` leads to the table at `f`. -/
def Refers (cfg : Config) (s : KState) (g i f : Nat) : Prop :=
  s.IsAnyTable cfg g ∧ i < 512 ∧ Pte.isPointer (s.pte g i) = true ∧ Pte.target (s.pte g i) = f

/-- The table at `f` is in no address space. -/
def Loose (cfg : Config) (s : KState) (f : Nat) : Prop :=
  f ∉ s.rooted ∧ ∀ g i, ¬ s.Refers cfg g i f

/-- The capability is in a thread control block. -/
def HeldByThread (s : KState) (c : CapabilityData) : Prop :=
  ∃ p t slot e, s.tcbs p = some t ∧ TcbSlot.get slot t = some e ∧ e.cap = c

/-- The capability is in a slot or in a thread control block. Entries in local variables do not
count. -/
def Holds (cfg : Config) (s : KState) (c : CapabilityData) : Prop :=
  (∃ p, cfg.isLocal p = false ∧ s.capAt p = some c) ∨ s.HeldByThread c

end KState

theorem KState.HeldByThread.of_setTcb {p : Nat} {t t' : ThreadInfo} {c : CapabilityData}
    (ht : s.tcbs p = some t) (hheld : ∀ slot : TcbSlot, slot.get t' = slot.get t)
    (h : (s.setTcb p t').HeldByThread c) : s.HeldByThread c := by
  obtain ⟨q, t₁, slot, e, hq, he, rfl⟩ := h
  rw [KState.tcbs_setTcb] at hq
  split at hq
  · obtain rfl := Option.some.inj hq
    exact ⟨p, t, slot, e, ht, hheld slot ▸ he, rfl⟩
  · exact ⟨q, t₁, slot, e, hq, he, rfl⟩

/-- The capability is somewhere else than in the slot `p`. -/
def KState.HoldsElsewhere (cfg : Config) (s : KState) (p : Nat) (c : CapabilityData) : Prop :=
  (∃ q, q ≠ p ∧ cfg.isLocal q = false ∧ s.capAt q = some c) ∨ s.HeldByThread c

/-- Every page table is led to by one entry at most, no root is led to, and the table of a
capability whose `is_mapped` is clear is in no address space. -/
structure Unshared (cfg : Config) (s : KState) : Prop where
  once : ∀ {f g i g' i'}, s.IsTable f → s.Refers cfg g i f → s.Refers cfg g' i' f → g = g' ∧ i = i'
  roots : ∀ {f}, f ∈ s.rooted → ∀ g i, ¬ s.Refers cfg g i f
  unmapped : ∀ {c}, s.Holds cfg c → c.getCapType = .ok .pageTable → c.isMapped = false →
    s.Loose cfg c.getFrame

/-- Entries lead to frames that are there, and roots are page tables. -/
structure Anchored (cfg : Config) (s : KState) : Prop where
  heap : HeapWF cfg s
  live : ∀ {g i f}, s.Refers cfg g i f → s.isObject .page f = true ∨ s.IsAnyTable cfg f
  root : ∀ {f}, f ∈ s.rooted → s.IsTable f

/-- A word of a page is in no table. -/
theorem HeapWF.entry_apart (hs : HeapWF cfg s) {o : Object} (ho : o ∈ s.objects)
    (hk : o.kind = .page) {g i : Nat} (hg : s.IsAnyTable cfg g) (hi : i < 512) :
    entry g i < o.addr ∨ o.addr + 4096 ≤ entry g i := by
  have hbounds := hs.frame_bounds ho (.inl hk)
  rw [entry]
  rcases hg with hg | rfl | rfl
  · have := hs.page_apart ho hk hg
    omega
  · have := cfg.kernelVmRoot_apart
    omega
  · have := cfg.lv2Table_apart
    omega

namespace Anchored

theorem aligned (hs : Anchored cfg s) {g : Nat} (hg : s.IsAnyTable cfg g) : g % 4096 = 0 := by
  rcases hg with hg | rfl | rfl
  · exact (hs.heap.table_bounds hg).1
  · exact cfg.kernelVmRoot_aligned
  · exact cfg.lv2Table_aligned

/-- An object that is not alive yet is apart from all tables. -/
theorem fresh_apart (hs : Anchored cfg s) {o : Object} (ho : o.Fresh cfg s)
    (hk : o.kind = .pageTable) {g : Nat} (hg : s.isObject .page g = true ∨ s.IsAnyTable cfg g) :
    o.addr + 4096 ≤ g ∨ g + 4096 ≤ o.addr := by
  obtain ⟨hsize, -, hle, hend⟩ := (hs.heap.born ho).frame_bounds
    (by rw [objects_born]; exact List.mem_cons_self ..) (.inr hk)
  have hobject : ∀ o' ∈ s.objects, o'.kind = .page ∨ o'.kind = .pageTable →
      o.addr + 4096 ≤ o'.addr ∨ o'.addr + 4096 ≤ o.addr := by
    intro o' ho' hk'
    have := (hs.heap.frame_bounds ho' hk').1
    have := ho.apart o' ho'
    simp only [Object.overlaps, Bool.and_eq_false_iff, decide_eq_false_iff_not] at this
    omega
  rcases hg with hg | hg | rfl | rfl
  · obtain ⟨o', ho', hk', rfl⟩ := KState.isObject_iff.1 hg
    exact hobject o' ho' (.inl hk')
  · obtain ⟨o', ho', hk', rfl⟩ := KState.isTable_iff.1 hg
    exact hobject o' ho' (.inr hk')
  · have := cfg.kernelVmRoot_apart
    omega
  · have := cfg.lv2Table_apart
    omega

end Anchored

/-! ## What keeps the facts -/

/-- The three facts, and what they rest on. -/
structure TableOwnership (cfg : Config) (s : KState) : Prop extends Anchored cfg s, Unshared cfg s

namespace TableOwnership

/-- The tables and what their entries say stay; capabilities that are not mapped are old ones, or
their table is in no address space. -/
theorem congr (hs : TableOwnership cfg s) (hwf : HeapWF cfg s') (hobj : s'.objects = s.objects)
    (hrooted : s'.rooted = s.rooted)
    (hpte : ∀ g i, s.IsAnyTable cfg g → i < 512 → s'.pte g i = s.pte g i)
    (hholds : ∀ c, s'.Holds cfg c → c.getCapType = .ok .pageTable → c.isMapped = false →
      s.Holds cfg c ∨ s.Loose cfg c.getFrame) : TableOwnership cfg s' := by
  have hobject : ∀ k f, s'.isObject k f = s.isObject k f := fun k f => by
    rw [KState.isObject, hobj, KState.isObject]
  have htable : ∀ f, s'.IsTable f ↔ s.IsTable f := fun f => by
    rw [KState.IsTable, hobject, KState.IsTable]
  have hany : ∀ g, s'.IsAnyTable cfg g ↔ s.IsAnyTable cfg g := fun g => or_congr_left (htable g)
  have hrefers : ∀ g i f, s'.Refers cfg g i f ↔ s.Refers cfg g i f := by
    intro g i f
    refine (and_congr_left fun _ => hany g).trans (and_congr_right fun hg => ?_)
    refine and_congr_right fun hi => ?_
    rw [hpte g i hg hi]
  refine { heap := hwf, live := fun h => ?_, root := fun hf => ?_, once := fun hf h h' => ?_,
           roots := fun hf g i h => ?_, unmapped := fun {c} hc hk hm => ?_ }
  · rw [hobject, hany]
    exact hs.live ((hrefers ..).1 h)
  · exact (htable _).2 (hs.root (hrooted ▸ hf))
  · exact hs.once ((htable _).1 hf) ((hrefers ..).1 h) ((hrefers ..).1 h')
  · exact hs.roots (hrooted ▸ hf) g i ((hrefers ..).1 h)
  · have hloose : s.Loose cfg c.getFrame :=
      (hholds c hc hk hm).elim (hs.unmapped · hk hm) id
    exact ⟨hrooted ▸ hloose.1, fun g i h => hloose.2 g i ((hrefers ..).1 h)⟩

theorem of_eq (hs : TableOwnership cfg s) (hobj : s'.objects = s.objects)
    (hrooted : s'.rooted = s.rooted) (hmem : s'.mem = s.mem) (htcbs : s'.tcbs = s.tcbs)
    (hslots : s'.slots = s.slots) :
    TableOwnership cfg s' := by
  refine hs.congr (hs.heap.of_eq hobj htcbs) hobj hrooted (fun g i _ _ => ?_) fun c hc _ _ =>
    .inl ?_
  · rw [KState.pte, hmem, KState.pte]
  · simpa only [KState.Holds, KState.capAt, KState.HeldByThread, hslots, htcbs] using hc

theorem setTcb (hs : TableOwnership cfg s) {p : Nat} {t t' : ThreadInfo} (ht : s.tcbs p = some t)
    (hheld : ∀ slot : TcbSlot, slot.get t' = slot.get t) : TableOwnership cfg (s.setTcb p t') := by
  refine hs.congr (hs.heap.setTcb t' ht) rfl rfl (fun _ _ _ _ => rfl) fun c hc _ _ => .inl ?_
  exact hc.imp_right (.of_setTcb ht hheld)

/-- The memory of a page changes. -/
theorem setPage (hs : TableOwnership cfg s) {o : Object} (ho : o ∈ s.objects) (hk : o.kind = .page)
    {mem : Nat → UInt64} (hmem : ∀ a, a < o.addr ∨ o.addr + 4096 ≤ a → mem a = s.mem a) :
    TableOwnership cfg { s with mem } :=
  hs.congr (hs.heap.of_eq rfl rfl) rfl rfl
    (fun _ _ hg hi => hmem _ (hs.heap.entry_apart ho hk hg hi)) fun _ hc _ _ => .inl hc

theorem threadStable : ThreadStable (TableOwnership cfg) where
  tcb _ _ _ _ ht halike hs := hs.setTcb ht halike.held
  queues _ _ _ _ hs := hs.of_eq rfl rfl rfl rfl rfl
  request _ _ hs := hs.of_eq rfl rfl rfl rfl rfl
  vspace _ _ hs := hs.of_eq rfl rfl rfl rfl rfl
  switch _ _ hs := hs.of_eq rfl rfl rfl rfl rfl
  copy s dst src hdst hs := by
    obtain ⟨o, ho, hk, rfl⟩ := KState.isObject_iff.1 hdst
    refine hs.setPage ho hk fun a ha => if_neg ?_
    rw [ipcBufferWords, messageLen]
    omega

/-- A new object; a new table is empty, and its capability may be there. -/
theorem grow (hs : TableOwnership cfg s) (hwf : HeapWF cfg s') {o : Object} (ho : o.Fresh cfg s)
    (hobj : s'.objects = o :: s.objects) (hrooted : s'.rooted = s.rooted)
    (hpte : ∀ g i, s.IsAnyTable cfg g → i < 512 → s'.pte g i = s.pte g i)
    (hnew : o.kind = .pageTable → ∀ i < 512, s'.pte o.addr i = 0)
    (hholds : ∀ c, s'.Holds cfg c → c.getCapType = .ok .pageTable → c.isMapped = false →
      s.Holds cfg c ∨ o.kind = .pageTable ∧ c.getFrame = o.addr) : TableOwnership cfg s' := by
  have htable : ∀ f, s'.IsTable f ↔ s.IsTable f ∨ o.kind = .pageTable ∧ o.addr = f := by
    intro f
    simp only [KState.IsTable, KState.isObject, hobj, List.any_cons, Bool.or_eq_true,
      Bool.and_eq_true, decide_eq_true_eq]
    exact or_comm
  have hrefers : ∀ {g i f}, s'.Refers cfg g i f → s.Refers cfg g i f := by
    rintro g i f ⟨hg, hi, hpointer, htarget⟩
    have hold : s.IsAnyTable cfg g → s.Refers cfg g i f := fun hg => by
      rw [hpte g i hg hi] at hpointer htarget
      exact ⟨hg, hi, hpointer, htarget⟩
    rcases hg with hg | hg
    · rcases (htable g).1 hg with hg | ⟨hk, rfl⟩
      · exact hold (.inl hg)
      · rw [hnew hk i hi] at hpointer
        exact absurd hpointer (by decide)
    · exact hold (.inr hg)
  have hfresh : o.kind = .pageTable → s.Loose cfg o.addr := by
    refine fun hk => ⟨fun hroot => ?_, fun g i h => ?_⟩
    · have := hs.fresh_apart ho hk (.inr (.inl (hs.root hroot)))
      omega
    · have := hs.fresh_apart ho hk (hs.live h)
      omega
  refine { heap := hwf, live := fun h => ?_, root := fun hf => ?_, once := fun hf h h' => ?_,
           roots := fun hf g i h => ?_, unmapped := fun {c} hc hk hm => ?_ }
  · refine (hs.live (hrefers h)).imp (fun hpage => ?_)
      (Or.imp_left fun hf => (htable _).2 (.inl hf))
    rw [KState.isObject, hobj, List.any_cons, Bool.or_eq_true]
    exact .inr hpage
  · exact (htable _).2 (.inl (hs.root (hrooted ▸ hf)))
  · rcases (htable _).1 hf with hf | ⟨hk, rfl⟩
    · exact hs.once hf (hrefers h) (hrefers h')
    · exact absurd (hrefers h) ((hfresh hk).2 _ _)
  · exact hs.roots (hrooted ▸ hf) g i (hrefers h)
  · have hloose : s.Loose cfg c.getFrame := by
      rcases hholds c hc hk hm with hc | ⟨hk', heq⟩
      · exact hs.unmapped hc hk hm
      · exact heq ▸ hfresh hk'
    exact ⟨hrooted ▸ hloose.1, fun g i h => hloose.2 g i (hrefers h)⟩

theorem retypeStable : RetypeStable cfg (TableOwnership cfg) where
  untyped s p c c' _ _ hc' hs := by
    refine hs.congr (hs.heap.of_eq rfl rfl) rfl rfl (fun _ _ _ _ => rfl) fun d hd hk _ => .inl ?_
    refine hd.imp_left fun ⟨q, hq, hcap⟩ => ⟨q, hq, ?_⟩
    rw [KState.setCap, KState.capAt_setSlot] at hcap
    split at hcap
    · -- the new capability is none of a page table
      cases he : s.slots p with
      | none =>
        rw [he] at hcap
        cases hcap
      | some e =>
        rw [he] at hcap
        obtain rfl := Option.some.inj hcap
        cases hc'.symm.trans hk
    · exact hcap
  place s s' o c q ho hc _ _ _ hput hs := by
    obtain ⟨⟨slots, rfl⟩, hcaps⟩ := hput
    have hwf : HeapWF cfg { s.born o with slots := slots } := (hs.heap.born ho).of_eq rfl rfl
    refine hs.grow hwf ho (objects_born s o) (rooted_born s o) (fun g i hg hi => ?_)
      (fun hk i hi => ?_) fun d hd hk hm => ?_
    · by_cases hk : o.kind = .pageTable
      · have := hs.fresh_apart ho hk (.inr hg)
        refine (congrFun (mem_born_table ho hk) _).trans (if_neg ?_)
        rw [entry, pageSize]
        omega
      · exact congrFun (mem_born s hk) _
    · refine (congrFun (mem_born_table ho hk) _).trans (if_pos ?_)
      rw [entry, pageSize]
      omega
    · rcases hd with ⟨r, hr, hcap⟩ | ⟨p, t, slot, e, ht, he, rfl⟩
      · rw [hcaps r hr] at hcap
        split at hcap
        · obtain rfl := Option.some.inj hcap
          have hkind : o.kind = .pageTable := Except.ok.inj (hc.capType.symm.trans hk)
          have hlt := (Object.lt_of_admissible ho.admissible).2.2.1
          exact .inr ⟨hkind, by rw [CapabilityData.getFrame, hc.address, direct_of_lt hlt]⟩
        · rw [capAt_born] at hcap
          exact .inl (.inl ⟨r, hr, hcap⟩)
      · rw [tcbs_born] at ht
        split at ht
        · obtain rfl := Option.some.inj ht
          cases slot <;> cases he
        · exact .inl (.inr ⟨p, t, slot, e, ht, he, rfl⟩)
  renew s s' o c q ho hcell hc _ _ hput hs := by
    have hwf := hs.heap.renewed ho
    have hcap : ∀ r, (s.renewed o).capAt r = s.capAt r := capAt_renewed s o
    have htcb := tcbs_renewed s o
    obtain ⟨tcbs, eps, ntfns, heq⟩ := renewed_cells s o
    rw [heq] at hput hwf hcap htcb
    obtain ⟨⟨slots, rfl⟩, hcaps⟩ := hput
    refine hs.congr (hwf.of_eq rfl rfl) rfl rfl (fun _ _ _ _ => rfl) fun d hd hk _ => .inl ?_
    rcases hd with ⟨r, hr, hat⟩ | ⟨p, t, slot, e, ht, he, rfl⟩
    · rw [hcaps r hr] at hat
      split at hat
      · -- what is initialised once more is no table
        obtain rfl := Option.some.inj hat
        have hkind : o.kind = .pageTable := Except.ok.inj (hc.capType.symm.trans hk)
        simp [Object.hasCell, hkind] at hcell
      · exact .inl ⟨r, hr, (hcap r).symm.trans hat⟩
    · rw [htcb] at ht
      split at ht
      · obtain rfl := Option.some.inj ht
        cases slot <;> cases he
      · exact .inr ⟨p, t, slot, e, ht, he, rfl⟩

/-! ### CNode invocations -/

/-- The new capability of a table has the flag of the source, unless it is minted. -/
theorem invokeCNode (hs : TableOwnership cfg s) {invLabel : InvLabel} {reg : Registers}
    {rootCnode destRoot : CapabilityData} {v : Option Nat}
    (hmint : invLabel = .cNodeMint → ∀ slot c,
      rootCnode.lookupEntryMut cfg reg.a3.toNat (reg.a4.toNat >>> 32) s = .ok slot →
      s.capAt slot = some c → c.getCapType = .ok .pageTable →
      (c.setCapDepVal reg.a6).isMapped = false → s.Loose cfg c.getFrame)
    (h : invokeCNode cfg invLabel reg rootCnode destRoot s = .ok v s') : TableOwnership cfg s' := by
  obtain ⟨src, c, dest, rawCap, hsrc, hslot, hc, -, -, hd, ⟨slots, rfl⟩, hcaps⟩ :=
    invokeCNode_capAt hs.heap h
  refine hs.congr (hs.heap.of_eq rfl rfl) rfl rfl (fun _ _ _ _ => rfl) fun d hd' hk hm => ?_
  rcases hd' with ⟨r, hr, hcap⟩ | hthread
  · rw [hcaps r hr] at hcap
    split at hcap
    · obtain rfl := Option.some.inj hcap
      have hkind : c.getCapType = .ok .pageTable := by
        obtain ⟨v, rfl⟩ := derive_eq hd
        unfold newCap at hk
        split at hk <;> exact hk
      obtain rfl : c = rawCap := by
        have : c.derive = .ok c := by
          simp only [CapabilityData.derive, hkind]
          rfl
        exact Except.ok.inj (this.symm.trans hd)
      unfold newCap at hm ⊢
      split at hm
      · next hl =>
        rw [if_pos hl]
        exact .inr (hmint hl src c hsrc hc hkind hm)
      · next hl =>
        rw [if_neg hl]
        exact .inl (.inl ⟨src, hs.heap.not_isLocal hslot, hc⟩)
    · split at hcap
      · cases hcap
      · exact .inl (.inl ⟨r, hr, hcap⟩)
  · exact .inl (.inr hthread)

/-! ### Page table invocations -/

/-- After the capability in the slot `p` got its flag, the others that are not mapped are
elsewhere. -/
theorem holdsElsewhere_of_setCap {p : Nat} {c d : CapabilityData} (hc : c.isMapped = true)
    (h : (s.setCap p c).Holds cfg d) (hd : d.isMapped = false) : s.HoldsElsewhere cfg p d := by
  rcases h with ⟨r, hr, hcap⟩ | hthread
  · rw [KState.setCap, KState.capAt_setSlot] at hcap
    split at hcap
    · cases he : s.slots p with
      | none =>
        rw [he] at hcap
        cases hcap
      | some e =>
        rw [he] at hcap
        obtain rfl : c = d := Option.some.inj hcap
        cases hc.symm.trans hd
    · next hne => exact .inl ⟨r, hne, hr, hcap⟩
  · exact .inr hthread

theorem holds_of_elsewhere {p : Nat} {c : CapabilityData} (h : s.HoldsElsewhere cfg p c) :
    s.Holds cfg c := h.imp_left fun ⟨q, _, hq, hc⟩ => ⟨q, hq, hc⟩

/-- **`PageTableMap`**: an entry leads to the table now. -/
theorem link (hs : TableOwnership cfg s) {f a p : Nat} {c : CapabilityData} (hf : s.IsTable f)
    (hloose : s.Loose cfg f) (hc : c.isMapped = true)
    (hlast : ∀ d, s.HoldsElsewhere cfg p d → d.getCapType = .ok .pageTable → d.isMapped = false →
      d.getFrame ≠ f) : TableOwnership cfg ((s.setWord a (Pte.write f pageV)).setCap p c) := by
  have hrefers : ∀ {g i h}, ((s.setWord a (Pte.write f pageV)).setCap p c).Refers cfg g i h →
      entry g i = a ∧ h = f ∨ s.Refers cfg g i h := by
    rintro g i h ⟨hg, hi, hpointer, htarget⟩
    have hpte : ((s.setWord a (Pte.write f pageV)).setCap p c).pte g i =
        if entry g i = a then Pte.write f pageV else s.pte g i := Function.update_apply ..
    rw [hpte] at hpointer htarget
    split at hpointer
    · next heq =>
      rw [if_pos heq, Pte.target_write (hs.heap.table_lt hf) (hs.heap.table_bounds hf).1
        (by decide)] at htarget
      exact .inl ⟨heq, htarget.symm⟩
    · next hne =>
      rw [if_neg hne] at htarget
      exact .inr ⟨hg, hi, hpointer, htarget⟩
  refine {
    heap := hs.heap.of_eq rfl rfl, live := fun {g i h} href => ?_, root := fun hr => hs.root hr,
           once := fun {h g i g' i'} hh href href' => ?_, roots := fun {h} hr g i href => ?_,
           unmapped := fun {d} hd hk hm => ?_ }
  · rcases hrefers href with ⟨-, rfl⟩ | hold
    · exact .inr (.inl hf)
    · exact hs.live hold
  · rcases hrefers href with ⟨heq, rfl⟩ | hold <;> rcases hrefers href' with ⟨heq', h'⟩ | hold'
    · exact entry_inj (hs.aligned href.1) (hs.aligned href'.1) href.2.1 href'.2.1
        (heq.trans heq'.symm)
    · exact absurd hold' (hloose.2 _ _)
    · exact absurd (h' ▸ hold) (hloose.2 _ _)
    · exact hs.once hh hold hold'
  · rcases hrefers href with ⟨-, rfl⟩ | hold
    · exact hloose.1 hr
    · exact hs.roots hr g i hold
  · have helse := holdsElsewhere_of_setCap (s := s.setWord a (Pte.write f pageV)) hc hd hm
    obtain ⟨hroot, hnone⟩ := hs.unmapped (holds_of_elsewhere helse) hk hm
    refine ⟨hroot, fun g i href => ?_⟩
    rcases hrefers href with ⟨-, heq⟩ | hold
    · exact hlast d helse hk hm heq
    · exact hnone g i hold

/-- **`PageTableMakeRoot`**: the table becomes a copy of `KERNEL_VM_ROOT`, which leads to no page
table object. -/
theorem makeRoot (hs : TableOwnership cfg s) {f p : Nat} {c : CapabilityData} (hf : s.IsTable f)
    (hloose : s.Loose cfg f) (hc : c.isMapped = true)
    (hkernel : ∀ i h, s.Refers cfg (imagePhys cfg.kernelVmRoot) i h → ¬ s.IsTable h)
    (hlast : ∀ d, s.HoldsElsewhere cfg p d → d.getCapType = .ok .pageTable → d.isMapped = false →
      d.getFrame ≠ f) : TableOwnership cfg ((s.madeRoot cfg f).setCap p c) := by
  have hrefers : ∀ {g i h}, ((s.madeRoot cfg f).setCap p c).Refers cfg g i h →
      g = f ∧ s.Refers cfg (imagePhys cfg.kernelVmRoot) i h ∨ s.Refers cfg g i h := by
    rintro g i h ⟨hg, hi, hpointer, htarget⟩
    have hg : s.IsAnyTable cfg g := hg
    by_cases hgf : g = f
    · obtain rfl := hgf
      have hpte : ((s.madeRoot cfg g).setCap p c).pte g i =
          s.pte (imagePhys cfg.kernelVmRoot) i := by
        refine (if_pos ?_).trans ?_
        · rw [entry, pageSize]
          omega
        · rw [entry, Nat.add_sub_cancel_left]
          rfl
      rw [hpte] at hpointer htarget
      exact .inl ⟨rfl, .inr (.inl rfl), hi, hpointer, htarget⟩
    · have hpte : ((s.madeRoot cfg f).setCap p c).pte g i = s.pte g i := by
        refine if_neg ?_
        have h₁ := hs.aligned hg
        have h₂ := hs.aligned (.inl hf)
        rw [entry, pageSize]
        omega
      rw [hpte] at hpointer htarget
      exact .inr ⟨hg, hi, hpointer, htarget⟩
  have hroot : ∀ {h}, h ∈ ((s.madeRoot cfg f).setCap p c).rooted → s.IsTable h := by
    intro h hh
    rcases List.mem_cons.1 hh with rfl | hh
    · exact hf
    · exact hs.root hh
  refine { heap := hs.heap.of_eq rfl rfl, live := fun {g i h} href => ?_, root := hroot,
           once := fun {h g i g' i'} hh href href' => ?_, roots := fun {h} hr g i href => ?_,
           unmapped := fun {d} hd hk hm => ?_ }
  · rcases hrefers href with ⟨-, hold⟩ | hold <;> exact hs.live hold
  · rcases hrefers href with ⟨-, hold⟩ | hold
    · exact absurd hh (hkernel _ _ hold)
    · rcases hrefers href' with ⟨-, hold'⟩ | hold'
      · exact absurd hh (hkernel _ _ hold')
      · exact hs.once hh hold hold'
  · rcases hrefers href with ⟨-, hold⟩ | hold
    · exact hkernel _ _ hold (hroot hr)
    · rcases List.mem_cons.1 hr with rfl | hr
      · exact hloose.2 g i hold
      · exact hs.roots hr g i hold
  · have helse := holdsElsewhere_of_setCap (s := s.madeRoot cfg f) hc hd hm
    obtain ⟨hnot, hnone⟩ := hs.unmapped (holds_of_elsewhere helse) hk hm
    refine ⟨fun hr => ?_, fun g i href => ?_⟩
    · rcases List.mem_cons.1 hr with heq | hr
      · exact hlast d helse hk hm heq
      · exact hnot hr
    · rcases hrefers href with ⟨-, hold⟩ | hold <;> exact hnone _ i hold

end TableOwnership

theorem CapabilityData.isMapped_setRoot {c : CapabilityData} (h : c.isMapped = true) :
    c.setRoot.isMapped = true := by
  rw [isMapped] at h
  simp only [isMapped, setRoot, setCapDepVal, UInt64.toNat_or, Nat.testBit_or, h, Bool.true_or]

/-! ## Runs -/

/-- The frames that a walk of the invocation uses as tables are page tables. -/
def WalksTables (cfg : Config) : InvokeCond := fun invLabel reg u inv =>
  ∀ vaddr ∈ walkVaddr? invLabel reg inv.cap, ∀ r,
    lookupCap cfg inv.rootCnode reg.a3.toNat (reg.a4.toNat % 2 ^ 32) .pageTable u = .ok r →
    ∀ g ∈ PageTable.path u r.2.getFrame vaddr, u.IsAnyTable cfg g

/-- What the invocations on untyped memory, CNodes and page tables leave to the caller: a minted
capability with a clear flag is for a table in no address space, and a table is mapped or made a
root through the last capability with a clear flag. `KERNEL_VM_ROOT`, which every root is a copy of,
leads to no page table object. -/
def MapsLast (cfg : Config) : InvokeCond := fun invLabel reg u inv =>
  (∀ k, inv.cap.getCapType = .ok k → k = .untyped ∨ k = .cNode ∨ k = .pageTable) ∧
  (invLabel = .cNodeMint → inv.cap.getCapType = .ok .cNode → ∀ slot c,
    inv.rootCnode.lookupEntryMut cfg reg.a3.toNat (reg.a4.toNat >>> 32) u = .ok slot →
    u.capAt slot = some c → c.getCapType = .ok .pageTable →
    (c.setCapDepVal reg.a6).isMapped = false → u.Loose cfg c.getFrame) ∧
  (inv.cap.getCapType = .ok .pageTable → ∀ c, u.HoldsElsewhere cfg inv.slot c →
    c.getCapType = .ok .pageTable → c.isMapped = false → c.getFrame ≠ inv.cap.getFrame) ∧
  (invLabel = .pageTableMakeRoot → inv.cap.getCapType = .ok .pageTable → ∀ i f,
    u.Refers cfg (imagePhys cfg.kernelVmRoot) i f → ¬ u.IsTable f)

/-- And what else is left to the caller: a retype fits into its block, `CNodeMint` leaves the radix
of CNodes alone, and walks stay in page tables, whatever table they start from. -/
def OwnsTables (cfg : Config) : InvokeCond := fun invLabel reg u inv =>
  (RetypeFits cfg invLabel reg u inv ∧ MintConfined cfg invLabel reg u inv ∧
    WalksTables cfg invLabel reg u inv) ∧ MapsLast cfg invLabel reg u inv

/-- Capabilities are for live objects of their type and lead no further, threads hold what they
should, and no object lies in the free part of a block. -/
structure Orderly (cfg : Config) (s : KState) : Prop extends Anchored cfg s where
  objects : CapsAll ObjectCap s
  confined : CapsAll Confined s
  typed : TypedSlots cfg s
  allocated : Allocated cfg s

namespace TableOwnership

theorem invoke {u w : KState} {invLabel : InvLabel} {reg : Registers} {inv : Invocation}
    {k : CapabilityType} {v : Option Nat} (hu : TableOwnership cfg u) (hcaps : CapsAll ObjectCap u)
    (hcond : MapsLast cfg invLabel reg u inv) (hslot : u.isSlot inv.slot = true)
    (hcap : u.capAt inv.slot = some inv.cap) (hk : inv.cap.getCapType = .ok k)
    (h : invoke cfg invLabel reg inv k u = .ok v w) : TableOwnership cfg w := by
  obtain ⟨hkind, hmint, hlast, hkernel⟩ := hcond
  rcases hkind k hk with rfl | rfl | rfl
  · exact retypeStable.invokeUntyped hu.heap hu h
  · exact hu.invokeCNode (fun hl => hmint hl hk) h
  · have htable : u.IsTable inv.cap.getFrame :=
      ObjectCap.getFrame_isTable hu.heap (hcaps _ (.inl ⟨_, hcap⟩)) hk
    obtain ⟨hm, hcase⟩ := invokePageTable_ok h
    have hloose := hu.unmapped (.inl ⟨_, hu.heap.not_isLocal hslot, hcap⟩) hk hm
    rcases hcase with ⟨-, p, root, level, a, -, -, -, -, rfl⟩ | ⟨hl, -, rfl⟩
    · exact hu.link htable hloose (CapabilityData.isMapped_setMapped ..) (hlast hk)
    · exact hu.makeRoot htable hloose
        (CapabilityData.isMapped_setRoot (CapabilityData.isMapped_setMapped ..)) (hkernel hl hk)
        (hlast hk)

/-- **One event.** -/
theorem step {ev : Event} (hs : TableOwnership cfg s) (hcaps : CapsAll ObjectCap s)
    (hcond : ev.Meets cfg (MapsLast cfg) s) (h : Step cfg s ev s') : TableOwnership cfg s' := by
  cases ev with
  | store a w =>
    obtain ⟨⟨-, o, ho, hk, hle, hlt⟩, hexec⟩ := h
    obtain rfl := modify_ok.1 hexec
    have hsize := (hs.heap.frame_bounds ho (.inl hk)).1
    exact hs.setPage ho hk fun b hb => Function.update_of_ne (by omega) ..
  | trap regs =>
    obtain ⟨t, u, v, ht, -, hu, hsched, hcase⟩ := step_trap h
    have hsu : TableOwnership cfg u := hu ▸ hs.setTcb ht fun slot => by cases slot <;> rfl
    have hcapsu : CapsAll ObjectCap u := hu ▸ hcaps.setRegisters ht regs
    refine threadStable.schedule.ok ?_ hsched
    rcases hcase with htimer | ⟨-, ret, w, hret, hw⟩
    · exact threadStable.timerTick.ok hsu htimer
    · refine (threadStable.steady.returnSyscall _ _).ok ?_ hret
      rcases hw with rfl | ⟨invLabel, inv, k, val, -, hinv, hk, hinvoke⟩
      · exact hsu
      · obtain ⟨-, -, -, -, hslot, hcap⟩ := findInvocation_ok hinv.found
        exact hsu.invoke hcapsu (hcond _ _ _ _ hinv) hslot hcap hk hinvoke

end TableOwnership

/-- **One event** of an orderly state. -/
theorem Orderly.step {ev : Event} (hs : Orderly cfg s) (hu : Unshared cfg s)
    (hcond : ev.Meets cfg (OwnsTables cfg) s) (h : Step cfg s ev s') :
    Orderly cfg s' ∧ Unshared cfg s' := by
  have hown : TableOwnership cfg s := { hs.toAnchored, hu with }
  have hown' := hown.step hs.objects (hcond.mono fun _ _ _ _ h => h.2) h
  refine ⟨⟨hown'.toAnchored, ?_, ?_, ?_, ?_⟩, hown'.toUnshared⟩
  · exact hs.objects.step objectCap_capRule (fun _ _ _ _ _ => mintKeeps_objectCap) h
  · exact hs.confined.step confined_capRule (fun _ _ _ _ hinv => (hcond _ _ _ _ hinv).1.2.1.keeps) h
  · exact hs.typed.step hs.heap hs.objects h
  · exact hs.allocated.step hs.heap (hcond.mono fun _ _ _ _ h => h.1.1) h

/-- **Page tables are not shared**, in every run from an orderly state without shared tables in
which tables are mapped through the last capability with a clear flag and the other conditions are
met. -/
theorem unshared_of_run (hs : Orderly cfg s) (hu : Unshared cfg s)
    (hrun : Run cfg (OwnsTables cfg) s s') : Orderly cfg s' ∧ Unshared cfg s' := by
  induction hrun with
  | refl => exact ⟨hs, hu⟩
  | tail _ hstep ih =>
    obtain ⟨ev, hcond, hstep⟩ := hstep
    exact ih.1.step ih.2 hcond hstep

/-! ## A small system

One CNode with eight slots, one thread, its root table, and a table that is not mapped. -/

namespace Small

/-- The address of slot `i`. -/
def slot (i : Nat) : Nat := toKernelV 0x80400000 + CapabilityType.entrySize * i

def thread : Nat := toKernelV 0x80403000

def cnodeCap : CapabilityData := .new .cNode 0x80400000 3

/-- What `PageTableMakeRoot` leaves. -/
def rootCap : CapabilityData :=
  ((CapabilityData.new .pageTable 0x80401000 0).setMapped (toKernelV 0x80401000)).setRoot

def tableCap : CapabilityData := .new .pageTable 0x80402000 0

def state : KState where
  slots p :=
    if p = slot 1 then some (.newWithRawcap cnodeCap)
    else if p = slot 2 then some (.newWithRawcap rootCap)
    else if p = slot 3 then some (.newWithRawcap tableCap)
    else none
  tcbs p :=
    if p = thread then
      some { status := .runnable, rootCnode := some (.newWithRawcap cnodeCap),
             vspace := some (.newWithRawcap rootCap), registers := { sstatus := 0x20 } }
    else none
  endpoints _ := none
  notifications _ := none
  mem a :=
    if 0x80401000 ≤ a ∧ a < 0x80402000 then
      kernelVmWords .virt (fun _ => 0) (imagePhys Config.virt.kernelVmRoot + (a - 0x80401000))
    else kernelVmWords .virt (fun _ => 0) a
  objects := [⟨.cNode, 0x80400000, 3, 256⟩, ⟨.pageTable, 0x80401000, 0, 4096⟩,
    ⟨.pageTable, 0x80402000, 0, 4096⟩, ⟨.tcb, 0x80403000, 0, Config.virt.tcbSize⟩]
  rooted := [0x80401000]
  runqueue := []
  requested := false
  current := thread
  curRegBase := thread
  satp := 0x80401000

theorem capAt_cases {p : Nat} {c : CapabilityData} (h : state.capAt p = some c) :
    p = slot 1 ∧ c = cnodeCap ∨ p = slot 2 ∧ c = rootCap ∨ p = slot 3 ∧ c = tableCap := by
  simp only [KState.capAt, state] at h
  split at h
  · next hp => exact .inl ⟨hp, (Option.some.inj h).symm⟩
  · split at h
    · next hp => exact .inr (.inl ⟨hp, (Option.some.inj h).symm⟩)
    · split at h
      · next hp => exact .inr (.inr ⟨hp, (Option.some.inj h).symm⟩)
      · cases h

theorem thread_cases {c : CapabilityData} (h : state.HeldByThread c) :
    c = cnodeCap ∨ c = rootCap := by
  obtain ⟨p, t, slot, e, ht, he, rfl⟩ := h
  simp only [state] at ht
  split at ht
  · obtain rfl := Option.some.inj ht
    cases slot with
    | rootCnode => exact .inl (congrArg CNodeEntry.cap (Option.some.inj he).symm)
    | vspace => exact .inr (congrArg CNodeEntry.cap (Option.some.inj he).symm)
    | ipcBuffer => cases he
  · cases ht

theorem isTable_cases {f : Nat} (h : state.IsTable f) : f = 0x80401000 ∨ f = 0x80402000 := by
  obtain ⟨o, ho, hk, rfl⟩ := KState.isTable_iff.1 h
  rcases List.mem_cons.1 ho with rfl | ho
  · cases hk
  rcases List.mem_cons.1 ho with rfl | ho
  · exact .inl rfl
  rcases List.mem_cons.1 ho with rfl | ho
  · exact .inr rfl
  obtain rfl := List.mem_singleton.1 ho
  cases hk

/-- The entries lead to the second static table only. -/
theorem refers_target {g i f : Nat} (h : state.Refers .virt g i f) :
    f = imagePhys Config.virt.lv2Table := by
  have hall : ∀ g ∈ [0x80401000, 0x80402000, imagePhys Config.virt.kernelVmRoot,
      imagePhys Config.virt.lv2Table], ∀ i < 512, Pte.isPointer (state.pte g i) = true →
      Pte.target (state.pte g i) = imagePhys Config.virt.lv2Table := by decide +kernel
  obtain ⟨hg, hi, hpointer, rfl⟩ := h
  refine hall g ?_ i hi hpointer
  rcases hg with hg | rfl | rfl
  · rcases isTable_cases hg with rfl | rfl <;> simp
  · simp
  · simp

theorem not_refers {g i f : Nat} (hf : state.IsTable f) : ¬ state.Refers .virt g i f := by
  intro h
  have h := refers_target h
  rcases isTable_cases hf with rfl | rfl <;> exact absurd h (by decide)

theorem anchored : Anchored .virt state where
  heap := by
    refine ⟨by decide, by decide, by decide, fun p t ht => ?_⟩
    simp only [state] at ht
    split at ht
    · next hp => exact .inr ⟨_, .tail _ (.tail _ (.tail _ (.head _))), rfl, hp.symm⟩
    · cases ht
  live h := .inr (.inr (.inr (refers_target h)))
  root hf := by
    obtain rfl := List.mem_singleton.1 hf
    exact (by decide : state.isObject .pageTable 0x80401000 = true)

theorem unshared : Unshared .virt state where
  once hf h _ := absurd h (not_refers hf)
  roots hf g i := not_refers (anchored.root hf)
  unmapped {c} hc hk hm := by
    have hcap : c = tableCap := by
      have hcases : c = cnodeCap ∨ c = rootCap ∨ c = tableCap := by
        rcases hc with ⟨p, -, hp⟩ | hthread
        · rcases capAt_cases hp with h | h | h
          · exact .inl h.2
          · exact .inr (.inl h.2)
          · exact .inr (.inr h.2)
        · exact (thread_cases hthread).imp_right .inl
      rcases hcases with rfl | rfl | rfl
      · exact absurd hk (by decide)
      · exact absurd hm (by decide)
      · rfl
    subst hcap
    have htable : state.isObject .pageTable tableCap.getFrame = true := by decide
    exact ⟨by decide, fun g i => not_refers htable⟩

theorem objectCaps : CapsAll ObjectCap state := by
  have hcnode : ObjectCap state.objects state.rooted cnodeCap := fun k hk _ => by
    obtain rfl : CapabilityType.cNode = k := Except.ok.inj hk
    exact ⟨_, .head _, rfl, rfl⟩
  have hroot : ObjectCap state.objects state.rooted rootCap := fun k hk _ => by
    obtain rfl : CapabilityType.pageTable = k := Except.ok.inj hk
    exact ⟨_, .tail _ (.head _), rfl, rfl⟩
  have htable : ObjectCap state.objects state.rooted tableCap := fun k hk _ => by
    obtain rfl : CapabilityType.pageTable = k := Except.ok.inj hk
    exact ⟨_, .tail _ (.tail _ (.head _)), rfl, rfl⟩
  rintro c (⟨p, hp⟩ | hthread)
  · rcases capAt_cases hp with ⟨-, rfl⟩ | ⟨-, rfl⟩ | ⟨-, rfl⟩ <;> assumption
  · rcases thread_cases hthread with rfl | rfl <;> assumption

theorem confined : CapsAll Confined state := by
  have hcnode : Confined state.objects state.rooted cnodeCap :=
    ⟨fun _ => ⟨_, .head _, rfl, by decide, by decide⟩, fun hk => absurd hk (by decide)⟩
  have hroot : Confined state.objects state.rooted rootCap :=
    ⟨fun hk => absurd hk (by decide), fun _ _ => by decide⟩
  have htable : Confined state.objects state.rooted tableCap :=
    ⟨fun hk => absurd hk (by decide), fun _ h => absurd h (by decide)⟩
  rintro c (⟨p, hp⟩ | hthread)
  · rcases capAt_cases hp with ⟨-, rfl⟩ | ⟨-, rfl⟩ | ⟨-, rfl⟩ <;> assumption
  · rcases thread_cases hthread with rfl | rfl <;> assumption

theorem typed : TypedSlots .virt state := by
  intro p t slot e ht he
  simp only [state] at ht
  split at ht
  · next hp =>
    subst hp
    obtain rfl := Option.some.inj ht
    cases slot <;> cases he <;> exact ⟨by decide, by decide⟩
  · cases ht

/-- There is no untyped capability. -/
theorem allocated : Allocated .virt state := by
  have hnone : ∀ p c, ¬state.Untyped .virt p c := by
    rintro p c ⟨-, hcap, hk⟩
    rcases capAt_cases hcap with ⟨-, rfl⟩ | ⟨-, rfl⟩ | ⟨-, rfl⟩ <;> exact absurd hk (by decide)
  exact ⟨fun p c h => (hnone p c h).elim, fun p c h => (hnone p c h).elim,
    fun p c h => (hnone p c h).elim, fun p _ c _ h => (hnone p c h).elim⟩

theorem orderly : Orderly .virt state := ⟨anchored, objectCaps, confined, typed, allocated⟩

/-- `CNodeCopy` of the table's capability into slot 4. -/
def copyRegs : Registers := { ecallRegs 1 3 9 with a3 := 3, a4 := 3 * 2 ^ 32 + 3, a5 := 4 }

/-- `PageTableMap` of the capability in a slot, from the root table. -/
def mapRegs (slot vaddr : UInt64) : Registers :=
  { ecallRegs slot 3 14 with a3 := 2, a4 := 3, a5 := vaddr }

/-- The capability in slot 3 is the only one that is not mapped. -/
theorem mapRegs_mapsLast : (Event.trap (mapRegs 3 0x1000)).Meets .virt (MapsLast .virt) state := by
  intro invLabel reg u inv hinv
  have heval : ((Event.trap (mapRegs 3 0x1000)).invocation? .virt state).any (fun i =>
      i.1 = .pageTableMap && i.2.2.2.slot = slot 3 && i.2.2.2.cap = tableCap) = true := by
    decide +kernel
  rw [hinv.invocation?, Option.any_some] at heval
  simp only [Bool.and_eq_true, decide_eq_true_eq] at heval
  obtain ⟨⟨rfl, hslot⟩, hcap⟩ := heval
  obtain ⟨t, ht, rfl⟩ := trapEntry_ok.1 hinv.entry
  refine ⟨fun k hk => ?_, fun hlabel => ?_, fun _ c hc hk hm => ?_, fun hlabel => ?_⟩
  · rw [hcap] at hk
    exact .inr (.inr (Except.ok.inj hk).symm)
  · cases hlabel
  · have hcases : c = cnodeCap ∨ c = rootCap := by
      rcases hc with ⟨q, hq, -, hc⟩ | hthread
      · rcases capAt_cases hc with h | h | h
        · exact .inl h.2
        · exact .inr h.2
        · exact absurd (h.1.trans hslot.symm) hq
      · exact thread_cases (hthread.of_setTcb ht fun slot => by cases slot <;> rfl)
    rcases hcases with rfl | rfl
    · exact absurd hk (by decide)
    · exact absurd hm (by decide)
  · cases hlabel

end Small

instance (s : KState) (g : Nat) : Decidable (s.IsAnyTable cfg g) := by
  unfold KState.IsAnyTable KState.IsTable
  infer_instance

instance (invLabel : InvLabel) (reg : Registers) (u : KState) (inv : Invocation) :
    Decidable (WalksTables cfg invLabel reg u inv) := by
  unfold WalksTables
  infer_instance

/-- The table is mapped through its only capability. -/
theorem unshared_after_map : ∃ s, Orderly .virt Small.state ∧ Unshared .virt Small.state ∧
    Run .virt (OwnsTables .virt) Small.state s ∧
    s.pte 0x80401000 0 = Pte.write 0x80402000 pageV ∧ Unshared .virt s := by
  obtain ⟨_, s, hexec, htest⟩ := exists_of_endsIn
    (by decide +kernel : endsIn (kernelTrap .virt (Small.mapRegs 3 0x1000) Small.state)
      (fun s => s.pte 0x80401000 0 = Pte.write 0x80402000 pageV) = true)
  have hmeets : (Event.trap (Small.mapRegs 3 0x1000)).Meets .virt (fun l r u i =>
      RetypeFits .virt l r u i ∧ MintConfined .virt l r u i ∧ WalksTables .virt l r u i)
      Small.state := Event.meets_of_eval (by decide +kernel)
  have hrun : Run .virt (OwnsTables .virt) Small.state s :=
    .single ⟨.trap (Small.mapRegs 3 0x1000), fun _ _ _ _ hinv =>
      ⟨hmeets _ _ _ _ hinv, Small.mapRegs_mapsLast _ _ _ _ hinv⟩, by decide, hexec⟩
  exact ⟨s, Small.orderly, Small.unshared, hrun, of_decide_eq_true htest,
    (unshared_of_run Small.orderly Small.unshared hrun).2⟩

/-- The capability is copied, and the table is mapped through both: two entries lead to it. What is
left to the caller is met, but for `MapsLast`. -/
theorem shared_after_copy : ∃ s, Orderly .virt Small.state ∧ Unshared .virt Small.state ∧
    Run .virt (fun l r u i => (RetypeFits .virt l r u i ∧ MintConfined .virt l r u i ∧
        WalksTables .virt l r u i) ∧
      (i.cap.getCapType = .ok .cNode ∨ i.cap.getCapType = .ok .pageTable)) Small.state s ∧
    ¬ Unshared .virt s := by
  obtain ⟨_, s, hrun, htest⟩ := exists_of_endsIn
    (by decide +kernel : endsIn (runTrace .virt (fun l r u i =>
        (RetypeFits .virt l r u i ∧ MintConfined .virt l r u i ∧ WalksTables .virt l r u i) ∧
        (i.cap.getCapType = .ok .cNode ∨ i.cap.getCapType = .ok .pageTable))
      [.trap Small.copyRegs, .trap (Small.mapRegs 3 0x1000), .trap (Small.mapRegs 4 0x8000000000)]
      Small.state) (fun s => s.isObject .pageTable 0x80401000 && s.isObject .pageTable 0x80402000 &&
        s.pte 0x80401000 0 = Pte.write 0x80402000 pageV &&
        s.pte 0x80401000 1 = Pte.write 0x80402000 pageV) = true)
  refine ⟨s, Small.orderly, Small.unshared, run_of_runTrace hrun, fun hs => ?_⟩
  simp only [Bool.and_eq_true, decide_eq_true_eq] at htest
  obtain ⟨⟨⟨hroot, htable⟩, hfirst⟩, hsecond⟩ := htest
  have hrefers : ∀ i < 512, s.pte 0x80401000 i = Pte.write 0x80402000 pageV →
      s.Refers .virt 0x80401000 i 0x80402000 := fun i hi h =>
    ⟨.inl hroot, hi, by rw [h]; decide, by rw [h]; decide⟩
  have h := hs.once htable (hrefers 0 (by decide) hfirst) (hrefers 1 (by decide) hsecond)
  exact absurd h.2 (by decide)

end Zoeax
