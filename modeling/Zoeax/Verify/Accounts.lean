import Zoeax.Lib.Ledger
import Zoeax.Verify.Loaders
import Zoeax.Verify.Tlb

/-!
# Marks and mappings

Where a page is mapped is said twice: by the entry in the page table, and by the capability that it
was mapped with, which is *marked* with the address. `PageMap` and `PageUnMap` write both, the CNode
invocations only the capability.

- `Books`: the entries of the user half and the marks in the slots are a `Ledger`;
- `Accounting.step`: every event keeps that, if no page capability is moved or minted with a mark;
- `accounted_of_run`: so every mapping can be undone, and every mark is right, in all such runs;
- `not_accounted_of_mint`: a mark can be forged with `CNodeMint`;
- `not_accounted_of_move`: `CNodeMove` loses the mark of a page that stays mapped.
-/

namespace Zoeax

open Lib Exec
open PageTable (entry)

variable {cfg : Config} {s s' : KState} {root v : Nat}

theorem getUserFlags_lt (flags : Nat) : pageU ||| getUserFlags flags < 2 ^ 10 := by
  unfold getUserFlags
  split_ifs <;> decide

/-! ## The property -/

namespace CapabilityData

/-- The capability is marked as mapped at the page of `v`. -/
def MarkedAt (c : CapabilityData) (v : Nat) : Prop :=
  c.getCapType = .ok .page ∧ c.isMapped = true ∧ c.getMappedAddress / 2 ^ 12 = v / 2 ^ 12

/-- The page and the frame of the mark. -/
def mark? (c : CapabilityData) : Option (Nat × Nat) :=
  if c.getCapType = .ok .page ∧ c.isMapped = true then
    some (c.getMappedAddress / 2 ^ 12, c.getFrame)
  else none

/-- A page capability without a mark that records no address either. -/
def Plain (c : CapabilityData) : Prop :=
  c.getCapType = .ok .page → c.isMapped = false ∧ c.getMappedAddress = 0

variable {c : CapabilityData}

theorem mark?_eq_some {k f : Nat} : c.mark? = some (k, f) ↔ c.getCapType = .ok .page ∧
    c.isMapped = true ∧ c.getMappedAddress / 2 ^ 12 = k ∧ c.getFrame = f := by
  rw [mark?]
  split
  · next h => rw [Option.some.injEq, Prod.mk.injEq, ← and_assoc, and_iff_right h]
  · next h => exact ⟨nofun, fun hc => absurd ⟨hc.1, hc.2.1⟩ h⟩

theorem markedAt_iff : c.MarkedAt v ↔ c.mark? = some (v / 2 ^ 12, c.getFrame) := by
  rw [mark?_eq_some, MarkedAt, and_iff_left rfl]

theorem mark?_of_not_page (h : c.getCapType ≠ .ok .page) : c.mark? = none :=
  if_neg fun hc => h hc.1

theorem Plain.mark?_eq_none (h : c.Plain) : c.mark? = none :=
  if_neg fun hc => by
    rw [(h hc.1).1] at hc
    cases hc.2

theorem plain_of_not_page (h : c.getCapType ≠ .ok .page) : c.Plain := fun hk => absurd hk h

/-- The low bits of the word are the address and the mark. -/
theorem plain_of_capDepVal (h : c.capDepVal.toNat % 2 ^ 49 = 0) : c.Plain := fun _ => by
  refine ⟨?_, ?_⟩
  · have hbit := Nat.testBit_mod_two_pow c.capDepVal.toNat 49 48
    rw [h, Nat.zero_testBit] at hbit
    simpa [isMapped] using hbit.symm
  · rw [getMappedAddress]
    omega

/-- `PageMap` marks the capability. -/
theorem Plain.mark?_setMapped (h : c.Plain) (hk : c.getCapType = .ok .page) (hv : v < 2 ^ 48) :
    (c.setMapped v).mark? = some (v / 2 ^ 12, c.getFrame) := by
  refine mark?_eq_some.2 ⟨hk, isMapped_setMapped .., ?_, rfl⟩
  rw [getMappedAddress_setMapped_or c hv, (h hk).2, Nat.zero_or]

end CapabilityData

/-- Every page that is mapped in a user half has a capability, in a slot of a CNode, that is marked
as mapped there; and where a capability is marked as mapped, its page is mapped. -/
structure Accounted (s : KState) : Prop where
  recorded : ∀ root ∈ s.rooted, ∀ v < 2 ^ 47, ∀ pte, s.leaf? root v = some pte →
    ∃ p c, s.isSlot p = true ∧ s.capAt p = some c ∧ c.MarkedAt v ∧ c.getFrame = Pte.target pte
  backed : ∀ p c v, s.isSlot p = true → s.capAt p = some c → c.MarkedAt v →
    ∃ root ∈ s.rooted, ∃ pte, s.leaf? root v = some pte ∧ Pte.target pte = c.getFrame

/-! ## The books -/

theorem isSlot_born (o : Object) {p : Nat} (hp : s.isSlot p = true) :
    (s.born o).isSlot p = true := by
  rw [KState.isSlot, objects_born]
  exact isSlot_cons o hp

namespace KState

/-- The frame of the page `k` of the user half. -/
def frame? (s : KState) (root k : Nat) : Option Nat :=
  if k < 2 ^ 35 then (s.leaf? root (2 ^ 12 * k)).map Pte.target else none

/-- The mark of the capability in a slot; local variables do not count. -/
def mark? (cfg : Config) (s : KState) (p : Nat) : Option (Nat × Nat) :=
  if cfg.isLocal p = true then none else (s.capAt p).bind CapabilityData.mark?

theorem frame?_page (hv : v < 2 ^ 47) :
    s.frame? root (v / 2 ^ 12) = (s.leaf? root v).map Pte.target := by
  have hpage : 2 ^ 12 * (v / 2 ^ 12) / 2 ^ 12 = v / 2 ^ 12 := by omega
  rw [frame?, if_pos (by omega), leaf?_congr hpage]

theorem frame?_congr (hleaf : ∀ {v}, v < 2 ^ 47 → s'.leaf? root v = s.leaf? root v) :
    s'.frame? root = s.frame? root := by
  funext k
  rw [frame?, frame?]
  split
  · next hk => rw [hleaf (by omega)]
  · rfl

theorem frame?_update (hv : v < 2 ^ 47) {pte : Option UInt64}
    (hleaf : ∀ {u}, u < 2 ^ 47 → s'.leaf? root u =
      if u / 2 ^ 12 = v / 2 ^ 12 then pte else s.leaf? root u) :
    s'.frame? root = Function.update (s.frame? root) (v / 2 ^ 12) (pte.map Pte.target) := by
  funext k
  by_cases hk : k = v / 2 ^ 12
  · rw [hk, Function.update_self, frame?_page hv, hleaf hv, if_pos rfl]
  · rw [Function.update_of_ne hk, frame?, frame?]
    split
    · next hlt => rw [hleaf (by omega), if_neg (by omega)]
    · rfl

theorem mark?_of_capAt {p : Nat} {c : CapabilityData} (hp : cfg.isLocal p = false)
    (hc : s.capAt p = some c) : s.mark? cfg p = c.mark? := by
  rw [mark?, hp, hc]
  rfl

theorem mark?_of_none {p : Nat} (hc : s.capAt p = none) : s.mark? cfg p = none := by
  rw [mark?, hc]
  split <;> rfl

theorem exists_of_mark? {p k f : Nat} (h : s.mark? cfg p = some (k, f)) :
    ∃ c, cfg.isLocal p = false ∧ s.capAt p = some c ∧ c.mark? = some (k, f) := by
  rw [mark?] at h
  split at h
  · cases h
  · next hp =>
    obtain ⟨c, hc, hmark⟩ := Option.bind_eq_some_iff.1 h
    exact ⟨c, Bool.not_eq_true _ ▸ hp, hc, hmark⟩

end KState

theorem PutCap.mark? {q : Nat} {c : CapabilityData} (h : PutCap cfg q c s s')
    (hq : cfg.isLocal q = false) :
    s'.mark? cfg = Function.update (s.mark? cfg) q c.mark? := by
  funext r
  by_cases hr : r = q
  · subst hr
    rw [Function.update_self]
    exact KState.mark?_of_capAt hq ((h.2 _ hq).trans (if_pos rfl))
  · rw [Function.update_of_ne hr, KState.mark?, KState.mark?]
    split
    · rfl
    · next hlocal => rw [h.2 r (Bool.not_eq_true _ ▸ hlocal), if_neg hr]

theorem putCap_setCap {q : Nat} {c : CapabilityData} (hq : s.capAt q = some c)
    (c' : CapabilityData) : PutCap cfg q c' s (s.setCap q c') :=
  ⟨⟨_, rfl⟩, fun r _ => KState.capAt_setCap hq r⟩

theorem putCap_setSlot (q : Nat) (c : CapabilityData) :
    PutCap cfg q c s (s.setSlot q (some (.newWithRawcap c))) :=
  ⟨⟨_, rfl⟩, fun r _ => KState.capAt_setSlot s q r _⟩

/-- The capabilities are in slots of CNodes, and the marks record the entries of the user half. -/
structure Books (cfg : Config) (root : Nat) (s : KState) : Prop where
  placed : ∀ {p c}, cfg.isLocal p = false → s.capAt p = some c →
    s.isSlot p = true ∧ (c.Plain ∨ c.isMapped = true)
  ledger : Ledger (s.frame? root) (s.mark? cfg)

namespace Books

theorem empty (hleaf : ∀ {v}, v < 2 ^ 47 → s.leaf? root v = none)
    (hcaps : ∀ p c, cfg.isLocal p = false → s.capAt p = some c → s.isSlot p = true ∧ c.Plain) :
    Books cfg root s where
  placed {p c} hp hc := ⟨(hcaps p c hp hc).1, .inl (hcaps p c hp hc).2⟩
  ledger := by
    refine .empty (fun k => ?_) fun p => ?_
    · rw [KState.frame?]
      split
      · next hk =>
        rw [hleaf (by omega)]
        rfl
      · rfl
    · by_contra hmark
      obtain ⟨⟨k, f⟩, hmark⟩ := Option.ne_none_iff_exists'.1 hmark
      obtain ⟨c, hp, hc, hmark⟩ := KState.exists_of_mark? hmark
      cases (hcaps p c hp hc).2.mark?_eq_none.symm.trans hmark

/-- No entry changes, and no capability with a mark. -/
theorem congr (h : Books cfg root s) (hslot : ∀ p, s.isSlot p = true → s'.isSlot p = true)
    (hleaf : ∀ {v}, v < 2 ^ 47 → s'.leaf? root v = s.leaf? root v)
    (hcaps : ∀ p, cfg.isLocal p = false → s'.capAt p = s.capAt p ∨ s.mark? cfg p = none ∧
      ∀ c, s'.capAt p = some c → s'.isSlot p = true ∧ c.Plain) : Books cfg root s' where
  placed {p c} hp hc := by
    rcases hcaps p hp with heq | ⟨-, hnew⟩
    · obtain ⟨hs, hc⟩ := h.placed hp (heq ▸ hc)
      exact ⟨hslot p hs, hc⟩
    · exact ⟨(hnew c hc).1, .inl (hnew c hc).2⟩
  ledger := by
    have hmark : s'.mark? cfg = s.mark? cfg := by
      funext p
      cases hp : cfg.isLocal p with
      | true => rw [KState.mark?, KState.mark?, if_pos hp, if_pos hp]
      | false =>
        rcases hcaps p hp with heq | ⟨hnone, hnew⟩
        · rw [KState.mark?, KState.mark?, heq]
        · rw [hnone]
          cases hc : s'.capAt p with
          | none => exact KState.mark?_of_none hc
          | some c => rw [KState.mark?_of_capAt hp hc, (hnew c hc).2.mark?_eq_none]
    rw [hmark, KState.frame?_congr hleaf]
    exact h.ledger

/-- A capability without a mark is put in an empty slot. -/
theorem fill (h : Books cfg root s) (hslot : ∀ q, s.isSlot q = true → s'.isSlot q = true)
    (hleaf : ∀ {v}, v < 2 ^ 47 → s'.leaf? root v = s.leaf? root v) {p : Nat} {c : CapabilityData}
    (hp : s'.isSlot p = true) (hnone : s.capAt p = none) (hc : c.Plain)
    (hcaps : ∀ q, cfg.isLocal q = false → s'.capAt q = if q = p then some c else s.capAt q) :
    Books cfg root s' := by
  refine h.congr hslot hleaf fun q hq => ?_
  rw [hcaps q hq]
  split
  · next heq =>
    refine .inr ⟨KState.mark?_of_none (heq ▸ hnone), fun d hd => ?_⟩
    obtain rfl := Option.some.inj hd
    exact ⟨heq ▸ hp, hc⟩
  · exact .inl rfl

/-- A capability is put in a slot, and its mark agrees with what happens to the entries. -/
theorem put (h : Books cfg root s) {p : Nat} {c : CapabilityData} {s₁ : KState}
    (hlocal : cfg.isLocal p = false) (hslots : ∀ q, s.isSlot q = true → s'.isSlot q = true)
    (hp : s'.isSlot p = true) (hc : c.Plain ∨ c.isMapped = true)
    (hput : PutCap cfg p c s₁ s') (hcaps : s₁.slots = s.slots)
    (hledger : Ledger (s'.frame? root) (Function.update (s.mark? cfg) p c.mark?)) :
    Books cfg root s' where
  placed {q d} hq hd := by
    rw [hput.2 q hq] at hd
    split at hd
    · next heq =>
      obtain rfl := Option.some.inj hd
      exact ⟨heq ▸ hp, hc⟩
    · rw [KState.capAt, hcaps] at hd
      obtain ⟨hs, hd⟩ := h.placed hq hd
      exact ⟨hslots q hs, hd⟩
  ledger := by
    have hmark : s₁.mark? cfg = s.mark? cfg := by
      funext q
      rw [KState.mark?, KState.mark?, KState.capAt, hcaps, KState.capAt]
    rw [hput.mark? hlocal, hmark]
    exact hledger

section Entries

variable (h : Books cfg root s) (hspace : UserSpace s root) (hv : v < 2 ^ 47) {p t : Nat}
  {c : CapabilityData} (hp : s.isSlot p = true) (hlocal : cfg.isLocal p = false)

include h hspace hv hp hlocal

/-- A free entry is filled, and the capability gets its mark. -/
theorem map (hend : Radix.End sv48 s.mem 3 root v 0 t) {w : UInt64}
    (hfree : Pte.isValid (s.mem (entry t (getVpn v 0))) = false) (hw : Pte.isValid w = true)
    (hmark : s.mark? cfg p = none) (hc : c.mark? = some (v / 2 ^ 12, Pte.target w))
    (hput : PutCap cfg p c (s.setWord (entry t (getVpn v 0)) w) s') : Books cfg root s' := by
  have hleaf : ∀ {u}, u < 2 ^ 47 → s'.leaf? root u =
      if u / 2 ^ 12 = v / 2 ^ 12 then some w else s.leaf? root u := by
    obtain ⟨⟨slots, rfl⟩, -⟩ := hput
    exact fun hu => hspace.leaf?_setLeaf hv hend hw hu
  have hslots : ∀ q, s.isSlot q = true → s'.isSlot q = true := by
    obtain ⟨⟨slots, rfl⟩, -⟩ := hput
    exact fun q hq => hq
  have hnone : s.frame? root (v / 2 ^ 12) = none := by
    rw [KState.frame?_page hv, KState.leaf?_of_end hend,
      if_neg fun hvalid => Bool.false_ne_true (hfree.symm.trans hvalid.2)]
    rfl
  have hmapped := (CapabilityData.mark?_eq_some.1 hc).2.1
  refine h.put hlocal hslots (hslots p hp) (.inr hmapped) hput rfl ?_
  rw [KState.frame?_update hv hleaf, hc]
  exact h.ledger.insert hnone hmark

/-- An entry is cleared, and the capability that was marked with it loses its mark. -/
theorem unmap (hend : Radix.End sv48 s.mem 3 root v 0 t) {f : Nat}
    (hmark : s.mark? cfg p = some (v / 2 ^ 12, f)) (hc : c.Plain)
    (hput : PutCap cfg p c (s.setWord (entry t (getVpn v 0)) 0) s') : Books cfg root s' := by
  have hleaf : ∀ {u}, u < 2 ^ 47 → s'.leaf? root u =
      if u / 2 ^ 12 = v / 2 ^ 12 then none else s.leaf? root u := by
    obtain ⟨⟨slots, rfl⟩, -⟩ := hput
    exact fun hu => hspace.leaf?_setWord hv hend 0 hu
  have hslots : ∀ q, s.isSlot q = true → s'.isSlot q = true := by
    obtain ⟨⟨slots, rfl⟩, -⟩ := hput
    exact fun q hq => hq
  refine h.put hlocal hslots (hslots p hp) (.inl hc) hput rfl ?_
  rw [KState.frame?_update hv hleaf, hc.mark?_eq_none]
  exact h.ledger.erase hmark

omit hlocal in
/-- A spare table is linked. -/
theorem link {l y : Nat} (hend : Radix.End sv48 s.mem 3 root v (l + 1) t)
    (hy : SpareTable cfg s root (2 ^ 47) y) (hmark : s.mark? cfg p = none) (hc : c.Plain)
    (hput : PutCap cfg p c (s.setWord (entry t (getVpn v (l + 1))) (Pte.write y pageV)) s') :
    Books cfg root s' := by
  obtain ⟨⟨slots, rfl⟩, hcaps⟩ := hput
  refine h.congr (fun _ hq => hq) (fun hu => hspace.leaf?_link hv hend hy hu) fun q hq => ?_
  rw [hcaps q hq]
  split
  · next heq =>
    refine .inr ⟨heq ▸ hmark, fun d hd => ?_⟩
    obtain rfl := Option.some.inj hd
    exact ⟨heq ▸ hp, hc⟩
  · exact .inl rfl

end Entries

end Books

/-! ## The invariant -/

/-- There is one root, its user half is a tree, and the marks record its entries. -/
structure Accounting (cfg : Config) (root : Nat) (s : KState) : Prop where
  paged : Paged cfg s
  rooted : s.rooted = [root]
  space : UserSpace s root
  books : Books cfg root s

namespace Accounting

/-- Marks are for pages of the user half. -/
theorem lt_of_mark? (h : Accounting cfg root s) {p f : Nat}
    (hmark : s.mark? cfg p = some (v / 2 ^ 12, f)) : v < 2 ^ 47 := by
  have hframe := h.books.ledger.backed hmark
  rw [KState.frame?] at hframe
  split at hframe
  · omega
  · cases hframe

theorem accounted (h : Accounting cfg root s) : Accounted s where
  recorded r hr v hv pte hpte := by
    obtain rfl := List.mem_singleton.1 (h.rooted ▸ hr)
    have hframe : s.frame? r (v / 2 ^ 12) = some (Pte.target pte) := by
      rw [KState.frame?_page hv, hpte]
      rfl
    obtain ⟨p, hp⟩ := h.books.ledger.recorded hframe
    obtain ⟨c, hlocal, hc, hmark⟩ := KState.exists_of_mark? hp
    obtain ⟨hk, hm, hpage, hf⟩ := CapabilityData.mark?_eq_some.1 hmark
    exact ⟨p, c, (h.books.placed hlocal hc).1, hc, ⟨hk, hm, hpage⟩, hf⟩
  backed p c v hp hc hmark := by
    have hlocal := h.paged.1.not_isLocal hp
    have hline := (KState.mark?_of_capAt hlocal hc).trans (CapabilityData.markedAt_iff.1 hmark)
    have hframe := h.books.ledger.backed hline
    rw [KState.frame?_page (h.lt_of_mark? hline)] at hframe
    obtain ⟨pte, hpte, hf⟩ := Option.map_eq_some_iff.1 hframe
    exact ⟨root, h.rooted ▸ List.mem_singleton_self _, pte, hpte, hf⟩

/-- Threads and queues do not matter. -/
theorem of_eq (h : Accounting cfg root s) (hpaged : Paged cfg s') (hmem : s'.mem = s.mem)
    (hobj : s'.objects = s.objects) (hrooted : s'.rooted = s.rooted) (hslots : s'.slots = s.slots) :
    Accounting cfg root s' where
  paged := hpaged
  rooted := hrooted.trans h.rooted
  space := h.space.of_mem (fun _ ho => hobj ▸ ho) fun _ _ _ _ => congrFun hmem _
  books := h.books.congr (fun p hp => by rwa [KState.isSlot, hobj])
    (fun _ => UserSpace.leaf?_of_mem (fun _ _ _ _ => congrFun hmem _) ‹_›)
    fun p _ => .inl (by rw [KState.capAt, hslots, KState.capAt])

/-- A page is written. -/
theorem setPage (h : Accounting cfg root s) {f : Nat} (hf : s.isObject .page f = true)
    {mem : Nat → UInt64} (hmem : ∀ a, a < f ∨ f + 4096 ≤ a → mem a = s.mem a) :
    Accounting cfg root { s with mem := mem } := by
  obtain ⟨o, ho, hk, rfl⟩ := KState.isObject_iff.1 hf
  have hsize := (h.paged.1.frame_bounds ho (.inl hk)).1
  have htables : ∀ {v j t}, v < 2 ^ 47 → Radix.Reach sv48 s.mem 3 root v j t →
      ∀ i < 512, mem (entry t i) = s.mem (entry t i) := fun hv hr i hi => by
    have := h.paged.1.page_apart ho hk (h.space.tables hv hr)
    refine hmem _ ?_
    rw [entry]
    omega
  exact ⟨h.paged.setPage hf hmem, h.rooted, h.space.of_mem (fun _ ho => ho) htables,
    h.books.congr (fun _ hp => hp) (fun hv => UserSpace.leaf?_of_mem htables hv) fun _ _ =>
      .inl rfl⟩

theorem threadStable (root : Nat) : ThreadStable (Accounting cfg root) where
  tcb _ _ _ _ ht _ h := h.of_eq (h.paged.setTcb ht _) rfl rfl rfl rfl
  queues _ _ _ _ h := h.of_eq (h.paged.of_eq rfl rfl rfl rfl) rfl rfl rfl rfl
  request _ _ h := h.of_eq (h.paged.of_eq rfl rfl rfl rfl) rfl rfl rfl rfl
  vspace _ _ h := h.of_eq (h.paged.of_eq rfl rfl rfl rfl) rfl rfl rfl rfl
  switch _ _ h := h.of_eq (h.paged.of_eq rfl rfl rfl rfl) rfl rfl rfl rfl
  copy s dst src hdst h := h.setPage hdst fun a ha => if_neg (by
    rw [ipcBufferWords, messageLen]
    omega)

/-! ### Pages and page tables -/

/-- A table in no address space is empty and outside the tree. -/
theorem spare_of_unlinked (h : Accounting cfg root s) {f : Nat} (hf : s.IsTable f)
    (hun : s.Unlinked f) : SpareTable cfg s root (2 ^ 47) f := by
  obtain ⟨hwf, lvl, hp⟩ := h.paged
  have hempty := hp.empty hf (hp.none_of_unlinked hun)
  refine ⟨⟨(hwf.table_bounds hf).1, fun j k => hempty _ (getVpn_lt ..), fun {u j} hu hr => ?_⟩,
    hwf.liveTable hf, hwf.table_lt hf⟩
  cases hr with
  | root => exact hun.1 (h.rooted ▸ List.mem_singleton_self _)
  | down hr hnext =>
    obtain ⟨o, ho, hk, rfl⟩ := KState.isTable_iff.1 (h.space.tables hu hr)
    obtain ⟨hvalid, htarget⟩ := sv48_next_eq_some.1 hnext
    exact hun.2 o ho hk _ (getVpn_lt ..) hvalid htarget

section Mapping

variable {invLabel : InvLabel} {reg : Registers} {inv : Invocation} {val : Option Nat}
  (h : Accounting cfg root s) (hcond : MapsBelowRoots cfg invLabel reg s inv)
  (hslot : s.isSlot inv.slot = true) (hcap : s.capAt inv.slot = some inv.cap)
  (hobj : ObjectCap s.objects s.rooted inv.cap)

include h hcond

/-- The address of the walk is in the user half, and the walk starts at the root. -/
theorem walk_root {vaddr p : Nat} {r : CapabilityData}
    (hvaddr : walkVaddr? invLabel reg inv.cap = some vaddr)
    (hlookup : lookupCap cfg inv.rootCnode reg.a3.toNat (reg.a4.toNat % 2 ^ 32) .pageTable s =
      .ok (p, r)) : vaddr < 2 ^ 47 ∧ r.getFrame = root := by
  obtain ⟨hv, hroots⟩ := hcond.1 vaddr hvaddr
  have hmem := hroots (p, r) hlookup
  rw [h.rooted] at hmem
  exact ⟨hv, List.mem_singleton.1 hmem⟩

include hslot hcap hobj

theorem invokePage (hk : inv.cap.getCapType = .ok .page)
    (hinvoke : invokePage cfg invLabel reg inv.rootCnode inv.slot inv.cap s = .ok val s') :
    Accounting cfg root s' := by
  have hpaged : Paged cfg s' := hcond.mappingKeeps _ _ _ (.inl rfl) hk hobj h.paged hinvoke
  have hlocal := h.paged.1.not_isLocal hslot
  have hline := KState.mark?_of_capAt hlocal hcap
  obtain ⟨p, r, a, hlookup, -, hcase⟩ := invokePage_cases hinvoke
  rcases hcase with ⟨rfl, hm, hwalk, hfree, rfl⟩ | ⟨rfl, hm, hwalk, -, -, rfl⟩
  · have hvaddr : walkVaddr? .pageMap reg inv.cap = some reg.a5.toNat := by
      simp only [walkVaddr?, hk]
    obtain ⟨hv, hr⟩ := h.walk_root hcond hvaddr hlookup
    rw [hr] at hwalk
    obtain ⟨t, hend, rfl⟩ := (h.space.addressSpace h.paged.1).end_of_walk hv hwalk
    have hvalid := Pte.isValid_write_or inv.cap.getFrame (pageU ||| getUserFlags reg.a6.toNat)
    have hplain : inv.cap.Plain := (h.books.placed hlocal hcap).2.resolve_right fun hmapped =>
      Bool.false_ne_true (hm.symm.trans hmapped)
    have htarget : Pte.target (Pte.write inv.cap.getFrame
        (pageU ||| getUserFlags reg.a6.toNat ||| pageV)) = inv.cap.getFrame :=
      h.paged.1.target_page (hobj.isObject_getFrame h.paged.1 hk (by decide))
        (Nat.or_lt_two_pow (getUserFlags_lt _) (by decide))
    have hmark := hplain.mark?_setMapped hk (hv.trans (by decide))
    rw [← htarget] at hmark
    refine ⟨hpaged, h.rooted, ?_, h.books.map h.space hv hslot hlocal hend hfree hvalid
      (hline.trans hplain.mark?_eq_none) hmark (putCap_setCap (s := s.setWord _ _) hcap _)⟩
    exact (h.space.setLeaf hv hend fun hw => absurd hvalid (by rw [hw]; decide)).of_mem
      (fun _ ho => ho) fun _ _ _ _ => rfl
  · have hvaddr : walkVaddr? .pageUnMap reg inv.cap = some inv.cap.getMappedAddress := by
      simp only [walkVaddr?, hk]
    obtain ⟨hv, hr⟩ := h.walk_root hcond hvaddr hlookup
    rw [hr] at hwalk
    obtain ⟨t, hend, rfl⟩ := (h.space.addressSpace h.paged.1).end_of_walk hv hwalk
    have hmark := hline.trans (CapabilityData.mark?_eq_some.2 ⟨hk, hm, rfl, rfl⟩)
    refine ⟨hpaged, h.rooted, ?_, h.books.unmap h.space hv hslot hlocal hend hmark
      (CapabilityData.plain_of_capDepVal rfl) (putCap_setCap (s := s.setWord _ _) hcap _)⟩
    exact (h.space.setLeaf hv hend fun _ => rfl).of_mem (fun _ ho => ho) fun _ _ _ _ => rfl

theorem invokePageTable (hk : inv.cap.getCapType = .ok .pageTable)
    (hlabel : invLabel ≠ .pageTableMakeRoot)
    (hinvoke : invokePageTable cfg invLabel reg inv.rootCnode inv.slot inv.cap s = .ok val s') :
    Accounting cfg root s' := by
  have hpaged : Paged cfg s' := hcond.mappingKeeps _ _ _ (.inr rfl) hk hobj h.paged hinvoke
  have hlocal := h.paged.1.not_isLocal hslot
  have htable := ObjectCap.getFrame_isTable h.paged.1 hobj hk
  have hnotPage : inv.cap.getCapType ≠ .ok .page := by rw [hk]; decide
  obtain ⟨-, ⟨rfl, p, r, level, a, hlookup, hwalk, hl, -, rfl⟩ | ⟨rfl, -, -⟩⟩ :=
    invokePageTable_ok hinvoke
  · have hvaddr : walkVaddr? .pageTableMap reg inv.cap = some reg.a5.toNat := by
      simp only [walkVaddr?, hk]
    obtain ⟨hv, hr⟩ := h.walk_root hcond hvaddr hlookup
    rw [hr] at hwalk
    obtain ⟨t, hend, rfl⟩ := (h.space.addressSpace h.paged.1).end_of_walk hv hwalk
    obtain ⟨l, rfl⟩ := Nat.exists_eq_succ_of_ne_zero hl
    have hspare := h.spare_of_unlinked htable (hcond.2 hk (.inl rfl))
    have hplain : (inv.cap.setMapped reg.a5.toNat).Plain :=
      CapabilityData.plain_of_not_page hnotPage
    refine ⟨hpaged, h.rooted, ?_, h.books.link h.space hv hslot hend hspare
      ((KState.mark?_of_capAt hlocal hcap).trans (CapabilityData.mark?_of_not_page hnotPage))
      hplain (putCap_setCap (s := s.setWord _ _) hcap _)⟩
    exact (h.space.link hv hend hspare htable).of_mem (fun _ ho => ho) fun _ _ _ _ => rfl
  · exact absurd rfl hlabel

end Mapping

/-! ### CNodes and untyped memory -/

end Accounting

/-- Only pages that are mapped can be copied and moved. -/
theorem isMapped_of_derive {c c' : CapabilityData} (hk : c.getCapType = .ok .page)
    (h : c.derive = .ok c') : c.isMapped = true := by
  unfold CapabilityData.derive at h
  obtain ⟨k, hk', h⟩ := except_bind_ok.1 h
  obtain rfl : CapabilityType.page = k := Except.ok.inj (hk.symm.trans hk')
  obtain ⟨_, hm, -⟩ := except_bind_ok.1 h
  exact require_ok.1 hm

/-- What a CNode invocation makes of a page capability has no mark. -/
theorem plain_newCap {c rawCap : CapabilityData} {invLabel : InvLabel} {reg : Registers}
    (hd : c.derive = .ok rawCap) (hmint : c.getCapType = .ok .page → invLabel = .cNodeMint →
      reg.a6.toNat % 2 ^ 49 = 0) : (newCap invLabel reg rawCap).Plain := by
  by_cases hk : c.getCapType = .ok .page
  · obtain rfl := Client.derive_page hk hd
    unfold newCap
    split
    · next hl => exact CapabilityData.plain_of_capDepVal (hmint hk hl)
    · exact CapabilityData.plain_of_capDepVal rfl
  · obtain ⟨v, rfl⟩ := derive_eq hd
    refine CapabilityData.plain_of_not_page fun hnew => hk ?_
    unfold newCap at hnew
    split at hnew <;> exact hnew

namespace Accounting

theorem invokeCNode (h : Accounting cfg root s) {invLabel : InvLabel} {reg : Registers}
    {rootCnode destRoot : CapabilityData} {val : Option Nat}
    (hcond : ∀ slot,
      rootCnode.lookupEntryMut cfg reg.a3.toNat (reg.a4.toNat >>> 32) s = .ok slot →
      ∀ c ∈ s.capAt slot, c.getCapType = .ok .page →
      invLabel ≠ .cNodeMove ∧ (invLabel = .cNodeMint → reg.a6.toNat % 2 ^ 49 = 0))
    (hinvoke : invokeCNode cfg invLabel reg rootCnode destRoot s = .ok val s') :
    Accounting cfg root s' := by
  obtain ⟨src, c, dest, rawCap, hsrc, hslot, hc, hdest, hnone, hd, ⟨slots, rfl⟩, hcaps⟩ :=
    invokeCNode_capAt h.paged.1 hinvoke
  refine ⟨h.paged.of_eq rfl rfl rfl rfl, h.rooted,
    h.space.of_mem (fun _ ho => ho) fun _ _ _ _ => rfl,
    h.books.congr (fun _ hp => hp) (fun _ => rfl) fun q hq => ?_⟩
  rw [hcaps q hq]
  split
  · next heq =>
    refine .inr ⟨KState.mark?_of_none (heq ▸ hnone), fun d hd' => ?_⟩
    obtain rfl := Option.some.inj hd'
    exact ⟨heq ▸ hdest, plain_newCap hd fun hk => (hcond src hsrc c hc hk).2⟩
  · split
    · next hmove =>
      -- what is moved is no page
      have hk : c.getCapType ≠ .ok .page := fun hk => (hcond src hsrc c hc hk).1 hmove.1
      have hmark := KState.mark?_of_capAt (h.paged.1.not_isLocal hslot) hc
      exact .inr ⟨hmove.2 ▸ hmark.trans (CapabilityData.mark?_of_not_page hk), nofun⟩
    · exact .inl rfl

theorem retypeStable (root : Nat) : RetypeStable cfg (Accounting cfg root) where
  untyped s p c c' hp hk hk' h := by
    have hnot : ∀ {d : CapabilityData}, d.getCapType = .ok .untyped → d.getCapType ≠ .ok .page :=
      fun hd => by rw [hd]; decide
    have hput : PutCap cfg p c' s (s.setCap p c') := putCap_setCap hp c'
    refine ⟨h.paged.of_eq rfl rfl rfl rfl, h.rooted,
      h.space.of_mem (fun _ ho => ho) fun _ _ _ _ => rfl,
      h.books.congr (fun _ hq => hq) (fun _ => rfl) fun q hq => ?_⟩
    rw [hput.2 q hq]
    split
    · next heq =>
      subst heq
      have hmark := (KState.mark?_of_capAt hq hp).trans (CapabilityData.mark?_of_not_page (hnot hk))
      refine .inr ⟨hmark, fun d hd => ?_⟩
      obtain rfl := Option.some.inj hd
      exact ⟨(h.books.placed hq hp).1, CapabilityData.plain_of_not_page (hnot hk')⟩
    · exact .inl rfl
  place s s' o c q ho hc hdep hslot hnone hput h := by
    have hplain : c.Plain := fun hk => by
      have hpage : o.kind = .page := Except.ok.inj (hc.capType.symm.trans hk)
      exact CapabilityData.plain_of_capDepVal (by rw [hdep (.inl hpage)]; rfl) hk
    have htables : ∀ {v j t}, v < 2 ^ 47 → Radix.Reach sv48 s.mem 3 root v j t →
        ∀ i < 512, (s.born o).mem (entry t i) = s.mem (entry t i) :=
      fun hv hr i hi => h.paged.1.pte_born ho (h.space.tables hv hr) hi
    obtain ⟨⟨slots, rfl⟩, hcaps⟩ := hput
    refine ⟨(h.paged.born ho).of_eq rfl rfl rfl rfl, (rooted_born s o).trans h.rooted,
      h.space.of_mem (fun o' ho' => objects_born s o ▸ List.mem_cons_of_mem _ ho') htables,
      h.books.fill (fun p hp => isSlot_born o hp) (fun hv => UserSpace.leaf?_of_mem htables hv)
        (isSlot_born o hslot) hnone hplain fun p hp => ?_⟩
    rw [hcaps p hp, capAt_born]
  renew s s' o c q ho hcell hc hslot hnone hput h := by
    have hplain : c.Plain := CapabilityData.plain_of_not_page fun hk => by
      have hpage : o.kind = .page := Except.ok.inj (hc.capType.symm.trans hk)
      simp [Object.hasCell, hpage] at hcell
    have hpaged := paged_renews s o ho hcell h.paged
    have hcap := capAt_renewed s o
    obtain ⟨tcbs, eps, ntfns, heq⟩ := renewed_cells s o
    rw [heq] at hput hpaged hcap
    obtain ⟨⟨slots, rfl⟩, hcaps⟩ := hput
    refine ⟨hpaged.of_eq rfl rfl rfl rfl, h.rooted,
      h.space.of_mem (fun _ ho' => ho') fun _ _ _ _ => rfl,
      h.books.fill (fun _ hp => hp) (fun _ => rfl) hslot hnone hplain fun p hp => ?_⟩
    rw [hcaps p hp, hcap p]

end Accounting

/-! ## Boot -/

/-- Every capability is in a slot of a CNode, and none is for a page. -/
def NoPages (cfg : Config) (s : KState) : Prop :=
  ∀ p c, cfg.isLocal p = false → s.capAt p = some c →
    s.isSlot p = true ∧ c.getCapType ≠ .ok .page

/-- The address space of the root server while it is made, and its books. -/
structure BootBooks (cfg : Config) (root : Nat) (s : KState) : Prop where
  space : RootSpace cfg root s
  books : Books cfg root s

namespace BootBooks

theorem accounting (h : BootBooks cfg root s) : Accounting cfg root s :=
  ⟨h.space.paged, h.space.rooted, h.space.space, h.books⟩

theorem setPage (h : BootBooks cfg root s) {f : Nat} (hf : s.isObject .page f = true)
    {mem : Nat → UInt64} (hmem : ∀ a, a < f ∨ f + 4096 ≤ a → mem a = s.mem a) :
    BootBooks cfg root { s with mem := mem } :=
  ⟨h.space.setPage hf hmem, (h.accounting.setPage hf hmem).books⟩

theorem spaceRule (root : Nat) : SpaceRule cfg root (· < 2 ^ 47) (BootBooks cfg root) where
  create s o ho hk h := by
    refine ⟨(RootSpace.spaceRule root).create s o ho hk h.space,
      h.books.congr (fun p hp => isSlot_cons o hp) (fun _ => rfl) fun _ _ => .inl rfl⟩
  link s o p cap vaddr level a ho hk hcap hv hl hp hnone hwalk h := by
    refine ⟨(RootSpace.spaceRule root).link s o p cap vaddr level a ho hk hcap hv hl hp hnone hwalk
      h.space, ?_⟩
    have hc := Creates.withCap ho (.inr hk) p cap
    have hspace := h.space.space.create h.space.paged.1 hc
    have hspare := (h.space.space.spare h.space.paged.1 h.space.zero hc hk).1
    obtain ⟨t, hend, rfl⟩ := (hspace.addressSpace (hc.wf h.space.paged.1)).end_of_walk hv hwalk
    obtain ⟨l, rfl⟩ := Nat.exists_eq_succ_of_ne_zero hl
    have hplain : cap.Plain := CapabilityData.plain_of_not_page (by rw [hcap.capType, hk]; decide)
    exact h.books.fill (fun q hq => isSlot_cons o hq)
      (fun hu => hspace.leaf?_link hv hend hspare hu) hp (congrArg (Option.map _) hnone) hplain
      fun q _ => KState.capAt_setSlot ..
  page s o c p vaddr flags a hnew hv hflags hwalk hfree hp hnone h := by
    refine ⟨(RootSpace.spaceRule root).page s o c p vaddr flags a hnew hv hflags hwalk hfree
      hp hnone h.space, ?_⟩
    obtain ⟨t, hend, rfl⟩ := (h.space.space.addressSpace h.space.paged.1).end_of_walk hv hwalk
    have hk : c.getCapType = .ok .page := hnew.kind ▸ hnew.fresh.capType
    have hlive : s.isObject .page c.getFrame = true := by
      rw [hnew.fresh.getFrame hnew.admissible]
      exact KState.isObject_iff.2 ⟨o, hnew.live, hnew.kind, rfl⟩
    have htarget : Pte.target (Pte.write c.getFrame (flags ||| pageV)) = c.getFrame :=
      h.space.paged.1.target_page hlive (Nat.or_lt_two_pow hflags (by decide))
    have hplain : c.Plain := CapabilityData.plain_of_capDepVal (by rw [hnew.unmapped]; rfl)
    have hmark := hplain.mark?_setMapped hk (hv.trans (by decide))
    rw [← htarget] at hmark
    exact h.books.map h.space.space hv hp (h.space.paged.1.not_isLocal hp) hend hfree
      (Pte.isValid_write_or ..) (KState.mark?_of_none (congrArg (Option.map _) hnone)) hmark
      (putCap_setSlot p _)
  fill s f src n hn hf h := h.setPage hf fun a ha => if_neg (by rw [pageSize] at hn; omega)

theorem firstCNode : FirstCNode cfg (.afterVmInit cfg) fun s =>
    ((Paged cfg s ∧ FreeZero cfg s) ∧ s.rooted = []) ∧ NoPages cfg s := by
  intro o c p hk ho hc hp hnone
  refine ⟨⟨freeZero_capStable.firstCNode .trivial paged_afterVmInit o c p hk ho hc hp hnone, rfl⟩,
    fun q d _ hd => ?_⟩
  rw [KState.capAt_setSlot] at hd
  split at hd
  · next heq =>
    obtain rfl := Option.some.inj hd
    have hnot : c.getCapType ≠ .ok .page := by rw [hc.capType, hk]; decide
    exact ⟨heq ▸ hp, hnot⟩
  · cases hd

/-- The first root has no pages. -/
theorem firstRoot : FirstRoot cfg
    (fun s => ((Paged cfg s ∧ FreeZero cfg s) ∧ s.rooted = []) ∧ NoPages cfg s)
    (BootBooks cfg) := by
  intro s o c p ho hk hc hp hnone ⟨hs, hpages⟩
  obtain ⟨hwf, lvl, hpaging⟩ := hs.1.1.born ho
  have htable : (s.born o).IsTable o.addr :=
    KState.isTable_iff.2 ⟨o, objects_born s o ▸ List.mem_cons_self .., hk, rfl⟩
  have hload := Loaded.of_madeRoot hwf (hs.1.2.born o) htable fun i hi => hpaging.root_lower hi
  refine ⟨RootSpace.firstRoot s o c p ho hk hc hp hnone hs,
    .empty (fun hv => Option.map_eq_none_iff.1 (hload.image _ hv)) fun q d hq hd => ?_⟩
  rw [KState.capAt_setSlot] at hd
  split at hd
  · next heq =>
    obtain rfl := Option.some.inj hd
    have hnot : c.getCapType ≠ .ok .page := by rw [hc.capType, hk]; decide
    exact ⟨heq ▸ hp, CapabilityData.plain_of_not_page hnot⟩
  · obtain ⟨hslot, hnot⟩ := hpages q d hq ((capAt_born s o q).symm.trans hd)
    exact ⟨isSlot_born o hslot, CapabilityData.plain_of_not_page hnot⟩

/-- Links, local variables, threads and queues do not matter. -/
theorem of_eq (h : BootBooks cfg root s) (hpaged : Paged cfg s') (hmem : s'.mem = s.mem)
    (hobj : s'.objects = s.objects) (hrooted : s'.rooted = s.rooted)
    (hcaps : ∀ q, cfg.isLocal q = false → s'.capAt q = s.capAt q) : BootBooks cfg root s' :=
  ⟨h.space.of_eq hpaged hmem hobj hrooted,
    h.books.congr (fun p hp => by rwa [KState.isSlot, hobj])
      (fun hv => UserSpace.leaf?_of_mem (fun _ _ _ _ => congrFun hmem _) hv)
      fun q hq => .inl (hcaps q hq)⟩

theorem placeRule {P : CapProp} : PlaceRule cfg P fun s => ∃ root, BootBooks cfg root s where
  insert _ _ := keeps_insertAfter (fun _ _ _ ⟨root, h⟩ =>
    ⟨root, h.of_eq (h.space.paged.of_eq rfl rfl rfl rfl) rfl rfl rfl fun _ _ =>
      KState.capAt_relink ..⟩) ..
  newLocal _ site _ _ := fun ⟨root, h⟩ =>
    ⟨root, h.of_eq (h.space.paged.of_eq rfl rfl rfl rfl) rfl rfl rfl fun _ hq =>
      (KState.capAt_setSlot ..).trans (if_neg (ne_localAddr hq site))⟩
  place _ _ _ _ hk hp hnone := fun ⟨root, h⟩ =>
    ⟨root, h.space.of_eq (h.space.paged.of_eq rfl rfl rfl rfl) rfl rfl rfl,
      h.books.fill (fun _ hq => hq) (fun _ => rfl) hp (congrArg (Option.map _) hnone)
        (CapabilityData.plain_of_not_page hk) fun _ _ => KState.capAt_setSlot ..⟩
  born s o ho _ := fun ⟨root, h⟩ =>
    ⟨root, h.space.born ho, h.books.congr (fun _ hp => isSlot_born o hp)
      (fun hv => UserSpace.leaf?_of_mem (fun hv hr _ hi =>
        h.space.paged.1.pte_born ho (h.space.space.tables hv hr) hi) hv)
      fun q _ => .inl (capAt_born s o q)⟩
  regs _ _ _ _ _ ht _ := fun ⟨root, h⟩ =>
    ⟨root, h.of_eq (h.space.paged.setTcb ht _) rfl rfl rfl fun _ _ => rfl⟩
  refill _ _ _ _ _ ht := fun ⟨root, h⟩ =>
    ⟨root, h.of_eq (h.space.paged.setTcb ht _) rfl rfl rfl fun _ _ => rfl⟩

/-- **After boot** the marks record the pages of the root server. -/
theorem of_boot {image : Image} (himage : image.InUserHalf) (h : Boot cfg image s) :
    ∃ root, Accounting cfg root s := by
  obtain ⟨thread, s₃, s₄, -, ⟨root, hs₃⟩, hres, hsched⟩ :=
    SpaceRule.boot (P := fun _ _ _ => True) spaceRule placeRule .trivial firstCNode firstRoot
      (fun root s s' u hs _ hidle => by
        obtain ⟨t, ht, rfl⟩ := createIdleThread_ok.1 hidle
        exact ⟨root, hs.of_eq ((hs.space.paged.setTcb ht _).of_eq rfl rfl rfl rfl) rfl rfl rfl
          fun _ _ => rfl⟩)
      (fun s f info hf ⟨root, hs⟩ =>
        ⟨root, hs.setPage hf fun a ha => if_neg (by rw [pageSize]; omega)⟩)
      himage.within h
  have hT : ThreadStable (Accounting cfg root) := Accounting.threadStable root
  exact ⟨root, hT.start hs₃.accounting hres hsched⟩

end BootBooks

/-! ## Runs -/

/-- What is left to the callers holds. The invocations are on untyped memory, CNodes, pages and page
tables, and make no root. A page capability is not moved, and it is minted with a value that has
neither a mark nor an address. -/
def KeepsMarks (cfg : Config) : InvokeCond := fun invLabel reg u inv =>
  GuardedFits cfg invLabel reg u inv ∧
  (∀ k, inv.cap.getCapType = .ok k → k = .untyped ∨ k = .cNode ∨ k = .page ∨
    k = .pageTable ∧ invLabel ≠ .pageTableMakeRoot) ∧
  (inv.cap.getCapType = .ok .cNode → ∀ slot,
    inv.rootCnode.lookupEntryMut cfg reg.a3.toNat (reg.a4.toNat >>> 32) u = .ok slot →
    ∀ c ∈ u.capAt slot, c.getCapType = .ok .page →
    invLabel ≠ .cNodeMove ∧ (invLabel = .cNodeMint → reg.a6.toNat % 2 ^ 49 = 0))

namespace Accounting

theorem invoke {invLabel : InvLabel} {reg : Registers} {inv : Invocation} {k : CapabilityType}
    {val : Option Nat} (h : Accounting cfg root s) (hcaps : CapsAll ObjectCap s)
    (hcond : KeepsMarks cfg invLabel reg s inv) (hslot : s.isSlot inv.slot = true)
    (hcap : s.capAt inv.slot = some inv.cap) (hk : inv.cap.getCapType = .ok k)
    (hinvoke : invoke cfg invLabel reg inv k s = .ok val s') : Accounting cfg root s' := by
  obtain ⟨hfits, hkind, hpages⟩ := hcond
  have hmaps := hfits.mapsBelowRoots
  have hobj : ObjectCap s.objects s.rooted inv.cap := hcaps _ (.inl ⟨_, hcap⟩)
  rcases hkind k hk with rfl | rfl | rfl | ⟨rfl, hlabel⟩
  · exact (retypeStable root).invokeUntyped h.paged.1 h hinvoke
  · exact h.invokeCNode (hpages hk) hinvoke
  · exact h.invokePage hmaps hslot hcap hobj hk hinvoke
  · exact h.invokePageTable hmaps hslot hcap hobj hk hlabel hinvoke

/-- **One event.** -/
theorem step {ev : Event} (h : Accounting cfg root s) (hcaps : CapsAll ObjectCap s)
    (hcond : ev.Meets cfg (KeepsMarks cfg) s) (hstep : Step cfg s ev s') :
    Accounting cfg root s' := by
  cases ev with
  | store a w =>
    obtain ⟨⟨-, o, ho, hk, hle, hlt⟩, hexec⟩ := hstep
    obtain rfl := modify_ok.1 hexec
    have hpage : s.isObject .page o.addr = true := KState.isObject_iff.2 ⟨o, ho, hk, rfl⟩
    have hsize := (h.paged.1.frame_bounds ho (.inl hk)).1
    exact h.setPage hpage fun b hb => Function.update_of_ne (by omega) ..
  | trap regs =>
    obtain ⟨t, u, v, ht, -, hu, hsched, hcase⟩ := step_trap hstep
    have hT : ThreadStable (Accounting cfg root) := threadStable root
    have hsu : Accounting cfg root u := hu ▸ h.of_eq (h.paged.setTcb ht _) rfl rfl rfl rfl
    have hcapsu : CapsAll ObjectCap u := hu ▸ hcaps.setRegisters ht regs
    refine hT.schedule.ok ?_ hsched
    rcases hcase with htimer | ⟨-, ret, w, hret, hw⟩
    · exact hT.timerTick.ok hsu htimer
    · refine (hT.steady.returnSyscall _ _).ok ?_ hret
      rcases hw with rfl | ⟨invLabel, inv, k, val, -, hinv, hk, hinvoke⟩
      · exact hsu
      · obtain ⟨-, -, -, -, hslot, hcap⟩ := findInvocation_ok hinv.found
        exact hsu.invoke hcapsu (hcond _ _ _ _ hinv) hslot hcap hk hinvoke

end Accounting

instance (invLabel : InvLabel) (reg : Registers) (u : KState) (inv : Invocation) :
    Decidable (KeepsMarks cfg invLabel reg u inv) := by
  unfold KeepsMarks
  infer_instance

/-- **Every mapping is accounted for**, in every run from boot that meets what is left to the
callers and in which page capabilities are neither moved nor minted with a mark. -/
theorem accounted_of_run {image : Image} {s₀ : KState} (himage : image.InUserHalf)
    (hboot : Boot cfg image s₀) (hrun : Run cfg (KeepsMarks cfg) s₀ s) : Accounted s := by
  obtain ⟨root, hs₀⟩ := BootBooks.of_boot himage hboot
  have hinv : Accounting cfg root s ∧ CapsAll ObjectCap s :=
    run_invariant (P := fun s => Accounting cfg root s ∧ CapsAll ObjectCap s) hrun
      ⟨hs₀, CapsAll.boot objectCap_capRule hboot⟩
      fun _ _ ⟨hu, hcaps⟩ ⟨_, hcond, hstep⟩ => ⟨hu.step hcaps hcond hstep,
        hcaps.step objectCap_capRule (fun _ _ _ _ _ => mintKeeps_objectCap) hstep⟩
  exact hinv.1.accounted

/-- `CNodeCopy`, `CNodeMint` and `CNodeMove` from slot 4, which has the page of the IPC buffer, into
slot 30. -/
def fromIpcRegs (label capDepVal : UInt64) : Registers :=
  { ecallRegs 2 18 label with a3 := 4, a4 := 77309411346, a5 := 30, a6 := capDepVal }

/-- The root server copies the capability of its IPC buffer and unmaps the page. -/
theorem accounted_after_unmap : ∃ s₀ s, demoImage.InUserHalf ∧ Boot .virt demoImage s₀ ∧
    Run .virt (KeepsMarks .virt) s₀ s ∧ s.leaf? s.satp 0x1000 = none ∧ Accounted s := by
  obtain ⟨s₀, s, hboot, hrun, htest⟩ := exists_run_of_trace .virt (KeepsMarks .virt) demoImage
    [.trap (fromIpcRegs 9 0), .trap (unmapRegs 4 3)] (fun s => s.leaf? s.satp 0x1000 = none)
    (by decide +kernel)
  exact ⟨s₀, s, demoImage_inUserHalf, hboot, hrun, of_decide_eq_true htest,
    accounted_of_run demoImage_inUserHalf hboot hrun⟩

/-- Slot 30 has a page capability that is marked as mapped at `v`, where no root has a page. -/
def forged (s : KState) (v : Nat) : Bool :=
  s.isSlot slot30 && (s.capAt slot30).any fun c => c.getCapType = .ok .page && c.isMapped &&
    c.getMappedAddress = v && s.rooted.all fun root => s.leaf? root v = none

/-- The root server mints the capability of its IPC buffer with a mark for another page. -/
theorem not_accounted_of_mint : ∃ s₀ s, demoImage.InUserHalf ∧ Boot .virt demoImage s₀ ∧
    Run .virt (fun invLabel _ _ inv => invLabel = .cNodeMint ∧ inv.cap.getCapType = .ok .cNode)
      s₀ s ∧ ¬Accounted s := by
  obtain ⟨s₀, s, hboot, hrun, htest⟩ := exists_run_of_trace .virt
    (fun invLabel _ _ inv => invLabel = .cNodeMint ∧ inv.cap.getCapType = .ok .cNode) demoImage
    [.trap (fromIpcRegs 10 (2 ^ 48 + 0x5000))] (forged · 0x5000) (by decide +kernel)
  refine ⟨s₀, s, demoImage_inUserHalf, hboot, hrun, fun hs => ?_⟩
  obtain ⟨hslot, hcap⟩ := Bool.and_eq_true_iff.1 htest
  obtain ⟨c, hc, hcap⟩ := (Option.any_eq_true ..).1 hcap
  simp only [Bool.and_eq_true, decide_eq_true_eq, List.all_eq_true] at hcap
  obtain ⟨⟨⟨hk, hm⟩, haddr⟩, hroots⟩ := hcap
  obtain ⟨root, hroot, pte, hpte, -⟩ := hs.backed slot30 c 0x5000 hslot hc ⟨hk, hm, by rw [haddr]⟩
  cases (hroots root hroot).symm.trans hpte

/-- **`CNodeMove` of a page** breaks it: the capability loses its mark, and the page stays
mapped. -/
theorem not_accounted_of_move (h : Accounting cfg root s) {reg : Registers}
    {rootCnode destRoot c : CapabilityData} {val : Option Nat} {slot : Nat}
    (hslot : rootCnode.lookupEntryMut cfg reg.a3.toNat (reg.a4.toNat >>> 32) s = .ok slot)
    (hc : s.capAt slot = some c) (hk : c.getCapType = .ok .page)
    (hinvoke : invokeCNode cfg .cNodeMove reg rootCnode destRoot s = .ok val s') :
    ¬Accounted s' := by
  intro hs'
  obtain ⟨src, c', dest, rawCap, hsrc, hslot', hc', -, -, hd, ⟨slots, rfl⟩, hcaps⟩ :=
    invokeCNode_capAt h.paged.1 hinvoke
  obtain rfl : slot = src := Except.ok.inj (hslot.symm.trans hsrc)
  obtain rfl : c = c' := Option.some.inj (hc.symm.trans hc')
  have hmark := (KState.mark?_of_capAt (h.paged.1.not_isLocal hslot') hc).trans
    (CapabilityData.mark?_eq_some.2 ⟨hk, isMapped_of_derive hk hd, rfl, rfl⟩)
  -- the page is mapped before, so it is mapped after
  obtain ⟨r, hr, pte, hpte, hframe⟩ := h.accounted.backed slot c c.getMappedAddress hslot' hc
    ⟨hk, isMapped_of_derive hk hd, rfl⟩
  have hv : c.getMappedAddress < 2 ^ 47 := h.lt_of_mark? hmark
  obtain ⟨p, d, hp, hdp, hmarked, hdf⟩ := hs'.recorded r hr c.getMappedAddress hv pte hpte
  have hlocal := h.paged.1.not_isLocal hp
  rw [hcaps p hlocal] at hdp
  split at hdp
  · obtain rfl := Option.some.inj hdp
    have hplain : (newCap .cNodeMove reg rawCap).Plain := plain_newCap hd fun _ hl => nomatch hl
    obtain ⟨hk', hm', -⟩ := hmarked
    exact Bool.false_ne_true ((hplain hk').1.symm.trans hm')
  · split at hdp
    · cases hdp
    · next hne =>
      have hline := (KState.mark?_of_capAt hlocal hdp).trans
        (CapabilityData.markedAt_iff.1 hmarked)
      rw [hdf, hframe] at hline
      exact hne ⟨rfl, h.books.ledger.once hline hmark⟩

end Zoeax
