import Zoeax.Verify.Heap

/-!
# Where the capabilities are

What the invocations on CNodes and on untyped memory do to the slots, local variables apart. A CNode
invocation fills an empty slot with a capability that is derived from the source
(`invokeCNode_capAt`). `UntypedRetype` changes the untyped capability and then fills one empty slot
after the other with the capability of a new object (`RetypeStable`).
-/

namespace Zoeax

open Lib Exec
open CapabilityType (entrySize)

variable {cfg : Config} {s s' : KState}

/-! ## Slots and local variables -/

theorem isLocal_localAddr (cfg : Config) (site : Site) :
    cfg.isLocal (cfg.localAddr site) = true := by
  refine List.any_eq_true.2 ⟨site, ?_, decide_eq_true rfl⟩
  cases site with
  | insertCap k => cases k <;> decide
  | _ => decide

theorem ne_localAddr {p : Nat} (hp : cfg.isLocal p = false) (site : Site) :
    p ≠ cfg.localAddr site := by
  rintro rfl
  rw [isLocal_localAddr] at hp
  cases hp

/-- A slot of a CNode is not a local variable. -/
theorem HeapWF.not_isLocal (hs : HeapWF cfg s) {p : Nat} (hp : s.isSlot p = true) :
    cfg.isLocal p = false := by
  by_contra h
  obtain ⟨site, -, hsite⟩ := List.any_eq_true.1 (Bool.not_eq_false _ ▸ h)
  obtain rfl := of_decide_eq_true hsite
  have hlt := (hs.isSlot_bounds hp).2
  have hle := cfg.localAddr_apart site
  omega

/-- `s'` is `s` with the capability `c` in the slot `q`, and other links and local variables. -/
def PutCap (cfg : Config) (q : Nat) (c : CapabilityData) (s s' : KState) : Prop :=
  (∃ slots, s' = { s with slots := slots }) ∧
    ∀ r, cfg.isLocal r = false → s'.capAt r = if r = q then some c else s.capAt r

/-- The capability in an occupied slot is changed. -/
theorem KState.capAt_setCap {q : Nat} {c d : CapabilityData} (hq : s.capAt q = some c) (p : Nat) :
    (s.setCap q d).capAt p = if p = q then some d else s.capAt p := by
  rw [setCap, capAt_setSlot]
  obtain ⟨e, he, -⟩ := Option.map_eq_some_iff.1 hq
  rw [he]
  rfl

/-! ## CNode invocations -/

/-- **`CNodeCopy`, `CNodeMint` and `CNodeMove`**: an empty slot gets the new capability, and
`CNodeMove` empties the source. -/
theorem invokeCNode_capAt {invLabel : InvLabel} {reg : Registers}
    {rootCnode destRoot : CapabilityData} {v : Option Nat} (hwf : HeapWF cfg s)
    (h : invokeCNode cfg invLabel reg rootCnode destRoot s = .ok v s') :
    ∃ src c dest rawCap,
      rootCnode.lookupEntryMut cfg reg.a3.toNat (reg.a4.toNat >>> 32) s = .ok src ∧
      s.isSlot src = true ∧ s.capAt src = some c ∧ s.isSlot dest = true ∧ s.capAt dest = none ∧
      c.derive = .ok rawCap ∧ (∃ slots, s' = { s with slots := slots }) ∧
      ∀ q, cfg.isLocal q = false → s'.capAt q =
        if q = dest then some (newCap invLabel reg rawCap)
        else if invLabel = .cNodeMove ∧ q = src then none else s.capAt q := by
  obtain ⟨src, e, dest, rawCap, hsrc, hslot, he, -, hdest, hnone, hd, hinstall⟩ := invokeCNode_ok h
  obtain ⟨hslots, hcap⟩ :=
    installEntry_capAt (ne_localAddr (hwf.not_isLocal hslot) .invocation) hinstall
  exact ⟨src, e.cap, dest, rawCap, hsrc, hslot, congrArg (Option.map _) he, hdest,
    congrArg (Option.map _) hnone, hd, hslots, fun q hq => hcap q (ne_localAddr hq .invocation)⟩

/-! ## `UntypedRetype` -/

theorem insertCap_putCap {k : CapabilityType} {window parent i : Nat} {cap : CapabilityData}
    {u : Unit} (h : insertCap cfg k window parent cap i s = .ok u s') :
    PutCap cfg (window + entrySize * i) cap s s' := by
  simp only [insertCap, newLocal, moveEntry, bind_ok, modify_ok, pure_ok] at h
  obtain ⟨_, _, ⟨_, _, rfl, rfl, rfl⟩, _, s₂, hins, rfl⟩ := h
  obtain ⟨⟨slots, rfl⟩, hcap⟩ :=
    (keeps_insertAfter (I := SameCaps _) (fun _ p f hv => hv.relink p f) _ _).ok .rfl hins
  refine ⟨⟨_, rfl⟩, fun r hr => ?_⟩
  have hlocal := hcap (cfg.localAddr (.insertCap k))
  rw [KState.capAt_setSlot, if_pos rfl] at hlocal
  rw [KState.capAt_setSlot]
  split
  · exact hlocal
  · rw [hcap r, KState.capAt_setSlot, if_neg (ne_localAddr hr _)]

theorem allEmpty_ok {n p : Nat} (h : allEmpty n p s = .ok true) :
    ∀ i < n, s.isSlot (p + entrySize * i) = true ∧ s.slots (p + entrySize * i) = none := by
  induction n generalizing p with
  | zero => exact fun i hi => absurd hi (Nat.not_lt_zero i)
  | succ n ih =>
    simp only [allEmpty, Query.bind_ok, readSlot_ok] at h
    obtain ⟨e, ⟨hslot, rfl⟩, h⟩ := h
    cases he : s.slots p with
    | some e =>
      rw [he] at h
      cases Query.pure_ok.1 h
    | none =>
      rw [he] at h
      rintro (_ | i) hi
      · exact ⟨hslot, he⟩
      · have := ih h i (by omega)
        rwa [show p + entrySize + entrySize * i = p + entrySize * (i + 1) by ring] at this

/-- The window starts at the slot that was asked for. -/
theorem getWritable_eq {c : CapabilityData} {num index window : Nat}
    (h : c.getWritable cfg num index s = .ok window) :
    window = toKernelV c.getAddress + entrySize * index := by
  simp only [CapabilityData.getWritable, Query.bind_ok, Query.lift_ok, Query.pure_ok,
    require_ok] at h
  obtain ⟨_, -, _, -, _, -, _, -, _, -, _, -, rfl⟩ := h
  rfl

/-- The window that a retype gets is a row of empty slots. -/
theorem getWritable_ok {c : CapabilityData} {num index window : Nat}
    (h : c.getWritable cfg num index s = .ok window) :
    ∀ i < num, s.isSlot (window + entrySize * i) = true ∧
      s.slots (window + entrySize * i) = none := by
  simp only [CapabilityData.getWritable, Query.bind_ok, Query.lift_ok, Query.pure_ok,
    require_ok] at h
  obtain ⟨_, -, _, -, _, -, empty, hempty, _, hall, _, -, rfl⟩ := h
  exact allEmpty_ok (hall ▸ hempty)

/-- The capability of a new page or page table is not mapped. -/
theorem next_capDepVal {g g' : CapGenerator} {cap : CapabilityData}
    (h : g.next cfg = .ok (cap, g')) (hk : g.k = .page ∨ g.k = .pageTable) : cap.capDepVal = 0 := by
  simp only [CapGenerator.next, except_bind_ok, except_pure_ok, Prod.mk.injEq] at h
  obtain ⟨v, hv, a, -, rfl, rfl⟩ := h
  rcases hk with hk | hk <;> rw [hk] at hv <;> obtain rfl : 0 = v := Except.ok.inj hv <;>
    exact CapabilityData.capDepVal_new ..

/-- A request for one frame: the untyped capability changes, and the object comes to life with its
capability in the first slot of the window. -/
theorem retypeAndInsert_one {slot window userSize : Nat} {k : CapabilityType} {u : Unit}
    (hk : k = .page ∨ k = .pageTable) (hu : userSize < 2 ^ 32)
    (h : retypeAndInsert cfg slot window userSize 1 k s = .ok u s') :
    ∃ src c o cap, s.capAt slot = some src ∧ src.getCapType = .ok .untyped ∧
      c.getCapType = .ok .untyped ∧ o.kind = k ∧ o.Fresh cfg s ∧ cap.FreshFor o ∧
      cap.capDepVal = 0 ∧ PutCap cfg window cap ((s.setCap slot c).born o) s' := by
  simp only [retypeAndInsert, bind_ok, lift_ok, liftExcept_ok, deref_ok, writeCap, modify_ok,
    CapabilityData.tryRefAs_ok] at h
  obtain ⟨src, _, ⟨hsrc, rfl⟩, _, _, ⟨huntyped, rfl⟩, ⟨c, gen⟩, _, ⟨hret, rfl⟩, _, _, rfl, hins⟩ :=
    h
  obtain ⟨hc, hgen, hnum⟩ := invokeRetype_frame hret
  obtain rfl := invokeRetype_kind hret
  dsimp only at hins
  rw [hnum] at hins
  simp only [insertCaps, bind_ok, liftExcept_ok, pure_ok] at hins
  obtain ⟨⟨cap, g'⟩, _, ⟨hnext, rfl⟩, _, s₁, hnew, -, rfl⟩ := hins
  obtain ⟨_, ⟨size, rfl⟩, -, ⟨hfresh, hput⟩ | ⟨⟨hcell, -⟩, -⟩⟩ := insertNew_ok hnew
  · obtain ⟨-, hcap⟩ := next_fresh hnext (hgen ▸ hu) size
    have hput := insertCap_putCap hput
    rw [Nat.mul_zero, Nat.add_zero] at hput
    exact ⟨src.cap, c, _, cap, congrArg (Option.map _) hsrc, huntyped, hc.trans huntyped, rfl,
      ⟨hfresh.admissible, hfresh.apart, hfresh.size⟩, hcap, next_capDepVal hnext hk, hput⟩
  · rcases hk with hk | hk <;> simp [Object.hasCell, hk] at hcell

/-- Survives what `UntypedRetype` does: the untyped capability changes, and a new object comes to
life whose capability goes into an empty slot; or the object is initialised once more. -/
structure RetypeStable (cfg : Config) (I : KState → Prop) : Prop where
  untyped : ∀ s p c c', s.capAt p = some c → c.getCapType = .ok .untyped →
    c'.getCapType = .ok .untyped → I s → I (s.setCap p c')
  place : ∀ s s' o c q, o.Fresh cfg s → c.FreshFor o →
    (o.kind = .page ∨ o.kind = .pageTable → c.capDepVal = 0) → s.isSlot q = true →
    s.capAt q = none → PutCap cfg q c (s.born o) s' → I s → I s'
  renew : ∀ s s' (o : Object) c q, o ∈ s.objects → o.hasCell = true →
    CapabilityData.FreshFor c o → s.isSlot q = true → s.capAt q = none →
    PutCap cfg q c (s.renewed o) s' → I s → I s'

theorem capAt_born (s : KState) (o : Object) (p : Nat) : (s.born o).capAt p = s.capAt p := by
  rw [KState.capAt, slots_born, KState.capAt]

theorem capAt_renewed (s : KState) (o : Object) (p : Nat) : (s.renewed o).capAt p = s.capAt p := by
  obtain ⟨t, e, n, h⟩ := renewed_cells s o
  rw [h]
  rfl

namespace RetypeStable

variable {I : KState → Prop} (hI : RetypeStable cfg I)

include hI

/-- The loop, over the slots of the window that are left. -/
theorem insertCaps {window parent n i : Nat} {g : CapGenerator} {u : Unit}
    (hg : g.userSize < 2 ^ 32)
    (hwindow : ∀ j, i ≤ j → j < i + n → s.isSlot (window + entrySize * j) = true ∧
      s.capAt (window + entrySize * j) = none ∧ cfg.isLocal (window + entrySize * j) = false)
    (hs : I s) (h : insertCaps cfg window parent n g i s = .ok u s') : I s' := by
  induction n generalizing g i s with
  | zero =>
    obtain ⟨-, rfl⟩ := pure_ok.1 h
    exact hs
  | succ n ih =>
    simp only [Zoeax.insertCaps, bind_ok, liftExcept_ok] at h
    obtain ⟨⟨cap, g'⟩, _, ⟨hnext, rfl⟩, _, s₁, hnew, h⟩ := h
    obtain ⟨hslot, hnone, -⟩ := hwindow i le_rfl (by omega)
    -- the object comes to life or is there, and its capability goes into the next slot
    obtain ⟨v, hI₁, hput, hslots, hcapAt⟩ : ∃ v, I s₁ ∧
        PutCap cfg (window + entrySize * i) cap v s₁ ∧
        (∀ q, s.isSlot q = true → v.isSlot q = true) ∧ ∀ q, v.capAt q = s.capAt q := by
      obtain ⟨_, ⟨size, rfl⟩, -, ⟨hfresh, hins⟩ | ⟨⟨hcell, hmem⟩, hins⟩⟩ := insertNew_ok hnew
      · have hput := insertCap_putCap hins
        refine ⟨_, hI.place _ _ _ _ _ hfresh (next_fresh hnext hg size).2 (next_capDepVal hnext)
          hslot hnone hput hs, hput, fun q hq => ?_, capAt_born s _⟩
        simp only [KState.isSlot, objects_born, List.any_cons, Bool.or_eq_true]
        exact .inr hq
      · have hput := insertCap_putCap hins
        refine ⟨_, hI.renew _ _ _ _ _ hmem hcell (next_fresh hnext hg size).2 hslot hnone hput hs,
          hput, fun q hq => ?_, capAt_renewed s _⟩
        rw [KState.isSlot, objects_renewed]
        exact hq
    refine ih ((next_fresh hnext hg 0).1 ▸ hg) (fun j hle hlt => ?_) hI₁ h
    -- the slots behind this one are as they were
    obtain ⟨hslotj, hnonej, hlocalj⟩ := hwindow j (by omega) (by omega)
    obtain ⟨⟨slots, rfl⟩, hcaps⟩ := hput
    refine ⟨hslots _ hslotj, ?_, hlocalj⟩
    rw [hcaps _ hlocalj, if_neg, hcapAt, hnonej]
    rw [entrySize]
    omega

/-- **`UntypedRetype`** keeps an invariant that survives its rounds. -/
theorem invokeUntyped {reg : Registers} {rootCnode : CapabilityData} {slot : Nat} {v : Option Nat}
    (hwf : HeapWF cfg s) (hs : I s) (h : invokeUntyped cfg reg rootCnode slot s = .ok v s') :
    I s' := by
  simp only [Zoeax.invokeUntyped, retypeAndInsert, bind_ok, lift_ok, liftExcept_ok, pure_ok,
    deref_ok, writeCap, modify_ok, CapabilityData.tryRefAs_ok] at h
  obtain ⟨k, _, ⟨-, rfl⟩, _, _, ⟨-, rfl⟩, window, _, ⟨hwindow, rfl⟩, _, _, ⟨src, _, ⟨hsrc, rfl⟩, _,
    _, ⟨hk, rfl⟩, ⟨c, gen⟩, _, ⟨hret, rfl⟩, _, _, rfl, hins⟩, rfl, rfl⟩ := h
  obtain ⟨hc, hgen, hnum⟩ := invokeRetype_frame hret
  have hsize : gen.userSize < 2 ^ 32 := by
    have := reg.a5.toNat_lt
    rw [hgen, Nat.shiftRight_eq_div_pow]
    omega
  have hcap : s.capAt slot = some src.cap := congrArg (Option.map _) hsrc
  refine hI.insertCaps hsize (fun j _ hlt => ?_) (hI.untyped s slot _ c hcap hk (hc.trans hk) hs)
    hins
  dsimp only at hlt
  obtain ⟨hslot, hnone⟩ := getWritable_ok hwindow j (by omega)
  refine ⟨hslot, ?_, hwf.not_isLocal hslot⟩
  have hne : window + entrySize * j ≠ slot := by
    rintro heq
    rw [heq, hsrc] at hnone
    cases hnone
  rw [KState.setCap, KState.capAt_setSlot, if_neg hne, KState.capAt, hnone]
  rfl

end RetypeStable

end Zoeax
