import Zoeax.Verify.Frame
import Zoeax.Verify.Untyped
import Zoeax.Kernel.Init

/-!
# Rules for invariants of the kernel

The kernel changes its state by a handful of writes. A rule collects the writes of one part of the
code as the fields of a structure: an invariant that survives them (`CapStable`, `MapStable`,
`ThreadStable`) survives every function of that part, by the lemmas in the namespace of the rule.

The rules carry a property `P` of single capabilities. `CapRule P` says that the kernel's own ways
of making a capability respect `P`; then every capability of every state has it (`CapsAll`), and a
rule only has to survive writes of capabilities with `P`.
-/

namespace Zoeax

open Lib Exec

/-! ## Capabilities in a state -/

/-- The capability is in a slot, in a local variable, or in a thread control block. -/
def KState.HasCap (s : KState) (c : CapabilityData) : Prop :=
  (∃ p, s.capAt p = some c) ∨
    ∃ (p : Nat) (t : ThreadInfo) (slot : TcbSlot) (e : CNodeEntry),
      s.tcbs p = some t ∧ slot.get t = some e ∧ e.cap = c

/-- A property of capabilities, given the live objects and the tables made a root. -/
abbrev CapProp := List Object → List Nat → CapabilityData → Prop

/-- Every capability has `P`. -/
def CapsAll (P : CapProp) (s : KState) : Prop := ∀ c, s.HasCap c → P s.objects s.rooted c

/-- The first capability of an object. -/
structure CapabilityData.FreshFor (c : CapabilityData) (o : Object) : Prop where
  capType : c.getCapType = .ok o.kind
  address : c.getAddress = o.addr
  radix : o.kind = .cNode → c.radix = o.userSize
  notRoot : o.kind = .pageTable → c.isRoot = false
  notMapped : o.kind = .pageTable → c.isMapped = false

/-- The kernel's own ways of making capabilities respect `P`. `CNodeMint` is not among them: the
value it writes is the caller's. -/
structure CapRule (P : CapProp) : Prop where
  mono : ∀ {objects objects' rooted rooted' c}, objects ⊆ objects' → rooted ⊆ rooted' →
    P objects rooted c → P objects' rooted' c
  untyped : ∀ {objects rooted c}, c.getCapType = .ok .untyped → P objects rooted c
  fresh : ∀ {objects rooted o c}, o ∈ objects → c.FreshFor o → P objects rooted c
  retag : ∀ {objects rooted c} v, c.getCapType ≠ .ok .cNode → c.getCapType ≠ .ok .pageTable →
    P objects rooted c → P objects rooted (c.setCapDepVal v)
  mapped : ∀ {objects rooted c} v, c.getCapType = .ok .pageTable → P objects rooted c →
    P objects rooted (c.setMapped v)
  root : ∀ {objects rooted c} v, c.getCapType = .ok .pageTable → c.getFrame ∈ rooted →
    P objects rooted c → P objects rooted (c.setMapped v).setRoot

theorem CapRule.trivial : CapRule fun _ _ _ => True where
  mono _ _ _ := .intro
  untyped _ := .intro
  fresh _ _ := .intro
  retag _ _ _ _ := .intro
  mapped _ _ _ := .intro
  root _ _ _ _ := .intro

theorem capsAll_trivial (s : KState) : CapsAll (fun _ _ _ => True) s := fun _ _ => .intro

theorem CapsAll.of_slots {P : CapProp} {s : KState} (hs : CapsAll P s) {p : Nat} {e : CNodeEntry}
    (he : s.slots p = some e) : P s.objects s.rooted e.cap :=
  hs _ (.inl ⟨p, by rw [KState.capAt, he]; rfl⟩)

/-- Derivation changes nothing but `cap_dep_val`. -/
theorem derive_eq {c c' : CapabilityData} (h : c.derive = .ok c') :
    ∃ v, c' = c.setCapDepVal v := by
  unfold CapabilityData.derive at h
  obtain ⟨k, -, h⟩ := except_bind_ok.1 h
  cases k with
  | tcb => cases h
  | untyped => cases h
  | cNode => exact ⟨c.capDepVal, (Except.ok.inj h).symm⟩
  | notification => exact ⟨0, (Except.ok.inj h).symm⟩
  | endPoint => exact ⟨0, (Except.ok.inj h).symm⟩
  | page =>
    obtain ⟨_, -, h⟩ := except_bind_ok.1 h
    exact ⟨0, (Except.ok.inj h).symm⟩
  | pageTable => exact ⟨c.capDepVal, (Except.ok.inj h).symm⟩

namespace CapRule

variable {P : CapProp} (hP : CapRule P) {objects : List Object} {rooted : List Nat}
  {c c' : CapabilityData}

include hP

theorem derive (h : c.derive = .ok c') (hc : P objects rooted c) : P objects rooted c' := by
  by_cases hk : c.getCapType = .ok .cNode ∨ c.getCapType = .ok .pageTable
  · have : c.derive = .ok c := by
      rcases hk with hk | hk <;> simp only [CapabilityData.derive, hk] <;> rfl
    exact Except.ok.inj (this.symm.trans h) ▸ hc
  · obtain ⟨v, rfl⟩ := derive_eq h
    exact hP.retag v (hk <| .inl ·) (hk <| .inr ·) hc

/-- The new capability of a CNode invocation. -/
theorem newCap {invLabel : InvLabel} {reg : Registers} (h : c.derive = .ok c')
    (hmint : invLabel = .cNodeMint → P objects rooted (c.setCapDepVal reg.a6))
    (hc : P objects rooted c) : P objects rooted (newCap invLabel reg c') := by
  unfold Zoeax.newCap
  split
  · next hl =>
    obtain ⟨v, rfl⟩ := derive_eq h
    exact hmint hl
  · exact hP.derive h hc

end CapRule

/-! ## Objects -/

/-- The object can come to life in `s`. -/
structure Object.Fresh (cfg : Config) (s : KState) (o : Object) : Prop where
  admissible : o.admissible cfg = true
  apart : ∀ o' ∈ s.objects, o.overlaps o' = false
  size : o.kind.getObjectSize cfg o.userSize = .ok o.size

/-- The state after the object came to life and was initialised. -/
def KState.born (s : KState) (o : Object) : KState :=
  let s := { s with objects := o :: s.objects }
  match o.kind with
  | .tcb => s.setTcb o.start {}
  | .endPoint => s.setEndpoint o.start .new
  | .notification => s.setNotification o.start .new
  | .pageTable => s.zeroMem (direct o.addr) pageSize
  | .page => s
  | .cNode => s
  | .untyped => s

/-- The state after an object that is already there was initialised once more. -/
def KState.renewed (s : KState) (o : Object) : KState :=
  match o.kind with
  | .tcb => s.setTcb o.start {}
  | .endPoint => s.setEndpoint o.start .new
  | .notification => s.setNotification o.start .new
  | _ => s

@[simp] theorem objects_born (s : KState) (o : Object) : (s.born o).objects = o :: s.objects := by
  unfold KState.born
  split <;> rfl

@[simp] theorem rooted_born (s : KState) (o : Object) : (s.born o).rooted = s.rooted := by
  unfold KState.born
  split <;> rfl

@[simp] theorem slots_born (s : KState) (o : Object) : (s.born o).slots = s.slots := by
  unfold KState.born
  split <;> rfl

@[simp] theorem current_born (s : KState) (o : Object) : (s.born o).current = s.current := by
  unfold KState.born
  split <;> rfl

@[simp] theorem requested_born (s : KState) (o : Object) :
    (s.born o).requested = s.requested := by
  unfold KState.born
  split <;> rfl

@[simp] theorem curRegBase_born (s : KState) (o : Object) :
    (s.born o).curRegBase = s.curRegBase := by
  unfold KState.born
  split <;> rfl

theorem mem_born (s : KState) {o : Object} (hk : o.kind ≠ .pageTable) : (s.born o).mem = s.mem := by
  unfold KState.born
  split
  case h_4 h => exact absurd h hk
  all_goals rfl

theorem tcbs_born (s : KState) (o : Object) (p : Nat) :
    (s.born o).tcbs p = if o.kind = .tcb ∧ p = o.start then some {} else s.tcbs p := by
  unfold KState.born
  split
  · next h => simp [h, KState.setTcb, Function.update_apply]
  all_goals simp [*, KState.setEndpoint, KState.setNotification, KState.zeroMem]

@[simp] theorem objects_renewed (s : KState) (o : Object) : (s.renewed o).objects = s.objects := by
  unfold KState.renewed
  split <;> rfl

@[simp] theorem rooted_renewed (s : KState) (o : Object) : (s.renewed o).rooted = s.rooted := by
  unfold KState.renewed
  split <;> rfl

@[simp] theorem current_renewed (s : KState) (o : Object) : (s.renewed o).current = s.current := by
  unfold KState.renewed
  split <;> rfl

@[simp] theorem curRegBase_renewed (s : KState) (o : Object) :
    (s.renewed o).curRegBase = s.curRegBase := by
  unfold KState.renewed
  split <;> rfl

theorem tcbs_renewed (s : KState) (o : Object) (p : Nat) :
    (s.renewed o).tcbs p = if o.kind = .tcb ∧ p = o.start then some {} else s.tcbs p := by
  unfold KState.renewed
  split
  · next h => simp [h, KState.setTcb, Function.update_apply]
  · next h => simp [h, KState.setEndpoint]
  · next h => simp [h, KState.setNotification]
  · next h _ _ => rw [if_neg fun hk => h hk.1]

/-- Only threads, endpoints and notifications are initialised once more. -/
theorem renewed_cells (s : KState) (o : Object) :
    ∃ t e n, s.renewed o = { s with tcbs := t, endpoints := e, notifications := n } := by
  unfold KState.renewed
  split
  · exact ⟨_, _, _, rfl⟩
  · exact ⟨_, _, _, rfl⟩
  · exact ⟨_, _, _, rfl⟩
  · exact ⟨_, _, _, rfl⟩

/-- Survives that an object is initialised once more. -/
def Renews (I : KState → Prop) : Prop :=
  ∀ s (o : Object), o ∈ s.objects → o.hasCell = true → I s → I (s.renewed o)

/-! ## Capability spaces -/

/-- Survives what the capability operations write into CNodes: links, entries, new objects. -/
structure SlotStable (cfg : Config) (P : CapProp) (I : KState → Prop) : Prop where
  insert : ∀ site parent, Keeps I (insertAfter cfg (cfg.localAddr site) parent)
  replace : ∀ site src, Keeps I (replaceEntry cfg (cfg.localAddr site) src)
  clear : ∀ s p, I s → I (s.setSlot p none)
  move : ∀ s p q, I s → I (s.setSlot q (s.slots p))
  new : ∀ s p cap, P s.objects s.rooted cap → I s → I (s.setSlot p (some (.newWithRawcap cap)))
  setCap : ∀ s p cap, P s.objects s.rooted cap → I s → I (s.setCap p cap)
  born : ∀ s o, Object.Fresh cfg s o → I s → I (s.born o)

/-- And the slots of threads. -/
structure CapStable (cfg : Config) (P : CapProp) (I : KState → Prop) : Prop
    extends SlotStable cfg P I where
  hold : ∀ s t thread slot p, s.tcbs thread = some t → TcbSlot.get slot t = none → I s →
    I (s.setTcb thread (slot.set t (s.slots p)))

/-- What does not look at slots. -/
theorem SlotStable.of_slots {cfg : Config} {P : CapProp} {I : KState → Prop}
    (slots : ∀ s f, I s → I { s with slots := f })
    (born : ∀ s o, Object.Fresh cfg s o → I s → I (s.born o)) : SlotStable cfg P I where
  insert _ _ := keeps_insertAfter (fun s _ _ h => slots s _ h) ..
  replace _ _ := keeps_replaceEntry (fun s _ _ h => slots s _ h) ..
  clear s _ h := slots s _ h
  move s _ _ h := slots s _ h
  new s _ _ _ h := slots s _ h
  setCap s _ _ _ h := slots s _ h
  born := born

theorem CapStable.of_slots {cfg : Config} {P : CapProp} {I : KState → Prop}
    (slots : ∀ s f, I s → I { s with slots := f })
    (hold : ∀ s t thread slot e, s.tcbs thread = some t → TcbSlot.get slot t = none → I s →
      I (s.setTcb thread (slot.set t e)))
    (born : ∀ s o, Object.Fresh cfg s o → I s → I (s.born o)) : CapStable cfg P I where
  toSlotStable := .of_slots slots born
  hold s t thread slot _ ht hn h := hold s t thread slot _ ht hn h

theorem insertAfter_slots {cfg : Config} {p parent : Nat} {s s' : KState} {u : Unit}
    (h : insertAfter cfg p parent s = .ok u s') : ∃ f, s' = { s with slots := f } := by
  refine (keeps_insertAfter (I := fun u => ∃ f, u = { s with slots := f }) ?_ p parent).ok
    ⟨s.slots, rfl⟩ h
  rintro _ p f ⟨slots, rfl⟩
  exact ⟨_, rfl⟩

/-- **`CNodeCopy`, `CNodeMint` and `CNodeMove`**: an occupied source, an empty destination, and a
capability derived from the source. -/
theorem invokeCNode_ok {cfg : Config} {invLabel : InvLabel} {reg : Registers}
    {rootCnode destRoot : CapabilityData} {s s' : KState} {v : Option Nat}
    (h : invokeCNode cfg invLabel reg rootCnode destRoot s = .ok v s') :
    ∃ src e dest rawCap,
      rootCnode.lookupEntryMut cfg reg.a3.toNat (reg.a4.toNat >>> 32) s = .ok src ∧
      s.isSlot src = true ∧ s.slots src = some e ∧
      destRoot.lookupEntryMut cfg reg.a5.toNat (reg.a4.toNat % 2 ^ 32) s = .ok dest ∧
      s.isSlot dest = true ∧ s.slots dest = none ∧ e.cap.derive = .ok rawCap ∧
      installEntry cfg invLabel (newCap invLabel reg rawCap) src dest s = .ok () s' := by
  simp only [invokeCNode, bind_ok, lift_ok, liftExcept_ok, pure_ok, occupied_ok, readSlot_ok,
    require_ok, Option.isNone_iff_eq_none] at h
  obtain ⟨src, _, ⟨hsrc, rfl⟩, e, _, ⟨⟨hslot, he⟩, rfl⟩, dest, _, ⟨hdest, rfl⟩, _, _,
    ⟨⟨hslot', rfl⟩, rfl⟩, _, _, ⟨hnone, rfl⟩, rawCap, _, ⟨hd, rfl⟩, _, _, hinstall, rfl, rfl⟩ := h
  exact ⟨src, e, dest, rawCap, hsrc, hslot, he, hdest, hslot', hnone, hd, hinstall⟩

/-- The states differ in the links of the derivation list only. -/
def SameCaps (s v : KState) : Prop :=
  (∃ slots, v = { s with slots := slots }) ∧ ∀ q, v.capAt q = s.capAt q

theorem SameCaps.rfl {s : KState} : SameCaps s s := ⟨⟨_, Eq.refl _⟩, fun _ => Eq.refl _⟩

theorem SameCaps.relink {s v : KState} (h : SameCaps s v) (p : Nat)
    (f : ManagementDB → ManagementDB) : SameCaps s (v.relink p f) := by
  obtain ⟨⟨slots, rfl⟩, hcap⟩ := h
  exact ⟨⟨_, Eq.refl _⟩, fun q => (KState.capAt_relink ..).trans (hcap q)⟩

/-- **Where the capabilities are** after a CNode invocation, the local variable apart. -/
theorem installEntry_capAt {cfg : Config} {invLabel : InvLabel} {cap : CapabilityData}
    {src dest : Nat} {s s' : KState} {u : Unit} (hlocal : src ≠ cfg.localAddr .invocation)
    (h : installEntry cfg invLabel cap src dest s = .ok u s') :
    (∃ slots, s' = { s with slots := slots }) ∧ ∀ q ≠ cfg.localAddr .invocation, s'.capAt q =
      if q = dest then some cap else if invLabel = .cNodeMove ∧ q = src then none
      else s.capAt q := by
  simp only [installEntry, newLocal, moveEntry, bind_ok, modify_ok, pure_ok] at h
  obtain ⟨_, _, ⟨_, _, rfl, rfl, rfl⟩, _, s₂, hlink, rfl⟩ := h
  -- linking keeps the capabilities, and `CNodeMove` clears the source
  have hlinked : (∃ slots, s₂ = { s with slots := slots }) ∧ ∀ q, s₂.capAt q =
      if invLabel = .cNodeMove ∧ q = src then none
      else (s.setSlot (cfg.localAddr .invocation) (some (.newWithRawcap cap))).capAt q := by
    unfold linkNew at hlink
    split at hlink
    · next hmove =>
      simp only [bind_ok, modify_ok] at hlink
      obtain ⟨_, v, hrep, rfl⟩ := hlink
      obtain ⟨⟨slots, rfl⟩, hcap⟩ :=
        (keeps_replaceEntry (I := SameCaps _) (fun _ p f hv => hv.relink p f) _ _).ok .rfl hrep
      refine ⟨⟨_, rfl⟩, fun q => ?_⟩
      rw [KState.capAt_setSlot, hcap]
      simp only [hmove, true_and]
      rfl
    · next hcopy =>
      obtain ⟨⟨slots, rfl⟩, hcap⟩ :=
        (keeps_insertAfter (I := SameCaps _) (fun _ p f hv => hv.relink p f) _ _).ok .rfl hlink
      exact ⟨⟨_, rfl⟩, fun q => by rw [hcap q, if_neg fun h => hcopy h.1]⟩
  obtain ⟨⟨slots, rfl⟩, hcap⟩ := hlinked
  refine ⟨⟨_, rfl⟩, fun q hq => ?_⟩
  rw [KState.capAt_setSlot]
  split
  · refine (hcap (cfg.localAddr .invocation)).trans ?_
    rw [if_neg fun h => hlocal h.2.symm, KState.capAt_setSlot, if_pos rfl]
    rfl
  · rw [hcap q, KState.capAt_setSlot, if_neg hq]

section

variable {cfg : Config} {P : CapProp} {I : KState → Prop} {s s' : KState} {u : Unit}

theorem SlotStable.insertCap (hI : SlotStable cfg P I) {k : CapabilityType}
    {window parent i : Nat} {cap : CapabilityData}
    (hcap : P s.objects s.rooted cap) (hs : I s)
    (h : insertCap cfg k window parent cap i s = .ok u s') : I s' := by
  simp only [Zoeax.insertCap, newLocal, moveEntry, bind_ok, modify_ok, pure_ok] at h
  obtain ⟨_, _, ⟨_, _, rfl, rfl, rfl⟩, _, s₂, hins, rfl⟩ := h
  exact hI.move _ _ _ ((hI.insert _ _).ok (hI.new _ _ _ hcap hs) hins)

theorem SlotStable.installEntry (hI : SlotStable cfg P I) {invLabel : InvLabel}
    {cap : CapabilityData} {srcSlot destSlot : Nat}
    (hcap : P s.objects s.rooted cap) (hs : I s)
    (h : installEntry cfg invLabel cap srcSlot destSlot s = .ok u s') : I s' := by
  simp only [Zoeax.installEntry, newLocal, moveEntry, bind_ok, modify_ok, pure_ok] at h
  obtain ⟨_, _, ⟨_, _, rfl, rfl, rfl⟩, _, s₂, hlink, rfl⟩ := h
  refine hI.move _ _ _ (Keeps.ok ?_ (hI.new _ _ _ hcap hs) hlink)
  exact .ite (.bind (hI.replace _ _) fun _ => .modify fun s hs => hI.clear s _ hs) (hI.insert _ _)

theorem CapStable.setTcbSlot (hI : CapStable cfg P I) {slot : TcbSlot} {thread parent : Nat}
    {cap : CapabilityData} (hcap : P s.objects s.rooted cap) (hs : I s)
    (h : setTcbSlot cfg slot thread cap parent s = .ok u s') : I s' := by
  simp only [Zoeax.setTcbSlot, holdEntry, holdLocal, newLocal, bind_ok, lift_ok, liftExcept_ok,
    modify_ok, pure_ok, getTcb_ok, require_ok] at h
  obtain ⟨t, _, ⟨ht, rfl⟩, _, _, ⟨hnone, rfl⟩, _, _, ⟨_, _, rfl, rfl, rfl⟩, _, s₂, hins, t', _,
    ⟨ht', rfl⟩, rfl⟩ := h
  -- the thread is still the one whose slot was found empty
  obtain ⟨f, hf⟩ := insertAfter_slots hins
  have hI₂ := (hI.insert _ _).ok (hI.new _ _ _ hcap hs) hins
  have htt : t = t' := by
    rw [hf] at ht'
    exact Option.some.inj (ht.symm.trans ht')
  subst htt
  exact hI.hold _ _ _ _ _ ht' (Option.isNone_iff_eq_none.1 hnone) hI₂

end

/-! ## Every capability has `P` -/

theorem KState.HasCap.of_setSlot {s : KState} {p : Nat} {e : Option CNodeEntry} {c : CapabilityData}
    (h : (s.setSlot p e).HasCap c) : e.map (·.cap) = some c ∨ s.HasCap c := by
  rcases h with ⟨q, hq⟩ | h
  · rw [KState.capAt_setSlot] at hq
    split at hq
    · exact .inl hq
    · exact .inr (.inl ⟨q, hq⟩)
  · exact .inr (.inr h)

theorem KState.HasCap.of_setTcb {s : KState} {p : Nat} {t : ThreadInfo} {c : CapabilityData}
    (h : (s.setTcb p t).HasCap c) :
    (∃ (slot : TcbSlot) (e : CNodeEntry), slot.get t = some e ∧ e.cap = c) ∨ s.HasCap c := by
  rcases h with h | ⟨q, t', slot, e, ht', he, hc⟩
  · exact .inr (.inl h)
  · rw [KState.tcbs_setTcb] at ht'
    split at ht'
    · obtain rfl := Option.some.inj ht'
      exact .inl ⟨slot, e, he, hc⟩
    · exact .inr (.inr ⟨q, t', slot, e, ht', he, hc⟩)

theorem KState.HasCap.of_newTcb {s : KState} {p : Nat} {c : CapabilityData}
    (h : (s.setTcb p {}).HasCap c) : s.HasCap c := by
  rcases h.of_setTcb with ⟨slot, e, he, -⟩ | h
  · cases slot <;> cases he
  · exact h

theorem KState.HasCap.of_born {s : KState} {o : Object} {c : CapabilityData}
    (h : (s.born o).HasCap c) : s.HasCap c := by
  unfold KState.born at h
  split at h
  · exact h.of_newTcb
  all_goals exact h

theorem KState.HasCap.of_renewed {s : KState} {o : Object} {c : CapabilityData}
    (h : (s.renewed o).HasCap c) : s.HasCap c := by
  unfold KState.renewed at h
  split at h
  · exact h.of_newTcb
  all_goals exact h

theorem TcbSlot.get_set (slot slot' : TcbSlot) (t : ThreadInfo) (e : Option CNodeEntry) :
    slot'.get (slot.set t e) = if slot' = slot then e else slot'.get t := by
  cases slot <;> cases slot' <;> rfl

namespace CapsAll

variable {cfg : Config} {P : CapProp} {s : KState}

theorem setSlot (hs : CapsAll P s) {p : Nat} {e : Option CNodeEntry}
    (he : ∀ c, e.map (·.cap) = some c → P s.objects s.rooted c) : CapsAll P (s.setSlot p e) :=
  fun c hc => hc.of_setSlot.elim (he c) (hs c)

theorem relink (hs : CapsAll P s) (p : Nat) (f : ManagementDB → ManagementDB) :
    CapsAll P (s.relink p f) :=
  hs.setSlot fun c hc => hs c <| .inl ⟨p, by
    rw [Option.map_map] at hc
    exact hc⟩

theorem setTcb (hs : CapsAll P s) {p : Nat} {t : ThreadInfo}
    (ht : ∀ (slot : TcbSlot) e, slot.get t = some e → P s.objects s.rooted e.cap) :
    CapsAll P (s.setTcb p t) := fun c hc => by
  rcases hc.of_setTcb with ⟨slot, e, he, rfl⟩ | hc
  · exact ht slot e he
  · exact hs c hc

theorem held (hs : CapsAll P s) {p : Nat} {t : ThreadInfo} (ht : s.tcbs p = some t)
    {slot : TcbSlot} {e : CNodeEntry} (he : slot.get t = some e) : P s.objects s.rooted e.cap :=
  hs _ (.inr ⟨p, t, slot, e, ht, he, rfl⟩)

end CapsAll

theorem capsAll_renews (P : CapProp) : Renews (CapsAll P) := by
  intro s o _ _ hs c hc
  rw [objects_renewed, rooted_renewed]
  exact hs c hc.of_renewed

theorem CapRule.capStable {P : CapProp} (hP : CapRule P) (cfg : Config) :
    CapStable cfg P (CapsAll P) where
  insert _ _ := keeps_insertAfter (fun _ p f hs => hs.relink p f) ..
  replace _ _ := keeps_replaceEntry (fun _ p f hs => hs.relink p f) ..
  clear _ _ hs := hs.setSlot fun _ hc => (nomatch hc)
  move _ p _ hs := hs.setSlot fun c hc => hs c (.inl ⟨p, hc⟩)
  new _ _ _ hcap hs := hs.setSlot fun _ hc => Option.some.inj hc ▸ hcap
  setCap s p cap hcap hs := hs.setSlot fun c hc => by
    rw [Option.map_map] at hc
    obtain ⟨e, -, rfl⟩ := Option.map_eq_some_iff.1 hc
    exact hcap
  hold s t thread slot p ht _ hs := hs.setTcb fun slot' e he => by
    rw [TcbSlot.get_set] at he
    split at he
    · exact hs.of_slots he
    · exact hs.held ht he
  born s o _ hs c hc := by
    rw [objects_born, rooted_born]
    exact hP.mono (List.subset_cons_self ..) (List.Subset.refl _) (hs c hc.of_born)

/-! ## Invocations on capability spaces -/

namespace CapStable

variable {cfg : Config} {P : CapProp} {I : KState → Prop} (hI : CapStable cfg P I) (hP : CapRule P)
  {s s' : KState}

include hI hP

theorem setSlot {slot : TcbSlot} {c : CapabilityData} {src : Nat} {u : Unit}
    (hcaps : CapsAll P s) (hs : I s) (h : TCBCap.setSlot cfg slot c src s = .ok u s') : I s' := by
  simp only [TCBCap.setSlot, bind_ok, lift_ok, liftExcept_ok, deref_ok] at h
  obtain ⟨e, _, ⟨he, rfl⟩, cap, _, ⟨hd, rfl⟩, h⟩ := h
  exact hI.setTcbSlot (hP.derive hd (hcaps.of_slots he)) hs h

theorem configure {tcbCap : CapabilityData} {cnodeSlot vspaceSlot : Nat} {u : Unit}
    (hcaps : CapsAll P s) (hs : I s)
    (h : configure cfg tcbCap cnodeSlot vspaceSlot s = .ok u s') : I s' := by
  simp only [Zoeax.configure, bind_ok, lift_ok, liftExcept_ok] at h
  obtain ⟨_, _, ⟨-, rfl⟩, _, _, ⟨-, rfl⟩, _, _, ⟨-, rfl⟩, _, _, ⟨-, rfl⟩, _, s₁, hcspace,
    hvspace⟩ := h
  exact hI.setSlot hP ((hP.capStable cfg).setSlot hP hcaps hcaps hcspace)
    (hI.setSlot hP hcaps hs hcspace) hvspace

theorem invokeCNode {invLabel : InvLabel} {reg : Registers} {rootCnode destRoot : CapabilityData}
    {v : Option Nat} (hcaps : CapsAll P s)
    (hmint : invLabel = .cNodeMint → ∀ slot c,
      rootCnode.lookupEntryMut cfg reg.a3.toNat (reg.a4.toNat >>> 32) s = .ok slot →
      s.capAt slot = some c → P s.objects s.rooted (c.setCapDepVal reg.a6))
    (hs : I s) (h : invokeCNode cfg invLabel reg rootCnode destRoot s = .ok v s') : I s' := by
  obtain ⟨src, e, dest, rawCap, hsrc, -, he, -, -, -, hd, hinstall⟩ := invokeCNode_ok h
  refine hI.installEntry (hP.newCap hd (fun hl => ?_) (hcaps.of_slots he)) hs hinstall
  exact hmint hl src e.cap hsrc (by rw [KState.capAt, he]; rfl)

end CapStable

/-! ## Retyping -/

/-- `retype` leaves the type of the untyped capability, and the generator works for the request. -/
theorem retype_frame {cfg : Config} {k : CapabilityType} {c c' : CapabilityData}
    {gen : CapGenerator} {userSize num : Nat} (h : c.retype cfg k userSize num = .ok (c', gen)) :
    c'.getCapType = c.getCapType ∧ gen.userSize = userSize ∧ gen.num = num := by
  obtain ⟨-, size, objectSize, _, start, v, -, -, -, -, -, hgen, -, rfl⟩ :=
    CapabilityData.retype_ok h
  constructor
  · split <;> rfl
  · simp only [CapGenerator.new, except_bind_ok, except_pure_ok] at hgen
    obtain ⟨_, -, _, -, rfl⟩ := hgen
    exact ⟨rfl, rfl⟩

theorem invokeRetype_frame {cfg : Config} {k : CapabilityType} {c c' : CapabilityData}
    {gen : CapGenerator} {userSize num : Nat}
    (h : c.invokeRetype cfg userSize num k = .ok (c', gen)) :
    c'.getCapType = c.getCapType ∧ gen.userSize = userSize ∧ gen.num = num := by
  cases k with
  | untyped => cases h
  | _ => exact retype_frame h

/-- The generator makes what was asked for. -/
theorem invokeRetype_kind {cfg : Config} {k : CapabilityType} {c c' : CapabilityData}
    {gen : CapGenerator} {userSize num : Nat}
    (h : c.invokeRetype cfg userSize num k = .ok (c', gen)) : gen.k = k := by
  have hretype : c.retype cfg k userSize num = .ok (c', gen) := by
    cases k with
    | untyped => cases h
    | _ => exact h
  obtain ⟨-, _, _, _, _, _, -, -, -, -, -, hgen, -⟩ := CapabilityData.retype_ok hretype
  simp only [CapGenerator.new, except_bind_ok, except_pure_ok] at hgen
  obtain ⟨_, -, _, -, rfl⟩ := hgen
  rfl

theorem next_fresh {cfg : Config} {g g' : CapGenerator} {cap : CapabilityData}
    (h : g.next cfg = .ok (cap, g')) (hg : g.userSize < 2 ^ 32) (size : Nat) :
    g'.userSize = g.userSize ∧ cap.FreshFor ⟨g.k, cap.getAddress, g.userSize, size⟩ := by
  simp only [CapGenerator.next, except_bind_ok, except_pure_ok, Prod.mk.injEq] at h
  obtain ⟨v, hv, a, -, rfl, rfl⟩ := h
  refine ⟨rfl, CapabilityData.getCapType_new .., rfl, fun hk => ?_, fun hk => ?_, fun hk => ?_⟩
  · rw [show g.k = .cNode from hk] at hv
    obtain rfl : g.userSize = v := Except.ok.inj hv
    simp only [CapabilityData.radix, CapabilityData.capDepVal_new, UInt64.toNat_ofNat']
    omega
  · rw [show g.k = .pageTable from hk] at hv
    obtain rfl : 0 = v := Except.ok.inj hv
    simp [CapabilityData.isRoot]
  · rw [show g.k = .pageTable from hk] at hv
    obtain rfl : 0 = v := Except.ok.inj hv
    simp [CapabilityData.isMapped]

/-- The object comes to life or is already there, and then its capability goes into the window. -/
theorem insertNew_ok {cfg : Config} {window parent i : Nat} {g : CapGenerator}
    {cap : CapabilityData} {s s' : KState} {u : Unit}
    (h : insertNew cfg window parent g cap i s = .ok u s') :
    ∃ o : Object, (∃ size, o = ⟨g.k, cap.getAddress, g.userSize, size⟩) ∧
      o.kind.getObjectSize cfg o.userSize = .ok o.size ∧
      (o.Fresh cfg s ∧ insertCap cfg g.k window parent cap i (s.born o) = .ok u s' ∨
        (o.hasCell = true ∧ o ∈ s.objects) ∧
          insertCap cfg g.k window parent cap i (s.renewed o) = .ok u s') := by
  simp only [insertNew, bind_ok, liftExcept_ok, placeObject_ok, createObject_ok] at h
  obtain ⟨size, _, ⟨hsize, rfl⟩, _, _, hplace, _, s₂, hinit, hins⟩ := h
  refine ⟨_, ⟨size, rfl⟩, hsize, ?_⟩
  rcases g with ⟨k, num, address, userSize, objSize, endAddress⟩
  rcases hplace with ⟨hmem, rfl⟩ | ⟨-, hadm, hapart, rfl⟩
  · refine .inr ⟨hmem, ?_⟩
    cases k with
    | tcb => cases hinit; exact hins
    | endPoint => cases hinit; exact hins
    | notification => cases hinit; exact hins
    | _ => cases hmem.1
  · refine .inl ⟨⟨hadm, hapart, hsize⟩, ?_⟩
    cases k <;> cases hinit <;> exact hins

/-- The next `n` objects of the generator come between `a` and `b`, where there is no object. -/
structure CapGenerator.Apart (g : CapGenerator) (cfg : Config) (n a b : Nat) (s : KState) : Prop
    extends g.Between cfg n a b where
  sized : ∀ size, g.k.getObjectSize cfg g.userSize = .ok size → 0 < size
  clear : ∀ o ∈ s.objects, o.addr + o.size ≤ a ∨ b ≤ o.addr

theorem insertCap_objects {cfg : Config} {k : CapabilityType} {window parent i : Nat}
    {cap : CapabilityData} {s s' : KState} {u : Unit}
    (h : insertCap cfg k window parent cap i s = .ok u s') : s'.objects = s.objects := by
  simp only [insertCap, newLocal, moveEntry, bind_ok, modify_ok, pure_ok] at h
  obtain ⟨_, _, ⟨_, _, rfl, rfl, rfl⟩, _, _, hins, rfl⟩ := h
  obtain ⟨f, rfl⟩ := insertAfter_slots hins
  rfl

/-- An object that is already there would lie between `a` and `b`. -/
theorem CapGenerator.Apart.not_mem {cfg : Config} {n a b size : Nat} {g g' : CapGenerator}
    {cap : CapabilityData} {s : KState} (hg : g.Apart cfg (n + 1) a b s)
    (hnext : g.next cfg = .ok (cap, g')) (hsize : g.k.getObjectSize cfg g.userSize = .ok size) :
    (⟨g.k, cap.getAddress, g.userSize, size⟩ : Object) ∉ s.objects := by
  intro hmem
  have hclear := hg.clear _ hmem
  have hpos := hg.sized size hsize
  have hfit := hg.fits size hsize n.succ_ne_zero
  obtain ⟨haddr, -, -, hbetween⟩ := hg.toBetween.next hnext
  have hstop := hbetween.stop
  dsimp only at hclear
  omega

/-- **One round** of a generator that stays apart: the object is new, and the rest comes behind
it. -/
theorem CapGenerator.Apart.round {cfg : Config} {window parent n a b i : Nat}
    {g g' : CapGenerator} {cap : CapabilityData} {s s' : KState} {u : Unit}
    (hg : g.Apart cfg (n + 1) a b s) (hnext : g.next cfg = .ok (cap, g'))
    (h : insertNew cfg window parent g cap i s = .ok u s') :
    ∃ size, Object.Fresh cfg s ⟨g.k, cap.getAddress, g.userSize, size⟩ ∧
      insertCap cfg g.k window parent cap i (s.born ⟨g.k, cap.getAddress, g.userSize, size⟩) =
        .ok u s' ∧ g'.Apart cfg n (a + g.objSize) b s' := by
  obtain ⟨_, ⟨size, rfl⟩, hsize, hplace⟩ := insertNew_ok h
  obtain ⟨haddr, hk, huser, hbetween⟩ := hg.toBetween.next hnext
  have hfit := hg.fits size hsize n.succ_ne_zero
  rcases hplace with ⟨hfresh, hins⟩ | ⟨⟨-, hmem⟩, -⟩
  · refine ⟨size, hfresh, hins, hbetween, ?_, ?_⟩
    · rw [hk, huser]
      exact hg.sized
    · rw [insertCap_objects hins, objects_born]
      refine List.forall_mem_cons.2 ⟨.inl (by dsimp only; omega), fun o ho => ?_⟩
      have := hg.clear o ho
      omega
  · exact absurd hmem (hg.not_mem hnext hsize)

/-- What the request in the registers makes of the capability comes where there is no object. -/
def CapabilityData.RetypesApart (cfg : Config) (reg : Registers) (s : KState) (c : CapabilityData) :
    Prop :=
  ∀ k c' gen, capTryFromU8 reg.a6.toUInt8 = .ok k →
    c.invokeRetype cfg (reg.a5.toNat >>> 32) (reg.a5.toNat % 2 ^ 32) k = .ok (c', gen) →
    ∃ a b, gen.Apart cfg gen.num a b s

namespace SlotStable

variable {cfg : Config} {P : CapProp} {I : KState → Prop} (hI : SlotStable cfg P I) (hP : CapRule P)
  {s s' : KState}

include hI hP

/-- The loop keeps `I`: each round is an object and its capability. -/
theorem insertCaps {window parent : Nat} {n : Nat} {g : CapGenerator} {i : Nat} {u : Unit}
    (hnew : Renews I ∨ ∃ a b, g.Apart cfg n a b s) (hg : g.userSize < 2 ^ 32) (hs : I s)
    (h : insertCaps cfg window parent n g i s = .ok u s') : I s' := by
  induction n generalizing g i s with
  | zero =>
    obtain ⟨-, rfl⟩ := pure_ok.1 h
    exact hs
  | succ n ih =>
    simp only [Zoeax.insertCaps, bind_ok, liftExcept_ok] at h
    obtain ⟨⟨cap, g'⟩, _, ⟨hnext, rfl⟩, _, s₁, hround, h⟩ := h
    have hborn : ∀ {size}, Object.Fresh cfg s ⟨g.k, cap.getAddress, g.userSize, size⟩ →
        Zoeax.insertCap cfg g.k window parent cap i
          (s.born ⟨g.k, cap.getAddress, g.userSize, size⟩) = .ok () s₁ → I s₁ := by
      intro size hfresh hins
      obtain ⟨-, hcap⟩ := next_fresh hnext hg size
      refine hI.insertCap ?_ (hI.born _ _ hfresh hs) hins
      rw [objects_born, rooted_born]
      exact hP.fresh (List.mem_cons_self ..) hcap
    have hg' : g'.userSize < 2 ^ 32 := (next_fresh hnext hg 0).1 ▸ hg
    rcases hnew with hrenews | ⟨a, b, hapart⟩
    · refine ih (.inl hrenews) hg' ?_ h
      obtain ⟨_, ⟨size, rfl⟩, -, ⟨hfresh, hins⟩ | ⟨⟨hcell, hmem⟩, hins⟩⟩ := insertNew_ok hround
      · exact hborn hfresh hins
      · obtain ⟨-, hcap⟩ := next_fresh hnext hg size
        refine hI.insertCap ?_ (hrenews _ _ hmem hcell hs) hins
        rw [objects_renewed, rooted_renewed]
        exact hP.fresh hmem hcap
    · obtain ⟨size, hfresh, hins, hrest⟩ := hapart.round hnext hround
      exact ih (.inr ⟨_, _, hrest⟩) hg' (hborn hfresh hins) h

theorem invokeUntyped {reg : Registers} {rootCnode : CapabilityData} {slot : Nat} {v : Option Nat}
    (hnew : Renews I ∨ ∀ c ∈ s.capAt slot, c.RetypesApart cfg reg s) (hs : I s)
    (h : invokeUntyped cfg reg rootCnode slot s = .ok v s') : I s' := by
  simp only [Zoeax.invokeUntyped, retypeAndInsert, bind_ok, lift_ok, liftExcept_ok, pure_ok,
    deref_ok, writeCap, modify_ok, CapabilityData.tryRefAs_ok] at h
  obtain ⟨k, _, ⟨hkind, rfl⟩, _, _, ⟨-, rfl⟩, window, _, ⟨-, rfl⟩, _, _, ⟨src, _, ⟨hsrc, rfl⟩, _, _,
    ⟨hk, rfl⟩, ⟨c', gen⟩, _, ⟨hret, rfl⟩, _, _, rfl, hins⟩, rfl, rfl⟩ := h
  have hcap : s.capAt slot = some src.cap := congrArg (Option.map _) hsrc
  obtain ⟨hc, hgen, -⟩ := invokeRetype_frame hret
  have hsize : gen.userSize < 2 ^ 32 := by
    have := reg.a5.toNat_lt
    rw [hgen, Nat.shiftRight_eq_div_pow]
    omega
  refine hI.insertCaps hP ?_ hsize (hI.setCap _ _ _ (hP.untyped (hc.trans hk)) hs) hins
  refine hnew.imp_right fun hnew => ?_
  obtain ⟨a, b, hapart⟩ := hnew _ hcap k c' gen hkind hret
  exact ⟨a, b, hapart.toBetween, hapart.sized, hapart.clear⟩

end SlotStable

/-! ## Mappings -/

/-- Survives also what the mapping operations write, whatever it is. -/
structure MapStable (cfg : Config) (P : CapProp) (I : KState → Prop) : Prop
    extends CapStable cfg P I where
  mem : ∀ s m, I s → I { s with mem := m }
  root : ∀ s a, I s → I { s with rooted := a :: s.rooted }

theorem CapRule.mapStable {P : CapProp} (hP : CapRule P) (cfg : Config) :
    MapStable cfg P (CapsAll P) where
  toCapStable := hP.capStable cfg
  mem _ _ hs := hs
  root _ _ hs c hc := hP.mono (List.Subset.refl _) (List.subset_cons_self ..) (hs c hc)

/-- The word that an operation on page tables writes. -/
theorem writePte_ok {cfg : Config} {a : Nat} {pte : UInt64} {s s' : KState} {u : Unit} :
    writePte cfg a pte s = .ok u s' ↔
      (s.isFrame a || cfg.isStaticTable a) = true ∧ s' = s.setWord a pte := by
  simp only [writePte, bind_ok, get_ok]
  constructor
  · rintro ⟨_, _, ⟨rfl, rfl⟩, h⟩
    split at h
    · next ha => exact ⟨ha, (modify_ok.1 h).symm⟩
    · exact (throw_ok.1 h).elim
  · rintro ⟨ha, rfl⟩
    exact ⟨s, s, ⟨rfl, rfl⟩, by rw [if_pos ha]; rfl⟩

theorem pageTableMap_ok {cfg : Config} {table parent vaddr v : Nat} {s s' : KState} :
    PageTable.map cfg table parent vaddr s = .ok v s' ↔
      ∃ level a, PageTable.walk cfg parent vaddr s = .ok (level, a) ∧ level ≠ 0 ∧ v = level - 1 ∧
        writePte cfg a (Pte.write table pageV) s = .ok () s' := by
  simp only [PageTable.map, bind_ok, lift_ok]
  constructor
  · rintro ⟨⟨level, a⟩, _, ⟨hw, rfl⟩, h⟩
    dsimp only at h
    split at h
    · exact (throw_ok.1 h).elim
    · next hl =>
      simp only [bind_ok, pure_ok] at h
      obtain ⟨_, _, hwrite, rfl, rfl⟩ := h
      exact ⟨level, a, hw, hl, rfl, hwrite⟩
  · rintro ⟨level, a, hw, hl, rfl, hwrite⟩
    refine ⟨(level, a), s, ⟨hw, rfl⟩, ?_⟩
    dsimp only
    rw [if_neg hl]
    exact bind_ok.2 ⟨(), s', hwrite, rfl⟩

theorem readPte_ok {cfg : Config} {a : Nat} {pte : UInt64} {s : KState}
    (h : readPte cfg a s = .ok pte) : pte = s.mem a := by
  simp only [readPte, Query.bind_ok, Query.read_ok, exists_eq_left'] at h
  split at h
  · exact (Query.pure_ok.1 h).symm
  · exact (Query.throw_ok.1 h).elim

theorem pageMap_ok {cfg : Config} {page parent vaddr flags : Nat} {s s' : KState} {u : Unit}
    (h : Page.map cfg page parent vaddr flags s = .ok u s') :
    ∃ a, PageTable.walk cfg parent vaddr s = .ok (0, a) ∧ Pte.isValid (s.mem a) = false ∧
      writePte cfg a (Pte.write page (flags ||| pageV)) s = .ok () s' := by
  simp only [Page.map, bind_ok, lift_ok] at h
  obtain ⟨⟨level, a⟩, _, ⟨hw, rfl⟩, h⟩ := h
  dsimp only at h
  split at h
  · exact (throw_ok.1 h).elim
  · next hl =>
    simp only [bind_ok, lift_ok] at h
    obtain ⟨pte, _, ⟨hpte, rfl⟩, h⟩ := h
    obtain rfl := readPte_ok hpte
    split at h
    · exact (throw_ok.1 h).elim
    · next hvalid => exact ⟨a, by rw [hw, not_not.1 hl], by simpa using hvalid, h⟩

theorem pageUnmap_ok {cfg : Config} {page parent vaddr : Nat} {s s' : KState} {u : Unit}
    (h : Page.unmap cfg page parent vaddr s = .ok u s') :
    ∃ a, PageTable.walk cfg parent vaddr s = .ok (0, a) ∧ Pte.isValid (s.mem a) = true ∧
      toKernelV page = toKernelV (Pte.getAddress (s.mem a)) ∧ writePte cfg a 0 s = .ok () s' := by
  simp only [Page.unmap, bind_ok, lift_ok] at h
  obtain ⟨⟨level, a⟩, _, ⟨hw, rfl⟩, h⟩ := h
  dsimp only at h
  split at h
  · exact (throw_ok.1 h).elim
  · next hl =>
    simp only [bind_ok, lift_ok] at h
    obtain ⟨pte, _, ⟨hpte, rfl⟩, h⟩ := h
    obtain rfl := readPte_ok hpte
    split at h
    · exact (throw_ok.1 h).elim
    · next hvalid =>
      split at h
      · exact (throw_ok.1 h).elim
      · next heq => exact ⟨a, by rw [hw, not_not.1 hl], by simpa using hvalid, not_not.1 heq, h⟩

theorem pageCapMap_ok {cfg : Config} {c c' root : CapabilityData} {vaddr flags : Nat}
    {s s' : KState} (h : PageCap.map cfg c root vaddr flags s = .ok c' s') :
    c.isMapped = false ∧ c' = c.setMapped vaddr ∧ ∃ a,
      PageTable.walk cfg root.getFrame vaddr s = .ok (0, a) ∧ Pte.isValid (s.mem a) = false ∧
      (s.isFrame a || cfg.isStaticTable a) = true ∧
      s' = s.setWord a (Pte.write c.getFrame (flags ||| pageV)) := by
  simp only [PageCap.map, sfence, bind_ok, liftExcept_ok, pure_ok, require_ok,
    Bool.not_eq_true'] at h
  obtain ⟨_, _, ⟨hm, rfl⟩, _, s₁, hmap, _, _, ⟨-, rfl⟩, rfl, rfl⟩ := h
  obtain ⟨a, hwalk, hvalid, hwrite⟩ := pageMap_ok hmap
  exact ⟨hm, rfl, a, hwalk, hvalid, writePte_ok.1 hwrite⟩

theorem pageCapUnmap_ok {cfg : Config} {c c' root : CapabilityData} {s s' : KState}
    (h : PageCap.unmap cfg c root s = .ok c' s') :
    c.isMapped = true ∧ c' = c.setUnmapped ∧ ∃ a,
      PageTable.walk cfg root.getFrame c.getMappedAddress s = .ok (0, a) ∧
      Pte.isValid (s.mem a) = true ∧ toKernelV c.getFrame = toKernelV (Pte.getAddress (s.mem a)) ∧
      (s.isFrame a || cfg.isStaticTable a) = true ∧ s' = s.setWord a 0 := by
  simp only [PageCap.unmap, bind_ok, liftExcept_ok, pure_ok, require_ok] at h
  obtain ⟨_, _, ⟨hm, rfl⟩, _, s₁, hmap, rfl, rfl⟩ := h
  obtain ⟨a, hwalk, hvalid, heq, hwrite⟩ := pageUnmap_ok hmap
  exact ⟨hm, rfl, a, hwalk, hvalid, heq, writePte_ok.1 hwrite⟩

theorem pageTableCapMap_ok {cfg : Config} {c c' root : CapabilityData} {vaddr v : Nat}
    {s s' : KState} (h : PageTableCap.map cfg c root vaddr s = .ok (c', v) s') :
    c.isMapped = false ∧ c' = c.setMapped vaddr ∧ ∃ level a,
      PageTable.walk cfg root.getFrame vaddr s = .ok (level, a) ∧ level ≠ 0 ∧ v = level - 1 ∧
      (s.isFrame a || cfg.isStaticTable a) = true ∧
      s' = s.setWord a (Pte.write c.getFrame pageV) := by
  simp only [PageTableCap.map, bind_ok, liftExcept_ok, pure_ok, pageTableMap_ok, require_ok,
    Bool.not_eq_true'] at h
  obtain ⟨_, _, ⟨hm, rfl⟩, _, s₁, ⟨level, a, hwalk, hl, rfl, hwrite⟩, hc', rfl⟩ := h
  obtain ⟨rfl, rfl⟩ := Prod.mk.inj hc'
  exact ⟨hm, rfl, level, a, hwalk, hl, rfl, writePte_ok.1 hwrite⟩

/-- The address that an invocation on a page or a page table walks. -/
def walkVaddr? (invLabel : InvLabel) (reg : Registers) (c : CapabilityData) : Option Nat :=
  match c.getCapType, invLabel with
  | .ok .page, .pageMap => some reg.a5.toNat
  | .ok .page, .pageUnMap => some c.getMappedAddress
  | .ok .pageTable, .pageTableMap => some reg.a5.toNat
  | _, _ => none

theorem lookupCap_ok {cfg : Config} {rootCnode c : CapabilityData} {ptr depth slot : Nat}
    {k : CapabilityType} {s : KState}
    (h : lookupCap cfg rootCnode ptr depth k s = .ok (slot, c)) :
    s.isSlot slot = true ∧ s.capAt slot = some c ∧ c.getCapType = .ok k := by
  simp only [lookupCap, Query.bind_ok, Query.lift_ok, occupied_ok, Query.pure_ok, Prod.mk.injEq,
    CapabilityData.tryRefAs_ok] at h
  obtain ⟨_, -, e, ⟨hslot, he⟩, _, hk, rfl, rfl⟩ := h
  exact ⟨hslot, by rw [KState.capAt, he]; rfl, hk⟩

/-- **An invocation on a page** maps it into the table it is given, at an entry that is free, or
clears the entry of the address that the capability records, if the page is there. -/
theorem invokePage_cases {cfg : Config} {invLabel : InvLabel} {reg : Registers}
    {rootCnode c : CapabilityData} {slot : Nat} {s s' : KState} {v : Option Nat}
    (h : invokePage cfg invLabel reg rootCnode slot c s = .ok v s') :
    ∃ p root a, lookupCap cfg rootCnode reg.a3.toNat (reg.a4.toNat % 2 ^ 32) .pageTable s =
        .ok (p, root) ∧ (s.isFrame a || cfg.isStaticTable a) = true ∧
      ((invLabel = .pageMap ∧ c.isMapped = false ∧
          PageTable.walk cfg root.getFrame reg.a5.toNat s = .ok (0, a) ∧
          Pte.isValid (s.mem a) = false ∧
          s' = (s.setWord a (Pte.write c.getFrame
            ((pageU ||| getUserFlags reg.a6.toNat) ||| pageV))).setCap slot
              (c.setMapped reg.a5.toNat)) ∨
        (invLabel = .pageUnMap ∧ c.isMapped = true ∧
          PageTable.walk cfg root.getFrame c.getMappedAddress s = .ok (0, a) ∧
          Pte.isValid (s.mem a) = true ∧
          toKernelV c.getFrame = toKernelV (Pte.getAddress (s.mem a)) ∧
          s' = (s.setWord a 0).setCap slot c.setUnmapped)) := by
  unfold invokePage at h
  split at h
  · simp only [bind_ok, lift_ok, liftExcept_ok, writeCap, modify_ok, pure_ok] at h
    obtain ⟨_, _, ⟨-, rfl⟩, ⟨p, root⟩, _, ⟨hroot, rfl⟩, c, _, hmap, _, _, rfl, rfl, rfl⟩ := h
    obtain ⟨hm, rfl, a, hwalk, hvalid, ha, rfl⟩ := pageCapMap_ok hmap
    exact ⟨p, root, a, hroot, ha, .inl ⟨rfl, hm, hwalk, hvalid, rfl⟩⟩
  · simp only [bind_ok, lift_ok, writeCap, modify_ok, pure_ok] at h
    obtain ⟨⟨p, root⟩, _, ⟨hroot, rfl⟩, c, _, hunmap, _, _, rfl, rfl, rfl⟩ := h
    obtain ⟨hm, rfl, a, hwalk, hvalid, heq, ha, rfl⟩ := pageCapUnmap_ok hunmap
    exact ⟨p, root, a, hroot, ha, .inr ⟨rfl, hm, hwalk, hvalid, heq, rfl⟩⟩
  · exact (throw_ok.1 h).elim

/-- A page invocation writes one entry at the end of a walk of the table it is given. -/
theorem invokePage_ok {cfg : Config} {invLabel : InvLabel} {reg : Registers}
    {rootCnode pageCap : CapabilityData} {slot : Nat} {s s' : KState} {v : Option Nat}
    (hk : pageCap.getCapType = .ok .page)
    (h : invokePage cfg invLabel reg rootCnode slot pageCap s = .ok v s') :
    ∃ vaddr p root a w d, walkVaddr? invLabel reg pageCap = some vaddr ∧
      lookupCap cfg rootCnode reg.a3.toNat (reg.a4.toNat % 2 ^ 32) .pageTable s = .ok (p, root) ∧
      PageTable.walk cfg root.getFrame vaddr s = .ok (0, a) ∧
      (s.isFrame a || cfg.isStaticTable a) = true ∧
      s' = (s.setWord a w).setCap slot (pageCap.setCapDepVal d) := by
  obtain ⟨p, root, a, hroot, ha, ⟨rfl, -, hwalk, -, rfl⟩ | ⟨rfl, -, hwalk, -, -, rfl⟩⟩ :=
    invokePage_cases h
  · exact ⟨_, p, root, a, _, _, by simp only [walkVaddr?, hk], hroot, hwalk, ha, rfl⟩
  · exact ⟨_, p, root, a, _, _, by simp only [walkVaddr?, hk], hroot, hwalk, ha, rfl⟩

/-- The state after the table at `f` was made a root. -/
def KState.madeRoot (s : KState) (cfg : Config) (f : Nat) : KState :=
  { s.copyMem f (imagePhys cfg.kernelVmRoot) pageSize with rooted := f :: s.rooted }

theorem makeAsRoot_ok {cfg : Config} {c c' : CapabilityData} {s s' : KState}
    (h : PageTableCap.makeAsRoot cfg c s = .ok c' s') :
    c.isMapped = false ∧ s.isObject .pageTable c.getFrame = true ∧
      c' = (c.setMapped (toKernelV c.getAddress)).setRoot ∧
      s' = s.madeRoot cfg c.getFrame := by
  simp only [PageTableCap.makeAsRoot, PageTable.copyGlobalMapping, bind_ok, liftExcept_ok,
    require_ok, get_ok, modify_ok, pure_ok, Bool.not_eq_true'] at h
  obtain ⟨_, _, ⟨hm, rfl⟩, _, _, ⟨_, _, ⟨rfl, rfl⟩, hcopy⟩, _, _, rfl, rfl, rfl⟩ := h
  split at hcopy
  · next ho =>
    rw [modify_ok] at hcopy
    subst hcopy
    exact ⟨hm, ho, rfl, rfl⟩
  · exact (throw_ok.1 hcopy).elim

/-- An invocation on a page table links it into the table it is given, or makes it a root. -/
theorem invokePageTable_ok {cfg : Config} {invLabel : InvLabel} {reg : Registers}
    {rootCnode c : CapabilityData} {slot : Nat} {s s' : KState} {v : Option Nat}
    (h : invokePageTable cfg invLabel reg rootCnode slot c s = .ok v s') :
    c.isMapped = false ∧
    ((invLabel = .pageTableMap ∧ ∃ p root level a,
      lookupCap cfg rootCnode reg.a3.toNat (reg.a4.toNat % 2 ^ 32) .pageTable s = .ok (p, root) ∧
      PageTable.walk cfg root.getFrame reg.a5.toNat s = .ok (level, a) ∧ level ≠ 0 ∧
      (s.isFrame a || cfg.isStaticTable a) = true ∧
      s' = (s.setWord a (Pte.write c.getFrame pageV)).setCap slot (c.setMapped reg.a5.toNat)) ∨
    (invLabel = .pageTableMakeRoot ∧ s.isObject .pageTable c.getFrame = true ∧
      s' = (s.madeRoot cfg c.getFrame).setCap slot
        (c.setMapped (toKernelV c.getAddress)).setRoot)) := by
  unfold invokePageTable at h
  split at h
  · simp only [bind_ok, lift_ok, liftExcept_ok, writeCap, modify_ok, pure_ok] at h
    obtain ⟨_, _, ⟨-, rfl⟩, ⟨p, root⟩, _, ⟨hroot, rfl⟩, ⟨c', lv⟩, _, hmap, _, _, rfl, rfl, rfl⟩ := h
    obtain ⟨hm, rfl, level, a, hwalk, hl, rfl, ha, rfl⟩ := pageTableCapMap_ok hmap
    exact ⟨hm, .inl ⟨rfl, p, root, level, a, hroot, hwalk, hl, ha, rfl⟩⟩
  · exact (throw_ok.1 h).elim
  · simp only [bind_ok, writeCap, modify_ok, pure_ok] at h
    obtain ⟨c', _, hroot, _, _, rfl, rfl, rfl⟩ := h
    obtain ⟨hm, ho, rfl, rfl⟩ := makeAsRoot_ok hroot
    exact ⟨hm, .inr ⟨rfl, ho, rfl⟩⟩
  · exact (throw_ok.1 h).elim

namespace MapStable

variable {cfg : Config} {P : CapProp} {I : KState → Prop} (hI : MapStable cfg P I) (hP : CapRule P)
  {s s' : KState} {invLabel : InvLabel} {reg : Registers} {rootCnode c : CapabilityData}
  {slot : Nat}
  {v : Option Nat}

include hI hP

theorem invokePage (hc : c.getCapType = .ok .page) (hPc : P s.objects s.rooted c) (hs : I s)
    (h : invokePage cfg invLabel reg rootCnode slot c s = .ok v s') : I s' := by
  obtain ⟨_, p, root, a, w, d, -, -, -, -, rfl⟩ := invokePage_ok hc h
  refine hI.setCap _ _ _ (hP.retag d ?_ ?_ hPc) (hI.mem s _ hs) <;> simp [hc]

theorem invokePageTable (hc : c.getCapType = .ok .pageTable) (hPc : P s.objects s.rooted c)
    (hs : I s) (h : invokePageTable cfg invLabel reg rootCnode slot c s = .ok v s') : I s' := by
  obtain ⟨-, ⟨-, p, root, level, a, -, -, -, -, rfl⟩ | ⟨-, -, rfl⟩⟩ := invokePageTable_ok h
  · exact hI.setCap _ _ _ (hP.mapped _ hc hPc) (hI.mem s _ hs)
  · refine hI.setCap _ _ _ (hP.root _ hc (List.mem_cons_self ..) ?_) (hI.root _ _ (hI.mem s _ hs))
    exact hP.mono (List.Subset.refl _) (List.subset_cons_self ..) hPc

end MapStable

/-! ## Threads -/

/-- The capabilities that the thread holds and its saved `sstatus` are as they were. -/
structure ThreadInfo.Alike (t t' : ThreadInfo) : Prop where
  held : ∀ slot : TcbSlot, slot.get t' = slot.get t
  sstatus : t'.registers.sstatus = t.registers.sstatus

theorem ThreadInfo.Alike.of_eq {t t' : ThreadInfo} (hc : t'.rootCnode = t.rootCnode)
    (hv : t'.vspace = t.vspace) (hi : t'.ipcBuffer = t.ipcBuffer)
    (hs : t'.registers.sstatus = t.registers.sstatus) : t.Alike t' where
  held slot := by cases slot <;> assumption
  sstatus := hs

/-- And so is its time slice. -/
structure ThreadInfo.Steady (t t' : ThreadInfo) : Prop extends ThreadInfo.Alike t t' where
  timeSlice : t'.timeSlice = t.timeSlice

theorem ThreadInfo.Steady.of_eq {t t' : ThreadInfo} (hc : t'.rootCnode = t.rootCnode)
    (hv : t'.vspace = t.vspace) (hi : t'.ipcBuffer = t.ipcBuffer)
    (hs : t'.registers.sstatus = t.registers.sstatus) (ht : t'.timeSlice = t.timeSlice) :
    t.Steady t' := ⟨.of_eq hc hv hi hs, ht⟩

/-- Survives what the endpoints and the notifications write. -/
structure ThreadSteady (I : KState → Prop) : Prop where
  tcb : ∀ s p t t', s.tcbs p = some t → t.Steady t' → I s → I (s.setTcb p t')
  queues : ∀ s e n r, I s → I { s with endpoints := e, notifications := n, runqueue := r }
  copy : ∀ s dst src, s.isObject .page dst = true → I s → I (s.copyMem dst src (8 * ipcBufferWords))

theorem keeps_scheduleIf {I : KState → Prop} (hreq : ∀ s b, I s → I { s with requested := b })
    (blocked : Bool) : Keeps I (scheduleIf blocked) :=
  .ite (.modify fun s hs => hreq s true hs) (.pure _)

namespace ThreadSteady

variable {cfg : Config} {I : KState → Prop} (hI : ThreadSteady I)

include hI

theorem updateTcb {p : Nat} {f : ThreadInfo → ThreadInfo} (hf : ∀ t : ThreadInfo, t.Steady (f t)) :
    Keeps I (updateTcb p f) :=
  keeps_updateTcb fun s t ht hs => hI.tcb s p t _ ht (hf t) hs

theorem push (p : Nat) : Keeps I (push p) :=
  .modify fun s hs => hI.queues s s.endpoints s.notifications _ hs

theorem setA1 (p : Nat) (v : UInt64) : Keeps I (Zoeax.updateTcb p (·.setA1 v)) :=
  hI.updateTcb fun _ => .of_eq rfl rfl rfl rfl rfl

theorem resume (p : Nat) : Keeps I (resume p) :=
  .bind (hI.updateTcb fun _ => .of_eq rfl rfl rfl rfl rfl) fun _ => hI.push p

theorem blockThread (p : Nat) : Keeps I (blockThread p) :=
  hI.updateTcb fun _ => .of_eq rfl rfl rfl rfl rfl

theorem copyIpcBuffer (src dst : Nat) : Keeps I (copyIpcBuffer src dst) := by
  refine .get_bind fun s hs => ?_
  split
  · next h => exact hI.copy s dst src (Bool.and_eq_true _ _ ▸ h).2 hs
  · exact hs

theorem setIpcMsg (p : Nat) (senderRef : Option Nat) : Keeps I (setIpcMsg p senderRef) :=
  .bind (.lift _) fun t => by
    split
    · exact hI.copyIpcBuffer ..
    · exact .pure _

theorem transfer (sender receiver : Nat) : Keeps I (Endpoint.transfer sender receiver) :=
  .bind (.lift _) fun _ => .bind (hI.setIpcMsg ..) fun _ => hI.setA1 ..

theorem setEndpoint (p : Nat) (ep : Endpoint) :
    Keeps I (modify (·.setEndpoint p ep) : KM Unit) :=
  .modify fun s hs => hI.queues s _ s.notifications s.runqueue hs

theorem setNotification (p : Nat) (n : Notification) :
    Keeps I (modify (·.setNotification p n) : KM Unit) :=
  .modify fun s hs => hI.queues s s.endpoints _ s.runqueue hs

theorem enqueue (ep thread : Nat) : Keeps I (Endpoint.enqueue ep thread) :=
  .bind (hI.blockThread _) fun _ => .bind (.lift _) fun _ => hI.setEndpoint ..

theorem endpointSend (ep thread : Nat) : Keeps I (Endpoint.send ep thread) :=
  .bind (.lift _) fun e => .bind (hI.setEndpoint ..) fun _ => by
    cases (e.popFromQueue .send).1 with
    | some r => exact .bind (hI.transfer ..) fun _ => .bind (hI.resume _) fun _ => .pure _
    | none => exact .bind (hI.enqueue ..) fun _ => .pure _

theorem endpointRecv (ep thread : Nat) : Keeps I (Endpoint.recv ep thread) :=
  .bind (.lift _) fun e => .bind (hI.setEndpoint ..) fun _ => by
    cases (e.popFromQueue .recv).1 with
    | some r => exact .bind (hI.transfer ..) fun _ => .bind (hI.resume _) fun _ => .pure _
    | none => exact .bind (hI.enqueue ..) fun _ => .pure _

theorem sendSignal (ntfn : Nat) (val : UInt64) : Keeps I (Notification.sendSignal ntfn val) :=
  .bind (.lift _) fun n => by
    split
    · exact .bind (hI.setNotification ..) fun _ => .bind (hI.setA1 ..) fun _ => hI.resume _
    · exact hI.setNotification ..

theorem waitSignal (ntfn thread : Nat) : Keeps I (Notification.waitSignal ntfn thread) :=
  .bind (.lift _) fun _ => .ite
    (.bind (hI.setA1 ..) fun _ => .bind (hI.setNotification ..) fun _ => .pure _)
    (.bind (hI.blockThread _) fun _ => .bind (hI.setNotification ..) fun _ => .pure _)

theorem returnSyscall (thread : Nat) (ret : Except KernelError (Option Nat)) :
    Keeps I (returnSyscall cfg thread ret) :=
  .bind (.lift _) fun _ => .bind (.liftExcept _) fun _ => hI.updateTcb fun t =>
    .of_eq rfl rfl rfl (by
      cases ret with
      | error e => rfl
      | ok v => cases v <;> rfl) rfl

section

variable (hreq : ∀ s b, I s → I { s with requested := b })

include hreq

theorem invokeEndPoint (invLabel : InvLabel) (current : Nat) (c : CapabilityData) :
    Keeps I (invokeEndPoint invLabel current c) := by
  unfold Zoeax.invokeEndPoint
  split
  · refine .bind (.bind (hI.updateTcb fun _ => .of_eq rfl rfl rfl rfl rfl) fun _ =>
      hI.endpointSend ..) ?_
    exact fun _ => .bind (keeps_scheduleIf hreq _) fun _ => .pure _
  · exact .bind (hI.endpointRecv ..) fun _ => .bind (keeps_scheduleIf hreq _) fun _ => .pure _
  · exact .throw _

theorem invokeNotification (invLabel : InvLabel) (current : Nat) (c : CapabilityData) :
    Keeps I (invokeNotification invLabel current c) := by
  unfold Zoeax.invokeNotification
  split
  · exact .bind (hI.sendSignal ..) fun _ => .pure _
  · exact .bind (hI.waitSignal ..) fun _ => .bind (keeps_scheduleIf hreq _) fun _ => .pure _
  · exact .throw _

end

end ThreadSteady

/-- And what is done to the time slices. -/
structure ThreadQuiet (I : KState → Prop) : Prop where
  tcb : ∀ s p t t', s.tcbs p = some t → t.Alike t' → I s → I (s.setTcb p t')
  queues : ∀ s e n r, I s → I { s with endpoints := e, notifications := n, runqueue := r }
  copy : ∀ s dst src, s.isObject .page dst = true → I s → I (s.copyMem dst src (8 * ipcBufferWords))

namespace ThreadQuiet

variable {I : KState → Prop} (hI : ThreadQuiet I)

include hI

theorem steady : ThreadSteady I where
  tcb s p t t' ht h := hI.tcb s p t t' ht h.toAlike
  queues := hI.queues
  copy := hI.copy

theorem setTimeout (p n : Nat) : Keeps I (updateTcb p (·.setTimeout n)) :=
  keeps_updateTcb fun s t ht hs => hI.tcb s p t _ ht (.of_eq rfl rfl rfl rfl) hs

end ThreadQuiet

/-- Survives what else is done with threads until the scheduler runs. -/
structure TrapStable (I : KState → Prop) : Prop extends ThreadQuiet I where
  request : ∀ s b, I s → I { s with requested := b }

namespace TrapStable

variable {cfg : Config} {I : KState → Prop} (hI : TrapStable I)

include hI

theorem requireSchedule : Keeps I requireSchedule := .modify fun s hs => hI.request s true hs

theorem timerTick : Keeps I (timerTick cfg) :=
  .bind .get fun _ => .ite (.pure _) <| .bind (.lift _) fun _ => .bind (.liftExcept _) fun _ =>
    .bind (hI.setTimeout ..) fun _ => .ite hI.requireSchedule (.pure _)

end TrapStable

/-- Survives what the scheduler writes, too. -/
structure ThreadStable (I : KState → Prop) : Prop extends TrapStable I where
  vspace : ∀ s a, I s → I { s with satp := a }
  switch : ∀ s p, I s → I { s with curRegBase := p, current := p, requested := false }

namespace ThreadStable

variable {cfg : Config} {I : KState → Prop} (hI : ThreadStable I)

include hI

theorem switchTo (next : Nat) : Keeps I (switchTo cfg next) := by
  refine .bind (.bind (.lift _) fun t => ?_) fun _ => .modify fun s hs => hI.switch s next hs
  have vspace : ∀ a, Keeps I (modify fun s => { s with satp := a } : KM Unit) := fun a =>
    .modify fun s hs => hI.vspace s a hs
  cases t.vspace with
  | some e => exact .ite (vspace _) (vspace _)
  | none => exact vspace _

theorem schedule : Keeps I (schedule cfg) := by
  refine .bind .get fun s => .ite (.pure _) ?_
  cases s.runqueue with
  | cons next rest =>
    refine .bind (.modify fun s hs => hI.queues s s.endpoints s.notifications rest hs) fun _ => ?_
    refine .bind (hI.setTimeout ..) fun _ => .bind (.bind (.lift _) fun t => ?_) fun _ =>
      hI.switchTo _
    exact .ite (hI.steady.push _) (.pure _)
  | nil => exact .bind (.lift _) fun _ => .ite (hI.setTimeout ..) (hI.switchTo _)

end ThreadStable

theorem capsAll_threadStable (P : CapProp) : ThreadStable (CapsAll P) where
  tcb _ _ _ _ ht ha hs := hs.setTcb fun slot _ he => hs.held ht ((ha.held slot).symm.trans he)
  queues _ _ _ _ hs := hs
  request _ _ hs := hs
  vspace _ _ hs := hs
  switch _ _ hs := hs
  copy _ _ _ _ hs := hs

theorem CapsAll.setRegisters {P : CapProp} {s : KState} (hs : CapsAll P s) {p : Nat}
    {t : ThreadInfo} (ht : s.tcbs p = some t) (registers : Registers) :
    CapsAll P (s.setTcb p { t with registers }) :=
  hs.setTcb fun slot e he => hs.held ht (show slot.get t = some e by cases slot <;> exact he)

end Zoeax
