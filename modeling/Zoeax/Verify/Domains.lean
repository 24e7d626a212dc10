import Zoeax.Verify.Protection

/-!
# Domains

Physical memory is divided among domains, and a policy says which of them may use the endpoints and
notifications of another one. A state is `Sealed` when no object straddles domains, capabilities and
page tables do not lead out of the domain that they are in, other than to such endpoints and
notifications, and whoever waits at one of those may use it.

Lookups that start in a domain stay in it (`Sealed.lookupEntry`). `Acts e` is what the operations of
a thread of the domain `e` keep: the state is sealed, and nothing has changed in a domain with which
`e` has no endpoint or notification in common. Here are the writes that the operations are made of;
`Verify/Isolation.lean` has the invocations.
-/

namespace Zoeax

open Lib Exec
open CapabilityType (entrySize)
open PageTable (entry)

/-! ## Policies -/

/-- The domain of every physical address. `uses d x`: threads of `d` may send to and wait at the
endpoints and notifications in the memory of `x`. -/
structure Policy (δ : Type) where
  dom : Nat → δ
  uses : δ → δ → Prop
  self : ∀ d, uses d d

namespace Policy

variable {δ : Type} (pol : Policy δ)

/-- The domain of what the kernel sees at `p`. -/
def owner (p : Nat) : δ := pol.dom (toPhys p)

/-- Threads of both domains may use the same endpoints and notifications. -/
def Meets (d e : δ) : Prop := ∃ x, pol.uses d x ∧ pol.uses e x

theorem meets_self (d : δ) : pol.Meets d d := ⟨d, pol.self d, pol.self d⟩

/-- Page tables that do not lead out of domains. -/
theorem dom_of_reach {f g : Nat}
    (h : Relation.ReflTransGen (fun f g => pol.dom f = pol.dom g) f g) : pol.dom g = pol.dom f := by
  induction h with
  | refl => rfl
  | tail _ hedge ih => exact hedge.symm.trans ih

theorem meets_of_uses {d x : δ} (h : pol.uses d x) : pol.Meets d x := ⟨x, h, pol.self x⟩

end Policy

variable {cfg : Config} {δ : Type} {pol : Policy δ} {d e : δ} {s s' : KState}

/-- The capability does not lead out of the domain, other than to endpoints and notifications that
it may use. An untyped capability leads to what is left of its block. -/
def CapabilityData.Within (pol : Policy δ) (d : δ) (c : CapabilityData) : Prop :=
  match c.getCapType with
  | .ok .untyped => c.BlockWF ∧ ∀ a, c.freePhys ≤ a → a < c.blockEnd → pol.dom a = d
  | .ok .endPoint => pol.uses d (pol.dom c.getFrame)
  | .ok .notification => pol.uses d (pol.dom c.getFrame)
  | _ => pol.dom c.getFrame = d

namespace CapabilityData.Within

variable {c c' : CapabilityData}

theorem setCapDepVal (h : c.Within pol d) (hk : c.getCapType ≠ .ok .untyped) (v : UInt64) :
    (c.setCapDepVal v).Within pol d := by
  unfold Within at h ⊢
  rw [getCapType_setCapDepVal]
  cases hc : c.getCapType with
  | error _ => rwa [hc] at h
  | ok k =>
    rw [hc] at h hk
    cases k with
    | untyped => exact absurd rfl hk
    | _ => exact h

/-- Capabilities of these types are for objects of the domain. -/
theorem frame (h : c.Within pol d) {k : CapabilityType} (hc : c.getCapType = .ok k)
    (hk : k = .cNode ∨ k = .tcb ∨ k = .page ∨ k = .pageTable) : pol.dom c.getFrame = d := by
  rw [Within, hc] at h
  rcases hk with rfl | rfl | rfl | rfl <;> exact h

theorem channel (h : c.Within pol d) {k : CapabilityType} (hc : c.getCapType = .ok k)
    (hk : k = .endPoint ∨ k = .notification) : pol.uses d (pol.dom c.getFrame) := by
  rw [Within, hc] at h
  rcases hk with rfl | rfl <;> exact h

/-- The capability of a new object of the domain. -/
theorem of_frame {k : CapabilityType} (hc : c.getCapType = .ok k) (hk : k ≠ .untyped)
    (h : pol.dom c.getFrame = d) : c.Within pol d := by
  rw [Within, hc]
  cases k with
  | untyped => exact absurd rfl hk
  | endPoint => exact h ▸ pol.self d
  | notification => exact h ▸ pol.self d
  | _ => exact h

end CapabilityData.Within

theorem CapabilityData.Within.newCap {c c' : CapabilityData} {invLabel : InvLabel} {reg : Registers}
    (h : c.Within pol d) (hd : c.derive = .ok c') : (newCap invLabel reg c').Within pol d := by
  obtain ⟨v, rfl⟩ := derive_eq hd
  have hk := derive_ne_untyped hd
  unfold Zoeax.newCap
  split
  · exact h.setCapDepVal hk _
  · exact h.setCapDepVal hk v

/-! ## Sealed states -/

structure Sealed (cfg : Config) (pol : Policy δ) (s : KState) : Prop where
  objects : ∀ o ∈ s.objects, ∀ a, o.addr ≤ a → a < o.addr + o.size → pol.dom a = pol.dom o.addr
  cnodes : ∀ o ∈ s.objects, o.kind = .cNode → o.size = 2 ^ o.userSize * entrySize
  slots : ∀ p c, cfg.isLocal p = false → s.capAt p = some c → c.Within pol (pol.owner p)
  held : ∀ p t (slot : TcbSlot) e, s.tcbs p = some t → slot.get t = some e →
    pol.dom e.cap.getFrame = pol.owner p
  entries : Entries (fun f g => pol.dom f = pol.dom g) s
  endpoints : ∀ p ep, s.endpoints p = some ep → ∀ q ∈ ep.queue, pol.uses (pol.owner q) (pol.owner p)
  notifications : ∀ p n, s.notifications p = some n → ∀ q ∈ n.waitQueue,
    pol.uses (pol.owner q) (pol.owner p)

namespace Sealed

theorem setTcb (hs : Sealed cfg pol s) {p : Nat} {t t' : ThreadInfo} (ht : s.tcbs p = some t)
    (h : ∀ (slot : TcbSlot) e, slot.get t' = some e →
      slot.get t = some e ∨ pol.dom e.cap.getFrame = pol.owner p) :
    Sealed cfg pol (s.setTcb p t') where
  objects := hs.objects
  cnodes := hs.cnodes
  slots := hs.slots
  held q u slot e hq he := by
    rw [KState.tcbs_setTcb] at hq
    split at hq
    · next heq =>
      obtain rfl := Option.some.inj hq
      rw [heq]
      exact (h slot e he).elim (hs.held p t slot e ht) id
    · exact hs.held q u slot e hq he
  entries := hs.entries.of_eq rfl rfl rfl
  endpoints := hs.endpoints
  notifications := hs.notifications

theorem setEndpoint (hs : Sealed cfg pol s) {p : Nat} {ep : Endpoint}
    (h : ∀ q ∈ ep.queue, pol.uses (pol.owner q) (pol.owner p)) :
    Sealed cfg pol (s.setEndpoint p ep) where
  objects := hs.objects
  cnodes := hs.cnodes
  slots := hs.slots
  held := hs.held
  entries := hs.entries.of_eq rfl rfl rfl
  endpoints q ep' hq := by
    simp only [KState.setEndpoint, Function.update_apply] at hq
    split at hq
    · next heq =>
      obtain rfl := Option.some.inj hq
      exact heq ▸ h
    · exact hs.endpoints q ep' hq
  notifications := hs.notifications

theorem setNotification (hs : Sealed cfg pol s) {p : Nat} {n : Notification}
    (h : ∀ q ∈ n.waitQueue, pol.uses (pol.owner q) (pol.owner p)) :
    Sealed cfg pol (s.setNotification p n) where
  objects := hs.objects
  cnodes := hs.cnodes
  slots := hs.slots
  held := hs.held
  entries := hs.entries.of_eq rfl rfl rfl
  endpoints := hs.endpoints
  notifications q n' hq := by
    simp only [KState.setNotification, Function.update_apply] at hq
    split at hq
    · next heq =>
      obtain rfl := Option.some.inj hq
      exact heq ▸ h
    · exact hs.notifications q n' hq

/-- Capabilities go into slots. -/
theorem setSlots (hs : Sealed cfg pol s) {slots : Nat → Option CNodeEntry}
    (h : ∀ p c, cfg.isLocal p = false → { s with slots := slots }.capAt p = some c →
      s.capAt p = some c ∨ c.Within pol (pol.owner p)) :
    Sealed cfg pol { s with slots := slots } where
  objects := hs.objects
  cnodes := hs.cnodes
  slots p c hp hc := (h p c hp hc).elim (hs.slots p c hp) id
  held := hs.held
  entries := hs.entries.of_eq rfl rfl rfl
  endpoints := hs.endpoints
  notifications := hs.notifications

/-- The memory of pages and page tables, and the list of roots. -/
theorem setMem (hs : Sealed cfg pol s) {mem : Nat → UInt64} {rooted : List Nat}
    (h : Entries (fun f g => pol.dom f = pol.dom g) { s with mem, rooted }) :
    Sealed cfg pol { s with mem, rooted } where
  objects := hs.objects
  cnodes := hs.cnodes
  slots := hs.slots
  held := hs.held
  entries := h
  endpoints := hs.endpoints
  notifications := hs.notifications

/-- A word in the memory of a domain. -/
theorem dom_frame (hs : Sealed cfg pol s) (hwf : HeapWF cfg s) {k : CapabilityType} {f a : Nat}
    (hk : k = .page ∨ k = .pageTable) (hf : s.isObject k f = true) (hle : f ≤ a)
    (hlt : a < f + 4096) : pol.dom a = pol.dom f := by
  obtain ⟨o, ho, rfl, rfl⟩ := KState.isObject_iff.1 hf
  have hsize := (hwf.frame_bounds ho hk).1
  exact hs.objects o ho a hle (by omega)

/-- The slots of a CNode are in the domain of the CNode. -/
theorem owner_slot (hs : Sealed cfg pol s) (hwf : HeapWF cfg s) {o : Object} (ho : o ∈ s.objects)
    {p : Nat} (hp : o.hasSlot p = true) : pol.owner p = pol.dom o.addr := by
  obtain ⟨-, hend, hlt, -⟩ := Object.lt_of_admissible (hwf.admissible o ho)
  have hram := cfg.freeRamEnd_le
  simp only [Object.hasSlot, Bool.and_eq_true, decide_eq_true_eq, Object.start,
    toKernelV_of_lt hlt, entrySize] at hp
  obtain ⟨⟨⟨-, hle⟩, hlast⟩, -⟩ := hp
  obtain ⟨x, rfl⟩ := Nat.exists_eq_add_of_le hle
  have haddr : toPhys (o.addr + kernelVAddrPfx + x) = o.addr + x := by
    rw [toPhys_eq, kernelVAddrPfx]
    rw [directMapEnd] at hram
    omega
  rw [Policy.owner, haddr]
  exact hs.objects o ho _ (by omega) (by omega)

end Sealed

/-! ## Lookups stay in the domain -/

/-- A capability for a CNode of the domain, with the radix of the CNode. -/
structure CNodeOf (pol : Policy δ) (d : δ) (s : KState) (c : CapabilityData) : Prop where
  capType : c.getCapType = .ok .cNode
  confined : Confined s.objects s.rooted c
  dom : pol.dom c.getFrame = d

theorem CNodeOf.object {c : CapabilityData} (h : CNodeOf pol d s c) (hwf : HeapWF cfg s) :
    ∃ o ∈ s.objects, o.kind = .cNode ∧ o.addr = c.getAddress ∧ o.userSize = c.radix ∧
      o.addr = c.getFrame := by
  obtain ⟨o, ho, hkind, haddr, hsize⟩ := h.confined.1 h.capType
  refine ⟨o, ho, hkind, haddr, hsize, ?_⟩
  rw [CapabilityData.getFrame, ← haddr,
    direct_of_lt (Object.lt_of_admissible (hwf.admissible o ho)).2.2.1]

namespace Sealed

variable {c : CapabilityData}

theorem lookupLoop (hs : Sealed cfg pol s) (hwf : HeapWF cfg s) (hcaps : CapsAll Confined s)
    {n ptr depth p : Nat} (hc : CNodeOf pol d s c) (h : c.lookupLoop cfg n ptr depth s = .ok p) :
    pol.owner p = d := by
  induction n generalizing c depth with
  | zero => cases h
  | succ n ih =>
    simp only [CapabilityData.lookupLoop, Query.bind_ok, Query.lift_ok, readSlot_ok] at h
    obtain ⟨⟨q, rem⟩, hstep, slot, ⟨hq, hslot⟩, h⟩ := h
    obtain ⟨o, ho, hkind, haddr, hsize, hframe⟩ := hc.object hwf
    have howner : pol.owner q = d :=
      (hs.owner_slot hwf ho (hasSlot_of_lookupStep hwf ho hkind haddr hsize hstep)).trans
        (hframe ▸ hc.dom)
    cases slot with
    | none =>
      obtain rfl := Query.pure_ok.1 h
      exact howner
    | some e =>
      dsimp only at h
      split at h
      · obtain rfl := Query.pure_ok.1 h
        exact howner
      · simp only [Query.bind_ok, Query.lift_ok] at h
        obtain ⟨k, hek, h⟩ := h
        split at h
        · next hcnode =>
          subst hcnode
          -- the next CNode is in the domain of the slot
          have hin := hs.slots q e.cap (hwf.not_isLocal hq) (congrArg (Option.map _) hslot)
          rw [howner] at hin
          exact ih ⟨hek, hcaps.of_slots hslot, hin.frame hek (.inl rfl)⟩ h
        · obtain rfl := Query.pure_ok.1 h
          exact howner

/-- **A lookup** from a CNode of the domain ends at a slot of the domain. -/
theorem lookupEntry (hs : Sealed cfg pol s) (hwf : HeapWF cfg s) (hcaps : CapsAll Confined s)
    {ptr depth p : Nat} (hc : CNodeOf pol d s c) (h : c.lookupEntryMut cfg ptr depth s = .ok p) :
    pol.owner p = d := hs.lookupLoop hwf hcaps hc h

theorem within (hs : Sealed cfg pol s) (hwf : HeapWF cfg s) {p : Nat} (hp : s.isSlot p = true)
    (hc : s.capAt p = some c) (hd : pol.owner p = d) : c.Within pol d :=
  hd ▸ hs.slots p c (hwf.not_isLocal hp) hc

theorem lookupCap (hs : Sealed cfg pol s) (hwf : HeapWF cfg s) (hcaps : CapsAll Confined s)
    {root : CapabilityData} {ptr depth p : Nat} {k : CapabilityType} (hroot : CNodeOf pol d s root)
    (h : lookupCap cfg root ptr depth k s = .ok (p, c)) : c.Within pol d := by
  obtain ⟨hslot, hcap, -⟩ := lookupCap_ok h
  simp only [Zoeax.lookupCap, Query.bind_ok, Query.lift_ok, Query.pure_ok] at h
  obtain ⟨q, hlook, e, -, _, -, hpair⟩ := h
  obtain ⟨rfl, -⟩ := Prod.mk.inj hpair
  exact hs.within hwf hslot hcap (hs.lookupEntry hwf hcaps hroot hlook)

/-- The window of a retype is in the domain of the CNode. -/
theorem getWritable (hs : Sealed cfg pol s) (hwf : HeapWF cfg s) {num index window : Nat}
    (hc : CNodeOf pol d s c) (h : c.getWritable cfg num index s = .ok window) :
    ∀ i < num, pol.owner (window + entrySize * i) = d := by
  intro i hi
  obtain ⟨o, ho, hkind, haddr, hsize, hframe⟩ := hc.object hwf
  have hwindow := getWritable_eq h
  simp only [CapabilityData.getWritable, CapabilityData.capacity, Query.bind_ok, Query.lift_ok,
    arith_ok, require_ok, decide_eq_true_eq] at h
  obtain ⟨capacity, hcap, _, hlt, -⟩ := h
  -- the CNode is small enough for its capacity not to overflow
  have hcnode := hs.cnodes o ho hkind
  obtain ⟨-, hend, -, -⟩ := Object.lt_of_admissible (hwf.admissible o ho)
  have hram := cfg.freeRamEnd_le
  rw [directMapEnd] at hram
  rw [hsize, entrySize] at hcnode
  obtain rfl : 2 ^ c.radix = capacity := by
    rw [Profile.pow, Profile.wrap_of_lt _ (by omega)] at hcap
    exact Option.some.inj hcap
  have hslot : o.hasSlot (o.start + entrySize * (index + i)) = true :=
    Object.hasSlot_of_lt hkind hcnode (by omega)
  have howner := hs.owner_slot hwf ho hslot
  rw [Object.start, haddr, Nat.mul_add, ← Nat.add_assoc, ← hwindow] at howner
  rw [howner, ← haddr, hframe, hc.dom]

end Sealed

/-! ## What a thread leaves alone -/

/-- Without the time slice, which the scheduler writes. -/
def ThreadInfo.untimed (t : ThreadInfo) : ThreadInfo := { t with timeSlice := 0 }

/-- What belongs to the domain is the same: the capabilities in its CNodes, its threads, endpoints,
notifications, pages and page tables. -/
structure Unchanged (cfg : Config) (pol : Policy δ) (d : δ) (s s' : KState) : Prop where
  caps : ∀ p, pol.owner p = d → cfg.isLocal p = false → s'.capAt p = s.capAt p
  tcbs : ∀ p, pol.owner p = d → (s'.tcbs p).map (·.untimed) = (s.tcbs p).map (·.untimed)
  endpoints : ∀ p, pol.owner p = d → s'.endpoints p = s.endpoints p
  notifications : ∀ p, pol.owner p = d → s'.notifications p = s.notifications p
  mem : ∀ a, pol.dom a = d → s'.mem a = s.mem a
  objects : ∀ o, pol.dom o.addr = d → (o ∈ s'.objects ↔ o ∈ s.objects)
  rooted : ∀ f, pol.dom f = d → (f ∈ s'.rooted ↔ f ∈ s.rooted)

namespace Unchanged

theorem refl (d : δ) (s : KState) : Unchanged cfg pol d s s where
  caps _ _ _ := rfl
  tcbs _ _ := rfl
  endpoints _ _ := rfl
  notifications _ _ := rfl
  mem _ _ := rfl
  objects _ _ := .rfl
  rooted _ _ := .rfl

theorem trans {s₁ s₂ s₃ : KState} (h : Unchanged cfg pol d s₁ s₂) (h' : Unchanged cfg pol d s₂ s₃) :
    Unchanged cfg pol d s₁ s₃ where
  caps p hp hl := (h'.caps p hp hl).trans (h.caps p hp hl)
  tcbs p hp := (h'.tcbs p hp).trans (h.tcbs p hp)
  endpoints p hp := (h'.endpoints p hp).trans (h.endpoints p hp)
  notifications p hp := (h'.notifications p hp).trans (h.notifications p hp)
  mem a ha := (h'.mem a ha).trans (h.mem a ha)
  objects o ho := (h'.objects o ho).trans (h.objects o ho)
  rooted f hf := (h'.rooted f hf).trans (h.rooted f hf)

/-- A thread of another domain, or a time slice. -/
theorem setTcb {s₁ : KState} (h : Unchanged cfg pol d s s₁) {p : Nat} {t t' : ThreadInfo}
    (ht : s₁.tcbs p = some t) (hp : pol.owner p ≠ d ∨ t'.untimed = t.untimed) :
    Unchanged cfg pol d s (s₁.setTcb p t') :=
  { h with
    tcbs := fun q hq => by
      rw [← h.tcbs q hq, KState.tcbs_setTcb]
      split
      · next heq =>
        subst heq
        rw [ht, Option.map_some, Option.map_some, hp.resolve_left (absurd hq)]
      · rfl }

theorem setEndpoint {s₁ : KState} (h : Unchanged cfg pol d s s₁) {p : Nat} (hp : pol.owner p ≠ d)
    (ep : Endpoint) : Unchanged cfg pol d s (s₁.setEndpoint p ep) :=
  { h with
    endpoints := fun q hq => by
      refine (Function.update_of_ne ?_ ..).trans (h.endpoints q hq)
      rintro rfl
      exact hp hq }

theorem setNotification {s₁ : KState} (h : Unchanged cfg pol d s s₁) {p : Nat}
    (hp : pol.owner p ≠ d) (n : Notification) : Unchanged cfg pol d s (s₁.setNotification p n) :=
  { h with
    notifications := fun q hq => by
      refine (Function.update_of_ne ?_ ..).trans (h.notifications q hq)
      rintro rfl
      exact hp hq }

theorem setSlots {s₁ : KState} (h : Unchanged cfg pol d s s₁) {slots : Nat → Option CNodeEntry}
    (hcaps : ∀ p, pol.owner p = d → cfg.isLocal p = false →
      { s₁ with slots := slots }.capAt p = s₁.capAt p) :
    Unchanged cfg pol d s { s₁ with slots := slots } :=
  { h with caps := fun p hp hl => (hcaps p hp hl).trans (h.caps p hp hl) }

theorem setMem {s₁ : KState} (h : Unchanged cfg pol d s s₁) {mem : Nat → UInt64} {rooted : List Nat}
    (hmem : ∀ a, pol.dom a = d → mem a = s₁.mem a)
    (hrooted : ∀ f, pol.dom f = d → (f ∈ rooted ↔ f ∈ s₁.rooted)) :
    Unchanged cfg pol d s { s₁ with mem, rooted } :=
  { h with
    mem := fun a ha => (hmem a ha).trans (h.mem a ha)
    rooted := fun f hf => (hrooted f hf).trans (h.rooted f hf) }

end Unchanged

/-! ## What a thread of a domain does -/

/-- The state is sealed, and since `s₀` nothing has changed in domains that `e` does not meet. -/
structure Acts (cfg : Config) (pol : Policy δ) (e : δ) (s₀ s : KState) : Prop where
  wf : HeapWF cfg s
  sealed : Sealed cfg pol s
  unchanged : ∀ d, ¬pol.Meets e d → Unchanged cfg pol d s₀ s

theorem Policy.ne_of_meets {pol : Policy δ} {d e : δ} {p : Nat} (hp : pol.Meets e (pol.owner p))
    (hd : ¬pol.Meets e d) : pol.owner p ≠ d := by
  rintro rfl
  exact hd hp

namespace Acts

variable {s₀ : KState}

theorem start (hwf : HeapWF cfg s) (hs : Sealed cfg pol s) : Acts cfg pol e s s :=
  ⟨hwf, hs, fun d _ => .refl d s⟩

/-- The scheduler's own fields. -/
theorem of_eq (h : Acts cfg pol e s₀ s) (runqueue : List Nat) (requested : Bool)
    (current curRegBase satp : Nat) :
    Acts cfg pol e s₀ { s with runqueue, requested, current, curRegBase, satp } where
  wf := h.wf.of_eq rfl rfl
  sealed :=
    { objects := h.sealed.objects
      cnodes := h.sealed.cnodes
      slots := h.sealed.slots
      held := h.sealed.held
      entries := h.sealed.entries.of_eq rfl rfl rfl
      endpoints := h.sealed.endpoints
      notifications := h.sealed.notifications }
  unchanged d hd := { h.unchanged d hd with }

theorem setTcb (h : Acts cfg pol e s₀ s) {p : Nat} {t t' : ThreadInfo} (ht : s.tcbs p = some t)
    (hp : pol.Meets e (pol.owner p))
    (hheld : ∀ (slot : TcbSlot) e, slot.get t' = some e →
      slot.get t = some e ∨ pol.dom e.cap.getFrame = pol.owner p) :
    Acts cfg pol e s₀ (s.setTcb p t') :=
  ⟨h.wf.setTcb t' ht, h.sealed.setTcb ht hheld, fun d hd =>
    (h.unchanged d hd).setTcb ht (.inl (Policy.ne_of_meets hp hd))⟩

theorem setTimeout (h : Acts cfg pol e s₀ s) {p : Nat} {t : ThreadInfo} (ht : s.tcbs p = some t)
    (n : Nat) : Acts cfg pol e s₀ (s.setTcb p (t.setTimeout n)) :=
  ⟨h.wf.setTcb _ ht, h.sealed.setTcb ht fun slot _ he => .inl (by cases slot <;> exact he),
    fun d hd => (h.unchanged d hd).setTcb ht (.inr rfl)⟩

/-- A page or a page table of a domain that `e` meets. -/
theorem setFrame (h : Acts cfg pol e s₀ s) {k : CapabilityType} {f : Nat}
    (hk : k = .page ∨ k = .pageTable) (hf : s.isObject k f = true)
    (hmeets : pol.Meets e (pol.dom f))
    {mem : Nat → UInt64} {rooted : List Nat} (hmem : ∀ a, a < f ∨ f + 4096 ≤ a → mem a = s.mem a)
    (hrooted : ∀ g, g ≠ f → (g ∈ rooted ↔ g ∈ s.rooted))
    (hentries : Entries (fun f g => pol.dom f = pol.dom g) { s with mem, rooted }) :
    Acts cfg pol e s₀ { s with mem, rooted } where
  wf := h.wf.of_eq rfl rfl
  sealed := h.sealed.setMem hentries
  unchanged d hd := by
    refine (h.unchanged d hd).setMem (fun a ha => hmem a ?_) fun g hg => hrooted g ?_
    · by_contra hin
      have hdom := h.sealed.dom_frame h.wf hk hf (show f ≤ a by omega) (by omega)
      exact hd (by rwa [← ha, hdom])
    · rintro rfl
      exact hd (hg ▸ hmeets)

theorem setPage (h : Acts cfg pol e s₀ s) {f : Nat} (hf : s.isObject .page f = true)
    (hmeets : pol.Meets e (pol.dom f)) {mem : Nat → UInt64}
    (hmem : ∀ a, a < f ∨ f + 4096 ≤ a → mem a = s.mem a) : Acts cfg pol e s₀ { s with mem } :=
  h.setFrame (.inl rfl) hf hmeets hmem (fun _ _ => .rfl) (h.sealed.entries.setPage h.wf hf hmem)

/-- Capabilities go into slots of the domain. -/
theorem setSlots (h : Acts cfg pol e s₀ s) {slots : Nat → Option CNodeEntry}
    (hcaps : ∀ p, cfg.isLocal p = false → { s with slots := slots }.capAt p = s.capAt p ∨
      pol.owner p = e ∧ ∀ c, { s with slots := slots }.capAt p = some c → c.Within pol e) :
    Acts cfg pol e s₀ { s with slots := slots } where
  wf := h.wf.of_eq rfl rfl
  sealed := h.sealed.setSlots fun p c hp hc => by
    rcases hcaps p hp with hsame | ⟨howner, hin⟩
    · exact .inl (hsame ▸ hc)
    · exact .inr (howner ▸ hin c hc)
  unchanged d hd := (h.unchanged d hd).setSlots fun p hp hl => by
    rcases hcaps p hl with hsame | ⟨howner, -⟩
    · exact hsame
    · exact absurd (howner.symm.trans hp ▸ pol.meets_self e) hd

/-! ### Messages and signals -/

theorem updateTcb {p : Nat} (hp : pol.Meets e (pol.owner p)) {f : ThreadInfo → ThreadInfo}
    (hf : ∀ t (slot : TcbSlot), slot.get (f t) = slot.get t) :
    Keeps (Acts cfg pol e s₀) (updateTcb p f) :=
  keeps_updateTcb fun _ t ht hs => hs.setTcb ht hp fun slot _ he => .inl (hf t slot ▸ he)

theorem push (p : Nat) : Keeps (Acts cfg pol e s₀) (push p) :=
  .modify fun s hs => hs.of_eq _ s.requested s.current s.curRegBase s.satp

theorem requireSchedule : Keeps (Acts cfg pol e s₀) requireSchedule :=
  .modify fun s hs => hs.of_eq s.runqueue _ s.current s.curRegBase s.satp

theorem resume {p : Nat} (hp : pol.Meets e (pol.owner p)) : Keeps (Acts cfg pol e s₀) (resume p) :=
  .bind (updateTcb hp fun _ slot => by cases slot <;> rfl) fun _ => push p

theorem setA1 {p : Nat} (hp : pol.Meets e (pol.owner p)) (v : UInt64) :
    Keeps (Acts cfg pol e s₀) (Zoeax.updateTcb p (·.setA1 v)) :=
  updateTcb hp fun _ slot => by cases slot <;> rfl

theorem blockThread {p : Nat} (hp : pol.Meets e (pol.owner p)) :
    Keeps (Acts cfg pol e s₀) (blockThread p) :=
  updateTcb hp fun _ slot => by cases slot <;> rfl

theorem copyIpcBuffer {dst : Nat} (hdst : pol.Meets e (pol.dom dst)) (src : Nat) :
    Keeps (Acts cfg pol e s₀) (copyIpcBuffer src dst) := by
  refine .get_bind fun s hs => ?_
  split
  · next h =>
    refine hs.setPage (Bool.and_eq_true _ _ ▸ h).2 hdst fun a ha => if_neg ?_
    rw [ipcBufferWords, messageLen]
    omega
  · exact hs

/-- The message goes to the page that the receiver holds. -/
theorem setIpcMsg {p : Nat} (hp : pol.Meets e (pol.owner p)) (senderRef : Option Nat) :
    Keeps (Acts cfg pol e s₀) (setIpcMsg p senderRef) := by
  refine .lift_bind _ fun s t hs ht => ?_
  rw [getTcb_ok] at ht
  cases hbuf : t.ipcBuffer with
  | none =>
    simp only [ThreadInfo.ipcBufferRef, hbuf, Option.map_none]
    exact hs
  | some entry =>
    have hdom := hs.sealed.held p t .ipcBuffer entry ht hbuf
    simp only [ThreadInfo.ipcBufferRef, hbuf, Option.map_some]
    cases senderRef with
    | none => exact hs
    | some src => exact copyIpcBuffer (hdom ▸ hp) src hs

theorem transfer {receiver : Nat} (hp : pol.Meets e (pol.owner receiver)) (sender : Nat) :
    Keeps (Acts cfg pol e s₀) (Endpoint.transfer sender receiver) :=
  .bind (.lift _) fun _ => .bind (setIpcMsg hp _) fun _ => setA1 hp _

theorem setEndpoint {p : Nat} (hp : pol.uses e (pol.owner p)) {ep : Endpoint}
    (hep : ∀ q ∈ ep.queue, pol.uses (pol.owner q) (pol.owner p)) :
    Keeps (Acts cfg pol e s₀) (modify (·.setEndpoint p ep) : KM Unit) :=
  .modify fun _ hs => ⟨hs.wf.of_eq rfl rfl, hs.sealed.setEndpoint hep, fun d hd =>
    (hs.unchanged d hd).setEndpoint (Policy.ne_of_meets (pol.meets_of_uses hp) hd) ep⟩

theorem setNotification {p : Nat} (hp : pol.uses e (pol.owner p)) {n : Notification}
    (hn : ∀ q ∈ n.waitQueue, pol.uses (pol.owner q) (pol.owner p)) :
    Keeps (Acts cfg pol e s₀) (modify (·.setNotification p n) : KM Unit) :=
  .modify fun _ hs => ⟨hs.wf.of_eq rfl rfl, hs.sealed.setNotification hn, fun d hd =>
    (hs.unchanged d hd).setNotification (Policy.ne_of_meets (pol.meets_of_uses hp) hd) n⟩

theorem enqueue {ep thread : Nat} (ht : pol.owner thread = e) (hp : pol.uses e (pol.owner ep)) :
    Keeps (Acts cfg pol e s₀) (Endpoint.enqueue ep thread) := by
  refine .bind (blockThread (ht ▸ pol.meets_self e)) fun _ => .lift_bind _ fun s entry hs hep => ?_
  refine setEndpoint hp (fun q hq => ?_) hs
  rcases List.mem_append.1 hq with hq | hq
  · exact hs.sealed.endpoints ep entry (getEndpoint_ok.1 hep) q hq
  · rwa [List.mem_singleton.1 hq, ht]

/-- Whoever is taken from the queue was in it, and so is everybody who is left. -/
theorem mem_of_popFromQueue (ep : Endpoint) (st : EndpointState) :
    (∀ r, (ep.popFromQueue st).1 = some r → r ∈ ep.queue) ∧
      ∀ q ∈ (ep.popFromQueue st).2.queue, q ∈ ep.queue := by
  unfold Endpoint.popFromQueue
  generalize (if ep.epState = .idel then st else ep.epState) = epState
  dsimp only
  split
  · exact ⟨fun _ h => (Option.some_ne_none _ h.symm).elim, fun _ h => h⟩
  · exact ⟨fun _ h => List.mem_of_head? h, fun _ h => List.mem_of_mem_tail h⟩

/-- `Endpoint::send` and `Endpoint::recv`, up to what is done with the thread that was popped. -/
theorem popped {ep thread : Nat} {st : EndpointState} (ht : pol.owner thread = e)
    (hp : pol.uses e (pol.owner ep)) {rest : Option Nat → KM Bool}
    (hsome : ∀ r, pol.Meets e (pol.owner r) → Keeps (Acts cfg pol e s₀) (rest (some r)))
    (hnone : rest none = Endpoint.enqueue ep thread >>= fun _ => pure true) :
    Keeps (Acts cfg pol e s₀) ((liftM (getEndpoint ep) : KM Endpoint) >>= fun e =>
      modify (·.setEndpoint ep (e.popFromQueue st).2) >>= fun _ => rest (e.popFromQueue st).1) := by
  refine .lift_bind _ fun s entry hs hep => ?_
  have hqueue := hs.sealed.endpoints ep entry (getEndpoint_ok.1 hep)
  obtain ⟨hfirst, hrest⟩ := mem_of_popFromQueue entry st
  refine Keeps.bind (setEndpoint hp fun q hq => hqueue q (hrest q hq)) (fun _ => ?_) hs
  cases hpop : (entry.popFromQueue st).1 with
  | some r => exact hsome r ⟨_, hp, hqueue r (hfirst r hpop)⟩
  | none =>
    rw [hnone]
    exact .bind (enqueue ht hp) fun _ => .pure _

theorem endpointSend {ep thread : Nat} (ht : pol.owner thread = e)
    (hp : pol.uses e (pol.owner ep)) : Keeps (Acts cfg pol e s₀) (Endpoint.send ep thread) := by
  unfold Endpoint.send
  refine popped ht hp (fun r hr => ?_) rfl
  exact .bind (transfer hr thread) fun _ => .bind (resume hr) fun _ => .pure _

theorem endpointRecv {ep thread : Nat} (ht : pol.owner thread = e)
    (hp : pol.uses e (pol.owner ep)) : Keeps (Acts cfg pol e s₀) (Endpoint.recv ep thread) := by
  unfold Endpoint.recv
  refine popped ht hp (fun r hr => ?_) rfl
  exact .bind (transfer (ht ▸ pol.meets_self e) r) fun _ => .bind (resume hr) fun _ => .pure _

theorem sendSignal {ntfn : Nat} (hp : pol.uses e (pol.owner ntfn)) (val : UInt64) :
    Keeps (Acts cfg pol e s₀) (Notification.sendSignal ntfn val) := by
  refine .lift_bind _ fun s n hs hn => ?_
  have hqueue := hs.sealed.notifications ntfn n (getNotification_ok.1 hn)
  cases hq : n.waitQueue with
  | cons waiter rest =>
    rw [hq] at hqueue
    have hwaiter : pol.Meets e (pol.owner waiter) := ⟨_, hp, hqueue waiter (List.mem_cons_self ..)⟩
    refine Keeps.bind (setNotification hp fun q hq => hqueue q (List.mem_cons_of_mem _ hq))
      (fun _ => .bind (setA1 hwaiter val) fun _ => resume hwaiter) hs
  | nil =>
    refine setNotification hp (fun q hq => ?_) hs
    cases hq

theorem waitSignal {ntfn thread : Nat} (ht : pol.owner thread = e)
    (hp : pol.uses e (pol.owner ntfn)) :
    Keeps (Acts cfg pol e s₀) (Notification.waitSignal ntfn thread) := by
  refine .lift_bind _ fun s n hs hn => ?_
  have hqueue := hs.sealed.notifications ntfn n (getNotification_ok.1 hn)
  have hself : pol.Meets e (pol.owner thread) := ht ▸ pol.meets_self e
  split
  · refine Keeps.bind (setA1 hself _) (fun _ => .bind (setNotification hp ?_) fun _ => .pure _) hs
    exact hqueue
  · refine Keeps.bind (blockThread hself)
      (fun _ => .bind (setNotification hp fun q hq => ?_) fun _ => .pure _) hs
    rcases List.mem_append.1 hq with hq | hq
    · exact hqueue q hq
    · rwa [List.mem_singleton.1 hq, ht]

theorem scheduleIf (blocked : Bool) : Keeps (Acts cfg pol e s₀) (scheduleIf blocked) :=
  .ite requireSchedule (.pure _)

theorem invokeEndPoint {invLabel : InvLabel} {current : Nat} {c : CapabilityData}
    (ht : pol.owner current = e) (hc : pol.uses e (pol.dom c.getFrame)) :
    Keeps (Acts cfg pol e s₀) (invokeEndPoint invLabel current c) := by
  unfold Zoeax.invokeEndPoint
  split
  · refine .bind (.bind (updateTcb (ht ▸ pol.meets_self e) fun _ slot => by cases slot <;> rfl)
      fun _ => endpointSend ht hc) ?_
    exact fun _ => .bind (scheduleIf _) fun _ => .pure _
  · exact .bind (endpointRecv ht hc) fun _ => .bind (scheduleIf _) fun _ => .pure _
  · exact .throw _

theorem invokeNotification {invLabel : InvLabel} {current : Nat} {c : CapabilityData}
    (ht : pol.owner current = e) (hc : pol.uses e (pol.dom c.getFrame)) :
    Keeps (Acts cfg pol e s₀) (invokeNotification invLabel current c) := by
  unfold Zoeax.invokeNotification
  split
  · exact .bind (sendSignal hc _) fun _ => .pure _
  · exact .bind (waitSignal ht hc) fun _ => .bind (scheduleIf _) fun _ => .pure _
  · exact .throw _

end Acts

/-! ### Capability spaces and threads -/

theorem endpoints_born (s : KState) (o : Object) (p : Nat) : (s.born o).endpoints p =
    if o.kind = .endPoint ∧ p = o.start then some .new else s.endpoints p := by
  unfold KState.born
  split
  case h_2 h => simp [h, KState.setEndpoint, Function.update_apply]
  all_goals simp [*, KState.setTcb, KState.setNotification, KState.zeroMem]

theorem notifications_born (s : KState) (o : Object) (p : Nat) : (s.born o).notifications p =
    if o.kind = .notification ∧ p = o.start then some .new else s.notifications p := by
  unfold KState.born
  split
  case h_3 h => simp [h, KState.setNotification, Function.update_apply]
  all_goals simp [*, KState.setTcb, KState.setEndpoint, KState.zeroMem]

namespace Acts

variable {s₀ : KState}

/-- A thread of the domain gets something to hold. -/
theorem hold (h : Acts cfg pol e s₀ s) {p : Nat} {slot : TcbSlot} {c : CapabilityData}
    (hp : pol.owner p = e) (hc : pol.dom c.getFrame = e) (hhold : HoldCap cfg p slot c s s') :
    Acts cfg pol e s₀ s' := by
  have hcaps := hhold.caps
  obtain ⟨t, entry, slots, ht, -, rfl, rfl⟩ := hhold.written
  have h₁ : Acts cfg pol e s₀ { s with slots := slots } := h.setSlots fun q hq => .inl (hcaps q hq)
  refine h₁.setTcb ht (hp ▸ pol.meets_self e) fun slot' e' he' => ?_
  rw [TcbSlot.get_set] at he'
  split at he'
  · obtain rfl := Option.some.inj he'
    exact .inr (hc.trans hp.symm)
  · exact .inl he'

/-- A capability goes into a slot of the domain. -/
theorem putCap (h : Acts cfg pol e s₀ s) {q : Nat} {c : CapabilityData} (hq : pol.owner q = e)
    (hc : c.Within pol e) (hput : PutCap cfg q c s s') : Acts cfg pol e s₀ s' := by
  obtain ⟨⟨slots, rfl⟩, hcaps⟩ := hput
  refine h.setSlots fun p hp => ?_
  rw [hcaps p hp]
  split
  · next heq => exact .inr ⟨heq ▸ hq, fun _ h => Option.some.inj h ▸ hc⟩
  · exact .inl rfl

/-- The capability in an occupied slot of the domain changes. -/
theorem setCap (h : Acts cfg pol e s₀ s) {q : Nat} {c : CapabilityData} (hq : pol.owner q = e)
    (hc : c.Within pol e) : Acts cfg pol e s₀ (s.setCap q c) := by
  refine h.setSlots fun p _ => ?_
  change (s.setCap q c).capAt p = _ ∨ _
  rw [KState.setCap, KState.capAt_setSlot]
  split
  · next heq =>
    refine .inr ⟨heq ▸ hq, fun c' hc' => ?_⟩
    rw [← KState.setSlot, KState.capAt_setSlot, if_pos heq, Option.map_map] at hc'
    obtain ⟨_, -, rfl⟩ := Option.map_eq_some_iff.1 hc'
    exact hc
  · exact .inl rfl

/-- An object comes to life in the memory of the domain. -/
theorem born (h : Acts cfg pol e s₀ s) {o : Object} (ho : o.Fresh cfg s)
    (haddr : pol.dom o.addr = e) (hdom : ∀ a, o.addr ≤ a → a < o.addr + o.size → pol.dom a = e)
    (hcnode : o.kind = .cNode → o.size = 2 ^ o.userSize * entrySize) :
    Acts cfg pol e s₀ (s.born o) where
  wf := h.wf.born ho
  sealed :=
    { objects := by
        rw [objects_born, List.forall_mem_cons]
        exact ⟨fun a hle hlt => (hdom a hle hlt).trans haddr.symm, h.sealed.objects⟩
      cnodes := by
        rw [objects_born, List.forall_mem_cons]
        exact ⟨hcnode, h.sealed.cnodes⟩
      slots := fun p c hp hc => h.sealed.slots p c hp (capAt_born s o p ▸ hc)
      held := fun p t slot e ht he => by
        rw [tcbs_born] at ht
        split at ht
        · obtain rfl := Option.some.inj ht
          cases slot <;> cases he
        · exact h.sealed.held p t slot e ht he
      entries := h.sealed.entries.born h.wf ho
      endpoints := fun p ep hep => by
        rw [endpoints_born] at hep
        split at hep
        · obtain rfl := Option.some.inj hep
          exact fun _ hq => (List.not_mem_nil hq).elim
        · exact h.sealed.endpoints p ep hep
      notifications := fun p n hn => by
        rw [notifications_born] at hn
        split at hn
        · obtain rfl := Option.some.inj hn
          exact fun _ hq => (List.not_mem_nil hq).elim
        · exact h.sealed.notifications p n hn }
  unchanged d hd := by
    have hne : d ≠ e := by
      rintro rfl
      exact hd (pol.meets_self d)
    have hstart : ∀ {p}, pol.owner p = d → p ≠ o.start := by
      rintro p hp rfl
      rw [Policy.owner, Object.start,
        toPhys_toKernelV_of_lt (Object.lt_of_admissible ho.admissible).2.2.1, haddr] at hp
      exact hne hp.symm
    have hold := h.unchanged d hd
    refine ⟨fun p hp hl => (capAt_born s o p).trans (hold.caps p hp hl), fun p hp => ?_,
      fun p hp => ?_, fun p hp => ?_, fun a ha => ?_, fun o' ho' => ?_, fun f hf => ?_⟩
    · rw [tcbs_born, if_neg fun h => hstart hp h.2, hold.tcbs p hp]
    · rw [endpoints_born, if_neg fun h => hstart hp h.2, hold.endpoints p hp]
    · rw [notifications_born, if_neg fun h => hstart hp h.2, hold.notifications p hp]
    · rw [← hold.mem a ha]
      by_cases hk : o.kind = .pageTable
      · have hsize := ho.size
        rw [hk] at hsize
        obtain hsize := Except.ok.inj hsize
        rw [mem_born_table ho hk]
        exact if_neg fun hin => hne (ha ▸ hdom a hin.1 (by omega))
      · rw [mem_born s hk]
    · rw [objects_born, List.mem_cons, or_iff_right, hold.objects o' ho']
      rintro rfl
      exact hne (ho'.symm.trans haddr)
    · rw [rooted_born, hold.rooted f hf]

theorem invokeCNode (h : Acts cfg pol e s₀ s) (hcaps : CapsAll Confined s) {invLabel : InvLabel}
    {reg : Registers} {root dest : CapabilityData} {v : Option Nat} (hroot : CNodeOf pol e s root)
    (hdest : CNodeOf pol e s dest)
    (hinv : invokeCNode cfg invLabel reg root dest s = .ok v s') : Acts cfg pol e s₀ s' := by
  obtain ⟨src, entry, dst, rawCap, hsrc, hslot, he, hdst, -, -, hd, hinstall⟩ := invokeCNode_ok hinv
  have hosrc := h.sealed.lookupEntry h.wf hcaps hroot hsrc
  have hodst := h.sealed.lookupEntry h.wf hcaps hdest hdst
  have hin := h.sealed.within h.wf hslot (congrArg (Option.map _) he) hosrc
  obtain ⟨⟨slots, rfl⟩, hcap⟩ :=
    installEntry_capAt (ne_localAddr (h.wf.not_isLocal hslot) .invocation) hinstall
  refine h.setSlots fun p hp => ?_
  rw [hcap p (ne_localAddr hp .invocation)]
  split
  · next heq => exact .inr ⟨heq ▸ hodst, fun c hc => Option.some.inj hc ▸ hin.newCap hd⟩
  · split
    · next heq => exact .inr ⟨heq.2 ▸ hosrc, fun c hc => (Option.some_ne_none c hc.symm).elim⟩
    · exact .inl rfl

end Acts

end Zoeax
