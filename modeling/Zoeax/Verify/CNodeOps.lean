import Zoeax.Verify.Derivation
import Zoeax.Verify.Errors
import Zoeax.Verify.Overflow
import Zoeax.Verify.Sharing

/-!
# Slots that are filled

What the operations on CNodes do to the slots that they are given.

- `writable_iff`: `get_writable` refuses a window that ends with the last slot of the CNode, and
  panics on an empty window inside the CNode; it is right about all others;
- `resolved_iff`: a CNode invocation fills a slot that the destination does not lead to when the
  path stops at an empty slot with bits left over;
- `moves_iff`: `CNodeMove` moves CNodes, page tables, and endpoints and notifications without a
  badge; it refuses or changes all others.
-/

namespace Zoeax

open Lib Exec
open CapabilityType (entrySize)
open CapabilityData (SlotsLive)

variable {cfg : Config} {s s' : KState}

/-! ## Windows of empty slots -/

/-- The `num` slots from number `index` on are empty. -/
def WindowEmpty (s : KState) (c : CapabilityData) (num index : Nat) : Prop :=
  ∀ i < num, s.slots (toKernelV c.getAddress + entrySize * (index + i)) = none

instance (c : CapabilityData) (num index : Nat) : Decidable (WindowEmpty s c num index) :=
  inferInstanceAs (Decidable (∀ i < num, _))

/-- `get_writable` returns the window if it lies in the CNode and is empty, and an error
otherwise. -/
def WritableExact (cfg : Config) (s : KState) (c : CapabilityData) (num index : Nat) : Prop :=
  (index + num ≤ 2 ^ c.radix ∧ WindowEmpty s c num index →
    c.getWritable cfg num index s = .ok (toKernelV c.getAddress + entrySize * index)) ∧
  (¬(index + num ≤ 2 ^ c.radix ∧ WindowEmpty s c num index) →
    ∃ e, c.getWritable cfg num index s = .error (.err e))

/-- The scan of a window of live slots. -/
theorem allEmpty_eval {n p : Nat} (hlive : ∀ i < n, s.isSlot (p + entrySize * i) = true) :
    allEmpty n p s = .ok (decide (∀ i < n, s.slots (p + entrySize * i) = none)) := by
  induction n generalizing p with
  | zero => simp [allEmpty, Query.pure_ok]
  | succ n ih =>
    have hshift : ∀ i, p + entrySize + entrySize * i = p + entrySize * (i + 1) := fun i => by ring
    have hread : readSlot p s = .ok (s.slots p) := readSlot_ok.2 ⟨hlive 0 (Nat.succ_pos n), rfl⟩
    rw [allEmpty, Query.bind_of_ok hread]
    cases he : s.slots p with
    | some e =>
      refine Query.pure_ok.2 (decide_eq_false fun h => ?_).symm
      cases he.symm.trans (h 0 (Nat.succ_pos n))
    | none =>
      refine (ih fun i hi => ?_).trans (congrArg _ (decide_eq_decide.2 ⟨fun h i hi => ?_, ?_⟩))
      · rw [hshift]
        exact hlive (i + 1) (by omega)
      · cases i with
        | zero => exact he
        | succ i =>
          rw [← hshift]
          exact h i (by omega)
      · intro h i hi
        rw [hshift]
        exact h (i + 1) (by omega)

theorem require_bind {α : Type} (b : Bool) (e : Stop) (f : Unit → KR α) :
    ((liftM (require b e) : KR Unit) >>= f) s = if b = true then f () s else .error e := by
  cases b <;> rfl

theorem getWritable_eval {c : CapabilityData} (hr : c.radix ≤ 32)
    (hlive : ∀ i < 2 ^ c.radix, s.isSlot (toKernelV c.getAddress + entrySize * i) = true)
    (num index : Nat) : c.getWritable cfg num index s =
      if num + index < 2 ^ c.radix then
        if WindowEmpty s c num index then
          if num ≠ 0 then .ok (toKernelV c.getAddress + entrySize * index) else .error panicked
        else .error (kerr .notEmptySlot 0)
      else .error (kerr .invalidOperation 0) := by
  have hpow : 2 ^ c.radix ≤ 2 ^ 32 := Nat.pow_le_pow_right (by decide) hr
  have hcap : c.capacity cfg = .ok (2 ^ c.radix) := by
    rw [CapabilityData.capacity, Profile.pow, Profile.wrap_of_lt _ (by omega)]
    rfl
  have hslice : num + index < 2 ^ c.radix → checkSlice cfg num = .ok () := fun hlt => by
    refine require_ok.2 (decide_eq_true ?_)
    rw [entrySize]
    omega
  have hscan : num + index < 2 ^ c.radix →
      allEmpty num (toKernelV c.getAddress + entrySize * index) s =
        .ok (decide (WindowEmpty s c num index)) := fun hlt => by
    have hadd : ∀ i, toKernelV c.getAddress + entrySize * index + entrySize * i =
        toKernelV c.getAddress + entrySize * (index + i) := fun i => by ring
    refine (allEmpty_eval fun i hi => ?_).trans (congrArg _ (decide_eq_decide.2 ?_))
    · rw [hadd]
      exact hlive _ (by omega)
    · exact forall₂_congr fun i _ => by rw [hadd]
  unfold CapabilityData.getWritable
  rw [Query.bind_of_ok (Query.lift_ok.2 hcap), require_bind]
  by_cases hlt : num + index < 2 ^ c.radix
  · rw [if_pos (decide_eq_true hlt), if_pos hlt, Query.bind_of_ok (Query.lift_ok.2 (hslice hlt)),
      Query.bind_of_ok (hscan hlt), require_bind]
    refine if_congr decide_eq_true_iff ?_ rfl
    rw [require_bind]
    exact if_congr decide_eq_true_iff rfl rfl
  · rw [if_neg (mt of_decide_eq_true hlt), if_neg hlt]

/-- **`get_writable`** is exact if and only if the window is not an empty one inside the CNode, and
not an empty row of slots that ends with the last one. -/
theorem writable_iff {c : CapabilityData} (hr : c.radix ≤ 32)
    (hlive : ∀ i < 2 ^ c.radix, s.isSlot (toKernelV c.getAddress + entrySize * i) = true)
    (num index : Nat) : WritableExact cfg s c num index ↔
      (num = 0 → 2 ^ c.radix < index) ∧
      (index + num = 2 ^ c.radix → ¬WindowEmpty s c num index) := by
  rw [WritableExact, getWritable_eval hr hlive]
  constructor
  · rintro ⟨hfits, -⟩
    refine ⟨?_, ?_⟩
    · rintro rfl
      by_contra hle
      have hempty : WindowEmpty s c 0 index := fun i hi => absurd hi (Nat.not_lt_zero i)
      have h := hfits ⟨by omega, hempty⟩
      rw [if_pos hempty, if_neg (not_not.2 rfl)] at h
      split at h <;> cases h
    · intro hend hempty
      have h := hfits ⟨hend.le, hempty⟩
      rw [if_neg (by omega)] at h
      cases h
  · rintro ⟨hnum, hend⟩
    refine ⟨fun ⟨hle, hempty⟩ => ?_, fun hnot => ?_⟩
    · have hne : index + num ≠ 2 ^ c.radix := fun h => hend h hempty
      have hpos : num ≠ 0 := fun h => by
        have := hnum h
        omega
      rw [if_pos (by omega), if_pos hempty, if_pos hpos]
    · by_cases hlt : num + index < 2 ^ c.radix
      · rw [if_pos hlt, if_neg fun hempty => hnot ⟨by omega, hempty⟩]
        exact ⟨_, rfl⟩
      · rw [if_neg hlt]
        exact ⟨_, rfl⟩

/-- Two slots of eight. -/
theorem writable_window : Small.cnodeCap.radix ≤ 32 ∧
    (∀ i < 2 ^ Small.cnodeCap.radix, Small.state.isSlot
      (toKernelV Small.cnodeCap.getAddress + entrySize * i) = true) ∧
    WritableExact .virt Small.state Small.cnodeCap 2 5 := by
  have hlive : ∀ i < 2 ^ Small.cnodeCap.radix, Small.state.isSlot
      (toKernelV Small.cnodeCap.getAddress + entrySize * i) = true := by decide
  exact ⟨by decide, hlive, (writable_iff (by decide) hlive 2 5).2 ⟨nofun, by decide⟩⟩

/-- The last four slots of eight are empty, and refused. -/
theorem not_writable_last : WindowEmpty Small.state Small.cnodeCap 4 4 ∧
    Small.cnodeCap.getWritable .virt 4 4 Small.state = .error (kerr .invalidOperation 0) ∧
    ¬WritableExact .virt Small.state Small.cnodeCap 4 4 := by
  have hempty : WindowEmpty Small.state Small.cnodeCap 4 4 := by decide
  have heval : Small.cnodeCap.getWritable .virt 4 4 Small.state =
      .error (kerr .invalidOperation 0) := by decide
  refine ⟨hempty, heval, fun h => ?_⟩
  cases heval.symm.trans (h.1 ⟨by decide, hempty⟩)

/-! ## Destinations -/

namespace CapabilityData

/-- The pointer leads from a CNode to a slot, through CNodes, and `rem` bits are left over. -/
inductive SlotPath (cfg : Config) (s : KState) (capptr : Nat) :
    CapabilityData → Nat → Nat → Nat → Prop
  | here {c : CapabilityData} {depthBits p rem : Nat} :
      c.lookupStep cfg capptr depthBits = .ok (p, rem) → s.isSlot p = true →
      SlotPath cfg s capptr c depthBits p rem
  | next {c d : CapabilityData} {depthBits rem left p q : Nat} :
      c.lookupStep cfg capptr depthBits = .ok (p, rem) → rem ≠ 0 → s.isSlot p = true →
      s.capAt p = some d → d.getCapType = .ok .cNode → SlotPath cfg s capptr d rem q left →
      SlotPath cfg s capptr c depthBits q left

/-- The path stops at a slot that is empty or holds something else than a CNode, and there are bits
left over. -/
def StopsEarly (cfg : Config) (s : KState) (capptr : Nat) (c : CapabilityData)
    (depthBits p : Nat) : Prop :=
  ∃ rem, SlotPath cfg s capptr c depthBits p rem ∧ rem ≠ 0 ∧
    ∀ d ∈ s.capAt p, d.getCapType ≠ .ok .cNode

variable {c : CapabilityData} {capptr depthBits p : Nat}

/-- The loop returns a slot at the end of a path. -/
theorem slotPath_of_lookupLoop {n : Nat} (h : lookupLoop cfg n c capptr depthBits s = .ok p) :
    SlotPath cfg s capptr c depthBits p 0 ∨ StopsEarly cfg s capptr c depthBits p := by
  have hlead := leads_of_lookupLoop h
  clear h
  induction hlead with
  | @empty c depthBits p rem hstep hp hnone =>
    rcases Nat.eq_zero_or_pos rem with rfl | hpos
    · exact .inl (.here hstep hp)
    · refine .inr ⟨rem, .here hstep hp, hpos.ne', fun d hd => ?_⟩
      cases hnone.symm.trans hd
  | last hstep hp => exact .inl (.here hstep hp)
  | @leaf c d depthBits p rem hstep hp hd hk =>
    rcases Nat.eq_zero_or_pos rem with rfl | hpos
    · exact .inl (.here hstep hp)
    · refine .inr ⟨rem, .here hstep hp, hpos.ne', fun d' hd' => ?_⟩
      obtain rfl := Option.some.inj (hd.symm.trans hd')
      exact hk
  | next hstep hrem hp hd hk _ ih =>
    refine ih.imp (.next hstep hrem hp hd hk) ?_
    rintro ⟨left, hpath, hleft⟩
    exact ⟨left, .next hstep hrem hp hd hk hpath, hleft⟩

/-- Where the path stops early the loop returns the slot, or an error for a capability of no
type. -/
theorem StopsEarly.lookup (h : StopsEarly cfg s capptr c depthBits p) {n : Nat}
    (hend : lookupLoop cfg n c capptr depthBits s ≠ .error (.halt .hang)) :
    lookupLoop cfg n c capptr depthBits s = .ok p ∨
      s.capAt p ≠ none ∧ ∃ e, lookupLoop cfg n c capptr depthBits s = .error (.err e) := by
  obtain ⟨left, hpath, hleft, hstop⟩ := h
  induction hpath generalizing n with
  | @here c depthBits p rem hstep hp =>
    cases n with
    | zero => exact absurd rfl hend
    | succ n =>
      rw [lookupLoop, Query.bind_of_ok (Query.lift_ok.2 hstep)]
      dsimp only
      rw [Query.bind_of_ok (readSlot_ok.2 ⟨hp, rfl⟩)]
      cases he : s.slots p with
      | none => exact .inl rfl
      | some e =>
        have hcap : s.capAt p = some e.cap := congrArg (Option.map _) he
        dsimp only
        rw [if_neg hleft]
        cases hk : e.cap.getCapType with
        | error x =>
          obtain ⟨y, rfl⟩ := getCapType_error hk
          refine .inr ⟨hcap ▸ Option.some_ne_none _, y, ?_⟩
          exact Query.bind_of_error rfl
        | ok k =>
          refine .inl ?_
          have hne : k ≠ .cNode := fun h => hstop e.cap hcap (h ▸ hk)
          rw [Query.bind_of_ok (Query.lift_ok.2 rfl), if_neg hne]
          rfl
  | @next c d depthBits rem left p q hstep hrem hp hd hk _ ih =>
    cases n with
    | zero => exact absurd rfl hend
    | succ n =>
      rw [lookupLoop_of_cnode hstep hp hd hk hrem] at hend ⊢
      exact ih hend hleft hstop

theorem StopsEarly.lookupEntryMut (h : StopsEarly cfg s capptr c depthBits p)
    (hend : c.lookupEntryMut cfg capptr depthBits s ≠ .error (.halt .hang)) :
    c.lookupEntryMut cfg capptr depthBits s = .ok p ∨
      s.capAt p ≠ none ∧ ∃ e, c.lookupEntryMut cfg capptr depthBits s = .error (.err e) :=
  h.lookup hend

theorem SlotPath.isSlot {rem : Nat} (h : SlotPath cfg s capptr c depthBits p rem) :
    s.isSlot p = true := by
  induction h with
  | here _ hp => exact hp
  | next _ _ _ _ _ _ ih => exact ih

theorem isSlot_of_lookupEntryMut (h : c.lookupEntryMut cfg capptr depthBits s = .ok p) :
    s.isSlot p = true := by
  rcases slotPath_of_lookupLoop h with hpath | ⟨_, hpath, _⟩
  · exact hpath.isSlot
  · exact hpath.isSlot

/-- Every reason for `derive` to fail is an error. -/
theorem derive_error {x : Stop} (h : c.derive = .error x) : ∃ e, x = .err e := by
  unfold derive at h
  cases hk : c.getCapType with
  | error y =>
    rw [hk] at h
    obtain rfl : y = x := Except.error.inj h
    exact getCapType_error hk
  | ok k =>
    rw [hk, except_ok_bind] at h
    cases k with
    | tcb => exact ⟨_, (Except.error.inj h).symm⟩
    | untyped => exact ⟨_, (Except.error.inj h).symm⟩
    | page =>
      dsimp only at h
      cases hm : c.isMapped with
      | true =>
        rw [hm] at h
        cases h
      | false =>
        rw [hm] at h
        exact ⟨_, (Except.error.inj h).symm⟩
    | cNode => cases h
    | notification => cases h
    | endPoint => cases h
    | pageTable => cases h

end CapabilityData

open CapabilityData (SlotPath StopsEarly)

/-- The part of a CNode invocation that reads: its slots, and the derived capability. -/
def checkCNode (cfg : Config) (reg : Registers) (rootCnode destRoot : CapabilityData) :
    KR (Nat × Nat × CapabilityData) := do
  let srcSlot ← rootCnode.lookupEntryMut cfg reg.a3.toNat (reg.a4.toNat >>> 32)
  let srcEntry ← occupied srcSlot
  let destSlot ← destRoot.lookupEntryMut cfg reg.a5.toNat (reg.a4.toNat % 2 ^ 32)
  let dest ← readSlot destSlot
  require dest.isNone (kerr .notEmptySlot 0)
  let rawCap ← srcEntry.cap.derive
  return (srcSlot, destSlot, rawCap)

theorem occupied_of_none {p : Nat} (hp : s.isSlot p = true) (hnone : s.slots p = none) :
    occupied p s = .error (kerr .slotIsEmpty 0) := by
  rw [occupied, Query.bind_of_ok (readSlot_ok.2 ⟨hp, hnone⟩)]
  rfl

theorem invokeCNode_eq (invLabel : InvLabel) (reg : Registers)
    (rootCnode destRoot : CapabilityData) :
    invokeCNode cfg invLabel reg rootCnode destRoot =
      liftM (checkCNode cfg reg rootCnode destRoot) >>= fun r => do
        installEntry cfg invLabel (newCap invLabel reg r.2.2) r.1 r.2.1
        return none := by
  simp only [invokeCNode, checkCNode, lift_bind, bind_assoc]
  rfl

theorem checkCNode_ok {reg : Registers} {rootCnode destRoot rawCap : CapabilityData}
    {src dest : Nat} : checkCNode cfg reg rootCnode destRoot s = .ok (src, dest, rawCap) ↔
      ∃ e, rootCnode.lookupEntryMut cfg reg.a3.toNat (reg.a4.toNat >>> 32) s = .ok src ∧
        (s.isSlot src = true ∧ s.slots src = some e) ∧
        destRoot.lookupEntryMut cfg reg.a5.toNat (reg.a4.toNat % 2 ^ 32) s = .ok dest ∧
        (s.isSlot dest = true ∧ s.slots dest = none) ∧ e.cap.derive = .ok rawCap := by
  simp only [checkCNode, Query.bind_ok, Query.lift_ok, Query.pure_ok, occupied_ok, readSlot_ok,
    require_ok, Option.isNone_iff_eq_none, Prod.mk.injEq]
  constructor
  · rintro ⟨_, hsrc, e, he, _, hdest, _, ⟨hslot, rfl⟩, _, hnone, _, hd, rfl, rfl, rfl⟩
    exact ⟨e, hsrc, he, hdest, ⟨hslot, hnone⟩, hd⟩
  · rintro ⟨e, hsrc, he, hdest, ⟨hslot, hnone⟩, hd⟩
    exact ⟨src, hsrc, e, he, dest, hdest, none, ⟨hslot, hnone⟩, (), rfl, rawCap, hd, rfl, rfl, rfl⟩

/-- A CNode invocation is answered with an error if and only if its checks are. -/
theorem invokeCNode_err_iff (invLabel : InvLabel) (reg : Registers)
    (rootCnode destRoot : CapabilityData) :
    (∃ e, invokeCNode cfg invLabel reg rootCnode destRoot s = .error (.err e) s) ↔
      ∃ e, checkCNode cfg reg rootCnode destRoot s = .error (.err e) := by
  rw [invokeCNode_eq]
  exact err_iff_of_check fun r => .bind (noErr_installEntry ..) fun _ => .pure _

/-- The source of a CNode invocation can be found and derived. -/
def SourceReady (cfg : Config) (s : KState) (reg : Registers) (rootCnode : CapabilityData) : Prop :=
  ∃ src c rawCap, rootCnode.lookupEntryMut cfg reg.a3.toNat (reg.a4.toNat >>> 32) s = .ok src ∧
    s.capAt src = some c ∧ c.derive = .ok rawCap

theorem sourceReady_iff {reg : Registers} {rootCnode : CapabilityData} {src : Nat}
    (hsrc : rootCnode.lookupEntryMut cfg reg.a3.toNat (reg.a4.toNat >>> 32) s = .ok src) :
    SourceReady cfg s reg rootCnode ↔
      ∃ c rawCap, s.capAt src = some c ∧ c.derive = .ok rawCap := by
  constructor
  · rintro ⟨src', c, rawCap, hsrc', h⟩
    obtain rfl := Except.ok.inj (hsrc.symm.trans hsrc')
    exact ⟨c, rawCap, h⟩
  · rintro ⟨c, rawCap, h⟩
    exact ⟨src, c, rawCap, hsrc, h⟩

/-- The checks of the destination let the rest run only on an empty slot. -/
theorem StopsEarly.dest_err_iff {α : Type} {destRoot : CapabilityData} {capptr depthBits p : Nat}
    (h : StopsEarly cfg s capptr destRoot depthBits p)
    (hend : destRoot.lookupEntryMut cfg capptr depthBits s ≠ .error (.halt .hang))
    (rest : Nat → KR α) :
    (∃ x, (do
      let destSlot ← destRoot.lookupEntryMut cfg capptr depthBits
      let dest ← readSlot destSlot
      require dest.isNone (kerr .notEmptySlot 0)
      rest destSlot : KR α) s = .error (.err x)) ↔
      (s.capAt p = none → ∃ x, rest p s = .error (.err x)) := by
  rcases h.lookupEntryMut hend with hdest | ⟨hne, x, hdest⟩
  · have hp := CapabilityData.isSlot_of_lookupEntryMut hdest
    rw [Query.bind_of_ok hdest, Query.bind_of_ok (readSlot_ok.2 ⟨hp, rfl⟩), require_bind,
      KState.capAt]
    cases hp : s.slots p with
    | some d => exact ⟨fun _ hnone => absurd hnone (Option.some_ne_none _), fun _ => ⟨_, rfl⟩⟩
    | none =>
      rw [if_pos (show (none : Option CNodeEntry).isNone = true from rfl)]
      exact ⟨fun herr _ => herr, fun herr => herr rfl⟩
  · rw [Query.bind_of_error hdest]
    exact ⟨fun _ hnone => absurd hnone hne, fun _ => ⟨x, rfl⟩⟩

/-- `derive` only fails with an error. -/
theorem derive_err_iff {α : Type} (c : CapabilityData) (f : CapabilityData → α) :
    (∃ x, (do let rawCap ← c.derive; return f rawCap : KR α) s = .error (.err x)) ↔
      ∀ rawCap, c.derive ≠ .ok rawCap := by
  cases hd : c.derive with
  | error x =>
    obtain ⟨y, rfl⟩ := CapabilityData.derive_error hd
    refine ⟨fun _ rawCap hok => ?_, fun _ => ⟨y, rfl⟩⟩
    cases hok
  | ok rawCap =>
    refine ⟨fun h => ?_, fun hne => absurd rfl (hne rawCap)⟩
    obtain ⟨x, hx⟩ := h
    cases hx

/-- **Where the path stops early** the checks are answered with an error if and only if the lookup
of the source returns, and the slot is occupied whenever the source is ready. -/
theorem StopsEarly.err_iff {reg : Registers} {rootCnode destRoot : CapabilityData} {p : Nat}
    (h : StopsEarly cfg s reg.a5.toNat destRoot (reg.a4.toNat % 2 ^ 32) p)
    (hend : destRoot.lookupEntryMut cfg reg.a5.toNat (reg.a4.toNat % 2 ^ 32) s ≠
      .error (.halt .hang)) :
    (∃ e, checkCNode cfg reg rootCnode destRoot s = .error (.err e)) ↔
      (∀ x, rootCnode.lookupEntryMut cfg reg.a3.toNat (reg.a4.toNat >>> 32) s ≠
        .error (.halt x)) ∧ (SourceReady cfg s reg rootCnode → s.capAt p ≠ none) := by
  unfold checkCNode
  cases hsrc : rootCnode.lookupEntryMut cfg reg.a3.toNat (reg.a4.toNat >>> 32) s with
  | error x =>
    rw [Query.bind_of_error hsrc]
    have hnot : ¬SourceReady cfg s reg rootCnode := by
      rintro ⟨src, c, rawCap, hsrc', -⟩
      cases hsrc.symm.trans hsrc'
    cases x with
    | err e =>
      refine ⟨fun _ => ⟨fun x hx => ?_, fun hready => absurd hready hnot⟩, fun _ => ⟨e, rfl⟩⟩
      cases hx
    | halt x =>
      refine ⟨fun h => ?_, fun h => absurd rfl (h.1 x)⟩
      obtain ⟨e, he⟩ := h
      cases he
  | ok src =>
    have hslot := CapabilityData.isSlot_of_lookupEntryMut hsrc
    rw [Query.bind_of_ok hsrc, sourceReady_iff hsrc, KState.capAt]
    refine Iff.trans ?_ (and_iff_right fun x hx => by cases hx).symm
    cases he : s.slots src with
    | none =>
      rw [Query.bind_of_error (occupied_of_none hslot he)]
      refine ⟨fun _ => ?_, fun _ => ⟨_, rfl⟩⟩
      rintro ⟨c, rawCap, hc, -⟩
      cases hc
    | some e =>
      rw [Query.bind_of_ok (occupied_ok.2 ⟨hslot, he⟩), StopsEarly.dest_err_iff h hend,
        derive_err_iff e.cap]
      constructor
      · rintro hrest ⟨c, rawCap, hc, hd⟩ hnone
        obtain rfl := Option.some.inj hc
        exact hrest hnone rawCap hd
      · intro hfull hnone rawCap hd
        exact hfull ⟨e.cap, rawCap, rfl, hd⟩ hnone

theorem handleInvocation_of_find {invLabel : InvLabel} {reg : Registers} {inv : Invocation}
    {k : CapabilityType} (hinv : findInvocation cfg reg.a0.toNat reg.a1.toNat s = .ok inv)
    (hk : inv.cap.getCapType = .ok k) :
    handleInvocation cfg invLabel reg s = invoke cfg invLabel reg inv k s := by
  rw [handleInvocation, lift_bind_of_ok hinv, bind_of_ok (liftExcept_ok.2 ⟨hk, rfl⟩)]

/-- A CNode invocation that succeeds has filled the empty slot at the end of a path that uses all
bits, and no other. Where the path stops early it answers with an error and changes nothing. -/
def FillsResolved (cfg : Config) (s : KState) (invLabel : InvLabel) (reg : Registers)
    (destRoot : CapabilityData) : Prop :=
  (∀ v s', handleInvocation cfg invLabel reg s = .ok v s' →
    ∃ p, SlotPath cfg s reg.a5.toNat destRoot (reg.a4.toNat % 2 ^ 32) p 0 ∧
      s.capAt p = none ∧ s'.capAt p ≠ none ∧
      ∀ q ≠ p, cfg.isLocal q = false → s.capAt q = none → s'.capAt q = none) ∧
  ∀ p, StopsEarly cfg s reg.a5.toNat destRoot (reg.a4.toNat % 2 ^ 32) p →
    ∃ e, handleInvocation cfg invLabel reg s = .error (.err e) s

/-- **CNode invocations** fill the slot that the destination stands for if and only if, where its
path stops early, the lookup of the source returns and the slot is occupied whenever the source is
ready. The model's bound on the iterations of a lookup is not to be reached. -/
theorem resolved_iff (hwf : HeapWF cfg s) {invLabel : InvLabel} {reg : Registers} {inv : Invocation}
    (hinv : findInvocation cfg reg.a0.toNat reg.a1.toNat s = .ok inv)
    (hk : inv.cap.getCapType = .ok .cNode)
    (hend : ∀ p, StopsEarly cfg s reg.a5.toNat inv.cap (reg.a4.toNat % 2 ^ 32) p →
      inv.cap.lookupEntryMut cfg reg.a5.toNat (reg.a4.toNat % 2 ^ 32) s ≠ .error (.halt .hang)) :
    FillsResolved cfg s invLabel reg inv.cap ↔
      ∀ p, StopsEarly cfg s reg.a5.toNat inv.cap (reg.a4.toNat % 2 ^ 32) p →
        (∀ x, inv.rootCnode.lookupEntryMut cfg reg.a3.toNat (reg.a4.toNat >>> 32) s ≠
          .error (.halt x)) ∧ (SourceReady cfg s reg inv.rootCnode → s.capAt p ≠ none) := by
  have herr : ∀ p, StopsEarly cfg s reg.a5.toNat inv.cap (reg.a4.toNat % 2 ^ 32) p →
      ((∃ e, handleInvocation cfg invLabel reg s = .error (.err e) s) ↔
        ∃ e, checkCNode cfg reg inv.rootCnode inv.cap s = .error (.err e)) := fun p hp => by
    rw [handleInvocation_of_find hinv hk]
    exact invokeCNode_err_iff ..
  refine ⟨fun h p hp => ?_, fun h => ⟨fun v s' hok => ?_, fun p hp => ?_⟩⟩
  · exact (StopsEarly.err_iff hp (hend p hp)).1 ((herr p hp).1 (h.2 p hp))
  swap
  · exact (herr p hp).2 ((StopsEarly.err_iff hp (hend p hp)).2 (h p hp))
  rw [handleInvocation_of_find hinv hk] at hok
  obtain ⟨src, e, dest, rawCap, hsrc, hslot, he, hdest, hp, hnone, hd, hinstall⟩ :=
    invokeCNode_ok hok
  have hcap : s.capAt src = some e.cap := congrArg (Option.map _) he
  have hempty : s.capAt dest = none := congrArg (Option.map _) hnone
  have hpath : SlotPath cfg s reg.a5.toNat inv.cap (reg.a4.toNat % 2 ^ 32) dest 0 := by
    refine (CapabilityData.slotPath_of_lookupLoop hdest).resolve_right fun hstop => ?_
    exact (h dest hstop).2 ⟨src, e.cap, rawCap, hsrc, hcap, hd⟩ hempty
  obtain ⟨-, hafter⟩ :=
    installEntry_capAt (ne_localAddr (hwf.not_isLocal hslot) .invocation) hinstall
  refine ⟨dest, hpath, hempty, ?_, fun q hq hlocal hq' => ?_⟩
  · rw [hafter dest (ne_localAddr (hwf.not_isLocal hp) .invocation), if_pos rfl]
    nofun
  · rw [hafter q (ne_localAddr hlocal .invocation), if_neg hq, hq', ite_self]

namespace Small

/-- `CNodeCopy` of the table's capability, to a destination with four bits. -/
def copyToRegs (destIndex : UInt64) : Registers :=
  { ecallRegs 1 3 9 with a3 := 3, a4 := 3 * 2 ^ 32 + 4, a5 := destIndex }

def threadInfo : ThreadInfo where
  status := .runnable
  rootCnode := some (.newWithRawcap cnodeCap)
  vspace := some (.newWithRawcap rootCap)
  registers := { sstatus := 0x20 }

def cnodeInvocation : Invocation := ⟨thread, threadInfo, cnodeCap, slot 1, cnodeCap⟩

theorem findInvocation_cnode (destIndex : UInt64) :
    findInvocation .virt (copyToRegs destIndex).a0.toNat (copyToRegs destIndex).a1.toNat state =
      .ok cnodeInvocation := by
  rw [show (copyToRegs destIndex).a0.toNat = 1 from rfl,
    show (copyToRegs destIndex).a1.toNat = 3 from rfl]
  rfl

end Small

/-- The path of the destination stops at the table's capability. -/
theorem resolved_at_table : HeapWF .virt Small.state ∧
    StopsEarly .virt Small.state 6 Small.cnodeCap 4 (Small.slot 3) ∧
    FillsResolved .virt Small.state .cNodeCopy (Small.copyToRegs 6) Small.cnodeCap := by
  have hstep : Small.cnodeCap.lookupStep .virt 6 4 = .ok (Small.slot 3, 1) := by decide
  have hcap : Small.state.capAt (Small.slot 3) = some Small.tableCap := by decide
  refine ⟨Small.anchored.heap, ⟨1, .here hstep (by decide), by decide, fun d hd => ?_⟩, ?_⟩
  · obtain rfl := Option.some.inj (hcap.symm.trans hd)
    decide
  · have hend : Small.cnodeCap.lookupEntryMut .virt 6 4 Small.state ≠ .error (.halt .hang) := by
      decide
    refine (resolved_iff Small.anchored.heap (Small.findInvocation_cnode 6) (by decide)
      fun _ _ => hend).2 fun p hp => ⟨fun x => by cases x <;> decide, fun _ => ?_⟩
    obtain ⟨rem, hpath, -, -⟩ := hp
    cases hpath with
    | here hstep' _ =>
      obtain ⟨rfl, -⟩ := Prod.mk.inj (Except.ok.inj (hstep.symm.trans hstep'))
      exact hcap ▸ nofun
    | next hstep' _ _ hd hk _ =>
      obtain ⟨rfl, -⟩ := Prod.mk.inj (Except.ok.inj (hstep.symm.trans hstep'))
      obtain rfl := Option.some.inj (hcap.symm.trans hd)
      exact absurd hk (by decide)

/-- Four bits lead to slot 5 with one bit left over, and the copy is put there. -/
theorem not_resolved_at_empty : StopsEarly .virt Small.state 10 Small.cnodeCap 4 (Small.slot 5) ∧
    (∃ v s', handleInvocation .virt .cNodeCopy (Small.copyToRegs 10) Small.state = .ok v s' ∧
      s'.capAt (Small.slot 5) = some Small.tableCap) ∧
    ¬FillsResolved .virt Small.state .cNodeCopy (Small.copyToRegs 10) Small.cnodeCap := by
  have hstop : StopsEarly .virt Small.state 10 Small.cnodeCap 4 (Small.slot 5) := by
    refine ⟨1, .here (by decide) (by decide), by decide, fun d hd => ?_⟩
    cases (by decide : Small.state.capAt (Small.slot 5) = none).symm.trans hd
  obtain ⟨v, s', hok, hcap⟩ := exists_of_endsIn
    (by decide +kernel : endsIn
      (handleInvocation .virt .cNodeCopy (Small.copyToRegs 10) Small.state)
      (fun s' => s'.capAt (Small.slot 5) = some Small.tableCap) = true)
  refine ⟨hstop, ⟨v, s', hok, of_decide_eq_true hcap⟩, fun h => ?_⟩
  obtain ⟨e, herr⟩ := h.2 _ hstop
  cases hok.symm.trans herr

/-! ## `CNodeMove` -/

/-- A capability that `derive` returns as it is. -/
def CapabilityData.Movable (c : CapabilityData) : Prop :=
  c.getCapType = .ok .cNode ∨ c.getCapType = .ok .pageTable ∨
    (c.getCapType = .ok .notification ∨ c.getCapType = .ok .endPoint) ∧ c.capDepVal = 0

theorem CapabilityData.derive_self_iff {c : CapabilityData} : c.derive = .ok c ↔ c.Movable := by
  have hzero : c.setCapDepVal 0 = c ↔ c.capDepVal = 0 :=
    ⟨fun h => (congrArg CapabilityData.capDepVal h).symm, fun h => by rw [← h]; rfl⟩
  unfold derive Movable
  cases hk : c.getCapType with
  | error e => simp [Bind.bind, Except.bind]
  | ok k =>
    rw [except_ok_bind]
    cases k with
    | tcb => simp [throw, throwThe, MonadExceptOf.throw]
    | untyped => simp [throw, throwThe, MonadExceptOf.throw]
    | cNode => simp [except_pure_ok]
    | pageTable => simp [except_pure_ok]
    | notification => simp [except_pure_ok, hzero]
    | endPoint => simp [except_pure_ok, hzero]
    | page =>
      -- a page that is marked as mapped has a bit set
      refine ⟨fun h => ?_, by simp⟩
      cases hm : c.isMapped with
      | false =>
        rw [hm] at h
        cases h
      | true =>
        rw [hm] at h
        have hval := hzero.1 (Except.ok.inj h)
        rw [isMapped, hval] at hm
        cases hm

/-- An entry that can be written. -/
def KState.Linkable (cfg : Config) (s : KState) (p : Nat) : Prop :=
  s.isSlot p = true ∨ cfg.isLocal p = true

theorem setLink_of_linkable {p node : Nat} {isNext : Bool} (h : s.Linkable cfg p) :
    setLink cfg p isNext node s = .ok () (s.relink p (·.setNode isNext node)) := by
  have h : (s.isSlot p || cfg.isLocal p) = true := by simpa [KState.Linkable] using h
  rw [setLink, bind_of_ok (get_ok.2 ⟨rfl, rfl⟩), if_pos h]
  rfl

theorem linkable_of_setLink {p node : Nat} {isNext : Bool} {u : Unit}
    (h : setLink cfg p isNext node s = .ok u s') : s.Linkable cfg p := by
  by_contra hlive
  have hlive : ¬(s.isSlot p || cfg.isLocal p) = true := by simpa [KState.Linkable] using hlive
  rw [setLink, bind_of_ok (get_ok.2 ⟨rfl, rfl⟩), if_neg hlive] at h
  cases h

theorem setNode_of_linkable {p node : Nat} {isNext : Bool} (hp : s.Linkable cfg p)
    (hnode : s.Linkable cfg node) : setNode cfg p node isNext s =
      .ok () ((s.relink p (·.setNode isNext node)).relink node (·.setNode (!isNext) p)) := by
  rw [setNode, bind_of_ok (setLink_of_linkable hp)]
  exact setLink_of_linkable hnode

/-- The links that `CNodeEntry::replace` follows from the entry `e` in slot `p`. An entry that is
its own next one has its link to the previous entry written before it is read. -/
def CNodeEntry.LinksWritable (cfg : Config) (s : KState) (p : Nat) (e : CNodeEntry) : Prop :=
  (∀ n, e.mdb.getNode true = some n → s.Linkable cfg n) ∧
    (e.mdb.getNode true ≠ some p → ∀ n, e.mdb.getNode false = some n → s.Linkable cfg n)

theorem getLink_of_slot {p : Nat} {e : CNodeEntry} (he : s.slots p = some e) (isNext : Bool) :
    getLink p isNext s = .ok (e.mdb.getNode isNext) := by
  rw [getLink, Query.bind_of_ok (deref_ok.2 he)]
  rfl

/-- The half of `replace` for one neighbour returns if and only if the neighbour can be written. -/
theorem replacePrev_iff {p src : Nat} {e : CNodeEntry} (hp : cfg.isLocal p = true)
    (he : s.slots src = some e) : (∃ u s', replacePrev cfg p src s = .ok u s') ↔
      ∀ n, e.mdb.getNode false = some n → s.Linkable cfg n := by
  rw [replacePrev, lift_bind_of_ok (getLink_of_slot he false)]
  cases hn : e.mdb.getNode false with
  | none => exact ⟨fun _ _ h => (nomatch h), fun _ => ⟨(), s, rfl⟩⟩
  | some n =>
    refine ⟨?_, fun h => ?_⟩
    · rintro ⟨u, s', h⟩ _ heq
      obtain rfl := Option.some.inj heq
      obtain ⟨_, _, hset, -⟩ := bind_ok.1 h
      obtain ⟨_, _, hlink, -⟩ := bind_ok.1 hset
      exact linkable_of_setLink hlink
    · have hn : s.Linkable cfg n := h n rfl
      exact ⟨(), _, bind_ok.2 ⟨(), _, setNode_of_linkable hn (.inr hp),
        setNode_of_linkable (.inr hp) hn⟩⟩

theorem linkable_of_replaceNext {p src n : Nat} {e : CNodeEntry} {u : Unit}
    (he : s.slots src = some e) (h : replaceNext cfg p src s = .ok u s')
    (hn : e.mdb.getNode true = some n) : s.Linkable cfg n := by
  rw [replaceNext, lift_bind_of_ok (getLink_of_slot he true), hn] at h
  obtain ⟨_, _, hset, -⟩ := bind_ok.1 h
  obtain ⟨_, _, hlink, -⟩ := bind_ok.1 hset
  exact linkable_of_setLink hlink

/-- The other half writes the link to the previous entry if the entry is its own next one. -/
theorem replaceNext_of_linkable {p src : Nat} {e : CNodeEntry} (hp : cfg.isLocal p = true)
    (hout : Outside cfg p) (hne : src ≠ p) (he : s.slots src = some e)
    (hlive : ∀ n, e.mdb.getNode true = some n → s.Linkable cfg n) :
    ∃ s' e', replaceNext cfg p src s = .ok () s' ∧ s'.slots src = some e' ∧
      s'.objects = s.objects ∧ e'.mdb.getNode false =
        if e.mdb.getNode true = some src then some p else e.mdb.getNode false := by
  rw [replaceNext, lift_bind_of_ok (getLink_of_slot he true)]
  cases hn : e.mdb.getNode true with
  | none => exact ⟨s, e, rfl, he, rfl, rfl⟩
  | some n =>
    have hn : s.Linkable cfg n := hlive n hn
    refine ⟨_, if n = src then { e with mdb := (e.mdb.setNode false p).setNode false p } else e,
      bind_ok.2 ⟨(), _, setNode_of_linkable hn (.inr hp), setNode_of_linkable (.inr hp) hn⟩,
      ?_, rfl, ?_⟩
    · by_cases hsrc : n = src
      · subst hsrc
        rw [if_pos rfl]
        refine KState.slots_relink_self (e := { e with mdb := e.mdb.setNode false p }) ?_ _
        rw [KState.slots_relink_of_ne _ hne, KState.slots_relink_of_ne _ hne]
        exact KState.slots_relink_self he _
      · rw [if_neg hsrc, KState.slots_relink_of_ne _ (Ne.symm hsrc),
          KState.slots_relink_of_ne _ hne, KState.slots_relink_of_ne _ hne,
          KState.slots_relink_of_ne _ (Ne.symm hsrc), he]
    · by_cases hsrc : n = src
      · subst hsrc
        rw [if_pos rfl, if_pos rfl]
        exact getNode_setNode _ hout.pfx_le hout.lt
      · rw [if_neg hsrc, if_neg fun h => hsrc (Option.some.inj h)]

/-- `replace` returns if and only if the links that it follows lead to entries. -/
theorem replaceEntry_iff {p src : Nat} {e : CNodeEntry} (hp : cfg.isLocal p = true)
    (hout : Outside cfg p) (hne : src ≠ p) (he : s.slots src = some e) :
    (∃ u s', replaceEntry cfg p src s = .ok u s') ↔ e.LinksWritable cfg s src := by
  have hlive : ∀ {v : KState} {n : Nat}, v.objects = s.objects →
      (v.Linkable cfg n ↔ s.Linkable cfg n) := fun hobj => by
    rw [KState.Linkable, KState.Linkable, KState.isSlot, KState.isSlot, hobj]
  constructor
  · rintro ⟨u, s', h⟩
    obtain ⟨_, v, hreplace, h⟩ := bind_ok.1 h
    have hnext : ∀ n, e.mdb.getNode true = some n → s.Linkable cfg n := fun n hn =>
      linkable_of_replaceNext he hreplace hn
    refine ⟨hnext, fun hself n hn => ?_⟩
    obtain ⟨v', e', hreplace', he', hobj, hlink⟩ := replaceNext_of_linkable hp hout hne he hnext
    obtain ⟨-, rfl⟩ := EStateM.Result.ok.inj (hreplace.symm.trans hreplace')
    rw [if_neg hself] at hlink
    exact (hlive hobj).1 ((replacePrev_iff hp he').1 ⟨u, s', h⟩ n (hlink.trans hn))
  · rintro ⟨hnext, hprev⟩
    obtain ⟨v, e', hreplace, he', hobj, hlink⟩ := replaceNext_of_linkable hp hout hne he hnext
    have hprev' : ∀ n, e'.mdb.getNode false = some n → v.Linkable cfg n := fun n hn => by
      rw [hlink] at hn
      split at hn
      · obtain rfl := Option.some.inj hn
        exact .inr hp
      · next hself => exact (hlive hobj).2 (hprev hself n hn)
    obtain ⟨u, s', h⟩ := (replacePrev_iff hp he').2 hprev'
    exact ⟨u, s', bind_ok.2 ⟨(), v, hreplace, h⟩⟩

/-- `CNodeMove` returns, the capability is in its new slot as it was in the old one, and all other
slots have what they had. -/
def MovesExactly (cfg : Config) (s : KState) (reg : Registers) (src dest : Nat)
    (c : CapabilityData) : Prop :=
  ∃ v s', handleInvocation cfg .cNodeMove reg s = .ok v s' ∧ s'.capAt dest = some c ∧
    s'.capAt src = none ∧ s'.tcbs = s.tcbs ∧
    ∀ q, cfg.isLocal q = false → q ≠ src → q ≠ dest → s'.capAt q = s.capAt q

theorem installEntry_move_iff {src : Nat} {e : CNodeEntry} (hsrc : cfg.isLocal src = false)
    (he : s.slots src = some e) (cap : CapabilityData) (dest : Nat) :
    (∃ u s', installEntry cfg .cNodeMove cap src dest s = .ok u s') ↔
      e.LinksWritable cfg s src := by
  have hne := ne_localAddr hsrc .invocation
  have he' : (s.setSlot (cfg.localAddr .invocation) (some (.newWithRawcap cap))).slots src =
      some e := (Function.update_of_ne hne ..).trans he
  have hreplace := replaceEntry_iff (isLocal_localAddr cfg .invocation)
    (outside_localAddr cfg .invocation) hne he'
  refine Iff.trans ?_ hreplace
  simp only [installEntry, linkNew, newLocal, moveEntry, if_true, bind_ok, modify_ok, pure_ok]
  constructor
  · rintro ⟨u, s', _, _, ⟨_, _, rfl, rfl, rfl⟩, _, _, ⟨_, v, h, -⟩, -⟩
    exact ⟨_, v, h⟩
  · rintro ⟨u, v, h⟩
    exact ⟨(), _, _, _, ⟨(), _, rfl, rfl, rfl⟩, (), _, ⟨u, v, h, rfl⟩, rfl⟩

/-- **`CNodeMove`** moves a capability as it is if and only if `derive` leaves it alone (a CNode, a
page table, or an endpoint or notification without a badge) and its links lead to entries. -/
theorem moves_iff (hwf : HeapWF cfg s) {reg : Registers} {inv : Invocation} {src dest : Nat}
    {e : CNodeEntry} (hinv : findInvocation cfg reg.a0.toNat reg.a1.toNat s = .ok inv)
    (hk : inv.cap.getCapType = .ok .cNode)
    (hsrc : inv.rootCnode.lookupEntryMut cfg reg.a3.toNat (reg.a4.toNat >>> 32) s = .ok src)
    (he : s.slots src = some e)
    (hdest : inv.cap.lookupEntryMut cfg reg.a5.toNat (reg.a4.toNat % 2 ^ 32) s = .ok dest)
    (hnone : s.slots dest = none) :
    MovesExactly cfg s reg src dest e.cap ↔ e.cap.Movable ∧ e.LinksWritable cfg s src := by
  have hslot := CapabilityData.isSlot_of_lookupEntryMut hsrc
  have hslot' := CapabilityData.isSlot_of_lookupEntryMut hdest
  have hlocal := hwf.not_isLocal hslot
  have hlocal' := hwf.not_isLocal hslot'
  have hne : src ≠ dest := by
    rintro rfl
    cases he.symm.trans hnone
  rw [MovesExactly, handleInvocation_of_find hinv hk, ← CapabilityData.derive_self_iff,
    ← installEntry_move_iff hlocal he e.cap dest]
  constructor
  · rintro ⟨v, s', h, hcap, -⟩
    obtain ⟨src', e', dest', rawCap, hsrc', -, he', hdest', -, -, hd, hinstall⟩ := invokeCNode_ok h
    obtain rfl := Except.ok.inj (hsrc.symm.trans hsrc')
    obtain rfl := Except.ok.inj (hdest.symm.trans hdest')
    obtain rfl := Option.some.inj (he.symm.trans he')
    have hafter := (installEntry_capAt (ne_localAddr hlocal .invocation) hinstall).2 dest
      (ne_localAddr hlocal' .invocation)
    rw [if_pos rfl, hcap] at hafter
    obtain rfl : e.cap = rawCap := Option.some.inj hafter
    exact ⟨hd, (), s', hinstall⟩
  · rintro ⟨hd, u, s', hinstall⟩
    obtain ⟨⟨slots, hslots⟩, hcap⟩ :=
      installEntry_capAt (ne_localAddr hlocal .invocation) hinstall
    refine ⟨none, s', ?_, ?_, ?_, by rw [hslots], fun q hq hqsrc hqdest => ?_⟩
    · change invokeCNode cfg .cNodeMove reg inv.rootCnode inv.cap s = _
      rw [invokeCNode_eq, lift_bind_of_ok (checkCNode_ok.2 ⟨e, hsrc, ⟨hslot, he⟩, hdest,
        ⟨hslot', hnone⟩, hd⟩)]
      exact bind_of_ok hinstall
    · rw [hcap dest (ne_localAddr hlocal' .invocation), if_pos rfl]
    · rw [hcap src (ne_localAddr hlocal .invocation), if_neg hne, if_pos ⟨rfl, rfl⟩]
    · rw [hcap q (ne_localAddr hq .invocation), if_neg hqdest, if_neg fun h => hqsrc h.2]

/-- `CNodeMove` of the table's capability into slot 5. -/
def Small.moveRegs : Registers :=
  { ecallRegs 1 3 11 with a3 := 3, a4 := 3 * 2 ^ 32 + 3, a5 := 5 }

theorem moves_table : HeapWF .virt Small.state ∧
    MovesExactly .virt Small.state Small.moveRegs (Small.slot 3) (Small.slot 5) Small.tableCap := by
  have hinv : findInvocation .virt Small.moveRegs.a0.toNat Small.moveRegs.a1.toNat Small.state =
      .ok Small.cnodeInvocation := rfl
  have hsrc : Small.cnodeCap.lookupEntryMut .virt 3 3 Small.state = .ok (Small.slot 3) := by decide
  have hdest : Small.cnodeCap.lookupEntryMut .virt 5 3 Small.state = .ok (Small.slot 5) := by
    decide
  have he : Small.state.slots (Small.slot 3) = some (.newWithRawcap Small.tableCap) := by decide
  refine ⟨Small.anchored.heap, (moves_iff Small.anchored.heap hinv (by decide) hsrc he hdest
    (by decide)).2 ⟨.inr (.inl (by decide)), nofun, fun _ => nofun⟩⟩

/-- After boot, the capability of the IPC buffer's page is moved, and comes out as not mapped. -/
theorem not_moves_page : ∃ s₀ inv c, Boot .virt demoImage s₀ ∧
    findInvocation .virt 2 18 s₀ = .ok inv ∧ inv.cap.getCapType = .ok .cNode ∧
    inv.rootCnode.lookupEntryMut .virt 4 18 s₀ = .ok (toKernelV 2151677952 + entrySize * 4) ∧
    s₀.capAt (toKernelV 2151677952 + entrySize * 4) = some c ∧
    c.getCapType = .ok .page ∧ c.isMapped = true ∧
    inv.cap.lookupEntryMut .virt 19 18 s₀ = .ok slot19 ∧ s₀.capAt slot19 = none ∧
    ¬MovesExactly .virt s₀ { ecallRegs 2 18 11 with a3 := 4, a4 := 18 * 2 ^ 32 + 18, a5 := 19 }
      (toKernelV 2151677952 + entrySize * 4) slot19 c := by
  obtain ⟨s₀, hboot, htest⟩ := exists_boot .virt demoImage
    (fun s₀ => okAnd (findInvocation .virt 2 18 s₀) (fun inv =>
        inv.cap.getCapType = .ok .cNode &&
        inv.rootCnode.lookupEntryMut .virt 4 18 s₀ = .ok (toKernelV 2151677952 + entrySize * 4) &&
        inv.cap.lookupEntryMut .virt 19 18 s₀ = .ok slot19) &&
      (s₀.capAt (toKernelV 2151677952 + entrySize * 4)).any (fun c =>
        c.getCapType = .ok .page && c.isMapped && s₀.capAt slot19 = none &&
        endsIn (handleInvocation .virt .cNodeMove
            { ecallRegs 2 18 11 with a3 := 4, a4 := 18 * 2 ^ 32 + 18, a5 := 19 } s₀)
          fun s' => s'.capAt slot19 ≠ some c))
    (by decide +kernel)
  obtain ⟨hfind, hcap⟩ := Bool.and_eq_true_iff.1 htest
  obtain ⟨inv, hinv, hfind⟩ := exists_of_okAnd hfind
  obtain ⟨c, hc, hcap⟩ := (Option.any_eq_true ..).1 hcap
  simp only [Bool.and_eq_true, decide_eq_true_eq] at hfind hcap
  obtain ⟨⟨hk, hsrc⟩, hdest⟩ := hfind
  obtain ⟨⟨⟨hpage, hmapped⟩, hnone⟩, hmove⟩ := hcap
  refine ⟨s₀, inv, c, hboot, hinv, hk, hsrc, hc, hpage, hmapped, hdest, hnone, ?_⟩
  rintro ⟨v, s', hok, hmoved, -⟩
  obtain ⟨v', s'', hok', hne⟩ := exists_of_endsIn hmove
  obtain ⟨-, rfl⟩ := EStateM.Result.ok.inj (hok.symm.trans hok')
  exact of_decide_eq_true hne hmoved

end Zoeax
