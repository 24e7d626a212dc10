import Zoeax.Verify.Authority

/-!
# Looking up capability pointers

`lookup_entry_mut` is a loop over the CNodes of a capability space, which may well be cyclic. Only
the number of bits left can decrease, by the radix of each CNode on the way: the loop ends after at
most `depth + 1` iterations as long as no radix is zero (`lookup_terminates_of_run`). A CNode of
radix 0 that holds itself is a trap (`lookup_hangs`).

The lookup composes (`CNodePath.append`): if a pointer leads to a CNode with nothing left over,
the pointer with an index of that CNode appended leads to that slot of the CNode.
-/

namespace Zoeax

open Lib Exec
open CapabilityType (entrySize)

variable {cfg : Config} {s : KState}

namespace CapabilityData

/-! ## One iteration -/

/-- One iteration of the loop of `lookup_entry_mut`: the slot, or the next CNode and the bits
left. -/
def lookupIter (cfg : Config) (c : CapabilityData) (capptr depthBits : Nat) :
    KR (Nat ⊕ CapabilityData × Nat) := do
  let (p, rem) ← c.lookupStep cfg capptr depthBits
  match ← readSlot p with
  | none => return .inl p
  | some e =>
    if rem = 0 then return .inl p
    else do
      let capType ← e.cap.getCapType
      if capType = .cNode then return .inr (e.cap, rem) else return .inl p

theorem lookupLoop_succ (n : Nat) (c : CapabilityData) (capptr depthBits : Nat) :
    lookupLoop cfg (n + 1) c capptr depthBits s =
      match c.lookupIter cfg capptr depthBits s with
      | .error e => .error e
      | .ok (.inl p) => .ok p
      | .ok (.inr (c', rem)) => lookupLoop cfg n c' capptr rem s := by
  rw [lookupLoop, lookupIter]
  cases hstep : (liftM (c.lookupStep cfg capptr depthBits) : KR (Nat × Nat)) s with
  | error e => rw [Query.bind_of_error hstep, Query.bind_of_error hstep]
  | ok r =>
    rw [Query.bind_of_ok hstep, Query.bind_of_ok hstep]
    obtain ⟨p, rem⟩ := r
    dsimp only
    cases hread : readSlot p s with
    | error e => rw [Query.bind_of_error hread, Query.bind_of_error hread]
    | ok slot =>
      rw [Query.bind_of_ok hread, Query.bind_of_ok hread]
      cases slot with
      | none => rfl
      | some e =>
        dsimp only
        split
        · rfl
        · cases hk : (liftM e.cap.getCapType : KR CapabilityType) s with
          | error e => rw [Query.bind_of_error hk, Query.bind_of_error hk]
          | ok k =>
            rw [Query.bind_of_ok hk, Query.bind_of_ok hk]
            split <;> rfl

/-- The next CNode is in the slot that the step computed, and there are bits left for it. -/
theorem lookupIter_next {c c' : CapabilityData} {capptr depthBits rem : Nat}
    (h : c.lookupIter cfg capptr depthBits s = .ok (.inr (c', rem))) :
    ∃ p, c.lookupStep cfg capptr depthBits = .ok (p, rem) ∧ s.isSlot p = true ∧
      s.capAt p = some c' ∧ c'.getCapType = .ok .cNode ∧ rem ≠ 0 := by
  simp only [lookupIter, Query.bind_ok, Query.lift_ok] at h
  obtain ⟨⟨p, r⟩, hstep, slot, hread, h⟩ := h
  obtain ⟨hslot, rfl⟩ := readSlot_ok.1 hread
  cases he : s.slots p with
  | none =>
    rw [he] at h
    cases Query.pure_ok.1 h
  | some e =>
    rw [he] at h
    dsimp only at h
    split at h
    · cases Query.pure_ok.1 h
    · next hrem =>
      simp only [Query.bind_ok, Query.lift_ok] at h
      obtain ⟨k, hk, h⟩ := h
      split at h
      · next hcnode =>
        obtain ⟨rfl, rfl⟩ := Prod.mk.inj (Sum.inr.inj (Query.pure_ok.1 h))
        exact ⟨p, hstep, hslot, by rw [KState.capAt, he]; rfl, hcnode ▸ hk, hrem⟩
      · cases Query.pure_ok.1 h

theorem lookupIter_of_cnode {c c' : CapabilityData} {capptr depthBits p rem : Nat}
    (hstep : c.lookupStep cfg capptr depthBits = .ok (p, rem)) (hslot : s.isSlot p = true)
    (hcap : s.capAt p = some c') (hk : c'.getCapType = .ok .cNode) (hrem : rem ≠ 0) :
    c.lookupIter cfg capptr depthBits s = .ok (.inr (c', rem)) := by
  obtain ⟨e, he, rfl⟩ := Option.map_eq_some_iff.1 hcap
  refine Query.bind_ok.2 ⟨(p, rem), hstep, Query.bind_ok.2 ⟨some e, readSlot_ok.2 ⟨hslot, he⟩, ?_⟩⟩
  dsimp only
  rw [if_neg hrem]
  exact Query.bind_ok.2 ⟨.cNode, hk, rfl⟩

theorem lookupLoop_of_cnode {c c' : CapabilityData} {capptr depthBits p rem : Nat}
    (hstep : c.lookupStep cfg capptr depthBits = .ok (p, rem)) (hslot : s.isSlot p = true)
    (hcap : s.capAt p = some c') (hk : c'.getCapType = .ok .cNode) (hrem : rem ≠ 0) (n : Nat) :
    lookupLoop cfg (n + 1) c capptr depthBits s = lookupLoop cfg n c' capptr rem s := by
  rw [lookupLoop_succ, lookupIter_of_cnode hstep hslot hcap hk hrem]

theorem lookupStep_rem {c : CapabilityData} {capptr depthBits p rem : Nat}
    (h : c.lookupStep cfg capptr depthBits = .ok (p, rem)) :
    c.radix ≤ depthBits ∧ rem = depthBits - c.radix := by
  simp only [lookupStep, except_bind_ok, require_ok, decide_eq_true_eq, except_pure_ok,
    Prod.mk.injEq] at h
  obtain ⟨-, hle, -, -, -, -, -, -, -, -, -, -, -, -, -, rfl⟩ := h
  exact ⟨hle, rfl⟩

/-! ## Termination -/

/-- A single iteration does not hang. -/
theorem lookupIter_ne_hang (c : CapabilityData) (capptr depthBits : Nat) :
    c.lookupIter cfg capptr depthBits s ≠ .error (.halt .hang) := by
  have harith : ∀ {α : Type} (x : Option α), arith x ≠ .error (.halt .hang) := by
    intro α x
    cases x <;> nofun
  have hrequire : ∀ (b : Bool) (e : Stop), e ≠ .halt .hang →
      require b e ≠ .error (.halt .hang) := by
    intro b e he
    cases b with
    | true => nofun
    | false => exact fun h => he (Except.error.inj h)
  have hstep : c.lookupStep cfg capptr depthBits ≠ .error (.halt .hang) := by
    refine except_bind_ne (hrequire _ _ nofun) fun _ => except_bind_ne (harith _) fun _ => ?_
    refine except_bind_ne (hrequire _ _ ?_) fun _ => ?_
    · split <;> nofun
    · exact except_bind_ne (harith _) fun _ => except_bind_ne (harith _) fun _ =>
        except_bind_ne (harith _) fun _ => except_bind_ne (hrequire _ _ nofun) fun _ => nofun
  refine except_bind_ne hstep fun r => except_bind_ne ?_ fun slot => ?_
  · change (if s.isSlot r.1 then _ else _ : KR (Option CNodeEntry)) s ≠ _
    split <;> nofun
  · cases slot with
    | none => nofun
    | some e =>
      dsimp only
      split
      · nofun
      · refine except_bind_ne ?_ fun k => ?_
        · change capTryFromU8 _ ≠ _
          unfold capTryFromU8
          split <;> nofun
        · dsimp only
          split <;> nofun

/-- No CNode capability in a slot has radix 0. -/
def RadixPos (s : KState) : Prop :=
  ∀ p c, s.capAt p = some c → c.getCapType = .ok .cNode → c.radix ≠ 0

/-- **The loop ends after at most `depthBits + 1` iterations**: any bound above `depthBits` is
enough, and none makes a difference. -/
theorem lookupLoop_terminates (hs : RadixPos s) {c : CapabilityData} (hc : c.radix ≠ 0)
    (capptr : Nat) {depthBits n : Nat} (hn : depthBits < n) :
    lookupLoop cfg n c capptr depthBits s ≠ .error (.halt .hang) ∧
    lookupLoop cfg n c capptr depthBits s =
      lookupLoop cfg (depthBits + 1) c capptr depthBits s := by
  -- the bits left are the measure
  induction depthBits using Nat.strong_induction_on generalizing c n with
  | _ depthBits ih =>
    obtain ⟨n, rfl⟩ := Nat.exists_eq_succ_of_ne_zero (by omega : n ≠ 0)
    rw [lookupLoop_succ, lookupLoop_succ]
    cases hiter : c.lookupIter cfg capptr depthBits s with
    | error e =>
      refine ⟨fun h => ?_, rfl⟩
      obtain rfl : e = .halt .hang := Except.error.inj h
      exact lookupIter_ne_hang c capptr depthBits hiter
    | ok r =>
      rcases r with p | ⟨c', rem⟩
      · exact ⟨nofun, rfl⟩
      · obtain ⟨p, hstep, -, hcap, hk, hrem⟩ := lookupIter_next hiter
        obtain ⟨hle, rfl⟩ := lookupStep_rem hstep
        have hlt : depthBits - c.radix < depthBits := by omega
        obtain ⟨hne, heq⟩ := ih _ hlt (hs p c' hcap hk) (show depthBits - c.radix < n by omega)
        obtain ⟨-, heq'⟩ := ih _ hlt (hs p c' hcap hk) hlt
        exact ⟨hne, heq.trans heq'.symm⟩

/-- **Lookups hang** in a CNode of radix 0 that holds itself. -/
theorem lookupLoop_self {c : CapabilityData} {p : Nat} {capptr depthBits : Nat}
    (hstep : c.lookupStep cfg capptr depthBits = .ok (p, depthBits)) (hbits : depthBits ≠ 0)
    (hslot : s.isSlot p = true) (hcap : s.capAt p = some c) (hk : c.getCapType = .ok .cNode)
    (n : Nat) : lookupLoop cfg n c capptr depthBits s = .error (.halt .hang) := by
  induction n with
  | zero => rfl
  | succ n ih => rw [lookupLoop_of_cnode hstep hslot hcap hk hbits, ih]

end CapabilityData

/-! ## In every run -/

/-- **Lookups terminate** in every run from boot that meets the conditions and in which no CNode is
made with radix 0: after at most `depthBits + 1` iterations. -/
theorem lookup_terminates_of_run {image : Image} {s₀ : KState} (hboot : Boot cfg image s₀)
    (hrun : Run cfg (GuardedFits cfg) s₀ s)
    (hobjects : ∀ o ∈ s.objects, o.kind = .cNode → o.userSize ≠ 0) {c : CapabilityData}
    (hc : s.HasCap c) (hk : c.getCapType = .ok .cNode) (capptr depthBits : Nat) :
    CapabilityData.lookupLoop cfg (depthBits + 1) c capptr depthBits s ≠ .error (.halt .hang) ∧
    ∀ n > depthBits, CapabilityData.lookupLoop cfg n c capptr depthBits s =
      CapabilityData.lookupLoop cfg (depthBits + 1) c capptr depthBits s := by
  have hpos : ∀ c, s.HasCap c → c.getCapType = .ok .cNode → c.radix ≠ 0 := by
    intro c hc hk
    obtain ⟨o, ho, hkind, -, hradix⟩ := (capsAll_confined hboot hrun c hc).1 hk
    exact hradix ▸ hobjects o ho hkind
  have hs : CapabilityData.RadixPos s := fun p c hc hk => hpos c (.inl ⟨p, hc⟩) hk
  exact ⟨(CapabilityData.lookupLoop_terminates hs (hpos c hc hk) capptr (Nat.lt_succ_self _)).1,
    fun n hn => (CapabilityData.lookupLoop_terminates hs (hpos c hc hk) capptr hn).2⟩

/-- `UntypedRetype` of slot 9: a CNode of the given radix in slot 19. -/
def retypeCNodeRegs (radix : UInt64) : Registers :=
  { ecallRegs 9 18 2 with a3 := 2, a4 := 18 + 19 * 2 ^ 32, a5 := 1 + radix * 2 ^ 32, a6 := 7 }

/-- The root server makes a CNode of radix 4. -/
theorem lookup_terminates_after_retype : ∃ s₀ s, Boot .virt demoImage s₀ ∧
    Run .virt (GuardedFits .virt) s₀ s ∧ (∃ o ∈ s.objects, o.kind = .cNode ∧ o.userSize = 4) ∧
    ∀ c, s.HasCap c → c.getCapType = .ok .cNode → ∀ capptr depthBits : Nat,
      CapabilityData.lookupLoop .virt (depthBits + 1) c capptr depthBits s ≠
        .error (.halt .hang) := by
  obtain ⟨s₀, s, hboot, hrun, htest⟩ := exists_run_of_trace .virt (GuardedFits .virt) demoImage
    [.trap (retypeCNodeRegs 4)]
    (fun s => (∃ o ∈ s.objects, o.kind = .cNode ∧ o.userSize = 4) &&
      ∀ o ∈ s.objects, o.kind = .cNode → o.userSize ≠ 0) (by decide +kernel)
  simp only [Bool.and_eq_true, decide_eq_true_eq] at htest
  exact ⟨s₀, s, hboot, hrun, htest.1, fun c hc hk capptr depthBits =>
    (lookup_terminates_of_run hboot hrun htest.2 hc hk capptr depthBits).1⟩

/-- The address of slot 19 of the root CNode. -/
def slot19 : Nat := toKernelV 2151677952 + entrySize * 19

/-- The root server makes a CNode of radix 0 in slot 19 and copies its capability into it. The
lookup of the pointer `19 << 1` with 19 bits does not end. -/
theorem lookup_hangs : ∃ s₀ s c, Boot .virt demoImage s₀ ∧
    Run .virt (fun _ _ _ _ => True) s₀ s ∧ s.HasCap c ∧ c.getCapType = .ok .cNode ∧
    ∀ n, CapabilityData.lookupLoop .virt n c 38 19 s = .error (.halt .hang) := by
  obtain ⟨s₀, s, hboot, hrun, htest⟩ := exists_run_of_trace .virt (fun _ _ _ _ => True) demoImage
    [.trap (retypeCNodeRegs 0),
      .trap { ecallRegs 19 18 9 with a3 := 19, a4 := 18 * 2 ^ 32, a5 := 0 }]
    (fun s => s.isSlot slot19 && (s.capAt (toKernelV 2151677952 + entrySize * 2)).any fun c =>
      c.getCapType = .ok .cNode && c.lookupStep .virt 38 19 = .ok (slot19, 1) &&
      (s.capAt slot19).any fun d => d.getCapType = .ok .cNode &&
        s.isSlot (toKernelV d.getAddress) &&
        d.lookupStep .virt 38 1 = .ok (toKernelV d.getAddress, 1) &&
        s.capAt (toKernelV d.getAddress) = some d)
    (by decide +kernel)
  obtain ⟨hslot, htest⟩ := Bool.and_eq_true_iff.1 htest
  obtain ⟨c, hc, htest⟩ := (Option.any_eq_true ..).1 htest
  obtain ⟨htest', htest⟩ := Bool.and_eq_true_iff.1 htest
  obtain ⟨d, hd, htest⟩ := (Option.any_eq_true ..).1 htest
  simp only [Bool.and_eq_true, decide_eq_true_eq] at htest htest'
  obtain ⟨hk, hstep⟩ := htest'
  obtain ⟨⟨⟨hkd, hslotd⟩, hstepd⟩, hself⟩ := htest
  refine ⟨s₀, s, c, hboot, hrun, .inl ⟨_, hc⟩, hk, fun n => ?_⟩
  cases n with
  | zero => rfl
  | succ n =>
    rw [CapabilityData.lookupLoop_of_cnode hstep hslot hd hkd (by decide)]
    exact CapabilityData.lookupLoop_self hstepd (by decide) hslotd hself hkd n

/-! ## Composition -/

namespace CapabilityData

/-- The shift of a lookup step is one that the build compiles without an overflow, or does not
matter: with radix 0 there is only one slot. -/
def ShiftFits (cfg : Config) (c : CapabilityData) (depthBits : Nat) : Prop :=
  c.radix ≠ 0 ∨ depthBits < 64 ∨ cfg.profile = .release

/-- The bits that the mask keeps, whatever the shift of a CNode with one slot. -/
theorem ShiftFits.shr {c : CapabilityData} {depthBits : Nat} (h : ShiftFits cfg c depthBits)
    (hle : c.radix ≤ depthBits) (hdepth : depthBits ≤ 64) (capptr : Nat) :
    ∃ x, cfg.profile.shr capptr (depthBits - c.radix) = some x ∧
      x % 2 ^ c.radix = capptr / 2 ^ (depthBits - c.radix) % 2 ^ c.radix := by
  by_cases hlt : depthBits - c.radix < 64
  · exact ⟨_, Profile.shr_of_lt _ hlt, by rw [Nat.shiftRight_eq_div_pow]⟩
  · have hzero : c.radix = 0 := by omega
    have hrel : cfg.profile = .release := by
      rcases h with h | h | h
      · exact absurd hzero h
      · omega
      · exact h
    refine ⟨capptr >>> ((depthBits - c.radix) % 64), ?_, by
      rw [hzero, pow_zero, Nat.mod_one, Nat.mod_one]⟩
    rw [hrel, Profile.shr, Profile.shiftAmount, if_neg hlt]
    rfl

theorem shiftFits_of_lookupStep {c : CapabilityData} {capptr depthBits : Nat} {r : Nat × Nat}
    (h : c.lookupStep cfg capptr depthBits = .ok r) : ShiftFits cfg c depthBits := by
  by_contra hnot
  simp only [ShiftFits, not_or, not_not, not_lt] at hnot
  obtain ⟨hzero, hge, hrel⟩ := hnot
  have hdebug : cfg.profile = .debug := by
    cases hp : cfg.profile with
    | debug => rfl
    | release => exact absurd hp hrel
  simp only [lookupStep, except_bind_ok, arith_ok] at h
  obtain ⟨_, _, _, _, _, _, x, hshr, _⟩ := h
  rw [hdebug, Profile.shr, Profile.shiftAmount, if_neg (by omega)] at hshr
  cases hshr

theorem capacity_of_lt {c : CapabilityData} (hradix : c.radix < 64) :
    c.capacity cfg = .ok (2 ^ c.radix) := by
  rw [capacity, Profile.pow, Profile.wrap_of_lt _ (Nat.pow_lt_pow_right (by decide) hradix)]
  rfl

/-- A lookup step whose checks pass, for any result of the shift with the right lower bits. -/
theorem lookupStep_of_shr {c : CapabilityData} {capptr depthBits x : Nat}
    (hle : c.radix ≤ depthBits) (hfit : 2 ^ c.radix * entrySize < 2 ^ 63)
    (hshr : cfg.profile.shr capptr (depthBits - c.radix) = some x)
    (hx : x % 2 ^ c.radix = capptr / 2 ^ (depthBits - c.radix) % 2 ^ c.radix) :
    c.lookupStep cfg capptr depthBits = .ok (toKernelV c.getAddress +
      entrySize * (capptr / 2 ^ (depthBits - c.radix) % 2 ^ c.radix), depthBits - c.radix) := by
  have hradix : c.radix < 64 := by
    by_contra hge
    have : 2 ^ 64 ≤ 2 ^ c.radix := Nat.pow_le_pow_right (by decide) (not_lt.1 hge)
    rw [entrySize] at hfit
    omega
  have hpow : 2 ^ c.radix < 2 ^ 64 := Nat.pow_lt_pow_right (by decide) hradix
  have hone : 1 ≤ 2 ^ c.radix := Nat.one_le_two_pow
  have hslice : checkSlice cfg (2 ^ c.radix) = .ok () := by
    rw [checkSlice, require, if_pos (decide_eq_true hfit)]
  have hshl : cfg.profile.shl 1 c.radix = some (2 ^ c.radix) := by
    rw [Profile.shl, Profile.shiftAmount_of_lt _ hradix, Option.map_some, Nat.one_shiftLeft,
      Nat.mod_eq_of_lt hpow]
  have hoff : capptr / 2 ^ (depthBits - c.radix) % 2 ^ c.radix < 2 ^ c.radix :=
    Nat.mod_lt _ (by positivity)
  simp only [lookupStep, require, hle, decide_true, if_true, capacity_of_lt hradix, hslice, hshl,
    arith_some, hshr, Profile.sub_of_le _ hone, except_ok_bind, Nat.and_two_pow_sub_one_eq_mod, hx,
    hoff]
  rfl

/-- One level of a lookup with at most 64 bits: above the `depthBits - radix` lowest bits of the
pointer is the number of the slot. -/
theorem lookupStep_iff {c : CapabilityData} {capptr depthBits p rem : Nat}
    (hdepth : depthBits ≤ 64) :
    c.lookupStep cfg capptr depthBits = .ok (p, rem) ↔
      c.radix ≤ depthBits ∧ 2 ^ c.radix * entrySize < 2 ^ 63 ∧ ShiftFits cfg c depthBits ∧
        rem = depthBits - c.radix ∧
        p = toKernelV c.getAddress + entrySize * (capptr / 2 ^ rem % 2 ^ c.radix) := by
  constructor
  · intro h
    obtain ⟨hle, rfl⟩ := lookupStep_rem h
    obtain ⟨hfit, -⟩ := lookupStep_ok h
    have hshift := shiftFits_of_lookupStep h
    obtain ⟨x, hshr, hx⟩ := hshift.shr hle hdepth capptr
    obtain ⟨rfl, -⟩ := Prod.mk.inj (Except.ok.inj (h.symm.trans
      (lookupStep_of_shr hle hfit hshr hx)))
    exact ⟨hle, hfit, hshift, rfl, rfl⟩
  · rintro ⟨hle, hfit, hshift, rfl, rfl⟩
    obtain ⟨x, hshr, hx⟩ := hshift.shr hle hdepth capptr
    exact lookupStep_of_shr hle hfit hshr hx

/-- The bits of a pointer, after an index of `r` bits was appended. -/
theorem bits_append {x i r m k : Nat} (hi : i < 2 ^ r) (h64 : m + r + k ≤ 64) :
    ((x <<< r) % 2 ^ 64 + i) / 2 ^ (m + r) % 2 ^ k = x / 2 ^ m % 2 ^ k := by
  have hsplit : 2 ^ 64 = 2 ^ (64 - r) * 2 ^ r := by rw [← pow_add, Nat.sub_add_cancel (by omega)]
  have hhigh : ((x <<< r) % 2 ^ 64 + i) / 2 ^ r = x % 2 ^ (64 - r) := by
    rw [Nat.shiftLeft_eq, hsplit, Nat.mul_mod_mul_right, Nat.add_comm,
      Nat.add_mul_div_right _ _ (by positivity), Nat.div_eq_of_lt hi, Nat.zero_add]
  have hdvd : 2 ^ k ∣ 2 ^ (64 - r - m) := pow_dvd_pow 2 (by omega)
  rw [Nat.add_comm m r, pow_add, ← Nat.div_div_eq_div_mul, hhigh,
    show 2 ^ (64 - r) = 2 ^ m * 2 ^ (64 - r - m) by rw [← pow_add]; congr 1; omega,
    Nat.mod_mul_right_div_self, Nat.mod_mod_of_dvd _ hdvd]

/-- The same level of the lookup, with an index appended to the pointer. -/
theorem lookupStep_append {c : CapabilityData} {capptr depthBits p rem i r : Nat}
    (hi : i < 2 ^ r) (h64 : depthBits + r ≤ 64) (hshift : ShiftFits cfg c (depthBits + r))
    (h : c.lookupStep cfg capptr depthBits = .ok (p, rem)) :
    c.lookupStep cfg ((capptr <<< r) % 2 ^ 64 + i) (depthBits + r) = .ok (p, rem + r) := by
  obtain ⟨hle, hfit, -, rfl, rfl⟩ := (lookupStep_iff (by omega)).1 h
  refine (lookupStep_iff h64).2 ⟨by omega, hfit, hshift, by omega, ?_⟩
  rw [bits_append hi (by omega)]

/-- The capability space as a graph: a pointer leads from a CNode to a slot. It stops at an empty
slot, at a slot without a CNode, and when there are no bits left. -/
inductive Leads (cfg : Config) (s : KState) (capptr : Nat) : CapabilityData → Nat → Nat → Prop
  | empty {c : CapabilityData} {depthBits p rem : Nat} :
      c.lookupStep cfg capptr depthBits = .ok (p, rem) → s.isSlot p = true → s.capAt p = none →
      Leads cfg s capptr c depthBits p
  | last {c : CapabilityData} {depthBits p : Nat} :
      c.lookupStep cfg capptr depthBits = .ok (p, 0) → s.isSlot p = true →
      Leads cfg s capptr c depthBits p
  | leaf {c d : CapabilityData} {depthBits p rem : Nat} :
      c.lookupStep cfg capptr depthBits = .ok (p, rem) → s.isSlot p = true → s.capAt p = some d →
      d.getCapType ≠ .ok .cNode → Leads cfg s capptr c depthBits p
  | next {c d : CapabilityData} {depthBits rem p q : Nat} :
      c.lookupStep cfg capptr depthBits = .ok (p, rem) → rem ≠ 0 → s.isSlot p = true →
      s.capAt p = some d → d.getCapType = .ok .cNode → Leads cfg s capptr d rem q →
      Leads cfg s capptr c depthBits q

/-- What the loop returns is where the pointer leads. -/
theorem leads_of_lookupLoop {n : Nat} {c : CapabilityData} {capptr depthBits p : Nat}
    (h : lookupLoop cfg n c capptr depthBits s = .ok p) : Leads cfg s capptr c depthBits p := by
  induction n generalizing c depthBits with
  | zero => cases h
  | succ n ih =>
    simp only [lookupLoop, Query.bind_ok, Query.lift_ok] at h
    obtain ⟨⟨q, rem⟩, hstep, slot, hread, h⟩ := h
    obtain ⟨hslot, rfl⟩ := readSlot_ok.1 hread
    cases he : s.slots q with
    | none =>
      rw [he] at h
      obtain rfl := Query.pure_ok.1 h
      exact .empty hstep hslot (by rw [KState.capAt, he]; rfl)
    | some e =>
      rw [he] at h
      have hcap : s.capAt q = some e.cap := by rw [KState.capAt, he]; rfl
      dsimp only at h
      split at h
      · next hrem =>
        obtain rfl := Query.pure_ok.1 h
        exact .last (hrem ▸ hstep) hslot
      · next hrem =>
        simp only [Query.bind_ok, Query.lift_ok] at h
        obtain ⟨k, hk, h⟩ := h
        split at h
        · next hcnode => exact .next hstep hrem hslot hcap (hcnode ▸ hk) (ih h)
        · next hcnode =>
          obtain rfl := Query.pure_ok.1 h
          refine .leaf hstep hslot hcap fun hk' => hcnode ?_
          exact Except.ok.inj (hk.symm.trans hk')

theorem Leads.shiftFits {c : CapabilityData} {capptr depthBits p : Nat} (hdepth : depthBits ≤ 64)
    (h : Leads cfg s capptr c depthBits p) : ShiftFits cfg c depthBits := by
  cases h with
  | empty h _ _ => exact ((lookupStep_iff hdepth).1 h).2.2.1
  | last h _ => exact ((lookupStep_iff hdepth).1 h).2.2.1
  | leaf h _ _ _ => exact ((lookupStep_iff hdepth).1 h).2.2.1
  | next h _ _ _ _ _ => exact ((lookupStep_iff hdepth).1 h).2.2.1

/-- Lookups read the slots only. -/
theorem Leads.of_setTcb {c : CapabilityData} {capptr depthBits p q : Nat} {t : ThreadInfo}
    (h : Leads cfg (s.setTcb q t) capptr c depthBits p) : Leads cfg s capptr c depthBits p := by
  induction h with
  | empty h hp hnone => exact .empty h hp hnone
  | last h hp => exact .last h hp
  | leaf h hp hd hk => exact .leaf h hp hd hk
  | next h hrem hp hd hk _ ih => exact .next h hrem hp hd hk ih

/-- A pointer leads to one slot at most. -/
theorem Leads.unique {c : CapabilityData} {capptr depthBits p q : Nat}
    (hp : Leads cfg s capptr c depthBits p) (hq : Leads cfg s capptr c depthBits q) : p = q := by
  have hstep : ∀ {c : CapabilityData} {depthBits : Nat} {x y : Nat × Nat},
      c.lookupStep cfg capptr depthBits = .ok x → c.lookupStep cfg capptr depthBits = .ok y →
      x = y := fun hx hy => Except.ok.inj (hx.symm.trans hy)
  induction hp with
  | empty h _ hnone =>
    cases hq with
    | empty h' _ _ => exact congrArg Prod.fst (hstep h h')
    | last h' _ => exact congrArg Prod.fst (hstep h h')
    | leaf h' _ _ _ => exact congrArg Prod.fst (hstep h h')
    | next h' _ _ hd _ _ =>
      obtain ⟨rfl, rfl⟩ := Prod.mk.inj (hstep h h')
      cases hnone.symm.trans hd
  | last h _ =>
    cases hq with
    | empty h' _ _ => exact congrArg Prod.fst (hstep h h')
    | last h' _ => exact congrArg Prod.fst (hstep h h')
    | leaf h' _ _ _ => exact congrArg Prod.fst (hstep h h')
    | next h' hrem _ _ _ _ => exact absurd (congrArg Prod.snd (hstep h h')).symm hrem
  | leaf h _ hc hk =>
    cases hq with
    | empty h' _ _ => exact congrArg Prod.fst (hstep h h')
    | last h' _ => exact congrArg Prod.fst (hstep h h')
    | leaf h' _ _ _ => exact congrArg Prod.fst (hstep h h')
    | next h' _ _ hd hk' _ =>
      obtain ⟨rfl, rfl⟩ := Prod.mk.inj (hstep h h')
      obtain rfl := Option.some.inj (hc.symm.trans hd)
      exact absurd hk' hk
  | next h hrem _ hc hk _ ih =>
    cases hq with
    | empty h' _ hnone =>
      obtain ⟨rfl, rfl⟩ := Prod.mk.inj (hstep h h')
      cases hc.symm.trans hnone
    | last h' _ => exact absurd (congrArg Prod.snd (hstep h h')) hrem
    | leaf h' _ hd hk' =>
      obtain ⟨rfl, rfl⟩ := Prod.mk.inj (hstep h h')
      obtain rfl := Option.some.inj (hc.symm.trans hd)
      exact absurd hk hk'
    | next h' _ _ hd _ hq =>
      obtain ⟨rfl, rfl⟩ := Prod.mk.inj (hstep h h')
      obtain rfl := Option.some.inj (hc.symm.trans hd)
      exact ih hq

/-- The lookup returns the slot `p`: the loop does, given enough iterations. -/
def Resolves (cfg : Config) (s : KState) (c : CapabilityData) (capptr depthBits p : Nat) : Prop :=
  ∃ bound, ∀ n ≥ bound, lookupLoop cfg n c capptr depthBits s = .ok p

theorem Resolves.leads {c : CapabilityData} {capptr depthBits p : Nat}
    (h : Resolves cfg s c capptr depthBits p) : Leads cfg s capptr c depthBits p := by
  obtain ⟨bound, h⟩ := h
  exact leads_of_lookupLoop (h bound (le_refl _))

theorem Resolves.unique {c : CapabilityData} {capptr depthBits p q : Nat}
    (hp : Resolves cfg s c capptr depthBits p) (hq : Resolves cfg s c capptr depthBits q) :
    p = q :=
  hp.leads.unique hq.leads

/-- The end of a lookup: no bits are left. -/
theorem lookupLoop_of_rem_zero {c : CapabilityData} {capptr depthBits p : Nat}
    (hstep : c.lookupStep cfg capptr depthBits = .ok (p, 0)) (hslot : s.isSlot p = true) (n : Nat) :
    lookupLoop cfg (n + 1) c capptr depthBits s = .ok p := by
  refine Query.bind_ok.2 ⟨(p, 0), hstep, Query.bind_ok.2 ⟨_, readSlot_ok.2 ⟨hslot, rfl⟩, ?_⟩⟩
  cases s.slots p with
  | none => rfl
  | some e => rfl

theorem Resolves.of_rem_zero {c : CapabilityData} {capptr depthBits p : Nat}
    (hstep : c.lookupStep cfg capptr depthBits = .ok (p, 0)) (hslot : s.isSlot p = true) :
    Resolves cfg s c capptr depthBits p := by
  refine ⟨1, fun n hn => ?_⟩
  obtain ⟨n, rfl⟩ := Nat.exists_eq_succ_of_ne_zero (by omega : n ≠ 0)
  exact lookupLoop_of_rem_zero hstep hslot n

theorem Resolves.of_cnode {c c' : CapabilityData} {capptr depthBits p rem q : Nat}
    (hstep : c.lookupStep cfg capptr depthBits = .ok (p, rem)) (hslot : s.isSlot p = true)
    (hcap : s.capAt p = some c') (hk : c'.getCapType = .ok .cNode) (hrem : rem ≠ 0)
    (h : Resolves cfg s c' capptr rem q) : Resolves cfg s c capptr depthBits q := by
  obtain ⟨bound, h⟩ := h
  refine ⟨bound + 1, fun n hn => ?_⟩
  obtain ⟨n, rfl⟩ := Nat.exists_eq_succ_of_ne_zero (by omega : n ≠ 0)
  rw [lookupLoop_of_cnode hstep hslot hcap hk hrem]
  exact h n (by omega)

/-- The pointer leads from a CNode to a CNode, through CNodes and with nothing left over. -/
inductive CNodePath (cfg : Config) (s : KState) (capptr : Nat) :
    CapabilityData → Nat → CapabilityData → Prop
  | last {c d : CapabilityData} {depthBits p : Nat} :
      c.lookupStep cfg capptr depthBits = .ok (p, 0) → s.isSlot p = true → s.capAt p = some d →
      d.getCapType = .ok .cNode → CNodePath cfg s capptr c depthBits d
  | next {c c' d : CapabilityData} {depthBits rem p : Nat} :
      c.lookupStep cfg capptr depthBits = .ok (p, rem) → rem ≠ 0 → s.isSlot p = true →
      s.capAt p = some c' → c'.getCapType = .ok .cNode → CNodePath cfg s capptr c' rem d →
      CNodePath cfg s capptr c depthBits d

/-- The slots of a CNode are there: it fits into the memory and has `2 ^ radix` slots. -/
def SlotsLive (s : KState) (c : CapabilityData) : Prop :=
  2 ^ c.radix * entrySize < 2 ^ 63 ∧
    ∀ i < 2 ^ c.radix, s.isSlot (toKernelV c.getAddress + entrySize * i) = true

namespace CNodePath

variable {c d : CapabilityData} {capptr depthBits : Nat}

/-- The lookup of the pointer ends at a slot with the capability of the last CNode, also in a state
with more capabilities. -/
theorem resolves {s' : KState} (h : CNodePath cfg s capptr c depthBits d)
    (hslot : ∀ p, s.isSlot p = true → s'.isSlot p = true)
    (hcap : ∀ p c, s.isSlot p = true → s.capAt p = some c → s'.capAt p = some c) :
    ∃ p, s.isSlot p = true ∧ s.capAt p = some d ∧ d.getCapType = .ok .cNode ∧
      Resolves cfg s' c capptr depthBits p := by
  induction h with
  | last hstep hp hd hk => exact ⟨_, hp, hd, hk, .of_rem_zero hstep (hslot _ hp)⟩
  | next hstep hrem hp hc hk _ ih =>
    obtain ⟨q, hq, hd, hkd, hres⟩ := ih
    exact ⟨q, hq, hd, hkd, .of_cnode hstep (hslot _ hp) (hcap _ _ hp hc) hk hrem hres⟩

/-- A path stays when occupied slots keep their capabilities. -/
theorem mono {s' : KState} (h : CNodePath cfg s capptr c depthBits d)
    (hslot : ∀ p, s.isSlot p = true → s'.isSlot p = true)
    (hcap : ∀ p c, s.isSlot p = true → s.capAt p = some c → s'.capAt p = some c) :
    CNodePath cfg s' capptr c depthBits d := by
  induction h with
  | last hstep hp hd hk => exact .last hstep (hslot _ hp) (hcap _ _ hp hd) hk
  | next hstep hrem hp hd hk _ ih => exact .next hstep hrem (hslot _ hp) (hcap _ _ hp hd) hk ih

section Append

variable {i : Nat} (hd : d.radix ≠ 0) (hlive : SlotsLive s d) (hi : i < 2 ^ d.radix)

include hd hlive hi

/-- The pointer with an index of the CNode appended takes one iteration more. -/
theorem lookupLoop_append (h : CNodePath cfg s capptr c depthBits d)
    (h64 : depthBits + d.radix ≤ 64) (hshift : ShiftFits cfg c (depthBits + d.radix)) {n q : Nat}
    (hn : lookupLoop cfg n c capptr depthBits s = .ok q) :
    lookupLoop cfg (n + 1) c ((capptr <<< d.radix) % 2 ^ 64 + i) (depthBits + d.radix) s =
      .ok (toKernelV d.getAddress + entrySize * i) := by
  induction h generalizing n with
  | @last c d depthBits p hstep hp hcap hk =>
    have hstep' := lookupStep_append hi h64 hshift hstep
    rw [Nat.zero_add] at hstep'
    rw [lookupLoop_of_cnode hstep' hp hcap hk hd]
    obtain ⟨n, rfl⟩ : ∃ n', n = n' + 1 := Nat.exists_eq_succ_of_ne_zero fun h0 => by
      subst h0
      cases hn
    refine lookupLoop_of_rem_zero ?_ (hlive.2 i hi) n
    refine (lookupStep_iff (by omega)).2 ⟨le_refl _, hlive.1, .inl hd, (Nat.sub_self _).symm, ?_⟩
    have hpow : (capptr <<< d.radix) % 2 ^ 64 % 2 ^ d.radix = 0 := by
      rw [Nat.mod_mod_of_dvd _ (pow_dvd_pow 2 (by omega)), Nat.shiftLeft_eq, Nat.mul_mod_left]
    rw [pow_zero, Nat.div_one, Nat.add_mod, hpow, Nat.zero_add, Nat.mod_mod, Nat.mod_eq_of_lt hi]
  | @next c c' d depthBits rem p hstep hrem hp hcap hk _ ih =>
    obtain ⟨hle, hrem'⟩ := lookupStep_rem hstep
    rw [lookupLoop_of_cnode (lookupStep_append hi h64 hshift hstep) hp hcap hk (by omega)]
    obtain ⟨n, rfl⟩ : ∃ n', n = n' + 1 := Nat.exists_eq_succ_of_ne_zero fun h0 => by
      subst h0
      cases hn
    rw [lookupLoop_of_cnode hstep hp hcap hk hrem] at hn
    refine ih hd hlive hi (by omega) ?_ hn
    -- bits were taken, or the first shift was fine already
    rcases hshift with hc | hlt | hrel
    · exact .inr (.inl (by omega))
    · exact .inr (.inl (by omega))
    · exact .inr (.inr hrel)

/-- **Lookups compose.** The pointer with an index of the CNode appended leads to that slot of the
CNode. -/
theorem append (h : CNodePath cfg s capptr c depthBits d) (h64 : depthBits + d.radix ≤ 64)
    (hshift : ShiftFits cfg c (depthBits + d.radix)) :
    Resolves cfg s c ((capptr <<< d.radix) % 2 ^ 64 + i) (depthBits + d.radix)
      (toKernelV d.getAddress + entrySize * i) := by
  obtain ⟨p, -, -, -, bound, hres⟩ := h.resolves (fun _ h => h) fun _ _ _ h => h
  refine ⟨bound + 1, fun n hn => ?_⟩
  obtain ⟨n, rfl⟩ := Nat.exists_eq_succ_of_ne_zero (by omega : n ≠ 0)
  exact h.lookupLoop_append hd hlive hi h64 hshift (hres n (by omega))

end Append

end CNodePath

end CapabilityData

end Zoeax
