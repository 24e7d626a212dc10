import Zoeax.Verify.Lookup
import Zoeax.Verify.Retype

/-!
# Numbers from user registers

The size and the number of the objects of a retype, and the pointer and the depth of a lookup, are
what the caller left in its registers. This module says for which of them the kernel's arithmetic
stays inside the machine word.

* `overflowSafe_iff`: the powers, products and sums of a retype. A CNode of radix 64 has no bytes in
  the wrapping build (`not_overflowSafe_radix`).
* `lookupSafe_iff`: the shifts of a lookup. A depth of 64 bits more than the radix of the root CNode
  is one too many (`not_lookupSafe_depth`).
-/

namespace Zoeax

open Lib
open CapabilityType (entrySize)

/-! ## Retypes -/

/-- The same kernel, built with overflow checks. -/
def Config.checked (cfg : Config) : Config := { cfg with profile := .debug }

/-- The size of an object, in numbers without bound. -/
def CapabilityType.exactSize (cfg : Config) (userSize : Nat) : CapabilityType → Nat
  | .untyped => userSize
  | .tcb => cfg.tcbSize
  | .endPoint => cfg.endpointSize
  | .notification => cfg.notificationSize
  | .cNode => 2 ^ userSize * entrySize
  | .pageTable => pageSize
  | .page => pageSize

namespace CapabilityData

variable {cfg : Config} {k : CapabilityType} {c : CapabilityData} {userSize num : Nat}

/-- `invoke_retype` and the iteration over its generator with every power, product and sum checked:
it stops at the first that does not fit. The difference of `get_free_bytes` is that of the build,
and where that one stops nothing more is computed. -/
def checkedRetype (cfg : Config) (k : CapabilityType) (c : CapabilityData) (userSize num : Nat) :
    Except Stop Unit := do
  require (k ≠ .untyped) (kerr .unknownCapType 0)
  require (!c.isDevice || k.canBeRetypedFromDeviceMemory) (kerr .canNotNewFromDeviceMemory 0)
  let size ← k.getObjectSize cfg.checked userSize
  let objectSize ← arith (Profile.debug.mul num size)
  let endAddress ← arith (Profile.debug.add (toKernelV c.getAddress) c.blockSize)
  match cfg.profile.sub endAddress c.getFreeIndex with
  | none => return ()
  | some freeBytes => do
    require (objectSize ≤ freeBytes) (kerr .noMemory 0)
    let freeIdxAligned ← arith (alignUp .debug c.getFreeIndex k.align)
    let gen ← CapGenerator.new cfg.checked k num freeIdxAligned userSize objectSize
    let _ ← gen.toList cfg.checked
    return ()

/-- With the free index inside the block it is the code itself, as the checked build runs it. -/
theorem checkedRetype_eq (hfree : c.getFreeIndex ≤ c.endAddress) :
    c.checkedRetype cfg k userSize num = (do
      let r ← c.invokeRetype cfg.checked userSize num k
      let _ ← r.2.toList cfg.checked
      return ()) := by
  by_cases hk : k = .untyped
  · subst hk
    rfl
  have hretype :
      c.invokeRetype cfg.checked userSize num k = c.retype cfg.checked k userSize num := by
    cases k with
    | untyped => exact absurd rfl hk
    | _ => rfl
  have hprofile : cfg.checked.profile = .debug := rfl
  rw [hretype, checkedRetype, require, if_pos (decide_eq_true hk), except_ok_bind, retype]
  simp only [getFreeBytes, hprofile, bind_assoc, pure_bind]
  congr 1
  funext _
  congr 1
  funext size
  congr 1
  funext objectSize
  by_cases hend : c.endAddress < 2 ^ 64
  · have hadd : Profile.debug.add (toKernelV c.getAddress) c.blockSize = some c.endAddress :=
      Profile.wrap_of_lt _ hend
    -- `create_cap_dep_val` of the block itself does not fail: the block is not empty
    simp only [hadd, arith_some, except_ok_bind, Profile.sub_of_le _ hfree,
      createCapDepVal_blockSize]
  · have hadd : Profile.debug.add (toKernelV c.getAddress) c.blockSize = none :=
      Profile.wrap_of_not_fits fun h => hend (h rfl)
    rw [hadd]
    rfl

/-- No power, product or sum of the request leaves the word, and a request that is too big for a
word is refused, with nothing changed. -/
structure OverflowSafe (cfg : Config) (k : CapabilityType) (c : CapabilityData)
    (userSize num : Nat) : Prop where
  fits : c.checkedRetype cfg k userSize num ≠ .error panicked
  tooBig : 2 ^ 64 ≤ num * k.exactSize cfg userSize →
    ∃ e : KernelError, Refused cfg k c userSize num (.err e)

/-- The numbers of a request that fit: the size of an object and of all of them, the end of the
block, and for a request that passes the check of the free bytes the padded start and the end of the
generator, which takes the whole request for one object. -/
structure RequestFits (cfg : Config) (k : CapabilityType) (c : CapabilityData)
    (userSize num : Nat) : Prop where
  size : k = .cNode → k.exactSize cfg userSize < 2 ^ 64
  total : num * k.exactSize cfg userSize < 2 ^ 64
  block : c.endAddress < 2 ^ 64
  accepted : ∀ freeBytes, cfg.profile.sub c.endAddress c.getFreeIndex = some freeBytes →
    num * k.exactSize cfg userSize ≤ freeBytes →
    c.getFreeIndex + k.align < 2 ^ 64 ∧ c.lastAddress k (k.exactSize cfg userSize) num < 2 ^ 64

theorem getObjectSize_checked (huser : userSize < 2 ^ 32) :
    k.getObjectSize cfg.checked userSize =
      if k = .cNode → k.exactSize cfg userSize < 2 ^ 64 then .ok (k.exactSize cfg userSize)
      else .error panicked := by
  cases k with
  | cNode =>
    simp only [CapabilityType.getObjectSize, CapabilityType.exactSize, Nat.mod_eq_of_lt huser,
      Config.checked, Profile.pow, Profile.mul, forall_const]
    by_cases hpow : 2 ^ userSize < 2 ^ 64
    · rw [Profile.wrap_of_lt _ hpow, arith_some, except_ok_bind]
      split
      · next hlt => rw [Profile.wrap_of_lt _ hlt, arith_some]
      · next hge =>
        rw [Profile.wrap_of_not_fits fun h => hge (h rfl)]
        rfl
    · have hbig : ¬2 ^ userSize * entrySize < 2 ^ 64 := by
        rw [entrySize]
        omega
      rw [Profile.wrap_of_not_fits fun h => hpow (h rfl), if_neg hbig]
      rfl
  | _ => exact (if_pos fun h => by cases h).symm

/-- The part of a retype behind the check of the free bytes. -/
theorem generate_ne_panicked {size : Nat} (hk : k ≠ .untyped) (hobj : num * size < 2 ^ 64) :
    (do
      let freeIdxAligned ← arith (alignUp .debug c.getFreeIndex k.align)
      let gen ← CapGenerator.new cfg.checked k num freeIdxAligned userSize (num * size)
      let _ ← gen.toList cfg.checked
      return () : Except Stop Unit) ≠ .error panicked ↔
    c.getFreeIndex + k.align < 2 ^ 64 ∧ c.lastAddress k size num < 2 ^ 64 := by
  have hcfg : cfg.checked.profile = .debug := rfl
  by_cases hal : c.getFreeIndex + k.align < 2 ^ 64
  · have hnew : CapGenerator.new cfg.checked k num (c.firstAddress k % 2 ^ 64) userSize
        (num * size % 2 ^ 64) = _ :=
      generator_new (Profile.fits_of_lt _ hobj) (Profile.fits_of_lt _ hal)
    rw [Nat.mod_eq_of_lt hobj] at hnew
    rw [(alignUp_getFreeIndex c k).2 ⟨Profile.fits_of_lt _ hal, rfl⟩, arith_some, except_ok_bind,
      hnew]
    by_cases hlast : c.lastAddress k size num < 2 ^ 64
    · obtain ⟨caps, hcaps⟩ := CapGenerator.exists_take cfg.checked num
        (g := c.generator k userSize size num) (fun h => absurd h hk) (fun _ => by
          have h₁ := Nat.mod_le (c.firstAddress k) (2 ^ 64)
          have h₂ := Nat.mul_le_mul_left num (Nat.mod_le (num * size) (2 ^ 64))
          exact lt_of_le_of_lt (Nat.add_le_add h₁ h₂) hlast)
      rw [if_pos (Profile.fits_of_lt _ hlast), except_ok_bind, CapGenerator.toList]
      change (CapGenerator.take cfg.checked num _ >>= _) ≠ _ ↔ _
      rw [hcaps]
      exact ⟨fun _ => ⟨hal, hlast⟩, fun _ => nofun⟩
    · rw [if_neg fun h => hlast (h hcfg)]
      exact ⟨fun h => absurd rfl h, fun h => absurd h.2 hlast⟩
  · have hnone : alignUp .debug c.getFreeIndex k.align = none := by
      refine Option.eq_none_iff_forall_ne_some.2 fun m hm => hal ?_
      exact ((alignUp_getFreeIndex c k).1 hm).1 rfl
    rw [hnone]
    exact ⟨fun h => absurd rfl h, fun h => absurd h.1 hal⟩

/-- A request for memory that can be retyped stays in the word exactly if its numbers fit. -/
theorem checkedRetype_ne_panicked (hk : k ≠ .untyped) (hdev : c.isDevice = false)
    (huser : userSize < 2 ^ 32) :
    c.checkedRetype cfg k userSize num ≠ .error panicked ↔ RequestFits cfg k c userSize num := by
  rw [checkedRetype, require, if_pos (decide_eq_true hk), except_ok_bind, hdev, require,
    Bool.not_false, Bool.true_or, if_pos rfl, except_ok_bind, getObjectSize_checked huser]
  by_cases hsize : k = .cNode → k.exactSize cfg userSize < 2 ^ 64
  swap
  · rw [if_neg hsize]
    exact ⟨fun h => absurd rfl h, fun h => absurd h.size hsize⟩
  rw [if_pos hsize, except_ok_bind, Profile.mul]
  by_cases htotal : num * k.exactSize cfg userSize < 2 ^ 64
  swap
  · rw [Profile.wrap_of_not_fits fun h => htotal (h rfl)]
    exact ⟨fun h => absurd rfl h, fun h => absurd h.total htotal⟩
  rw [Profile.wrap_of_lt _ htotal, arith_some, except_ok_bind]
  change (arith (Profile.debug.wrap c.endAddress) >>= _) ≠ _ ↔ _
  by_cases hblock : c.endAddress < 2 ^ 64
  swap
  · rw [Profile.wrap_of_not_fits fun h => hblock (h rfl)]
    exact ⟨fun h => absurd rfl h, fun h => absurd h.block hblock⟩
  rw [Profile.wrap_of_lt _ hblock, arith_some, except_ok_bind]
  cases hsub : cfg.profile.sub c.endAddress c.getFreeIndex with
  | none =>
    refine ⟨fun _ => ⟨hsize, htotal, hblock, fun free hfree => ?_⟩, fun _ h => ?_⟩
    · cases hsub.symm.trans hfree
    · cases h
  | some free =>
    dsimp only
    by_cases hle : num * k.exactSize cfg userSize ≤ free
    · rw [require, if_pos (decide_eq_true hle), except_ok_bind, generate_ne_panicked hk htotal]
      constructor
      · exact fun h => ⟨hsize, htotal, hblock, fun _ _ _ => h⟩
      · exact fun h => h.accepted free hsub hle
    · rw [require, if_neg (by simpa using hle)]
      refine ⟨fun _ => ⟨hsize, htotal, hblock, fun free' hfree hle' => ?_⟩, fun _ h => ?_⟩
      · exact absurd (Option.some.inj (hsub.symm.trans hfree) ▸ hle') hle
      · cases h

/-- **Which requests are safe from overflow**: those of a type that cannot be retyped into or of
device memory, which are refused at once, and those whose numbers fit. -/
theorem overflowSafe_iff (huser : userSize < 2 ^ 32) :
    OverflowSafe cfg k c userSize num ↔
      k = .untyped ∨ c.isDevice = true ∨ RequestFits cfg k c userSize num := by
  by_cases hk : k = .untyped
  · subst hk
    refine ⟨fun _ => .inl rfl, fun _ => ⟨fun h => ?_, fun _ => ⟨_, refused_of_error rfl⟩⟩⟩
    cases h
  cases hdev : c.isDevice with
  | true =>
    have hcan : k.canBeRetypedFromDeviceMemory = false := by
      cases k <;> first | rfl | exact absurd rfl hk
    refine ⟨fun _ => .inr (.inl rfl), fun _ => ⟨?_, fun _ => ⟨_, refused_of_error
      (e := kerr .canNotNewFromDeviceMemory 0) ?_⟩⟩⟩
    · rw [checkedRetype, require, if_pos (decide_eq_true hk), except_ok_bind, hdev, hcan]
      intro h
      cases h
    · rw [invokeRetype_of_ne hk, retype, hdev, hcan]
      rfl
  | false =>
    have hiff : c.checkedRetype cfg k userSize num ≠ .error panicked ↔
        RequestFits cfg k c userSize num := checkedRetype_ne_panicked hk hdev huser
    constructor
    · exact fun h => .inr (.inr (hiff.1 h.fits))
    · intro h
      have hfits := (h.resolve_left hk).resolve_left (by decide)
      exact ⟨hiff.2 hfits, fun hbig => absurd hfits.total (not_lt.2 hbig)⟩

/-- A page from a block of four. -/
theorem overflowSafe_page : OverflowSafe .virt .page (fresh 0x80000000 14) 0 1 :=
  (overflowSafe_iff (by decide)).2 (.inr (.inr ⟨nofun, by decide, by decide +kernel,
    fun _ _ _ => ⟨by decide +kernel, by decide +kernel⟩⟩))

end CapabilityData

/-- The board of `Config.virt`, with the wrapping build. It has no `tid` in a thread control
block. -/
def Config.virtRelease : Config :=
  { Config.virt with
    profile := .release
    tcbSize := 400
    tcbSize_pos := by decide
    slots_in_tcb := by decide }

/-- The root server asks for a CNode of radix 64, which has `2 ^ 69` bytes. The wrapping build
computes a size of 0, takes nothing from the block, and puts the capability of a CNode with `2 ^ 64`
slots into slot 19. -/
theorem not_overflowSafe_radix : ∃ s₀ s c d, Boot .virtRelease demoImage s₀ ∧
    s₀.capAt (toKernelV 2151677952 + entrySize * 9) = some c ∧ c.getCapType = .ok .untyped ∧
    ¬c.OverflowSafe .virtRelease .cNode 64 1 ∧
    Step .virtRelease s₀ (.trap (retypeCNodeRegs 64)) s ∧ s.capAt slot19 = some d ∧
    d.getCapType = .ok .cNode ∧ d.radix = 64 := by
  obtain ⟨s₀, hboot, htest⟩ := exists_boot .virtRelease demoImage
    (fun s₀ => (s₀.capAt (toKernelV 2151677952 + entrySize * 9)).any (fun c =>
        c.getCapType = .ok .untyped &&
        c.checkedRetype .virtRelease .cNode 64 1 = .error panicked) &&
      ((Event.trap (retypeCNodeRegs 64)).Enabled s₀ &&
      endsIn ((Event.trap (retypeCNodeRegs 64)).exec .virtRelease s₀) fun s =>
        (s.capAt slot19).any fun d => d.getCapType = .ok .cNode && d.radix = 64))
    (by decide +kernel)
  simp only [Bool.and_eq_true, decide_eq_true_eq, Option.any_eq_true] at htest
  obtain ⟨⟨c, hc, hk, hpanic⟩, henabled, hexec⟩ := htest
  obtain ⟨⟨⟩, s, hexec, hs⟩ := exists_of_endsIn hexec
  simp only [Bool.and_eq_true, decide_eq_true_eq, Option.any_eq_true] at hs
  obtain ⟨d, hd, hkd, hradix⟩ := hs
  exact ⟨s₀, s, c, d, hboot, hc, hk, fun h => h.fits hpanic, ⟨henabled, hexec⟩, hd, hkd, hradix⟩

/-! ## Lookups -/

namespace CapabilityData

variable {cfg : Config} {s : KState} {capptr : Nat}

/-- The slot of a CNode that a lookup with `depthBits` bits left goes to. -/
def slotAddr (c : CapabilityData) (capptr depthBits : Nat) : Nat :=
  toKernelV c.getAddress + entrySize * (capptr / 2 ^ (depthBits - c.radix) % 2 ^ c.radix)

/-- The CNodes of a capability space: its root, and what the slots of its CNodes hold. -/
inductive InCSpace (s : KState) (root : CapabilityData) : CapabilityData → Prop
  | root : InCSpace s root root
  | slot {c d : CapabilityData} {i : Nat} : InCSpace s root c → i < 2 ^ c.radix →
      s.capAt (toKernelV c.getAddress + entrySize * i) = some d → d.getCapType = .ok .cNode →
      InCSpace s root d

/-- The radix of every CNode is a shift of a word. -/
def RadixBounded (s : KState) (root : CapabilityData) : Prop :=
  ∀ c, InCSpace s root c → 1 ≤ c.radix ∧ c.radix ≤ 63

/-- The iterations of the loop of `lookup_entry_mut`: their CNodes, and the bits left. -/
inductive Reaches (cfg : Config) (s : KState) (capptr : Nat) :
    CapabilityData → Nat → CapabilityData → Nat → Prop
  | here (c : CapabilityData) (depthBits : Nat) : Reaches cfg s capptr c depthBits c depthBits
  | next {c c' d : CapabilityData} {depthBits rem n : Nat} :
      c.lookupIter cfg capptr depthBits s = .ok (.inr (c', rem)) →
      Reaches cfg s capptr c' rem d n → Reaches cfg s capptr c depthBits d n

/-- The CNodes that a pointer passes through, by its bits. -/
inductive Visits (s : KState) (capptr : Nat) : CapabilityData → Nat → CapabilityData → Prop
  | here (c : CapabilityData) {depthBits : Nat} (h : c.radix ≤ depthBits) :
      Visits s capptr c depthBits c
  | next {c c' d : CapabilityData} {depthBits : Nat} : c.radix < depthBits →
      s.isSlot (c.slotAddr capptr depthBits) = true →
      s.capAt (c.slotAddr capptr depthBits) = some c' → c'.getCapType = .ok .cNode →
      Visits s capptr c' (depthBits - c.radix) d → Visits s capptr c depthBits d

/-- Every iteration shifts by less than a word and stays inside its CNode, and the lookup does not
panic. It returns a slot or an error if the CNodes have memory for their slots. -/
structure LookupSafe (cfg : Config) (s : KState) (root : CapabilityData) (capptr depth : Nat) :
    Prop where
  shift : ∀ c depthBits, Reaches cfg s capptr root depth c depthBits → c.radix ≤ depthBits →
    depthBits - c.radix < 64
  index : ∀ c depthBits, Reaches cfg s capptr root depth c depthBits →
    ∀ p rem, c.lookupStep cfg capptr depthBits = .ok (p, rem) →
      ∃ i < 2 ^ c.radix, p = toKernelV c.getAddress + entrySize * i
  noPanic : ∀ n, lookupLoop cfg n root capptr depth s ≠ .error panicked
  returns : (∀ c, InCSpace s root c → SlotsLive s c) → ∀ n > depth,
    (∃ p, lookupLoop cfg n root capptr depth s = .ok p) ∨
      ∃ e, lookupLoop cfg n root capptr depth s = .error (.err e)

/-- One level of a lookup, when the shift is one of a word. -/
theorem lookupStep_eq {c : CapabilityData} {depthBits : Nat} (hradix : c.radix ≤ 63)
    (hshift : depthBits < c.radix + 64) :
    c.lookupStep cfg capptr depthBits =
      if c.radix ≤ depthBits then
        if c.radix ≤ 57 then .ok (c.slotAddr capptr depthBits, depthBits - c.radix)
        else .error (if cfg.profile = .debug then panicked else undefinedAccess)
      else .error (kerr .outOfMemory 0) := by
  by_cases hle : c.radix ≤ depthBits
  swap
  · rw [if_neg hle, lookupStep, require, if_neg (by simpa using hle)]
    rfl
  rw [if_pos hle]
  by_cases hslice : c.radix ≤ 57
  · have hfit : 2 ^ c.radix * entrySize < 2 ^ 63 := by
      have := Nat.pow_le_pow_right (show 0 < 2 by decide) hslice
      rw [entrySize]
      omega
    rw [if_pos hslice]
    refine lookupStep_of_shr hle hfit (Profile.shr_of_lt _ (by omega)) ?_
    rw [Nat.shiftRight_eq_div_pow]
  · have hbig : ¬2 ^ c.radix * entrySize < 2 ^ 63 := by
      have := Nat.pow_le_pow_right (show 0 < 2 by decide) (show 58 ≤ c.radix by omega)
      rw [entrySize]
      omega
    rw [if_neg hslice, lookupStep, require, if_pos (decide_eq_true hle), except_ok_bind,
      capacity_of_lt (by omega), except_ok_bind, checkSlice, require, if_neg (by simpa using hbig)]
    rfl

theorem getCapType_error {c : CapabilityData} {e : Stop} (h : c.getCapType = .error e) :
    ∃ x, e = .err x := by
  unfold getCapType capTryFromU8 at h
  split at h
  · cases h
  · exact ⟨_, (Except.error.inj h).symm⟩

/-- How an iteration can end without a slot or a next CNode. -/
theorem lookupIter_error {c : CapabilityData} {depthBits : Nat} {e : Stop} (hradix : c.radix ≤ 63)
    (hshift : depthBits < c.radix + 64) (h : c.lookupIter cfg capptr depthBits s = .error e) :
    (∃ x, e = .err x) ∨
    (c.radix ≤ depthBits ∧ 57 < c.radix ∧
      e = if cfg.profile = .debug then panicked else undefinedAccess) ∨
    e = undefinedAccess ∧ ∃ i < 2 ^ c.radix,
      s.isSlot (toKernelV c.getAddress + entrySize * i) = false := by
  cases hstep : c.lookupStep cfg capptr depthBits with
  | error x =>
    obtain rfl : x = e := by
      have hiter : c.lookupIter cfg capptr depthBits s = .error x := Query.bind_of_error hstep
      exact Except.error.inj (hiter.symm.trans h)
    rw [lookupStep_eq hradix hshift] at hstep
    split_ifs at hstep with hle hslice hdebug
    · exact .inr (.inl ⟨hle, by omega, by rw [if_pos hdebug]; exact (Except.error.inj hstep).symm⟩)
    · exact .inr (.inl ⟨hle, by omega, by rw [if_neg hdebug]; exact (Except.error.inj hstep).symm⟩)
    · exact .inl ⟨_, (Except.error.inj hstep).symm⟩
  | ok r =>
    obtain ⟨p, rem⟩ := r
    obtain ⟨-, i, hi, rfl⟩ := lookupStep_ok hstep
    have hlift : (liftM (c.lookupStep cfg capptr depthBits) : KR (Nat × Nat)) s = .ok (_, rem) :=
      hstep
    rw [lookupIter, Query.bind_of_ok hlift] at h
    cases hslot : s.isSlot (toKernelV c.getAddress + entrySize * i) with
    | false =>
      have hread : readSlot (toKernelV c.getAddress + entrySize * i) s =
        .error undefinedAccess := by
        change (if s.isSlot _ then _ else _ : KR (Option CNodeEntry)) s = _
        rw [hslot]
        rfl
      dsimp only at h
      rw [Query.bind_of_error hread] at h
      exact .inr (.inr ⟨(Except.error.inj h).symm, i, hi, hslot⟩)
    | true =>
      refine .inl ?_
      dsimp only at h
      rw [Query.bind_of_ok (readSlot_ok.2 ⟨hslot, rfl⟩)] at h
      cases he : s.slots (toKernelV c.getAddress + entrySize * i) with
      | none =>
        rw [he] at h
        cases h
      | some entry =>
        rw [he] at h
        dsimp only at h
        split at h
        · cases h
        · cases hk : entry.cap.getCapType with
          | error x =>
            have hiter : (liftM entry.cap.getCapType : KR CapabilityType) s = .error x := hk
            rw [Query.bind_of_error hiter] at h
            exact Except.error.inj h ▸ getCapType_error hk
          | ok k =>
            have hiter : (liftM entry.cap.getCapType : KR CapabilityType) s = .ok k := hk
            rw [Query.bind_of_ok hiter] at h
            split at h <;> cases h

/-- The next CNode is the one in the slot that the bits of the pointer name. -/
theorem lookupIter_inr {c c' : CapabilityData} {depthBits rem : Nat} (hradix : c.radix ≤ 63)
    (hshift : depthBits < c.radix + 64)
    (h : c.lookupIter cfg capptr depthBits s = .ok (.inr (c', rem))) :
    c.radix < depthBits ∧ rem = depthBits - c.radix ∧
      s.isSlot (c.slotAddr capptr depthBits) = true ∧
      s.capAt (c.slotAddr capptr depthBits) = some c' ∧ c'.getCapType = .ok .cNode := by
  obtain ⟨p, hstep, hslot, hcap, hk, hrem⟩ := lookupIter_next h
  obtain ⟨hle, rfl⟩ := lookupStep_rem hstep
  rw [lookupStep_eq hradix hshift, if_pos hle] at hstep
  split_ifs at hstep
  · obtain rfl := congrArg Prod.fst (Except.ok.inj hstep)
    exact ⟨by omega, rfl, hslot, hcap, hk⟩

theorem InCSpace.trans {c d e : CapabilityData} (h : InCSpace s c d) (h' : InCSpace s d e) :
    InCSpace s c e := by
  induction h' with
  | root => exact h
  | slot _ hi hcap hk ih => exact .slot ih hi hcap hk

theorem InCSpace.next {c c' : CapabilityData} {depthBits : Nat}
    (hcap : s.capAt (c.slotAddr capptr depthBits) = some c') (hk : c'.getCapType = .ok .cNode) :
    InCSpace s c c' := .slot .root (Nat.mod_lt _ (by positivity)) hcap hk

theorem RadixBounded.next {c c' : CapabilityData} {depthBits : Nat} (h : RadixBounded s c)
    (hcap : s.capAt (c.slotAddr capptr depthBits) = some c') (hk : c'.getCapType = .ok .cNode) :
    RadixBounded s c' := fun d hd => h d ((InCSpace.next hcap hk).trans hd)

/-- Later iterations have fewer bits left than a word. -/
theorem Reaches.shift_lt {c d : CapabilityData} {depthBits n : Nat}
    (h : Reaches cfg s capptr c depthBits d n) (hs : RadixBounded s c)
    (hshift : depthBits < c.radix + 64) : n < d.radix + 64 := by
  induction h with
  | here => exact hshift
  | next hiter _ ih =>
    have hradix := hs _ .root
    obtain ⟨hlt, rfl, -, hcap, hk⟩ := lookupIter_inr hradix.2 hshift hiter
    exact ih (hs.next hcap hk) (by omega)

/-- A CNode on the way whose slots are too many for a slice stops the checked build. -/
theorem Visits.panics {c d : CapabilityData} {depthBits : Nat} (h : Visits s capptr c depthBits d)
    (hdebug : cfg.profile = .debug) (hs : RadixBounded s c) (hshift : depthBits < c.radix + 64)
    (hd : 57 < d.radix) : ∃ n, lookupLoop cfg n c capptr depthBits s = .error panicked := by
  have hhere : ∀ {c : CapabilityData} {depthBits : Nat}, RadixBounded s c →
      depthBits < c.radix + 64 → c.radix ≤ depthBits → 57 < c.radix →
      lookupLoop cfg 1 c capptr depthBits s = .error panicked := by
    intro c depthBits hs hshift hle hbig
    have hstep : (liftM (c.lookupStep cfg capptr depthBits) : KR (Nat × Nat)) s =
        .error panicked := by
      change c.lookupStep cfg capptr depthBits = _
      rw [lookupStep_eq (hs c .root).2 hshift, if_pos hle, if_neg (by omega), if_pos hdebug]
    rw [lookupLoop, Query.bind_of_error hstep]
  induction h with
  | here c hle => exact ⟨1, hhere hs hshift hle hd⟩
  | @next c c' d depthBits hlt hslot hcap hk _ ih =>
    by_cases hbig : 57 < c.radix
    · exact ⟨1, hhere hs hshift hlt.le hbig⟩
    · obtain ⟨n, hn⟩ := ih (hs.next hcap hk) (by have := hs c .root; omega) hd
      refine ⟨n + 1, ?_⟩
      have hstep : c.lookupStep cfg capptr depthBits =
          .ok (c.slotAddr capptr depthBits, depthBits - c.radix) := by
        rw [lookupStep_eq (hs c .root).2 hshift, if_pos hlt.le, if_pos (by omega)]
      rw [lookupLoop_of_cnode hstep hslot hcap hk (by omega), hn]

/-- The loop does not panic when the first shift is one of a word and no CNode on the way has too
many slots for the checked build. -/
theorem lookupLoop_ne_panicked (n : Nat) {c : CapabilityData} {depthBits : Nat}
    (hs : RadixBounded s c) (hshift : depthBits < c.radix + 64)
    (hslice : cfg.profile = .debug → ∀ d, Visits s capptr c depthBits d → d.radix ≤ 57) :
    lookupLoop cfg n c capptr depthBits s ≠ .error panicked := by
  induction n generalizing c depthBits with
  | zero => nofun
  | succ n ih =>
    have hradix := hs c .root
    rw [lookupLoop_succ]
    cases hiter : c.lookupIter cfg capptr depthBits s with
    | error e =>
      intro h
      obtain rfl : e = panicked := Except.error.inj h
      rcases lookupIter_error hradix.2 hshift hiter with ⟨x, hx⟩ | ⟨hle, hbig, he⟩ | ⟨he, -⟩
      · cases hx
      · split_ifs at he with hdebug
        · exact absurd (hslice hdebug c (.here c hle)) (by omega)
        · cases he
      · cases he
    | ok r =>
      rcases r with p | ⟨c', rem⟩
      · nofun
      · obtain ⟨hlt, rfl, hslot, hcap, hk⟩ := lookupIter_inr hradix.2 hshift hiter
        exact ih (hs.next hcap hk) (by omega)
          fun hdebug d hd => hslice hdebug d (.next hlt hslot hcap hk hd)

/-- Where all slots have memory, the lookup returns a slot or an error. -/
theorem lookupLoop_returns {n : Nat} {c : CapabilityData} {depthBits : Nat} (hs : RadixBounded s c)
    (hshift : depthBits < c.radix + 64) (hlive : ∀ d, InCSpace s c d → SlotsLive s d)
    (hn : depthBits < n) : (∃ p, lookupLoop cfg n c capptr depthBits s = .ok p) ∨
      ∃ e, lookupLoop cfg n c capptr depthBits s = .error (.err e) := by
  induction n generalizing c depthBits with
  | zero => exact absurd hn (Nat.not_lt_zero _)
  | succ n ih =>
    have hradix := hs c .root
    obtain ⟨hfit, hslots⟩ := hlive c .root
    rw [lookupLoop_succ]
    cases hiter : c.lookupIter cfg capptr depthBits s with
    | error e =>
      rcases lookupIter_error hradix.2 hshift hiter with ⟨x, rfl⟩ | ⟨-, hbig, -⟩ | ⟨-, i, hi, hdead⟩
      · exact .inr ⟨x, rfl⟩
      · have := Nat.pow_le_pow_right (show 0 < 2 by decide) (show 58 ≤ c.radix by omega)
        rw [entrySize] at hfit
        omega
      · cases hdead.symm.trans (hslots i hi)
    | ok r =>
      rcases r with p | ⟨c', rem⟩
      · exact .inl ⟨p, rfl⟩
      · obtain ⟨hlt, rfl, -, hcap, hk⟩ := lookupIter_inr hradix.2 hshift hiter
        exact ih (hs.next hcap hk) (by omega)
          (fun d hd => hlive d ((InCSpace.next hcap hk).trans hd)) (by omega)

/-- **Which lookups are safe**: those whose depth is less than the radix of the root CNode and a
word, and in the checked build those that pass no CNode with too many slots for a slice. -/
theorem lookupSafe_iff {root : CapabilityData} {depth : Nat} (hs : RadixBounded s root) :
    LookupSafe cfg s root capptr depth ↔
      depth < root.radix + 64 ∧
      (cfg.profile = .debug → ∀ d, Visits s capptr root depth d → d.radix ≤ 57) := by
  constructor
  · intro h
    have hshift : depth < root.radix + 64 := by
      by_contra hge
      have := h.shift root depth (.here _ _) (by omega)
      omega
    refine ⟨hshift, fun hdebug d hd => ?_⟩
    by_contra hbig
    obtain ⟨n, hn⟩ := hd.panics hdebug hs hshift (by omega)
    exact h.noPanic n hn
  · rintro ⟨hshift, hslice⟩
    refine ⟨fun c n hreach hle => ?_, fun c n hreach p rem hstep => (lookupStep_ok hstep).2,
      fun n => lookupLoop_ne_panicked n hs hshift hslice,
      fun hlive n hn => lookupLoop_returns hs hshift hlive hn⟩
    have := hreach.shift_lt hs hshift
    omega

end CapabilityData

/-- The radix of a CNode capability is that of a CNode that was made. -/
def MadeRadix : CapProp := fun objects _ c => c.getCapType = .ok .cNode →
  ∃ o ∈ objects, o.kind = .cNode ∧ o.userSize = c.radix

theorem madeRadix_capRule : CapRule MadeRadix where
  mono hobj _ h hk := by
    obtain ⟨o, ho, h⟩ := h hk
    exact ⟨o, hobj ho, h⟩
  untyped h hk := by cases h.symm.trans hk
  fresh ho hc hk := by
    have hkind := Except.ok.inj (hc.capType.symm.trans hk)
    exact ⟨_, ho, hkind, (hc.radix hkind).symm⟩
  retag v hk _ _ hk' := absurd hk' hk
  mapped v h _ hk := by cases h.symm.trans hk
  root v h _ _ hk := by cases h.symm.trans hk

/-- After boot, the capability space is bounded if the CNodes are. -/
theorem radixBounded_of_boot {cfg : Config} {image : Image} {s : KState} (hboot : Boot cfg image s)
    (hobjects : ∀ o ∈ s.objects, o.kind = .cNode → 1 ≤ o.userSize ∧ o.userSize ≤ 63)
    {p : Nat} {c : CapabilityData} (hc : s.capAt p = some c) (hk : c.getCapType = .ok .cNode) :
    c.RadixBounded s := by
  have hall : CapsAll MadeRadix s := CapsAll.of_run (C := fun _ _ _ _ => False) madeRadix_capRule
    (fun _ _ _ _ h => h.elim) hboot .refl
  have hcap : ∀ p c, s.capAt p = some c → c.getCapType = .ok .cNode →
      1 ≤ c.radix ∧ c.radix ≤ 63 := by
    intro p c hc hk
    obtain ⟨o, ho, hkind, hsize⟩ := hall c (.inl ⟨p, hc⟩) hk
    exact hsize ▸ hobjects o ho hkind
  intro d hd
  cases hd with
  | root => exact hcap p _ hc hk
  | slot _ _ hcap' hk' => exact hcap _ d hcap' hk'

/-- The root server looks up its own CNode with the 18 bits of its radix. -/
theorem lookupSafe_root : ∃ s c, Boot .virt demoImage s ∧
    s.capAt (toKernelV 2151677952 + entrySize * 2) = some c ∧ c.LookupSafe .virt s 2 18 := by
  obtain ⟨s, hboot, htest⟩ := exists_boot .virt demoImage
    (fun s => (s.capAt (toKernelV 2151677952 + entrySize * 2)).any (fun c =>
        c.getCapType = .ok .cNode && c.radix = 18) &&
      ∀ o ∈ s.objects, o.kind = .cNode → 1 ≤ o.userSize ∧ o.userSize ≤ 63) (by decide +kernel)
  simp only [Bool.and_eq_true, decide_eq_true_eq, Option.any_eq_true] at htest
  obtain ⟨⟨c, hc, hk, hradix⟩, hobjects⟩ := htest
  refine ⟨s, c, hboot, hc, (CapabilityData.lookupSafe_iff
    (radixBounded_of_boot hboot hobjects hc hk)).2 ⟨by omega, fun _ d hd => ?_⟩⟩
  -- no bits are left behind the root CNode
  cases hd with
  | here => omega
  | next hlt => omega

/-- The root server looks up a pointer with 82 bits: 64 more than the radix of its CNode. The shift
stops the checked build. -/
theorem not_lookupSafe_depth : ∃ s c, Boot .virt demoImage s ∧
    s.capAt (toKernelV 2151677952 + entrySize * 2) = some c ∧ c.RadixBounded s ∧
    ¬c.LookupSafe .virt s 0 82 ∧
    ∃ s', (Event.trap (ecallRegs 0 82 0)).exec .virt s = .error panicked s' := by
  obtain ⟨s, hboot, htest⟩ := exists_boot .virt demoImage
    (fun s => (s.capAt (toKernelV 2151677952 + entrySize * 2)).any (fun c =>
        c.getCapType = .ok .cNode && c.radix = 18) &&
      ((∀ o ∈ s.objects, o.kind = .cNode → 1 ≤ o.userSize ∧ o.userSize ≤ 63) &&
      stopsWith ((Event.trap (ecallRegs 0 82 0)).exec .virt s) panicked)) (by decide +kernel)
  simp only [Bool.and_eq_true, decide_eq_true_eq, Option.any_eq_true] at htest
  obtain ⟨⟨c, hc, hk, hradix⟩, hobjects, hpanic⟩ := htest
  refine ⟨s, c, hboot, hc, radixBounded_of_boot hboot hobjects hc hk, fun h => ?_,
    exists_of_stopsWith hpanic⟩
  have := h.shift c 82 (.here _ _) (by omega)
  omega

end Zoeax
