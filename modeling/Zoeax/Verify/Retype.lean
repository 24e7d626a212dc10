import Zoeax.Kernel.Syscall
import Zoeax.Verify.Untyped

/-!
# What one retype computes

`retype` in both builds, for every capability and every request: when it returns, with which
generator and which packed word (`retype_ok_iff`), and how it ends otherwise. The wrapping build
computes modulo `2 ^ 64`; the checked one computes the same numbers and stops at the first that does
not fit (`Profile.Fits`).
-/

namespace Zoeax

open Lib

/-- `align_up` in both builds. -/
theorem alignUp_eq_some {p : Profile} {v j m : Nat} (hv : v < 2 ^ 64) (hj : j < 64) :
    alignUp p v (2 ^ j) = some m ↔ p.Fits (v + 2 ^ j) ∧ roundUp v (2 ^ j) % 2 ^ 64 = m := by
  have hpos : 1 ≤ 2 ^ j := Nat.one_le_two_pow
  have hlt : 2 ^ j < 2 ^ 64 := Nat.pow_lt_pow_right (by decide) hj
  by_cases hfits : p.Fits (v + 2 ^ j)
  · have htop : p.sub ((v + 2 ^ j) % 2 ^ 64) 1 = some ((v + 2 ^ j - 1) % 2 ^ 64) := by
      unfold Profile.sub
      split
      · congr 1
        omega
      · next hzero =>
        cases p with
        | debug => exact absurd (hfits rfl) (by omega)
        | release =>
          simp only [Option.some.injEq]
          omega
    have hmask : (v + 2 ^ j - 1) % 2 ^ 64 &&& notU64 (2 ^ j - 1) =
        roundUp v (2 ^ j) % 2 ^ 64 := by
      rw [and_notU64_two_pow_sub_one (Nat.mod_lt _ (by decide)) hj.le, mod_div_mul_two_pow hj.le,
        roundUp]
    simp only [alignUp, Profile.add, Profile.wrap_of_fits hfits, htop, p.sub_of_le hpos,
      Option.bind_eq_bind, Option.bind_some, Option.pure_def, hmask, Option.some.injEq,
      and_iff_right hfits]
  · simp only [alignUp, Profile.add, Profile.wrap_of_not_fits hfits, Option.bind_eq_bind,
      Option.bind_none, reduceCtorEq, hfits, false_and]

namespace CapabilityData

variable {cfg : Config} {k : CapabilityType} {c c' : CapabilityData} {gen : CapGenerator}
  {userSize num size : Nat}

/-- `start_address` in `get_free_bytes`. -/
def startAddress (c : CapabilityData) : Nat := toKernelV c.getAddress

/-- The exact end of the block, as the kernel sees it. -/
def endAddress (c : CapabilityData) : Nat := c.startAddress + c.blockSize

/-- Where the first object of a retype goes. -/
def firstAddress (c : CapabilityData) (k : CapabilityType) : Nat := roundUp c.getFreeIndex k.align

/-- The exact end of the memory that a retype takes: the whole request, once for each of its
objects. -/
def lastAddress (c : CapabilityData) (k : CapabilityType) (size num : Nat) : Nat :=
  c.firstAddress k + num * (num * size)

/-! ## The addresses of a capability -/

theorem getFreeIndex_eq_add (c : CapabilityData) :
    c.getFreeIndex = c.capDepVal.toNat >>> 16 % 2 ^ 47 + kernelVAddrPfx := by
  have hlt := c.capDepVal.toNat_lt
  refine toKernelV_eq ?_
  rw [Nat.shiftRight_eq_div_pow]
  omega

theorem pfx_le_getFreeIndex (c : CapabilityData) : kernelVAddrPfx ≤ c.getFreeIndex := by
  rw [getFreeIndex_eq_add]
  exact Nat.le_add_left _ _

theorem getFreeIndex_lt (c : CapabilityData) : c.getFreeIndex < 2 ^ 64 := by
  have hlt : c.capDepVal.toNat >>> 16 % 2 ^ 47 < 2 ^ 47 := Nat.mod_lt _ (by decide)
  rw [getFreeIndex_eq_add, kernelVAddrPfx]
  omega

theorem blockSize_le (c : CapabilityData) : c.blockSize ≤ 2 ^ 63 := by
  rw [blockSize_eq]
  exact Nat.pow_le_pow_right (by decide) (by omega)

theorem align_pos (k : CapabilityType) : 0 < k.align := by
  cases k <;> decide

theorem getFreeIndex_le_firstAddress (c : CapabilityData) (k : CapabilityType) :
    c.getFreeIndex ≤ c.firstAddress k := le_roundUp (align_pos k)

theorem alignUp_getFreeIndex {p : Profile} {m : Nat} (c : CapabilityData) (k : CapabilityType) :
    alignUp p c.getFreeIndex k.align = some m ↔
      p.Fits (c.getFreeIndex + k.align) ∧ c.firstAddress k % 2 ^ 64 = m := by
  obtain ⟨j, hj, hal⟩ := align_eq_two_pow k
  rw [firstAddress, hal]
  exact alignUp_eq_some c.getFreeIndex_lt (by omega)

/-- `get_free_bytes`, with the free index inside the block: the difference is exact even where the
end of the block wraps. -/
theorem getFreeBytes_of_inside (cfg : Config) (hlo : c.startAddress ≤ c.getFreeIndex)
    (hhi : c.getFreeIndex ≤ c.endAddress) :
    c.getFreeBytes cfg = if cfg.profile.Fits c.endAddress then
      .ok (c.endAddress - c.getFreeIndex) else .error panicked := by
  have hblock := c.blockSize_le
  have hfree := c.getFreeIndex_lt
  split
  · next hfits =>
    have hsub : cfg.profile.sub (c.endAddress % 2 ^ 64) c.getFreeIndex =
        some (c.endAddress - c.getFreeIndex) := by
      unfold endAddress at hhi ⊢ hfits
      unfold Profile.sub
      split
      · congr 1
        omega
      · cases hp : cfg.profile with
        | debug =>
          have := hfits hp
          omega
        | release =>
          simp only [Option.some.injEq]
          omega
    change arith (cfg.profile.wrap c.endAddress) >>= _ = _
    rw [Profile.wrap_of_fits hfits, arith_some, except_ok_bind, hsub, arith_some]
  · next hfits =>
    change arith (cfg.profile.wrap c.endAddress) >>= _ = _
    rw [Profile.wrap_of_not_fits hfits]
    rfl

/-! ## The result -/

/-- The generator that a retype returns. -/
def generator (c : CapabilityData) (k : CapabilityType) (userSize size num : Nat) : CapGenerator :=
  ⟨k, num, c.firstAddress k % 2 ^ 64, userSize, num * size % 2 ^ 64,
    c.lastAddress k size num % 2 ^ 64⟩

/-- The capability after a retype that takes the memory up to `a`. -/
def retyped (c : CapabilityData) (a : Nat) : CapabilityData :=
  let c' := c.setCapDepVal (UInt64.ofNat (toPhys a * 2 ^ 16 ||| c.capDepVal.toNat % 64))
  if c.isDevice then c'.markIsDevice else c'

theorem toPhys_lt (a : Nat) : toPhys a < 2 ^ 47 := by
  rw [toPhys_eq]
  exact Nat.mod_lt _ (by decide)

theorem toPhys_mod (a : Nat) : toPhys (a % 2 ^ 64) = toPhys a := by
  rw [toPhys_eq, toPhys_eq]
  omega

/-- The word of an untyped capability that keeps its block. -/
theorem createCapDepVal_blockSize (c : CapabilityData) (a : Nat) :
    CapabilityType.untyped.createCapDepVal a c.blockSize =
      .ok (toPhys a * 2 ^ 16 ||| c.capDepVal.toNat % 64) := by
  have hpos : (2 : Nat) ^ (c.capDepVal.toNat % 64) ≠ 0 := by positivity
  have hlt := toPhys_lt a
  rw [blockSize_eq, CapabilityType.createCapDepVal, if_neg hpos, Nat.log2_two_pow,
    Nat.shiftLeft_eq, Nat.mod_eq_of_lt (by omega)]

theorem firstAddress_lt_add (c : CapabilityData) (k : CapabilityType) :
    c.firstAddress k < c.getFreeIndex + k.align := by
  have hpos := align_pos k
  have hle := Nat.div_mul_le_self (c.getFreeIndex + k.align - 1) k.align
  unfold firstAddress roundUp
  omega

theorem lastAddress_mod (c : CapabilityData) (k : CapabilityType) (size num : Nat) :
    (c.firstAddress k % 2 ^ 64 + num * size % 2 ^ 64 * num % 2 ^ 64) % 2 ^ 64 =
      c.lastAddress k size num % 2 ^ 64 := by
  rw [lastAddress, ← Nat.add_mod, Nat.mul_comm num (num * size), Nat.add_mod, Nat.mod_mul_mod,
    ← Nat.add_mod]

/-- The generator, once the size of the request has been computed. -/
theorem generator_new (hobj : cfg.profile.Fits (num * size))
    (hal : cfg.profile.Fits (c.getFreeIndex + k.align)) :
    CapGenerator.new cfg k num (c.firstAddress k % 2 ^ 64) userSize (num * size % 2 ^ 64) =
      if cfg.profile.Fits (c.lastAddress k size num) then .ok (c.generator k userSize size num)
      else .error panicked := by
  -- the checked build computes exact numbers, the other one never stops
  have hcases : cfg.profile.Fits (num * size % 2 ^ 64 * num) ∧
      cfg.profile.Fits (c.firstAddress k % 2 ^ 64 + num * size % 2 ^ 64 * num % 2 ^ 64) ↔
      cfg.profile.Fits (c.lastAddress k size num) := by
    cases hp : cfg.profile with
    | release => exact ⟨fun _ => nofun, fun _ => ⟨nofun, nofun⟩⟩
    | debug =>
      have hfirst := (c.firstAddress_lt_add k).trans (hal hp)
      rw [Nat.mod_eq_of_lt (hobj hp), Nat.mod_eq_of_lt hfirst, lastAddress,
        Nat.mul_comm num (num * size)]
      constructor
      · rintro ⟨hmul, hadd⟩ -
        rw [Nat.mod_eq_of_lt (hmul rfl)] at hadd
        exact hadd rfl
      · intro h
        have hlt := h rfl
        have hmul : num * size * num < 2 ^ 64 := by omega
        exact ⟨fun _ => hmul, fun _ => by rw [Nat.mod_eq_of_lt hmul]; exact hlt⟩
  split
  · next h =>
    obtain ⟨hmul, hadd⟩ := hcases.2 h
    simp only [CapGenerator.new, Profile.mul, Profile.add, Profile.wrap_of_fits hmul,
      Profile.wrap_of_fits hadd, arith_some, except_ok_bind, lastAddress_mod]
    rfl
  · next h =>
    by_cases hmul : cfg.profile.Fits (num * size % 2 ^ 64 * num)
    · have hadd := fun hadd => h (hcases.1 ⟨hmul, hadd⟩)
      simp only [CapGenerator.new, Profile.mul, Profile.add, Profile.wrap_of_fits hmul,
        Profile.wrap_of_not_fits hadd, arith_some, except_ok_bind]
      rfl
    · simp only [CapGenerator.new, Profile.mul, Profile.wrap_of_not_fits hmul]
      rfl

/-- **What `retype` computes**, in both builds: the checks in their order, and then the generator
and the capability. -/
theorem retype_eq (hsize : k.getObjectSize cfg userSize = .ok size) :
    c.retype cfg k userSize num = (do
      require (!c.isDevice || k.canBeRetypedFromDeviceMemory) (kerr .canNotNewFromDeviceMemory 0)
      require (cfg.profile.Fits (num * size)) panicked
      let freeBytes ← c.getFreeBytes cfg
      require (num * size % 2 ^ 64 ≤ freeBytes) (kerr .noMemory 0)
      require (cfg.profile.Fits (c.getFreeIndex + k.align)) panicked
      require (cfg.profile.Fits (c.lastAddress k size num)) panicked
      return (c.retyped (c.lastAddress k size num), c.generator k userSize size num)) := by
  unfold retype
  refine congrArg (_ >>= ·) (funext fun _ => ?_)
  rw [hsize, except_ok_bind, Profile.mul]
  by_cases hobj : cfg.profile.Fits (num * size)
  · rw [Profile.wrap_of_fits hobj, arith_some, except_ok_bind, require,
      if_pos (decide_eq_true hobj), except_ok_bind]
    refine congrArg (_ >>= ·) (funext fun free => congrArg (_ >>= ·) (funext fun _ => ?_))
    by_cases hal : cfg.profile.Fits (c.getFreeIndex + k.align)
    · rw [(alignUp_getFreeIndex c k).2 ⟨hal, rfl⟩, arith_some, except_ok_bind, require,
        if_pos (decide_eq_true hal), except_ok_bind, generator_new hobj hal]
      by_cases hlast : cfg.profile.Fits (c.lastAddress k size num)
      · rw [if_pos hlast, except_ok_bind, require, if_pos (decide_eq_true hlast), except_ok_bind,
          createCapDepVal_blockSize, except_ok_bind, generator, toPhys_mod]
        rfl
      · rw [if_neg hlast, require, if_neg (by simpa using hlast)]
        rfl
    · have hnone : alignUp cfg.profile c.getFreeIndex k.align = none := by
        refine Option.eq_none_iff_forall_ne_some.2 fun m hm => hal ?_
        exact ((alignUp_getFreeIndex c k).1 hm).1
      rw [hnone, require, if_neg (by simpa using hal)]
      rfl
  · rw [Profile.wrap_of_not_fits hobj, require, if_neg (by simpa using hobj)]
    rfl

/-- A retype that returns. -/
theorem retype_ok_iff (hsize : k.getObjectSize cfg userSize = .ok size) :
    c.retype cfg k userSize num = .ok (c', gen) ↔
      (c.isDevice = true → k.canBeRetypedFromDeviceMemory = true) ∧
      cfg.profile.Fits (num * size) ∧
      (∃ freeBytes, c.getFreeBytes cfg = .ok freeBytes ∧ num * size % 2 ^ 64 ≤ freeBytes) ∧
      cfg.profile.Fits (c.getFreeIndex + k.align) ∧ cfg.profile.Fits (c.lastAddress k size num) ∧
      c' = c.retyped (c.lastAddress k size num) ∧ gen = c.generator k userSize size num := by
  rw [retype_eq hsize]
  simp only [except_bind_ok, require_ok, except_pure_ok, Prod.mk.injEq, Bool.or_eq_true,
    Bool.not_eq_true', decide_eq_true_eq]
  constructor
  · rintro ⟨-, hdev, -, hobj, free, hfree, -, hle, -, hal, -, hlast, hc, hgen⟩
    exact ⟨fun hd => hdev.resolve_left (by simp [hd]), hobj, ⟨free, hfree, hle⟩, hal, hlast,
      hc.symm, hgen.symm⟩
  · rintro ⟨hdev, hobj, ⟨free, hfree, hle⟩, hal, hlast, rfl, rfl⟩
    refine ⟨(), ?_, (), hobj, free, hfree, (), hle, (), hal, (), hlast, rfl, rfl⟩
    cases hd : c.isDevice with
    | false => exact .inl rfl
    | true => exact .inr (hdev hd)

/-- The rest of a retype of memory that is not device memory, from the check of the free bytes
on. -/
theorem retype_of_getFreeBytes (hsize : k.getObjectSize cfg userSize = .ok size)
    (hdev : c.isDevice = false) (hobj : num * size < 2 ^ 64) {freeBytes : Nat}
    (hfree : c.getFreeBytes cfg = .ok freeBytes) :
    c.retype cfg k userSize num = (do
      require (num * size ≤ freeBytes) (kerr .noMemory 0)
      require (cfg.profile.Fits (c.getFreeIndex + k.align)) panicked
      require (cfg.profile.Fits (c.lastAddress k size num)) panicked
      return (c.retyped (c.lastAddress k size num), c.generator k userSize size num)) := by
  have hfits : decide (cfg.profile.Fits (num * size)) = true :=
    decide_eq_true (cfg.profile.fits_of_lt hobj)
  rw [retype_eq hsize, hdev, hfits, hfree, Nat.mod_eq_of_lt hobj]
  rfl

theorem retype_noMemory (hsize : k.getObjectSize cfg userSize = .ok size)
    (hdev : c.isDevice = false) (hobj : num * size < 2 ^ 64) {freeBytes : Nat}
    (hfree : c.getFreeBytes cfg = .ok freeBytes) (hlt : freeBytes < num * size) :
    c.retype cfg k userSize num = .error (kerr .noMemory 0) := by
  rw [retype_of_getFreeBytes hsize hdev hobj hfree, require, if_neg (by simpa using hlt)]
  rfl

/-- An accepted request whose numbers the checked build cannot hold. -/
theorem retype_panicked (hsize : k.getObjectSize cfg userSize = .ok size)
    (hdev : c.isDevice = false) (hobj : num * size < 2 ^ 64) {freeBytes : Nat}
    (hfree : c.getFreeBytes cfg = .ok freeBytes) (hle : num * size ≤ freeBytes)
    (hnot : ¬(cfg.profile.Fits (c.getFreeIndex + k.align) ∧
      cfg.profile.Fits (c.lastAddress k size num))) :
    c.retype cfg k userSize num = .error panicked := by
  rw [retype_of_getFreeBytes hsize hdev hobj hfree, require, if_pos (decide_eq_true hle),
    except_ok_bind]
  by_cases hal : cfg.profile.Fits (c.getFreeIndex + k.align)
  · have hlast : ¬cfg.profile.Fits (c.lastAddress k size num) := fun h => hnot ⟨hal, h⟩
    rw [require, if_pos (decide_eq_true hal), except_ok_bind, require,
      if_neg (by simpa using hlast)]
    rfl
  · rw [require, if_neg (by simpa using hal)]
    rfl

/-- The fields of a word with a free index above the device flag, which is not set. -/
theorem word_fields {w : UInt64} {a x : Nat} (ha : a < 2 ^ 47) (hx : x < 64)
    (hw : w.toNat = a * 2 ^ 16 + x) :
    (c.setCapDepVal w).blockSize = 2 ^ x ∧ (c.setCapDepVal w).isDevice = false ∧
      (c.setCapDepVal w).getFreeIndex = a + kernelVAddrPfx := by
  refine ⟨?_, ?_, ?_⟩
  · rw [blockSize_eq]
    change 2 ^ (w.toNat % 64) = 2 ^ x
    rw [hw]
    congr 1
    omega
  · change w.toNat.testBit 6 = false
    rw [hw, Nat.testBit_eq_decide_div_mod_eq]
    exact decide_eq_false (by omega)
  · rw [getFreeIndex_eq_add]
    change w.toNat >>> 16 % 2 ^ 47 + _ = _
    rw [hw, Nat.shiftRight_eq_div_pow]
    omega

/-- The fields of the capability after a retype. -/
theorem retyped_fields (c : CapabilityData) (a : Nat) :
    (c.retyped a).getAddress = c.getAddress ∧ (c.retyped a).blockSize = c.blockSize ∧
    (c.retyped a).isDevice = false ∧
    (c.retyped a).getFreeIndex = (if c.isDevice then 0 else toPhys a) + kernelVAddrPfx := by
  have hlt := toPhys_lt a
  have hsix : c.capDepVal.toNat % 64 < 64 := Nat.mod_lt _ (by decide)
  have hor : toPhys a * 2 ^ 16 ||| c.capDepVal.toNat % 64 =
      toPhys a * 2 ^ 16 + c.capDepVal.toNat % 64 := by
    rw [← Nat.shiftLeft_eq, shiftLeft_or_of_lt (by omega), Nat.shiftLeft_eq]
  have hword : (UInt64.ofNat (toPhys a * 2 ^ 16 ||| c.capDepVal.toNat % 64)).toNat =
      toPhys a * 2 ^ 16 + c.capDepVal.toNat % 64 := by
    rw [hor]
    exact UInt64.toNat_ofNat_of_lt' (by norm_num [UInt64.size]; omega)
  rw [c.blockSize_eq]
  unfold retyped
  cases hd : c.isDevice with
  | false => exact ⟨rfl, word_fields hlt hsix hword⟩
  | true =>
    -- `mark_is_device` keeps the size alone
    refine ⟨rfl, word_fields (a := 0) (by decide) hsix ?_⟩
    change (UInt64.ofNat (toPhys a * 2 ^ 16 ||| c.capDepVal.toNat % 64) &&& 0x3f).toNat = _
    rw [UInt64.toNat_and, hword]
    change _ &&& 0x3f = _
    rw [and_low_six]
    omega

/-- An untyped capability for the `2 ^ bits` bytes at `a`, nothing taken from it. -/
def fresh (a bits : Nat) : CapabilityData := new .untyped a (UInt64.ofNat (a * 2 ^ 16 ||| bits))

/-! ## The packed word -/

/-- **What a retype does to the packed word.** The block and the address stay. The device flag is
lost, with the free index of device memory, and otherwise the new free index is the end of the
generator, as long as that does not wrap out of the kernel's half. -/
theorem retype_word_iff (hsize : k.getObjectSize cfg userSize = .ok size)
    (h : c.retype cfg k userSize num = .ok (c', gen)) :
    (c'.blockSize = c.blockSize ∧ c'.isDevice = c.isDevice ∧ c'.getAddress = c.getAddress ∧
      c'.getFreeIndex = gen.endAddress) ↔
    c.isDevice = false ∧ kernelVAddrPfx ≤ c.lastAddress k size num % 2 ^ 64 := by
  obtain ⟨-, -, -, -, -, rfl, rfl⟩ := (retype_ok_iff hsize).1 h
  obtain ⟨haddr, hblock, hdev, hfree⟩ := c.retyped_fields (c.lastAddress k size num)
  have hlt : c.lastAddress k size num % 2 ^ 64 < 2 ^ 64 := Nat.mod_lt _ (by decide)
  rw [haddr, hblock, hdev, hfree, ← toPhys_mod, toPhys_eq]
  change _ ∧ _ ∧ _ ∧ _ = c.lastAddress k size num % 2 ^ 64 ↔ _
  cases hd : c.isDevice with
  | true => simp
  | false =>
    simp only [true_and, Bool.false_eq_true, if_false, kernelVAddrPfx]
    omega

/-- One page from a block of four. -/
theorem retype_word_page : ∃ c' gen, (fresh 0x80000000 14).retype .virt .page 0 1 = .ok (c', gen) ∧
    c'.blockSize = 2 ^ 14 ∧ c'.getFreeIndex = gen.endAddress := by
  obtain ⟨⟨c', gen⟩, h, -⟩ := exists_of_okAnd
    (show okAnd ((fresh 0x80000000 14).retype .virt .page 0 1) (fun _ => true) = true by
      decide +kernel)
  obtain ⟨hblock, -, -, hfree⟩ :=
    (retype_word_iff (show CapabilityType.page.getObjectSize .virt 0 = .ok 4096 from rfl) h).2
      ⟨by decide +kernel, by decide +kernel⟩
  exact ⟨c', gen, h, hblock.trans (by decide +kernel), hfree⟩

/-- `retype::<Untyped>(4096, 1)` on a block of device memory: the block is no device memory any
more, and its free index is that of address 0. -/
theorem retype_device_word : ∃ c' gen,
    ((fresh 0x80000000 14).setCapDepVal
      (UInt64.ofNat (0x80000000 * 2 ^ 16 ||| 2 ^ 6 ||| 14))).retype .virt .untyped 4096 1 =
        .ok (c', gen) ∧
    c'.isDevice = false ∧ c'.getFreeIndex = kernelVAddrPfx ∧
    gen.endAddress = kernelVAddrPfx + 0x80001000 := by
  obtain ⟨⟨c', gen⟩, h, htest⟩ := exists_of_okAnd
    (show okAnd (((fresh 0x80000000 14).setCapDepVal
      (UInt64.ofNat (0x80000000 * 2 ^ 16 ||| 2 ^ 6 ||| 14))).retype .virt .untyped 4096 1) (fun r =>
      !r.1.isDevice && r.1.getFreeIndex == kernelVAddrPfx &&
        r.2.endAddress == kernelVAddrPfx + 0x80001000) = true by decide +kernel)
  simp only [Bool.and_eq_true, Bool.not_eq_true', beq_iff_eq] at htest
  exact ⟨c', gen, h, htest.1.1, htest.1.2, htest.2⟩

end CapabilityData

/-! ## The generator -/

namespace CapGenerator

variable {cfg : Config}

/-- The objects of a generator, at addresses modulo the size of the direct map. -/
theorem getAddress_take_mod (n : Nat) {g : CapGenerator} {caps : List CapabilityData}
    (h : g.take cfg n = .ok caps) :
    caps.map CapabilityData.getAddress =
      (List.range n).map fun i => (g.address + i * g.objSize) % 2 ^ 47 := by
  induction n generalizing g caps with
  | zero =>
    obtain rfl := Except.ok.inj h
    rfl
  | succ n ih =>
    simp only [take, except_bind_ok, except_pure_ok, Prod.exists] at h
    obtain ⟨cap, g', hnext, rest, hrest, rfl⟩ := h
    obtain ⟨⟨v, rfl⟩, address, haddr, rfl⟩ := next_ok hnext
    obtain ⟨-, rfl⟩ := Profile.wrap_eq_some.1 haddr
    have hhead : (CapabilityData.new g.k (toPhys g.address) v).getAddress = g.address % 2 ^ 47 := by
      rw [CapabilityData.getAddress_new, toPhys_eq]
      omega
    rw [List.map_cons, ih hrest, hhead, List.range_succ_eq_map, List.map_cons, List.map_map,
      Nat.zero_mul, Nat.add_zero]
    refine congrArg _ (List.map_congr_left fun i _ => ?_)
    simp only [Function.comp_apply, Nat.succ_mul]
    omega

/-- A generator whose last address fits is not stopped by the arithmetic. -/
theorem exists_take (cfg : Config) (n : Nat) {g : CapGenerator}
    (hk : g.k = .untyped → g.userSize ≠ 0) (hfits : cfg.profile.Fits (g.address + n * g.objSize)) :
    ∃ caps, g.take cfg n = .ok caps := by
  induction n generalizing g with
  | zero => exact ⟨[], rfl⟩
  | succ n ih =>
    obtain ⟨v, hv⟩ : ∃ v, g.k.createCapDepVal g.address g.userSize = .ok v := by
      cases hg : g.k with
      | untyped => exact ⟨_, if_neg (hk hg)⟩
      | _ => exact ⟨_, rfl⟩
    rw [Nat.succ_mul] at hfits
    have hadd : cfg.profile.Fits (g.address + g.objSize) := hfits.mono (by omega)
    have hnext : g.next cfg = .ok (.new g.k (toPhys g.address) (UInt64.ofNat v),
        { g with address := (g.address + g.objSize) % 2 ^ 64, num := g.num - 1 }) := by
      rw [next, hv, except_ok_bind, Profile.add, Profile.wrap_of_fits hadd]
      rfl
    have hmod := Nat.mod_le (g.address + g.objSize) (2 ^ 64)
    obtain ⟨caps, hcaps⟩ := ih (g := { g with
      address := (g.address + g.objSize) % 2 ^ 64, num := g.num - 1 }) hk
      (hfits.mono (by dsimp only; omega))
    exact ⟨_ :: caps, except_bind_ok.2 ⟨_, hnext, except_bind_ok.2 ⟨caps, hcaps, rfl⟩⟩⟩

/-- `ilog2` of zero. -/
theorem take_untyped_zero (n : Nat) {g : CapGenerator} (hk : g.k = .untyped) (hu : g.userSize = 0) :
    g.take cfg (n + 1) = .error panicked := by
  rw [take, next, hk, hu]
  rfl

end CapGenerator

/-! ## The check of the free bytes -/

/-- The request is refused with `e` whatever slot the capability is in, and nothing has changed. -/
def Refused (cfg : Config) (k : CapabilityType) (c : CapabilityData) (userSize num : Nat)
    (e : Stop) : Prop :=
  ∀ (s : KState) (slot window : Nat) (entry : CNodeEntry), s.slots slot = some entry →
    entry.cap = c → c.getCapType = .ok .untyped →
    retypeAndInsert cfg slot window userSize num k s = .error e s

namespace CapabilityData

variable {cfg : Config} {k : CapabilityType} {c c' : CapabilityData} {gen : CapGenerator}
  {userSize num size : Nat}

theorem invokeRetype_of_ne (hk : k ≠ .untyped) :
    c.invokeRetype cfg userSize num k = c.retype cfg k userSize num := by
  cases k with
  | untyped => exact absurd rfl hk
  | _ => rfl

theorem refused_of_error {e : Stop} (h : c.invokeRetype cfg userSize num k = .error e) :
    Refused cfg k c userSize num e := by
  intro s slot window entry hslot hc hk
  have hread : (liftM (deref (·.slots slot)) : KM CNodeEntry) s = .ok entry s :=
    Exec.lift_ok.2 ⟨deref_ok.2 hslot, rfl⟩
  have htype : (liftM (entry.cap.tryRefAs .untyped) : KM Unit) s = .ok () s :=
    Exec.liftExcept_ok.2 ⟨tryRefAs_ok.2 (hc ▸ hk), rfl⟩
  refine Exec.bind_error.2 (.inr ⟨entry, s, hread, Exec.bind_error.2 (.inr ⟨(), s, htype, ?_⟩)⟩)
  exact Exec.bind_error.2 (.inl (Exec.lift_error.2 ⟨by rw [hc]; exact h, rfl⟩))

/-- What the check of the free bytes is for: `retype` returns exactly if the request fits behind the
padding, and otherwise refuses it with `NoMemory`. -/
structure ExactCheck (cfg : Config) (k : CapabilityType) (c : CapabilityData)
    (userSize num size : Nat) : Prop where
  ok_iff : (∃ r, c.retype cfg k userSize num = .ok r) ↔
    c.firstAddress k + num * size ≤ c.endAddress
  noMemory : ¬c.firstAddress k + num * size ≤ c.endAddress →
    c.retype cfg k userSize num = .error (kerr .noMemory 0) ∧
      (k ≠ .untyped → Refused cfg k c userSize num (kerr .noMemory 0))

theorem not_exactCheck_of_panicked (h : c.retype cfg k userSize num = .error panicked) :
    ¬ExactCheck cfg k c userSize num size := by
  intro hexact
  by_cases hfits : c.firstAddress k + num * size ≤ c.endAddress
  · obtain ⟨r, hr⟩ := hexact.ok_iff.2 hfits
    cases h.symm.trans hr
  · cases h.symm.trans (hexact.noMemory hfits).1

/-- **The check is exact** if and only if the padding never decides, and no number of an accepted
request leaves the word of the checked build. -/
theorem exactCheck_iff (hlo : c.startAddress ≤ c.getFreeIndex) (hhi : c.getFreeIndex ≤ c.endAddress)
    (hdev : c.isDevice = false) (hsize : k.getObjectSize cfg userSize = .ok size)
    (hobj : num * size < 2 ^ 64) :
    ExactCheck cfg k c userSize num size ↔
      cfg.profile.Fits c.endAddress ∧
      (c.getFreeIndex + num * size ≤ c.endAddress →
        c.firstAddress k + num * size ≤ c.endAddress ∧
        cfg.profile.Fits (c.getFreeIndex + k.align) ∧
        cfg.profile.Fits (c.firstAddress k + num * (num * size))) := by
  have hfirst := c.getFreeIndex_le_firstAddress k
  have hfree := getFreeBytes_of_inside cfg hlo hhi
  by_cases hend : cfg.profile.Fits c.endAddress
  · rw [if_pos hend] at hfree
    rw [and_iff_right hend]
    by_cases hle : c.getFreeIndex + num * size ≤ c.endAddress
    · have hbytes : num * size ≤ c.endAddress - c.getFreeIndex := by omega
      by_cases hfits : cfg.profile.Fits (c.getFreeIndex + k.align) ∧
          cfg.profile.Fits (c.firstAddress k + num * (num * size))
      · have hok : c.retype cfg k userSize num = .ok (_, _) := (retype_ok_iff hsize).2
          ⟨fun hd => absurd hd (by simp [hdev]), cfg.profile.fits_of_lt hobj,
            ⟨_, hfree, by rwa [Nat.mod_eq_of_lt hobj]⟩, hfits.1, hfits.2, rfl, rfl⟩
        constructor
        · exact fun h _ => ⟨h.ok_iff.1 ⟨_, hok⟩, hfits⟩
        · intro h
          obtain ⟨hroom, -⟩ := h hle
          exact ⟨⟨fun _ => hroom, fun _ => ⟨_, hok⟩⟩, fun hn => absurd hroom hn⟩
      · have hpanic := retype_panicked hsize hdev hobj hfree hbytes hfits
        exact ⟨fun h => absurd h (not_exactCheck_of_panicked hpanic),
          fun h => absurd (h hle).2 hfits⟩
    · have hno : c.retype cfg k userSize num = .error (kerr .noMemory 0) :=
        retype_noMemory hsize hdev hobj hfree (by omega)
      have hnot : ¬c.firstAddress k + num * size ≤ c.endAddress := by omega
      refine ⟨fun _ h => absurd h hle, fun _ => ⟨⟨?_, fun h => absurd h hnot⟩, fun _ => ⟨hno, ?_⟩⟩⟩
      · rintro ⟨r, hr⟩
        cases hno.symm.trans hr
      · exact fun hk => refused_of_error ((invokeRetype_of_ne hk).trans hno)
  · rw [if_neg hend] at hfree
    have hpanic : c.retype cfg k userSize num = .error panicked := by
      rw [retype_eq hsize, hdev, hfree, require, require,
        if_pos (decide_eq_true (cfg.profile.fits_of_lt hobj))]
      rfl
    exact ⟨fun h => absurd h (not_exactCheck_of_panicked hpanic), fun h => absurd h.1 hend⟩

/-- A page from a block of four. -/
theorem exactCheck_page : ExactCheck .virt .page (fresh 0x80000000 14) 0 1 4096 :=
  (exactCheck_iff (by decide +kernel) (by decide +kernel) (by decide +kernel) rfl (by decide)).2
    ⟨by decide +kernel, by decide +kernel⟩

/-- A page from a block of the size of a page that is not aligned: the padding takes half of the
block, and the request is accepted. -/
theorem not_exactCheck_padding :
    (fresh 0x80000800 12).startAddress = (fresh 0x80000800 12).getFreeIndex ∧
    (∃ r, (fresh 0x80000800 12).retype .virt .page 0 1 = .ok r) ∧
    (fresh 0x80000800 12).endAddress < (fresh 0x80000800 12).firstAddress .page + 1 * 4096 ∧
    ¬ExactCheck .virt .page (fresh 0x80000800 12) 0 1 4096 := by
  obtain ⟨r, hr, -⟩ := exists_of_okAnd
    (show okAnd ((fresh 0x80000800 12).retype .virt .page 0 1) (fun _ => true) = true by
      decide +kernel)
  have hover : (fresh 0x80000800 12).endAddress <
      (fresh 0x80000800 12).firstAddress .page + 1 * 4096 := by decide +kernel
  exact ⟨by decide +kernel, ⟨r, hr⟩, hover, fun h => absurd (h.ok_iff.1 ⟨r, hr⟩) (not_le.2 hover)⟩

/-! ## The objects -/

/-- The objects of a retype are packed: the generator yields `num` capabilities, one every `size`
bytes from the aligned free index on, and the new free index is where they end. -/
structure Packed (cfg : Config) (k : CapabilityType) (c : CapabilityData) (size num : Nat)
    (c' : CapabilityData) (gen : CapGenerator) : Prop where
  objects : ∃ caps, gen.toList cfg = .ok caps ∧
    caps.map (fun cap => toKernelV cap.getAddress) =
      (List.range num).map (c.firstAddress k + · * size)
  free : c'.getFreeIndex = c.firstAddress k + num * size

/-- The objects that a retype yields. -/
theorem toKernelV_toList {caps : List CapabilityData}
    (h : (c.generator k userSize size num).toList cfg = .ok caps) :
    caps.map (fun cap => toKernelV cap.getAddress) = (List.range num).map fun i =>
      (c.firstAddress k % 2 ^ 64 + i * (num * size % 2 ^ 64)) % 2 ^ 47 + kernelVAddrPfx := by
  have htake := congrArg (List.map toKernelV) (CapGenerator.getAddress_take_mod num h)
  rw [List.map_map, List.map_map] at htake
  refine htake.trans (List.map_congr_left fun i _ => ?_)
  exact toKernelV_of_lt (Nat.mod_lt _ (by decide))

/-- Below the end of the word, an address of the kernel's half is what `toPhys` keeps of it. -/
theorem mod_add_pfx {a : Nat} (hlo : kernelVAddrPfx ≤ a) (hhi : a < 2 ^ 64) :
    a % 2 ^ 47 + kernelVAddrPfx = a := by
  rw [kernelVAddrPfx] at hlo ⊢
  omega

theorem pfx_le_firstAddress (c : CapabilityData) (k : CapabilityType) :
    kernelVAddrPfx ≤ c.firstAddress k :=
  c.pfx_le_getFreeIndex.trans (c.getFreeIndex_le_firstAddress k)

/-- **Retyped objects are packed** if and only if there is one of them, or they have no size: the
generator takes the size of the whole request for that of one object. -/
theorem packed_iff (hsize : k.getObjectSize cfg userSize = .ok size) (hnum : 1 ≤ num)
    (h : c.retype cfg k userSize num = .ok (c', gen)) :
    Packed cfg k c size num c' gen ↔
      (num = 1 ∨ size = 0) ∧ c.firstAddress k + num * size < 2 ^ 64 ∧ c.isDevice = false ∧
        (k = .untyped → userSize ≠ 0) := by
  obtain ⟨hdev, -, -, hal, hlast, rfl, rfl⟩ := (retype_ok_iff hsize).1 h
  have hpfx := c.pfx_le_firstAddress k
  constructor
  · rintro ⟨⟨caps, hcaps, haddr⟩, hfree⟩
    have hlt : c.firstAddress k + num * size < 2 ^ 64 := hfree ▸ getFreeIndex_lt _
    have hu : k = .untyped → userSize ≠ 0 := by
      intro hk hzero
      obtain ⟨n, rfl⟩ := Nat.exists_eq_succ_of_ne_zero (Nat.one_le_iff_ne_zero.1 hnum)
      cases hcaps.symm.trans (CapGenerator.take_untyped_zero n hk hzero)
    refine ⟨?_, hlt, ?_, hu⟩
    · -- the second object tells the two sizes apart
      by_contra hnot
      rw [toKernelV_toList hcaps, List.map_inj_left] at haddr
      have hsecond := haddr 1 (List.mem_range.2 (by omega))
      rw [Nat.mod_eq_of_lt (show num * size < 2 ^ 64 by omega),
        Nat.mod_eq_of_lt (show c.firstAddress k < 2 ^ 64 by omega), Nat.one_mul, Nat.one_mul,
        mod_add_pfx (hpfx.trans (Nat.le_add_right _ _)) hlt] at hsecond
      have hmul : num * size = size := Nat.add_left_cancel hsecond
      rcases Nat.eq_zero_or_pos size with hzero | hpos
      · exact hnot (.inr hzero)
      · exact hnot (.inl (Nat.eq_of_mul_eq_mul_right hpos (hmul.trans (Nat.one_mul _).symm)))
    · by_contra hd
      have hd : c.isDevice = true := by simpa using hd
      rw [(retyped_fields _ _).2.2.2, if_pos hd, Nat.zero_add] at hfree
      have hk : k = .untyped := by
        have hcan := hdev hd
        cases k <;> first | rfl | cases hcan
      subst hk
      obtain rfl : userSize = size := Except.ok.inj hsize
      have hpos : 0 < num * userSize := Nat.mul_pos hnum (Nat.pos_of_ne_zero (hu rfl))
      omega
  · rintro ⟨hone, hlt, hd, hu⟩
    have hstride : ∀ i, i * (num * size) = i * size := by
      intro i
      rcases hone with rfl | rfl
      · rw [Nat.one_mul]
      · rw [Nat.mul_zero]
    obtain ⟨caps, hcaps⟩ := CapGenerator.exists_take cfg num
      (g := c.generator k userSize size num) hu (hlast.mono (by
        have h₁ := Nat.mod_le (c.firstAddress k) (2 ^ 64)
        have h₂ := Nat.mul_le_mul_left num (Nat.mod_le (num * size) (2 ^ 64))
        exact Nat.add_le_add h₁ h₂))
    refine ⟨⟨caps, hcaps, (toKernelV_toList hcaps).trans (List.map_congr_left fun i hi => ?_)⟩, ?_⟩
    · have hi : i < num := List.mem_range.1 hi
      have hle : i * size ≤ num * size := Nat.mul_le_mul_right _ hi.le
      rw [Nat.mod_eq_of_lt (show num * size < 2 ^ 64 by omega),
        Nat.mod_eq_of_lt (show c.firstAddress k < 2 ^ 64 by omega), hstride,
        mod_add_pfx (hpfx.trans (Nat.le_add_right _ _)) (by omega)]
    · rw [(retyped_fields _ _).2.2.2, hd, if_neg (by decide), toPhys_eq, lastAddress, hstride,
        mod_add_pfx (hpfx.trans (Nat.le_add_right _ _)) hlt]

theorem packed_page : ∃ c' gen, (fresh 0x80000000 14).retype .virt .page 0 1 = .ok (c', gen) ∧
    Packed .virt .page (fresh 0x80000000 14) 4096 1 c' gen := by
  obtain ⟨⟨c', gen⟩, h, -⟩ := exists_of_okAnd
    (show okAnd ((fresh 0x80000000 14).retype .virt .page 0 1) (fun _ => true) = true by
      decide +kernel)
  exact ⟨c', gen, h, (packed_iff rfl (by decide) h).2
    ⟨.inl rfl, by decide +kernel, by decide +kernel, nofun⟩⟩

/-- Two pages from a block of four: they take the whole block, with a page between them. -/
theorem not_packed_two_pages : ∃ c' gen,
    (fresh 0x80000000 14).retype .virt .page 0 2 = .ok (c', gen) ∧
    c'.getFreeIndex = kernelVAddrPfx + 0x80004000 ∧
    okAnd (gen.toList .virt)
      (fun caps => caps.map getAddress == [0x80000000, 0x80002000]) = true ∧
    ¬Packed .virt .page (fresh 0x80000000 14) 4096 2 c' gen := by
  obtain ⟨⟨c', gen⟩, h, htest⟩ := exists_of_okAnd
    (show okAnd ((fresh 0x80000000 14).retype .virt .page 0 2) (fun r =>
      r.1.getFreeIndex == kernelVAddrPfx + 0x80004000 && okAnd (r.2.toList .virt)
        (fun caps => caps.map getAddress == [0x80000000, 0x80002000])) = true by decide +kernel)
  rw [Bool.and_eq_true, beq_iff_eq] at htest
  refine ⟨c', gen, h, htest.1, htest.2, fun hpacked => ?_⟩
  have hfree := htest.1.symm.trans hpacked.free
  exact absurd hfree (by decide +kernel)

end CapabilityData

end Zoeax
