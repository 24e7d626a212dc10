import Zoeax.Verify.UserImage

/-!
# The address map of the kernel

`kernel_vm_init` fills two static tables. The root has entries of 512 GiB for the direct map, from
index 256 on, and its last entry leads to the second table, which has entries of 1 GiB for the
kernel image.

- `kernelVmWords_direct`, `kernelVmWords_pointer`, `kernelVmWords_image`, `kernelVmWords_lower`: the
  words of the tables;
- `kernelMap_of_init`: what the machine makes of them.
-/

namespace Zoeax

open Lib
open PageTable (entry)

variable {cfg : Config} {s : KState}

/-! ## The words of the tables -/

theorem Config.text_lt (cfg : Config) : cfg.text < 2 ^ 64 := cfg.text_le.trans_lt cfg.dataEnd_lt

theorem Config.text_masked (cfg : Config) :
    cfg.text &&& notU64 (2 ^ 30 - 1) = cfg.text - cfg.text % 2 ^ 30 := by
  rw [and_notU64_two_pow_sub_one cfg.text_lt (by decide)]
  omega

/-- The kernel image is below the last entry of the root. -/
theorem getVpn_image {v : Nat} (hle : kernelCodePfx ≤ v) (hlt : v < 2 ^ 64) : getVpn v 3 = 511 := by
  rw [kernelCodePfx] at hle
  rw [getVpn_eq]
  omega

theorem getVpn_toKernelV {p : Nat} (hp : p < directMapEnd) :
    getVpn (toKernelV p) 3 = 256 + p / 2 ^ 39 := by
  rw [directMapEnd] at hp
  rw [toKernelV_of_lt (by omega), getVpn_eq, kernelVAddrPfx]
  omega

/-- The entries of `LV2TABLE` are not those of `KERNEL_VM_ROOT`. -/
theorem Config.lv2_entry_ne (cfg : Config) {i j : Nat} (hi : i < 512) (hj : j < 512) :
    entry (imagePhys cfg.lv2Table) i ≠ entry (imagePhys cfg.kernelVmRoot) j := fun h =>
  cfg.statics_ne (entry_inj cfg.lv2Table_aligned cfg.kernelVmRoot_aligned hi hj h).1.symm

theorem Config.root_entry_ne (cfg : Config) {i j : Nat} (hi : i < 512) (hj : j < 512)
    (hij : i ≠ j) :
    entry (imagePhys cfg.kernelVmRoot) i ≠ entry (imagePhys cfg.kernelVmRoot) j := fun h =>
  hij (entry_inj cfg.kernelVmRoot_aligned cfg.kernelVmRoot_aligned hi hj h).2

/-- The loop over the image leaves the root alone. -/
theorem kernelVmWords_root (mem : Nat → UInt64) {i : Nat} (hi : i < 512) :
    kernelVmWords cfg mem (entry (imagePhys cfg.kernelVmRoot) i) =
      if i = 511 then Pte.write (imagePhys cfg.lv2Table) (vmFlag false)
      else (stepBy 0 cfg.freeRamEnd (2 ^ 39)).foldl (mapDirect cfg) mem
        (entry (imagePhys cfg.kernelVmRoot) i) := by
  rw [kernelVmWords, show mapImage cfg = fun mem v => Function.update mem
    (entry (imagePhys cfg.lv2Table) (getVpn v 2)) (Pte.write (imagePhys v) (vmFlag true)) from rfl,
    foldl_update_ne _ _ fun v _ => cfg.lv2_entry_ne (getVpn_lt v 2) hi,
    getVpn_image cfg.image_le cfg.text_lt]
  split
  · next h => rw [h, Function.update_self]
  · next h => rw [Function.update_of_ne (cfg.root_entry_ne hi (by decide) h)]

/-- The last entry of the root leads to the second table. -/
theorem kernelVmWords_pointer (mem : Nat → UInt64) :
    kernelVmWords cfg mem (entry (imagePhys cfg.kernelVmRoot) 511) =
      Pte.write (imagePhys cfg.lv2Table) (vmFlag false) := by
  rw [kernelVmWords_root mem (by decide), if_pos rfl]

theorem imagePhys_eq (v : Nat) : imagePhys v = v % 2 ^ 32 := Nat.and_two_pow_sub_one_eq_mod v 32

theorem imagePhys_lt (v : Nat) : imagePhys v < 2 ^ 47 := by
  rw [imagePhys_eq]
  omega

theorem target_pointer (mem : Nat → UInt64) :
    Pte.target (kernelVmWords cfg mem (entry (imagePhys cfg.kernelVmRoot) 511)) =
      imagePhys cfg.lv2Table := by
  rw [kernelVmWords_pointer]
  exact Pte.target_write (imagePhys_lt _) cfg.lv2Table_aligned (by decide)

/-- The entries of the direct map. -/
theorem kernelVmWords_direct (mem : Nat → UInt64) {k : Nat} (hk : 2 ^ 39 * k < cfg.freeRamEnd) :
    kernelVmWords cfg mem (entry (imagePhys cfg.kernelVmRoot) (256 + k)) =
      Pte.write (2 ^ 39 * k) (vmFlag true) := by
  have hend := cfg.freeRamEnd_le
  have hmap : directMapEnd = 255 * 2 ^ 39 := rfl
  have hindex : ∀ j, 2 ^ 39 * j < cfg.freeRamEnd → getVpn (toKernelV (2 ^ 39 * j)) 3 = 256 + j :=
    fun j hj => by
      rw [getVpn_toKernelV (by omega)]
      omega
  have hmem : 2 ^ 39 * k ∈ stepBy 0 cfg.freeRamEnd (2 ^ 39) :=
    (mem_stepBy_iff (by decide)).2 ⟨hk, k, (Nat.zero_add _).symm⟩
  rw [kernelVmWords_root mem (by omega), if_neg (by omega), ← hindex k hk]
  refine foldl_update_eq (fun p => entry (imagePhys cfg.kernelVmRoot) (getVpn (toKernelV p) 3))
    (fun p => Pte.write p (vmFlag true)) hmem (fun p hp heq => ?_) mem
  obtain ⟨hlt, j, rfl⟩ := (mem_stepBy_iff (by decide)).1 hp
  rw [Nat.zero_add] at hlt heq
  have hroot := cfg.kernelVmRoot_aligned
  have heq := (entry_inj hroot hroot (getVpn_lt ..) (getVpn_lt ..) heq).2
  rw [hindex j hlt, hindex k hk] at heq
  rw [show j = k by omega, Nat.zero_add]

/-- The lower half of the root is left alone. -/
theorem kernelVmWords_lower (mem : Nat → UInt64) {i : Nat} (hi : i < 256) :
    kernelVmWords cfg mem (entry (imagePhys cfg.kernelVmRoot) i) =
      mem (entry (imagePhys cfg.kernelVmRoot) i) := by
  have hend := cfg.freeRamEnd_le
  rw [kernelVmWords_root mem (by omega), if_neg (by omega)]
  refine foldl_update_ne (fun p => entry (imagePhys cfg.kernelVmRoot) (getVpn (toKernelV p) 3))
    (fun p => Pte.write p (vmFlag true)) (fun p hp => ?_) mem
  obtain ⟨hlt, -⟩ := (mem_stepBy_iff (by decide)).1 hp
  refine cfg.root_entry_ne (getVpn_lt ..) (by omega) ?_
  rw [getVpn_toKernelV (by omega)]
  omega

/-- The entries of the kernel image. -/
theorem kernelVmWords_image (mem : Nat → UInt64) {v : Nat} (hle : cfg.text ≤ v)
    (hlt : v < cfg.dataEnd) :
    kernelVmWords cfg mem (entry (imagePhys cfg.lv2Table) (getVpn v 2)) =
      Pte.write (imagePhys (v - v % 2 ^ 30)) (vmFlag true) := by
  have htext := cfg.image_le
  have hend := cfg.dataEnd_lt
  rw [kernelCodePfx] at htext
  have hmem : v - v % 2 ^ 30 ∈ stepBy (cfg.text - cfg.text % 2 ^ 30) cfg.dataEnd (2 ^ 30) := by
    refine (mem_stepBy_iff (by decide)).2 ⟨by omega, v / 2 ^ 30 - cfg.text / 2 ^ 30, ?_⟩
    omega
  have hindex : getVpn (v - v % 2 ^ 30) 2 = getVpn v 2 := by
    rw [getVpn_eq, getVpn_eq]
    omega
  rw [kernelVmWords, cfg.text_masked, ← hindex]
  refine foldl_update_eq (fun v => entry (imagePhys cfg.lv2Table) (getVpn v 2))
    (fun v => Pte.write (imagePhys v) (vmFlag true)) hmem (fun w hw heq => ?_) _
  obtain ⟨hw, j, rfl⟩ := (mem_stepBy_iff (by decide)).1 hw
  have hlv2 := cfg.lv2Table_aligned
  have heq := (entry_inj hlv2 hlv2 (getVpn_lt ..) (getVpn_lt ..) heq).2
  rw [getVpn_eq, getVpn_eq] at heq
  congr 2
  omega

/-- A valid word, other than the entry that leads to the second table, is the entry of a large page
of the direct map or of the kernel image. -/
theorem kernelVmWords_valid {a : Nat} (ha : a ≠ entry (imagePhys cfg.kernelVmRoot) 511)
    (hvalid : Pte.isValid (kernelVmWords cfg (fun _ => 0) a) = true) :
    ∃ f, kernelVmWords cfg (fun _ => 0) a = Pte.write f (vmFlag true) ∧ f < 2 ^ 47 ∧
      f % 4096 = 0 ∧ (f ∈ stepBy 0 cfg.freeRamEnd (2 ^ 39) ∨
        ∃ v ∈ stepBy (cfg.text &&& notU64 (2 ^ 30 - 1)) cfg.dataEnd (2 ^ 30), imagePhys v = f) := by
  rw [kernelVmWords, getVpn_image cfg.image_le cfg.text_lt] at hvalid ⊢
  rcases foldl_update_cases (fun v => entry (imagePhys cfg.lv2Table) (getVpn v 2))
    (fun v => Pte.write (imagePhys v) (vmFlag true))
    (stepBy (cfg.text &&& notU64 (2 ^ 30 - 1)) cfg.dataEnd (2 ^ 30))
    (Function.update ((stepBy 0 cfg.freeRamEnd (2 ^ 39)).foldl (mapDirect cfg) fun _ => 0)
      (entry (imagePhys cfg.kernelVmRoot) 511)
      (Pte.write (imagePhys cfg.lv2Table) (vmFlag false))) a with hold | ⟨v, hv, -, hnew⟩
  · rw [Function.update_of_ne ha] at hold
    rcases foldl_update_cases
      (fun p => entry (imagePhys cfg.kernelVmRoot) (getVpn (toKernelV p) 3))
      (fun p => Pte.write p (vmFlag true)) (stepBy 0 cfg.freeRamEnd (2 ^ 39)) (fun _ => 0) a with
      hzero | ⟨p, hp, -, hnew⟩
    · have hword := hold.trans hzero
      rw [show mapImage cfg = fun mem v => Function.update mem
        (entry (imagePhys cfg.lv2Table) (getVpn v 2)) (Pte.write (imagePhys v) (vmFlag true))
        from rfl,
        hword] at hvalid
      cases hvalid
    · obtain ⟨hlt, k, hk⟩ := (mem_stepBy_iff (by decide)).1 hp
      have hend := cfg.freeRamEnd_le
      rw [directMapEnd] at hend
      exact ⟨p, hold.trans hnew, by omega, by omega, .inl hp⟩
  · obtain ⟨-, k, hk⟩ := (mem_stepBy_iff (by decide)).1 hv
    rw [cfg.text_masked] at hk
    refine ⟨imagePhys v, hnew, imagePhys_lt v, ?_, .inr ⟨v, hv, rfl⟩⟩
    rw [imagePhys_eq]
    omega

/-! ## What the machine makes of them -/

/-- A leaf of the kernel: supervisor only. -/
structure Pte.KernelLeaf (pte : UInt64) : Prop where
  usable : Sv48.usable pte = true
  leaf : Sv48.leaf pte = true
  not_user : Sv48.user pte = false

theorem Pte.kernelLeaf_write {a : Nat} (ha : a < 2 ^ 47) :
    Pte.KernelLeaf (Pte.write a (vmFlag true)) := by
  have hflag : vmFlag true < 2 ^ 10 := by decide
  have hbit : ∀ i < 10, _ = (vmFlag true).testBit i := fun i hi =>
    Pte.testBit_write_flags ha hflag hi
  refine ⟨?_, ?_, ?_⟩
  · rw [Sv48.usable, Sv48.valid, Sv48.readable, Sv48.writable, hbit 0 (by decide),
      hbit 1 (by decide), hbit 2 (by decide)]
    decide
  · rw [Sv48.leaf, Sv48.readable, Sv48.executable, hbit 1 (by decide), hbit 3 (by decide)]
    decide
  · rw [Sv48.user, hbit 4 (by decide)]
    decide

/-- A large page that is aligned ends the walk. -/
theorem walk_of_kernelLeaf {mem : Nat → UInt64} {level table v a : Nat}
    (hword : mem (entry table (getVpn v (level + 1))) = Pte.write a (vmFlag true))
    (ha : a < 2 ^ 47) (hal : 2 ^ (12 + 9 * (level + 1)) ∣ a) :
    Sv48.walk mem (level + 1) table v = some (level + 1, Pte.write a (vmFlag true)) := by
  obtain ⟨husable, hleaf, -⟩ := Pte.kernelLeaf_write ha
  have haligned : Sv48.aligned (level + 1) (Pte.write a (vmFlag true)) = true := by
    refine decide_eq_true ?_
    have hpage : a % 4096 = 0 := by
      refine Nat.mod_eq_zero_of_dvd (Dvd.dvd.trans ?_ hal)
      exact pow_dvd_pow 2 (show 12 ≤ 12 + 9 * (level + 1) by omega)
    have hppn := Pte.ppn_write ha hpage (show vmFlag true < 2 ^ 10 by decide)
    refine Nat.mod_eq_zero_of_dvd ?_
    rw [← hppn, pow_add, Nat.mul_comm (2 ^ 12)] at hal
    exact Nat.dvd_of_mul_dvd_mul_right (by decide) hal
  simp only [Sv48.walk, entry_sv48, hword, husable, hleaf, haligned, Bool.not_true,
    Bool.false_eq_true, if_false, if_true]

/-- The memory of the state maps the direct map and the kernel image, for the supervisor only, and
nothing in the lower half. -/
structure KernelMap (cfg : Config) (s : KState) : Prop where
  direct : ∀ p < cfg.freeRamEnd, ∃ pte,
    Sv48.translate? s.mem s.satp (toKernelV p) = some (p, pte) ∧ Sv48.user pte = false
  image : ∀ v, cfg.text ≤ v → v < cfg.dataEnd → ∃ pte,
    Sv48.translate? s.mem s.satp v = some (imagePhys v, pte) ∧ Sv48.user pte = false
  lower : ∀ v, getVpn v 3 < 256 → Sv48.translate? s.mem s.satp v = none

theorem translate?_of_walk {mem : Nat → UInt64} {root v level : Nat} {pte : UInt64}
    (hv : Sv48.canonical v = true) (h : Sv48.walk mem 3 root v = some (level, pte)) :
    Sv48.translate? mem root v =
      some (Sv48.ppn pte * 2 ^ 12 + v % 2 ^ (12 + 9 * level), pte) := by
  rw [Sv48.translate?, if_pos hv, h]
  rfl

theorem canonical_of_le {v : Nat} (h : kernelVAddrPfx ≤ v) : Sv48.canonical v = true := by
  rw [kernelVAddrPfx] at h
  rw [Sv48.canonical, decide_eq_true (show 2 ^ 64 - 2 ^ 47 ≤ v by omega), Bool.or_true]

/-- Memory is at its place in the direct map. -/
theorem translate?_direct (mem : Nat → UInt64) {p : Nat} (hp : p < cfg.freeRamEnd) :
    Sv48.translate? (kernelVmWords cfg mem) (imagePhys cfg.kernelVmRoot) (toKernelV p) =
      some (p, Pte.write (2 ^ 39 * (p / 2 ^ 39)) (vmFlag true)) := by
  have hend := cfg.freeRamEnd_le
  have hmap : directMapEnd = 255 * 2 ^ 39 := rfl
  have ha : 2 ^ 39 * (p / 2 ^ 39) < 2 ^ 47 := by omega
  have hk : 2 ^ 39 * (p / 2 ^ 39) < cfg.freeRamEnd := by omega
  have hword := kernelVmWords_direct mem hk
  rw [← getVpn_toKernelV (by omega)] at hword
  have hv := toKernelV_of_lt (show p < 2 ^ 47 by omega)
  have hoffset : 2 ^ 39 * (p / 2 ^ 39) + toKernelV p % 2 ^ (12 + 9 * (2 + 1)) = p := by
    rw [hv, kernelVAddrPfx]
    omega
  rw [translate?_of_walk (canonical_of_le (by omega))
    (walk_of_kernelLeaf hword ha (Nat.dvd_mul_right ..)),
    Pte.ppn_write ha (by omega) (by decide), hoffset]

/-- The kernel image is at its place. -/
theorem translate?_image (mem : Nat → UInt64) {v : Nat} (hle : cfg.text ≤ v)
    (hlt : v < cfg.dataEnd) :
    Sv48.translate? (kernelVmWords cfg mem) (imagePhys cfg.kernelVmRoot) v =
      some (imagePhys v, Pte.write (imagePhys (v - v % 2 ^ 30)) (vmFlag true)) := by
  have htext := cfg.image_le
  have hend := cfg.dataEnd_lt
  have hpfx : kernelVAddrPfx ≤ kernelCodePfx := by decide
  have hlv2 := imagePhys_lt cfg.lv2Table
  have ha := imagePhys_lt (v - v % 2 ^ 30)
  have hal : 2 ^ 30 ∣ imagePhys (v - v % 2 ^ 30) := by
    rw [imagePhys_eq]
    omega
  -- the root leads to the second table, which has the leaf
  obtain ⟨husable, hleaf, -⟩ := Pte.pointer_write hlv2 cfg.lv2Table_aligned
  have htop : kernelVmWords cfg mem (entry (imagePhys cfg.kernelVmRoot) (getVpn v 3)) =
      Pte.write (imagePhys cfg.lv2Table) pageV := by
    rw [getVpn_image (by omega) (by omega)]
    exact kernelVmWords_pointer mem
  have hwalk : Sv48.walk (kernelVmWords cfg mem) 3 (imagePhys cfg.kernelVmRoot) v =
      Sv48.walk (kernelVmWords cfg mem) 2 (imagePhys cfg.lv2Table) v := by
    rw [Sv48.walk]
    simp only [entry_sv48, htop, husable, hleaf, Bool.not_true, Bool.false_eq_true, if_false]
    rw [Pte.ppn_write hlv2 cfg.lv2Table_aligned (by decide)]
  have hpage := walk_of_kernelLeaf (kernelVmWords_image mem hle hlt) ha hal
  have hoffset : imagePhys (v - v % 2 ^ 30) + v % 2 ^ (12 + 9 * (1 + 1)) = imagePhys v := by
    rw [imagePhys_eq, imagePhys_eq]
    omega
  rw [translate?_of_walk (canonical_of_le (by omega)) (hwalk.trans hpage),
    Pte.ppn_write ha (by omega) (by decide), hoffset]

theorem translate?_lower {mem : Nat → UInt64} {v : Nat} (hv : getVpn v 3 < 256)
    (hzero : ∀ i < 256, mem (entry (imagePhys cfg.kernelVmRoot) i) = 0) :
    Sv48.translate? (kernelVmWords cfg mem) (imagePhys cfg.kernelVmRoot) v = none := by
  have hword : kernelVmWords cfg mem (Sv48.entry (imagePhys cfg.kernelVmRoot) v 3) = 0 := by
    rw [entry_sv48, kernelVmWords_lower mem hv, hzero _ hv]
  have hwalk : Sv48.walk (kernelVmWords cfg mem) 3 (imagePhys cfg.kernelVmRoot) v = none := by
    rw [Sv48.walk, hword]
    rfl
  rw [Sv48.translate?, hwalk, Option.map_none, ite_self]

/-- **`kernel_vm_init`** maps the memory and the kernel image where the kernel takes them to be. The
static tables are zero at the start. -/
theorem kernelMap_of_init
    (hzero : ∀ i < 256, s.mem (entry (imagePhys cfg.kernelVmRoot) i) = 0) :
    ∃ s', kernelVmInit cfg s = .ok () s' ∧ s'.satp = imagePhys cfg.kernelVmRoot ∧
      KernelMap cfg s' := by
  refine ⟨_, rfl, rfl, ⟨fun p hp => ⟨_, translate?_direct _ hp, ?_⟩, fun v hle hlt =>
    ⟨_, translate?_image _ hle hlt, ?_⟩, fun v hv => translate?_lower hv hzero⟩⟩
  · have hend := cfg.freeRamEnd_le
    have hmap : directMapEnd = 255 * 2 ^ 39 := rfl
    exact (Pte.kernelLeaf_write (by omega)).not_user
  · exact (Pte.kernelLeaf_write (imagePhys_lt _)).not_user

theorem kernelMap_virt : ∃ s', kernelVmInit .virt (.initial .virt) = .ok () s' ∧
    s'.satp = 0x80280000 ∧ KernelMap .virt s' :=
  kernelMap_of_init (s := .initial .virt) fun _ _ => rfl

end Zoeax
