import Zoeax.Verify.Loaders

/-!
# Where the bytes of a program end up

The kernel's loader does not look at where in its first page a segment starts. It takes as many
pages as the size of the segment needs, the first of them the page in which the segment starts, and
copies the bytes of the file to the beginning of that page. So the byte at an address is not the one
that belongs there, but one that comes later in the segment by the offset of its start in the page;
and the last page is missing if the segment ends in one more page than its size needs.

`places_iff` says when every byte of a program is where the program header says: for segments that
start with a page, unless the size wraps around, and for others only by chance.
-/

namespace Zoeax

open Lib

variable {cfg : Config} {s : KState} {root : Nat}

/-- The segment has a byte in page `k`. -/
def Phdr.HasByteIn (h : Phdr) (k : Nat) : Prop :=
  h.load = true ∧ ∃ i < h.memsz, (h.vaddr + i) / 2 ^ 12 = k

/-- The segments start in the user half, with a page or not, and do not share pages. -/
structure Separate (hs : List Phdr) : Prop where
  user : ∀ h ∈ hs, h.load = true → h.vaddr < 2 ^ 47
  disjoint : hs.Pairwise fun h g => ∀ k, h.HasByteIn k → ¬g.HasByteIn k

/-- The flags and the byte that a program sees at an address. There is nothing for a program behind
the user half. -/
def KState.userByte (s : KState) (root v : Nat) : Option (Nat × UInt8) :=
  if v < 2 ^ 47 then (s.pageImage root v).map fun img => (img.flags, img.byte (v % pageSize))
  else none

/-- Every byte of every segment is at its address, with the flags of the segment. -/
def KState.Places (s : KState) (root : Nat) (hs : List Phdr) : Prop :=
  ∀ h ∈ hs, h.load = true → ∀ i < h.memsz,
    s.userByte root (h.vaddr + i) = some (h.flags ||| pageV, h.content i)

/-- The bytes of the segment stay the same when they are moved to the beginning of its first page,
and all of them are in pages that are loaded. -/
def Phdr.Unmoved (h : Phdr) : Prop :=
  ∀ i < h.memsz, h.vaddr % pageSize + i < pageSize * h.pageNum ∧
    h.content (h.vaddr % pageSize + i) = h.content i

/-! ## Bytes of a segment -/

namespace Phdr

variable {h : Phdr}

/-- No page is loaded that has no byte of the segment. -/
theorem Fills.hasByteIn {k : Nat} (hk : h.Fills k) (hlt : h.memsz < 2 ^ 64) : h.HasByteIn k := by
  obtain ⟨hload, hle, hpages⟩ := hk
  rw [pageNum] at hpages
  refine ⟨hload, 2 ^ 12 * k - h.vaddr, ?_, ?_⟩
  · omega
  · omega

/-- A segment that starts with a page is where it belongs, unless its size wraps around. -/
theorem unmoved_of_aligned (halign : h.vaddr % 4096 = 0) (hsize : h.memsz ≤ 2 ^ 64 - 4096) :
    h.Unmoved := by
  intro i hi
  rw [pageSize, halign, Nat.zero_add, pageNum]
  exact ⟨by omega, rfl⟩

end Phdr

namespace Separate

variable {hs : List Phdr} (hl : Separate hs) (hlt : ∀ h ∈ hs, h.memsz < 2 ^ 64)
  (hend : ∀ h ∈ hs, h.load = true → h.vaddr / 2 ^ 12 + h.pageNum ≤ 2 ^ 35)
  (hloaded : ∀ v < 2 ^ 47, s.pageImage root v = loadAll hs (fun _ => none) (v / 2 ^ 12))

include hl hlt

/-- The page of a byte is loaded by its segment or not at all. -/
theorem eq_of_fills {h g : Phdr} (hh : h ∈ hs) (hg : g ∈ hs) {k : Nat} (hk : h.HasByteIn k)
    (hfills : g.Fills k) : g = h :=
  eq_of_apart hl.disjoint hg hh (hfills.hasByteIn (hlt g hg)) hk

include hend hloaded

/-- **What a program sees at the address of byte `i`**: the byte that comes later by the offset of
the segment in its first page, or nothing. -/
theorem userByte_eq {h : Phdr} (hmem : h ∈ hs) (hload : h.load = true) {i : Nat}
    (hi : i < h.memsz) :
    s.userByte root (h.vaddr + i) =
      if h.vaddr % pageSize + i < pageSize * h.pageNum then
        some (h.flags ||| pageV, h.content (h.vaddr % pageSize + i)) else none := by
  have hbyte : h.HasByteIn ((h.vaddr + i) / 2 ^ 12) := ⟨hload, i, hi, rfl⟩
  have hpages := hend h hmem hload
  by_cases hin : h.vaddr % pageSize + i < pageSize * h.pageNum
  · rw [if_pos hin]
    rw [pageSize] at hin
    have hfills : h.Fills ((h.vaddr + i) / 2 ^ 12) := ⟨hload, by omega, by omega⟩
    have hv : h.vaddr + i < 2 ^ 47 := by omega
    rw [KState.userByte, if_pos hv, hloaded _ hv,
      loadAll_of_fills hmem hfills fun g hg => hl.eq_of_fills hlt hmem hg hbyte, Option.map_some,
      Phdr.byte_page]
    rfl
  · rw [if_neg hin, KState.userByte]
    rw [pageSize] at hin
    split
    · next hv =>
      rw [hloaded _ hv, loadAll_of_not_fills fun g hg hfills => ?_, Option.map_none]
      obtain rfl := hl.eq_of_fills hlt hmem hg hbyte hfills
      have := hfills.2.2
      omega
    · rfl

theorem places_iff : s.Places root hs ↔ ∀ h ∈ hs, h.load = true → h.Unmoved := by
  refine forall₃_congr fun h hmem hload => forall₂_congr fun i hi => ?_
  rw [hl.userByte_eq hlt hend hloaded hmem hload hi]
  simp

end Separate

/-! ## The root server -/

theorem separate_of_one {h : Phdr} (huser : h.vaddr < 2 ^ 47) : Separate [h] where
  user _ hg _ := List.mem_singleton.1 hg ▸ huser
  disjoint := List.pairwise_singleton ..

section Kernel

variable {file : Elf64Hdr} (hl : Separate file.phdrs)
  (hboard : 0 < cfg.freeRam ∧ cfg.isStaticTable 0 = false ∨
    ∀ h ∈ file.phdrs, h.load = true → h.vaddr + h.memsz ≤ 2 ^ 47)
  (hkernel : KernelLoads cfg file s root)

include hl hboard hkernel

/-- The pages of the root server are those that `loadAll` gives. -/
theorem Separate.loaded :
    (∀ h ∈ file.phdrs, h.load = true → h.vaddr / 2 ^ 12 + h.pageNum ≤ 2 ^ 35) ∧
      Loaded cfg s root (loadAll file.phdrs fun _ => none) := by
  refine hkernel.loaded (hboard.imp_right fun hall h hmem hload => ?_) hl.user
  have hend := hall h hmem hload
  have hlt : h.memsz < 2 ^ 64 := Elf64Hdr.memsz_lt hmem
  rw [Phdr.pageNum]
  omega

/-- **The kernel's loader places every byte of the root server at its address** if and only if every
segment stays the same when its bytes are moved to the beginning of its first page, and has all of
them in the pages that its size needs. -/
theorem kernel_places_iff :
    s.Places root file.phdrs ↔ ∀ h ∈ file.phdrs, h.load = true → h.Unmoved := by
  obtain ⟨hend, hload⟩ := hl.loaded hboard hkernel
  exact hl.places_iff (fun _ hmem => Elf64Hdr.memsz_lt hmem) hend hload.image

end Kernel

/-- For `tinyFile`, which starts with a page, every byte is at its address. -/
theorem kernel_places_tinyFile : ∃ s root, KernelLoads .virt tinyFile s root ∧
    s.Places root tinyFile.phdrs := by
  obtain ⟨_, hboot, -⟩ :=
    exists_boot .virt ⟨0x10000, tinyFile.phdrs⟩ (fun _ => true) (by decide +kernel)
  obtain ⟨s, root, hkernel⟩ := exists_kernelLoads hboot
  have hl : Separate tinyFile.phdrs := separate_of_one (h := tinyFile.phdr 0) (by decide)
  refine ⟨s, root, hkernel, (kernel_places_iff hl (.inl (by decide)) hkernel).2 ?_⟩
  intro h hmem _
  obtain rfl : h = tinyFile.phdr 0 := List.mem_singleton.1 hmem
  exact Phdr.unmoved_of_aligned (by decide) (by decide)

/-- The bytes 1, 2 and 3 at `0x10010`, with all permissions. -/
def skewedFile : Elf64Hdr :=
  oneSegment [(68, 7), (72, 120), (80, 16), (82, 1), (96, 3), (104, 3), (120, 1), (121, 2),
    (122, 3)]

/-- The three bytes of `skewedFile` are mapped, but read as zero. -/
theorem not_places_skewedFile : ∃ s root, KernelLoads .virt skewedFile s root ∧
    Separate skewedFile.phdrs ∧ (skewedFile.phdr 0).content 0 = 1 ∧
    s.userByte root 0x10010 = some ((skewedFile.phdr 0).flags ||| pageV, 0) ∧
    ¬s.Places root skewedFile.phdrs := by
  obtain ⟨_, hboot, -⟩ :=
    exists_boot .virt ⟨0x10000, skewedFile.phdrs⟩ (fun _ => true) (by decide +kernel)
  obtain ⟨s, root, hkernel⟩ := exists_kernelLoads hboot
  have hl : Separate skewedFile.phdrs := separate_of_one (h := skewedFile.phdr 0) (by decide)
  obtain ⟨hend, hload⟩ := hl.loaded (.inl (by decide)) hkernel
  have hmem : skewedFile.phdr 0 ∈ skewedFile.phdrs := by
    exact List.mem_singleton_self _
  have hbyte := hl.userByte_eq (fun _ hmem => Elf64Hdr.memsz_lt hmem) hend hload.image hmem
    (by decide) (i := 0) (by decide)
  rw [if_pos (by decide)] at hbyte
  refine ⟨s, root, hkernel, hl, by decide, hbyte, fun hplaces => ?_⟩
  have hright := hplaces _ hmem (by decide) 0 (by decide)
  rw [hbyte] at hright
  revert hright
  decide

end Zoeax
