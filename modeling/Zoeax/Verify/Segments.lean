import Zoeax.Kernel.Elf
import Zoeax.Verify.Retype
import Zoeax.Verify.UserImage

/-!
# What a loader is for

A loader goes through the segments of a program, and through the pages of a segment. `loadAll` is
what it leaves at each page number: the flags of the segment, the bytes of the file as far as they
go, and zero behind them (`loadAll_of_fills`, `Phdr.byte_page`). `KState.Shows` is what a user
expects to see, segment by segment and byte by byte. For segments that start with a page and do not
share pages the two agree, unless the size of a segment wraps around when it is rounded up
(`Loadable.shows_iff`).
-/

namespace Zoeax

open Lib

variable {cfg : Config} {s : KState} {root : Nat}

/-- The pages of an address space, by number. -/
abbrev Pages := Nat → Option PageImage

namespace Phdr

/-- The number of pages that the loop over a segment runs through. -/
def pageNum (h : Phdr) : Nat := (h.memsz + 4095) % 2 ^ 64 / 4096

/-- Page `i` of a segment. -/
def page (h : Phdr) (i : Nat) : PageImage where
  flags := h.flags ||| pageV
  byte k := if k < min pageSize (h.filesz - pageSize * i) then h.data (pageSize * i + k) else 0

/-- The `n` pages of a segment from number `i` on are loaded. -/
def loadPages (h : Phdr) : Nat → Nat → Pages → Pages
  | 0, _, done => done
  | n + 1, i, done =>
    h.loadPages n (i + 1)
      (Function.update done ((h.vaddr + pageSize * i) / 2 ^ 12) (some (h.page i)))

/-- A segment is loaded. -/
def loadInto (h : Phdr) (done : Pages) : Pages :=
  if h.load then h.loadPages h.pageNum 0 done else done

/-- Byte `i` of a segment: that of the file, and zero behind them. -/
def content (h : Phdr) (i : Nat) : UInt8 := if i < h.filesz then h.data i else 0

/-- The loop over a segment runs through page `k`. -/
def Fills (h : Phdr) (k : Nat) : Prop :=
  h.load = true ∧ h.vaddr / 2 ^ 12 ≤ k ∧ k < h.vaddr / 2 ^ 12 + h.pageNum

/-- The segment has a byte in page `k`. -/
def Touches (h : Phdr) (k : Nat) : Prop :=
  h.load = true ∧ h.vaddr / 2 ^ 12 ≤ k ∧ 2 ^ 12 * k < h.vaddr + h.memsz

end Phdr

/-- The segments are loaded, one after the other. -/
def loadAll (hs : List Phdr) (done : Pages) : Pages := hs.foldl (fun done h => h.loadInto done) done

/-- The segments start at pages of the user half, are not larger in the file than in memory, and do
not share pages. -/
structure Loadable (hs : List Phdr) : Prop where
  aligned : ∀ h ∈ hs, h.load = true → h.vaddr % 4096 = 0
  user : ∀ h ∈ hs, h.load = true → h.vaddr < 2 ^ 47
  filesz_le : ∀ h ∈ hs, h.load = true → h.filesz ≤ h.memsz
  disjoint : hs.Pairwise fun h h' => ∀ k, h.Touches k → ¬h'.Touches k

/-- The user half shows the segments: the pages that they touch, with their flags, and their bytes,
those of the file first and zero behind them. -/
structure KState.Shows (s : KState) (root : Nat) (hs : List Phdr) : Prop where
  mapped : ∀ v < 2 ^ 47, (s.pageImage root v).isSome = true ↔ ∃ h ∈ hs, h.Touches (v / 2 ^ 12)
  bytes : ∀ h ∈ hs, h.load = true → ∀ i < h.memsz, ∃ img,
    s.pageImage root (h.vaddr + i) = some img ∧ img.flags = h.flags ||| pageV ∧
      img.byte ((h.vaddr + i) % pageSize) = if i < h.filesz then h.data i else 0

/-! ## One segment -/

namespace Phdr

variable {h : Phdr}

/-- The number of pages, in both builds. -/
theorem pageNum_of_alignUp {p : Profile} {bytes : Nat} (hlt : h.memsz < 2 ^ 64)
    (halign : alignUp p h.memsz pageSize = some bytes) : bytes / pageSize = h.pageNum := by
  obtain ⟨-, rfl⟩ := (alignUp_eq_some (j := 12) hlt (by decide)).1 halign
  rw [pageNum, roundUp, pageSize]
  omega

/-- Loading pages changes these pages. -/
theorem loadPages_eq (h : Phdr) (n i : Nat) (done : Pages) (k : Nat) :
    h.loadPages n i done k = if h.vaddr / 2 ^ 12 + i ≤ k ∧ k < h.vaddr / 2 ^ 12 + i + n then
      some (h.page (k - h.vaddr / 2 ^ 12)) else done k := by
  induction n generalizing i done with
  | zero => exact (if_neg (by omega)).symm
  | succ n ih =>
    have hpage : (h.vaddr + pageSize * i) / 2 ^ 12 = h.vaddr / 2 ^ 12 + i := by
      rw [pageSize]
      omega
    rw [loadPages, ih, hpage]
    by_cases hk : k = h.vaddr / 2 ^ 12 + i
    · rw [if_neg (by omega), if_pos (by omega), hk, Function.update_self, Nat.add_sub_cancel_left]
    · rw [Function.update_of_ne hk]
      by_cases hin : h.vaddr / 2 ^ 12 + i ≤ k ∧ k < h.vaddr / 2 ^ 12 + i + (n + 1)
      · rw [if_pos hin, if_pos (by omega)]
      · rw [if_neg hin, if_neg (by omega)]

theorem loadInto_of_fills {k : Nat} (hk : h.Fills k) (done : Pages) :
    h.loadInto done k = some (h.page (k - h.vaddr / 2 ^ 12)) := by
  rw [loadInto, if_pos hk.1, loadPages_eq, Nat.add_zero, if_pos hk.2]

theorem loadInto_of_not_fills {k : Nat} (hk : ¬h.Fills k) (done : Pages) :
    h.loadInto done k = done k := by
  cases hload : h.load with
  | false => rw [loadInto, hload, if_neg (by decide)]
  | true =>
    rw [loadInto, hload, if_pos rfl, loadPages_eq, Nat.add_zero, if_neg fun hin => hk ⟨hload, hin⟩]

/-- The pages that are loaded are those that the segment touches, unless its size wraps around. -/
theorem fills_iff (halign : h.load = true → h.vaddr % 4096 = 0) (hlt : h.memsz < 2 ^ 64) (k : Nat) :
    h.Fills k ↔ h.Touches k ∧ h.memsz ≤ 2 ^ 64 - 4096 := by
  rw [Fills, Touches, and_assoc]
  refine and_congr_right fun hload => ?_
  have := halign hload
  rw [pageNum]
  omega

/-- The bytes of a segment start with its first page, wherever the segment starts. -/
theorem byte_page (h : Phdr) (i : Nat) :
    (h.page ((h.vaddr + i) / 2 ^ 12 - h.vaddr / 2 ^ 12)).byte ((h.vaddr + i) % pageSize) =
      h.content (h.vaddr % pageSize + i) := by
  have hindex : pageSize * ((h.vaddr + i) / 2 ^ 12 - h.vaddr / 2 ^ 12) + (h.vaddr + i) % pageSize =
      h.vaddr % pageSize + i := by
    rw [pageSize]
    omega
  have hlt : (h.vaddr + i) % pageSize < pageSize := Nat.mod_lt _ (by decide)
  rw [page, content]
  dsimp only
  rw [hindex]
  by_cases hi : h.vaddr % pageSize + i < h.filesz
  · rw [if_pos hi, if_pos]
    omega
  · rw [if_neg hi, if_neg]
    omega

/-- For a segment that starts with a page, a byte of a page is the byte that belongs there. -/
theorem byte_page_of_aligned (halign : h.vaddr % 4096 = 0) (i : Nat) :
    (h.page ((h.vaddr + i) / 2 ^ 12 - h.vaddr / 2 ^ 12)).byte ((h.vaddr + i) % pageSize) =
      h.content i := by
  rw [byte_page, pageSize, halign, Nat.zero_add]

end Phdr

/-! ## All segments -/

/-- A page that no segment is loaded to stays as it is. -/
theorem loadAll_of_not_fills {hs : List Phdr} {k : Nat} (hout : ∀ h ∈ hs, ¬h.Fills k)
    (done : Pages) : loadAll hs done k = done k := by
  induction hs generalizing done with
  | nil => rfl
  | cons h hs ih =>
    have htail := ih (fun g hg => hout g (List.mem_cons_of_mem _ hg)) (h.loadInto done)
    exact htail.trans (Phdr.loadInto_of_not_fills (hout h (List.mem_cons_self ..)) done)

/-- A page that one segment is loaded to is a page of that segment. -/
theorem loadAll_of_fills {hs : List Phdr} {h : Phdr} (hmem : h ∈ hs) {k : Nat} (hk : h.Fills k)
    (hone : ∀ g ∈ hs, g.Fills k → g = h) (done : Pages) :
    loadAll hs done k = some (h.page (k - h.vaddr / 2 ^ 12)) := by
  induction hs generalizing done with
  | nil => cases hmem
  | cons g hs ih =>
    have hone' : ∀ g ∈ hs, g.Fills k → g = h := fun g hg => hone g (List.mem_cons_of_mem _ hg)
    by_cases hmem' : h ∈ hs
    · exact ih hmem' hone' _
    · obtain rfl := (List.mem_cons.1 hmem).resolve_right hmem'
      have hlater : loadAll hs (h.loadInto done) k = h.loadInto done k :=
        loadAll_of_not_fills (fun g hg hgk => hmem' (hone' g hg hgk ▸ hg)) _
      exact hlater.trans (Phdr.loadInto_of_fills hk done)

/-- A page belongs to one segment. -/
theorem eq_of_apart {hs : List Phdr} {T : Phdr → Nat → Prop}
    (hapart : hs.Pairwise fun h g => ∀ k, T h k → ¬T g k) {h g : Phdr} (hh : h ∈ hs) (hg : g ∈ hs)
    {k : Nat} (hk : T h k) (hk' : T g k) : h = g := by
  have hsymm : Std.Symm fun h g : Phdr => ∀ k, T h k → ¬T g k :=
    ⟨fun _ _ hdisj k hg hh => hdisj k hh hg⟩
  by_contra hne
  exact hapart.forall hh hg hne k hk hk'

namespace Loadable

variable {hs : List Phdr} (hl : Loadable hs) (hlt : ∀ h ∈ hs, h.memsz < 2 ^ 64)

include hl hlt

theorem fills_iff {h : Phdr} (hmem : h ∈ hs) (k : Nat) :
    h.Fills k ↔ h.Touches k ∧ h.memsz ≤ 2 ^ 64 - 4096 :=
  Phdr.fills_iff (hl.aligned h hmem) (hlt h hmem) k

/-- A page with bytes of a segment is a page of that segment. -/
theorem loadAll_of_touches {h : Phdr} (hmem : h ∈ hs) (hsize : h.memsz ≤ 2 ^ 64 - 4096) {k : Nat}
    (hk : h.Touches k) (done : Pages) :
    loadAll hs done k = some (h.page (k - h.vaddr / 2 ^ 12)) := by
  refine loadAll_of_fills hmem ((hl.fills_iff hlt hmem k).2 ⟨hk, hsize⟩) (fun g hg hgk => ?_) done
  exact eq_of_apart hl.disjoint hg hmem ((hl.fills_iff hlt hg k).1 hgk).1 hk

/-- **The loaded pages show the segments**, if and only if no size wraps around. -/
theorem shows_iff
    (huser : ∀ h ∈ hs, h.load = true → h.memsz ≤ 2 ^ 64 - 4096 → h.vaddr + h.memsz ≤ 2 ^ 47)
    (hloaded : ∀ v < 2 ^ 47, s.pageImage root v = loadAll hs (fun _ => none) (v / 2 ^ 12)) :
    s.Shows root hs ↔ ∀ h ∈ hs, h.load = true → h.memsz ≤ 2 ^ 64 - 4096 := by
  constructor
  · intro hshows h hmem hload
    by_contra hsize
    -- the first page of the segment is not there
    have hk : h.Touches (h.vaddr / 2 ^ 12) := ⟨hload, le_rfl, by omega⟩
    have hnone : loadAll hs (fun _ => none) (h.vaddr / 2 ^ 12) = none := by
      refine loadAll_of_not_fills (fun g hg hgk => ?_) _
      obtain ⟨htouch, hfits⟩ := (hl.fills_iff hlt hg _).1 hgk
      exact hsize (eq_of_apart hl.disjoint hg hmem htouch hk ▸ hfits)
    obtain ⟨img, himg, -⟩ := hshows.bytes h hmem hload 0 (by omega)
    rw [Nat.add_zero, hloaded _ (hl.user h hmem hload), hnone] at himg
    cases himg
  · intro hsize
    refine ⟨fun v hv => ?_, fun h hmem hload i hi => ?_⟩
    · rw [hloaded v hv]
      constructor
      · intro hsome
        by_contra hout
        rw [loadAll_of_not_fills fun h hh hk => ?_] at hsome
        · cases hsome
        · exact hout ⟨h, hh, ((hl.fills_iff hlt hh _).1 hk).1⟩
      · rintro ⟨h, hh, ht⟩
        rw [hl.loadAll_of_touches hlt hh (hsize h hh ht.1) ht]
        rfl
    · have hsz := hsize h hmem hload
      have hend := huser h hmem hload hsz
      have ht : h.Touches ((h.vaddr + i) / 2 ^ 12) := ⟨hload, by omega, by omega⟩
      refine ⟨_, (hloaded _ (by omega)).trans (hl.loadAll_of_touches hlt hmem hsz ht _), rfl, ?_⟩
      exact Phdr.byte_page_of_aligned (hl.aligned h hmem hload) i

end Loadable

end Zoeax
