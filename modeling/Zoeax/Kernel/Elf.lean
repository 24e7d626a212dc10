import Zoeax.Kernel.Init

/-!
# Program files (`shared/src/elf.rs`, `elf/def.rs`)

A file is known by the address of its header; everything else is found by offsets from there. Both
loaders iterate over the program headers with `PHeaders`, which takes the entries of the table to be
as large as `Elf64Phdr`, whatever `e_phentsize` says.
-/

namespace Zoeax

/-- The bytes of a file, the `Elf64Hdr` first. -/
structure Elf64Hdr where
  bytes : Nat → UInt8

namespace Elf64Hdr

/-- The field of `n` bytes at an offset. -/
def field (file : Elf64Hdr) (offset n : Nat) : Nat :=
  (List.range n).foldr (fun k acc => 256 * acc + (file.bytes (offset + k)).toNat) 0

def ePhoff (file : Elf64Hdr) : Nat := file.field 32 8

def ePhnum (file : Elf64Hdr) : Nat := file.field 56 2

/-- `size_of::<Elf64Phdr>()`. -/
def phdrSize : Nat := 56

/-- `ProgramType::Load`. -/
def programTypeLoad : Nat := 1

/-- `PHeaders::next` at `index`: the program header and, from `p_start_addr` on, its bytes. -/
def phdr (file : Elf64Hdr) (index : Nat) : Phdr :=
  let a := file.ePhoff + phdrSize * index
  let pFlags := file.field (a + 4) 4
  let pOffset := file.field (a + 8) 8
  { load := file.field a 4 = programTypeLoad
    vaddr := file.field (a + 16) 8
    filesz := file.field (a + 32) 8
    memsz := file.field (a + 40) 8
    executable := pFlags &&& 1 = 1
    writable := pFlags &&& 2 = 2
    readable := pFlags &&& 4 = 4
    data := fun i => file.bytes (pOffset + i) }

/-- What `PHeaders` iterates over. -/
def phdrs (file : Elf64Hdr) : List Phdr := (List.range file.ePhnum).map file.phdr

theorem field_lt (file : Elf64Hdr) (offset n : Nat) : file.field offset n < 256 ^ n := by
  have hstep : ∀ l : List Nat,
      l.foldr (fun k acc => 256 * acc + (file.bytes (offset + k)).toNat) 0 <
      256 ^ l.length := by
    intro l
    induction l with
    | nil => exact Nat.one_pos
    | cons k l ih =>
      have hbyte := (file.bytes (offset + k)).toNat_lt
      rw [List.foldr_cons, List.length_cons, pow_succ]
      omega
  have := hstep (List.range n)
  rwa [List.length_range] at this

/-- The sizes are those of a `usize`. -/
theorem memsz_lt {file : Elf64Hdr} {h : Phdr} (hmem : h ∈ file.phdrs) : h.memsz < 2 ^ 64 := by
  obtain ⟨index, -, rfl⟩ := List.mem_map.1 hmem
  exact file.field_lt _ 8

end Elf64Hdr

end Zoeax
