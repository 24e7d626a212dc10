import Zoeax.Lib.Descent
import Zoeax.Verify.Lookup

/-!
# Printing a capability space (`print_traverse`)

`print_level` goes through the slots of a CNode and calls itself for the CNode capabilities there,
except for one of the CNode that it is just printing. Nothing else keeps it from going around in
circles: it returns if and only if no CNode below the first one leads back to itself through other
CNodes, and every CNode on the way has memory for all its slots (`traverse_returns_iff`). Two CNodes
that hold each other are enough for a system call that never returns (`traverse_hangs`).
-/

namespace Zoeax

open Lib Exec Relation
open CapabilityType (entrySize)

variable {cfg : Config} {s : KState}

namespace CapabilityData

/-! ## One level -/

/-- Slot number `i` of `c` holds `d`, a capability of another CNode. -/
def HoldsOther (s : KState) (c : CapabilityData) (i : Nat) (d : CapabilityData) : Prop :=
  s.capAt (toKernelV c.getAddress + entrySize * i) = some d ∧ d.getCapType = .ok .cNode ∧
    d.getAddress ≠ c.getAddress

/-- `print_level` of `c` calls itself for `d`. -/
def Opens (cfg : Config) (s : KState) (c d : CapabilityData) : Prop :=
  ∃ n, c.capacity cfg = .ok n ∧ ∃ i < n,
    s.isSlot (toKernelV c.getAddress + entrySize * i) = true ∧ HoldsOther s c i d

/-- The slots that `print_level` of `c` goes through are there. -/
def Printable (cfg : Config) (s : KState) (c : CapabilityData) : Prop :=
  ∃ n, c.capacity cfg = .ok n ∧ n * entrySize < 2 ^ 63 ∧
    ∀ i < n, s.isSlot (toKernelV c.getAddress + entrySize * i) = true

section Slots

variable {c : CapabilityData} {sub : CapabilityData → KR Unit}

/-- A slot without a capability of another CNode is passed over; otherwise that CNode is next. -/
theorem printSlots_cases (sub : CapabilityData → KR Unit) {i : Nat} (n : Nat)
    (hslot : s.isSlot (toKernelV c.getAddress + entrySize * i) = true) :
    ((∀ d, ¬HoldsOther s c i d) ∧ c.printSlots sub (n + 1) i s = c.printSlots sub n (i + 1) s) ∨
      ∃ d, HoldsOther s c i d ∧
        c.printSlots sub (n + 1) i s = (sub d >>= fun _ => c.printSlots sub n (i + 1)) s := by
  have hread := readSlot_ok.2 ⟨hslot, rfl⟩
  rw [printSlots, Query.bind_of_ok hread]
  cases he : s.slots (toKernelV c.getAddress + entrySize * i) with
  | none => exact .inl ⟨by simp [HoldsOther, KState.capAt, he], rfl⟩
  | some e =>
    have hcap : s.capAt (toKernelV c.getAddress + entrySize * i) = some e.cap := by
      rw [KState.capAt, he]
      rfl
    cases hk : e.cap.tryRefAs .cNode with
    | error err =>
      have hne : e.cap.getCapType ≠ .ok .cNode := by
        intro hcnode
        rw [tryRefAs_ok (u := ()).2 hcnode] at hk
        cases hk
      exact .inl ⟨by simp [HoldsOther, hcap, hne], by simp [hk]⟩
    | ok u =>
      by_cases haddr : e.cap.getAddress = c.getAddress
      · exact .inl ⟨by simp [HoldsOther, hcap, haddr], by simp [hk, haddr]⟩
      · exact .inr ⟨e.cap, ⟨hcap, tryRefAs_ok.1 hk, haddr⟩, by simp [hk, haddr]⟩

theorem HoldsOther.unique {i : Nat} {d d' : CapabilityData} (h : HoldsOther s c i d)
    (h' : HoldsOther s c i d') : d = d' :=
  Option.some.inj (h.1.symm.trans h'.1)

theorem printSlots_succ {n i : Nat} :
    c.printSlots sub (n + 1) i s = .ok () ↔
      (s.isSlot (toKernelV c.getAddress + entrySize * i) = true ∧
        ∀ d, HoldsOther s c i d → sub d s = .ok ()) ∧ c.printSlots sub n (i + 1) s = .ok () := by
  by_cases hslot : s.isSlot (toKernelV c.getAddress + entrySize * i) = true
  · rcases printSlots_cases sub n hslot with ⟨hnone, heq⟩ | ⟨d, hd, heq⟩
    · simp [heq, hslot, hnone]
    · rw [heq, Query.bind_ok]
      constructor
      · rintro ⟨_, hsub, hrest⟩
        exact ⟨⟨hslot, fun d' hd' => hd.unique hd' ▸ hsub⟩, hrest⟩
      · rintro ⟨⟨-, hsub⟩, hrest⟩
        exact ⟨(), hsub d hd, hrest⟩
  · simp [printSlots, Query.bind_ok, readSlot_ok, hslot]

theorem printSlots_ok {n i : Nat} :
    c.printSlots sub n i s = .ok () ↔
      ∀ j, i ≤ j → j < i + n → s.isSlot (toKernelV c.getAddress + entrySize * j) = true ∧
        ∀ d, HoldsOther s c j d → sub d s = .ok () := by
  induction n generalizing i with
  | zero =>
    simp only [printSlots, Query.pure_ok, true_iff]
    intro j hle hlt
    omega
  | succ n ih =>
    rw [printSlots_succ, ih]
    constructor
    · rintro ⟨hfirst, hrest⟩ j hle hlt
      by_cases hj : j = i
      · subst hj
        exact hfirst
      · exact hrest j (by omega) (by omega)
    · intro hall
      exact ⟨hall i le_rfl (by omega), fun j hle hlt => hall j (by omega) (by omega)⟩

end Slots

/-- A level returns if its slots are there and the levels below return. -/
theorem printLevel_succ (fuel : Nat) (c : CapabilityData) :
    printLevel cfg (fuel + 1) c s = .ok () ↔
      Printable cfg s c ∧ ∀ d, Opens cfg s c d → printLevel cfg fuel d s = .ok () := by
  simp only [printLevel, Query.bind_ok, Query.lift_ok, checkSlice, require_ok, decide_eq_true_eq,
    printSlots_ok, Nat.zero_le, Nat.zero_add, true_implies]
  constructor
  · rintro ⟨n, hcap, -, hfit, hslots⟩
    refine ⟨⟨n, hcap, hfit, fun i hi => (hslots i hi).1⟩, ?_⟩
    rintro d ⟨m, hcap', i, hi, -, hd⟩
    obtain rfl : n = m := Except.ok.inj (hcap.symm.trans hcap')
    exact (hslots i hi).2 d hd
  · rintro ⟨⟨n, hcap, hfit, hslots⟩, hbelow⟩
    refine ⟨n, hcap, (), hfit, fun i hi => ⟨hslots i hi, fun d hd => ?_⟩⟩
    exact hbelow d ⟨n, hcap, i, hi, hslots i hi, hd⟩

theorem descent_printLevel : Descent (Opens cfg s) (Printable cfg s)
    fun fuel c => printLevel cfg fuel c s = .ok () where
  zero _ := nofun
  succ := printLevel_succ

/-! ## All levels -/

/-- There are finitely many slots. -/
theorem finite_isSlot (s : KState) : {p | s.isSlot p = true}.Finite := by
  have hmem := List.finite_toSet s.objects
  refine (hmem.biUnion fun o _ => Set.finite_lt_nat (o.start + o.size)).subset ?_
  intro p hp
  obtain ⟨o, ho, hslot⟩ := List.any_eq_true.1 hp
  simp only [Object.hasSlot, Bool.and_eq_true, decide_eq_true_eq] at hslot
  have hentry : 0 < entrySize := by decide
  exact Set.mem_biUnion ho (show p < o.start + o.size by omega)

/-- There are finitely many CNode capabilities below one. -/
theorem finite_opened (c : CapabilityData) : {d | ReflTransGen (Opens cfg s) c d}.Finite := by
  have himage := (finite_isSlot s).image fun p => (s.capAt p).getD c
  refine (himage.insert c).subset ?_
  intro d hd
  rcases ReflTransGen.cases_tail hd with rfl | ⟨b, -, n, -, i, -, hslot, hcap, -⟩
  · exact Set.mem_insert ..
  · exact Set.mem_insert_of_mem _ ⟨_, hslot, by simp [hcap]⟩

/-! ## Going around in circles -/

/-- The slots of a level are gone through, or a level below does not end. -/
theorem printSlots_or_hang {c : CapabilityData} {sub : CapabilityData → KR Unit} {n i : Nat}
    (hslots : ∀ j, i ≤ j → j < i + n → s.isSlot (toKernelV c.getAddress + entrySize * j) = true)
    (hsub : ∀ j d, i ≤ j → j < i + n → HoldsOther s c j d →
      sub d s = .ok () ∨ sub d s = .error (.halt .hang)) :
    c.printSlots sub n i s = .ok () ∨ c.printSlots sub n i s = .error (.halt .hang) := by
  induction n generalizing i with
  | zero => exact .inl rfl
  | succ n ih =>
    have hrest := ih (i := i + 1) (fun j hle hlt => hslots j (by omega) (by omega))
      fun j d hle hlt => hsub j d (by omega) (by omega)
    rcases printSlots_cases sub n (hslots i le_rfl (by omega)) with ⟨-, heq⟩ | ⟨d, hd, heq⟩
    · rw [heq]
      exact hrest
    · rw [heq]
      rcases hsub i d le_rfl (by omega) hd with hok | hhang
      · rw [Query.bind_of_ok hok]
        exact hrest
      · rw [Query.bind_of_error hhang]
        exact .inr rfl

/-- Where the slots of all CNodes are there, printing them returns or does not end. -/
theorem printLevel_or_hang {c : CapabilityData}
    (hall : ∀ d, ReflTransGen (Opens cfg s) c d → Printable cfg s d) (fuel : Nat) :
    printLevel cfg fuel c s = .ok () ∨ printLevel cfg fuel c s = .error (.halt .hang) := by
  induction fuel generalizing c with
  | zero => exact .inr rfl
  | succ fuel ih =>
    obtain ⟨n, hcap, hfit, hslots⟩ := hall c .refl
    have hcap' : (liftM (c.capacity cfg) : KR Nat) s = .ok n := hcap
    have hslice : (liftM (checkSlice cfg n) : KR Unit) s = .ok () :=
      require_ok.2 (decide_eq_true hfit)
    rw [printLevel, Query.bind_of_ok hcap', Query.bind_of_ok hslice]
    refine printSlots_or_hang (fun j _ hlt => hslots j (by omega)) ?_
    intro j d _ hlt hd
    have hopens : Opens cfg s c d := ⟨n, hcap, j, by omega, hslots j (by omega), hd⟩
    exact ih fun e he => hall e (he.head hopens)

/-- **`CNodeTraverse` does not end** if a CNode that it gets to leads back to itself. -/
theorem printLevel_hangs {c d : CapabilityData}
    (hall : ∀ e, ReflTransGen (Opens cfg s) c e → Printable cfg s e)
    (hd : ReflTransGen (Opens cfg s) c d) (hcycle : TransGen (Opens cfg s) d d) (fuel : Nat) :
    printLevel cfg fuel c s = .error (.halt .hang) := by
  refine (printLevel_or_hang hall fuel).resolve_left fun hok => ?_
  obtain ⟨m, hm⟩ := descent_printLevel.reach hok hd
  exact descent_printLevel.not_done_of_cycle hcycle m hm

end CapabilityData

/-! ## In every run -/

open CapabilityData

/-- The size of a CNode with memory was computed without an overflow. -/
theorem size_of_slots {n slots size : Nat} (hslots : slots = 2 ^ n % 2 ^ 64)
    (hsize : size = slots * entrySize % 2 ^ 64) (hne : size ≠ 0) (hlt : size < 2 ^ 63) :
    size = slots * entrySize := by
  rw [entrySize] at hsize ⊢
  by_cases hn : n < 58
  · have hpow : 2 ^ n ≤ 2 ^ 57 := Nat.pow_le_pow_right (by decide) (by omega)
    generalize 2 ^ n = m at hslots hpow
    omega
  · -- the product is a multiple of `2 ^ 63`
    obtain ⟨k, rfl⟩ := Nat.exists_eq_add_of_le (not_lt.1 hn)
    rw [pow_add] at hslots
    generalize 2 ^ k = m at hslots
    omega

/-- A capability with the radix of its CNode can be printed, unless the CNode has no memory. -/
theorem printable_of_object (hwf : HeapWF cfg s) {o : Object} {c : CapabilityData}
    (ho : o ∈ s.objects) (hk : o.kind = .cNode) (haddr : o.addr = c.getAddress)
    (huser : o.userSize = c.radix) (hsize : o.size ≠ 0) : Printable cfg s c := by
  have hradix : c.radix < 2 ^ 32 := Nat.mod_lt _ (by decide)
  have hobj := hwf.size o ho
  rw [hk, huser] at hobj
  simp only [CapabilityType.getObjectSize, except_bind_ok, arith_ok,
    Nat.mod_eq_of_lt hradix] at hobj
  obtain ⟨slots, hslots, hmul⟩ := hobj
  have hlt : o.size < 2 ^ 63 := by
    have hend := (Object.lt_of_admissible (hwf.admissible o ho)).2.1
    have hram := cfg.freeRamEnd_le
    rw [directMapEnd] at hram
    omega
  have hfit := size_of_slots (Profile.wrap_eq_mod hslots) (Profile.wrap_eq_mod hmul) hsize hlt
  refine ⟨slots, by rw [capacity, hslots, arith_some], hfit ▸ hlt, fun i hi => ?_⟩
  rw [← haddr]
  exact List.any_eq_true.2 ⟨o, ho, Object.hasSlot_of_lt hk hfit hi⟩

/-- What `CNodeTraverse` gets to are CNode capabilities that are held somewhere. -/
theorem hasCap_of_opened {c d : CapabilityData} (hc : s.HasCap c) (hk : c.getCapType = .ok .cNode)
    (hd : ReflTransGen (Opens cfg s) c d) : s.HasCap d ∧ d.getCapType = .ok .cNode := by
  cases hd with
  | refl => exact ⟨hc, hk⟩
  | tail _ hopens =>
    obtain ⟨n, -, i, -, -, hd, hk, -⟩ := hopens
    exact ⟨.inl ⟨_, hd⟩, hk⟩

/-- In a run that meets the conditions all that `CNodeTraverse` gets to can be printed, as long as
there are no CNodes without memory. -/
theorem printable_of_run {image : Image} {s₀ : KState} (hboot : Boot cfg image s₀)
    (hrun : Run cfg (GuardedFits cfg) s₀ s)
    (hsize : ∀ o ∈ s.objects, o.kind = .cNode → o.size ≠ 0) {c d : CapabilityData}
    (hc : s.HasCap c) (hk : c.getCapType = .ok .cNode) (hd : ReflTransGen (Opens cfg s) c d) :
    Printable cfg s d := by
  have hwf := heapWF_of_run hboot hrun
  obtain ⟨hheld, hcnode⟩ := hasCap_of_opened hc hk hd
  obtain ⟨o, ho, hkind, haddr, huser⟩ := (capsAll_confined hboot hrun d hheld).1 hcnode
  exact printable_of_object hwf ho hkind haddr huser (hsize o ho hkind)

/-- Beside the CNode of `root` there is one at `a`, and it holds nothing but itself: the only step
is from the first to the second. -/
theorem opens_of_two {root c d : CapabilityData} {a n : Nat} (hall : CapsAll Confined s)
    (hheld : s.HasCap root) (hk : root.getCapType = .ok .cNode)
    (hcnodes : ∀ o ∈ s.objects, o.kind = .cNode →
      o.addr = root.getAddress ∨ o.addr = a ∧ o.userSize = n)
    (hslots : ∀ i < 2 ^ n, ∀ e, s.capAt (toKernelV a + entrySize * i) = some e → e.getAddress = a)
    (hc : ReflTransGen (Opens cfg s) root c) (hopens : Opens cfg s c d) :
    c.getAddress ≠ a ∧ d.getAddress = a := by
  obtain ⟨hcheld, hkc⟩ := hasCap_of_opened hheld hk hc
  obtain ⟨hdheld, hkd⟩ := hasCap_of_opened hheld hk (hc.tail hopens)
  obtain ⟨o, ho, hko, hoc, hradix⟩ := (hall c hcheld).1 hkc
  obtain ⟨o', ho', hko', hod, -⟩ := (hall d hdheld).1 hkd
  obtain ⟨m, hcap, i, hi, -, hd, -, hne⟩ := hopens
  rcases hcnodes o ho hko with hfrom | ⟨hfrom, hn⟩
  · rcases hcnodes o' ho' hko' with hto | ⟨hto, -⟩
    · exact absurd (hod.symm.trans (hto.trans (hfrom.symm.trans hoc))) hne
    · rw [← hod, hto]
      exact ⟨fun h => hne (by omega), rfl⟩
  · have hle : m ≤ 2 ^ n := by
      rw [capacity, ← hradix, hn, arith_ok] at hcap
      exact Profile.wrap_eq_mod hcap ▸ Nat.mod_le ..
    rw [← hfrom, hoc] at hslots
    exact absurd (hslots i (by omega) d hd) hne

/-! ## When it returns -/

/-- **`CNodeTraverse` returns** if and only if no CNode that it gets to leads back to itself through
other CNodes, and the slots of all of them are there. -/
theorem CapabilityData.traverse_returns_iff (cfg : Config) (s : KState) (c : CapabilityData) :
    (∃ fuel, printLevel cfg fuel c s = .ok ()) ↔
      ∀ d, ReflTransGen (Opens cfg s) c d → Printable cfg s d ∧ ¬TransGen (Opens cfg s) d d :=
  descent_printLevel.exists_iff (finite_opened c)

/-- `CNodeCopy` of slot `i` of the root CNode into slot 0 of the CNode of radix 4 in slot 19. -/
def copyIntoRegs (i : UInt64) : Registers :=
  { ecallRegs 19 18 9 with a3 := i, a4 := 18 * 2 ^ 32 + 4, a5 := 0 }

/-- The address of the CNode in slot 19. -/
def cnode19 : Nat := 2160095232

/-- The root server makes a CNode in slot 19 and puts its capability there, into itself. That is the
one circle that `CNodeTraverse` sees. -/
theorem traverse_returns_after_retype : ∃ s₀ s t root, Boot .virt demoImage s₀ ∧
    Run .virt (GuardedFits .virt) s₀ s ∧ s.tcbs s.current = some t ∧ t.rootCnode = some root ∧
    (∃ c, s.capAt (toKernelV cnode19) = some c ∧ c.getAddress = cnode19) ∧
    ∃ fuel, printLevel .virt fuel root.cap s = .ok () := by
  obtain ⟨s₀, s, hboot, hrun, htest⟩ := exists_run_of_trace .virt (GuardedFits .virt) demoImage
    [.trap (retypeCNodeRegs 4), .trap (copyIntoRegs 19)]
    (fun s => ((s.capAt (toKernelV cnode19)).any fun c => c.getAddress = cnode19) &&
      ((List.range 16).all fun i =>
        (s.capAt (toKernelV cnode19 + entrySize * i)).all fun c => c.getAddress = cnode19) &&
      (∀ o ∈ s.objects, o.kind = .cNode → o.size ≠ 0) &&
      (s.tcbs s.current).any fun t => t.rootCnode.any fun root =>
        root.cap.getCapType = .ok .cNode && ∀ o ∈ s.objects, o.kind = .cNode →
          o.addr = root.cap.getAddress ∨ o.addr = cnode19 ∧ o.userSize = 4)
    (by decide +kernel)
  obtain ⟨htest, hroots⟩ := Bool.and_eq_true_iff.1 htest
  obtain ⟨t, ht, hroots⟩ := (Option.any_eq_true ..).1 hroots
  obtain ⟨root, hroot, hroots⟩ := (Option.any_eq_true ..).1 hroots
  simp only [Bool.and_eq_true, decide_eq_true_eq, List.all_eq_true, List.mem_range] at htest hroots
  obtain ⟨⟨hself, hslots⟩, hsize⟩ := htest
  obtain ⟨hk, hcnodes⟩ := hroots
  obtain ⟨c, hc, haddr⟩ := (Option.any_eq_true ..).1 hself
  have hheld : s.HasCap root.cap := .inr ⟨_, t, .rootCnode, root, ht, hroot, rfl⟩
  have hall := capsAll_confined hboot hrun
  have hstep : ∀ {c d}, ReflTransGen (Opens .virt s) root.cap c → Opens .virt s c d →
      c.getAddress ≠ cnode19 ∧ d.getAddress = cnode19 := by
    intro c d hc hopens
    refine opens_of_two (n := 4) hall hheld hk hcnodes (fun i hi e he => ?_) hc hopens
    have hin := hslots i hi
    rw [he] at hin
    exact of_decide_eq_true hin
  refine ⟨s₀, s, t, root, hboot, hrun, ht, hroot, ⟨c, hc, of_decide_eq_true haddr⟩, ?_⟩
  refine (traverse_returns_iff .virt s root.cap).2 fun d hd =>
    ⟨printable_of_run hboot hrun hsize hheld hk hd, fun hcycle => ?_⟩
  obtain ⟨e, hde, -⟩ := TransGen.head'_iff.1 hcycle
  obtain ⟨b, hdb, hbd⟩ := TransGen.tail'_iff.1 hcycle
  exact (hstep hd hde).1 (hstep (hd.trans hdb) hbd).2

/-- The root server makes a CNode in slot 19 and puts the capability of its root CNode there. From
then on `CNodeTraverse` does not return. -/
theorem traverse_hangs : ∃ s₀ s t root, Boot .virt demoImage s₀ ∧
    Run .virt (GuardedFits .virt) s₀ s ∧ s.tcbs s.current = some t ∧ t.rootCnode = some root ∧
    ∀ fuel, printLevel .virt fuel root.cap s = .error (.halt .hang) := by
  obtain ⟨s₀, s, hboot, hrun, htest⟩ := exists_run_of_trace .virt (GuardedFits .virt) demoImage
    [.trap (retypeCNodeRegs 4), .trap (copyIntoRegs 2)]
    (fun s => (∀ o ∈ s.objects, o.kind = .cNode → o.size ≠ 0) &&
      (s.tcbs s.current).any fun t => t.rootCnode.any fun root =>
        root.cap.getCapType = .ok .cNode && root.cap.capacity .virt = .ok (2 ^ 18) &&
        slot19 = toKernelV root.cap.getAddress + entrySize * 19 && s.isSlot slot19 &&
        (s.capAt slot19).any fun d => d.getCapType = .ok .cNode &&
          d.getAddress ≠ root.cap.getAddress && d.capacity .virt = .ok (2 ^ 4) &&
          s.isSlot (toKernelV d.getAddress) && s.capAt (toKernelV d.getAddress) = some root.cap)
    (by decide +kernel)
  obtain ⟨hsize, htest⟩ := Bool.and_eq_true_iff.1 htest
  obtain ⟨t, ht, htest⟩ := (Option.any_eq_true ..).1 htest
  obtain ⟨root, hroot, htest⟩ := (Option.any_eq_true ..).1 htest
  obtain ⟨htest, hcircle⟩ := Bool.and_eq_true_iff.1 htest
  obtain ⟨d, hd, hcircle⟩ := (Option.any_eq_true ..).1 hcircle
  simp only [Bool.and_eq_true, decide_eq_true_eq] at hsize htest hcircle
  obtain ⟨⟨⟨hk, hcap⟩, haddr⟩, hslot⟩ := htest
  obtain ⟨⟨⟨⟨hkd, hne⟩, hcapd⟩, hslotd⟩, hback⟩ := hcircle
  have hheld : s.HasCap root.cap := .inr ⟨_, t, .rootCnode, root, ht, hroot, rfl⟩
  rw [haddr] at hslot hd
  have hdown : Opens .virt s root.cap d := ⟨_, hcap, 19, by decide, hslot, hd, hkd, hne⟩
  have hup : Opens .virt s d root.cap := ⟨_, hcapd, 0, by decide, hslotd, hback, hk, hne.symm⟩
  refine ⟨s₀, s, t, root, hboot, hrun, ht, hroot,
    printLevel_hangs ?_ .refl (.tail (.single hdown) hup)⟩
  exact fun e he => printable_of_run hboot hrun hsize hheld hk he

end Zoeax
