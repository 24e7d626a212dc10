import Zoeax.Verify.Step

/-!
# Boot

The boot functions make objects, put their first capabilities into empty slots of the root CNode,
map pages, and fill in the first thread. `SpaceRule` lists the steps of the part that makes the
address space, `PlaceRule` those of the rest: an invariant that survives them holds after boot
(`SpaceRule.boot`). Most invariants survive any write of these kinds (`CapStable`, `MapStable`,
`BootStable`).
-/

namespace Zoeax

open Lib Exec

variable {cfg : Config} {s s' : KState}

theorem unwrap_ok {α : Type} {x : KM α} {a : α} : unwrap x s = .ok a s' ↔ x s = .ok a s' := by
  unfold unwrap
  split
  · next h => simp [h]
  · rfl

theorem bootObject_ok {k : CapabilityType} {addr userSize : Nat} {u : Unit}
    (h : bootObject cfg k addr userSize s = .ok u s') :
    ∃ size, Object.Fresh cfg s ⟨k, addr, userSize, size⟩ ∧
      s' = { s with objects := ⟨k, addr, userSize, size⟩ :: s.objects } := by
  simp only [bootObject, bind_ok, liftExcept_ok, createObject_ok] at h
  obtain ⟨size, _, ⟨hsize, rfl⟩, hadm, hapart, rfl⟩ := h
  exact ⟨size, ⟨hadm, hapart, hsize⟩, rfl⟩

theorem writeSlot_ok {c cap : CapabilityData} {index : Nat} {u : Unit}
    (h : c.writeSlot cfg cap index s = .ok u s') :
    ∃ p, p = toKernelV c.getAddress + CapabilityType.entrySize * index ∧ s.isSlot p = true ∧
      s.slots p = none ∧ s' = s.setSlot p (some (.newWithRawcap cap)) := by
  simp only [CapabilityData.writeSlot, bind_ok, lift_ok, liftExcept_ok, readSlot_ok, modify_ok,
    require_ok] at h
  obtain ⟨_, _, ⟨-, rfl⟩, _, _, ⟨-, rfl⟩, _, _, ⟨-, rfl⟩, e, _, ⟨⟨hslot, he⟩, rfl⟩, _, _,
    ⟨hnone, rfl⟩, rfl⟩ := h
  exact ⟨_, rfl, hslot, he.trans (Option.isNone_iff_eq_none.1 hnone), rfl⟩

theorem Object.lt_of_admissible {o : Object} (h : o.admissible cfg = true) :
    cfg.freeRam ≤ o.addr ∧ o.addr + o.size ≤ cfg.freeRamEnd ∧ o.addr < 2 ^ 47 ∧
      o.addr % o.kind.align = 0 := by
  simp only [admissible, Bool.and_eq_true, decide_eq_true_eq] at h
  have := cfg.freeRamEnd_le
  rw [directMapEnd] at this
  omega

theorem getCapType_init {k : CapabilityType} {a userSize : Nat} {c : CapabilityData}
    (h : CapabilityData.init k a userSize = .ok c) : c.getCapType = .ok k := by
  simp only [CapabilityData.init, except_bind_ok, except_pure_ok] at h
  obtain ⟨v, -, rfl⟩ := h
  exact CapabilityData.getCapType_new ..

/-- The first capability of a boot object. -/
theorem init_fresh {k : CapabilityType} {addr userSize size : Nat} {c : CapabilityData}
    (ha : addr < 2 ^ 47) (hu : userSize < 2 ^ 32)
    (h : CapabilityData.init k (toKernelV addr) userSize = .ok c) :
    c.FreshFor ⟨k, addr, userSize, size⟩ := by
  simp only [CapabilityData.init, except_bind_ok, except_pure_ok] at h
  obtain ⟨v, hv, rfl⟩ := h
  refine ⟨CapabilityData.getCapType_new .., ?_, fun hk => ?_, fun hk => ?_, fun hk => ?_⟩
  · rw [CapabilityData.getAddress_new, toPhys_toKernelV_of_lt ha, Nat.mod_eq_of_lt]
    omega
  · obtain rfl : k = .cNode := hk
    obtain rfl : userSize = v := Except.ok.inj hv
    simp only [CapabilityData.radix, CapabilityData.capDepVal_new, UInt64.toNat_ofNat']
    omega
  · obtain rfl : k = .pageTable := hk
    obtain rfl : 0 = v := Except.ok.inj hv
    simp [CapabilityData.isRoot]
  · obtain rfl : k = .pageTable := hk
    obtain rfl : 0 = v := Except.ok.inj hv
    simp [CapabilityData.isMapped]

/-- A new object and its first capability. -/
theorem bootObject_fresh {k : CapabilityType} {addr userSize : Nat} {c : CapabilityData} {u : Unit}
    (hu : userSize < 2 ^ 32) (hobj : bootObject cfg k addr userSize s = .ok u s')
    (hinit : CapabilityData.init k (toKernelV addr) userSize = .ok c) :
    ∃ o : Object, o.kind = k ∧ o.addr = addr ∧ o.Fresh cfg s ∧ c.FreshFor o ∧
      s' = { s with objects := o :: s.objects } := by
  obtain ⟨size, hfresh, rfl⟩ := bootObject_ok hobj
  have ha : addr < 2 ^ 47 := (Object.lt_of_admissible hfresh.admissible).2.2.1
  exact ⟨_, rfl, rfl, hfresh, init_fresh ha hu hinit, rfl⟩

/-- The capability of a new page is not mapped. -/
theorem init_capDepVal {a userSize : Nat} {c : CapabilityData}
    (h : CapabilityData.init .page a userSize = .ok c) : c.capDepVal = 0 := by
  simp only [CapabilityData.init, except_bind_ok, except_pure_ok] at h
  obtain ⟨v, hv, rfl⟩ := h
  obtain rfl : 0 = v := Except.ok.inj hv
  exact CapabilityData.capDepVal_new ..

theorem untypedNext_capType {g g' : UntypedCapGenerator} {idx : Nat} {cap : CapabilityData}
    (h : g.next cfg = .ok (some (idx, cap, g'))) : cap.getCapType = .ok .untyped := by
  simp only [UntypedCapGenerator.next, except_bind_ok] at h
  obtain ⟨bound, -, h⟩ := h
  split at h
  · cases h
  · simp only [except_bind_ok, except_pure_ok, Option.some.injEq, Prod.mk.injEq] at h
    obtain ⟨_, -, _, -, c, hc, _, -, -, rfl, -⟩ := h
    exact getCapType_init hc

/-! ## Rules -/

theorem Renews.and {I J : KState → Prop} (hI : Renews I) (hJ : Renews J) :
    Renews fun s => I s ∧ J s := by
  intro s o ho hcell hs
  exact ⟨hI s o ho hcell hs.1, hJ s o ho hcell hs.2⟩

theorem CapStable.and {P : CapProp} {I J : KState → Prop} (hI : CapStable cfg P I)
    (hJ : CapStable cfg P J) : CapStable cfg P fun s => I s ∧ J s where
  insert site parent := (hI.insert site parent).and (hJ.insert site parent)
  replace site src := (hI.replace site src).and (hJ.replace site src)
  clear s p hs := ⟨hI.clear s p hs.1, hJ.clear s p hs.2⟩
  move s p q hs := ⟨hI.move s p q hs.1, hJ.move s p q hs.2⟩
  new s p cap hc hs := ⟨hI.new s p cap hc hs.1, hJ.new s p cap hc hs.2⟩
  setCap s p cap hc hs := ⟨hI.setCap s p cap hc hs.1, hJ.setCap s p cap hc hs.2⟩
  hold s t p slot q ht hn hs := ⟨hI.hold s t p slot q ht hn hs.1, hJ.hold s t p slot q ht hn hs.2⟩
  born s o ho hs := ⟨hI.born s o ho hs.1, hJ.born s o ho hs.2⟩

theorem MapStable.and {P : CapProp} {I J : KState → Prop} (hI : MapStable cfg P I)
    (hJ : MapStable cfg P J) : MapStable cfg P fun s => I s ∧ J s where
  toCapStable := hI.toCapStable.and hJ.toCapStable
  mem s m hs := ⟨hI.mem s m hs.1, hJ.mem s m hs.2⟩
  root s a hs := ⟨hI.root s a hs.1, hJ.root s a hs.2⟩

/-- A capability outside the state keeps `P`: the logs only grow. -/
theorem CapRule.mapStable_cap {P : CapProp} (hP : CapRule P) (c : CapabilityData) :
    MapStable cfg P fun s => P s.objects s.rooted c where
  toCapStable := .of_slots (fun _ _ hs => hs) (fun _ _ _ _ _ _ _ hs => hs) fun s o _ hs => by
    rw [objects_born, rooted_born]
    exact hP.mono (List.subset_cons_self ..) (List.Subset.refl _) hs
  mem _ _ hs := hs
  root _ _ hs := hP.mono (List.Subset.refl _) (List.subset_cons_self ..) hs

/-- A live object stays one. -/
theorem isObject_mapStable {P : CapProp} (k : CapabilityType) (a : Nat) :
    MapStable cfg P fun s => s.isObject k a = true where
  toCapStable := .of_slots (fun _ _ hs => hs) (fun _ _ _ _ _ _ _ hs => hs) fun s o _ hs => by
    rw [KState.isObject, objects_born, List.any_cons, Bool.or_eq_true]
    exact .inr hs
  mem _ _ hs := hs
  root _ _ hs := hs

/-- Survives what boot writes while it maps pages below the table at `root`, at addresses in `U`: a
new table with its capability and an entry for it, the entry of a page, the contents of a page. -/
structure SpaceStable (cfg : Config) (P : CapProp) (root : Nat) (U : Nat → Prop)
    (I : KState → Prop) : Prop extends CapStable cfg P I where
  link : ∀ s o p cap vaddr level a, Object.Fresh cfg s o → o.kind = .pageTable →
    CapabilityData.FreshFor cap o → U vaddr → level ≠ 0 →
    PageTable.walk cfg root vaddr
      ({ s with objects := o :: s.objects }.setSlot p (some (.newWithRawcap cap))) =
        .ok (level, a) → I s →
    I (({ s with objects := o :: s.objects }.setSlot p (some (.newWithRawcap cap))).setWord a
      (Pte.write o.addr pageV))
  leaf : ∀ s vaddr a w, U vaddr → PageTable.walk cfg root vaddr s = .ok (0, a) → I s →
    I (s.setWord a w)
  fill : ∀ s f src n, n ≤ pageSize → s.isObject .page f = true → I s → I (s.copyBytes f src n)

/-- A new object other than a thread, an endpoint or a notification is nothing but its memory. -/
theorem CapStable.create {P : CapProp} {I : KState → Prop} (hI : CapStable cfg P I) {o : Object}
    (ho : o.Fresh cfg s) (hk : o.kind = .cNode ∨ o.kind = .page) (hs : I s) :
    I { s with objects := o :: s.objects } := by
  have h := hI.born s o ho hs
  rcases o with ⟨k, addr, userSize, size⟩
  rcases hk with hk | hk <;> cases hk <;> exact h

theorem MapStable.spaceStable {P : CapProp} {I : KState → Prop} (hI : MapStable cfg P I)
    (hP : CapRule P) (root : Nat) (U : Nat → Prop) : SpaceStable cfg P root U I where
  toCapStable := hI.toCapStable
  link s o p cap _ _ a ho hk hcap _ _ _ hs := by
    have hnew : I { s with objects := o :: s.objects } := by
      have h := hI.mem _ s.mem (hI.born s o ho hs)
      rcases o with ⟨k, addr, userSize, size⟩
      cases hk
      exact h
    exact hI.mem _ _ (hI.new _ p cap (hP.fresh (List.mem_cons_self ..) hcap) hnew)
  leaf s _ _ _ _ _ hs := hI.mem s _ hs
  fill s _ _ _ _ _ hs := hI.mem s _ hs

/-- A live object stays one. -/
theorem live_mapStable {P : CapProp} (o : Object) : MapStable cfg P fun s => o ∈ s.objects where
  toCapStable := .of_slots (fun _ _ hs => hs) (fun _ _ _ _ _ _ _ hs => hs) fun s o' _ hs => by
    rw [objects_born]
    exact List.mem_cons_of_mem _ hs
  mem _ _ hs := hs
  root _ _ hs := hs

theorem live_renews (o : Object) : Renews fun s => o ∈ s.objects := by
  intro s o' _ _ hs
  rw [objects_renewed]
  exact hs

/-- Some slot has a capability for a page. -/
def KState.HasPage (s : KState) : Prop :=
  ∃ p c, s.isSlot p = true ∧ s.capAt p = some c ∧ c.getCapType = .ok .page

/-- The page `o` is there, and `c` is its first capability, not mapped yet. -/
structure CapabilityData.NewPage (cfg : Config) (s : KState) (o : Object) (c : CapabilityData) :
    Prop where
  live : o ∈ s.objects
  kind : o.kind = .page
  admissible : o.admissible cfg = true
  fresh : c.FreshFor o
  unmapped : c.capDepVal = 0

/-- The same as `SpaceStable`, by the step: a new page; a new table with its capability, in an empty
slot, and an entry for it; a page at an entry that was free, and its capability in an empty slot;
the contents of a page. -/
structure SpaceRule (cfg : Config) (root : Nat) (U : Nat → Prop) (I : KState → Prop) : Prop where
  create : ∀ s o, Object.Fresh cfg s o → o.kind = .page → I s →
    I { s with objects := o :: s.objects }
  link : ∀ s o p cap vaddr level a, Object.Fresh cfg s o → o.kind = .pageTable →
    CapabilityData.FreshFor cap o → U vaddr → level ≠ 0 →
    { s with objects := o :: s.objects }.isSlot p = true → s.slots p = none →
    PageTable.walk cfg root vaddr
      ({ s with objects := o :: s.objects }.setSlot p (some (.newWithRawcap cap))) =
        .ok (level, a) → I s →
    I (({ s with objects := o :: s.objects }.setSlot p (some (.newWithRawcap cap))).setWord a
      (Pte.write o.addr pageV))
  page : ∀ s o c p vaddr flags a, CapabilityData.NewPage cfg s o c → U vaddr → flags < 2 ^ 10 →
    PageTable.walk cfg root vaddr s = .ok (0, a) → Pte.isValid (s.mem a) = false →
    s.isSlot p = true → s.slots p = none → I s →
    I ((s.setWord a (Pte.write c.getFrame (flags ||| pageV))).setSlot p
      (some (.newWithRawcap (c.setMapped vaddr))))
  fill : ∀ s f src n, n ≤ pageSize → s.isObject .page f = true → I s → I (s.copyBytes f src n)

theorem SpaceRule.and {root : Nat} {U : Nat → Prop} {I J : KState → Prop}
    (hI : SpaceRule cfg root U I) (hJ : SpaceRule cfg root U J) :
    SpaceRule cfg root U fun s => I s ∧ J s where
  create s o ho hk hs := ⟨hI.create s o ho hk hs.1, hJ.create s o ho hk hs.2⟩
  link s o p cap vaddr level a ho hk hcap hU hl hp hnone hw hs :=
    ⟨hI.link s o p cap vaddr level a ho hk hcap hU hl hp hnone hw hs.1,
      hJ.link s o p cap vaddr level a ho hk hcap hU hl hp hnone hw hs.2⟩
  page s o c p vaddr flags a hnew hU hflags hw hfree hp hnone hs :=
    ⟨hI.page s o c p vaddr flags a hnew hU hflags hw hfree hp hnone hs.1,
      hJ.page s o c p vaddr flags a hnew hU hflags hw hfree hp hnone hs.2⟩
  fill s f src n hn hf hs := ⟨hI.fill s f src n hn hf hs.1, hJ.fill s f src n hn hf hs.2⟩

/-- The capability of the page after it was mapped. -/
theorem CapabilityData.NewPage.capRule {P : CapProp} (hP : CapRule P) {o : Object}
    {c : CapabilityData} (h : c.NewPage cfg s o) (vaddr : Nat) :
    P s.objects s.rooted (c.setMapped vaddr) := by
  have hk : c.getCapType = .ok .page := h.kind ▸ h.fresh.capType
  refine hP.retag _ ?_ ?_ (hP.fresh h.live h.fresh) <;> simp [hk]

theorem SpaceStable.rule {P : CapProp} {root : Nat} {U : Nat → Prop} {I : KState → Prop}
    (hI : SpaceStable cfg P root U I) (hP : CapRule P) : SpaceRule cfg root U I where
  create _ _ ho hk hs := hI.create ho (.inr hk) hs
  link s o p cap vaddr level a ho hk hcap hU hl _ _ hw hs :=
    hI.link s o p cap vaddr level a ho hk hcap hU hl hw hs
  page s _ _ p vaddr _ a hnew hU _ hw _ _ _ hs :=
    hI.new _ p _ (hnew.capRule hP vaddr) (hI.leaf s vaddr a _ hU hw hs)
  fill := hI.fill

theorem MapStable.spaceRule {P : CapProp} {I : KState → Prop} (hI : MapStable cfg P I)
    (hP : CapRule P) (root : Nat) (U : Nat → Prop) : SpaceRule cfg root U I :=
  (hI.spaceStable hP root U).rule hP

/-! ## The address space of the root server -/

/-- The address `v` and those of the two pages behind it are in `U`. -/
structure Room (cfg : Config) (U : Nat → Prop) (v : Nat) : Prop where
  here : U v
  next : ∀ v₁, cfg.profile.add v pageSize = some v₁ → U v₁
  last : ∀ v₁ v₂, cfg.profile.add v pageSize = some v₁ →
    cfg.profile.add v₁ pageSize = some v₂ → U v₂

/-- The pages of the image, with the two pages that boot maps behind them, are in `U`. -/
structure Image.Within (cfg : Config) (U : Nat → Prop) (image : Image) : Prop where
  zero : Room cfg U 0
  pages : ∀ hdr ∈ image.phdrs, hdr.load = true → ∀ bytes,
    alignUp cfg.profile hdr.memsz pageSize = some bytes → ∀ i < bytes / pageSize, ∀ v,
    cfg.profile.add hdr.vaddr (pageSize * i) = some v → Room cfg U v

theorem Image.within_trivial (image : Image) : image.Within cfg fun _ => True :=
  ⟨⟨trivial, fun _ _ => trivial, fun _ _ _ _ => trivial⟩,
    fun _ _ _ _ _ _ _ _ _ => ⟨trivial, fun _ _ => trivial, fun _ _ _ _ => trivial⟩⟩

theorem direct_of_lt {a : Nat} (h : a < 2 ^ 47) : direct a = a := toPhys_toKernelV_of_lt h

theorem CapabilityData.FreshFor.getFrame {c : CapabilityData} {o : Object} (h : c.FreshFor o)
    (ho : o.admissible cfg = true) : c.getFrame = o.addr := by
  rw [CapabilityData.getFrame, h.address, direct_of_lt (Object.lt_of_admissible ho).2.2.1]

theorem createRootCnode_ok {cnode : Nat} {cap : CapabilityData}
    (h : createRootCnode cfg cnode s = .ok cap s') :
    ∃ o p, o.kind = .cNode ∧ o.Fresh cfg s ∧ cap.FreshFor o ∧
      { s with objects := o :: s.objects }.isSlot p = true ∧ s.slots p = none ∧
      s' = { s with objects := o :: s.objects }.setSlot p (some (.newWithRawcap cap)) := by
  simp only [createRootCnode, bind_ok, liftExcept_ok, pure_ok] at h
  obtain ⟨_, _, hobj, _, _, ⟨hinit, rfl⟩, _, _, hwrite, rfl, rfl⟩ := h
  obtain ⟨o, hk, -, hfresh, hfor, rfl⟩ := bootObject_fresh (by decide) hobj hinit
  obtain ⟨p, -, hslot, hnone, rfl⟩ := writeSlot_ok (unwrap_ok.1 hwrite)
  exact ⟨o, p, hk, hfresh, hfor, hslot, hnone, rfl⟩

theorem Phdr.flags_lt (hdr : Phdr) : hdr.flags < 2 ^ 10 := by
  unfold Phdr.flags
  cases hdr.executable <;> cases hdr.writable <;> cases hdr.readable <;> decide

/-- Survives a round of `map_page_tables` at `vaddr`: a new table with its capability, in an empty
slot, and an entry for it. -/
def LinkRule (cfg : Config) (root vaddr : Nat) (I : KState → Prop) : Prop :=
  ∀ s o p cap level a, Object.Fresh cfg s o → o.kind = .pageTable →
    CapabilityData.FreshFor cap o → level ≠ 0 →
    { s with objects := o :: s.objects }.isSlot p = true → s.slots p = none →
    PageTable.walk cfg root vaddr
      ({ s with objects := o :: s.objects }.setSlot p (some (.newWithRawcap cap))) =
        .ok (level, a) → I s →
    I (({ s with objects := o :: s.objects }.setSlot p (some (.newWithRawcap cap))).setWord a
      (Pte.write o.addr pageV))

/-- The loop of `map_page_tables`. -/
theorem LinkRule.mapPageTables {I : KState → Prop} {root vaddr n : Nat}
    {cnodeCap rootTableCap : CapabilityData} {m m' : ResourceManager}
    (hI : LinkRule cfg root vaddr I) (hroot : rootTableCap.getFrame = root) (hs : I s)
    (h : mapPageTables cfg cnodeCap rootTableCap vaddr n m s = .ok m' s') : I s' := by
  induction n generalizing m s with
  | zero => exact (throw_ok.1 h).elim
  | succ n ih =>
    simp only [Zoeax.mapPageTables, bind_ok, liftExcept_ok] at h
    obtain ⟨⟨addr, m₁⟩, _, ⟨-, rfl⟩, _, s₁, hobj, cap, _, ⟨hinit, rfl⟩, ⟨idx, m₂⟩, _, ⟨-, rfl⟩,
      _, s₂, hwrite, ⟨c', level⟩, s₃, hmap, h⟩ := h
    obtain ⟨o, hk, -, hfresh, hcap, rfl⟩ := bootObject_fresh (by decide) hobj hinit
    obtain ⟨p, -, hslot, hnone, rfl⟩ := writeSlot_ok (unwrap_ok.1 hwrite)
    obtain ⟨-, -, level', a, hwalk, hl, -, -, rfl⟩ := pageTableCapMap_ok (unwrap_ok.1 hmap)
    rw [hcap.getFrame hfresh.admissible] at h
    rw [hroot] at hwalk
    have hI₃ := hI s o p cap level' a hfresh hk hcap hl hslot hnone hwalk hs
    dsimp only at h
    split at h
    · obtain ⟨-, rfl⟩ := pure_ok.1 h
      exact hI₃
    · exact ih hI₃ h

/-- `create_mapped_page_cap` makes the page, may make page tables, and ends with the entry for the
page. -/
theorem createMappedPageCap_ok {cnodeCap rootTableCap cap : CapabilityData}
    {m m' : ResourceManager} {paddr vaddr flags : Nat}
    (h : createMappedPageCap cfg cnodeCap rootTableCap m paddr vaddr flags s = .ok (cap, m') s') :
    ∃ (o : Object) (c : CapabilityData) (s₁ : KState) (a : Nat),
      o.kind = .page ∧ o.addr = paddr ∧ o.Fresh cfg s ∧ c.FreshFor o ∧ c.capDepVal = 0 ∧
      cap = c.setMapped vaddr ∧
      (s₁ = { s with objects := o :: s.objects } ∨ ∃ m₁, mapPageTables cfg cnodeCap rootTableCap
        vaddr cfg.loopBound m { s with objects := o :: s.objects } = .ok m₁ s₁) ∧
      PageTable.walk cfg rootTableCap.getFrame vaddr s₁ = .ok (0, a) ∧
      Pte.isValid (s₁.mem a) = false ∧
      s' = s₁.setWord a (Pte.write c.getFrame (flags ||| pageV)) := by
  simp only [createMappedPageCap, bind_ok, liftExcept_ok] at h
  obtain ⟨_, s₁, hobj, c, _, ⟨hinit, rfl⟩, first, s₂, hfirst, h⟩ := h
  obtain ⟨o, hk, rfl, hfresh, hfor, rfl⟩ := bootObject_fresh (by decide) hobj hinit
  have hval := init_capDepVal hinit
  rcases catchErr_ok hfirst with ⟨c', rfl, hmap⟩ | ⟨e, rfl, hmap⟩
  · obtain ⟨⟨rfl, rfl⟩, rfl⟩ : (c' = cap ∧ m = m') ∧ s₂ = s' := by simpa [pure_ok] using h
    obtain ⟨-, rfl, a, hwalk, hfree, -, rfl⟩ := pageCapMap_ok hmap
    exact ⟨o, c, _, a, hk, rfl, hfresh, hfor, hval, rfl, .inl rfl, hwalk, hfree, rfl⟩
  · -- the failed attempt has changed nothing
    obtain rfl := errAtomic_pageCapMap cfg _ _ _ _ hmap True.intro
    dsimp only at h
    split at h
    · simp only [bind_ok, pure_ok] at h
      obtain ⟨m₁, s₃, htables, c', _, hmap', hret, rfl⟩ := h
      obtain ⟨rfl, rfl⟩ := Prod.mk.inj hret
      obtain ⟨-, rfl, a, hwalk, hfree, -, rfl⟩ := pageCapMap_ok (unwrap_ok.1 hmap')
      exact ⟨o, c, s₃, a, hk, rfl, hfresh, hfor, hval, rfl, .inr ⟨m₁, htables⟩, hwalk, hfree, rfl⟩
    · exact (throw_ok.1 h).elim

namespace SpaceRule

variable {I : KState → Prop} {U : Nat → Prop} {root : Nat} {rootTableCap : CapabilityData}
  (hI : SpaceRule cfg root U I) (hroot : rootTableCap.getFrame = root)

include hI in
theorem linkRule {vaddr : Nat} (hU : U vaddr) : LinkRule cfg root vaddr I :=
  fun s o p cap level a ho hk hcap hl hp hnone hw hs =>
    hI.link s o p cap vaddr level a ho hk hcap hU hl hp hnone hw hs

include hI hroot

/-- `create_mapped_page_cap` ends with the entry for the page, in a state `s₁` with `I`. -/
theorem createMappedPageCap {cnodeCap cap : CapabilityData} {m m' : ResourceManager}
    {paddr vaddr flags : Nat} (hU : U vaddr) (hs : I s)
    (h : createMappedPageCap cfg cnodeCap rootTableCap m paddr vaddr flags s = .ok (cap, m') s') :
    ∃ (s₁ : KState) (o : Object) (c : CapabilityData) (a : Nat),
      I s₁ ∧ c.NewPage cfg s₁ o ∧ o.addr = paddr ∧ cap = c.setMapped vaddr ∧
      PageTable.walk cfg root vaddr s₁ = .ok (0, a) ∧
      Pte.isValid (s₁.mem a) = false ∧
      s' = s₁.setWord a (Pte.write c.getFrame (flags ||| pageV)) := by
  obtain ⟨o, c, s₁, a, hk, rfl, hfresh, hfor, hval, rfl, htables, hwalk, hfree, rfl⟩ :=
    createMappedPageCap_ok h
  have hJ := hI.and ((live_mapStable o).spaceRule .trivial root U)
  have hJ₁ : I { s with objects := o :: s.objects } ∧ o ∈ o :: s.objects :=
    ⟨hI.create s o hfresh hk hs, List.mem_cons_self ..⟩
  obtain ⟨hI₁, hlive⟩ : I s₁ ∧ o ∈ s₁.objects := by
    rcases htables with rfl | ⟨m₁, htables⟩
    · exact hJ₁
    · exact (hJ.linkRule hU).mapPageTables hroot hJ₁ htables
  exact ⟨s₁, o, c, a, hI₁, ⟨hlive, hk, hfresh.admissible, hfor, hval⟩, rfl, rfl, hroot ▸ hwalk,
    hfree, rfl⟩

/-- `create_mapped_page_cap`, and then the capability goes into its slot. -/
theorem mappedPage {cnodeCap cap : CapabilityData} {m m' : ResourceManager}
    {paddr vaddr flags idx : Nat} {s₁ : KState} {u : Unit} (hU : U vaddr) (hflags : flags < 2 ^ 10)
    (hs : I s)
    (hpage : Zoeax.createMappedPageCap cfg cnodeCap rootTableCap m paddr vaddr flags s =
      .ok (cap, m') s₁)
    (hwrite : unwrap (cnodeCap.writeSlot cfg cap idx) s₁ = .ok u s') :
    I s' ∧ s'.HasPage ∧ ∃ (o : Object) (c : CapabilityData), c.NewPage cfg s' o ∧ o.addr = paddr ∧
      cap = c.setMapped vaddr := by
  obtain ⟨s₀, o, c, a, hI₀, hnew, rfl, rfl, hwalk, hfree, rfl⟩ :=
    hI.createMappedPageCap hroot hU hs hpage
  obtain ⟨p, -, hslot, hnone, rfl⟩ := writeSlot_ok (unwrap_ok.1 hwrite)
  have hpage : (c.setMapped vaddr).getCapType = .ok .page := hnew.kind ▸ hnew.fresh.capType
  exact ⟨hI.page s₀ o c p vaddr flags a hnew hU hflags hwalk hfree hslot hnone hI₀,
    ⟨p, _, hslot, (KState.capAt_setSlot ..).trans (if_pos rfl), hpage⟩, o, c, { hnew with },
    rfl, rfl⟩

theorem mapProgramPage {cnodeCap : CapabilityData} {hdr : Phdr} {em em' : ElfMapper} {i : Nat}
    (hU : ∀ v, cfg.profile.add hdr.vaddr (pageSize * i) = some v → Room cfg U v)
    (hroom : Room cfg U em.maxVaddr) (hs : I s)
    (h : mapProgramPage cfg cnodeCap rootTableCap hdr em i s = .ok em' s') :
    I s' ∧ Room cfg U em'.maxVaddr := by
  simp only [Zoeax.mapProgramPage, bind_ok, liftExcept_ok, arith_ok, modify_ok, pure_ok] at h
  obtain ⟨vaddr, _, ⟨hvaddr, rfl⟩, ⟨addr, m₁⟩, _, ⟨-, rfl⟩, ⟨cap, m₂⟩, s₁, hpage, ⟨idx, m₃⟩, _,
    ⟨-, rfl⟩, _, s₂, hwrite, _, _, rfl, rfl, rfl⟩ := h
  have hroom' := hU vaddr hvaddr
  obtain ⟨hI₂, -, o, c, hnew, -, rfl⟩ :=
    hI.mappedPage hroot hroom'.here hdr.flags_lt hs hpage hwrite
  have hframe : (c.setMapped vaddr).getFrame = o.addr := hnew.fresh.getFrame hnew.admissible
  have hlive : s₂.isObject .page (c.setMapped vaddr).getFrame = true :=
    KState.isObject_iff.2 ⟨o, hnew.live, hnew.kind, hframe.symm⟩
  refine ⟨hI.fill _ _ _ _ (min_le_left ..) hlive hI₂, ?_⟩
  show Room cfg U (max em.maxVaddr vaddr)
  rcases max_choice em.maxVaddr vaddr with heq | heq <;> rw [heq]
  · exact hroom
  · exact hroom'

theorem mapPages {cnodeCap : CapabilityData} {hdr : Phdr} {n i : Nat} {em em' : ElfMapper}
    (hU : ∀ j, j < i + n → ∀ v, cfg.profile.add hdr.vaddr (pageSize * j) = some v → Room cfg U v)
    (hroom : Room cfg U em.maxVaddr) (hs : I s)
    (h : mapPages cfg cnodeCap rootTableCap hdr n i em s = .ok em' s') :
    I s' ∧ Room cfg U em'.maxVaddr := by
  induction n generalizing i em s with
  | zero =>
    obtain ⟨rfl, rfl⟩ := pure_ok.1 h
    exact ⟨hs, hroom⟩
  | succ n ih =>
    obtain ⟨em₁, s₁, hpage, h⟩ := bind_ok.1 h
    obtain ⟨hI₁, hroom₁⟩ := hI.mapProgramPage hroot (hU i (by omega)) hroom hs hpage
    exact ih (fun j hj => hU j (by omega)) hroom₁ hI₁ h

theorem mapSelf {cnodeCap : CapabilityData} {phdrs : List Phdr} {em em' : ElfMapper}
    (hU : ∀ hdr ∈ phdrs, hdr.load = true → ∀ bytes,
      alignUp cfg.profile hdr.memsz pageSize = some bytes → ∀ i < bytes / pageSize, ∀ v,
      cfg.profile.add hdr.vaddr (pageSize * i) = some v → Room cfg U v)
    (hroom : Room cfg U em.maxVaddr) (hs : I s)
    (h : mapSelf cfg cnodeCap rootTableCap phdrs em s = .ok em' s') :
    I s' ∧ Room cfg U em'.maxVaddr := by
  induction phdrs generalizing em s with
  | nil =>
    obtain ⟨rfl, rfl⟩ := pure_ok.1 h
    exact ⟨hs, hroom⟩
  | cons hdr hdrs ih =>
    obtain ⟨em₁, s₁, hprog, h⟩ := bind_ok.1 h
    have h₁ : I s₁ ∧ Room cfg U em₁.maxVaddr := by
      unfold mapProgram at hprog
      split at hprog
      · next hload =>
        simp only [bind_ok, liftExcept_ok, arith_ok] at hprog
        obtain ⟨bytes, _, ⟨hbytes, rfl⟩, hprog⟩ := hprog
        refine hI.mapPages hroot (fun j hj => ?_) hroom hs hprog
        exact hU hdr (List.mem_cons_self ..) hload bytes hbytes j (by omega)
      · obtain ⟨rfl, rfl⟩ := pure_ok.1 hprog
        exact ⟨hs, hroom⟩
    exact ih (fun hdr' hmem => hU hdr' (List.mem_cons_of_mem _ hmem)) h₁.2 h₁.1 h

theorem createFrame {frame maxVaddr flags idx : Nat} {cnodeCap cap : CapabilityData}
    {m m' : ResourceManager} (hU : ∀ v, cfg.profile.add maxVaddr pageSize = some v → U v)
    (hflags : flags < 2 ^ 10) (hs : I s)
    (h : createFrame cfg frame cnodeCap rootTableCap maxVaddr flags idx m s = .ok (cap, m') s') :
    I s' ∧ s'.HasPage ∧ ∃ (o : Object) (c : CapabilityData) (v : Nat), c.NewPage cfg s' o ∧
      o.addr = frame ∧ cap = c.setMapped v := by
  simp only [Zoeax.createFrame, bind_ok, liftExcept_ok, arith_ok, pure_ok] at h
  obtain ⟨vaddr, _, ⟨hvaddr, rfl⟩, ⟨c, m₁⟩, s₁, hpage, _, _, hwrite, hret, rfl⟩ := h
  obtain ⟨rfl, rfl⟩ := Prod.mk.inj hret
  obtain ⟨hI', hslot, o, c', h⟩ := hI.mappedPage hroot (hU vaddr hvaddr) hflags hs hpage hwrite
  exact ⟨hI', hslot, o, c', vaddr, h⟩

end SpaceRule

/-- Making the first root, with its capability in an empty slot, leads from `I₁` to `I`. -/
def FirstRoot (cfg : Config) (I₁ : KState → Prop) (I : Nat → KState → Prop) : Prop :=
  ∀ s o c p, Object.Fresh cfg s o → o.kind = .pageTable → CapabilityData.FreshFor c o →
    (s.born o).isSlot p = true → s.slots p = none → I₁ s →
    I o.addr (((s.born o).madeRoot cfg o.addr).setSlot p
      (some (.newWithRawcap (c.setMapped (toKernelV c.getAddress)).setRoot)))

/-- The root CNode, with its own capability in an empty slot, leads from `s` to `I₁`. -/
def FirstCNode (cfg : Config) (s : KState) (I₁ : KState → Prop) : Prop :=
  ∀ o c p, o.kind = .cNode → Object.Fresh cfg s o → CapabilityData.FreshFor c o →
    { s with objects := o :: s.objects }.isSlot p = true → s.slots p = none →
    I₁ ({ s with objects := o :: s.objects }.setSlot p (some (.newWithRawcap c)))

/-- The capability of the first root. -/
theorem CapRule.firstRoot {P : CapProp} (hP : CapRule P) {o : Object} {c : CapabilityData}
    (ho : o.Fresh cfg s) (hk : o.kind = .pageTable) (hc : c.FreshFor o) :
    P ((s.born o).madeRoot cfg o.addr).objects ((s.born o).madeRoot cfg o.addr).rooted
      (c.setMapped (toKernelV c.getAddress)).setRoot := by
  refine hP.root _ (hk ▸ hc.capType) ?_ (hP.fresh ?_ hc)
  · rw [hc.getFrame ho.admissible]
    exact List.mem_cons_self ..
  · rw [KState.madeRoot, KState.copyMem, objects_born]
    exact List.mem_cons_self ..

/-- `create_address_space` makes a root, with its capability in an empty slot, and maps the
program. -/
theorem createAddressSpace_ok {vspace : Nat} {cnodeCap cap : CapabilityData} {image : Image}
    {m : ResourceManager} {em : ElfMapper}
    (h : createAddressSpace cfg vspace cnodeCap image m s = .ok (cap, em) s') :
    ∃ (o : Object) (c : CapabilityData) (p : Nat), o.Fresh cfg s ∧ o.kind = .pageTable ∧
      c.FreshFor o ∧ o.addr = vspace ∧ (s.born o).isSlot p = true ∧ s.slots p = none ∧
      cap = (c.setMapped (toKernelV c.getAddress)).setRoot ∧ cap.getFrame = o.addr ∧
      mapSelf cfg cnodeCap cap image.phdrs ⟨0, m⟩ (((s.born o).madeRoot cfg o.addr).setSlot p
        (some (.newWithRawcap cap))) = .ok em s' := by
  simp only [createAddressSpace, bind_ok, liftExcept_ok, modify_ok, pure_ok] at h
  obtain ⟨_, s₁, hobj, _, _, rfl, c, _, ⟨hinit, rfl⟩, c', s₂, hmake, _, s₃, hwrite, em₁, s₄, hself,
    hret, rfl⟩ := h
  obtain ⟨rfl, rfl⟩ := Prod.mk.inj hret
  obtain ⟨o, hk, rfl, hfresh, hfor, rfl⟩ := bootObject_fresh (by decide) hobj hinit
  have hborn : { s with objects := o :: s.objects }.zeroMem o.addr pageSize = s.born o := by
    rw [KState.born, hk, direct_of_lt (Object.lt_of_admissible hfresh.admissible).2.2.1]
  rw [hborn] at hmake
  obtain ⟨-, -, rfl, rfl⟩ := makeAsRoot_ok (unwrap_ok.1 hmake)
  have hframe := hfor.getFrame hfresh.admissible
  rw [hframe] at hwrite
  obtain ⟨p, -, hslot, hnone, rfl⟩ := writeSlot_ok (unwrap_ok.1 hwrite)
  have hnone : s.slots p = none := by rw [← slots_born s o]; exact hnone
  exact ⟨o, c, p, hfresh, hk, hfor, rfl, hslot, hnone, rfl, hframe, hself⟩

/-- `create_address_space` leads from `I₁` to `I`, if making the first root does. -/
theorem SpaceRule.createAddressSpace {P : CapProp} {I₁ : KState → Prop} {I : Nat → KState → Prop}
    {U : Nat → Prop} {vspace : Nat} (hI : SpaceRule cfg vspace U (I vspace)) (hP : CapRule P)
    (hroot : FirstRoot cfg I₁ I) {cnodeCap cap : CapabilityData} {image : Image}
    {m : ResourceManager} {em : ElfMapper} (hU : image.Within cfg U) (hs : I₁ s)
    (h : createAddressSpace cfg vspace cnodeCap image m s = .ok (cap, em) s') :
    (I vspace s' ∧ P s'.objects s'.rooted cap) ∧ cap.getFrame = vspace ∧
      Room cfg U em.maxVaddr := by
  obtain ⟨o, c, p, hfresh, hk, hfor, rfl, hslot, hnone, rfl, hframe, hself⟩ :=
    createAddressSpace_ok h
  have hJ := hI.and ((hP.mapStable_cap
    (c.setMapped (toKernelV c.getAddress)).setRoot).spaceRule hP o.addr U)
  have hI₃ := hroot s o c p hfresh hk hfor hslot hnone hs
  obtain ⟨hI₄, hroom⟩ :=
    hJ.mapSelf hframe hU.pages hU.zero ⟨hI₃, hP.firstRoot hfresh hk hfor⟩ hself
  exact ⟨hI₄, hframe, hroom⟩

theorem SpaceRule.createRootSpaces {P : CapProp} {I₁ : KState → Prop} {I : Nat → KState → Prop}
    {U : Nat → Prop} {mem : RootServerMemory} (hI : SpaceRule cfg mem.vspace U (I mem.vspace))
    (hP : CapRule P) (hcnode : FirstCNode cfg s I₁) (hroot : FirstRoot cfg I₁ I) {image : Image}
    {m : ResourceManager} {r : RootSpaces} (hU : image.Within cfg U)
    (h : createRootSpaces cfg image mem m s = .ok r s') :
    (I mem.vspace s' ∧ s'.HasPage ∧ s'.isObject .page mem.bootFrame = true) ∧
      P s'.objects s'.rooted r.rootCnodeCap ∧ P s'.objects s'.rooted r.vspaceCap ∧
      P s'.objects s'.rooted r.ipcPageCap := by
  simp only [Zoeax.createRootSpaces, bind_ok, liftExcept_ok, arith_ok, pure_ok] at h
  obtain ⟨cnodeCap, s₁, hcreate, ⟨vspaceCap, em⟩, s₂, hvspace, ⟨ipcCap, m₁⟩, s₃, hipc, ipcVaddr, _,
    ⟨hvaddr, rfl⟩, ⟨infoCap, m₂⟩, s₄, hinfo, rfl, rfl⟩ := h
  dsimp only at hipc hvaddr hinfo
  obtain ⟨o, p, hk, hfresh, hfor, hslot, hnone, rfl⟩ := createRootCnode_ok hcreate
  -- the capabilities made so far keep `P`
  have hcapS (c : CapabilityData) : SpaceRule cfg mem.vspace U fun s => P s.objects s.rooted c :=
    (hP.mapStable_cap c).spaceRule hP mem.vspace U
  have hroot₁ : FirstRoot cfg (fun s => I₁ s ∧ P s.objects s.rooted cnodeCap)
      fun root s => I root s ∧ P s.objects s.rooted cnodeCap := by
    intro s o c p ho hk hc hp hn hs
    refine ⟨hroot s o c p ho hk hc hp hn hs.1, hP.mono ?_ ?_ hs.2⟩
    · show s.objects ⊆ (s.born o).objects
      rw [objects_born]
      exact List.subset_cons_self ..
    · show s.rooted ⊆ o.addr :: (s.born o).rooted
      rw [rooted_born]
      exact List.subset_cons_self ..
  have hK₁ := hI.and (hcapS cnodeCap)
  have hK₂ := hK₁.and (hcapS vspaceCap)
  have hK₃ := hK₂.and (hcapS ipcCap)
  obtain ⟨h₂, hframe, hroom⟩ :=
    SpaceRule.createAddressSpace (I := fun root s => I root s ∧ P s.objects s.rooted cnodeCap)
      hK₁ hP hroot₁ hU
      ⟨hcnode o cnodeCap p hk hfresh hfor hslot hnone, hP.fresh (List.mem_cons_self ..) hfor⟩
        hvspace
  obtain ⟨h₃, -, _, c, v, hnew, -, rfl⟩ := hK₂.createFrame hframe hroom.next (by decide) h₂ hipc
  obtain ⟨⟨⟨⟨hI₄, hcap₁⟩, hcap₂⟩, hcap₃⟩, hpage, o', _, _, hnew', haddr, -⟩ :=
    hK₃.createFrame hframe (fun v hv => hroom.last ipcVaddr v hvaddr hv) (by decide)
      ⟨h₃, hnew.capRule hP v⟩ hinfo
  exact ⟨⟨hI₄, hpage, KState.isObject_iff.2 ⟨o', hnew'.live, hnew'.kind, haddr⟩⟩, hcap₁, hcap₂,
    hcap₃⟩

theorem CapStable.firstCNode {P : CapProp} {I : KState → Prop} (hI : CapStable cfg P I)
    (hP : CapRule P) (hs : I s) : FirstCNode cfg s I := fun _ c p hk ho hc _ _ =>
  hI.new _ p c (hP.fresh (List.mem_cons_self ..) hc) (hI.create ho (.inl hk) hs)

theorem MapStable.firstRoot {P : CapProp} {I : KState → Prop} (hI : MapStable cfg P I)
    (hP : CapRule P) : FirstRoot cfg I fun _ => I := by
  intro s o c p ho hk hc _ _ hs
  refine hI.new _ p _ (hP.firstRoot ho hk hc) ?_
  have h := hI.root _ o.addr (hI.mem _
    ((s.born o).copyMem o.addr (imagePhys cfg.kernelVmRoot) pageSize).mem (hI.born s o ho hs))
  exact h

theorem MapStable.createRootSpaces {P : CapProp} {I : KState → Prop} (hI : MapStable cfg P I)
    (hP : CapRule P) {image : Image} {mem : RootServerMemory} {m : ResourceManager} {r : RootSpaces}
    (hs : I s) (h : createRootSpaces cfg image mem m s = .ok r s') : I s' :=
  (SpaceRule.createRootSpaces (hI.spaceRule hP _ _) hP (hI.firstCNode hP hs) (hI.firstRoot hP)
    image.within_trivial h).1.1

/-! ## The first threads -/

theorem toKernelV_freeRamEnd (cfg : Config) :
    toKernelV cfg.freeRamEnd = cfg.freeRamEnd + kernelVAddrPfx := by
  have := cfg.freeRamEnd_le
  rw [directMapEnd] at this
  exact toKernelV_of_lt (by omega)

theorem toKernelV_freeRamEnd_lt (cfg : Config) : toKernelV cfg.freeRamEnd < 2 ^ 64 := by
  have := cfg.freeRamEnd_le
  rw [directMapEnd] at this
  rw [toKernelV_freeRamEnd, kernelVAddrPfx]
  omega

/-- The memory of objects is below the idle thread and the local variables. -/
theorem Object.start_lt {o : Object} (h : o.admissible cfg = true) :
    o.start = o.addr + kernelVAddrPfx ∧ o.start + o.size ≤ toKernelV cfg.freeRamEnd := by
  obtain ⟨-, hend, hlt, -⟩ := lt_of_admissible h
  rw [start, toKernelV_of_lt hlt, toKernelV_freeRamEnd]
  omega

theorem Object.tcb_size {o : Object} (hsize : o.kind.getObjectSize cfg o.userSize = .ok o.size)
    (hk : o.kind = .tcb) : o.size = cfg.tcbSize := by
  rw [hk] at hsize
  exact (Except.ok.inj hsize).symm

theorem Object.start_ne_idle {o : Object} (hadm : o.admissible cfg = true)
    (hsize : o.kind.getObjectSize cfg o.userSize = .ok o.size) (hk : o.kind = .tcb) :
    o.start ≠ cfg.idleThread := by
  have hpos := cfg.tcbSize_pos
  have htcb := tcb_size hsize hk
  have hend := (start_lt hadm).2
  have := cfg.idleThread_apart
  omega

theorem Object.Fresh.tcb_size {o : Object} (h : o.Fresh cfg s) (hk : o.kind = .tcb) :
    o.size = cfg.tcbSize :=
  Object.tcb_size h.size hk

/-- A new thread is none of the live ones. -/
theorem Object.Fresh.start_ne {o o' : Object} (h : o.Fresh cfg s) (hk : o.kind = .tcb)
    (ho' : o' ∈ s.objects) (hadm : o'.admissible cfg = true) (hsize : o'.size = cfg.tcbSize) :
    o'.start ≠ o.start := by
  have hpos := cfg.tcbSize_pos
  have hapart := h.apart o' ho'
  have h₀ := (start_lt hadm).1
  have h₁ := (start_lt h.admissible).1
  have := h.tcb_size hk
  simp only [Object.overlaps, Bool.and_eq_false_iff, decide_eq_false_iff_not] at hapart
  omega

theorem Object.Fresh.start_ne_idle {o : Object} (h : o.Fresh cfg s) (hk : o.kind = .tcb) :
    o.start ≠ cfg.idleThread :=
  Object.start_ne_idle h.admissible h.size hk

/-- Survives what boot writes to the first thread. -/
structure TcbStable (cfg : Config) (P : CapProp) (I : KState → Prop) : Prop
    extends CapStable cfg P I where
  regs : ∀ s p t r, p ≠ cfg.idleThread → s.tcbs p = some t →
    r.sstatus = t.registers.sstatus ∨ r.sstatus = sstatusSpie → I s →
    I (s.setTcb p { t with registers := r })
  refill : ∀ s p t slot q, s.tcbs p = some t → I s →
    I (s.setTcb p (TcbSlot.set slot t (s.slots q)))

/-- Survives all that boot writes, whatever is mapped. -/
structure BootStable (cfg : Config) (P : CapProp) (I : KState → Prop) : Prop
    extends MapStable cfg P I, TcbStable cfg P I

/-- The same as `TcbStable`, by the step: links, local variables, capabilities in empty slots that
are not for pages, the thread control block, and what is written to it. -/
structure PlaceRule (cfg : Config) (P : CapProp) (I : KState → Prop) : Prop where
  insert : ∀ site parent, Keeps I (insertAfter cfg (cfg.localAddr site) parent)
  newLocal : ∀ s site cap, P s.objects s.rooted cap → I s →
    I (s.setSlot (cfg.localAddr site) (some (.newWithRawcap cap)))
  place : ∀ s p cap, P s.objects s.rooted cap → cap.getCapType ≠ .ok .page → s.isSlot p = true →
    s.slots p = none → I s → I (s.setSlot p (some (.newWithRawcap cap)))
  born : ∀ s o, Object.Fresh cfg s o → o.kind = .tcb → I s → I (s.born o)
  regs : ∀ s p t r, p ≠ cfg.idleThread → s.tcbs p = some t →
    r.sstatus = t.registers.sstatus ∨ r.sstatus = sstatusSpie → I s →
    I (s.setTcb p { t with registers := r })
  refill : ∀ s p t slot q, s.tcbs p = some t → I s →
    I (s.setTcb p (TcbSlot.set slot t (s.slots q)))

theorem TcbStable.rule {P : CapProp} {I : KState → Prop} (hI : TcbStable cfg P I) :
    PlaceRule cfg P I where
  insert := hI.insert
  newLocal s _ cap hcap hs := hI.new s _ cap hcap hs
  place s p cap hcap _ _ _ hs := hI.new s p cap hcap hs
  born s o ho _ hs := hI.born s o ho hs
  regs := hI.regs
  refill := hI.refill

theorem TcbStable.and {P : CapProp} {I J : KState → Prop} (hI : TcbStable cfg P I)
    (hJ : TcbStable cfg P J) : TcbStable cfg P fun s => I s ∧ J s where
  toCapStable := hI.toCapStable.and hJ.toCapStable
  regs s p t r hp ht hr hs := ⟨hI.regs s p t r hp ht hr hs.1, hJ.regs s p t r hp ht hr hs.2⟩
  refill s p t slot q ht hs := ⟨hI.refill s p t slot q ht hs.1, hJ.refill s p t slot q ht hs.2⟩

theorem PlaceRule.and {P : CapProp} {I J : KState → Prop} (hI : PlaceRule cfg P I)
    (hJ : PlaceRule cfg P J) : PlaceRule cfg P fun s => I s ∧ J s where
  insert site parent := (hI.insert site parent).and (hJ.insert site parent)
  newLocal s site cap hc hs := ⟨hI.newLocal s site cap hc hs.1, hJ.newLocal s site cap hc hs.2⟩
  place s p cap hc hk hp hn hs :=
    ⟨hI.place s p cap hc hk hp hn hs.1, hJ.place s p cap hc hk hp hn hs.2⟩
  born s o ho hk hs := ⟨hI.born s o ho hk hs.1, hJ.born s o ho hk hs.2⟩
  regs s p t r hp ht hr hs := ⟨hI.regs s p t r hp ht hr hs.1, hJ.regs s p t r hp ht hr hs.2⟩
  refill s p t slot q ht hs := ⟨hI.refill s p t slot q ht hs.1, hJ.refill s p t slot q ht hs.2⟩

theorem BootStable.and {P : CapProp} {I J : KState → Prop} (hI : BootStable cfg P I)
    (hJ : BootStable cfg P J) : BootStable cfg P fun s => I s ∧ J s where
  toMapStable := hI.toMapStable.and hJ.toMapStable
  regs := (hI.toTcbStable.and hJ.toTcbStable).regs
  refill := (hI.toTcbStable.and hJ.toTcbStable).refill

theorem MapStable.placeRule {P : CapProp} {I : KState → Prop} (hI : MapStable cfg P I)
    (htcb : ∀ s p t, I s → I (s.setTcb p t)) : PlaceRule cfg P I :=
  TcbStable.rule { hI.toCapStable with
    regs := fun s p _ _ _ _ _ hs => htcb s p _ hs
    refill := fun s p _ _ _ _ hs => htcb s p _ hs }

theorem holdRootCap_ok {slot : TcbSlot} {site : Site} {thread idx : Nat}
    {cnodeCap cap : CapabilityData} {u : Unit}
    (h : holdRootCap cfg slot site thread cnodeCap cap idx s = .ok u s') :
    ∃ parent s₁ t,
      s.isSlot parent = true ∧
      insertAfter cfg (cfg.localAddr site) parent
        (s.setSlot (cfg.localAddr site) (some (.newWithRawcap cap))) = .ok () s₁ ∧
      s₁.tcbs thread = some t ∧
      s' = s₁.setTcb thread (slot.set t (s₁.slots (cfg.localAddr site))) := by
  simp only [holdRootCap, holdEntry, holdLocal, newLocal, bind_ok, unwrap_ok, lift_ok, modify_ok,
    pure_ok, getTcb_ok, occupied_ok] at h
  obtain ⟨parent, _, ⟨-, rfl⟩, _, _, ⟨⟨hparent, -⟩, rfl⟩, _, _, ⟨_, _, rfl, rfl, rfl⟩, _, s₁, hins,
    t, _, ⟨ht, rfl⟩, rfl⟩ := h
  exact ⟨parent, s₁, t, hparent, hins, ht, rfl⟩

/-- The loop over the untyped capabilities puts them into empty slots. -/
theorem insertUntyped_keeps {I : KState → Prop}
    (hI : ∀ s p cap, CapabilityData.getCapType cap = .ok .untyped → s.isSlot p = true →
      s.slots p = none → I s → I (s.setSlot p (some (.newWithRawcap cap))))
    {cnodeCap : CapabilityData} {n : Nat} {g : UntypedCapGenerator} {info info' : BootInfo}
    (hs : I s) (h : insertUntyped cfg cnodeCap n g info s = .ok info' s') : I s' := by
  induction n generalizing g info s with
  | zero =>
    simp only [insertUntyped, bind_ok, liftExcept_ok] at h
    obtain ⟨o, _, ⟨-, rfl⟩, h⟩ := h
    cases o with
    | none =>
      obtain ⟨-, rfl⟩ := pure_ok.1 h
      exact hs
    | some _ => exact (throw_ok.1 h).elim
  | succ n ih =>
    simp only [insertUntyped, bind_ok, liftExcept_ok] at h
    obtain ⟨o, _, ⟨hnext, rfl⟩, h⟩ := h
    rcases o with _ | ⟨idx, cap, g'⟩
    · obtain ⟨-, rfl⟩ := pure_ok.1 h
      exact hs
    · obtain ⟨_, s₁, hwrite, h⟩ := bind_ok.1 h
      obtain ⟨p, -, hslot, hnone, rfl⟩ := writeSlot_ok (unwrap_ok.1 hwrite)
      exact ih (hI _ p cap (untypedNext_capType hnext) hslot hnone hs) h

namespace PlaceRule

variable {P : CapProp} {I : KState → Prop} (hI : PlaceRule cfg P I) (hP : CapRule P)

include hI

theorem holdRootCap {slot : TcbSlot} {site : Site} {thread idx : Nat}
    {cnodeCap cap : CapabilityData} {u : Unit} (hcap : P s.objects s.rooted cap) (hs : I s)
    (h : holdRootCap cfg slot site thread cnodeCap cap idx s = .ok u s') : I s' := by
  obtain ⟨parent, s₁, t, -, hins, ht, rfl⟩ := holdRootCap_ok h
  exact hI.refill _ _ _ _ _ ht ((hI.insert _ _).ok (hI.newLocal _ _ _ hcap hs) hins)

/-- The thread control block of the root server, with its first registers. -/
theorem createTcb {tcb : Nat} {u : Unit} {t : ThreadInfo} (hs : I s)
    (hobj : bootObject cfg .tcb tcb 0 s = .ok u s')
    (ht : t = { registers := t.registers }) (hr : t.registers.sstatus = sstatusSpie) :
    I (s'.setTcb (toKernelV tcb) t) := by
  obtain ⟨size, hfresh, rfl⟩ := bootObject_ok hobj
  have hborn := hI.born _ _ hfresh rfl hs
  have h := hI.regs _ (toKernelV tcb) {} t.registers (hfresh.start_ne_idle rfl)
    (Function.update_self ..) (.inr hr) hborn
  rw [ht]
  simpa [KState.born, KState.setTcb, Object.start, Function.update_idem] using h

include hP

theorem createRootTcb {tcb : Nat} {cnodeCap vspaceCap ipcBufCap cap : CapabilityData}
    {entry : UInt64} (hs : I s) (hcnode : P s.objects s.rooted cnodeCap)
    (hvspace : P s.objects s.rooted vspaceCap) (hipc : P s.objects s.rooted ipcBufCap)
    (h : createRootTcb cfg tcb cnodeCap vspaceCap ipcBufCap entry s = .ok cap s') :
    I s' ∧ TCBCap.getTcb cap ≠ cfg.idleThread := by
  simp only [Zoeax.createRootTcb, bind_ok, liftExcept_ok, pure_ok, modify_ok] at h
  obtain ⟨_, s₀, hobj, _, _, rfl, _, s₁, hhold₁, _, s₂, hhold₂, _, s₃, hhold₃, cap', _,
    ⟨hinit, rfl⟩, _, _, hwrite, rfl, rfl⟩ := h
  obtain ⟨size, hfresh, hs₀⟩ := bootObject_ok hobj
  have hcap : cap'.FreshFor ⟨.tcb, tcb, 0, size⟩ :=
    init_fresh (Object.lt_of_admissible hfresh.admissible).2.2.1 (by decide) hinit
  have hcapS (c : CapabilityData) : PlaceRule cfg P fun s => P s.objects s.rooted c :=
    (hP.mapStable_cap c).placeRule fun _ _ _ hs => hs
  have hJ := (hI.and (hcapS vspaceCap)).and ((hcapS ipcBufCap).and (hcapS cap'))
  have hgrow : ∀ {c}, P s.objects s.rooted c → P s₀.objects s₀.rooted c := by
    intro c hc
    rw [hs₀]
    exact hP.mono (List.subset_cons_self ..) (List.Subset.refl _) hc
  have hPcap : P s₀.objects s₀.rooted cap' := by
    rw [hs₀]
    exact hP.fresh (List.mem_cons_self ..) hcap
  have hI₀ := hI.createTcb (t := { registers := { sstatus := sstatusSpie, sepc := entry } })
    hs hobj rfl rfl
  have h₁ := hJ.holdRootCap (s := s₀.setTcb _ _) (hgrow hcnode)
    ⟨⟨hI₀, hgrow hvspace⟩, hgrow hipc, hPcap⟩ hhold₁
  have h₂ := hJ.holdRootCap h₁.1.2 h₁ hhold₂
  have h₃ := hJ.holdRootCap h₂.2.1 h₂ hhold₃
  obtain ⟨p, -, hslot, hnone, rfl⟩ := writeSlot_ok (unwrap_ok.1 hwrite)
  refine ⟨hI.place _ p _ h₃.2.2 ?_ hslot hnone h₃.1.1, ?_⟩
  · rw [hcap.capType]
    nofun
  · rw [TCBCap.getTcb, hcap.address]
    exact hfresh.start_ne_idle rfl

theorem createRootThread {image : Image} {mem : RootServerMemory} {r : RootSpaces}
    {rootTcb : CapabilityData} {info : BootInfo}
    (hinfo : ∀ s info, I s → I (s.writeBootInfo cfg mem.bootFrame info)) (hs : I s)
    (hcnode : P s.objects s.rooted r.rootCnodeCap) (hvspace : P s.objects s.rooted r.vspaceCap)
    (hipc : P s.objects s.rooted r.ipcPageCap)
    (h : createRootThread cfg image mem r s = .ok (rootTcb, info) s') :
    I s' ∧ TCBCap.getTcb rootTcb ≠ cfg.idleThread := by
  simp only [Zoeax.createRootThread, bind_ok, liftExcept_ok, pure_ok, modify_ok] at h
  obtain ⟨tcbCap, s₁, htcb, info', s₂, huntyped, _, _, rfl, a0, _, ⟨-, rfl⟩, _, _, hupdate, hret,
    rfl⟩ := h
  obtain ⟨rfl, rfl⟩ := Prod.mk.inj hret
  obtain ⟨hI₁, hne⟩ := hI.createRootTcb hP hs hcnode hvspace hipc htcb
  have hI₂ := insertUntyped_keeps (fun s p cap hk hslot hnone hs =>
    hI.place s p cap (hP.untyped hk) (by rw [hk]; nofun) hslot hnone hs) hI₁ huntyped
  obtain ⟨t, ht, rfl⟩ := updateTcb_ok.1 hupdate
  exact ⟨hI.regs _ _ t _ hne ht (.inl rfl) (hinfo _ _ hI₂), hne⟩

end PlaceRule

theorem resume_ok {p : Nat} {u : Unit} : resume p s = .ok u s' ↔
    ∃ t, s.tcbs p = some t ∧ s' = { s.setTcb p t.resume with runqueue := s.runqueue ++ [p] } := by
  simp only [resume, push, bind_ok, updateTcb_ok, modify_ok]
  constructor
  · rintro ⟨_, _, ⟨t, ht, rfl⟩, rfl⟩
    exact ⟨t, ht, rfl⟩
  · rintro ⟨t, ht, rfl⟩
    exact ⟨(), _, ⟨t, ht, rfl⟩, rfl⟩

theorem createIdleThread_ok {u : Unit} :
    createIdleThread cfg s = .ok u s' ↔ ∃ t, s.tcbs cfg.idleThread = some t ∧
      s' = { s.setTcb cfg.idleThread { t with
          registers := { t.registers with
            sepc := cfg.idleEntry, sstatus := sstatusSpp ||| sstatusSpie,
            sp := cfg.stackTop } } with
        current := cfg.idleThread, curRegBase := cfg.idleThread } := by
  simp only [createIdleThread, bind_ok, updateTcb_ok, modify_ok]
  constructor
  · rintro ⟨_, _, ⟨t, ht, rfl⟩, rfl⟩
    exact ⟨t, ht, rfl⟩
  · rintro ⟨t, ht, rfl⟩
    exact ⟨(), _, ⟨t, ht, rfl⟩, rfl⟩

/-- The state after `kernel_vm_init`. -/
def KState.afterVmInit (cfg : Config) : KState :=
  { KState.initial cfg with
    mem := kernelVmWords cfg fun _ => 0
    satp := imagePhys cfg.kernelVmRoot }

/-- Boot, taken apart: `s₁` is the state before the idle thread, `s₂` after it, `s₃` when the root
thread is made runnable. -/
theorem boot_cases {image : Image} (h : Boot cfg image s) :
    ∃ mem m r rootTcb info s₁ s₂ s₃ s₄,
      createRootSpaces cfg image mem m (.afterVmInit cfg) = .ok r s₁ ∧
      createIdleThread cfg s₁ = .ok () s₂ ∧
      createRootThread cfg image mem r s₂ = .ok (rootTcb, info) s₃ ∧
      resume (TCBCap.getTcb rootTcb) s₃ = .ok () s₄ ∧
      schedule cfg { s₄ with requested := true } = .ok () s := by
  obtain ⟨info, h⟩ := h
  simp only [initKernel, kernelVmInit, createInitialThread, TCBCap.makeRunnable, requireSchedule,
    bind_ok, liftExcept_ok, modify_ok, pure_ok] at h
  obtain ⟨_, _, ⟨-, rfl⟩, _, _, rfl, ⟨mem, m⟩, _, ⟨-, rfl⟩, info', _, ⟨r, s₁, hspaces, _, s₂, hidle,
    ⟨rootTcb, info''⟩, s₃, hroot, _, s₄, hres, rfl, rfl⟩, _, _, rfl, _, _, hsched, rfl, rfl⟩ := h
  exact ⟨mem, m, r, rootTcb, _, s₁, s₂, s₃, s₄, hspaces, hidle, hroot, hres, hsched⟩

/-- The end of boot: the root thread is made runnable, and the scheduler takes it. -/
theorem ThreadStable.start {I : KState → Prop} (hI : ThreadStable I) {thread : Nat} {s₃ s₄ : KState}
    (hs : I s₃) (hres : resume thread s₃ = .ok () s₄)
    (hsched : Zoeax.schedule cfg { s₄ with requested := true } = .ok () s) : I s :=
  hI.schedule.ok (hI.request _ _ ((hI.steady.resume _).ok hs hres)) hsched

/-- The root CNode leads to `I₁`, the first root to `I` for the rest of the address space,
`create_idle_thread` to `J`, and the root thread keeps `J`, up to the point where it is made
runnable. -/
theorem SpaceRule.boot {P : CapProp} {I₁ J : KState → Prop} {I : Nat → KState → Prop}
    {U : Nat → Prop} (hI : ∀ root, SpaceRule cfg root U (I root)) (hJ : PlaceRule cfg P J)
    (hP : CapRule P) (hcnode : FirstCNode cfg (.afterVmInit cfg) I₁) (hroot : FirstRoot cfg I₁ I)
    (hidle : ∀ root s s' u, I root s → s.HasPage → createIdleThread cfg s = .ok u s' → J s')
    (hinfo : ∀ s frame info, s.isObject .page frame = true → J s →
      J (s.writeBootInfo cfg frame info))
    {image : Image} (hU : image.Within cfg U) (h : Boot cfg image s) :
    ∃ thread s₃ s₄, thread ≠ cfg.idleThread ∧ J s₃ ∧ resume thread s₃ = .ok () s₄ ∧
      schedule cfg { s₄ with requested := true } = .ok () s := by
  obtain ⟨mem, m, r, rootTcb, info, s₁, s₂, s₃, s₄, hspaces, hidle', hthread, hres, hsched⟩ :=
    boot_cases h
  obtain ⟨⟨hI₁, hpage, hlive⟩, hcap₁, hcap₂, hcap₃⟩ :=
    SpaceRule.createRootSpaces (hI mem.vspace) hP hcnode hroot hU hspaces
  have hJ₂ := hidle _ _ _ _ hI₁ hpage hidle'
  obtain ⟨t, -, hs₂⟩ := createIdleThread_ok.1 hidle'
  have hlogs : s₂.objects = s₁.objects ∧ s₂.rooted = s₁.rooted := by
    rw [hs₂]
    exact ⟨rfl, rfl⟩
  rw [KState.isObject] at hlive
  rw [← hlogs.1] at hcap₁ hcap₂ hcap₃ hlive
  rw [← hlogs.2] at hcap₁ hcap₂ hcap₃
  have hK := hJ.and ((isObject_mapStable .page mem.bootFrame).placeRule fun _ _ _ hs => hs)
  obtain ⟨hJ₃, hne⟩ := hK.createRootThread hP (fun s info hs => ⟨hinfo s _ info hs.2 hs.1, hs.2⟩)
    ⟨hJ₂, hlive⟩ hcap₁ hcap₂ hcap₃ hthread
  exact ⟨_, s₃, s₄, hne, hJ₃.1, hres, hsched⟩

/-- The same for invariants that do not look at the slots. -/
theorem CapStable.boot {P : CapProp} {I₀ J : KState → Prop} {I : Nat → KState → Prop}
    {U : Nat → Prop} (hI₀ : CapStable cfg P I₀) (hI : ∀ root, SpaceStable cfg P root U (I root))
    (hJ : TcbStable cfg P J) (hP : CapRule P)
    (hroot : ∀ s o, o.Fresh cfg s → o.kind = .pageTable → I₀ s →
      I o.addr ((s.born o).madeRoot cfg o.addr))
    (hidle : ∀ root s s' u, I root s → createIdleThread cfg s = .ok u s' → J s')
    (hinfo : ∀ s frame info, s.isObject .page frame = true → J s →
      J (s.writeBootInfo cfg frame info))
    (hinit : I₀ (.afterVmInit cfg)) {image : Image} (hU : image.Within cfg U)
    (h : Boot cfg image s) :
    ∃ thread s₃ s₄, thread ≠ cfg.idleThread ∧ J s₃ ∧ resume thread s₃ = .ok () s₄ ∧
      schedule cfg { s₄ with requested := true } = .ok () s :=
  SpaceRule.boot (fun root => (hI root).rule hP) hJ.rule hP (hI₀.firstCNode hP hinit)
    (fun _ o _ p ho hk hc _ _ hs => (hI o.addr).new _ p _ (hP.firstRoot ho hk hc)
      (hroot _ o ho hk hs))
    (fun root s s' u hs _ => hidle root s s' u hs) hinfo hU h

/-- The same for invariants that do not look at the memory of pages and page tables. -/
theorem MapStable.boot {P : CapProp} {I J : KState → Prop} (hI : MapStable cfg P I)
    (hJ : BootStable cfg P J) (hP : CapRule P)
    (hidle : ∀ s s' u, I s → createIdleThread cfg s = .ok u s' → J s')
    (hinit : I (.afterVmInit cfg)) {image : Image} (h : Boot cfg image s) :
    ∃ thread s₃ s₄, thread ≠ cfg.idleThread ∧ J s₃ ∧ resume thread s₃ = .ok () s₄ ∧
      schedule cfg { s₄ with requested := true } = .ok () s :=
  SpaceRule.boot (fun root => hI.spaceRule hP root _) hJ.toTcbStable.rule hP
    (hI.firstCNode hP hinit) (hI.firstRoot hP) (fun _ s s' u hs _ => hidle s s' u hs)
    (fun s _ _ _ hs => hJ.mem s _ hs) image.within_trivial h

/-- **An invariant of all writes holds after boot**, if it holds before and `create_idle_thread`
keeps it. -/
theorem BootStable.boot {P : CapProp} {I : KState → Prop} (hI : BootStable cfg P I)
    (hT : ThreadStable I) (hP : CapRule P)
    (hidle : ∀ s s' u, I s → createIdleThread cfg s = .ok u s' → I s')
    (hinit : I (.initial cfg)) {image : Image} (h : Boot cfg image s) : I s := by
  have hI₀ :=
    hT.vspace _ (imagePhys cfg.kernelVmRoot) (hI.mem _ (kernelVmWords cfg fun _ => 0) hinit)
  obtain ⟨thread, s₃, s₄, -, hI₃, hres, hsched⟩ := hI.toMapStable.boot hI hP hidle hI₀ h
  exact hT.start hI₃ hres hsched

theorem CapRule.bootStable {P : CapProp} (hP : CapRule P) : BootStable cfg P (CapsAll P) where
  toMapStable := hP.mapStable cfg
  regs _ _ _ r _ ht _ hs := hs.setRegisters ht r
  refill s p t slot q ht hs := hs.setTcb fun slot' e he => by
    rw [TcbSlot.get_set] at he
    split at he
    · exact hs.of_slots he
    · exact hs.held ht he

/-- Every capability has `P` after boot. -/
theorem CapsAll.boot {P : CapProp} (hP : CapRule P) {image : Image} (h : Boot cfg image s) :
    CapsAll P s := by
  refine hP.bootStable.boot (capsAll_threadStable P) hP ?_ ?_ h
  · intro s s' u hs hidle
    obtain ⟨t, ht, rfl⟩ := createIdleThread_ok.1 hidle
    exact hs.setRegisters ht _
  · rintro c (⟨p, hp⟩ | ⟨p, t, slot, e, ht, he, -⟩)
    · cases hp
    · simp only [KState.initial, Function.update_apply] at ht
      split at ht
      · obtain rfl := Option.some.inj ht
        cases slot <;> cases he
      · cases ht

theorem CapsAll.of_run {P : CapProp} (hP : CapRule P) {image : Image} {C : InvokeCond} {s₀ : KState}
    (hmint : ∀ invLabel reg u inv, C invLabel reg u inv → MintKeeps cfg P invLabel reg u inv)
    (hboot : Boot cfg image s₀) (hrun : Run cfg C s₀ s) : CapsAll P s :=
  run_invariant hrun (CapsAll.boot hP hboot) fun _ _ hu ⟨_, hC, hstep⟩ =>
    hu.step hP (fun _ _ _ _ hinv => hmint _ _ _ _ (hC _ _ _ _ hinv)) hstep

end Zoeax
