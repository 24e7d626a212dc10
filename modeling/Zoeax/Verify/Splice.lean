import Zoeax.Lib.Chain
import Zoeax.Verify.CNodeOps

/-!
# List surgery on entries that stay in place

`Verify.Derivation` shows that the derivation list is never intact, because entries are linked in
local variables and moved away. The list operations themselves are right: on a list of entries at
kernel addresses, `CNodeEntry::insert` puts a new entry right after its parent and
`CNodeEntry::replace` puts it in the place of the old one (`splice_correct`).

The links that the kernel reads (`KState.links`) are a table of doubly linked lists, and `set_node`,
`insert` and `replace` act on it as the operations of `Lib.Chain` (`Does`). What they do to the
words that hold the links is in `Relinks`.
-/

namespace Zoeax

open Lib Exec

variable {cfg : Config} {s s' s'' : KState}

/-! ## The words of the links -/

/-- The word that holds a link of the entry at `p`. -/
def KState.linkWord (s : KState) (p : Nat) (isNext : Bool) : Option UInt64 :=
  (s.slots p).map fun e => if isNext then e.mdb.next else e.mdb.prev

/-- The links as the kernel reads them. -/
def KState.links (s : KState) : Links Nat := fun p isNext =>
  (s.linkWord p isNext).bind ManagementDB.unpack

/-- An entry at a kernel address, in a slot or in a local variable. -/
structure KState.EntryAt (cfg : Config) (s : KState) (p : Nat) : Prop where
  pfx_le : kernelVAddrPfx ≤ p
  lt : p < 2 ^ 64
  linkable : s.Linkable cfg p
  occupied : ∃ e, s.slots p = some e

/-- Only links are written, of these only those in `W`, and the low 16 bits of the words are
kept. -/
structure Relinks (s s' : KState) (W : Nat → Bool → Prop) : Prop where
  sameCaps : SameCaps s s'
  low : ∀ p d, (s'.linkWord p d).map (· &&& 0xffff) = (s.linkWord p d).map (· &&& 0xffff)
  kept : ∀ p d, ¬W p d → s'.linkWord p d = s.linkWord p d

theorem getLink_eq {p : Nat} (hp : s.EntryAt cfg p) (isNext : Bool) :
    getLink p isNext s = .ok (s.links p isNext) := by
  obtain ⟨e, he⟩ := hp.occupied
  rw [getLink_of_slot he, KState.links, KState.linkWord, he]
  rfl

theorem pack_and_low (old : UInt64) (node : Nat) :
    ManagementDB.pack old node &&& 0xffff = old &&& 0xffff := by
  have hlow : ((node <<< 16) % 2 ^ 64) % 2 ^ 16 = 0 := by
    rw [Nat.shiftLeft_eq]
    omega
  rw [ManagementDB.pack, ← UInt64.toNat_inj]
  simp only [UInt64.toNat_and, UInt64.toNat_or, UInt64.toNat_ofNat',
    show (0xffff : UInt64).toNat = 2 ^ 16 - 1 by rfl, Nat.and_two_pow_sub_one_eq_mod,
    Nat.or_mod_two_pow, hlow, Nat.or_zero, Nat.mod_mod]

theorem linkWord_relink (p q n : Nat) (d t : Bool) :
    (s.relink p (·.setNode d n)).linkWord q t =
      if q = p ∧ t = d then (s.linkWord q t).map (ManagementDB.pack · n) else s.linkWord q t := by
  by_cases hq : q = p
  · subst hq
    simp only [KState.linkWord, KState.relink, KState.slots_setSlot_self, Option.map_map]
    cases s.slots q with
    | none => simp
    | some e => cases d <;> cases t <;> simp [ManagementDB.setNode]
  · rw [KState.linkWord, KState.slots_relink_of_ne _ hq, if_neg fun h => hq h.1]
    rfl

/-- Writing a link is writing it in the table. -/
theorem links_relink {p n : Nat} (hp : s.EntryAt cfg p) (hle : kernelVAddrPfx ≤ n)
    (hlt : n < 2 ^ 64) (d : Bool) :
    (s.relink p (·.setNode d n)).links = s.links.set p d n := by
  funext q t
  rw [KState.links, linkWord_relink, Links.set]
  split
  · next h =>
    obtain ⟨e, he⟩ := hp.occupied
    rw [h.1, KState.linkWord, he]
    exact unpack_pack _ hle hlt
  · rfl

namespace Relinks

variable {W W' : Nat → Bool → Prop}

theorem refl (s : KState) : Relinks s s W := ⟨.rfl, fun _ _ => rfl, fun _ _ _ => rfl⟩

theorem mono (h : Relinks s s' W) (hW : ∀ p d, W p d → W' p d) : Relinks s s' W' :=
  ⟨h.sameCaps, h.low, fun p d hp => h.kept p d fun hp' => hp (hW p d hp')⟩

theorem trans (h : Relinks s s' W) (h' : Relinks s' s'' W) : Relinks s s'' W := by
  obtain ⟨⟨f, rfl⟩, hcap⟩ := h.sameCaps
  obtain ⟨⟨f', rfl⟩, hcap'⟩ := h'.sameCaps
  refine ⟨⟨⟨f', rfl⟩, fun p => (hcap' p).trans (hcap p)⟩, ?_, ?_⟩
  · intro p d
    exact (h'.low p d).trans (h.low p d)
  · intro p d hp
    exact (h'.kept p d hp).trans (h.kept p d hp)

theorem relink (s : KState) (p n : Nat) (d : Bool) :
    Relinks s (s.relink p (·.setNode d n)) fun q t => q = p ∧ t = d := by
  refine ⟨SameCaps.rfl.relink p _, ?_, ?_⟩
  · intro q t
    rw [linkWord_relink]
    split
    · rw [Option.map_map]
      exact congrArg (Option.map · _) (funext fun w => pack_and_low w n)
    · rfl
  · intro q t hq
    rw [linkWord_relink, if_neg hq]

/-- Entries stay entries. -/
theorem entryAt (h : Relinks s s' W) {p : Nat} (hp : s.EntryAt cfg p) : s'.EntryAt cfg p := by
  obtain ⟨⟨f, rfl⟩, hcap⟩ := h.sameCaps
  obtain ⟨e, he⟩ := hp.occupied
  refine ⟨hp.pfx_le, hp.lt, hp.linkable, ?_⟩
  have hcap : Option.map (·.cap) (f p) = some e.cap := by
    rw [← Option.map_some, ← he]
    exact hcap p
  obtain ⟨e', he', -⟩ := Option.map_eq_some_iff.1 hcap
  exact ⟨e', he'⟩

end Relinks

/-! ## The operations -/

/-- `act` succeeds in `s`, the table of links becomes `L`, and no word outside `W` is written. -/
def Does (act : KM Unit) (s : KState) (L : Links Nat) (W : Nat → Bool → Prop) : Prop :=
  ∃ s', act s = .ok () s' ∧ s'.links = L ∧ Relinks s s' W

namespace Does

variable {act act' : KM Unit} {L L' : Links Nat} {W W' : Nat → Bool → Prop} {a b e : Nat} {d : Bool}

theorem pure (s : KState) : Does (Pure.pure ()) s s.links W := ⟨s, rfl, rfl, .refl s⟩

theorem mono (h : Does act s L W) (hW : ∀ p d, W p d → W' p d) : Does act s L W' := by
  obtain ⟨s', hrun, hlinks, hre⟩ := h
  exact ⟨s', hrun, hlinks, hre.mono hW⟩

theorem bind (h : Does act s L W) (h' : ∀ s', s'.links = L → Relinks s s' W → Does act' s' L' W) :
    Does (act >>= fun _ => act') s L' W := by
  obtain ⟨s', hrun, hlinks, hre⟩ := h
  obtain ⟨s'', hrun', hlinks', hre'⟩ := h' s' hlinks hre
  exact ⟨s'', bind_ok.2 ⟨(), s', hrun, hrun'⟩, hlinks', hre.trans hre'⟩

theorem setNode (ha : s.EntryAt cfg a) (hb : s.EntryAt cfg b) :
    Does (setNode cfg a b d) s (s.links.join a b d) fun p t => p = a ∧ t = d ∨ p = b ∧ t = !d := by
  have hfirst := Relinks.relink s a b d
  have hb' := hfirst.entryAt hb
  refine ⟨_, setNode_of_linkable ha.linkable hb.linkable, ?_, ?_⟩
  · rw [links_relink hb' ha.pfx_le ha.lt, links_relink ha hb.pfx_le hb.lt]
    rfl
  · exact (hfirst.mono fun p t => .inl).trans ((Relinks.relink _ b a (!d)).mono fun p t => .inr)

theorem getLink {f : Option Nat → KM Unit} (ha : s.EntryAt cfg a)
    (h : Does (f (s.links a d)) s L W) : Does (liftM (getLink a d) >>= f) s L W := by
  obtain ⟨s', hrun, hlinks, hre⟩ := h
  exact ⟨s', (lift_bind_of_ok (getLink_eq ha d)).trans hrun, hlinks, hre⟩

/-- `CNodeEntry::insert`. -/
theorem insertAfter (he : s.EntryAt cfg e) (ha : s.EntryAt cfg a)
    (hn : ∀ n, s.links a true = some n → s.EntryAt cfg n) :
    Does (insertAfter cfg e a) s (s.links.insert e a) fun p t =>
      p = e ∨ p = a ∧ t = true ∨ s.links a true = some p ∧ t = false := by
  refine bind (L := (s.links a true).elim s.links fun n => s.links.join e n true)
    (getLink ha ?_) fun s' hlinks hre => ?_
  · cases hL : s.links a true with
    | none => exact pure s
    | some n =>
      refine (setNode he (hn n hL)).mono ?_
      rintro p t (⟨rfl, rfl⟩ | ⟨rfl, rfl⟩)
      · exact .inl rfl
      · exact .inr (.inr ⟨rfl, rfl⟩)
  · have hjoin := setNode (d := true) (hre.entryAt ha) (hre.entryAt he)
    rw [hlinks] at hjoin
    refine hjoin.mono ?_
    rintro p t (⟨rfl, rfl⟩ | ⟨rfl, rfl⟩)
    · exact .inr (.inl ⟨rfl, rfl⟩)
    · exact .inl rfl

/-- The two halves of `CNodeEntry::replace`. -/
theorem replaceSide (he : s.EntryAt cfg e) (ha : s.EntryAt cfg a)
    (hn : ∀ n, s.links a d = some n → s.EntryAt cfg n) :
    Does (if d then replaceNext cfg e a else replacePrev cfg e a) s (s.links.replaceSide e a d)
      fun p t => p = e ∨ s.links a d = some p ∧ t = !d := by
  have hboth : ∀ n, s.links a d = some n → Does
      (Zoeax.setNode cfg n e (!d) >>= fun _ => Zoeax.setNode cfg e n d) s
      ((s.links.join n e !d).join e n d) fun p t => p = e ∨ some n = some p ∧ t = !d := by
    intro n hL
    have hentry := hn n hL
    refine bind ((setNode hentry he).mono ?_) fun s' hlinks hre => ?_
    · rintro p t (⟨rfl, rfl⟩ | ⟨rfl, rfl⟩)
      · exact .inr ⟨rfl, rfl⟩
      · exact .inl rfl
    · have hjoin := setNode (d := d) (hre.entryAt he) (hre.entryAt hentry)
      rw [hlinks] at hjoin
      refine hjoin.mono ?_
      rintro p t (⟨rfl, rfl⟩ | ⟨rfl, rfl⟩)
      · exact .inl rfl
      · exact .inr ⟨rfl, rfl⟩
  rw [Links.replaceSide]
  cases d with
  | true =>
    refine getLink ha ?_
    cases hL : s.links a true with
    | none => exact pure s
    | some n => exact hboth n hL
  | false =>
    refine getLink ha ?_
    cases hL : s.links a false with
    | none => exact pure s
    | some n => exact hboth n hL

/-- `CNodeEntry::replace`. -/
theorem replaceEntry (he : s.EntryAt cfg e) (ha : s.EntryAt cfg a) (hae : a ≠ e)
    (hself : s.links a true ≠ some a) (hn : ∀ d n, s.links a d = some n → s.EntryAt cfg n) :
    Does (replaceEntry cfg e a) s (s.links.replace e a)
      fun p t => p = e ∨ s.links a (!t) = some p := by
  refine bind ((replaceSide (d := true) he ha (hn true)).mono ?_) fun s' hlinks hre => ?_
  · rintro p t (rfl | ⟨hp, rfl⟩)
    · exact .inl rfl
    · exact .inr hp
  · -- the first half has not touched the link that the second one follows
    have hprev : s'.links a false = s.links a false := by
      rw [hlinks, Links.replaceSide_of_ne hae, if_neg fun h => hself h.1]
    have hside := replaceSide (d := false) (hre.entryAt he) (hre.entryAt ha) fun n hL =>
      hre.entryAt (hn false n (hprev ▸ hL))
    rw [hprev, hlinks] at hside
    refine hside.mono ?_
    rintro p t (rfl | ⟨hp, rfl⟩)
    · exact .inl rfl
    · exact .inr hp

end Does

/-! ## Lists of entries -/

/-- The entries at `l` are a doubly linked list, as `get_next` and `get_prev` read it. -/
structure EntryList (cfg : Config) (s : KState) (l : List Nat) : Prop where
  nodup : l.Nodup
  entries : ∀ p ∈ l, s.EntryAt cfg p
  getNext : ∀ xs p ys, l = xs ++ p :: ys → getLink p true s = .ok ys.head?
  getPrev : ∀ xs p ys, l = xs ++ p :: ys → getLink p false s = .ok xs.getLast?

theorem entryList_iff {l : List Nat} :
    EntryList cfg s l ↔ (∀ p ∈ l, s.EntryAt cfg p) ∧ s.links.Chained l := by
  rw [Links.chained_iff]
  constructor
  · intro h
    refine ⟨h.entries, h.nodup, fun xs p ys heq => ?_⟩
    have hp := h.entries p (by simp [heq])
    have hnext := h.getNext xs p ys heq
    have hprev := h.getPrev xs p ys heq
    rw [getLink_eq hp] at hnext hprev
    exact ⟨Except.ok.inj hprev, Except.ok.inj hnext⟩
  · rintro ⟨hentries, hnodup, hlinks⟩
    refine ⟨hnodup, hentries, fun xs p ys heq => ?_, fun xs p ys heq => ?_⟩
    · rw [getLink_eq (hentries p (by simp [heq])), (hlinks xs p ys heq).2]
    · rw [getLink_eq (hentries p (by simp [heq])), (hlinks xs p ys heq).1]

/-- **List surgery**: for a list of entries, any entry `a` of it and a new entry `e` without links,
`e.insert(a)` succeeds and puts `e` right after `a`, and `e.replace(a)` succeeds and puts `e` in the
place of `a`. Apart from the words of `e`, only those of its new neighbours that lead to `e` are
written, and the low 16 bits of every word are kept. -/
theorem splice_correct {xs ys : List Nat} {a e : Nat} (h : EntryList cfg s (xs ++ a :: ys))
    (he : s.EntryAt cfg e) (hne : e ∉ xs ++ a :: ys) (hfree : ∀ d, getLink e d s = .ok none) :
    (∃ s', insertAfter cfg e a s = .ok () s' ∧ EntryList cfg s' (xs ++ a :: e :: ys) ∧
      Relinks s s' fun p isNext =>
        p = e ∨ p = a ∧ isNext = true ∨ ys.head? = some p ∧ isNext = false) ∧
    ∃ s', replaceEntry cfg e a s = .ok () s' ∧ EntryList cfg s' (xs ++ e :: ys) ∧
      Relinks s s' fun p isNext =>
        p = e ∨ xs.getLast? = some p ∧ isNext = true ∨ ys.head? = some p ∧ isNext = false := by
  obtain ⟨hentries, hchain⟩ := entryList_iff.1 h
  have ha : a ∈ xs ++ a :: ys := by simp
  have hfree' : ∀ d, s.links e d = none := by
    intro d
    have hd := hfree d
    rw [getLink_eq he] at hd
    exact Except.ok.inj hd
  have hlive : ∀ d n, s.links a d = some n → s.EntryAt cfg n := by
    intro d n hn
    exact hentries n (hchain.neighbour ha hn).1
  have hstay : ∀ {s' W}, Relinks s s' W → ∀ p, p = e ∨ p ∈ xs ++ a :: ys → s'.EntryAt cfg p := by
    rintro s' W hre p (rfl | hp)
    · exact hre.entryAt he
    · exact hre.entryAt (hentries p hp)
  constructor
  · obtain ⟨s', hrun, hlinks, hre⟩ := Does.insertAfter he (hentries a ha) (hlive true)
    refine ⟨s', hrun, entryList_iff.2 ⟨fun p hp => hstay hre p (by grind), ?_⟩, ?_⟩
    · rw [hlinks]
      exact hchain.insert hne hfree'
    · rwa [hchain.next_eq] at hre
  · have hae : a ≠ e := fun hae => hne (hae ▸ ha)
    have hself : s.links a true ≠ some a := fun hself => (hchain.neighbour ha hself).2.1 rfl
    obtain ⟨s', hrun, hlinks, hre⟩ := Does.replaceEntry he (hentries a ha) hae hself hlive
    refine ⟨s', hrun, entryList_iff.2 ⟨fun p hp => hstay hre p (by grind), ?_⟩, hre.mono ?_⟩
    · rw [hlinks]
      exact hchain.replace hne hfree'
    · rintro p (_ | _) (hp | hp)
      · exact .inl hp
      · exact .inr (.inr ⟨hchain.next_eq ▸ hp, rfl⟩)
      · exact .inl hp
      · exact .inr (.inl ⟨hchain.prev_eq ▸ hp, rfl⟩)

/-- A CNode of four slots: the first two hold a list, the third an entry without links. -/
def twoLinked : KState :=
  let cap := CapabilityData.new .endPoint 0x80c01000 0
  { KState.initial .virt with
    objects := [⟨.cNode, 0x80c00000, 2, 128⟩]
    slots := fun p =>
      if p = 0xffff800080c00000 then some ⟨cap, ⟨0, ManagementDB.pack 5 0xffff800080c00020⟩⟩
      else if p = 0xffff800080c00020 then some ⟨cap, ⟨ManagementDB.pack 6 0xffff800080c00000, 7⟩⟩
      else if p = 0xffff800080c00040 then some (.newWithRawcap cap)
      else none }

theorem twoLinked_entryList :
    EntryList .virt twoLinked [0xffff800080c00000, 0xffff800080c00020] := by
  refine entryList_iff.2 ⟨fun p hp => ?_, by decide, ?_⟩
  · obtain rfl | rfl : p = 0xffff800080c00000 ∨ p = 0xffff800080c00020 := by simpa using hp
    · exact ⟨by decide, by decide, .inl (by decide), _, rfl⟩
    · exact ⟨by decide, by decide, .inl (by decide), _, rfl⟩
  · exact ⟨rfl, rfl, rfl, rfl, trivial⟩

theorem splice_twoLinked :
    (∃ s', insertAfter .virt 0xffff800080c00040 0xffff800080c00000 twoLinked = .ok () s' ∧
      EntryList .virt s' [0xffff800080c00000, 0xffff800080c00040, 0xffff800080c00020]) ∧
    ∃ s', replaceEntry .virt 0xffff800080c00040 0xffff800080c00000 twoLinked = .ok () s' ∧
      EntryList .virt s' [0xffff800080c00040, 0xffff800080c00020] := by
  obtain ⟨⟨s', hinsert, hlist, -⟩, ⟨s'', hreplace, hlist', -⟩⟩ :=
    @splice_correct .virt twoLinked [] [0xffff800080c00020] 0xffff800080c00000 0xffff800080c00040
      twoLinked_entryList ⟨by decide, by decide, .inl (by decide), _, rfl⟩ (by decide)
      (by rintro (_ | _) <;> rfl)
  exact ⟨⟨s', hinsert, hlist⟩, ⟨s'', hreplace, hlist'⟩⟩

end Zoeax
