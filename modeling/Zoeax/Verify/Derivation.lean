import Zoeax.Verify.Held

/-!
# The capability derivation list

Every entry carries the addresses of its neighbours in the derivation list. Entries are built in
local variables, linked there, and then moved into their slots, so that the address that a neighbour
keeps is that of the local variable.

`MdbIntegrity` is the intended invariant: a link leads to an occupied slot that links back.
`no_run_mdbIntegrity`: it holds in no state after boot. The links to the next entry all lead to
local variables (`NextLocal`), and since boot there is a slot whose entry has a next one
(`KState.NextAt`). `CNodeMove` takes the link along, and nothing drops it.
-/

namespace Zoeax

open Lib Exec

/-- The slot at address `a`, in a CNode or in a thread control block, is occupied by `e`. -/
def KState.Entry (cfg : Config) (s : KState) (a : Nat) (e : CNodeEntry) : Prop :=
  (s.isSlot a = true ∧ s.slots a = some e) ∨
    ∃ p t, ∃ slot : TcbSlot, s.tcbs p = some t ∧ slot.get t = some e ∧ a = slot.addr cfg p

/-- Every link of an occupied slot leads to an occupied slot that links back. -/
def MdbIntegrity (cfg : Config) (s : KState) : Prop :=
  ∀ a e, s.Entry cfg a e → ∀ isNext n, e.mdb.getNode isNext = some n →
    ∃ e', s.Entry cfg n e' ∧ e'.mdb.getNode (!isNext) = some a

variable {cfg : Config} {s s' : KState}

/-! ## Links to local variables -/

/-- An address outside the memory of objects. -/
structure Outside (cfg : Config) (n : Nat) : Prop where
  le : toKernelV cfg.freeRamEnd ≤ n
  lt : n < 2 ^ 64

theorem Outside.pfx_le {n : Nat} (h : Outside cfg n) : kernelVAddrPfx ≤ n := by
  have := h.le
  rw [toKernelV_freeRamEnd] at this
  omega

theorem outside_localAddr (cfg : Config) (site : Site) : Outside cfg (cfg.localAddr site) :=
  ⟨cfg.localAddr_apart site, cfg.localAddr_lt site⟩

theorem unpack_pack (old : UInt64) {node : Nat} (hle : kernelVAddrPfx ≤ node)
    (hlt : node < 2 ^ 64) : ManagementDB.unpack (ManagementDB.pack old node) = some node := by
  have haddr : (ManagementDB.pack old node).toNat >>> 16 = node % 2 ^ 48 := by
    rw [ManagementDB.pack, UInt64.toNat_or, UInt64.toNat_and, UInt64.toNat_ofNat',
      show (0xffff : UInt64).toNat = 2 ^ 16 - 1 by rfl, Nat.and_two_pow_sub_one_eq_mod,
      Nat.shiftRight_or_distrib, Nat.shiftLeft_eq, Nat.shiftRight_eq_div_pow,
      Nat.shiftRight_eq_div_pow, show old.toNat % 2 ^ 16 / 2 ^ 16 = 0 by omega, Nat.zero_or]
    omega
  have hnode : toKernelV (node % 2 ^ 48) = node := by
    rw [toKernelV_eq (by omega)]
    rw [kernelVAddrPfx] at hle ⊢
    omega
  have hne : node % 2 ^ 48 ≠ 0 := by
    rw [kernelVAddrPfx] at hle
    omega
  simp only [ManagementDB.unpack, haddr, if_neg hne, hnode]

theorem getNode_setNode (m : ManagementDB) {isNext : Bool} {node : Nat}
    (hle : kernelVAddrPfx ≤ node) (hlt : node < 2 ^ 64) :
    (m.setNode isNext node).getNode isNext = some node := by
  cases isNext <;> exact unpack_pack _ hle hlt

/-- The link to the next entry, if there is one, leads outside the memory of objects. -/
def CNodeEntry.NextOutside (cfg : Config) (e : CNodeEntry) : Prop :=
  ∀ n, e.mdb.getNode true = some n → Outside cfg n

/-- No link to a next entry leads to a slot. -/
structure NextLocal (cfg : Config) (s : KState) : Prop where
  slots : ∀ p e, s.slots p = some e → e.NextOutside cfg
  held : ∀ p t slot e, s.tcbs p = some t → TcbSlot.get slot t = some e → e.NextOutside cfg

namespace NextLocal

theorem setSlot (hs : NextLocal cfg s) (p : Nat) {e : Option CNodeEntry}
    (he : ∀ e', e = some e' → e'.NextOutside cfg) : NextLocal cfg (s.setSlot p e) where
  slots q e' hq := by
    simp only [KState.setSlot, Function.update_apply] at hq
    split at hq
    · exact he e' hq
    · exact hs.slots q e' hq
  held := hs.held

theorem setTcb (hs : NextLocal cfg s) (p : Nat) {t : ThreadInfo}
    (ht : ∀ slot e, TcbSlot.get slot t = some e → e.NextOutside cfg) :
    NextLocal cfg (s.setTcb p t) where
  slots := hs.slots
  held q t' slot e hq he := by
    rw [KState.tcbs_setTcb] at hq
    split at hq
    · obtain rfl := Option.some.inj hq
      exact ht slot e he
    · exact hs.held q t' slot e hq he

theorem relink (hs : NextLocal cfg s) (p : Nat) {f : ManagementDB → ManagementDB}
    (hf : ∀ m n, (f m).getNode true = some n → m.getNode true = some n ∨ Outside cfg n) :
    NextLocal cfg (s.relink p f) := by
  refine hs.setSlot p fun e' he' n hn => ?_
  obtain ⟨e, he, rfl⟩ := Option.map_eq_some_iff.1 he'
  exact (hf e.mdb n hn).elim (hs.slots p e he n) id

theorem keeps_setNext (p : Nat) {n : Nat} (hn : Outside cfg n) :
    Keeps (NextLocal cfg) (setLink cfg p true n) :=
  .bind .get fun _ => .ite (.modify fun s hs => hs.relink p fun m n' hn' => by
    rw [getNode_setNode m hn.pfx_le hn.lt] at hn'
    exact .inr (Option.some.inj hn' ▸ hn)) (.throw _)

theorem keeps_setPrev (p n : Nat) : Keeps (NextLocal cfg) (setLink cfg p false n) :=
  .bind .get fun _ => .ite (.modify fun _ hs => hs.relink p fun _ _ hn => .inl hn) (.throw _)

theorem keeps_setNode_next (p : Nat) {n : Nat} (hn : Outside cfg n) :
    Keeps (NextLocal cfg) (setNode cfg p n true) :=
  .bind (keeps_setNext _ hn) fun _ => keeps_setPrev _ _

theorem keeps_setNode_prev {p : Nat} (hp : Outside cfg p) (n : Nat) :
    Keeps (NextLocal cfg) (setNode cfg p n false) :=
  .bind (keeps_setPrev _ _) fun _ => keeps_setNext _ hp

theorem getLink {p n : Nat} (hs : NextLocal cfg s) (h : getLink p true s = .ok (some n)) :
    Outside cfg n := by
  simp only [Zoeax.getLink, Query.bind_ok, deref_ok, Query.pure_ok] at h
  obtain ⟨e, he, hn⟩ := h
  exact hs.slots p e he n hn

theorem keeps_insertAfter {p : Nat} (hp : Outside cfg p) (parent : Nat) :
    Keeps (NextLocal cfg) (insertAfter cfg p parent) := by
  refine .bind (.lift_bind _ fun s o hs ho => ?_) fun _ => keeps_setNode_next _ hp
  cases o with
  | some n => exact keeps_setNode_next _ (hs.getLink ho) hs
  | none => exact hs

theorem keeps_replaceEntry {p : Nat} (hp : Outside cfg p) (src : Nat) :
    Keeps (NextLocal cfg) (replaceEntry cfg p src) := by
  refine .bind (.lift_bind _ fun s o hs ho => ?_) fun _ => .bind (.lift _) fun o => ?_
  · cases o with
    | some n =>
      have hn := hs.getLink ho
      exact Keeps.bind (keeps_setNode_prev hn _) (fun _ => keeps_setNode_next _ hn) hs
    | none => exact hs
  · cases o with
    | some n => exact .bind (keeps_setNode_next _ hp) fun _ => keeps_setNode_prev hp _
    | none => exact .pure _

theorem refill (hs : NextLocal cfg s) {p : Nat} {t : ThreadInfo} (ht : s.tcbs p = some t)
    (slot : TcbSlot) (q : Nat) : NextLocal cfg (s.setTcb p (slot.set t (s.slots q))) :=
  hs.setTcb p fun slot' e he => by
    rw [TcbSlot.get_set] at he
    split at he
    · exact hs.slots q e he
    · exact hs.held p t slot' e ht he

theorem renewed (hs : NextLocal cfg s) (o : Object) : NextLocal cfg (s.renewed o) where
  slots p e he := by
    obtain ⟨t, eps, n, h⟩ := renewed_cells s o
    rw [h] at he
    exact hs.slots p e he
  held p t slot e ht he := by
    rw [tcbs_renewed] at ht
    split at ht
    · obtain rfl := Option.some.inj ht
      cases slot <;> cases he
    · exact hs.held p t slot e ht he

theorem setRegisters (hs : NextLocal cfg s) {p : Nat} {t : ThreadInfo} (ht : s.tcbs p = some t)
    (registers : Registers) : NextLocal cfg (s.setTcb p { t with registers }) :=
  hs.setTcb p fun slot e he =>
    hs.held p t slot e ht (show slot.get t = some e by cases slot <;> exact he)

end NextLocal

theorem nextOutside_new (cap : CapabilityData) :
    (CNodeEntry.newWithRawcap cap).NextOutside cfg := by
  intro n hn
  simp [CNodeEntry.newWithRawcap, ManagementDB.getNode, ManagementDB.unpack] at hn

theorem nextLocal_bootStable : BootStable cfg (fun _ _ _ => True) (NextLocal cfg) where
  insert site parent := NextLocal.keeps_insertAfter (outside_localAddr cfg site) parent
  replace site src := NextLocal.keeps_replaceEntry (outside_localAddr cfg site) src
  clear s p hs := hs.setSlot p nofun
  move s p q hs := hs.setSlot q fun e he => hs.slots p e he
  new s p cap _ hs := hs.setSlot p fun e he => Option.some.inj he ▸ nextOutside_new cap
  setCap s p cap _ hs := hs.setSlot p fun e' he' => by
    obtain ⟨e, he, rfl⟩ := Option.map_eq_some_iff.1 he'
    exact hs.slots p e he
  hold s t p slot q ht _ hs := hs.refill ht slot q
  born s o _ hs := by
    refine ⟨fun p e he => hs.slots p e (by rwa [slots_born] at he), fun p t slot e ht he => ?_⟩
    rw [tcbs_born] at ht
    split at ht
    · obtain rfl := Option.some.inj ht
      cases slot <;> cases he
    · exact hs.held p t slot e ht he
  mem _ _ hs := ⟨hs.slots, hs.held⟩
  root _ _ hs := ⟨hs.slots, hs.held⟩
  regs _ _ _ r _ ht _ hs := hs.setRegisters ht r
  refill s p t slot q ht hs := hs.refill ht slot q

theorem nextLocal_threadStable : ThreadStable (NextLocal cfg) where
  tcb _ p t _ ht ha hs := hs.setTcb p fun slot e he =>
    hs.held p t slot e ht ((ha.held slot).symm.trans he)
  queues _ _ _ _ hs := ⟨hs.slots, hs.held⟩
  request _ _ hs := ⟨hs.slots, hs.held⟩
  vspace _ _ hs := ⟨hs.slots, hs.held⟩
  switch _ _ hs := ⟨hs.slots, hs.held⟩
  copy _ _ _ _ hs := ⟨hs.slots, hs.held⟩

/-! ## An entry with a next one -/

/-- The entry at `p` has a next one. -/
def KState.NextAt (s : KState) (p : Nat) : Prop :=
  ∃ e n, s.slots p = some e ∧ e.mdb.getNode true = some n

theorem getNode_bounds {m : ManagementDB} {isNext : Bool} {n : Nat}
    (h : m.getNode isNext = some n) : kernelVAddrPfx ≤ n ∧ n < 2 ^ 64 := by
  unfold ManagementDB.getNode ManagementDB.unpack at h
  generalize (if isNext = true then m.next else m.prev) = word at h
  have hword := word.toNat_lt
  have haddr : word.toNat >>> 16 < 2 ^ 64 := by
    rw [Nat.shiftRight_eq_div_pow]
    omega
  dsimp only at h
  split at h
  · cases h
  · rw [← Option.some.inj h, toKernelV_eq haddr, kernelVAddrPfx]
    omega

theorem getLink_bounds {p n : Nat} {isNext : Bool} (h : getLink p isNext s = .ok (some n)) :
    kernelVAddrPfx ≤ n ∧ n < 2 ^ 64 := by
  simp only [getLink, Query.bind_ok, deref_ok, Query.pure_ok] at h
  obtain ⟨e, -, hn⟩ := h
  exact getNode_bounds hn

theorem setLink_ok {p node : Nat} {isNext : Bool} {u : Unit}
    (h : setLink cfg p isNext node s = .ok u s') : s' = s.relink p (·.setNode isNext node) := by
  simp only [setLink, bind_ok, get_ok] at h
  obtain ⟨_, _, ⟨rfl, rfl⟩, h⟩ := h
  split at h
  · exact (modify_ok.1 h).symm
  · exact (throw_ok.1 h).elim

namespace KState.NextAt

variable {p q : Nat}

theorem occupied (h : s.NextAt p) : s.slots p ≠ none := by
  obtain ⟨e, -, he, -⟩ := h
  rw [he]
  exact Option.some_ne_none e

theorem of_slots (h : s.NextAt p) (heq : s'.slots p = s.slots p) : s'.NextAt p := by
  rw [NextAt, heq]
  exact h

theorem setSlot (h : s.NextAt p) (hne : p ≠ q) (e : Option CNodeEntry) :
    (s.setSlot q e).NextAt p :=
  h.of_slots (Function.update_of_ne hne ..)

theorem setCap (h : s.NextAt p) (q : Nat) (c : CapabilityData) : (s.setCap q c).NextAt p := by
  by_cases hne : p = q
  · subst hne
    obtain ⟨e, n, he, hn⟩ := h
    refine ⟨{ e with cap := c }, n, ?_, hn⟩
    rw [KState.setCap, slots_setSlot_self, he]
    rfl
  · exact h.setSlot hne _

/-- A link is written: the next one of `p` may be another, but there is one. -/
theorem relink (h : s.NextAt p) (q : Nat) {isNext : Bool} {n : Nat}
    (hn : isNext = true → kernelVAddrPfx ≤ n ∧ n < 2 ^ 64) :
    (s.relink q (·.setNode isNext n)).NextAt p := by
  by_cases hne : p = q
  · subst hne
    obtain ⟨e, m, he, hm⟩ := h
    have hslot : (s.relink p (·.setNode isNext n)).slots p =
        some { e with mdb := e.mdb.setNode isNext n } := by
      rw [KState.relink, slots_setSlot_self, he]
      rfl
    cases isNext with
    | true => exact ⟨_, n, hslot, getNode_setNode _ (hn rfl).1 (hn rfl).2⟩
    | false => exact ⟨_, m, hslot, hm⟩
  · exact h.setSlot hne _

theorem keeps_setLink (q : Nat) {isNext : Bool} {n : Nat}
    (hn : isNext = true → kernelVAddrPfx ≤ n ∧ n < 2 ^ 64) :
    Keeps (·.NextAt p) (setLink cfg q isNext n) :=
  .bind .get fun _ => .ite (.modify fun _ hs => hs.relink q hn) (.throw _)

/-- Two entries become neighbours; the address of the next one is kept with its high bits. -/
theorem keeps_setNode_next (q : Nat) {n : Nat} (hn : kernelVAddrPfx ≤ n ∧ n < 2 ^ 64) :
    Keeps (·.NextAt p) (setNode cfg q n true) :=
  .bind (keeps_setLink _ fun _ => hn) fun _ => keeps_setLink _ nofun

theorem keeps_setNode_prev {q : Nat} (hq : kernelVAddrPfx ≤ q ∧ q < 2 ^ 64) (n : Nat) :
    Keeps (·.NextAt p) (setNode cfg q n false) :=
  .bind (keeps_setLink _ nofun) fun _ => keeps_setLink _ fun _ => hq

theorem keeps_insertAfter (site : Site) (parent : Nat) :
    Keeps (·.NextAt p) (insertAfter cfg (cfg.localAddr site) parent) := by
  have hlocal := outside_localAddr cfg site
  refine .bind (.lift_bind _ fun s o hs ho => ?_) fun _ =>
    keeps_setNode_next _ ⟨hlocal.pfx_le, hlocal.lt⟩
  cases o with
  | some n => exact keeps_setNode_next _ (getLink_bounds ho) hs
  | none => exact hs

theorem keeps_replaceNext (q src : Nat) : Keeps (·.NextAt p) (replaceNext cfg q src) := by
  refine .lift_bind _ fun s o hs ho => ?_
  cases o with
  | some n =>
    have hn := getLink_bounds ho
    exact Keeps.bind (keeps_setNode_prev hn _) (fun _ => keeps_setNode_next _ hn) hs
  | none => exact hs

theorem keeps_replacePrev (site : Site) (src : Nat) :
    Keeps (·.NextAt p) (replacePrev cfg (cfg.localAddr site) src) := by
  have hlocal := outside_localAddr cfg site
  refine .bind (.lift _) fun o => ?_
  cases o with
  | some n =>
    exact .bind (keeps_setNode_next _ ⟨hlocal.pfx_le, hlocal.lt⟩) fun _ =>
      keeps_setNode_prev ⟨hlocal.pfx_le, hlocal.lt⟩ _
  | none => exact .pure _

/-- The entry that another one is put behind has a next one from then on. -/
theorem of_insertAfter {site : Site} {parent : Nat} {u : Unit}
    (h : insertAfter cfg (cfg.localAddr site) parent s = .ok u s') : s'.NextAt parent := by
  have hlocal := outside_localAddr cfg site
  simp only [insertAfter, insertNext, bind_ok, lift_ok] at h
  obtain ⟨_, s₁, ⟨o, _, ⟨ho, rfl⟩, hnext⟩, h⟩ := h
  obtain ⟨_, s₂, hset, h⟩ := bind_ok.1 h
  obtain rfl := setLink_ok h
  obtain rfl := setLink_ok hset
  refine relink ?_ _ nofun
  -- its slot is occupied, and writing the links of others leaves it so
  have hcap : s₁.capAt parent ≠ none := by
    simp only [getLink, Query.bind_ok, deref_ok] at ho
    obtain ⟨e, he, -⟩ := ho
    refine Keeps.ok (I := fun s => s.capAt parent ≠ none) ?_ ?_ hnext
    · cases o with
      | some n => exact keeps_setNode (fun s q f hs => by rwa [KState.capAt_relink]) ..
      | none => exact .pure _
    · rw [KState.capAt, he]
      exact Option.some_ne_none _
  obtain ⟨c, hc⟩ := Option.ne_none_iff_exists'.1 hcap
  obtain ⟨e, he, -⟩ := Option.map_eq_some_iff.1 hc
  refine ⟨{ e with mdb := e.mdb.setNode true (cfg.localAddr site) }, _, ?_,
    getNode_setNode _ hlocal.pfx_le hlocal.lt⟩
  rw [KState.relink, slots_setSlot_self, he]
  rfl

/-- The entry that takes the place of one with a next entry gets it. -/
theorem of_replaceEntry {site : Site} {src : Nat} {u : Unit} (hsrc : s.NextAt src)
    (hlocal : s.slots (cfg.localAddr site) ≠ none)
    (h : replaceEntry cfg (cfg.localAddr site) src s = .ok u s') :
    s'.NextAt (cfg.localAddr site) := by
  obtain ⟨e, n, he, hn⟩ := hsrc
  simp only [replaceEntry, replaceNext, bind_ok, lift_ok] at h
  obtain ⟨_, s₁, ⟨o, _, ⟨ho, rfl⟩, hnext⟩, hprev⟩ := h
  refine (keeps_replacePrev site src).ok ?_ hprev
  obtain rfl : o = some n := by
    simp only [getLink, Query.bind_ok, deref_ok, Query.pure_ok] at ho
    obtain ⟨e', he', rfl⟩ := ho
    obtain rfl : e = e' := Option.some.inj (he.symm.trans he')
    exact hn
  have hbounds := getNode_bounds hn
  simp only [setNode, bind_ok] at hnext
  obtain ⟨_, s₂, ⟨_, s₃, hset₁, hset₂⟩, _, s₄, hset₃, hset₄⟩ := hnext
  obtain rfl := setLink_ok hset₁
  obtain rfl := setLink_ok hset₂
  obtain rfl := setLink_ok hset₃
  obtain rfl := setLink_ok hset₄
  refine relink (relink ?_ _ fun _ => hbounds) _ nofun
  -- the local variable holds an entry, whose link is written second
  have hcap : (s.relink n (·.setNode false (cfg.localAddr site))).capAt (cfg.localAddr site) ≠
      none := by
    rw [KState.capAt_relink, KState.capAt]
    simpa using hlocal
  obtain ⟨c, hc⟩ := Option.ne_none_iff_exists'.1 hcap
  obtain ⟨e', he', -⟩ := Option.map_eq_some_iff.1 hc
  refine ⟨{ e' with mdb := e'.mdb.setNode true n }, n, ?_, getNode_setNode _ hbounds.1 hbounds.2⟩
  rw [KState.relink, slots_setSlot_self, he']
  rfl

/-! ## Invocations -/

theorem threadStable : ThreadStable (·.NextAt p) where
  tcb _ _ _ _ _ _ hs := hs
  queues _ _ _ _ hs := hs
  request _ _ hs := hs
  vspace _ _ hs := hs
  switch _ _ hs := hs
  copy _ _ _ _ hs := hs

theorem setTcbSlot (hp : cfg.isLocal p = false) {slot : TcbSlot} {thread parent : Nat}
    {cap : CapabilityData} {u : Unit} (hs : s.NextAt p)
    (h : setTcbSlot cfg slot thread cap parent s = .ok u s') : s'.NextAt p := by
  simp only [Zoeax.setTcbSlot, holdEntry, holdLocal, newLocal, bind_ok, lift_ok, liftExcept_ok,
    modify_ok, pure_ok, getTcb_ok] at h
  obtain ⟨_, _, ⟨-, rfl⟩, _, _, ⟨-, rfl⟩, _, _, ⟨_, _, rfl, rfl, rfl⟩, _, s₂, hins, t, _, ⟨-, rfl⟩,
    rfl⟩ := h
  have hs₂ : s₂.NextAt p := (keeps_insertAfter _ _).ok (hs.setSlot (ne_localAddr hp _) _) hins
  exact hs₂

theorem invokeTcb (hp : cfg.isLocal p = false) {invLabel : InvLabel} {reg : Registers}
    {ipcBuffer : Option Nat} {rootCnode tcbCap : CapabilityData} {v : Option Nat} (hs : s.NextAt p)
    (h : invokeTcb cfg invLabel reg ipcBuffer rootCnode tcbCap s = .ok v s') : s'.NextAt p := by
  unfold Zoeax.invokeTcb at h
  split at h
  · simp only [configure, TCBCap.setCspace, TCBCap.setVspace, TCBCap.setSlot, bind_ok, lift_ok,
      liftExcept_ok, pure_ok] at h
    obtain ⟨_, _, ⟨-, rfl⟩, _, _, ⟨_, _, ⟨-, rfl⟩, _, _, ⟨-, rfl⟩, _, _, ⟨-, rfl⟩, _, _,
      ⟨-, rfl⟩, _, s₁, ⟨_, _, ⟨-, rfl⟩, _, _, ⟨-, rfl⟩, hcspace⟩, _, _, ⟨-, rfl⟩, _, _, ⟨-, rfl⟩,
      hvspace⟩, -, rfl⟩ :=
      h
    exact (hs.setTcbSlot hp hcspace).setTcbSlot hp hvspace
  · split at h
    · exact (throw_ok.1 h).elim
    · simp only [TCBCap.setRegisters, bind_ok, lift_ok, pure_ok, updateTcb_ok] at h
      obtain ⟨_, _, ⟨-, rfl⟩, _, _, ⟨t, -, rfl⟩, -, rfl⟩ := h
      exact hs
  · simp only [TCBCap.setIpcBuffer, TCBCap.setSlot, bind_ok, lift_ok, liftExcept_ok, pure_ok] at h
    obtain ⟨_, _, ⟨-, rfl⟩, _, _, ⟨_, _, ⟨-, rfl⟩, _, _, ⟨-, rfl⟩, hset⟩, -, rfl⟩ := h
    exact hs.setTcbSlot hp hset
  · simp only [TCBCap.makeRunnable, bind_ok, pure_ok] at h
    obtain ⟨_, _, hres, -, rfl⟩ := h
    exact (threadStable.steady.resume _).ok hs hres
  · exact (throw_ok.1 h).elim

/-- The loop of a retype writes slots that were empty. -/
theorem insertCaps (hp : cfg.isLocal p = false) {window parent n i : Nat} {g : CapGenerator}
    {u : Unit} (hne : ∀ j, i ≤ j → j < i + n → p ≠ window + CapabilityType.entrySize * j)
    (hs : s.NextAt p) (h : insertCaps cfg window parent n g i s = .ok u s') : s'.NextAt p := by
  induction n generalizing g i s with
  | zero =>
    obtain ⟨-, rfl⟩ := pure_ok.1 h
    exact hs
  | succ n ih =>
    simp only [Zoeax.insertCaps, bind_ok, liftExcept_ok] at h
    obtain ⟨⟨cap, g'⟩, _, ⟨-, rfl⟩, _, s₁, hnew, h⟩ := h
    refine ih (fun j hle hlt => hne j (by omega) (by omega)) ?_ h
    have hput : ∀ v, v.slots = s.slots →
        insertCap cfg g.k window parent cap i v = .ok () s₁ → s₁.NextAt p := by
      intro v hv hins
      simp only [insertCap, newLocal, moveEntry, bind_ok, modify_ok, pure_ok] at hins
      obtain ⟨_, _, ⟨_, _, rfl, rfl, rfl⟩, _, s₂, hins, rfl⟩ := hins
      have hs₁ : v.NextAt p := hs.of_slots (by rw [hv])
      exact ((keeps_insertAfter _ _).ok (hs₁.setSlot (ne_localAddr hp _) _) hins).setSlot
        (hne i le_rfl (by omega)) _
    obtain ⟨o, -, -, ⟨-, hins⟩ | ⟨-, hins⟩⟩ := insertNew_ok hnew
    · exact hput _ (slots_born s o) hins
    · refine hput _ ?_ hins
      obtain ⟨t, e, n, heq⟩ := renewed_cells s o
      rw [heq]

theorem invokeUntyped (hp : cfg.isLocal p = false) {reg : Registers} {rootCnode : CapabilityData}
    {slot : Nat} {v : Option Nat} (hs : s.NextAt p)
    (h : invokeUntyped cfg reg rootCnode slot s = .ok v s') : s'.NextAt p := by
  simp only [Zoeax.invokeUntyped, retypeAndInsert, bind_ok, lift_ok, liftExcept_ok, pure_ok,
    writeCap, modify_ok] at h
  obtain ⟨k, _, ⟨-, rfl⟩, _, _, ⟨-, rfl⟩, window, _, ⟨hwindow, rfl⟩, _, _, ⟨src, _, ⟨-, rfl⟩, _, _,
    ⟨-, rfl⟩, ⟨c, gen⟩, _, ⟨hret, rfl⟩, _, _, rfl, hins⟩, -, rfl⟩ := h
  obtain ⟨-, -, hnum⟩ := invokeRetype_frame hret
  refine (hs.setCap slot c).insertCaps hp (fun j _ hlt => ?_) hins
  rintro rfl
  dsimp only at hlt
  exact hs.occupied (getWritable_ok hwindow j (by omega)).2

/-- `CNodeCopy` and `CNodeMint` leave the entry where it is, and `CNodeMove` may take it, with its
link, to another slot. -/
theorem invokeCNode (hwf : HeapWF cfg s) (hp : s.isSlot p = true) {invLabel : InvLabel}
    {reg : Registers} {rootCnode destRoot : CapabilityData} {v : Option Nat} (hs : s.NextAt p)
    (h : invokeCNode cfg invLabel reg rootCnode destRoot s = .ok v s') :
    ∃ q, s.isSlot q = true ∧ s'.NextAt q := by
  obtain ⟨src, e, dest, rawCap, -, hsrc, he, -, hdest, hnone, -, hinstall⟩ := invokeCNode_ok h
  have hlocal := hwf.not_isLocal hp
  have hne : p ≠ dest := by
    rintro rfl
    exact hs.occupied hnone
  simp only [installEntry, newLocal, moveEntry, bind_ok, modify_ok, pure_ok] at hinstall
  obtain ⟨_, _, ⟨_, _, rfl, rfl, rfl⟩, _, s₂, hlink, rfl⟩ := hinstall
  have hnew := hs.setSlot (ne_localAddr hlocal .invocation)
    (some (.newWithRawcap (newCap invLabel reg rawCap)))
  unfold linkNew at hlink
  split at hlink
  · simp only [bind_ok, modify_ok] at hlink
    obtain ⟨_, s₃, hrep, rfl⟩ := hlink
    have hsrcne := ne_localAddr (hwf.not_isLocal hsrc) .invocation
    by_cases hps : p = src
    · subst hps
      have hnext : s₃.NextAt (cfg.localAddr .invocation) := by
        refine of_replaceEntry hnew ?_ hrep
        rw [KState.slots_setSlot_self]
        exact Option.some_ne_none _
      obtain ⟨e', n, he', hn⟩ := hnext
      refine ⟨dest, hdest, e', n, ?_, hn⟩
      rw [KState.slots_setSlot_self]
      exact (Function.update_of_ne hsrcne.symm ..).trans he'
    · have hnext : s₃.NextAt p := by
        obtain ⟨_, s₄, hnext, hprev⟩ := bind_ok.1 hrep
        exact (keeps_replacePrev _ _).ok ((keeps_replaceNext _ _).ok hnew hnext) hprev
      exact ⟨p, hp, (hnext.setSlot hps _).setSlot hne _⟩
  · exact ⟨p, hp, ((keeps_insertAfter _ _).ok hnew hlink).setSlot hne _⟩

end KState.NextAt

/-- Some slot of a CNode has a next entry. -/
def KState.HasNext (s : KState) : Prop := ∃ p, s.isSlot p = true ∧ s.NextAt p

namespace KState.HasNext

theorem threadStable : ThreadStable KState.HasNext where
  tcb _ _ _ _ _ _ hs := hs
  queues _ _ _ _ hs := hs
  request _ _ hs := hs
  vspace _ _ hs := hs
  switch _ _ hs := hs
  copy _ _ _ _ hs := hs

/-- The slots of CNodes stay. -/
theorem isSlot_mapStable (p : Nat) :
    MapStable cfg (fun _ _ _ => True) fun s => s.isSlot p = true where
  toCapStable := .of_slots (fun _ _ hs => hs) (fun _ _ _ _ _ _ _ hs => hs) fun s o _ hs => by
    rw [KState.isSlot, objects_born, List.any_cons, Bool.or_eq_true]
    exact .inr hs
  mem _ _ hs := hs
  root _ _ hs := hs

theorem isSlot_renews (p : Nat) : Renews fun s => s.isSlot p = true := by
  intro s o _ _ hs
  obtain ⟨t, e, n, h⟩ := renewed_cells s o
  rw [h]
  exact hs

theorem isSlot_threadStable (p : Nat) : ThreadStable fun s => s.isSlot p = true where
  tcb _ _ _ _ _ _ hs := hs
  queues _ _ _ _ hs := hs
  request _ _ hs := hs
  vspace _ _ hs := hs
  switch _ _ hs := hs
  copy _ _ _ _ hs := hs

theorem invoke {invLabel : InvLabel} {reg : Registers} {inv : Invocation} {k : CapabilityType}
    {v : Option Nat} (hwf : HeapWF cfg s) (hs : s.HasNext) (hk : inv.cap.getCapType = .ok k)
    (h : invoke cfg invLabel reg inv k s = .ok v s') : s'.HasNext := by
  obtain ⟨p, hp, hnext⟩ := hs
  have hlocal := hwf.not_isLocal hp
  cases k with
  | untyped =>
    have hslot := (isSlot_mapStable p).invokeUntyped .trivial (.inl (isSlot_renews p)) hp h
    exact ⟨p, hslot, hnext.invokeUntyped hlocal h⟩
  | cNode =>
    obtain ⟨_, _, _, _, -, -, -, -, -, -, ⟨slots, heq⟩, -⟩ := invokeCNode_capAt hwf h
    obtain ⟨q, hq, hnext'⟩ := hnext.invokeCNode hwf hp h
    refine ⟨q, ?_, hnext'⟩
    rw [heq]
    exact hq
  | tcb =>
    have hslot := (isSlot_mapStable p).invokeTcb .trivial (capsAll_trivial s)
      (fun _ hres => ((isSlot_threadStable p).steady.resume _).ok hp hres)
      (fun _ _ _ _ _ _ _ => hp) hp h
    exact ⟨p, hslot, hnext.invokeTcb hlocal h⟩
  | notification =>
    have hT : ThreadStable KState.HasNext := threadStable
    exact (hT.steady.invokeNotification hT.request ..).ok ⟨p, hp, hnext⟩ h
  | endPoint =>
    have hT : ThreadStable KState.HasNext := threadStable
    exact (hT.steady.invokeEndPoint hT.request ..).ok ⟨p, hp, hnext⟩ h
  | page =>
    obtain ⟨_, _, _, a, w, d, -, -, -, -, rfl⟩ := invokePage_ok hk h
    have hset : (s.setWord a w).NextAt p := hnext
    exact ⟨p, hp, hset.setCap _ _⟩
  | pageTable =>
    obtain ⟨-, ⟨-, _, _, _, a, -, -, -, -, rfl⟩ | ⟨-, -, rfl⟩⟩ := invokePageTable_ok h
    · have hset : (s.setWord a (Pte.write inv.cap.getFrame pageV)).NextAt p := hnext
      exact ⟨p, hp, hset.setCap _ _⟩
    · have hset : (s.madeRoot cfg inv.cap.getFrame).NextAt p := hnext
      exact ⟨p, hp, hset.setCap _ _⟩

/-- **One event.** -/
theorem step {ev : Event} (hwf : HeapWF cfg s) (hs : s.HasNext) (h : Step cfg s ev s') :
    s'.HasNext := by
  have hT : ThreadStable KState.HasNext := threadStable
  cases ev with
  | store a w =>
    obtain rfl := modify_ok.1 h.2
    exact hs
  | trap regs =>
    obtain ⟨t, u, v, ht, -, rfl, hsched, hcases⟩ := step_trap h
    have hu : (s.setTcb s.curRegBase { t with registers := regs }).HasNext := hs
    refine hT.schedule.ok ?_ hsched
    rcases hcases with htimer | ⟨-, ret, w, hret, hw⟩
    · exact hT.timerTick.ok hu htimer
    · refine (hT.steady.returnSyscall _ _).ok ?_ hret
      rcases hw with rfl | ⟨invLabel, inv, k, val, -, -, hk, hinvoke⟩
      · exact hu
      · exact invoke (hwf.setTcb _ ht) hu hk hinvoke

/-! ## Boot -/

/-- A slot that was empty is filled. -/
theorem fill {q : Nat} {e : Option CNodeEntry} (hs : s.HasNext) (hq : s.slots q = none) :
    (s.setSlot q e).HasNext := by
  obtain ⟨p, hp, hnext⟩ := hs
  refine ⟨p, hp, hnext.setSlot ?_ e⟩
  rintro rfl
  exact hnext.occupied hq

/-- The entry that the root thread gets is put behind that of a slot. -/
theorem of_holdRootCap {slot : TcbSlot} {site : Site} {thread idx : Nat}
    {cnodeCap cap : CapabilityData} {u : Unit}
    (h : holdRootCap cfg slot site thread cnodeCap cap idx s = .ok u s') : s'.HasNext := by
  obtain ⟨parent, s₁, t, hparent, hins, -, rfl⟩ := holdRootCap_ok h
  have hnext : s₁.NextAt parent := NextAt.of_insertAfter hins
  refine ⟨parent, ?_, hnext⟩
  obtain ⟨f, rfl⟩ := insertAfter_slots hins
  exact hparent

theorem boot {image : Image} (h : Boot cfg image s) : s.HasNext := by
  obtain ⟨mem, m, r, rootTcb, info, s₁, s₂, s₃, s₄, -, -, hroot, hres, hsched⟩ := boot_cases h
  have hT : ThreadStable KState.HasNext := threadStable
  simp only [createRootThread, createRootTcb, bind_ok, liftExcept_ok, pure_ok, modify_ok] at hroot
  obtain ⟨_, u₁, ⟨_, _, -, _, _, -, _, _, -, _, _, -, _, u₀, hhold, _, _, ⟨-, rfl⟩, _, _, hwrite, -,
    rfl⟩, info', u₂, huntyped, _, _, rfl, _, _, ⟨-, rfl⟩, _, _, hupdate, -, rfl⟩ := hroot
  have hu₀ : u₀.HasNext := of_holdRootCap hhold
  obtain ⟨q, -, -, hnone, rfl⟩ := writeSlot_ok (unwrap_ok.1 hwrite)
  have hu₂ : u₂.HasNext := insertUntyped_keeps (fun _ _ _ _ _ hnone hs => hs.fill hnone)
    (hu₀.fill hnone) huntyped
  obtain ⟨t, -, rfl⟩ := updateTcb_ok.1 hupdate
  refine hT.start ?_ hres hsched
  exact hu₂

end KState.HasNext

/-! ## No state has the invariant -/

theorem nextLocal_boot {image : Image} (h : Boot cfg image s) : NextLocal cfg s := by
  refine nextLocal_bootStable.boot nextLocal_threadStable .trivial ?_ ?_ h
  · intro s s' u hs hidle
    obtain ⟨t, ht, rfl⟩ := createIdleThread_ok.1 hidle
    exact ⟨hs.slots, (hs.setRegisters ht _).held⟩
  · refine ⟨nofun, fun p t slot e ht he => ?_⟩
    simp only [KState.initial, Function.update_apply] at ht
    split at ht
    · obtain rfl := Option.some.inj ht
      cases slot <;> cases he
    · cases ht

theorem NextLocal.step {ev : Event} (hs : NextLocal cfg s) (h : Step cfg s ev s') :
    NextLocal cfg s' :=
  nextLocal_bootStable.toMapStable.step nextLocal_threadStable .trivial
    (fun _ _ _ ht _ hs => hs.setRegisters ht _) (.inl fun _ o _ _ hs => hs.renewed o)
    (fun _ _ _ _ _ _ _ _ _ _ _ _ ht hu => hu.setRegisters ht _)
    (fun _ _ _ _ _ _ _ _ _ _ _ _ => trivial) (capsAll_trivial s) hs h

/-- The idle thread holds nothing, and all other entries are in the memory of objects. -/
theorem KState.Entry.not_outside {a : Nat} {e : CNodeEntry} (h : s.Entry cfg a e)
    (hwf : HeapWF cfg s) (htyped : TypedSlots cfg s) : ¬Outside cfg a := by
  intro hout
  have hle := hout.le
  rcases h with ⟨hslot, -⟩ | ⟨p, t, slot, ht, he, rfl⟩
  · have := (hwf.isSlot_bounds hslot).2
    omega
  · obtain ⟨-, hne⟩ := htyped p t slot e ht he
    obtain ⟨o, ho, hk, hstart⟩ := (hwf.tcbs p t ht).resolve_left hne
    have hend := (Object.start_lt (hwf.admissible o ho)).2
    have hsize := Object.tcb_size (hwf.size o ho) hk
    have hin := cfg.slots_in_tcb
    cases slot <;> rw [TcbSlot.addr] at hle <;> omega

theorem KState.HasNext.not_mdbIntegrity (hnext : s.HasNext) (hwf : HeapWF cfg s)
    (htyped : TypedSlots cfg s) (hlocal : NextLocal cfg s) : ¬MdbIntegrity cfg s := by
  intro hinteg
  obtain ⟨p, hp, e, n, he, hn⟩ := hnext
  obtain ⟨e', he', -⟩ := hinteg p e (.inl ⟨hp, he⟩) true n hn
  exact he'.not_outside hwf htyped (hlocal.slots p e he n hn)

/-- **The derivation list has broken links in every state after boot.** There is a slot with a next
entry, and links to a next entry lead to local variables. -/
theorem no_run_mdbIntegrity {image : Image} {s₀ : KState} (hboot : Boot cfg image s₀)
    (hrun : Run cfg (fun _ _ _ _ => True) s₀ s) : ¬MdbIntegrity cfg s := by
  obtain ⟨hwf, -, htyped⟩ := typedSlots_of_run hboot hrun
  have hs : HeapWF cfg s ∧ NextLocal cfg s ∧ s.HasNext := by
    refine run_invariant (P := fun s => HeapWF cfg s ∧ NextLocal cfg s ∧ s.HasNext) hrun
      ⟨heapWF_boot hboot, nextLocal_boot hboot, .boot hboot⟩ ?_
    rintro u v ⟨hu, hlocal, hnext⟩ ⟨ev, -, hstep⟩
    exact ⟨hu.step hstep, hlocal.step hstep, hnext.step hu hstep⟩
  exact hs.2.2.not_mdbIntegrity hwf htyped hs.2.1

/-- The root server copies its root CNode's capability into slot 30. -/
theorem no_mdbIntegrity_after_copy : ∃ s₀ s, Boot .virt demoImage s₀ ∧
    Run .virt (fun _ _ _ _ => True) s₀ s ∧
    (s.capAt (toKernelV 2151677952 + 32 * 30)).isSome = true ∧
    ¬MdbIntegrity .virt s := by
  obtain ⟨s₀, s, hboot, hrun, htest⟩ := exists_run_of_trace .virt (fun _ _ _ _ => True) demoImage
    [.trap { ecallRegs 2 18 9 with a3 := 2, a4 := 77309411346, a5 := 30 }]
    (fun s => (s.capAt (toKernelV 2151677952 + 32 * 30)).isSome) (by decide +kernel)
  exact ⟨s₀, s, hboot, hrun, htest, no_run_mdbIntegrity hboot hrun⟩

/-- Right after boot, slot 2 of the root CNode links to a local variable of `create_root_tcb`, which
is no slot. -/
theorem broken_link_at_boot : ∃ s₀ e n, Boot .virt demoImage s₀ ∧
    s₀.slots (toKernelV 2151677952 + 32 * 2) = some e ∧ e.mdb.getNode true = some n ∧
    n = Config.virt.localAddr .createRootCnode ∧ s₀.isSlot n = false ∧ ¬MdbIntegrity .virt s₀ := by
  obtain ⟨s₀, hboot, htest⟩ := exists_boot .virt demoImage
    (fun s => (s.slots (toKernelV 2151677952 + 32 * 2)).any fun e =>
      e.mdb.getNode true = some (Config.virt.localAddr .createRootCnode) &&
        !s.isSlot (Config.virt.localAddr .createRootCnode)) (by decide +kernel)
  obtain ⟨e, he, htest⟩ := (Option.any_eq_true ..).1 htest
  simp only [Bool.and_eq_true, decide_eq_true_eq, Bool.not_eq_true'] at htest
  exact ⟨s₀, e, _, hboot, he, htest.1, rfl, htest.2, (KState.HasNext.boot hboot).not_mdbIntegrity
    (heapWF_boot hboot) (typedSlots_boot hboot) (nextLocal_boot hboot)⟩

end Zoeax
