import Zoeax.Lib.Arena
import Zoeax.Verify.Held
import Zoeax.Verify.Retype

/-!
# Untyped capabilities as pools

The blocks of the untyped capabilities are the pools of an `Arena` (`KState.arena`), and the live
objects are its pieces. No invocation but `UntypedRetype` can move, copy, make or drop an untyped
capability, and none makes an object; a request of `UntypedRetype` that fits is one step of the
arena, from the pool of the capability that is invoked. So every event is a step of the arena or
none at all (`arena_step`), as long as there is no object in the free part of a block (`Allocated`).
Then whatever a request that fits makes is new (`RetypeFits.apart`): it is not laid over anything,
not even over a thread or an endpoint of the same address.
-/

namespace Zoeax

open Lib Exec
open CapabilityType (entrySize)
open Function (update)

variable {cfg : Config} {s s' : KState}

/-- The untyped capability `c` is in the slot at `p`; local variables do not count. -/
structure KState.Untyped (cfg : Config) (s : KState) (p : Nat) (c : CapabilityData) : Prop where
  slot : cfg.isLocal p = false
  cap : s.capAt p = some c
  untyped : c.getCapType = .ok .untyped

namespace KState.Untyped

variable {p q : Nat} {c d : CapabilityData}

theorem of_capAt (h : s'.Untyped cfg p c) (hcap : s'.capAt p = s.capAt p) : s.Untyped cfg p c :=
  ⟨h.slot, hcap ▸ h.cap, h.untyped⟩

/-- One slot was written. -/
theorem write_cases (h : s'.Untyped cfg p c)
    (hcap : s'.capAt p = if p = q then some d else s.capAt p) :
    p = q ∧ c = d ∨ p ≠ q ∧ s.Untyped cfg p c := by
  rw [h.cap] at hcap
  split at hcap
  · next hp => exact .inl ⟨hp, Option.some.inj hcap⟩
  · next hp => exact .inr ⟨hp, h.slot, hcap.symm, h.untyped⟩

/-- One slot was written, with something else than an untyped capability. -/
theorem of_write (h : s'.Untyped cfg p c)
    (hcap : s'.capAt p = if p = q then some d else s.capAt p)
    (hd : d.getCapType ≠ .ok .untyped) : s.Untyped cfg p c := by
  rcases h.write_cases hcap with ⟨-, rfl⟩ | ⟨-, h'⟩
  · exact absurd h.untyped hd
  · exact h'

end KState.Untyped

/-! ## Free memory -/

/-- The blocks of the untyped capabilities lie in the free memory, apart from each other, and no
object reaches into the free part of a block. -/
structure Allocated (cfg : Config) (s : KState) : Prop where
  block : ∀ p c, s.Untyped cfg p c → c.BlockWF
  inRam : ∀ p c, s.Untyped cfg p c → cfg.freeRam ≤ c.getAddress ∧ c.blockEnd ≤ cfg.freeRamEnd
  free : ∀ p c, s.Untyped cfg p c → ∀ o ∈ s.objects,
    o.addr + o.size ≤ c.freePhys ∨ c.blockEnd ≤ o.addr
  apart : ∀ p q c d, s.Untyped cfg p c → s.Untyped cfg q d → p ≠ q →
    c.blockEnd ≤ d.getAddress ∨ d.blockEnd ≤ c.getAddress

theorem Allocated.of_eq (hs : Allocated cfg s) (hobj : s'.objects = s.objects)
    (hcap : ∀ p, cfg.isLocal p = false → s'.capAt p = s.capAt p) : Allocated cfg s' := by
  have huntyped : ∀ p c, s'.Untyped cfg p c → s.Untyped cfg p c := by
    intro p c h
    exact h.of_capAt (hcap p h.slot)
  refine ⟨?_, ?_, ?_, ?_⟩
  · intro p c h
    exact hs.block p c (huntyped p c h)
  · intro p c h
    exact hs.inRam p c (huntyped p c h)
  · intro p c h
    rw [hobj]
    exact hs.free p c (huntyped p c h)
  · intro p q c d hc hd
    exact hs.apart p q c d (huntyped p c hc) (huntyped q d hd)

/-- **What a request that fits makes is apart** from all objects, if there is none in the free part
of the block: it lies between the aligned free index and the new one. -/
theorem RetypeFits.apart {invLabel : InvLabel} {reg : Registers} {u : KState} {inv : Invocation}
    {k : CapabilityType} {c : CapabilityData} {gen : CapGenerator}
    (hfits : RetypeFits cfg invLabel reg u inv) (htype : inv.cap.getCapType = .ok .untyped)
    (hblock : inv.cap.BlockWF)
    (hfree : ∀ o ∈ s.objects, o.addr + o.size ≤ inv.cap.freePhys ∨ inv.cap.blockEnd ≤ o.addr)
    (hkind : capTryFromU8 reg.a6.toUInt8 = .ok k)
    (h : inv.cap.invokeRetype cfg (reg.a5.toNat >>> 32) (reg.a5.toNat % 2 ^ 32) k =
      .ok (c, gen)) :
    (c.getAddress = inv.cap.getAddress ∧ c.blockSize = inv.cap.blockSize) ∧
      inv.cap.freePhys ≤ roundUp inv.cap.freePhys k.align ∧ c.freePhys ≤ inv.cap.blockEnd ∧
      gen.Apart cfg gen.num (roundUp inv.cap.freePhys k.align) c.freePhys s := by
  have hne : k ≠ .untyped := by
    rintro rfl
    cases h
  have hretype :
      inv.cap.retype cfg k (reg.a5.toNat >>> 32) (reg.a5.toNat % 2 ^ 32) = .ok (c, gen) := by
    cases k with
    | untyped => exact absurd rfl hne
    | _ => exact h
  obtain ⟨-, size, -, -, -, -, hsize, -⟩ := CapabilityData.retype_ok hretype
  obtain ⟨hexact, hfit⟩ := hfits htype k hkind size hsize
  obtain ⟨⟨haddr, hbits, hend⟩, rfl⟩ :=
    CapabilityData.retype_of_fits hne hblock hsize hfit hretype
  have hle : inv.cap.freePhys ≤ roundUp inv.cap.freePhys k.align :=
    le_roundUp (CapabilityData.align_pos k)
  have hstop : c.freePhys ≤ inv.cap.blockEnd := hend.le.trans hfit
  refine ⟨⟨haddr, hbits⟩, hle, hstop, ⟨⟨rfl, hend.ge, hstop.trans hblock.end_le, ?_⟩, ?_, ?_⟩⟩
  · intro size' hsize' hnum
    obtain rfl : size = size' := Except.ok.inj (hsize.symm.trans hsize')
    exact Nat.le_mul_of_pos_left _ (Nat.pos_of_ne_zero hnum)
  · intro size' hsize'
    obtain rfl : size = size' := Except.ok.inj (hsize.symm.trans hsize')
    exact hexact.1
  · intro o ho
    have := hfree o ho
    omega

/-- In a state in which free memory is free, requests that fit make new objects. -/
theorem Allocated.meets_retypesApart {ev : Event} (hwf : HeapWF cfg s) (hs : Allocated cfg s)
    (hfits : ev.Meets cfg (RetypeFits cfg) s) : ev.Meets cfg (RetypesApart cfg) s := by
  intro invLabel reg u inv hinv htype k c gen hkind hret
  obtain ⟨t, ht, rfl⟩ := trapEntry_ok.1 hinv.entry
  obtain ⟨-, -, -, -, hslot, hcap⟩ := findInvocation_ok hinv.found
  have hc : s.Untyped cfg inv.slot inv.cap := ⟨hwf.not_isLocal hslot, hcap, htype⟩
  obtain ⟨-, -, -, hapart⟩ := RetypeFits.apart (s := s) (hfits _ _ _ _ hinv) htype
    (hs.block _ _ hc) (hs.free _ _ hc) hkind hret
  exact ⟨_, _, hapart.toBetween, hapart.sized, hapart.clear⟩

/-! ## The arena -/

def CapabilityData.pool (c : CapabilityData) : MemPool := ⟨c.getAddress, c.freePhys, c.blockEnd⟩

def Object.piece (o : Object) : Piece := ⟨o.addr, o.addr + o.size⟩

/-- What the slot at `p` has to give out. -/
def KState.pool? (cfg : Config) (s : KState) (p : Nat) : Option MemPool :=
  if cfg.isLocal p = false then
    (s.capAt p).bind fun c => if c.getCapType = .ok .untyped then some c.pool else none
  else none

/-- The blocks of the untyped capabilities and the live objects. -/
def KState.arena (cfg : Config) (s : KState) : Arena Nat :=
  ⟨s.pool? cfg, s.objects.map Object.piece⟩

theorem KState.pool?_eq_some {p : Nat} {x : MemPool} :
    s.pool? cfg p = some x ↔ ∃ c, s.Untyped cfg p c ∧ c.pool = x := by
  unfold pool?
  constructor
  · intro h
    split at h
    · next hp =>
      obtain ⟨c, hc, h⟩ := Option.bind_eq_some_iff.1 h
      split at h
      · next hk => exact ⟨c, ⟨hp, hc, hk⟩, Option.some.inj h⟩
      · cases h
    · cases h
  · rintro ⟨c, hc, rfl⟩
    rw [if_pos hc.slot, hc.cap, Option.bind_some, if_pos hc.untyped]

theorem KState.Untyped.pool?_eq {p : Nat} {c : CapabilityData} (h : s.Untyped cfg p c) :
    s.pool? cfg p = some c.pool :=
  KState.pool?_eq_some.2 ⟨c, h, rfl⟩

theorem pool?_congr (h : ∀ p c, s'.Untyped cfg p c ↔ s.Untyped cfg p c) :
    s'.pool? cfg = s.pool? cfg := by
  funext p
  apply Option.ext
  intro x
  rw [KState.pool?_eq_some, KState.pool?_eq_some]
  simp only [h]

/-- The slots have the same capabilities. -/
theorem pool?_of_caps (h : ∀ p, cfg.isLocal p = false → s'.capAt p = s.capAt p) :
    s'.pool? cfg = s.pool? cfg := by
  apply pool?_congr
  intro p c
  constructor
  · intro hc
    exact hc.of_capAt (h p hc.slot)
  · intro hc
    exact hc.of_capAt (h p hc.slot).symm

/-- A capability that is not untyped is put where none was. -/
theorem pool?_of_write {q : Nat} {d : CapabilityData}
    (hcap : ∀ p, cfg.isLocal p = false → s'.capAt p = if p = q then some d else s.capAt p)
    (hd : d.getCapType ≠ .ok .untyped) (hq : ∀ c, ¬s.Untyped cfg q c) :
    s'.pool? cfg = s.pool? cfg := by
  apply pool?_congr
  intro p c
  constructor
  · intro hc
    exact hc.of_write (hcap p hc.slot) hd
  · intro hc
    have hne : p ≠ q := by
      rintro rfl
      exact hq c hc
    exact hc.of_capAt ((hcap p hc.slot).trans (if_neg hne)).symm

theorem arena_eq (hobj : s'.objects = s.objects) (hpool : s'.pool? cfg = s.pool? cfg) :
    s'.arena cfg = s.arena cfg := by
  rw [KState.arena, KState.arena, hobj, hpool]

theorem arena_threadStable (x : Arena Nat) : ThreadStable fun s => s.arena cfg = x where
  tcb _ _ _ _ _ _ hs := hs
  queues _ _ _ _ hs := hs
  request _ _ hs := hs
  vspace _ _ hs := hs
  switch _ _ hs := hs
  copy _ _ _ _ hs := hs

/-! ## Invocations that take no memory -/

theorem invokeCNode_arena {invLabel : InvLabel} {reg : Registers}
    {rootCnode destRoot : CapabilityData} {v : Option Nat} (hwf : HeapWF cfg s)
    (h : invokeCNode cfg invLabel reg rootCnode destRoot s = .ok v s') :
    s'.arena cfg = s.arena cfg := by
  obtain ⟨src, c, dest, rawCap, -, -, hsrc, -, hdest, hd, ⟨slots, rfl⟩, hcaps⟩ :=
    invokeCNode_capAt hwf h
  -- untyped capabilities cannot be derived
  have hc : c.getCapType ≠ .ok .untyped := derive_ne_untyped hd
  have hnew : (newCap invLabel reg rawCap).getCapType ≠ .ok .untyped := by
    have hraw : rawCap.getCapType ≠ .ok .untyped := by
      rw [derive_getCapType hd]
      exact hc
    unfold newCap
    split
    · exact hraw
    · exact hraw
  refine arena_eq rfl (pool?_congr ?_)
  intro p d
  constructor
  · intro hp
    have hcap := hcaps p hp.slot
    by_cases hpd : p = dest
    · rw [if_pos hpd, hp.cap] at hcap
      exact absurd (Option.some.inj hcap ▸ hp.untyped) hnew
    · rw [if_neg hpd] at hcap
      split at hcap
      · rw [hp.cap] at hcap
        cases hcap
      · exact hp.of_capAt hcap
  · intro hp
    have hpd : p ≠ dest := by
      rintro rfl
      cases hdest.symm.trans hp.cap
    have hps : p ≠ src := by
      rintro rfl
      obtain rfl : c = d := Option.some.inj (hsrc.symm.trans hp.cap)
      exact hc hp.untyped
    have hcap := hcaps p hp.slot
    rw [if_neg hpd, if_neg fun h => hps h.2] at hcap
    exact hp.of_capAt hcap.symm

theorem HoldCap.arena {p : Nat} {slot : TcbSlot} {c : CapabilityData}
    (h : HoldCap cfg p slot c s s') : s'.arena cfg = s.arena cfg := by
  obtain ⟨t, e, slots, -, -, -, heq⟩ := h.written
  refine arena_eq ?_ (pool?_of_caps h.caps)
  rw [heq]
  rfl

theorem invokeTcb_arena {invLabel : InvLabel} {reg : Registers} {ipcBuffer : Option Nat}
    {rootCnode tcbCap : CapabilityData} {v : Option Nat} (hwf : HeapWF cfg s)
    (h : invokeTcb cfg invLabel reg ipcBuffer rootCnode tcbCap s = .ok v s') :
    s'.arena cfg = s.arena cfg := by
  rcases invokeTcb_cases hwf h with
    ⟨-, _, _, _, _, _, _, s₁, -, -, -, -, -, -, -, -, -, hcnode, hvspace⟩ |
      ⟨-, _, _, _, -, -, -, rfl⟩ | ⟨-, _, _, _, -, -, hbuffer⟩ | ⟨-, hres⟩
  · exact hvspace.arena.trans hcnode.arena
  · rfl
  · exact hbuffer.arena
  · exact ((arena_threadStable (s.arena cfg)).steady.resume _).ok rfl hres

/-- The capability of a page or a page table is changed in its slot. -/
theorem setCap_arena {q : Nat} {c d : CapabilityData} {k : CapabilityType}
    (hq : s.capAt q = some c) (hc : c.getCapType = .ok k) (hd : d.getCapType = .ok k)
    (hk : k ≠ .untyped) : (s.setCap q d).arena cfg = s.arena cfg := by
  have hne : ∀ {e : CapabilityData}, e.getCapType = .ok k → e.getCapType ≠ .ok .untyped := by
    intro e he heq
    exact hk (Except.ok.inj (he.symm.trans heq))
  refine arena_eq rfl (pool?_of_write (fun p _ => KState.capAt_setCap hq p) (hne hd) ?_)
  intro c' hc'
  obtain rfl : c = c' := Option.some.inj (hq.symm.trans hc'.cap)
  exact hne hc hc'.untyped

theorem invokePage_arena {invLabel : InvLabel} {reg : Registers} {rootCnode c : CapabilityData}
    {slot : Nat} {v : Option Nat} (hcap : s.capAt slot = some c) (hk : c.getCapType = .ok .page)
    (h : invokePage cfg invLabel reg rootCnode slot c s = .ok v s') :
    s'.arena cfg = s.arena cfg := by
  obtain ⟨_, p, root, a, w, d, -, -, -, -, rfl⟩ := invokePage_ok hk h
  have hd : (c.setCapDepVal d).getCapType = .ok .page := hk
  have hset : (s.setWord a w).capAt slot = some c := hcap
  exact setCap_arena hset hk hd (by decide)

theorem invokePageTable_arena {invLabel : InvLabel} {reg : Registers}
    {rootCnode c : CapabilityData} {slot : Nat} {v : Option Nat} (hcap : s.capAt slot = some c)
    (hk : c.getCapType = .ok .pageTable)
    (h : invokePageTable cfg invLabel reg rootCnode slot c s = .ok v s') :
    s'.arena cfg = s.arena cfg := by
  obtain ⟨-, ⟨-, p, root, level, a, -, -, -, -, rfl⟩ | ⟨-, -, rfl⟩⟩ := invokePageTable_ok h
  · have hd : (c.setMapped reg.a5.toNat).getCapType = .ok .pageTable := hk
    have hset : (s.setWord a (Pte.write c.getFrame pageV)).capAt slot = some c := hcap
    exact setCap_arena hset hk hd (by decide)
  · have hd : (c.setMapped (toKernelV c.getAddress)).setRoot.getCapType = .ok .pageTable := hk
    have hset : (s.madeRoot cfg c.getFrame).capAt slot = some c := hcap
    exact setCap_arena hset hk hd (by decide)

/-! ## `UntypedRetype` -/

/-- From `s` to `s'` objects were made between `a` and `b`, and untyped capabilities left alone. -/
structure Made (cfg : Config) (a b : Nat) (s s' : KState) : Prop where
  pool : s'.pool? cfg = s.pool? cfg
  objects : ∃ new, s'.objects = new ++ s.objects ∧ (∀ o ∈ new, a ≤ o.addr ∧ o.addr + o.size ≤ b) ∧
    new.Pairwise fun o o' => o.piece.Apart o'.piece

/-- The loop: every object starts one stride after the one before. -/
theorem insertCaps_made {window parent n i a b : Nat} {g : CapGenerator} {u : Unit}
    (hapart : g.Apart cfg n a b s) (hk : g.k ≠ .untyped) (hg : g.userSize < 2 ^ 32)
    (hwindow : ∀ j, i ≤ j → j < i + n → cfg.isLocal (window + entrySize * j) = false ∧
      s.capAt (window + entrySize * j) = none)
    (h : insertCaps cfg window parent n g i s = .ok u s') : Made cfg a b s s' := by
  induction n generalizing g i a s with
  | zero =>
    obtain ⟨-, rfl⟩ := pure_ok.1 h
    exact ⟨rfl, [], rfl, by simp, .nil⟩
  | succ n ih =>
    simp only [insertCaps, bind_ok, liftExcept_ok] at h
    obtain ⟨⟨cap, g'⟩, _, ⟨hnext, rfl⟩, _, s₁, hnew, h⟩ := h
    obtain ⟨size, hfresh, hins, hapart'⟩ := hapart.round hnext hnew
    obtain ⟨-, hfor⟩ := next_fresh hnext hg size
    obtain ⟨haddr, hk', huser, -⟩ := hapart.toBetween.next hnext
    obtain ⟨⟨slots, rfl⟩, hcaps⟩ := insertCap_putCap hins
    simp only [capAt_born] at hcaps
    have htype : cap.getCapType ≠ .ok .untyped := by
      rw [hfor.capType]
      intro heq
      exact hk (Except.ok.inj heq)
    -- the other slots of the window are still empty
    have hrest := ih hapart' (hk' ▸ hk) (huser ▸ hg) (fun j hle hlt => by
      obtain ⟨hlocal, hnone⟩ := hwindow j (by omega) (by omega)
      refine ⟨hlocal, ?_⟩
      rw [hcaps _ hlocal, if_neg (by rw [entrySize]; omega)]
      exact hnone) h
    have hpool := pool?_of_write hcaps htype fun c hc => by
      cases (hwindow i le_rfl (by omega)).2.symm.trans hc.cap
    obtain ⟨new, hobj, hin, hnew⟩ := hrest.objects
    have hend : cap.getAddress + size ≤ a + g.objSize := by
      have := hapart.fits size hfresh.size (Nat.succ_ne_zero n)
      omega
    have hstop := hapart.stop
    rw [Nat.succ_mul] at hstop
    refine ⟨hrest.pool.trans hpool, new ++ [⟨g.k, cap.getAddress, g.userSize, size⟩], ?_, ?_, ?_⟩
    · rw [hobj, List.append_assoc]
      exact congrArg (new ++ ·) (objects_born ..)
    · intro o ho
      rcases List.mem_append.1 ho with ho | ho
      · have := hin o ho
        omega
      · obtain rfl := List.mem_singleton.1 ho
        dsimp only
        omega
    · refine List.pairwise_append.2 ⟨hnew, List.pairwise_singleton .., ?_⟩
      intro o ho o' ho'
      obtain rfl := List.mem_singleton.1 ho'
      have := hin o ho
      exact .inr (hend.trans this.1)

/-- The free index of a capability moves on in its slot. -/
theorem pool?_advance {slot : Nat} {src c : CapabilityData} (hsrc : s.Untyped cfg slot src)
    (hk : c.getCapType = .ok .untyped) (haddr : c.getAddress = src.getAddress)
    (hsize : c.blockSize = src.blockSize) :
    (s.setCap slot c).pool? cfg =
      update (s.pool? cfg) slot (some { src.pool with free := c.freePhys }) := by
  have hcap := fun p => KState.capAt_setCap (d := c) hsrc.cap p
  have hc : (s.setCap slot c).Untyped cfg slot c :=
    ⟨hsrc.slot, (hcap slot).trans (if_pos rfl), hk⟩
  have hpool : c.pool = { src.pool with free := c.freePhys } := by
    rw [CapabilityData.pool, CapabilityData.pool, CapabilityData.blockEnd, CapabilityData.blockEnd,
      haddr, hsize]
  funext p
  by_cases hp : p = slot
  · rw [hp, hc.pool?_eq, Function.update_self, hpool]
  · rw [Function.update_of_ne hp, KState.pool?, KState.pool?, hcap, if_neg hp]

/-- Objects in front of the new free index. -/
theorem Made.takes {slot a : Nat} {src c : CapabilityData}
    (h : Made cfg a c.freePhys (s.setCap slot c) s') (hsrc : s.Untyped cfg slot src)
    (hk : c.getCapType = .ok .untyped) (haddr : c.getAddress = src.getAddress)
    (hsize : c.blockSize = src.blockSize) (hlo : src.freePhys ≤ a) (hle : a ≤ c.freePhys)
    (hstop : c.freePhys ≤ src.blockEnd) : (s.arena cfg).Takes (s'.arena cfg) := by
  obtain ⟨new, hobj, hin, hapart⟩ := h.objects
  have hobj : s'.objects = new ++ s.objects := hobj
  have harena : s'.arena cfg =
      ⟨update (s.arena cfg).pool slot (some { src.pool with free := c.freePhys }),
        new.map Object.piece ++ (s.arena cfg).pieces⟩ := by
    rw [KState.arena, h.pool, pool?_advance hsrc hk haddr hsize, hobj, List.map_append]
    rfl
  rw [harena]
  refine .intro hsrc.pool?_eq (hlo.trans hle) hstop ?_ (List.pairwise_map.2 hapart)
  intro x hx
  obtain ⟨o, ho, rfl⟩ := List.mem_map.1 hx
  have := hin o ho
  exact ⟨hlo.trans this.1, this.2⟩

/-- **A request that fits** takes its objects from the pool of the capability. -/
theorem invokeUntyped_takes {invLabel : InvLabel} {reg : Registers} {inv : Invocation}
    {v : Option Nat} (hwf : HeapWF cfg s) (hs : Allocated cfg s)
    (hslot : s.isSlot inv.slot = true) (hcap : s.capAt inv.slot = some inv.cap)
    (hfits : RetypeFits cfg invLabel reg s inv)
    (h : invokeUntyped cfg reg inv.rootCnode inv.slot s = .ok v s') :
    (s.arena cfg).Takes (s'.arena cfg) := by
  simp only [invokeUntyped, retypeAndInsert, bind_ok, lift_ok, liftExcept_ok, pure_ok,
    deref_ok, writeCap, modify_ok, CapabilityData.tryRefAs_ok] at h
  obtain ⟨k, _, ⟨hk, rfl⟩, _, _, ⟨-, rfl⟩, window, _, ⟨hwindow, rfl⟩, _, s₁,
    ⟨src, _, ⟨hsrc, rfl⟩, _, _, ⟨htype, rfl⟩, ⟨c, gen⟩, _, ⟨hret, rfl⟩, _, _, rfl, hins⟩, rfl,
    rfl⟩ := h
  have heq : src.cap = inv.cap := Option.some.inj ((congrArg (Option.map _) hsrc).symm.trans hcap)
  rw [heq] at htype hret
  have huntyped : s.Untyped cfg inv.slot inv.cap := ⟨hwf.not_isLocal hslot, hcap, htype⟩
  have hclear : ∀ o ∈ (s.setCap inv.slot c).objects,
      o.addr + o.size ≤ inv.cap.freePhys ∨ inv.cap.blockEnd ≤ o.addr := hs.free _ _ huntyped
  obtain ⟨hctype, huser, hnum⟩ := invokeRetype_frame hret
  obtain ⟨⟨haddr, hbits⟩, hlo, hstop, hapart⟩ :=
    hfits.apart htype (hs.block _ _ huntyped) hclear hk hret
  have hne : gen.k ≠ .untyped := by
    rw [invokeRetype_kind hret]
    rintro rfl
    cases hret
  have hgen : gen.userSize < 2 ^ 32 := by
    have := reg.a5.toNat_lt
    rw [huser, Nat.shiftRight_eq_div_pow]
    omega
  -- the window is empty, so the capability that is invoked is not in it
  have hempty : ∀ j, 0 ≤ j → j < 0 + gen.num →
      cfg.isLocal (window + entrySize * j) = false ∧
      (s.setCap inv.slot c).capAt (window + entrySize * j) = none := by
    intro j _ hlt
    obtain ⟨hj, hnone⟩ := getWritable_ok hwindow j (by omega)
    refine ⟨hwf.not_isLocal hj, ?_⟩
    rw [KState.capAt_setCap hcap, if_neg]
    · exact congrArg (Option.map _) hnone
    · intro heq
      rw [heq, hsrc] at hnone
      cases hnone
  have hle : roundUp inv.cap.freePhys k.align ≤ c.freePhys :=
    (Nat.le_add_right ..).trans hapart.stop
  exact (insertCaps_made hapart hne hgen hempty hins).takes huntyped (hctype.trans htype)
    haddr hbits hlo hle hstop

/-! ## Events -/

theorem invoke_arena {invLabel : InvLabel} {reg : Registers} {inv : Invocation} {k : CapabilityType}
    {v : Option Nat} (hwf : HeapWF cfg s) (hs : Allocated cfg s)
    (hslot : s.isSlot inv.slot = true) (hcap : s.capAt inv.slot = some inv.cap)
    (hk : inv.cap.getCapType = .ok k) (hfits : RetypeFits cfg invLabel reg s inv)
    (h : invoke cfg invLabel reg inv k s = .ok v s') :
    s'.arena cfg = s.arena cfg ∨ (s.arena cfg).Takes (s'.arena cfg) := by
  have hT : ThreadStable fun v => v.arena cfg = s.arena cfg := arena_threadStable _
  cases k with
  | untyped => exact .inr (invokeUntyped_takes hwf hs hslot hcap hfits h)
  | cNode => exact .inl (invokeCNode_arena hwf h)
  | tcb => exact .inl (invokeTcb_arena hwf h)
  | notification => exact .inl ((hT.steady.invokeNotification hT.request ..).ok rfl h)
  | endPoint => exact .inl ((hT.steady.invokeEndPoint hT.request ..).ok rfl h)
  | page => exact .inl (invokePage_arena hcap hk h)
  | pageTable => exact .inl (invokePageTable_arena hcap hk h)

/-- **One event** is a step of the arena, or nothing to it. -/
theorem arena_step {ev : Event} (hwf : HeapWF cfg s) (hs : Allocated cfg s)
    (hfits : ev.Meets cfg (RetypeFits cfg) s) (h : Step cfg s ev s') :
    s'.arena cfg = s.arena cfg ∨ (s.arena cfg).Takes (s'.arena cfg) := by
  cases ev with
  | store a w =>
    obtain rfl := modify_ok.1 h.2
    exact .inl rfl
  | trap regs =>
    obtain ⟨t, u, v, ht, -, rfl, hsched, hcases⟩ := step_trap h
    have hT : ∀ x, ThreadStable fun v => v.arena cfg = x := arena_threadStable
    have hu : (s.setTcb s.curRegBase { t with registers := regs }).arena cfg = s.arena cfg := rfl
    rw [(hT (v.arena cfg)).schedule.ok rfl hsched]
    rcases hcases with htimer | ⟨-, ret, w, hret, hw⟩
    · exact .inl ((hT (s.arena cfg)).timerTick.ok hu htimer)
    · rw [((hT (w.arena cfg)).steady.returnSyscall _ _).ok rfl hret]
      rcases hw with rfl | ⟨invLabel, inv, k, val, -, hinv, hk, hinvoke⟩
      · exact .inl hu
      · obtain ⟨-, -, -, -, hslot, hcap⟩ := findInvocation_ok hinv.found
        rw [← hu]
        exact invoke_arena (hwf.setTcb _ ht) (hs.of_eq rfl fun _ _ => rfl) hslot hcap hk
          (hfits _ _ _ _ hinv) hinvoke

end Zoeax
