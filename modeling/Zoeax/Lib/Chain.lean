import Mathlib.Data.List.Nodup

/-!
# Doubly linked lists

`Links` is a table of links: the next (`true`) and the previous (`false`) node of every node.
`Links.join` makes two nodes neighbours of each other; `Links.insert` and `Links.replace` put a node
into a list with nothing else.

`Chained L l` says that the nodes of `l` are linked in this order, with nothing before the first and
nothing after the last.

- `Chained.insert`: `insert` puts a new node right after the given one;
- `Chained.replace`: `replace` puts a new node in the place of the given one.
-/

namespace Zoeax.Lib

variable {α β : Type}

/-- The next (`true`) and the previous (`false`) node of every node. -/
abbrev Links (α : Type) := α → Bool → Option α

namespace Links

/-- The nodes of `l` are linked in this order, between the nodes `b` and `c`. -/
def Linked (L : Links α) (b : Option α) : List α → Option α → Prop
  | [], _ => True
  | a :: l, c => L a false = b ∧ L a true = l.head?.or c ∧ Linked L (some a) l c

/-- A whole list: nothing is linked to its two ends. -/
structure Chained (L : Links α) (l : List α) : Prop where
  nodup : l.Nodup
  linked : L.Linked none l none

section Linked

variable {L : Links α} {a : α} {b c : Option α} {d : Bool} {l xs ys : List α}

theorem linked_append : L.Linked b (xs ++ ys) c ↔
    L.Linked b xs (ys.head?.or c) ∧ L.Linked (xs.getLast?.or b) ys c := by
  induction xs generalizing b with
  | nil => simp [Linked]
  | cons x xs ih =>
    simp only [List.cons_append, Linked, ih, List.head?_append, Option.or_assoc, and_assoc]
    simp [List.getLast?_cons]

/-- Nodes that are renamed together with their links. -/
theorem Linked.map {M : Links β} {f : α → β} (h : L.Linked b l c)
    (hf : ∀ a ∈ l, ∀ d, M (f a) d = (L a d).map f) : M.Linked (b.map f) (l.map f) (c.map f) := by
  induction l generalizing b with
  | nil => trivial
  | cons a l ih =>
    obtain ⟨hprev, hnext, hrest⟩ := h
    refine ⟨?_, ?_, ih hrest fun a' ha' => hf a' (List.mem_cons_of_mem _ ha')⟩
    · rw [hf a (List.mem_cons_self ..), hprev]
    · rw [hf a (List.mem_cons_self ..), hnext, List.head?_map, Option.map_or]

theorem Linked.congr {M : Links α} (h : L.Linked b l c) (hM : ∀ a ∈ l, ∀ d, M a d = L a d) :
    M.Linked b l c := by
  simpa using h.map (f := id) fun a ha d => by simpa using hM a ha d

theorem Chained.next_eq (h : L.Chained (xs ++ a :: ys)) : L a true = ys.head? := by
  simpa [Linked] using (linked_append.1 h.linked).2.2.1

theorem Chained.prev_eq (h : L.Chained (xs ++ a :: ys)) : L a false = xs.getLast? := by
  simpa [Linked] using (linked_append.1 h.linked).2.1

theorem linked_of_splits (us : List α) (h : ∀ vs a ws, us ++ l = vs ++ a :: ws →
    L a false = vs.getLast? ∧ L a true = ws.head?) : L.Linked us.getLast? l none := by
  induction l generalizing us with
  | nil => trivial
  | cons a l ih =>
    obtain ⟨hprev, hnext⟩ := h us a l rfl
    refine ⟨hprev, by rw [hnext, Option.or_none], ?_⟩
    have hrest := ih (us ++ [a]) fun vs b ws heq => h vs b ws (by simpa using heq)
    simpa using hrest

/-- The links of a list, node by node. -/
theorem chained_iff : L.Chained l ↔ l.Nodup ∧ ∀ xs a ys, l = xs ++ a :: ys →
    L a false = xs.getLast? ∧ L a true = ys.head? := by
  constructor
  · intro h
    refine ⟨h.nodup, ?_⟩
    rintro xs a ys rfl
    exact ⟨h.prev_eq, h.next_eq⟩
  · rintro ⟨hnodup, hsplit⟩
    exact ⟨hnodup, linked_of_splits [] hsplit⟩

/-- The neighbour of a node of the list is another one, and has the node as its neighbour. -/
theorem Chained.neighbour {x y : α} (h : L.Chained l) (hx : x ∈ l) (hy : L x d = some y) :
    y ∈ l ∧ y ≠ x ∧ L y (!d) = some x := by
  have hnodup := h.nodup
  obtain ⟨xs, ys, rfl⟩ := List.append_of_mem hx
  cases d with
  | true =>
    rw [h.next_eq, List.head?_eq_some_iff] at hy
    obtain ⟨ys, rfl⟩ := hy
    refine ⟨by simp, by grind, ?_⟩
    have hback : L.Chained ((xs ++ [x]) ++ y :: ys) := by simpa using h
    simpa using hback.prev_eq
  | false =>
    rw [h.prev_eq, List.getLast?_eq_some_iff] at hy
    obtain ⟨xs, rfl⟩ := hy
    refine ⟨by simp, by grind, ?_⟩
    have hback : L.Chained (xs ++ y :: x :: ys) := by simpa using h
    simpa using hback.next_eq

end Linked

/-! ## Operations -/

variable [DecidableEq α] {L : Links α} {a b e x : α} {d t : Bool} {xs ys : List α}

/-- One link is written. -/
def set (L : Links α) (a : α) (d : Bool) (b : α) : Links α :=
  fun x t => if x = a ∧ t = d then some b else L x t

/-- `b` becomes the neighbour of `a` in one direction, and `a` that of `b` in the other. -/
def join (L : Links α) (a b : α) (d : Bool) : Links α := (L.set a d b).set b (!d) a

/-- `e` is joined to the next node of `a`, if there is one, and then to `a`. -/
def insert (L : Links α) (e a : α) : Links α :=
  ((L a true).elim L fun b => L.join e b true).join a e true

/-- `e` and the neighbour of `a` in one direction, if there is one, are joined both ways. -/
def replaceSide (L : Links α) (e a : α) (d : Bool) : Links α :=
  (L a d).elim L fun b => (L.join b e !d).join e b d

def replace (L : Links α) (e a : α) : Links α := (L.replaceSide e a true).replaceSide e a false

theorem join_apply : L.join a b d x t =
    if x = b ∧ t = !d then some a else if x = a ∧ t = d then some b else L x t := rfl

theorem insert_of_some (h : L a true = some b) :
    L.insert e a = (L.join e b true).join a e true := by
  rw [insert, h, Option.elim_some]

theorem insert_of_none (h : L a true = none) : L.insert e a = L.join a e true := by
  rw [insert, h, Option.elim_none]

theorem insert_of_ne (hx : x ≠ e) (ha : x = a → d = false) (hn : L a true = some x → d = true) :
    L.insert e a x d = L x d := by
  have hjoin : ∀ M : Links α, M.join a e true x d = M x d := by
    intro M
    rw [join_apply, if_neg fun h => hx h.1, if_neg fun h => by simp [ha h.1] at h]
  cases hL : L a true with
  | none => rw [insert_of_none hL, hjoin]
  | some b =>
    rw [insert_of_some hL, hjoin, join_apply, if_neg fun h => ?_, if_neg fun h => hx h.1]
    simp [hn (h.1 ▸ hL)] at h

@[simp] theorem insert_self_prev : L.insert e a e false = some a := if_pos ⟨rfl, rfl⟩

theorem insert_next (hae : a ≠ e) : L.insert e a a true = some e := by
  rw [insert, join_apply, if_neg fun h => hae h.1, if_pos ⟨rfl, rfl⟩]

theorem insert_self_next (hae : a ≠ e) :
    L.insert e a e true = (L a true).or (L e true) := by
  have hjoin : ∀ M : Links α, M.join a e true e true = M e true := by
    intro M
    rw [join_apply, if_neg (by simp), if_neg fun h => hae h.1.symm]
  cases hL : L a true with
  | none => rw [insert_of_none hL, hjoin, Option.none_or]
  | some b =>
    rw [insert_of_some hL, hjoin, join_apply, if_neg (by simp), if_pos ⟨rfl, rfl⟩, Option.some_or]

theorem insert_neighbour (hb : L a true = some b) (hbe : b ≠ e) :
    L.insert e a b false = some e := by
  rw [insert_of_some hb, join_apply, if_neg fun h => hbe h.1, if_neg (by simp), join_apply,
    if_pos ⟨rfl, rfl⟩]

theorem replaceSide_of_ne (hx : x ≠ e) :
    L.replaceSide e a d x t = if L a d = some x ∧ t = !d then some e else L x t := by
  cases hL : L a d with
  | none => simp [replaceSide, hL]
  | some b =>
    simp only [replaceSide, hL, Option.elim_some, join_apply, Option.some.injEq, hx, false_and,
      if_false, eq_comm]
    split <;> rfl

theorem replaceSide_self (he : L a d ≠ some e) :
    L.replaceSide e a d e t = if t = d then (L a d).or (L e t) else L e t := by
  cases hL : L a d with
  | none => simp [replaceSide, hL]
  | some b =>
    have hb : e ≠ b := fun h => he (h ▸ hL)
    simp only [replaceSide, hL, Option.elim_some, join_apply, hb, false_and, if_false, true_and]
    by_cases ht : t = d <;> simp [ht]

/-- Every link to `a` becomes one to `e`, told by the links of `a`. -/
theorem replace_of_ne (hx : x ≠ e) (hae : a ≠ e) (ha : L a true ≠ some a) :
    L.replace e a x d = if L a (!d) = some x then some e else L x d := by
  have hprev : L.replaceSide e a true a false = L a false := by
    rw [replaceSide_of_ne hae, if_neg fun h => ha h.1]
  rw [replace, replaceSide_of_ne hx, hprev, replaceSide_of_ne hx]
  cases d <;> simp

theorem replace_self (hae : a ≠ e) (ha : L a true ≠ some a) (he : ∀ d, L a d ≠ some e) :
    L.replace e a e d = (L a d).or (L e d) := by
  have hprev : L.replaceSide e a true a false = L a false := by
    rw [replaceSide_of_ne hae, if_neg fun h => ha h.1]
  rw [replace, replaceSide_self (hprev ▸ he false), hprev, replaceSide_self (he true)]
  cases d <;> simp

namespace Chained

/-- A new node is put right after `a`. -/
theorem insert (h : L.Chained (xs ++ a :: ys)) (he : e ∉ xs ++ a :: ys)
    (hfree : ∀ d, L e d = none) : (L.insert e a).Chained (xs ++ a :: e :: ys) := by
  have hnodup := h.nodup
  have hprev := h.prev_eq
  have hnext := h.next_eq
  obtain ⟨hxs, -, -, hys⟩ := linked_append.1 h.linked
  -- the node that follows `a` is none of those that come before it
  have hmem : ∀ y, L a true = some y → y ∈ ys := by
    intro y hy
    exact List.mem_of_mem_head? (hnext ▸ hy)
  refine ⟨by grind, linked_append.2 ⟨hxs.congr fun x hx d => ?_, ?_, ?_, ?_, ?_, ?_⟩⟩
  · exact insert_of_ne (by grind) (by grind) (by grind)
  · rw [insert_of_ne (by grind) (fun _ => rfl) (by grind), hprev, Option.or_none]
  · exact insert_next (by grind)
  · exact insert_self_prev
  · rw [insert_self_next (by grind), hnext, hfree]
  · cases ys with
    | nil => trivial
    | cons y ys =>
      obtain ⟨-, hynext, hrest⟩ := hys
      refine ⟨insert_neighbour hnext (by grind), ?_, hrest.congr fun z hz d => ?_⟩
      · rw [insert_of_ne (by grind) (by grind) fun _ => rfl, hynext]
      · exact insert_of_ne (by grind) (by grind) (by grind)

/-- On the nodes of the list, `replace` renames `a` to `e`. -/
theorem replace_eq (h : L.Chained (xs ++ a :: ys)) (he : e ∉ xs ++ a :: ys)
    (hfree : ∀ d, L e d = none) (hx : x ∈ xs ++ a :: ys) :
    L.replace e a (if x = a then e else x) d = (L x d).map fun y => if y = a then e else y := by
  have ha : a ∈ xs ++ a :: ys := by simp
  have hae : a ≠ e := fun hae => he (hae ▸ ha)
  have hself : L a true ≠ some a := fun hself => (h.neighbour ha hself).2.1 rfl
  by_cases hxa : x = a
  · subst hxa
    have hne : ∀ d, L x d ≠ some e := fun d hxe => he (h.neighbour ha hxe).1
    rw [if_pos rfl, replace_self hae hself hne, hfree, Option.or_none]
    cases hy : L x d with
    | none => rfl
    | some y => rw [Option.map_some, if_neg (h.neighbour ha hy).2.1]
  · have hxe : x ≠ e := fun hxe => he (hxe ▸ hx)
    rw [if_neg hxa, replace_of_ne hxe hae hself]
    cases hy : L x d with
    | none =>
      rw [if_neg fun hxa' => ?_, Option.map_none]
      have hback := (h.neighbour ha hxa').2.2
      rw [Bool.not_not, hy] at hback
      cases hback
    | some y =>
      have hiff : L a (!d) = some x ↔ y = a := by
        refine ⟨fun hxa' => ?_, fun hya => hya ▸ (h.neighbour hx hy).2.2⟩
        have hback := (h.neighbour ha hxa').2.2
        rw [Bool.not_not, hy] at hback
        exact Option.some.inj hback
      rw [Option.map_some, if_congr hiff rfl rfl]
      split <;> rfl

/-- A new node takes the place of `a`. -/
theorem replace (h : L.Chained (xs ++ a :: ys)) (he : e ∉ xs ++ a :: ys)
    (hfree : ∀ d, L e d = none) : (L.replace e a).Chained (xs ++ e :: ys) := by
  have hnodup := h.nodup
  have hid : ∀ l : List α, a ∉ l → (l.map fun x => if x = a then e else x) = l := by
    intro l hl
    conv_rhs => rw [← List.map_id l]
    refine List.map_congr_left fun x hx => if_neg fun hxa => ?_
    exact hl (hxa ▸ hx)
  have hlink := h.linked.map fun x hx d => h.replace_eq he hfree hx
  rw [List.map_append, List.map_cons, if_pos rfl, hid xs (by grind), hid ys (by grind)] at hlink
  exact ⟨by grind, hlink⟩

end Chained

end Links

end Zoeax.Lib
