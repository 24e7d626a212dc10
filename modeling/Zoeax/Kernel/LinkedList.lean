import Mathlib.Logic.Function.Basic
import Mathlib.Data.List.Basic

/-!
# The intrusive list (`kernel/src/list.rs`)

Run queue, endpoint queues and notification wait queues are all values of one type,
`LinkedList`: a head and a last pointer, with the links kept in the items themselves. An item has
one `next` field whatever list it is on, so the lists of a kernel share one link map. `Lists` is
that shared heap: the `next` field of every item and the two pointers of every list.
-/

namespace Zoeax

/-- `LinkedList`: the two ends of a list of items. -/
structure LinkedList (α : Type) where
  head : Option α
  last : Option α
deriving DecidableEq, Repr

/-- Any number of lists over the same items, with the `next` field of every `ListItem`. -/
structure Lists (ι α : Type) where
  lists : ι → LinkedList α
  next : α → Option α

namespace LinkedList

variable {α : Type}

def new : LinkedList α := ⟨none, none⟩

def isEmpty (l : LinkedList α) : Bool := l.head.isNone

end LinkedList

namespace Lists

variable {ι α : Type} [DecidableEq ι] [DecidableEq α]

/-- Every list empty, every item as `ListItem::new` makes it. -/
def new : Lists ι α := ⟨fun _ => LinkedList.new, fun _ => none⟩

/-- `ListItem::next_is_none`. -/
def nextIsNone (c : Lists ι α) (x : α) : Bool := (c.next x).isNone

/-- `LinkedList::push`: the item becomes the last one; the former last item is linked to it, and
without one it is the head too. The `next` field of the item itself is not written. -/
def push (c : Lists ι α) (l : ι) (x : α) : Lists ι α :=
  match (c.lists l).last with
  | some prevLast =>
    { lists := Function.update c.lists l { c.lists l with last := some x }
      next := Function.update c.next prevLast (some x) }
  | none => { c with lists := Function.update c.lists l ⟨some x, some x⟩ }

/-- `LinkedList::pop`: the head moves on to the `next` of the former head, which is returned with
that field as it was. -/
def pop (c : Lists ι α) (l : ι) : Option α × Lists ι α :=
  let result := (c.lists l).head
  let next := result.bind c.next
  let last := if next.isNone then none else (c.lists l).last
  (result, { c with lists := Function.update c.lists l ⟨next, last⟩ })

end Lists

/-- An operation on one of the lists. -/
inductive ListOp (ι α : Type) where
  | push (l : ι) (x : α)
  | pop (l : ι)
deriving DecidableEq, Repr

namespace ListOp

variable {ι α : Type} [DecidableEq ι] [DecidableEq α]

/-- The operation on the intrusive lists: what it returns, and the heap after it. -/
def exec (c : Lists ι α) : ListOp ι α → Option α × Lists ι α
  | .push l x => (none, c.push l x)
  | .pop l => c.pop l

/-- The operation on plain FIFO sequences, one for each list. -/
def spec (q : ι → List α) : ListOp ι α → Option α × (ι → List α)
  | .push l x => (none, Function.update q l (q l ++ [x]))
  | .pop l => ((q l).head?, Function.update q l (q l).tail)

/-- An item is pushed only while it is in no list. -/
def Guarded (q : ι → List α) : ListOp ι α → Prop
  | .push _ x => ∀ l, x ∉ q l
  | .pop _ => True

/-- The values that a sequence of operations returns, on the intrusive lists. -/
def results (c : Lists ι α) : List (ListOp ι α) → List (Option α)
  | [] => []
  | op :: ops => (op.exec c).1 :: results (op.exec c).2 ops

/-- Every operation of the sequence is guarded, from the queues `q` on. -/
def GuardedRun (q : ι → List α) : List (ListOp ι α) → Prop
  | [] => True
  | op :: ops => op.Guarded q ∧ GuardedRun (op.spec q).2 ops

end ListOp

end Zoeax
