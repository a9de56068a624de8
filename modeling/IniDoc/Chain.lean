import Std.Data.TreeMap
import IniDoc.Text.LowerCase

/-!
# Chains

A chain keeps named values in an order in which new values can be put anywhere, and finds them by name. A value gets
the next free number when it is put in and keeps it; the order lives in links between numbers.

* `Chain.find?` looks a name up by its folded form.
* `Chain.insert` and `Chain.put` put a value at either end, or before or behind another one.
* `Chain.order` follows the links from the head; `Chain.toList` is the values in that order.
-/

namespace IniDoc

open Text (foldName)

/-- A value of a chain and the numbers of its neighbours. -/
structure Chain.Node (α : Type) where
  value : α
  prev : Option Nat
  next : Option Nat
  deriving Repr

/-- Named values in order. The index takes the folded form of a name to the number of its value. -/
structure Chain (α : Type) where
  index : Std.TreeMap String Nat
  nodes : Array (Chain.Node α)
  head : Option Nat
  tail : Option Nat

namespace Chain

/-- Where a new value goes. -/
inductive Place where
  | front
  | back
  | before (anchor : Nat)
  | behind (anchor : Nat)
  deriving Repr, DecidableEq

variable {α : Type}

/-- The chain of no values. -/
def empty : Chain α := ⟨{}, #[], none, none⟩

instance : EmptyCollection (Chain α) := ⟨empty⟩

instance : Inhabited (Chain α) := ⟨empty⟩

/-- The number of values. -/
def size (chain : Chain α) : Nat := chain.nodes.size

/-- Whether there are no values. -/
def isEmpty (chain : Chain α) : Bool := chain.nodes.isEmpty

/-- The number of the value that was put in under a name, whatever its case. -/
def find? (chain : Chain α) (name : String) : Option Nat := chain.index[foldName name]?

/-- The value with a number. -/
def get? (chain : Chain α) (i : Nat) : Option α := chain.nodes[i]?.map (·.value)

/-- Changes the value with a number, in its place and under its name. -/
def modify (chain : Chain α) (i : Nat) (f : α → α) : Chain α :=
  { chain with nodes := chain.nodes.modify i fun node => { node with value := f node.value } }

/-- The number behind another one in the order. -/
def next? (chain : Chain α) (i : Nat) : Option Nat := chain.nodes[i]?.bind (·.next)

/-- The number before another one in the order. -/
def prev? (chain : Chain α) (i : Nat) : Option Nat := chain.nodes[i]?.bind (·.prev)

/-- The numbers reached by following at most `fuel` links. -/
def follow (chain : Chain α) : (fuel : Nat) → Option Nat → List Nat
  | 0, _ => []
  | _, none => []
  | fuel + 1, some i => i :: chain.follow fuel (chain.next? i)

/-- The numbers in order. -/
def order (chain : Chain α) : List Nat := chain.follow chain.size chain.head

/-- The values in order. -/
def toList (chain : Chain α) : List α := chain.order.filterMap chain.get?

/-! ## Putting values in -/

/-- Sets the link to the number before. -/
def Node.linkPrev (i : Option Nat) (node : Node α) : Node α := { node with prev := i }

/-- Sets the link to the number behind. -/
def Node.linkNext (i : Option Nat) (node : Node α) : Node α := { node with next := i }

/-- Links a loose number before another one. -/
def linkBefore (chain : Chain α) (i anchor : Nat) : Chain α :=
  let prev := chain.prev? anchor
  let nodes := chain.nodes.modify i fun node => (node.linkPrev prev).linkNext (some anchor)
  let nodes := nodes.modify anchor (·.linkPrev (some i))
  match prev with
  | some p => { chain with nodes := nodes.modify p (·.linkNext (some i)) }
  | none => { chain with nodes, head := some i }

/-- Links a loose number behind another one. -/
def linkBehind (chain : Chain α) (i anchor : Nat) : Chain α :=
  let next := chain.next? anchor
  let nodes := chain.nodes.modify i fun node => (node.linkPrev (some anchor)).linkNext next
  let nodes := nodes.modify anchor (·.linkNext (some i))
  match next with
  | some n => { chain with nodes := nodes.modify n (·.linkPrev (some i)) }
  | none => { chain with nodes, tail := some i }

/-- Whether a chain has the anchor of a place, if the place has one. -/
def hasAnchor (chain : Chain α) : Place → Bool
  | .front | .back => true
  | .before anchor | .behind anchor => anchor < chain.size

/-- Adds a value that no link leads to, under a name that is not yet taken. -/
def register (chain : Chain α) (name : String) (value : α) : Chain α :=
  { chain with
    index := chain.index.insert (foldName name) chain.size
    nodes := chain.nodes.push ⟨value, none, none⟩ }

/-- Puts the last number at a place. The first value of all is both head and tail. -/
def link (chain : Chain α) (i : Nat) (place : Place) : Chain α :=
  match chain.head, chain.tail with
  | some head, some tail =>
    match place with
    | .front => chain.linkBefore i head
    | .back => chain.linkBehind i tail
    | .before anchor => chain.linkBefore i anchor
    | .behind anchor => chain.linkBehind i anchor
  | _, _ => { chain with head := some i, tail := some i }

/-- Puts a value in at a place that the chain has, under a name that is not yet taken. Its number is the chain's
size. -/
def put (chain : Chain α) (name : String) (value : α) (place : Place) : Chain α :=
  (chain.register name value).link chain.size place

/-- Puts a value in and gives its number. A place next to a number that the chain does not have is refused. -/
def insert (chain : Chain α) (name : String) (value : α) (place : Place) : Option (Nat × Chain α) :=
  if chain.hasAnchor place then some (chain.size, chain.put name value place) else none

end Chain

end IniDoc
