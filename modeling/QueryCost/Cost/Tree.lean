/-
  QueryCost.Cost.Tree — what the selections of a document cost, before it is added up.

  A node stands for a field, or for what only groups its children: the document and
  each fragment. Nodes are numbered in the order they are made and refer to their
  children by number. A spread refers to its fragment by name, so a fragment may be
  spread before it is known and any number of times.
-/

import QueryCost.Cost.Declared
import QueryCost.Table

namespace QueryCost

abbrev NodeId := Nat

inductive NodeKind where
  | container
  | field (cost : Option DeclaredCost)
  deriving DecidableEq, Repr

inductive Child where
  | node (id : NodeId)
  | fragment (name : String)
  deriving DecidableEq, Repr

structure CostNode where
  kind : NodeKind
  /-- The flat cost of the type the field leads to. -/
  ownComplexity : Size
  /-- The list sizes given by arguments. -/
  multipliers : List Size
  children : List Child
  deriving DecidableEq, Repr

namespace CostNode

def container : CostNode := ⟨.container, 0, [], []⟩

def field (cost : Option DeclaredCost) : CostNode := ⟨.field cost, 0, [], []⟩

/-- What a node costs when its children cost `children` together.

    A list costs its base, the complexity of one element with all below it, once for
    every element; sizes given by several arguments add up. -/
def complexity (n : CostNode) (defaultComplexity children : Size) : Size :=
  match n.kind with
  | .container => children
  | .field (some (.list complexity assumedSize _)) =>
    let base := complexity.getD 0 + n.ownComplexity + children
    if n.multipliers.isEmpty then base * assumedSize.getD 0
    else n.multipliers.foldl (fun total size => total + base * size) 0
  | .field (some (.flat complexity)) => complexity.getD defaultComplexity + children
  | .field none => defaultComplexity + children

end CostNode

structure CostTree where
  nodes : Array CostNode
  /-- The node of each fragment. -/
  fragments : Table String NodeId
  deriving DecidableEq, Repr

namespace CostTree

def empty : CostTree := ⟨#[], ∅⟩

instance : Inhabited CostTree := ⟨empty⟩

/-- The node of this number; a number no node has is that of an empty group. -/
def node (t : CostTree) (id : NodeId) : CostNode := t.nodes[id]?.getD .container

/-- The number the next node gets. -/
def nextId (t : CostTree) : NodeId := t.nodes.size

def push (t : CostTree) (n : CostNode) : CostTree := { t with nodes := t.nodes.push n }

/-- Adds a child at the end of a node's children. -/
def attach (t : CostTree) (parent : NodeId) (child : Child) : CostTree :=
  { t with nodes := t.nodes.modify parent fun n => { n with children := n.children ++ [child] } }

/-- Names the node of a fragment; the first node a name is given stays. -/
def register (t : CostTree) (fragment : String) (id : NodeId) : CostTree :=
  { t with fragments := t.fragments.insertNew fragment id }

@[simp] theorem nextId_push (t : CostTree) (n : CostNode) : (t.push n).nextId = t.nextId + 1 := by
  simp [push, nextId]

@[simp] theorem nextId_attach (t : CostTree) (parent : NodeId) (child : Child) :
    (t.attach parent child).nextId = t.nextId := by simp [attach, nextId]

@[simp] theorem nextId_register (t : CostTree) (f : String) (id : NodeId) : (t.register f id).nextId = t.nextId := rfl

@[simp] theorem fragments_push (t : CostTree) (n : CostNode) : (t.push n).fragments = t.fragments := rfl

@[simp] theorem fragments_attach (t : CostTree) (parent : NodeId) (child : Child) :
    (t.attach parent child).fragments = t.fragments := rfl

@[simp] theorem node_register (t : CostTree) (f : String) (id n : NodeId) : (t.register f id).node n = t.node n := rfl

@[simp] theorem node_push_new (t : CostTree) (n : CostNode) : (t.push n).node t.nextId = n := by
  simp [node, push, nextId]

theorem node_push_of_ne (t : CostTree) (n : CostNode) {id : NodeId} (h : id ≠ t.nextId) :
    (t.push n).node id = t.node id := by
  have h' : id ≠ t.nodes.size := h
  simp [node, push, Array.getElem?_push, h']

theorem node_attach_self (t : CostTree) {parent : NodeId} (h : parent < t.nextId) (child : Child) :
    (t.attach parent child).node parent =
      { t.node parent with children := (t.node parent).children ++ [child] } := by
  have h' : parent < t.nodes.size := h
  simp only [node, attach, Array.getElem?_modify, if_true, Array.getElem?_eq_getElem h', Option.map_some,
    Option.getD_some]

theorem node_attach_of_ne (t : CostTree) {parent id : NodeId} (h : id ≠ parent) (child : Child) :
    (t.attach parent child).node id = t.node id := by
  simp [node, attach, Array.getElem?_modify, Ne.symm h]

end CostTree

end QueryCost
