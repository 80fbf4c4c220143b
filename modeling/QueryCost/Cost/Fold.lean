/-
  QueryCost.Cost.Fold — adding up a cost tree.

  The fold goes through the tree with a stack of its own, so chains of spreads may be of
  any length. A frame of the stack is a node part of whose children are added up, or the
  mark under a fragment's body. Each step takes up the top frame:

  - a node with a child left goes back with its cursor behind that child, and the child
    comes on top: a node as a new frame, a fragment as its mark and its body;
  - a node without one leaves its complexity in `folded`, for the frame below it;
  - a mark keeps the value below `folded` as the value of its fragment.

  A fragment is added up once and its value used for every spread. A spread of a
  fragment that is being added up is a cycle, and ends the fold.

  `CostTree.stepBound` is how many steps a tree can take in which children have higher
  numbers than their parents; the fold takes no more than that.
-/

import QueryCost.Cost.Tree
import QueryCost.Event

namespace QueryCost

inductive Frame where
  /-- A node, the number of its children that are added up, and what they cost. -/
  | node (id : NodeId) (next : Nat) (children : Size)
  /-- The end of a fragment's body. -/
  | fragment (name : String)
  deriving DecidableEq, Repr

structure Folder where
  /-- The top first. -/
  stack : List Frame
  /-- What the frame that was taken up last came to, until it is used. -/
  folded : Option Size
  /-- The values of the fragments that are added up. -/
  known : Table String Size
  /-- The fragments being added up, the outermost first. -/
  inProgress : List String
  /-- The same fragments, for the test. -/
  inProgressNames : NameSet
  log : List Event
  deriving DecidableEq, Repr

inductive FoldResult where
  | total (value : Size)
  /-- Fragments that spread each other, the first and the last being the same. -/
  | cycle (fragments : List String)
  /-- More steps were needed than allowed. -/
  | unfinished
  deriving DecidableEq, Repr

namespace Folder

def start (root : NodeId) : Folder := ⟨[.node root 0 0], none, ∅, [], ∅, []⟩

/-- Takes up a spread: uses the fragment's value, finds a cycle, or begins the
    fragment's body. -/
def enterFragment (t : CostTree) (name : String) (s : Folder) : Except (List String) Folder :=
  match s.known.get? name with
  | some value => .ok { s with folded := some value }
  | none =>
    if name ∈ s.inProgressNames then .error (s.inProgress.dropWhile (· ≠ name) ++ [name])
    else
      match t.fragments.get? name with
      | none => .ok { s with folded := some 0, log := s.log ++ [.undefinedFragment name] }
      | some id =>
        .ok { s with
          stack := .node id 0 0 :: .fragment name :: s.stack
          folded := none
          inProgress := s.inProgress ++ [name]
          inProgressNames := s.inProgressNames.add name }

/-- Takes up the top frame. -/
def step (t : CostTree) (defaultComplexity : Size) (s : Folder) : Except (List String) Folder :=
  match s.stack with
  | [] => .ok s
  | .node id next children :: rest =>
    let children := children + s.folded.getD 0
    match (t.node id).children[next]? with
    | none =>
      .ok { s with stack := rest, folded := some ((t.node id).complexity defaultComplexity children) }
    | some (.node child) =>
      .ok { s with stack := .node child 0 0 :: .node id (next + 1) children :: rest, folded := none }
    | some (.fragment name) =>
      enterFragment t name { s with stack := .node id (next + 1) children :: rest, folded := none }
  | .fragment name :: rest =>
    let value := s.folded.getD 0
    .ok { s with
      stack := rest
      folded := some value
      known := s.known.insert name value
      inProgress := s.inProgress.dropLast
      inProgressNames := s.inProgressNames.remove name }

/-- Steps until the stack is empty, at most `n` of them. -/
def run (t : CostTree) (defaultComplexity : Size) : Nat → Folder → FoldResult × List Event
  | n, s =>
    if s.stack.isEmpty then (.total (s.folded.getD 0), s.log)
    else
      match n with
      | 0 => (.unfinished, s.log)
      | n + 1 =>
        match s.step t defaultComplexity with
        | .ok s => run t defaultComplexity n s
        | .error fragments => (.cycle fragments, s.log)

end Folder

namespace CostTree

/-- How many steps a child of node `i` takes, `later` being those of the nodes after `i`.
    A spread takes none of its own: the fragments are counted apart. -/
def childSteps (later : List Nat) (i : NodeId) : Child → Nat
  | .node c => if i < c then later[c - i - 1]?.getD 1 else 0
  | .fragment _ => 0

/-- How many steps each of these nodes takes, the first being number `i`: one for every
    child, one at its end, and those of its children. -/
def nodeSteps (i : NodeId) : List CostNode → List Nat
  | [] => []
  | n :: rest =>
    let later := nodeSteps (i + 1) rest
    (n.children.length + 1 + (n.children.map (childSteps later i)).foldr (· + ·) 0) :: later

/-- The steps of the root and, once each, of the bodies and marks of the fragments. -/
def stepBound (t : CostTree) (root : NodeId) : Nat :=
  let steps := nodeSteps 0 t.nodes.toList
  steps[root]?.getD 1 + (t.fragments.values.map fun id => steps[id]?.getD 1 + 1).foldr (· + ·) 0

/-- What the node `root` costs, with the events of the fold. -/
def fold (t : CostTree) (root : NodeId) (defaultComplexity : Size) : FoldResult × List Event :=
  Folder.run t defaultComplexity (t.stepBound root) (.start root)

end CostTree

end QueryCost
