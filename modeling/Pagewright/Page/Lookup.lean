import Pagewright.Page.Node

/-!
# Looking nodes up

A node is found by its id, the first in pre-order, or by its path: the places to take from the top
level down.

* By id there are three readings of one search: the node with its parent and place (`Forest.find`),
  its path (`Forest.pathOf`), and whether it is there at all (`Node.contains`).
* By path a node is read (`Forest.nodeAt`), changed (`Forest.modifyAt`), or its list of children is
  changed (`Forest.modifyChildrenAt`); asking for the list makes one where there is none.

The empty id belongs to no node, so it finds none.
-/

namespace Pagewright

/-! ## 1. By id -/

/-- A node that was found: with its parent, unless it is at top level, and its place there. -/
structure Match where
  node : Node
  parent : Option Node
  position : Nat

mutual

/-- The first node with this id, at a node that stands at a place below a parent. -/
def Node.findFrom (id : String) (parent : Option Node) (position : Nat) : Node → Option Match
  | ⟨l, none⟩ => if l.ident = some id then some ⟨⟨l, none⟩, parent, position⟩ else none
  | ⟨l, some cs⟩ =>
      if l.ident = some id then some ⟨⟨l, some cs⟩, parent, position⟩
      else Forest.findFrom id (some ⟨l, some cs⟩) 0 cs

/-- The first node with this id, among nodes from a place below a parent on. -/
def Forest.findFrom (id : String) (parent : Option Node) (position : Nat) :
    List Node → Option Match
  | [] => none
  | n :: ns =>
      match n.findFrom id parent position with
      | some found => some found
      | none => Forest.findFrom id parent (position + 1) ns

end

/-- The first node with this id. -/
def Forest.find (ns : Forest) (id : String) : Option Match := Forest.findFrom id none 0 ns

mutual

/-- The path to the first node with this id, at a node of the given place. -/
def Node.pathFrom (id : String) (position : Nat) : Node → Option (List Nat)
  | ⟨l, none⟩ => if l.ident = some id then some [position] else none
  | ⟨l, some cs⟩ =>
      if l.ident = some id then some [position]
      else (Forest.pathFrom id 0 cs).map (position :: ·)

/-- The path to the first node with this id, among nodes from a place on. -/
def Forest.pathFrom (id : String) (position : Nat) : List Node → Option (List Nat)
  | [] => none
  | n :: ns =>
      match n.pathFrom id position with
      | some path => some path
      | none => Forest.pathFrom id (position + 1) ns

end

/-- The path to the first node with this id. -/
def Forest.pathOf (ns : Forest) (id : String) : Option (List Nat) := Forest.pathFrom id 0 ns

mutual

/-- Whether the node or one below it has this id. -/
def Node.contains (id : String) : Node → Bool
  | ⟨l, none⟩ => l.ident = some id
  | ⟨l, some cs⟩ => l.ident = some id || Forest.contains id cs

/-- Whether one of the nodes, or one below them, has this id. -/
def Forest.contains (id : String) : List Node → Bool
  | [] => false
  | n :: ns => n.contains id || Forest.contains id ns

end

/-! ## 2. By path -/

/-- The node at a path; nothing for the empty path. -/
def Forest.nodeAt : Forest → List Nat → Option Node
  | _, [] => none
  | ns, [i] => ns[i]?
  | ns, i :: j :: path =>
      match ns[i]? with
      | none => none
      | some n => Forest.nodeAt n.children (j :: path)

/-- The page with the node at a path changed; nothing where there is no such node. -/
def Forest.modifyAt (f : Node → Node) : Forest → List Nat → Option Forest
  | _, [] => none
  | ns, [i] =>
      match ns[i]? with
      | none => none
      | some n => some (ns.set i (f n))
  | ns, i :: j :: path =>
      match ns[i]? with
      | none => none
      | some n =>
          match n.list with
          | none => none
          | some cs =>
              match Forest.modifyAt f cs (j :: path) with
              | none => none
              | some cs' => some (ns.set i ⟨n.label, some cs'⟩)

/-- The page with the list of children at a path changed, the top level for the empty path. A node
    without a list is given an empty one first. -/
def Forest.modifyChildrenAt (f : List Node → List Node) (ns : Forest) : List Nat → Option Forest
  | [] => some (f ns)
  | i :: path => Forest.modifyAt (fun n => ⟨n.label, some (f n.children)⟩) ns (i :: path)

end Pagewright
