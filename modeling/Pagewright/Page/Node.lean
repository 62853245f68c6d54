import Pagewright.Page.Attributes

/-!
# Page trees

A page is a list of nodes, top level first. A node has a label and, below it, perhaps a list of
children:

* the label is everything but the children: an id, the tag, attributes and a text, of which only
  the tag is always there;
* an id that is written but empty counts as none (`Label.ident`);
* a list of children that is absent and one that is empty are two different trees, and so are
  absent and empty attributes; most readings treat them alike (`Node.children`).

Everything that visits a page does so in pre-order: a node before its children, the children from
first to last. The two general visits are `Forest.labels`, which lists, and `Forest.relabel`,
which changes labels and carries a state along.
-/

namespace Pagewright

/-! ## 1. Labels -/

/-- The tag of nodes that stand for literal text. -/
def textTag : String := "text"

/-- A node without its children. -/
structure Label where
  id : Option String
  tag : String
  attr : Option Attributes
  text : Option String

namespace Label

instance : Inhabited Label := ⟨⟨none, "", none, none⟩⟩

/-- A label with nothing but a tag. -/
def ofTag (tag : String) : Label := ⟨none, tag, none, none⟩

/-- The id, where it is there and not empty. -/
def ident (l : Label) : Option String := l.id.filter (· ≠ "")

/-- Whether the label stands for literal text. -/
def isText (l : Label) : Bool := l.tag = textTag

/-- The literal text; empty where there is none. -/
def textContent (l : Label) : String := l.text.getD ""

/-- The value of an attribute. -/
def valueOf (l : Label) (name : String) : Option Json := l.attr.bind (·.find name)

/-- The text of an attribute whose value is a string. -/
def textOf (l : Label) (name : String) : Option String :=
  (l.valueOf name).bind Json.text?

/-- The label with another id. -/
def withId (l : Label) (id : String) : Label := { l with id := some id }

/-- The label with an attribute written. -/
def putAttribute (l : Label) (name : String) (value : Json) : Label :=
  { l with attr := some ((l.attr.getD .empty).put name value) }

/-- The label with an attribute taken out. Attributes that are left empty are gone. -/
def eraseAttribute (l : Label) (name : String) : Label :=
  match l.attr with
  | none => l
  | some a => { l with attr := if (a.erase name).isEmpty then none else some (a.erase name) }

/-- Writes an attribute, or takes it out where no value is given. -/
def setAttribute (l : Label) (name : String) : Option Json → Label
  | some value => l.putAttribute name value
  | none => l.eraseAttribute name

/-- Whether two labels agree; attributes are compared up to order. -/
def same (a b : Label) : Bool :=
  a.id == b.id && a.tag == b.tag && a.text == b.text &&
    match a.attr, b.attr with
    | none, none => true
    | some x, some y => Json.same (.obj x.entries) (.obj y.entries)
    | _, _ => false

end Label

/-! ## 2. Nodes -/

/-- A label with its children, where it has a list of them. -/
inductive Node where
  | mk (label : Label) (list : Option (List Node))

/-- Nodes side by side: a page, or the children of a node. -/
abbrev Forest := List Node

namespace Node

instance : Inhabited Node := ⟨⟨default, none⟩⟩

/-- The node without its children. -/
def label : Node → Label
  | ⟨l, _⟩ => l

/-- The list of children, where there is one. -/
def list : Node → Option (List Node)
  | ⟨_, cs⟩ => cs

/-- The children; none where there is no list. -/
def children (n : Node) : List Node := n.list.getD []

@[simp] theorem label_mk (l : Label) (cs : Option (List Node)) : (Node.mk l cs).label = l := rfl

@[simp] theorem list_mk (l : Label) (cs : Option (List Node)) : (Node.mk l cs).list = cs := rfl

@[simp] theorem children_mk (l : Label) (cs : Option (List Node)) :
    (Node.mk l cs).children = cs.getD [] := rfl

@[simp] theorem eta (n : Node) : Node.mk n.label n.list = n := by
  cases n
  rfl

/-- The id, where it is there and not empty. -/
def ident (n : Node) : Option String := n.label.ident

/-- The tag. -/
def tag (n : Node) : String := n.label.tag

/-- A node with nothing but a tag. -/
def ofTag (tag : String) : Node := ⟨.ofTag tag, none⟩

/-- A node of literal text. -/
def ofText (text : String) : Node := ⟨{ Label.ofTag textTag with text := some text }, none⟩

/-- The node with another id. -/
def withId (n : Node) (id : String) : Node := ⟨n.label.withId id, n.list⟩

/-- The node with an attribute written. -/
def withAttribute (n : Node) (name : String) (value : Json) : Node :=
  ⟨n.label.putAttribute name value, n.list⟩

/-- The node with one more child at the end. -/
def withChild (n child : Node) : Node := ⟨n.label, some (n.children ++ [child])⟩

/-- The node with these children. -/
def withChildren (n : Node) (children : List Node) : Node := ⟨n.label, some children⟩

/-- The node without a list of children. -/
def bare (n : Node) : Node := ⟨n.label, none⟩

end Node

/-! ## 3. Visits in pre-order -/

mutual

/-- The labels of a node and of everything below it. -/
def Node.labels : Node → List Label
  | ⟨l, none⟩ => [l]
  | ⟨l, some cs⟩ => l :: Forest.labels cs

/-- The labels of a page, in pre-order. -/
def Forest.labels : List Node → List Label
  | [] => []
  | n :: ns => n.labels ++ Forest.labels ns

end

mutual

/-- Changes the labels of a node and of everything below it, carrying a state along. -/
def Node.relabel {σ : Type} (f : Label → σ → Label × σ) : Node → σ → Node × σ
  | ⟨l, none⟩, s => (⟨(f l s).1, none⟩, (f l s).2)
  | ⟨l, some cs⟩, s =>
      let below := Forest.relabel f cs (f l s).2
      (⟨(f l s).1, some below.1⟩, below.2)

/-- Changes the labels of a page in pre-order, carrying a state along. -/
def Forest.relabel {σ : Type} (f : Label → σ → Label × σ) : List Node → σ → List Node × σ
  | [], s => ([], s)
  | n :: ns, s =>
      let first := Node.relabel f n s
      let rest := Forest.relabel f ns first.2
      (first.1 :: rest.1, rest.2)

end

mutual

/-- The labels of a node and of what lies below it, but not below a label that stops the visit. -/
def Node.labelsUntil (stop : Label → Bool) : Node → List Label
  | ⟨l, none⟩ => [l]
  | ⟨l, some cs⟩ => l :: (if stop l then [] else Forest.labelsUntil stop cs)

/-- The labels of a page in pre-order, without what lies below a label that stops the visit. -/
def Forest.labelsUntil (stop : Label → Bool) : List Node → List Label
  | [] => []
  | n :: ns => n.labelsUntil stop ++ Forest.labelsUntil stop ns

end

/-! ## 4. Sameness -/

mutual

/-- Whether two nodes agree; absent and empty are told apart, the order of attributes is not. -/
def Node.same : Node → Node → Bool
  | ⟨a, none⟩, ⟨b, none⟩ => a.same b
  | ⟨a, some as⟩, ⟨b, some bs⟩ => a.same b && Forest.same as bs
  | _, _ => false

/-- Whether two pages agree, node by node. -/
def Forest.same : List Node → List Node → Bool
  | [], [] => true
  | a :: as, b :: bs => a.same b && Forest.same as bs
  | _, _ => false

end

end Pagewright
