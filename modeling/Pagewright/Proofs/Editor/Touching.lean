import Pagewright.Proofs.Editor.Checking
import Pagewright.Proofs.Page.Frame
import Pagewright.Proofs.Page.Preorder

/-!
# Edits of one node

An attribute or a text is set on the node that the search for the id gives. The search and the
change go down the page each on their own; this file says that they meet at one node.

* `touches_modifyLabel` -- the change of a label touches the first node in pre-order with the id;
* `Edit.touches_one_node` -- **an attribute or a text that is set leaves all else as it was**, on
  every page, also where the id is on it twice.
-/

namespace Pagewright

/-- **The first node with the id has its label changed, and no other is touched.** -/
theorem Forest.touches_modifyLabel {ns ms : Forest} {id : String} {f : Label → Label}
    (h : ns.modifyLabel id f = .ok ms) :
    ∃ p n, ns.firstVisit id = some (p, n) ∧ ns.nodeAt p = some n ∧
      ns.Touches ms p (f n.label) := by
  obtain ⟨p, hp, hm⟩ := exists_of_modifyLabel h
  obtain ⟨n, hn, _⟩ := nodeAt_of_pathOf hp
  exact ⟨p, n, firstVisit_of_pathOf hp hn, hn,
    touches_modifyAt (f := fun n => ⟨f n.label, n.list⟩) hm hn rfl⟩

namespace Edit

open Forest

variable {page page' : Forest}

/-- The edit was made on the page, anew or from the history. -/
def Makes (e : Edit) (page page' : Forest) : Prop :=
  e.apply page = .ok page' ∨ e.restore page = .ok page'

theorem perform_of_makes {e : Edit} (h : e.Makes page page') : perform page e = .ok page' := by
  have hmade : e.restore page = .ok page' := h.elim restore_of_apply fun h => h
  exact ((restore_eq_ok_iff e page page').mp hmade).2

/-- **Setting an attribute or a text touches one node.** On every page, whatever ids it has, the
    page keeps its shape, its ids and its tags, and every node is by itself as it was but for the
    first in pre-order with the id. On this node

    * the name of the attribute reads as the value that was set, or as nothing where it was taken
      away, and every other name as before; the text, the children and all else are as they were;
    * or the text is the one that was set, and nothing else is another. -/
theorem touches_one_node (page page' : Forest) :
    (∀ id name value, (setAttribute id name value).Makes page page' →
      ∃ p n l, page.firstVisit id = some (p, n) ∧ page.Touches page' p l ∧
        (∀ q, (page'.nodeAt q).map Node.mark = (page.nodeAt q).map Node.mark) ∧
        l.valueOf name = value ∧
        (∀ other, other ≠ name → l.valueOf other = n.label.valueOf other) ∧
        l = { n.label with attr := l.attr }) ∧
    ∀ id text, (setText id text).Makes page page' →
      ∃ p n, page.firstVisit id = some (p, n) ∧
        page.Touches page' p { n.label with text := some text } ∧
        ∀ q, (page'.nodeAt q).map Node.mark = (page.nodeAt q).map Node.mark := by
  constructor
  · intro id name value h
    obtain ⟨p, n, hfirst, hn, htouches⟩ := touches_modifyLabel
      (f := (·.setAttribute name value)) (perform_of_makes h)
    have hvalue := n.label.valueOf_setAttribute name value
    obtain ⟨attr, hl⟩ := n.label.setAttribute_eq name value
    rw [hl] at htouches hvalue
    refine ⟨p, n, _, hfirst, htouches, htouches.mark hn rfl rfl, ?_, fun other hne => ?_, rfl⟩
    · rw [hvalue, if_pos rfl]
    · rw [hvalue, if_neg hne]
  · intro id text h
    obtain ⟨p, n, hfirst, hn, htouches⟩ := touches_modifyLabel
      (f := fun l => { l with text := some text }) (perform_of_makes h)
    exact ⟨p, n, hfirst, htouches, htouches.mark hn rfl rfl⟩

/-- Two texts share an id, and the first has two attributes. -/
def doubled : Forest :=
  [⟨Label.ofTag "div",
      some [⟨{ Label.ofTag "text" with
        id := some "x", attr := some (.ofPairs [("class", .str "red"), ("title", .str "T")]) },
        none⟩]⟩,
    ⟨{ Label.ofTag "text" with id := some "x" }, none⟩]

/-- An attribute is taken from the first text, and a text set on it; the second keeps what it has. -/
theorem touches_one_node_doubled :
    (∃ page' p n l, (setAttribute "x" "class" none).Makes doubled page' ∧
      doubled.firstVisit "x" = some (p, n) ∧ doubled.Touches page' p l ∧
      l.valueOf "class" = none ∧ l.valueOf "title" = n.label.valueOf "title") ∧
    ∃ page' p n, (setText "x" "Hello").Makes doubled page' ∧
      doubled.firstVisit "x" = some (p, n) ∧
      doubled.Touches page' p { n.label with text := some "Hello" } := by
  have hattr : (setAttribute "x" "class" none).Makes doubled _ := Or.inl rfl
  have htext : (setText "x" "Hello").Makes doubled _ := Or.inr rfl
  obtain ⟨p, n, l, hfirst, htouches, _, hvalue, hother, _⟩ :=
    (touches_one_node doubled _).1 "x" "class" none hattr
  obtain ⟨p', n', hfirst', htouches', _⟩ := (touches_one_node doubled _).2 "x" "Hello" htext
  exact ⟨⟨_, p, n, l, hattr, hfirst, htouches, hvalue, hother "title" (by decide)⟩,
    _, p', n', htext, hfirst', htouches'⟩

end Edit

end Pagewright
