import Mathlib.Data.List.Nodup
import Pagewright.Editor.Outline
import Pagewright.Proofs.Page.Preorder

/-!
# What the outline shows

The rows of a page stand as its tags do, but that a literal text in front of all other children of a
tag has no row, and neither has what lies below it.

* `Forest.shown` -- the page without these texts; `map_visits_outline` says that **the rows are the
  nodes of this page**, in the same order and at the same places;
* `Forest.Folded` -- the places without a row: those of such a text, and those below it.
  `mem_labels_shown_iff` says that all other nodes of the page are shown;
* `outline_shows` -- with this, **which rows are marked**: where ids are distinct, that of the
  selected tag alone, and none where this tag has no row.
-/

namespace Pagewright

/-! ## 1. Rows in order -/

mutual

theorem Outline.below_induct {Q : List Outline → Prop} (nil : Q [])
    (cons : ∀ o os, Q o.children → Q os → Q (o :: os)) : ∀ o : Outline, Q o.children
  | ⟨_, os⟩ => Outline.induct nil cons os

/-- **A statement holds of all rows** that holds of none and goes from the rows below a row and its
    later neighbours to the row with these neighbours. -/
@[elab_as_elim]
theorem Outline.induct {Q : List Outline → Prop} (nil : Q [])
    (cons : ∀ o os, Q o.children → Q os → Q (o :: os)) : ∀ os : List Outline, Q os
  | [] => nil
  | o :: os => cons o os (Outline.below_induct nil cons o) (Outline.induct nil cons os)

end

mutual

/-- A row and those below it in pre-order with their paths, for a row with this number. -/
def Outline.visitFrom (k : Nat) : Outline → List (List Nat × Row)
  | ⟨r, os⟩ => ([k], r) :: (Outline.visitsFrom 0 os).map fun v => (k :: v.1, v.2)

/-- Rows in pre-order with their paths, where the first has this number. -/
def Outline.visitsFrom (k : Nat) : List Outline → List (List Nat × Row)
  | [] => []
  | o :: os => o.visitFrom k ++ Outline.visitsFrom (k + 1) os

end

namespace Outline

/-- Rows in pre-order, each with its path. -/
def visits (os : List Outline) : List (List Nat × Row) := visitsFrom 0 os

@[simp] theorem visitsFrom_nil (k : Nat) : visitsFrom k [] = [] := by rw [visitsFrom]

@[simp] theorem visitsFrom_cons (k : Nat) (o : Outline) (os : List Outline) :
    visitsFrom k (o :: os) =
      ([k], o.row) :: ((visitsFrom 0 o.children).map (fun v => (k :: v.1, v.2)) ++
        visitsFrom (k + 1) os) := by
  rcases o with ⟨r, below⟩
  rw [visitsFrom, visitFrom, List.cons_append]
  rfl

end Outline

/-! ## 2. The page without its folded texts -/

/-- The nodes without the first, where it is a literal text. -/
def Forest.dropText : List Node → List Node
  | [] => []
  | n :: ns => if n.label.isText then ns else n :: ns

/-- The literal text in front of the children, where there is one. -/
def Node.leadText (n : Node) : Option Node := n.children.head?.filter (·.label.isText)

mutual

/-- The node without the literal text in front of its children, and so for the nodes below it that
    are left. -/
def Node.shown : Node → Node
  | ⟨l, none⟩ => ⟨l, none⟩
  | ⟨l, some []⟩ => ⟨l, some []⟩
  | ⟨l, some (⟨fl, fcs⟩ :: rest)⟩ =>
      if fl.isText then ⟨l, some (Forest.shown rest)⟩
      else ⟨l, some (Node.shown ⟨fl, fcs⟩ :: Forest.shown rest)⟩

/-- The page without the literal texts in front of children, and without all that lies below such a
    text. -/
def Forest.shown : List Node → List Node
  | [] => []
  | n :: ns => n.shown :: Forest.shown ns

end

namespace Node

@[simp] theorem label_shown (n : Node) : n.shown.label = n.label := by
  rcases n with ⟨l, _ | _ | ⟨⟨fl, fcs⟩, rest⟩⟩
  · rw [shown]
  · rw [shown]
  · rw [shown]
    split <;> rfl

@[simp] theorem children_shown (n : Node) :
    n.shown.children = Forest.shown (Forest.dropText n.children) := by
  rcases n with ⟨l, _ | _ | ⟨⟨fl, fcs⟩, rest⟩⟩
  · rw [shown, children_mk, Option.getD_none, Forest.dropText, Forest.shown]
  · rw [shown, children_mk, Option.getD_some, Forest.dropText, Forest.shown]
  · rw [shown, children_mk, Option.getD_some, Forest.dropText, label_mk]
    by_cases htext : fl.isText = true
    · rw [if_pos htext, if_pos htext]
      rfl
    · rw [if_neg htext, if_neg htext, Forest.shown]
      rfl

/-- The row of a node takes in the text in front of its children; the others have rows below it. -/
theorem outline_eq (selected : Option String) (n : Node) :
    n.outline selected =
      ⟨n.label.row selected n.leadText,
        Forest.outline selected (Forest.dropText n.children)⟩ := by
  rcases n with ⟨l, _ | _ | ⟨⟨fl, fcs⟩, rest⟩⟩
  · rw [outline, children_mk, Option.getD_none, Forest.dropText, Forest.outline]
    rfl
  · rw [outline, children_mk, Option.getD_some, Forest.dropText, Forest.outline]
    rfl
  · rw [outline, children_mk, Option.getD_some, Forest.dropText, label_mk, leadText, children_mk,
      Option.getD_some, List.head?_cons, Option.filter_some, label_mk]
    by_cases htext : fl.isText = true
    · rw [if_pos htext, if_pos htext, if_pos htext]
    · rw [if_neg htext, if_neg htext, if_neg htext, Forest.outline]

end Node

namespace Forest

variable {ns : Forest} {l : Label} {id : String}

@[simp] theorem shown_nil : shown [] = [] := by rw [shown]

@[simp] theorem shown_cons (n : Node) (ns : Forest) : shown (n :: ns) = n.shown :: shown ns := by
  rw [shown]

/-- Either no text stands in front, and nothing is left out, or the first child is. -/
theorem dropText_cases (n : Node) :
    (n.leadText = none ∧ dropText n.children = n.children) ∨
      ∃ t rest, n.leadText = some t ∧ n.children = t :: rest ∧ dropText n.children = rest := by
  rw [Node.leadText]
  cases n.children with
  | nil => exact Or.inl ⟨rfl, by rw [dropText]⟩
  | cons t rest =>
      rw [dropText, List.head?_cons, Option.filter_some]
      by_cases htext : t.label.isText = true
      · rw [if_pos htext, if_pos htext]
        exact Or.inr ⟨t, rest, rfl, rfl, rfl⟩
      · rw [if_neg htext, if_neg htext]
        exact Or.inl ⟨rfl, rfl⟩

/-- A statement on all pages by one step: from the children of the first node without the text in
    front of them, and from its neighbours. -/
@[elab_as_elim]
theorem induct_dropText {Q : List Node → Prop} (nil : Q [])
    (cons : ∀ n ns, Q (dropText n.children) → Q ns → Q (n :: ns)) (ns : List Node) : Q ns := by
  have both : Q ns ∧ Q (dropText ns) := by
    induction ns using Forest.induct with
    | nil => exact ⟨nil, nil⟩
    | cons n ns below rest =>
        have hall := cons n ns below.2 rest.1
        refine ⟨hall, ?_⟩
        rw [dropText]
        split
        · exact rest.1
        · exact hall
  exact both.1

theorem map_visitsFrom_outline (selected : Option String) (ns : Forest) : ∀ k : Nat,
    (Outline.visitsFrom k (outline selected ns)).map (fun v => (v.1, v.2.id, v.2.source)) =
      (visitsFrom k (shown ns)).map fun v => (v.1, v.2.ident.getD "", v.2.bare) := by
  induction ns using induct_dropText with
  | nil => intro k; rw [outline, shown_nil, Outline.visitsFrom_nil, visitsFrom_nil]; rfl
  | cons n ns below rest =>
      intro k
      -- one number more in front of each path, before or after the rest of the row is read off
      have hbelow : ((Outline.visitsFrom 0 (outline selected (dropText n.children))).map
          fun v => (k :: v.1, v.2)).map (fun v => (v.1, v.2.id, v.2.source)) =
            ((visitsFrom 0 (shown (dropText n.children))).map fun v => (k :: v.1, v.2)).map
              fun v => (v.1, v.2.ident.getD "", v.2.bare) := by
        have hnumbered := congrArg (List.map fun v => (k :: v.1, v.2)) (below 0)
        rw [List.map_map, List.map_map] at hnumbered ⊢
        exact hnumbered
      have hown : (n.label.row selected n.leadText).id = n.shown.ident.getD "" := by
        rw [Node.ident, Node.label_shown]
        rfl
      have hbare : (n.label.row selected n.leadText).source = n.shown.bare := by
        rw [Node.bare, Node.label_shown]
        rfl
      rw [outline, shown_cons, n.outline_eq, Outline.visitsFrom_cons, visitsFrom_cons,
        List.map_cons, List.map_cons, List.map_append, List.map_append, Node.children_shown,
        ← hbelow, rest]
      exact congrArg (fun row => row :: _) (Prod.ext rfl (Prod.ext hown hbare))

/-- **The rows of a page are the nodes that are shown**, in the same order and at the same places. -/
theorem map_visits_outline (selected : Option String) (ns : Forest) :
    (Outline.visits (outline selected ns)).map (fun v => (v.1, v.2.id, v.2.source)) =
      (visits (shown ns)).map fun v => (v.1, v.2.ident.getD "", v.2.bare) :=
  map_visitsFrom_outline selected ns 0

theorem labels_shown_sublist (ns : Forest) : (labels (shown ns)).Sublist (labels ns) := by
  induction ns using induct_dropText with
  | nil => rw [shown_nil]
  | cons n ns below rest =>
      have hdrop : (labels (dropText n.children)).Sublist (labels n.children) := by
        rcases dropText_cases n with ⟨_, hdrop⟩ | ⟨t, rest, _, hchildren, hdrop⟩
        · rw [hdrop]
        · rw [hdrop, hchildren, labels_cons]
          exact (List.sublist_append_right _ _).cons _
      rw [shown_cons, labels_cons, labels_cons, Node.label_shown, Node.children_shown]
      exact ((below.trans hdrop).append rest).cons_cons _

/-! ## 3. Places without a row -/

/-- The place is that of a literal text in front of the children of a node, or lies below one. -/
def Folded (ns : Forest) (p : List Nat) : Prop :=
  ∃ q r t, q ≠ [] ∧ p = q ++ 0 :: r ∧ ns.nodeAt (q ++ [0]) = some t ∧ t.label.isText = true

/-- The same with the first number of the path apart. -/
theorem folded_iff {p : List Nat} : Folded ns p ↔ ∃ i q r t, p = i :: (q ++ 0 :: r) ∧
    ns.nodeAt (i :: (q ++ [0])) = some t ∧ t.label.isText = true := by
  constructor
  · rintro ⟨q, r, t, hq, rfl, ht, htext⟩
    obtain ⟨i, q, rfl⟩ := List.exists_cons_of_ne_nil hq
    exact ⟨i, q, r, t, rfl, ht, htext⟩
  · rintro ⟨i, q, r, t, rfl, ht, htext⟩
    exact ⟨i :: q, r, t, List.cons_ne_nil i q, rfl, ht, htext⟩

theorem not_folded_singleton (ns : Forest) (i : Nat) : ¬ Folded ns [i] := by
  rw [folded_iff]
  rintro ⟨j, q, r, t, hp, _⟩
  have hnil : [] = q ++ 0 :: r := (List.cons_eq_cons.mp hp).2
  exact List.append_ne_nil_of_right_ne_nil q (List.cons_ne_nil 0 r) hnil.symm

theorem folded_succ (n : Node) (ns : Forest) (i : Nat) (p : List Nat) :
    Folded (n :: ns) ((i + 1) :: p) ↔ Folded ns (i :: p) := by
  rw [folded_iff, folded_iff]
  constructor
  · rintro ⟨j, q, r, t, hp, ht, htext⟩
    obtain ⟨rfl, rfl⟩ := List.cons_eq_cons.mp hp
    rw [nodeAt_succ] at ht
    exact ⟨i, q, r, t, rfl, ht, htext⟩
  · rintro ⟨j, q, r, t, hp, ht, htext⟩
    obtain ⟨rfl, rfl⟩ := List.cons_eq_cons.mp hp
    exact ⟨i + 1, q, r, t, rfl, by rw [nodeAt_succ, ht], htext⟩

theorem folded_zero (n : Node) (ns : Forest) (p : List Nat) :
    Folded (n :: ns) (0 :: p) ↔
      (∃ r, p = 0 :: r ∧ n.leadText.isSome = true) ∨ Folded n.children p := by
  rw [folded_iff]
  constructor
  · rintro ⟨i, q, r, t, hp, ht, htext⟩
    obtain ⟨rfl, rfl⟩ := List.cons_eq_cons.mp hp
    cases q with
    | nil =>
        rw [List.nil_append, nodeAt_zero, nodeAt_singleton, ← List.head?_eq_getElem?] at ht
        refine Or.inl ⟨r, rfl, ?_⟩
        rw [Node.leadText, ht, Option.filter_some, if_pos htext]
        rfl
    | cons i q =>
        rw [List.cons_append, nodeAt_zero] at ht
        exact Or.inr (folded_iff.mpr ⟨i, q, r, t, rfl, ht, htext⟩)
  · rintro (⟨r, rfl, hsome⟩ | hfolded)
    · obtain ⟨t, ht⟩ := Option.isSome_iff_exists.mp hsome
      obtain ⟨hhead, htext⟩ := Option.filter_eq_some_iff.mp ht
      refine ⟨0, [], r, t, rfl, ?_, htext⟩
      rw [List.nil_append, nodeAt_zero, nodeAt_singleton, ← List.head?_eq_getElem?, hhead]
    · obtain ⟨i, q, r, t, rfl, ht, htext⟩ := folded_iff.mp hfolded
      exact ⟨0, i :: q, r, t, rfl, by rw [List.cons_append, nodeAt_zero, ht], htext⟩

/-- The places below a node that have rows, told without the text in front of its children. -/
theorem exists_below_iff (n : Node) (ns : Forest) :
    (∃ p m, nodeAt (dropText n.children) p = some m ∧ m.label = l ∧
        ¬ Folded (dropText n.children) p) ↔
      ∃ p m, nodeAt n.children p = some m ∧ m.label = l ∧ ¬ Folded (n :: ns) (0 :: p) := by
  rcases dropText_cases n with ⟨hlead, hdrop⟩ | ⟨t, rest, hlead, hchildren, hdrop⟩
  · have hsame : ∀ p, Folded (n :: ns) (0 :: p) ↔ Folded n.children p := fun p => by
      rw [folded_zero, hlead]
      simp
    simp only [hdrop, hsame]
  · rw [hdrop]
    constructor
    · rintro ⟨p, m, hm, hl, hfree⟩
      obtain ⟨i, r, rfl⟩ := List.exists_cons_of_ne_nil (ne_nil_of_nodeAt hm)
      refine ⟨(i + 1) :: r, m, ?_, hl, ?_⟩
      · rw [hchildren, nodeAt_succ, hm]
      · rw [folded_zero, hchildren, folded_succ]
        rintro (⟨_, hno, _⟩ | hfolded)
        · cases hno
        · exact hfree hfolded
    · rintro ⟨p, m, hm, hl, hfree⟩
      obtain ⟨i, r, rfl⟩ := List.exists_cons_of_ne_nil (ne_nil_of_nodeAt hm)
      rw [folded_zero, not_or, hchildren] at hfree
      cases i with
      | zero => exact absurd ⟨r, rfl, by rw [hlead]; rfl⟩ hfree.1
      | succ i =>
          rw [hchildren, nodeAt_succ] at hm
          rw [folded_succ] at hfree
          exact ⟨i :: r, m, hm, hl, hfree.2⟩

/-- **Every node is shown that is not folded**, and no other is. -/
theorem mem_labels_shown_iff :
    l ∈ labels (shown ns) ↔ ∃ p n, ns.nodeAt p = some n ∧ n.label = l ∧ ¬ Folded ns p := by
  induction ns using induct_dropText with
  | nil =>
      rw [shown_nil, labels_nil]
      refine iff_of_false List.not_mem_nil ?_
      rintro ⟨p, n, hn, _⟩
      rw [nodeAt_of_nil] at hn
      cases hn
  | cons n ns below rest =>
      rw [shown_cons, labels_cons, List.mem_cons, List.mem_append, Node.label_shown,
        Node.children_shown, below, rest, exists_below_iff n ns]
      constructor
      · rintro (rfl | ⟨p, m, hm, hl, hfree⟩ | ⟨p, m, hm, hl, hfree⟩)
        · exact ⟨[0], n, nodeAt_singleton _ _, rfl, not_folded_singleton _ _⟩
        · obtain ⟨i, r, rfl⟩ := List.exists_cons_of_ne_nil (ne_nil_of_nodeAt hm)
          exact ⟨0 :: i :: r, m, by rw [nodeAt_zero, hm], hl, hfree⟩
        · obtain ⟨i, r, rfl⟩ := List.exists_cons_of_ne_nil (ne_nil_of_nodeAt hm)
          rw [← folded_succ n] at hfree
          exact ⟨(i + 1) :: r, m, by rw [nodeAt_succ, hm], hl, hfree⟩
      · rintro ⟨p, m, hm, hl, hfree⟩
        rcases nodeAt_cons_cases hm with ⟨_, rfl⟩ | ⟨i, r, rfl, hat⟩ | ⟨i, r, rfl, hat⟩
        · exact Or.inl hl.symm
        · exact Or.inr (Or.inl ⟨i :: r, m, hat, hl, hfree⟩)
        · rw [folded_succ] at hfree
          exact Or.inr (Or.inr ⟨i :: r, m, hat, hl, hfree⟩)

/-! ## 4. Marked rows -/

theorem selected_of_mem_visitsFrom (selected : Option String) (ns : Forest) : ∀ k : Nat,
    ∀ v ∈ Outline.visitsFrom k (outline selected ns),
      v.2.selected = (selected.isSome && v.2.source.ident = selected) := by
  induction ns using induct_dropText with
  | nil =>
      intro k v hv
      rw [outline, Outline.visitsFrom_nil] at hv
      cases hv
  | cons n ns below rest =>
      intro k v hv
      rw [outline, n.outline_eq, Outline.visitsFrom_cons, List.mem_cons, List.mem_append,
        List.mem_map] at hv
      rcases hv with rfl | ⟨w, hw, rfl⟩ | hv
      · rfl
      · exact below 0 w hw
      · exact rest (k + 1) v hv

/-- A row is marked exactly where an id is selected and its tag has this id. -/
theorem selected_iff_of_mem_visits {selected : Option String} {v : List Nat × Row}
    (hv : v ∈ Outline.visits (outline selected ns)) :
    v.2.selected = true ↔ ∃ id, selected = some id ∧ v.2.source.ident = some id := by
  rw [selected_of_mem_visitsFrom selected ns 0 v hv]
  cases selected with
  | none => simp
  | some id => simp

/-- As many rows are marked as nodes that are shown have the selected id. -/
theorem countP_selected (id : String) (ns : Forest) :
    ((Outline.visits (outline (some id) ns)).countP fun v => v.2.selected) =
      (ids (shown ns)).count id := by
  have hrows : ∀ v ∈ Outline.visits (outline (some id) ns),
      v.2.selected = true ↔ decide (v.2.source.ident = some id) = true := fun v hv => by
    rw [selected_iff_of_mem_visits hv]
    simp
  calc ((Outline.visits (outline (some id) ns)).countP fun v => v.2.selected)
      = ((Outline.visits (outline (some id) ns)).map fun v => (v.1, v.2.id, v.2.source)).countP
          fun v => v.2.2.ident = some id := by
        rw [List.countP_congr hrows, List.countP_map]
        rfl
    _ = ((visits (shown ns)).map Prod.snd).countP fun n => n.ident = some id := by
        rw [map_visits_outline, List.countP_map, List.countP_map]
        rfl
    _ = (labels (shown ns)).countP fun l => l.ident = some id := by
        rw [map_snd_visits, labels_eq_map, List.countP_map]
        rfl
    _ = (ids (shown ns)).count id := by
        rw [ids, List.count_filterMap]
        exact List.countP_congr fun l _ => by simp

/-- Where ids are distinct, an id has a node that is shown exactly where its own is not folded. -/
theorem mem_ids_shown_iff (hd : (ids ns).Nodup) {path : List Nat} {n : Node}
    (hn : ns.nodeAt path = some n) (hid : n.ident = some id) :
    id ∈ ids (shown ns) ↔ ¬ Folded ns path := by
  rw [ids, List.mem_filterMap]
  constructor
  · rintro ⟨l, hl, hlid⟩
    obtain ⟨p, m, hm, rfl, hfree⟩ := mem_labels_shown_iff.mp hl
    obtain rfl := eq_of_ident_eq hd hm hlid hn hid
    exact hfree
  · intro hfree
    exact ⟨n.label, mem_labels_shown_iff.mpr ⟨path, n, hn, rfl, hfree⟩, hid⟩

/-- **What the outline shows.** On every page and for every selected id,

    * the rows in pre-order have the same paths, and so the same depths, the same ids and the same
      tags without their children as the nodes of the page from which every literal text in front of
      the children of a node was left out, with all that lies below it;
    * a row is marked exactly where its tag has an id, and this is the selected one;
    * where ids are distinct, at most one row is marked. For an id that is on the page it is one,
      unless its node is such a text or lies below one; then it is none. -/
theorem outline_shows (page : Forest) (selected : Option String) :
    (Outline.visits (outline selected page)).map (fun v => (v.1, v.2.id, v.2.source)) =
      (visits (shown page)).map (fun v => (v.1, v.2.ident.getD "", v.2.bare)) ∧
    (∀ v ∈ Outline.visits (outline selected page),
      v.2.selected = true ↔ ∃ id, selected = some id ∧ v.2.source.ident = some id) ∧
    ((ids page).Nodup →
      (Outline.visits (outline selected page)).countP (fun v => v.2.selected) ≤ 1 ∧
      ∀ id path n, selected = some id → page.nodeAt path = some n → n.ident = some id →
        (¬ Folded page path →
          (Outline.visits (outline selected page)).countP (fun v => v.2.selected) = 1) ∧
        (Folded page path →
          (Outline.visits (outline selected page)).countP (fun v => v.2.selected) = 0)) := by
  refine ⟨map_visits_outline selected page, fun v hv => selected_iff_of_mem_visits hv, fun hd => ?_⟩
  have hshown : (ids (shown page)).Nodup := ((labels_shown_sublist page).filterMap _).nodup hd
  refine ⟨?_, ?_⟩
  · cases selected with
    | none =>
        have hnone : (Outline.visits (outline none page)).countP (fun v => v.2.selected) = 0 := by
          refine List.countP_eq_zero.mpr fun v hv hmarked => ?_
          obtain ⟨_, hno, _⟩ := (selected_iff_of_mem_visits hv).mp hmarked
          cases hno
        omega
    | some id =>
        rw [countP_selected]
        exact List.nodup_iff_count_le_one.mp hshown id
  · rintro id path n rfl hn hid
    have hmem := mem_ids_shown_iff hd hn hid
    rw [countP_selected]
    refine ⟨fun hfree => ?_, fun hfolded => ?_⟩
    · exact List.count_eq_one_of_mem hshown (hmem.mpr hfree)
    · exact List.count_eq_zero_of_not_mem fun h => hmem.mp h hfolded

/-- Below a box, two texts in front of a note, the first with something below it; behind the box
    another text. -/
def letter : Forest :=
  [⟨{ Label.ofTag "div" with id := some "box" }, some
    [⟨⟨some "lead", "text", none, some "Dear"⟩, some [(Node.ofTag "b").withId "hidden"]⟩,
      (Node.ofText "reader").withId "second", (Node.ofTag "p").withId "note"]⟩,
    (Node.ofText "Yours").withId "last"]

/-- Only the first of the texts has no row. So the second one is marked where it is selected, and no
    row is where what lies below the first one is. -/
theorem outline_shows_letter : (ids letter).Nodup ∧
    (Outline.visits (outline (some "second") letter)).map (fun v => (v.1, v.2.id)) =
      [([0], "box"), ([0, 0], "second"), ([0, 1], "note"), ([1], "last")] ∧
    (Outline.visits (outline (some "second") letter)).countP (fun v => v.2.selected) = 1 ∧
    (Outline.visits (outline (some "hidden") letter)).countP (fun v => v.2.selected) = 0 := by
  have hd : (ids letter).Nodup := by decide
  have hsecond : ¬ Folded letter [0, 1] := by
    rw [letter, folded_zero]
    rintro (⟨_, hno, _⟩ | hfolded)
    · cases hno
    · exact not_folded_singleton _ _ hfolded
  have hhidden : Folded letter [0, 0, 0] :=
    ⟨[0], [0], _, List.cons_ne_nil 0 [], rfl, rfl, rfl⟩
  obtain ⟨_, _, hmarks⟩ := outline_shows letter (some "second")
  obtain ⟨_, _, hnone⟩ := outline_shows letter (some "hidden")
  exact ⟨hd, rfl, ((hmarks hd).2 "second" [0, 1] _ rfl rfl rfl).1 hsecond,
    ((hnone hd).2 "hidden" [0, 0, 0] _ rfl rfl rfl).2 hhidden⟩

end Forest

end Pagewright
