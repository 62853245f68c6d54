import Mathlib.Data.List.Rotate
import Pagewright.Proofs.Editor.Census
import Pagewright.Proofs.Editor.Named
import Pagewright.Proofs.Editor.OutlineRoundTrip
import Pagewright.Proofs.Editor.OutlineShape

/-!
# Rows that are moved about

In the tree widget rows are put in any order and below any others. The page that is rebuilt takes
from each row the label that it carries and the text that is folded into it, with all that lies
below this text; what is below the row itself is told by the rows alone.

* `labels_forest` -- **the nodes that rows stand for**, row by row;
* `census_forest` -- so rows that carry the same make pages with the same nodes, wherever they are;
* `Session.rearranging_keeps_nodes` -- the rows of a page, moved about, make a page with the nodes
  of this page. In a session they take the place of the page as they are, and draw no id
  (`Session.Reorders`).
-/

namespace Pagewright

open Forest

/-! ## 1. What rows carry -/

/-- What a row brings on the page: the label of its tag, and the text that is folded into it. -/
def Row.carried (r : Row) : Label × Option Node := (r.source.label, r.folded)

namespace Outline

/-- Rows in pre-order. -/
def rows (os : List Outline) : List Row := (visits os).map Prod.snd

theorem map_snd_visitsFrom (os : List Outline) : ∀ k : Nat,
    (visitsFrom k os).map Prod.snd = rows os := by
  induction os using Outline.induct with
  | nil => intro k; rw [rows, visits, visitsFrom_nil, visitsFrom_nil]
  | cons o os below rest =>
      intro k
      rw [rows, visits, visitsFrom_cons, visitsFrom_cons, List.map_cons, List.map_cons,
        List.map_append, List.map_append, rest, rest, List.map_map, List.map_map]
      rfl

@[simp] theorem rows_nil : rows [] = [] := by rw [rows, visits, visitsFrom_nil, List.map_nil]

@[simp] theorem rows_cons (o : Outline) (os : List Outline) :
    rows (o :: os) = o.row :: (rows o.children ++ rows os) := by
  rw [rows, visits, visitsFrom_cons, List.map_cons, List.map_append, List.map_map,
    map_snd_visitsFrom]
  rfl

/-- The second rows are the first ones in any order and at any places: each carries what it carried,
    whatever it is called, and whether or not it is marked. -/
def Rearranges (os ps : List Outline) : Prop :=
  ((rows os).map Row.carried).Perm ((rows ps).map Row.carried)

/-! ## 2. The page from rows -/

theorem label_node (o : Outline) : o.node.label = o.row.source.label := by
  rcases o with ⟨r, os⟩
  rw [node]
  rfl

theorem children_node (o : Outline) :
    o.node.children = o.row.folded.toList ++ forest o.children := by
  rcases o with ⟨r, os⟩
  rw [node, Node.children_mk]
  show (if (r.folded.toList ++ forest os).isEmpty then none
    else some (r.folded.toList ++ forest os)).getD [] = r.folded.toList ++ forest os
  cases r.folded.toList ++ forest os with
  | nil => rfl
  | cons n ns => rfl

/-- **The nodes that rows stand for**: for each row its own, and those of the text that is folded
    into it. -/
theorem labels_forest (os : List Outline) :
    labels (forest os) =
      ((rows os).map Row.carried).flatMap fun c => c.1 :: labels c.2.toList := by
  induction os using Outline.induct with
  | nil => rw [forest, rows_nil, labels_nil]; rfl
  | cons o os below rest =>
      rw [forest, rows_cons, labels_cons, label_node, children_node, labels_append, below, rest,
        List.map_cons, List.map_append, List.flatMap_cons, List.flatMap_append]
      simp only [Row.carried, List.cons_append, List.append_assoc]

/-- **Rows that carry the same make pages with the same nodes**, wherever they are. -/
theorem census_forest {os ps : List Outline} (h : Rearranges os ps) :
    census (forest os) = census (forest ps) := by
  rw [census_eq_iff, labels_forest, labels_forest]
  exact h.flatMap_right _

end Outline

/-- The rows of a page, moved about, make a page with the same nodes. -/
theorem Forest.census_rearranged {page : Forest} {selected : Option String} {os : List Outline}
    (h : Outline.Rearranges os (outline selected page)) :
    census (Outline.forest os) = census page := by
  rw [Outline.census_forest h, census, census, (sheds_outline selected page).labels_eq]

/-! ## 3. In a session -/

namespace Session

variable {σ : Type} [IdSource σ]

/-- The rows take the place of the page: the operation is done, no id is drawn, and the page is the
    one that the rows stand for, as they are. It has the nodes that it had, and so the ids. -/
structure Reorders (s : Session σ) (os : List Outline) : Prop where
  done : (s.applyOutline os).1 = .ok ()
  source : (s.applyOutline os).2.ids = s.ids
  page : (s.applyOutline os).2.page = Outline.forest os
  nodes : census (s.applyOutline os).2.page = census s.page
  ids : (Forest.ids (s.applyOutline os).2.page).Perm (Forest.ids s.page)

/-- Where every node has an id, rows that are moved about take the place of the page as they are. -/
theorem reorders_of_named {s : Session σ} (hs : Named s.page) {os : List Outline}
    (h : Outline.Rearranges os s.outline) : s.Reorders os := by
  have hcensus : census (Outline.forest os) = census s.page := census_rearranged h
  have hperm := census_eq_iff.mp hcensus
  have hnamed : Named (Outline.forest os) := fun l hl => hs l (hperm.mem_iff.mp hl)
  obtain ⟨history, happly⟩ : ∃ history, s.applyOutline os =
      (.ok (), ({ s with history := history, page := Outline.forest os } :
        Session σ).syncSelection) := by
    rw [applyOutline, assignIds_eq_self hnamed, make_replacePage]
    exact ⟨_, rfl⟩
  have hpage : (s.applyOutline os).2.page = Outline.forest os := by
    rw [happly, page_syncSelection]
  exact {
    done := by rw [happly]
    source := by rw [happly]; exact (keepsTools_syncSelection _).ids
    page := hpage
    nodes := by rw [hpage, hcensus]
    ids := by rw [hpage]; exact ids_perm hperm }

/-- **Moving rows about loses no node and draws no id.** Rows that carry what the rows of a page
    carry, in any order and below any others,

    * make a page with exactly the nodes of this page, each counted with its id, tag, attributes and
      text, those below a folded text included;
    * are put in place in a session on whose page every node has an id: the page is the one that
      they stand for, no id is drawn, and the ids of the page stay as they are but for their order.
      So it is in every session that comes of opening a page, whatever ids it lacks, and of doing
      operations in turn, with a source that hands out no empty id. -/
theorem rearranging_keeps_nodes :
    (∀ (page : Forest) (selected : Option String) (os : List Outline),
      Outline.Rearranges os (Forest.outline selected page) → census (Outline.forest os) = census page) ∧
    (∀ (s : Session σ) (os : List Outline), Named s.page → Outline.Rearranges os s.outline →
      s.Reorders os) ∧
    ∀ [LawfulIdSource σ] (page : Forest) (options : EditorOptions) (source : σ)
      (ops : List Operation), ∀ s ∈ (ofPage page options source).trail ops,
      ∀ os : List Outline, Outline.Rearranges os s.outline → s.Reorders os := by
  refine ⟨fun page selected os h => census_rearranged h, fun s os hs h => reorders_of_named hs h, ?_⟩
  intro _ page options source ops s hs os h
  have hopened : (ofPage page options source).draft.Holds Named :=
    ⟨named_assignIds false page source, .empty options.undoLevels⟩
  have hholds := holds_trail Named.durable hopened ops (fun s' _ op _ => s'.brings_named op) s hs
  exact reorders_of_named hholds.page h

/-- The rows of the letter, moved about: the last text above the box, which has lost what was below
    it but for the folded text, and the second text above the note. -/
def moved : List Outline :=
  match Forest.outline none letter with
  | [⟨box, [second, note]⟩, ⟨last, _⟩] => [⟨last, [⟨box, []⟩, ⟨second.row, [note]⟩]⟩]
  | rows => rows

/-- The page that they make has all six nodes of the letter, what was folded away included, and no id
    is drawn where it is put in place. -/
theorem rearranging_keeps_letter :
    Outline.Rearranges moved (Forest.outline none letter) ∧
      (Forest.ids (Outline.forest moved)) = ["last", "box", "lead", "hidden", "second", "note"] ∧
      census (Outline.forest moved) = census letter ∧
      (ofPage letter .standard Numbering.fresh).Reorders moved := by
  -- the last of the four rows has come first
  have hmoved : Outline.Rearranges moved (Forest.outline none letter) :=
    List.rotate_perm ((Outline.rows (Forest.outline none letter)).map Row.carried) 3
  obtain ⟨hnodes, _, htrail⟩ := rearranging_keeps_nodes (σ := Numbering)
  exact ⟨hmoved, rfl, hnodes letter none moved hmoved,
    htrail letter .standard .fresh [] _ (mem_trail_self _ []) moved hmoved⟩

end Session

end Pagewright
