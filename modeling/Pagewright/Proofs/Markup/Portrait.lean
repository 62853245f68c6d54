import Pagewright.Markup.Render
import Pagewright.Proofs.Page.Walk

/-!
# What a node renders as

Rendering carries a state along, but what comes of a node depends on one number of it alone: how
many elements lie around the node. This file says so by a second rendering that has no state.

* `Portrait` -- the source of a node and what is left out of it; `Node.portrait` gives it for a node
  with a number of elements around it, from the portraits of its children;
* `Leaves` -- a step of a rendering that keeps the depth and adds omissions of its own to those that
  are there; steps in turn add theirs in turn (`Leaves.bind`);
* `Node.render_leaves`, `Forest.render_leaves` -- **the rendering is the portrait**, whatever was
  left out before;
* `render_compositional` -- **neighbours do not touch each other**: a page renders as its nodes do
  alone.
-/

namespace Pagewright

/-! ## 1. Portraits -/

/-- The source of something rendered, and its own omissions. -/
structure Portrait where
  source : String
  omissions : List Omission

namespace Portrait

/-- Portraits side by side. -/
def stack (ps : List Portrait) : Portrait :=
  ⟨joinLines (ps.map source), ps.flatMap omissions⟩

/-- A call after the omissions of its body; an empty place and one more omission where it fails. -/
def settle (own : List Omission) : Except Diagnostic String → Portrait
  | .ok source => ⟨source, own⟩
  | .error d => ⟨"", own ++ [.failed d]⟩

end Portrait

/-- A node as a call of the element, from the portrait of its body: the call, and the omissions of
    the body where it was looked at. -/
def Element.picture (e : Element) (l : Label) (body : Portrait) :
    Except Diagnostic String × List Omission :=
  match e.layout with
  | .plain =>
      match l.parameterTexts e.parameters with
      | .error d => (.error d, [])
      | .ok before => (e.closePlain l before body.source, body.omissions)
  | .action =>
      match l.parameterTexts e.parameters with
      | .error d => (.error d, [])
      | .ok before => (e.closeAction l before body.source, body.omissions)
  | .grid => (e.gridCall l, [])
  | .field => (e.closeField l body.source, body.omissions)

/-- An element with this label, from the portrait of its body. -/
def Element.portrait (o : RenderOptions) (e : Element) (l : Label) (depth : Nat) (body : Portrait) :
    Portrait :=
  if o.maxDepth ≤ depth then .settle [] (.error (.tooDeep l.tag l.ident o.maxDepth))
  else .settle (e.picture l body).2 (e.picture l body).1

/-- A node with this label, from the portrait of its body. -/
def Label.portrait (o : RenderOptions) (l : Label) (depth : Nat) (body : Portrait) : Portrait :=
  if l.isText then ⟨l.textContent, []⟩
  else
    match Element.ofTag? l.tag with
    | none => ⟨"", [.unknown l.tag]⟩
    | some e => e.portrait o l depth body

mutual

/-- A node with so many elements around it. -/
def Node.portrait (o : RenderOptions) (depth : Nat) : Node → Portrait
  | ⟨l, none⟩ => l.portrait o depth (.stack [])
  | ⟨l, some cs⟩ => l.portrait o depth (.stack (Forest.portraits o (depth + 1) cs))

/-- Nodes with so many elements around them. -/
def Forest.portraits (o : RenderOptions) (depth : Nat) : List Node → List Portrait
  | [] => []
  | n :: ns => n.portrait o depth :: Forest.portraits o depth ns

end

theorem Forest.portraits_eq_map (o : RenderOptions) (depth : Nat) (ns : Forest) :
    Forest.portraits o depth ns = ns.map (Node.portrait o depth) := by
  induction ns with
  | nil => rw [Forest.portraits, List.map_nil]
  | cons n ns ih => rw [Forest.portraits, List.map_cons, ih]

/-- A page with so many elements around it. -/
def Forest.portrait (o : RenderOptions) (depth : Nat) (ns : Forest) : Portrait :=
  .stack (ns.map (Node.portrait o depth))

theorem Node.portrait_eq (o : RenderOptions) (depth : Nat) (n : Node) :
    n.portrait o depth = n.label.portrait o depth (Forest.portrait o (depth + 1) n.children) := by
  rcases n with ⟨l, _ | cs⟩
  · rw [Node.portrait]
    rfl
  · rw [Node.portrait, Forest.portraits_eq_map]
    rfl

/-! ## 2. Steps that leave a trace -/

/-- A step that, with so many elements around it, gives this result and keeps the depth, and leaves
    omissions of its own after those that are there. -/
def Leaves {α : Type} (m : Rendering α) (depth : Nat) (a : α) (own : List Omission) : Prop :=
  ∀ before : List Omission, m.run ⟨depth, before⟩ = (a, ⟨depth, before ++ own⟩)

namespace Leaves

variable {α β : Type} {m : Rendering α} {depth : Nat} {a : α} {b : β} {own own' : List Omission}

theorem pure (a : α) (depth : Nat) : Leaves (Pure.pure a) depth a [] := by
  intro before
  rw [List.append_nil]
  rfl

theorem bind {f : α → Rendering β} (h : Leaves m depth a own) (h' : Leaves (f a) depth b own') :
    Leaves (m >>= f) depth b (own ++ own') := by
  intro before
  show (f (m.run ⟨depth, before⟩).1).run (m.run ⟨depth, before⟩).2 = _
  rw [h before]
  show (f a).run ⟨depth, before ++ own⟩ = _
  rw [h' (before ++ own), List.append_assoc]

theorem map (f : α → β) (h : Leaves m depth a own) : Leaves (f <$> m) depth (f a) own := by
  intro before
  show (f (m.run ⟨depth, before⟩).1, (m.run ⟨depth, before⟩).2) = _
  rw [h before]

/-- An omission. -/
theorem leaveOut (o : Omission) (depth : Nat) :
    Leaves (modify (RenderState.leaveOut o)) depth PUnit.unit [o] :=
  fun _ => rfl

/-- A step between entering an element and leaving it. -/
theorem within (h : Leaves m (depth + 1) a own) :
    Leaves (do modify RenderState.enter; let r ← m; modify RenderState.leave; Pure.pure r)
      depth a own := by
  intro before
  show ((m.run ⟨depth + 1, before⟩).1, (m.run ⟨depth + 1, before⟩).2.leave) = _
  rw [h before]
  rfl

end Leaves

/-! ## 3. The rendering is the portrait -/

theorem settle_leaves (r : Except Diagnostic String) (depth : Nat) :
    Leaves (settle r) depth (Portrait.settle [] r).source (Portrait.settle [] r).omissions := by
  cases r with
  | ok source => exact .pure source depth
  | error d => exact (Leaves.leaveOut (.failed d) depth).bind (.pure "" depth)

theorem Portrait.settle_eq (own : List Omission) (r : Except Diagnostic String) :
    (Portrait.settle own r).source = (Portrait.settle [] r).source ∧
      (Portrait.settle own r).omissions = own ++ (Portrait.settle [] r).omissions := by
  cases r with
  | ok source => exact ⟨rfl, (List.append_nil own).symm⟩
  | error d => exact ⟨rfl, rfl⟩

/-- A call leaves the omissions of the body, where the body is looked at. -/
theorem Element.call_leaves (e : Element) (l : Label) {body : Rendering String} {depth : Nat}
    {p : Portrait} (h : Leaves body depth p.source p.omissions) :
    Leaves (e.call l body) depth (e.picture l p).1 (e.picture l p).2 := by
  unfold call picture
  cases e.layout with
  | plain =>
      simp only
      cases l.parameterTexts e.parameters with
      | error d => exact .pure _ depth
      | ok before =>
          have hcall := h.bind (f := fun inner => Pure.pure (e.closePlain l before inner))
            (.pure (e.closePlain l before p.source) depth)
          rw [List.append_nil] at hcall
          exact hcall
  | action =>
      simp only
      cases l.parameterTexts e.parameters with
      | error d => exact .pure _ depth
      | ok before =>
          have hcall := h.bind (f := fun inner => Pure.pure (e.closeAction l before inner))
            (.pure (e.closeAction l before p.source) depth)
          rw [List.append_nil] at hcall
          exact hcall
  | grid => exact .pure _ depth
  | field =>
      have hcall := h.bind (f := fun inner => Pure.pure (e.closeField l inner))
        (.pure (e.closeField l p.source) depth)
      rw [List.append_nil] at hcall
      exact hcall

theorem Element.render_leaves (o : RenderOptions) (e : Element) (l : Label)
    {body : Rendering String} {depth : Nat} {p : Portrait}
    (h : Leaves body (depth + 1) p.source p.omissions) :
    Leaves (e.render o l body) depth (e.portrait o l depth p).source
      (e.portrait o l depth p).omissions := by
  have hcall := (e.call_leaves l h).within.bind (settle_leaves (e.picture l p).1 depth)
  intro before
  rw [Element.portrait]
  by_cases hdeep : o.maxDepth ≤ depth
  · have hrun : (e.render o l body).run ⟨depth, before⟩ =
        (settle (.error (.tooDeep l.tag l.ident o.maxDepth))).run ⟨depth, before⟩ := by
      show (if o.maxDepth ≤ depth then _ else _ : Rendering String).run ⟨depth, before⟩ = _
      rw [if_pos hdeep]
    rw [hrun, if_pos hdeep]
    exact settle_leaves _ depth before
  · have hrun : (e.render o l body).run ⟨depth, before⟩ =
        ((do modify RenderState.enter; let r ← e.call l body; modify RenderState.leave; pure r) >>=
          settle : Rendering String).run ⟨depth, before⟩ := by
      show (if o.maxDepth ≤ depth then _ else _ : Rendering String).run ⟨depth, before⟩ = _
      rw [if_neg hdeep]
      rfl
    obtain ⟨hsource, homissions⟩ := Portrait.settle_eq (e.picture l p).2 (e.picture l p).1
    rw [hrun, if_neg hdeep, hsource, homissions]
    exact hcall before

theorem Label.render_leaves (o : RenderOptions) (l : Label) {body : Rendering String}
    {depth : Nat} {p : Portrait} (h : Leaves body (depth + 1) p.source p.omissions) :
    Leaves (l.render o body) depth (l.portrait o depth p).source
      (l.portrait o depth p).omissions := by
  unfold render portrait
  cases l.isText with
  | true => exact .pure l.textContent depth
  | false =>
      rw [if_neg Bool.false_ne_true, if_neg Bool.false_ne_true]
      cases Element.ofTag? l.tag with
      | none => exact (Leaves.leaveOut (.unknown l.tag) depth).bind (.pure "" depth)
      | some e => exact e.render_leaves o l h

theorem Node.render_eq (o : RenderOptions) (n : Node) :
    n.render o = n.label.render o (joinLines <$> Forest.renderEach o n.children) := by
  rcases n with ⟨l, _ | cs⟩
  · rw [Node.render, Node.label_mk, Node.children_mk, Option.getD_none, Forest.renderEach]
    rfl
  · rw [Node.render, Node.label_mk, Node.children_mk, Option.getD_some]

/-- **The rendering is the portrait**: nodes side by side leave each their source and, in turn,
    their omissions. -/
theorem Forest.renderEach_leaves (o : RenderOptions) (ns : Forest) :
    ∀ depth : Nat, Leaves (Forest.renderEach o ns) depth
      ((ns.map (Node.portrait o depth)).map Portrait.source)
      ((ns.map (Node.portrait o depth)).flatMap Portrait.omissions) := by
  induction ns using Forest.induct with
  | nil =>
      intro depth
      rw [Forest.renderEach]
      exact .pure [] depth
  | cons n ns below rest =>
      intro depth
      have hbody : Leaves (joinLines <$> Forest.renderEach o n.children) (depth + 1)
          (Forest.portrait o (depth + 1) n.children).source
          (Forest.portrait o (depth + 1) n.children).omissions := (below (depth + 1)).map joinLines
      have hfirst := n.label.render_leaves o hbody
      rw [← n.render_eq, ← n.portrait_eq] at hfirst
      have hrest := (rest depth).map ((n.portrait o depth).source :: ·)
      rw [Forest.renderEach]
      exact hfirst.bind hrest

theorem Forest.render_leaves (o : RenderOptions) (ns : Forest) (depth : Nat) :
    Leaves (Forest.render o ns) depth (ns.portrait o depth).source
      (ns.portrait o depth).omissions :=
  (Forest.renderEach_leaves o ns depth).map joinLines

theorem Node.render_leaves (o : RenderOptions) (n : Node) (depth : Nat) :
    Leaves (n.render o) depth (n.portrait o depth).source (n.portrait o depth).omissions := by
  have hbody : Leaves (joinLines <$> Forest.renderEach o n.children) (depth + 1)
      (Forest.portrait o (depth + 1) n.children).source
      (Forest.portrait o (depth + 1) n.children).omissions :=
    (Forest.renderEach_leaves o n.children (depth + 1)).map joinLines
  rw [n.render_eq, n.portrait_eq]
  exact n.label.render_leaves o hbody

/-! ## 4. Pages -/

/-- What a node renders as alone, with so many elements around it and nothing left out before. -/
def Node.alone (o : RenderOptions) (depth : Nat) (n : Node) : String × RenderState :=
  (n.render o).run ⟨depth, []⟩

theorem Node.alone_eq (o : RenderOptions) (depth : Nat) (n : Node) :
    n.alone o depth = ((n.portrait o depth).source, ⟨depth, (n.portrait o depth).omissions⟩) :=
  n.render_leaves o depth []

theorem Omission.diagnostics_append (xs ys : List Omission) :
    diagnostics (xs ++ ys) = diagnostics xs ++ diagnostics ys := List.filterMap_append

theorem Omission.diagnostics_flatMap {α : Type} (f : α → List Omission) (xs : List α) :
    diagnostics (xs.flatMap f) = xs.flatMap fun x => diagnostics (f x) :=
  List.filterMap_flatMap ..

/-- A page renders as its nodes do alone, with line ends between them, their omissions in turn. -/
theorem Forest.run_render (o : RenderOptions) (ns : Forest) (depth : Nat)
    (before : List Omission) :
    (Forest.render o ns).run ⟨depth, before⟩ =
      (joinLines (ns.map fun n => (n.alone o depth).1),
        ⟨depth, before ++ ns.flatMap fun n => (n.alone o depth).2.omissions⟩) := by
  rw [ns.render_leaves o depth before, portrait, Portrait.stack, List.map_map, List.flatMap_map]
  simp only [Node.alone_eq]
  rfl

/-- The source of a page and its omissions are those of its portrait. -/
theorem Forest.compile_eq (o : RenderOptions) (ns : Forest) :
    ns.compile o = ⟨if o.trim then Lines.trim (ns.portrait o 0).source else
      (ns.portrait o 0).source, (ns.portrait o 0).omissions⟩ := by
  have h : (Forest.render o ns).run .start = _ := ns.render_leaves o 0 []
  rw [compile, h]
  rfl

theorem Forest.portrait_append (o : RenderOptions) (depth : Nat) (xs ys : Forest) :
    (Forest.portrait o depth (xs ++ ys)).omissions =
      (xs.portrait o depth).omissions ++ (ys.portrait o depth).omissions ∧
    (xs ≠ [] → ys ≠ [] → (Forest.portrait o depth (xs ++ ys)).source =
      (xs.portrait o depth).source ++ "\n" ++ (ys.portrait o depth).source) := by
  simp only [portrait, Portrait.stack, List.map_append, List.flatMap_append]
  refine ⟨trivial, fun hxs hys => ?_⟩
  rw [joinLines, joinLines, joinLines, String.intercalate_append_of_ne_nil]
  · simpa using hxs
  · simpa using hys

/-- **Neighbours do not touch each other.** For every page, options and state:

    * the page renders as its nodes do alone with as many elements around them, with line ends
      between them; the depth is kept, and what was left out is followed by what each node leaves
      out alone, in turn (so are the diagnostics);
    * what a node renders as alone is its portrait, which has no state;
    * without trimming, two pages one after the other render as the one, a line end and the other,
      where both have nodes; their diagnostics follow one another in any case. -/
theorem render_compositional (o : RenderOptions) :
    (∀ (ns : Forest) (depth : Nat) (before : List Omission),
      (Forest.render o ns).run ⟨depth, before⟩ =
        (joinLines (ns.map fun n => (n.alone o depth).1),
          ⟨depth, before ++ ns.flatMap fun n => (n.alone o depth).2.omissions⟩) ∧
      ((Forest.render o ns).run ⟨depth, before⟩).2.diagnostics =
        Omission.diagnostics before ++ ns.flatMap fun n => (n.alone o depth).2.diagnostics) ∧
    (∀ (n : Node) (depth : Nat),
      n.alone o depth = ((n.portrait o depth).source, ⟨depth, (n.portrait o depth).omissions⟩)) ∧
    (∀ xs ys : Forest,
      (Forest.compile o (xs ++ ys)).diagnostics =
        (xs.compile o).diagnostics ++ (ys.compile o).diagnostics ∧
      (o.trim = false → xs ≠ [] → ys ≠ [] → (Forest.compile o (xs ++ ys)).source =
        (xs.compile o).source ++ "\n" ++ (ys.compile o).source)) := by
  refine ⟨fun ns depth before => ⟨ns.run_render o depth before, ?_⟩,
    fun n depth => n.alone_eq o depth, fun xs ys => ⟨?_, fun htrim hxs hys => ?_⟩⟩
  · rw [ns.run_render, RenderState.diagnostics, Omission.diagnostics_append,
      Omission.diagnostics_flatMap]
    rfl
  · rw [Rendered.diagnostics, Rendered.diagnostics, Rendered.diagnostics, Forest.compile_eq,
      Forest.compile_eq, Forest.compile_eq, (Forest.portrait_append o 0 xs ys).1,
      Omission.diagnostics_append]
  · rw [Forest.compile_eq, Forest.compile_eq, Forest.compile_eq, htrim]
    exact (Forest.portrait_append o 0 xs ys).2 hxs hys

/-- A malformed node before a text: an empty line is all that is left of it. -/
theorem compile_malformed_before_text :
    let broken := (Node.ofTag "div").withAttribute "class" (.arr [])
    let text := Node.ofText "hello"
    RenderOptions.standard.trim = false ∧ [broken] ≠ [] ∧ [text] ≠ [] ∧
      (Forest.compile .standard ([broken] ++ [text])).source = "" ++ "\n" ++ "hello" :=
  ⟨rfl, List.cons_ne_nil _ _, List.cons_ne_nil _ _,
    ((render_compositional .standard).2.2 _ _).2 rfl (List.cons_ne_nil _ _) (List.cons_ne_nil _ _)⟩

end Pagewright
