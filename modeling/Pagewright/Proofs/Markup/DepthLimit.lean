import Pagewright.Proofs.Markup.Clean
import Pagewright.Proofs.Page.Place

/-!
# The limit of nesting

The limit shows in what a page renders as only where it is reported.

* `Label.Blames` -- a check of a label that fails finds an attribute of this label malformed; so it
  never says that a node is too deep (`Element.blames_picture`);
* `Portrait.WithinLimit` -- nothing that was left out was too deep;
* `Forest.portraits_of_withinLimit` -- **a page that renders within a limit renders the same under
  a greater one**;
* `Forest.shows_of_tooDeep` -- **what is reported as too deep is an element with as many elements
  around it as the limit allows**; `Forest.exists_path_of_shows` tells where it stands;
* `depth_limit_only_reported` -- both, for compiled pages.

A call that fails may hide the children of its node, and with them what is too deep among them. It
hides them under every limit, so that the two renderings agree there too.
-/

namespace Pagewright

/-! ## 1. Failing checks name their node -/

/-- A check that fails finds an attribute of this label malformed. -/
inductive Label.Blames (l : Label) {α : Type} : Except Diagnostic α → Prop
  | ok (a : α) : Blames l (.ok a)
  | error (name : String) (fault : AttributeFault) :
      Blames l (.error (.malformed l.tag l.ident name fault))

namespace Label

theorem Blames.bind {l : Label} {α β : Type} {x : Except Diagnostic α}
    {f : α → Except Diagnostic β} (hx : l.Blames x) (hf : ∀ a, l.Blames (f a)) :
    l.Blames (x >>= f) := by
  cases hx with
  | ok a => exact hf a
  | error name fault => exact .error name fault

theorem Blames.isTooDeep {l : Label} {α : Type} {d : Diagnostic}
    (h : l.Blames (.error d : Except Diagnostic α)) : d.isTooDeep = false := by
  cases h
  rfl

theorem blames_parameterTexts (l : Label) (ps : List (String × String)) :
    l.Blames (l.parameterTexts ps) := by
  have hone : ∀ name, l.Blames (l.parameterText name) := by
    intro name
    unfold parameterText
    cases l.valueOf name with
    | none => exact .ok ""
    | some v =>
        simp only
        cases v.plain? with
        | none => exact .error name .notPlain
        | some s => exact .ok s
  induction ps with
  | nil => exact .ok []
  | cons p ps ih =>
      obtain ⟨name, shown⟩ := p
      have hfirst := hone name
      unfold parameterTexts
      generalize l.parameterText name = x at hfirst
      generalize l.parameterTexts ps = xs at ih
      cases hfirst with
      | error name fault => exact .error name fault
      | ok s =>
          cases ih with
          | error name fault => exact .error name fault
          | ok ss => exact .ok _

theorem blames_styleSuffix (l : Label) : l.Blames l.styleSuffix := by
  unfold styleSuffix
  split
  · exact .ok ""
  · exact .ok _
  · exact .error "style" .notAStyle

theorem blames_pageParameters (l : Label) (name shown : String) :
    l.Blames (l.pageParameters name shown) := by
  unfold pageParameters
  split
  · exact .ok []
  · exact .ok _
  · exact .error name .notAnObject

theorem blames_columns (l : Label) : l.Blames l.columns := by
  unfold columns
  split
  · exact .ok []
  · split
    · exact .ok _
    · exact .error "columns" .badColumn
  · exact .error "columns" .notColumns

theorem blames_ruleTexts (l : Label) (ms : List (String × Json)) : l.Blames (l.ruleTexts ms) := by
  induction ms with
  | nil => exact .ok []
  | cons rule ms ih =>
      obtain ⟨name, v⟩ := rule
      unfold ruleTexts
      generalize l.ruleTexts ms = xs at ih
      cases v.literal? with
      | none => exact .error "validate" (.rule name)
      | some s =>
          cases ih with
          | error name fault => exact .error name fault
          | ok ss => exact .ok _

theorem blames_validationSuffix (l : Label) : l.Blames l.validationSuffix := by
  unfold validationSuffix
  split
  · exact .ok ""
  · next ms _ =>
      have hrules := l.blames_ruleTexts ms
      generalize l.ruleTexts ms = x at hrules
      cases hrules with
      | error name fault => exact .error name fault
      | ok ss =>
          cases ss with
          | nil => exact .ok ""
          | cons s ss => exact .ok _
  · exact .error "validate" .notAnObject

theorem blames_alertTexts (l : Label) (ms : List (String × Json))
    (fields : List (String × String)) : l.Blames (l.alertTexts ms fields) := by
  induction fields with
  | nil => exact .ok []
  | cons field fields ih =>
      obtain ⟨name, shown⟩ := field
      unfold alertTexts
      cases Members.find name ms with
      | none => exact ih
      | some v =>
          generalize l.alertTexts ms fields = xs at ih
          simp only
          cases v.plain? with
          | none => exact .error "alert" (.alertField name)
          | some s =>
              cases ih with
              | error name fault => exact .error name fault
              | ok ss => exact .ok _

theorem blames_alertSuffix (l : Label) : l.Blames l.alertSuffix := by
  unfold alertSuffix
  split
  · exact .ok ""
  · next ms _ =>
      have hfields := l.blames_alertTexts ms alertFields
      generalize l.alertTexts ms alertFields = x at hfields
      cases hfields with
      | error name fault => exact .error name fault
      | ok ss => exact .ok _
  · exact .error "alert" .notAnObject

end Label

/-- **A call that fails names its node**, and an attribute of it. -/
theorem Element.blames_picture (e : Element) (l : Label) (body : Portrait) :
    l.Blames (e.picture l body).1 := by
  have hparams := l.blames_parameterTexts e.parameters
  unfold picture
  cases e.layout with
  | plain =>
      generalize l.parameterTexts e.parameters = x at hparams
      cases hparams with
      | error name fault => exact .error name fault
      | ok before => exact l.blames_styleSuffix.bind fun _ => .ok _
  | action =>
      generalize l.parameterTexts e.parameters = x at hparams
      cases hparams with
      | error name fault => exact .error name fault
      | ok before =>
          refine (l.blames_pageParameters "params" "Params").bind fun params => ?_
          refine (l.blames_pageParameters "pageparams" "PageParams").bind fun pageParams => ?_
          exact l.blames_styleSuffix.bind fun _ => l.blames_alertSuffix.bind fun _ => .ok _
  | grid =>
      refine hparams.bind fun before => l.blames_columns.bind fun columns => ?_
      exact l.blames_styleSuffix.bind fun _ => .ok _
  | field =>
      refine hparams.bind fun params => l.blames_validationSuffix.bind fun validation => ?_
      exact l.blames_styleSuffix.bind fun _ => .ok _

/-! ## 2. Within the limit -/

/-- None of these omissions is an element that was too deep. -/
def Omission.WithinLimit (ms : List Omission) : Prop :=
  ∀ d ∈ Omission.diagnostics ms, d.isTooDeep = false

theorem Omission.withinLimit_append_iff (ms ns : List Omission) :
    WithinLimit (ms ++ ns) ↔ WithinLimit ms ∧ WithinLimit ns := by
  unfold WithinLimit
  rw [diagnostics_append, List.forall_mem_append]

/-- Nothing that was left out was too deep. -/
def Portrait.WithinLimit (p : Portrait) : Prop := Omission.WithinLimit p.omissions

theorem Portrait.withinLimit_of_settle {own : List Omission} {r : Except Diagnostic String}
    (h : (Portrait.settle own r).WithinLimit) : Omission.WithinLimit own := by
  cases r with
  | ok source => exact h
  | error d => exact ((Omission.withinLimit_append_iff own _).mp h).1

theorem Forest.portrait_cons (o : RenderOptions) (depth : Nat) (n : Node) (ns : Forest) :
    (Forest.portrait o depth (n :: ns)).omissions =
      (n.portrait o depth).omissions ++ (Forest.portrait o depth ns).omissions := rfl

/-- A call reads of its body no more than it leaves out with it. -/
theorem Element.picture_of_withinLimit {e : Element} {l : Label} {body body' : Portrait}
    (hbody : body.WithinLimit → body' = body)
    (h : Omission.WithinLimit (e.picture l body).2) : e.picture l body' = e.picture l body := by
  unfold picture at h ⊢
  cases hlayout : e.layout with
  | plain =>
      rw [hlayout] at h
      cases hparams : l.parameterTexts e.parameters with
      | error d => rfl
      | ok before =>
          rw [hparams] at h
          rw [hbody h]
  | action =>
      rw [hlayout] at h
      cases hparams : l.parameterTexts e.parameters with
      | error d => rfl
      | ok before =>
          rw [hparams] at h
          rw [hbody h]
  | grid => rfl
  | field =>
      rw [hlayout] at h
      rw [hbody h]

section Limits

variable {o o' : RenderOptions} (hle : o.maxDepth ≤ o'.maxDepth)

include hle

theorem Element.portrait_of_withinLimit {e : Element} {l : Label} {depth : Nat}
    {body body' : Portrait} (hbody : body.WithinLimit → body' = body)
    (h : (e.portrait o l depth body).WithinLimit) :
    e.portrait o' l depth body' = e.portrait o l depth body := by
  unfold Element.portrait at h ⊢
  by_cases hdeep : o.maxDepth ≤ depth
  · -- it is reported, against the hypothesis
    rw [if_pos hdeep] at h
    have hreported := h (.tooDeep l.tag l.ident o.maxDepth) List.mem_cons_self
    cases hreported
  · rw [if_neg hdeep] at h
    have hdeep' : ¬ o'.maxDepth ≤ depth := by omega
    have hown : Omission.WithinLimit (e.picture l body).2 := Portrait.withinLimit_of_settle h
    rw [if_neg hdeep, if_neg hdeep', picture_of_withinLimit hbody hown]

theorem Label.portrait_of_withinLimit {l : Label} {depth : Nat} {body body' : Portrait}
    (hbody : body.WithinLimit → body' = body) (h : (l.portrait o depth body).WithinLimit) :
    l.portrait o' depth body' = l.portrait o depth body := by
  unfold Label.portrait at h ⊢
  cases htext : l.isText with
  | true => rfl
  | false =>
      rw [htext] at h
      cases htag : Element.ofTag? l.tag with
      | none => rfl
      | some e =>
          rw [htag] at h
          exact e.portrait_of_withinLimit hle hbody h

/-- **A page within a limit is the same under a greater one**, node by node. -/
theorem Forest.portraits_of_withinLimit (ns : Forest) :
    ∀ depth, (Forest.portrait o depth ns).WithinLimit →
      ns.map (Node.portrait o' depth) = ns.map (Node.portrait o depth) := by
  induction ns using Forest.induct with
  | nil =>
      intro depth _
      rfl
  | cons n ns below rest =>
      intro depth h
      unfold Portrait.WithinLimit at h
      rw [portrait_cons, Omission.withinLimit_append_iff] at h
      obtain ⟨hnode, hnodes⟩ := h
      have hbody : (Forest.portrait o (depth + 1) n.children).WithinLimit →
          Forest.portrait o' (depth + 1) n.children = Forest.portrait o (depth + 1) n.children := by
        intro hchildren
        unfold Forest.portrait
        rw [below (depth + 1) hchildren]
      have hfirst : n.portrait o' depth = n.portrait o depth := by
        rw [n.portrait_eq] at hnode
        rw [n.portrait_eq, n.portrait_eq]
        exact n.label.portrait_of_withinLimit hle hbody hnode
      rw [List.map_cons, List.map_cons, hfirst, rest depth hnodes]

end Limits

/-! ## 3. What is reported -/

theorem Portrait.mem_diagnostics_settle {own : List Omission} {r : Except Diagnostic String}
    {d : Diagnostic} (h : d ∈ Omission.diagnostics (Portrait.settle own r).omissions) :
    d ∈ Omission.diagnostics own ∨ r = .error d := by
  cases r with
  | ok source => exact Or.inl h
  | error e =>
      unfold settle at h
      rw [Omission.diagnostics_append, List.mem_append] at h
      refine h.imp id fun hlast => ?_
      have hd : d = e := List.mem_singleton.mp hlast
      rw [hd]

/-- What a call leaves out is of its body, and a table has none. -/
theorem Element.picture_omissions_cases (e : Element) (l : Label) (body : Portrait) :
    (e.picture l body).2 = [] ∨ e ≠ .table ∧ (e.picture l body).2 = body.omissions := by
  by_cases htable : e = .table
  · have hgrid := e.layout_eq_grid_iff.mpr htable
    refine Or.inl ?_
    unfold picture
    rw [hgrid]
  · unfold picture
    cases e.layout with
    | plain =>
        cases l.parameterTexts e.parameters with
        | error d => exact Or.inl rfl
        | ok before => exact Or.inr ⟨htable, rfl⟩
    | action =>
        cases l.parameterTexts e.parameters with
        | error d => exact Or.inl rfl
        | ok before => exact Or.inr ⟨htable, rfl⟩
    | grid => exact Or.inl rfl
    | field => exact Or.inr ⟨htable, rfl⟩

/-- What an element reports as too deep is itself, at the limit, or is reported by its body. -/
theorem Element.tooDeep_cases {o : RenderOptions} {e : Element} {l : Label} {depth : Nat}
    {body : Portrait} {d : Diagnostic} (hdeep : d.isTooDeep = true)
    (h : d ∈ Omission.diagnostics (e.portrait o l depth body).omissions) :
    (o.maxDepth ≤ depth ∧ d = .tooDeep l.tag l.ident o.maxDepth) ∨
      (depth < o.maxDepth ∧ e ≠ .table ∧ d ∈ Omission.diagnostics body.omissions) := by
  unfold Element.portrait at h
  by_cases hlimit : o.maxDepth ≤ depth
  · rw [if_pos hlimit] at h
    exact Or.inl ⟨hlimit, List.mem_singleton.mp h⟩
  · rw [if_neg hlimit] at h
    rcases Portrait.mem_diagnostics_settle h with hown | hcall
    · rcases e.picture_omissions_cases l body with hnone | ⟨htable, hbody⟩
      · rw [hnone] at hown
        cases hown
      · rw [hbody] at hown
        exact Or.inr ⟨Nat.lt_of_not_le hlimit, htable, hown⟩
    · -- a failing call is never about the nesting
      have hblames := e.blames_picture l body
      rw [hcall] at hblames
      rw [hblames.isTooDeep] at hdeep
      cases hdeep

/-- **What is reported as too deep is an element that the page shows with as many elements around
    it as the limit allows.** -/
theorem Forest.shows_of_tooDeep {o : RenderOptions} {d : Diagnostic} (hdeep : d.isTooDeep = true)
    (ns : Forest) : ∀ depth, depth ≤ o.maxDepth →
      d ∈ Omission.diagnostics (Forest.portrait o depth ns).omissions →
      ∃ k l e, Shows ns k l e ∧ depth + k = o.maxDepth ∧ d = .tooDeep l.tag l.ident o.maxDepth := by
  induction ns using Forest.induct with
  | nil =>
      intro depth _ h
      cases h
  | cons n ns below rest =>
      intro depth hdepth h
      rw [portrait_cons, Omission.diagnostics_append, List.mem_append] at h
      rcases h with h | h
      · rw [n.portrait_eq] at h
        unfold Label.portrait at h
        cases htext : n.label.isText with
        | true =>
            rw [htext] at h
            cases h
        | false =>
            rw [htext, if_neg Bool.false_ne_true] at h
            cases htag : Element.ofTag? n.label.tag with
            | none =>
                rw [htag] at h
                cases h
            | some e =>
                rw [htag] at h
                rcases Element.tooDeep_cases hdeep h with ⟨hlimit, hd⟩ | ⟨hlimit, htable, hbody⟩
                · exact ⟨0, n.label, e, .here List.mem_cons_self htag, by omega, hd⟩
                · obtain ⟨k, l, e', hshows, hk, hd⟩ := below (depth + 1) (by omega) hbody
                  exact ⟨k + 1, l, e', .inside List.mem_cons_self htag htable hshows,
                    by omega, hd⟩
      · obtain ⟨k, l, e, hshows, hk, hd⟩ := rest depth hdepth h
        refine ⟨k, l, e, ?_, hk, hd⟩
        cases hshows with
        | here hn htag => exact .here (List.mem_cons_of_mem n hn) htag
        | inside hn htag htable hinside =>
            exact .inside (List.mem_cons_of_mem n hn) htag htable hinside

/-- Where an element stands that the page shows: at a path on which there is nothing but elements
    before it, as many as there are around it. -/
theorem Forest.exists_path_of_shows {ns : Forest} {k : Nat} {l : Label} {e : Element}
    (h : Shows ns k l e) :
    ∃ path n, ns.nodeAt path = some n ∧ n.label = l ∧ Element.ofTag? l.tag = some e ∧
      path.length = k + 1 ∧ ∀ q, q <+: path → q ≠ [] → q ≠ path →
        ∃ m e', ns.nodeAt q = some m ∧ Element.ofTag? m.label.tag = some e' := by
  induction h with
  | @here ns n e hn htag =>
      obtain ⟨i, hi⟩ := List.mem_iff_getElem?.mp hn
      refine ⟨[i], n, by rw [nodeAt_singleton, hi], rfl, htag, rfl, fun q hq hne hproper => ?_⟩
      obtain ⟨j, r, rfl⟩ := List.exists_cons_of_ne_nil hne
      obtain ⟨rfl, hr⟩ := List.cons_prefix_cons.mp hq
      exact absurd (by rw [List.prefix_nil.mp hr]) hproper
  | @inside ns n e e' l k hn htag htable hinside ih =>
      obtain ⟨i, hi⟩ := List.mem_iff_getElem?.mp hn
      obtain ⟨path, m, hm, hl, he, hlength, habove⟩ := ih
      -- a path that leads below the node leads on from it
      have hbelow : ∀ q, q ≠ [] → nodeAt ns (i :: q) = nodeAt n.children q := by
        intro q hq
        obtain ⟨j, r, rfl⟩ := List.exists_cons_of_ne_nil hq
        rw [nodeAt_cons_cons, hi, Option.bind_some]
      have hpath : path ≠ [] := ne_nil_of_nodeAt hm
      refine ⟨i :: path, m, by rw [hbelow path hpath, hm], hl, he,
        by rw [List.length_cons, hlength], fun q hq hne hproper => ?_⟩
      obtain ⟨j, r, rfl⟩ := List.exists_cons_of_ne_nil hne
      obtain ⟨rfl, hr⟩ := List.cons_prefix_cons.mp hq
      by_cases hnil : r = []
      · exact ⟨n, e, by rw [hnil, nodeAt_singleton, hi], htag⟩
      · rw [hbelow r hnil]
        exact habove r hr hnil fun h => hproper (by rw [h])

/-! ## 4. Compiled pages -/

/-- **The limit of nesting shows only where it is reported.** For every page, with trimming and
    without:

    * where rendering under a limit reports no element as too deep, rendering under a greater one
      comes to the same source and leaves out the same, with the same diagnostics;
    * an element that is reported as too deep stands at a path that is longer than the limit by
      one, and every node above it on this path is an element. -/
theorem depth_limit_only_reported (trim : Bool) (ns : Forest) :
    (∀ limit limit' : Nat, limit ≤ limit' →
      (∀ d ∈ (ns.compile ⟨trim, limit⟩).diagnostics, d.isTooDeep = false) →
      ns.compile ⟨trim, limit'⟩ = ns.compile ⟨trim, limit⟩) ∧
    (∀ (limit : Nat), ∀ d ∈ (ns.compile ⟨trim, limit⟩).diagnostics, d.isTooDeep = true →
      ∃ path n e, ns.nodeAt path = some n ∧ Element.ofTag? n.label.tag = some e ∧
        d = .tooDeep n.label.tag n.label.ident limit ∧ path.length = limit + 1 ∧
        ∀ q, q <+: path → q ≠ [] → q ≠ path →
          ∃ m e', ns.nodeAt q = some m ∧ Element.ofTag? m.label.tag = some e') := by
  constructor
  · intro limit limit' hle h
    rw [Forest.compile_eq] at h
    have hsame : Forest.portrait ⟨trim, limit'⟩ 0 ns = Forest.portrait ⟨trim, limit⟩ 0 ns := by
      unfold Forest.portrait
      rw [Forest.portraits_of_withinLimit hle ns 0 h]
    rw [Forest.compile_eq, Forest.compile_eq, hsame]
  · intro limit d hd hdeep
    rw [Forest.compile_eq] at hd
    obtain ⟨k, l, e, hshows, hk, hreport⟩ :=
      Forest.shows_of_tooDeep hdeep ns 0 (Nat.zero_le _) hd
    obtain ⟨path, n, hn, hl, he, hlength, habove⟩ := Forest.exists_path_of_shows hshows
    have hlimit : k = limit := by
      rw [← Nat.zero_add k]
      exact hk
    rw [hlimit] at hlength
    rw [← hl] at he hreport
    exact ⟨path, n, e, hn, he, hreport, hlength, habove⟩

/-- A table within two boxes: three elements within each other need a limit of three. Under a limit
    of two the table is reported, and what is below it is not looked at under any limit. -/
theorem depth_limit_table :
    let table : Node := ⟨Label.ofTag "table", some [Node.ofTag "p"]⟩
    let page : Forest := [⟨Label.ofTag "div", some [⟨Label.ofTag "div", some [table]⟩]⟩]
    (∀ d ∈ (page.compile ⟨false, 3⟩).diagnostics, d.isTooDeep = false) ∧
      page.compile ⟨false, 4⟩ = page.compile ⟨false, 3⟩ ∧
      .tooDeep "table" none 2 ∈ (page.compile ⟨false, 2⟩).diagnostics ∧
      ∃ path n, page.nodeAt path = some n ∧ path.length = 3 ∧ n.label.tag = "table" := by
  let table : Node := ⟨Label.ofTag "table", some [Node.ofTag "p"]⟩
  let page : Forest := [⟨Label.ofTag "div", some [⟨Label.ofTag "div", some [table]⟩]⟩]
  have hwithin : ∀ d ∈ (page.compile ⟨false, 3⟩).diagnostics, d.isTooDeep = false := by
    decide
  have hreported : Diagnostic.tooDeep "table" none 2 ∈ (page.compile ⟨false, 2⟩).diagnostics := by
    decide
  obtain ⟨path, n, _, hn, _, hd, hlength, _⟩ :=
    (depth_limit_only_reported false page).2 2 _ hreported rfl
  have htag : n.label.tag = "table" := ((Diagnostic.tooDeep.inj hd).1).symm
  exact ⟨hwithin, (depth_limit_only_reported false page).1 3 4 (by decide) hwithin, hreported,
    path, n, hn, hlength, htag⟩

end Pagewright
