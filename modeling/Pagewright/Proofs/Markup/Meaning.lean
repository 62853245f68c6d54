import Mathlib.Logic.Relation
import Pagewright.Proofs.Markup.Clean
import Pagewright.Proofs.Page.Likeness
import Pagewright.Proofs.Page.Naming

/-!
# The source says what a page means

A page can be written in many ways that mean the same. This file compares the renderings of two
pages node by node, and shows that none of these ways shows in the source.

* `Label.Rewrite` -- one rewriting of a node that keeps its meaning: another order of attributes, a
  falsy attribute dropped, empty attributes or an empty text made absent; `Label.Rewritten` chains
  such steps, in either direction;
* `Label.ReadsAs f` -- what rendering reads of a label: the tag, the text, the attributes that count
  as given, and the id. The id shows in diagnostics alone, so it is compared under a renaming `f`:
  where `f` is the identity it has to be the same, where `f` is constant it does not count;
* `Concur f` -- two checks that find the same, up to the renaming in a diagnostic; for each part of
  a call there is one lemma by which labels that read the same concur in it (`ReadsAs.styleSuffix`
  and so on, up to `ReadsAs.portrait`);
* `Forest.Matches` -- two pages with related labels at the same places, where an absent list of
  children matches an empty one; `Forest.compile_of_matches`: **pages whose labels read the same
  have the same source**;
* `compile_of_rewritten` -- what this says of rewritings and of ids.
-/

namespace Pagewright

/-! ## 1. Rewritings of a label -/

namespace Label

/-- One rewriting of a label that keeps its meaning. -/
inductive Rewrite : Label → Label → Prop
  | permute {l : Label} {a b : Attributes} (hl : l.attr = some a)
      (h : a.entries.Perm b.entries) : Rewrite l { l with attr := some b }
  | drop {l : Label} {a b : Attributes} (before after : List (String × Json)) {name : String}
      {v : Json} (hl : l.attr = some a) (ha : a.entries = before ++ (name, v) :: after)
      (hb : b.entries = before ++ after) (hv : v.Falsy) : Rewrite l { l with attr := some b }
  | noAttributes {l : Label} (hl : l.attr = some .empty) : Rewrite l { l with attr := none }
  | noText {l : Label} (hl : l.text = some "") : Rewrite l { l with text := none }

/-- Any number of rewritings, each in either direction. -/
def Rewritten : Label → Label → Prop := Relation.EqvGen Rewrite

/-- Any number of rewritings, and any other id. -/
def RewrittenUpToId (a b : Label) : Prop := ∃ id, Rewritten { a with id := id } b

/-! ## 2. What is read of a label -/

/-- What rendering reads of a label, where ids count up to a renaming. -/
structure ReadsAs (f : Option String → Option String) (a b : Label) : Prop where
  tag : a.tag = b.tag
  ident : f a.ident = f b.ident
  given : ∀ name, a.givenValue name = b.givenValue name
  text : a.textContent = b.textContent

/-- A value is given under a name exactly when it is there and not falsy. -/
theorem givenValue_eq_some_iff {l : Label} {a : Attributes} (hl : l.attr = some a) (name : String)
    (v : Json) : l.givenValue name = some v ↔ (name, v) ∈ a.entries ∧ ¬ v.Falsy := by
  rw [givenValue, valueOf, hl, Option.bind_some, Option.filter_eq_some_iff, Attributes.find,
    Members.find_eq_some_iff a.distinct, ← v.truthy_eq_false_iff, Bool.not_eq_false]

namespace ReadsAs

variable {f : Option String → Option String} {a b c : Label}

theorem refl (f : Option String → Option String) (l : Label) : l.ReadsAs f l :=
  ⟨rfl, rfl, fun _ => rfl, rfl⟩

theorem symm (h : a.ReadsAs f b) : b.ReadsAs f a :=
  ⟨h.tag.symm, h.ident.symm, fun name => (h.given name).symm, h.text.symm⟩

theorem trans (h : a.ReadsAs f b) (h' : b.ReadsAs f c) : a.ReadsAs f c :=
  ⟨h.tag.trans h'.tag, h.ident.trans h'.ident, fun name => (h.given name).trans (h'.given name),
    h.text.trans h'.text⟩

/-- Attributes with the same given values, at the same label. -/
theorem of_attributes {l : Label} {a b : Attributes} (hl : l.attr = some a)
    (h : ∀ name v, ¬ v.Falsy → ((name, v) ∈ a.entries ↔ (name, v) ∈ b.entries)) :
    l.ReadsAs f { l with attr := some b } where
  tag := rfl
  ident := rfl
  text := rfl
  given name := by
    apply Option.ext
    intro v
    rw [givenValue_eq_some_iff hl, givenValue_eq_some_iff (a := b) rfl]
    exact and_congr_left fun hv => h name v hv

/-- **A rewriting does not change what is read.** -/
theorem of_rewrite (h : Rewrite a b) : a.ReadsAs f b := by
  cases h with
  | permute hl h => exact of_attributes hl fun name v _ => h.mem_iff
  | drop _ _ hl ha hb hv =>
      refine of_attributes hl fun name v hgiven => ?_
      rw [ha, hb, List.mem_append, List.mem_append, List.mem_cons]
      -- the entry that is dropped is none of those that count
      refine or_congr_right (or_iff_right fun e => hgiven ?_)
      rw [(Prod.mk.inj e).2]
      exact hv
  | noAttributes hl =>
      refine ⟨rfl, rfl, fun name => ?_, rfl⟩
      rw [givenValue, givenValue, valueOf, valueOf, hl]
      rfl
  | noText hl =>
      refine ⟨rfl, rfl, fun name => rfl, ?_⟩
      rw [textContent, textContent, hl]
      rfl

theorem of_rewritten (h : Rewritten a b) : a.ReadsAs f b := by
  induction h with
  | rel a b h => exact of_rewrite h
  | refl a => exact refl f a
  | symm a b _ ih => exact ih.symm
  | trans a b c _ _ ih₁ ih₂ => exact ih₁.trans ih₂

/-- Under a renaming that forgets ids, another id does not change what is read. -/
theorem of_rewrittenUpToId (h : RewrittenUpToId a b) : a.ReadsAs (fun _ => none) b := by
  obtain ⟨id, h⟩ := h
  have hid : a.ReadsAs (fun _ => none) { a with id := id } := ⟨rfl, rfl, fun _ => rfl, rfl⟩
  exact hid.trans (of_rewritten h)

/-- Alike labels read the same. -/
theorem of_alike (h : a.Alike b) : a.ReadsAs f b where
  tag := h.tag
  ident := by rw [h.ident]
  text := h.textContent
  given name := by rw [givenValue, givenValue, h.value]

end ReadsAs

end Label

/-! ## 3. Diagnostics under a renaming -/

/-- The diagnostic with its node named otherwise. -/
def Diagnostic.rename (f : Option String → Option String) : Diagnostic → Diagnostic
  | .malformed tag id name fault => .malformed tag (f id) name fault
  | .tooDeep tag id limit => .tooDeep tag (f id) limit

/-- The diagnostic without the name of its node. -/
def Diagnostic.anonymous : Diagnostic → Diagnostic := rename fun _ => none

/-- The omission with its node named otherwise. -/
def Omission.rename (f : Option String → Option String) : Omission → Omission
  | .failed d => .failed (d.rename f)
  | .unknown tag => .unknown tag

theorem Diagnostic.rename_id (d : Diagnostic) : d.rename id = d := by
  cases d <;> rfl

theorem Omission.rename_id : rename id = id := by
  funext m
  cases m with
  | failed d => rw [rename, d.rename_id, id]
  | unknown tag => rfl

theorem Omission.diagnostics_rename (f : Option String → Option String) (ms : List Omission) :
    diagnostics (ms.map (rename f)) = (diagnostics ms).map (Diagnostic.rename f) := by
  rw [diagnostics, diagnostics, List.filterMap_map, List.map_filterMap]
  congr 1
  funext m
  cases m <;> rfl

/-- Two checks that find the same, or the same fault at nodes that are renamed alike. -/
inductive Concur (f : Option String → Option String) {α : Type} :
    Except Diagnostic α → Except Diagnostic α → Prop
  | ok (x : α) : Concur f (.ok x) (.ok x)
  | error {d e : Diagnostic} (h : d.rename f = e.rename f) : Concur f (.error d) (.error e)

/-- Checks in turn agree where each does. -/
theorem Concur.bind {f : Option String → Option String} {α β : Type}
    {x y : Except Diagnostic α} {g h : α → Except Diagnostic β} (hxy : Concur f x y)
    (hgh : ∀ a, Concur f (g a) (h a)) : Concur f (x >>= g) (y >>= h) := by
  cases hxy with
  | ok a => exact hgh a
  | error he => exact .error he

/-! ## 4. The parts of a call -/

/-- A parameter is written as nothing where no value is given. -/
theorem Label.parameterText_eq (l : Label) (name : String) :
    l.parameterText name = match l.givenValue name with
      | none => .ok ""
      | some v =>
          match v.plain? with
          | some s => .ok s
          | none => l.malformed name .notPlain := by
  have hfalsy : ∀ v : Json, v.truthy = false → v.plain? = some "" := by
    intro v hv
    rw [Json.plain?.eq_def]
    cases v with
    | arr items => cases hv
    | obj ms => cases hv
    | _ => simp only [hv, Bool.false_eq_true, if_false]
  rw [parameterText, givenValue]
  cases l.valueOf name with
  | none => rfl
  | some v =>
      rw [Option.filter_some]
      cases hv : v.truthy with
      | true => rfl
      | false => simp only [hfalsy v hv, Bool.false_eq_true, if_false]

namespace Label.ReadsAs

variable {f : Option String → Option String} {a b : Label}

theorem malformed {α : Type} (h : a.ReadsAs f b) (name : String) (fault : AttributeFault) :
    Concur f (a.malformed name fault : Except Diagnostic α) (b.malformed name fault) := by
  refine .error ?_
  rw [Diagnostic.rename, Diagnostic.rename, h.tag, h.ident]

theorem parameterText (h : a.ReadsAs f b) (name : String) :
    Concur f (a.parameterText name) (b.parameterText name) := by
  rw [a.parameterText_eq, b.parameterText_eq, h.given]
  cases b.givenValue name with
  | none => exact .ok ""
  | some v =>
      simp only
      cases v.plain? with
      | none => exact h.malformed name .notPlain
      | some s => exact .ok s

theorem parameterTexts (h : a.ReadsAs f b) (ps : List (String × String)) :
    Concur f (a.parameterTexts ps) (b.parameterTexts ps) := by
  induction ps with
  | nil => exact .ok []
  | cons p ps ih =>
      obtain ⟨name, shown⟩ := p
      have hfirst := h.parameterText name
      rw [Label.parameterTexts, Label.parameterTexts]
      generalize a.parameterText name = x, b.parameterText name = y at hfirst
      generalize a.parameterTexts ps = xs, b.parameterTexts ps = ys at ih
      cases hfirst with
      | error he => exact .error he
      | ok s =>
          cases ih with
          | error he => exact .error he
          | ok ss => exact .ok _

theorem styleSuffix (h : a.ReadsAs f b) : Concur f a.styleSuffix b.styleSuffix := by
  rw [Label.styleSuffix, Label.styleSuffix, h.given]
  cases b.givenValue "style" with
  | none => exact .ok ""
  | some v =>
      cases v with
      | str s => exact .ok _
      | _ => exact h.malformed "style" .notAStyle

theorem pageParameters (h : a.ReadsAs f b) (name shown : String) :
    Concur f (a.pageParameters name shown) (b.pageParameters name shown) := by
  rw [Label.pageParameters, Label.pageParameters, h.given]
  cases b.givenValue name with
  | none => exact .ok []
  | some v =>
      cases v with
      | obj ms => exact .ok _
      | _ => exact h.malformed name .notAnObject

theorem columns (h : a.ReadsAs f b) : Concur f a.columns b.columns := by
  rw [Label.columns, Label.columns, h.given]
  cases b.givenValue "columns" with
  | none => exact .ok []
  | some v =>
      cases v with
      | arr items =>
          simp only
          cases columnTexts items with
          | none => exact h.malformed "columns" .badColumn
          | some ss => exact .ok _
      | _ => exact h.malformed "columns" .notColumns

theorem ruleTexts (h : a.ReadsAs f b) (ms : List (String × Json)) :
    Concur f (a.ruleTexts ms) (b.ruleTexts ms) := by
  induction ms with
  | nil => exact .ok []
  | cons rule ms ih =>
      obtain ⟨name, v⟩ := rule
      rw [Label.ruleTexts, Label.ruleTexts]
      cases v.literal? with
      | none => exact h.malformed "validate" (.rule name)
      | some s =>
          simp only
          generalize a.ruleTexts ms = xs, b.ruleTexts ms = ys at ih
          cases ih with
          | error he => exact .error he
          | ok ss => exact .ok _

theorem validationSuffix (h : a.ReadsAs f b) : Concur f a.validationSuffix b.validationSuffix := by
  rw [Label.validationSuffix, Label.validationSuffix, h.given]
  cases b.givenValue "validate" with
  | none => exact .ok ""
  | some v =>
      cases v with
      | obj ms =>
          simp only
          have hrules := h.ruleTexts ms
          generalize a.ruleTexts ms = x, b.ruleTexts ms = y at hrules
          cases hrules with
          | error he => exact .error he
          | ok ss =>
              cases ss with
              | nil => exact .ok ""
              | cons s ss => exact .ok _
      | _ => exact h.malformed "validate" .notAnObject

theorem alertTexts (h : a.ReadsAs f b) (ms : List (String × Json))
    (fields : List (String × String)) :
    Concur f (a.alertTexts ms fields) (b.alertTexts ms fields) := by
  induction fields with
  | nil => exact .ok []
  | cons field fields ih =>
      obtain ⟨name, shown⟩ := field
      rw [Label.alertTexts, Label.alertTexts]
      cases Members.find name ms with
      | none => exact ih
      | some v =>
          simp only
          cases v.plain? with
          | none => exact h.malformed "alert" (.alertField name)
          | some s =>
              simp only
              generalize a.alertTexts ms fields = xs, b.alertTexts ms fields = ys at ih
              cases ih with
              | error he => exact .error he
              | ok ss => exact .ok _

theorem alertSuffix (h : a.ReadsAs f b) : Concur f a.alertSuffix b.alertSuffix := by
  rw [Label.alertSuffix, Label.alertSuffix, h.given]
  cases b.givenValue "alert" with
  | none => exact .ok ""
  | some v =>
      cases v with
      | obj ms =>
          simp only
          have hfields := h.alertTexts ms alertFields
          generalize a.alertTexts ms alertFields = xs, b.alertTexts ms alertFields = ys at hfields
          cases hfields with
          | error he => exact .error he
          | ok ss => exact .ok _
      | _ => exact h.malformed "alert" .notAnObject

/-! ## 5. Calls -/

theorem closePlain (h : a.ReadsAs f b) (e : Element) (before : List String) (body : String) :
    Concur f (e.closePlain a before body) (e.closePlain b before body) :=
  h.styleSuffix.bind fun _ => .ok _

theorem closeAction (h : a.ReadsAs f b) (e : Element) (before : List String) (body : String) :
    Concur f (e.closeAction a before body) (e.closeAction b before body) :=
  (h.pageParameters "params" "Params").bind fun _ =>
    (h.pageParameters "pageparams" "PageParams").bind fun _ =>
      h.styleSuffix.bind fun _ => h.alertSuffix.bind fun _ => .ok _

theorem gridCall (h : a.ReadsAs f b) (e : Element) : Concur f (e.gridCall a) (e.gridCall b) :=
  (h.parameterTexts e.parameters).bind fun _ =>
    h.columns.bind fun _ => h.styleSuffix.bind fun _ => .ok _

theorem closeField (h : a.ReadsAs f b) (e : Element) (body : String) :
    Concur f (e.closeField a body) (e.closeField b body) :=
  (h.parameterTexts e.parameters).bind fun _ =>
    h.validationSuffix.bind fun _ => h.styleSuffix.bind fun _ => .ok _

end Label.ReadsAs

/-- The portrait with the nodes in its omissions named otherwise. -/
def Portrait.rename (f : Option String → Option String) (p : Portrait) : Portrait :=
  ⟨p.source, p.omissions.map (Omission.rename f)⟩

section Portraits

variable {f : Option String → Option String} {a b : Label}

/-- Calls of labels that read the same agree, and leave out alike, where their bodies do. -/
theorem Label.ReadsAs.picture (h : a.ReadsAs f b) (e : Element) {p q : Portrait}
    (hpq : p.rename f = q.rename f) :
    Concur f (e.picture a p).1 (e.picture b q).1 ∧
      (e.picture a p).2.map (Omission.rename f) = (e.picture b q).2.map (Omission.rename f) := by
  obtain ⟨hsource, homissions⟩ := Portrait.mk.inj hpq
  have hparams := h.parameterTexts e.parameters
  rw [Element.picture, Element.picture, hsource]
  cases e.layout with
  | plain =>
      simp only
      generalize a.parameterTexts e.parameters = x, b.parameterTexts e.parameters = y at hparams
      cases hparams with
      | error he => exact ⟨.error he, rfl⟩
      | ok before => exact ⟨h.closePlain e before q.source, homissions⟩
  | action =>
      simp only
      generalize a.parameterTexts e.parameters = x, b.parameterTexts e.parameters = y at hparams
      cases hparams with
      | error he => exact ⟨.error he, rfl⟩
      | ok before => exact ⟨h.closeAction e before q.source, homissions⟩
  | grid => exact ⟨h.gridCall e, rfl⟩
  | field => exact ⟨h.closeField e q.source, homissions⟩

theorem Portrait.rename_settle {own own' : List Omission} {x y : Except Diagnostic String}
    (hown : own.map (Omission.rename f) = own'.map (Omission.rename f)) (h : Concur f x y) :
    (settle own x).rename f = (settle own' y).rename f := by
  cases h with
  | ok source => rw [settle, settle, rename, rename, hown]
  | error he =>
      rw [settle, settle, rename, rename, List.map_append, List.map_append, hown]
      simp only [List.map_cons, List.map_nil, Omission.rename, he]

theorem Label.ReadsAs.elementPortrait (h : a.ReadsAs f b) (o : RenderOptions) (e : Element)
    (depth : Nat) {p q : Portrait} (hpq : p.rename f = q.rename f) :
    (e.portrait o a depth p).rename f = (e.portrait o b depth q).rename f := by
  rw [Element.portrait, Element.portrait]
  by_cases hdeep : o.maxDepth ≤ depth
  · rw [if_pos hdeep, if_pos hdeep]
    refine Portrait.rename_settle rfl (.error ?_)
    rw [Diagnostic.rename, Diagnostic.rename, h.tag, h.ident]
  · rw [if_neg hdeep, if_neg hdeep]
    obtain ⟨hcall, hown⟩ := h.picture e hpq
    exact Portrait.rename_settle hown hcall

/-- **Labels that read the same look the same** around bodies that do. -/
theorem Label.ReadsAs.portrait (h : a.ReadsAs f b) (o : RenderOptions) (depth : Nat)
    {p q : Portrait} (hpq : p.rename f = q.rename f) :
    (a.portrait o depth p).rename f = (b.portrait o depth q).rename f := by
  have htext : a.isText = b.isText := by rw [Label.isText, Label.isText, h.tag]
  rw [Label.portrait, Label.portrait, htext, h.tag, h.text]
  cases b.isText with
  | true => rfl
  | false =>
      rw [if_neg Bool.false_ne_true, if_neg Bool.false_ne_true]
      cases Element.ofTag? b.tag with
      | none => rfl
      | some e => exact h.elementPortrait o e depth hpq

end Portraits

/-! ## 6. Pages -/

/-- Two pages with related labels at the same places. An absent list of children matches an empty
    one. -/
inductive Forest.Matches (R : Label → Label → Prop) : List Node → List Node → Prop where
  | nil : Forest.Matches R [] []
  | cons {n m : Node} {ns ms : List Node} (label : R n.label m.label)
      (below : Forest.Matches R n.children m.children) (rest : Forest.Matches R ns ms) :
      Forest.Matches R (n :: ns) (m :: ms)

namespace Forest

variable {R : Label → Label → Prop}

theorem Matches.mono {S : Label → Label → Prop} (hRS : ∀ a b, R a b → S a b) {ns ms : Forest}
    (h : Matches R ns ms) : Matches S ns ms := by
  induction h with
  | nil => exact .nil
  | cons label _ _ ihBelow ihRest => exact .cons (hRS _ _ label) ihBelow ihRest

/-- A page matches itself with its labels changed, where the change relates them. -/
theorem matches_relabel {σ : Type} (g : Label → σ → Label × σ) (hg : ∀ l s, R l (g l s).1)
    (ns : Forest) : ∀ s : σ, Matches R ns (relabel g ns s).1 := by
  induction ns using Forest.induct with
  | nil =>
      intro s
      rw [relabel]
      exact .nil
  | cons n ns below rest =>
      intro s
      rw [relabel]
      rcases n with ⟨l, _ | cs⟩
      · rw [Node.relabel]
        exact .cons (hg l s) .nil (rest _)
      · rw [Node.relabel]
        exact .cons (hg l s) (below _) (rest _)

/-- Portraits side by side, renamed, are the renamed portraits side by side. -/
theorem rename_stack (f : Option String → Option String) (ps : List Portrait) :
    (Portrait.stack ps).rename f = Portrait.stack (ps.map (Portrait.rename f)) := by
  rw [Portrait.stack, Portrait.stack, Portrait.rename, List.map_map, List.map_flatMap,
    List.flatMap_map]
  rfl

/-- **Pages whose labels read the same have the same portraits**, node by node and up to the names
    of nodes in their omissions. -/
theorem portraits_of_matches {f : Option String → Option String} {ns ms : Forest}
    (h : Matches (Label.ReadsAs f) ns ms) (o : RenderOptions) :
    ∀ depth, (ns.map (Node.portrait o depth)).map (Portrait.rename f) =
      (ms.map (Node.portrait o depth)).map (Portrait.rename f) := by
  induction h with
  | nil => exact fun _ => rfl
  | @cons n m ns ms label _ _ below rest =>
      intro depth
      have hbody : (Forest.portrait o (depth + 1) n.children).rename f =
          (Forest.portrait o (depth + 1) m.children).rename f := by
        rw [portrait, portrait, rename_stack, rename_stack, below (depth + 1)]
      rw [List.map_cons, List.map_cons, List.map_cons, List.map_cons, n.portrait_eq,
        m.portrait_eq, label.portrait o depth hbody, rest depth]

/-- **Pages whose labels read the same have the same source**, and leave out the same up to the
    names of nodes. -/
theorem compile_of_matches {f : Option String → Option String} {ns ms : Forest}
    (h : Matches (Label.ReadsAs f) ns ms) (o : RenderOptions) :
    (ns.compile o).source = (ms.compile o).source ∧
      (ns.compile o).omissions.map (Omission.rename f) =
        (ms.compile o).omissions.map (Omission.rename f) := by
  have hpage : (ns.portrait o 0).rename f = (ms.portrait o 0).rename f := by
    rw [portrait, portrait, rename_stack, rename_stack, portraits_of_matches h o 0]
  obtain ⟨hsource, homissions⟩ := Portrait.mk.inj hpage
  rw [compile_eq, compile_eq, hsource]
  exact ⟨rfl, homissions⟩

/-- Where ids count as they are, nothing at all differs. -/
theorem compile_eq_of_matches {ns ms : Forest} (h : Matches (Label.ReadsAs id) ns ms)
    (o : RenderOptions) : ns.compile o = ms.compile o := by
  obtain ⟨hsource, homissions⟩ := compile_of_matches h o
  rw [Omission.rename_id, List.map_id, List.map_id] at homissions
  calc ns.compile o = ⟨(ns.compile o).source, (ns.compile o).omissions⟩ := rfl
    _ = ⟨(ms.compile o).source, (ms.compile o).omissions⟩ := by rw [hsource, homissions]
    _ = ms.compile o := rfl

/-- Where ids do not count, the source is the same, and so are the diagnostics without the names of
    nodes. -/
theorem compile_of_matches_anonymous {ns ms : Forest}
    (h : Matches (Label.ReadsAs fun _ => none) ns ms) (o : RenderOptions) :
    (ns.compile o).source = (ms.compile o).source ∧
      (ns.compile o).diagnostics.map Diagnostic.anonymous =
        (ms.compile o).diagnostics.map Diagnostic.anonymous := by
  obtain ⟨hsource, homissions⟩ := compile_of_matches h o
  refine ⟨hsource, ?_⟩
  rw [Diagnostic.anonymous, Rendered.diagnostics, Rendered.diagnostics,
    ← Omission.diagnostics_rename, homissions, Omission.diagnostics_rename]

/-- Alike pages match, so that undoing an edit brings back the source. -/
theorem compile_of_alike {ns ms : Forest} (h : Alike ns ms) (o : RenderOptions) :
    ns.compile o = ms.compile o := by
  have hmatches : Matches (Label.ReadsAs id) ns ms := by
    induction h with
    | nil => exact .nil
    | cons label _ _ below rest => exact .cons (.of_alike label) below rest
  exact compile_eq_of_matches hmatches o

/-! ## 7. Ids that are given -/

section Ids

variable {σ τ : Type} [IdSource σ] {picks : Label → Bool} {source : τ → σ}
  {f : Label → τ → Label × τ}

/-- A page matches itself after a visit that hands ids out. -/
theorem matches_of_hands (h : Label.Hands picks source f) (ns : Forest) (t : τ) :
    Matches Label.RewrittenUpToId ns (relabel f ns t).1 := by
  refine matches_relabel f (fun l t => ?_) ns t
  obtain ⟨id, hid⟩ := h.same l t
  rw [hid]
  exact ⟨id, .refl _⟩

theorem matches_assignIds (force : Bool) (ns : Forest) (s : σ) :
    Matches Label.RewrittenUpToId ns (ns.assignIds force s).1 :=
  matches_of_hands (Label.hands_assignId force) ns s

theorem matches_replaceIds (taken : String → Bool) (ns : Forest) (s : σ) :
    Matches Label.RewrittenUpToId ns (ns.replaceIds taken s).1 :=
  matches_of_hands (Label.hands_replaceId taken) ns (s, 0)

end Ids

end Forest

/-- **The source says what a page means, not how it is written.** Under all options:

    * two pages whose nodes, place by place, are rewritings of one another (another order of
      attributes, falsy attributes dropped or added, absent for empty attributes, lists of children
      and texts) have the same source and the same diagnostics;
    * where the nodes have other ids as well, they have the same source, and the same diagnostics up
      to the ids in them;
    * so a page whose nodes are given ids, or new ones for those that are taken, has the same
      source, and so has a copy of a tag with new ids throughout. -/
theorem compile_of_rewritten (o : RenderOptions) :
    (∀ ns ms : Forest, Forest.Matches Label.Rewritten ns ms →
      (ns.compile o).source = (ms.compile o).source ∧
      (ns.compile o).diagnostics = (ms.compile o).diagnostics) ∧
    (∀ ns ms : Forest, Forest.Matches Label.RewrittenUpToId ns ms →
      (ns.compile o).source = (ms.compile o).source ∧
      (ns.compile o).diagnostics.map Diagnostic.anonymous =
        (ms.compile o).diagnostics.map Diagnostic.anonymous) ∧
    (∀ {σ : Type} [IdSource σ] (s : σ),
      (∀ (force : Bool) (ns : Forest),
        ((ns.assignIds force s).1.compile o).source = (ns.compile o).source) ∧
      (∀ (taken : String → Bool) (ns : Forest),
        ((ns.replaceIds taken s).1.compile o).source = (ns.compile o).source) ∧
      (∀ n : Node, (Forest.compile o [(n.assignIds true s).1]).source =
        (Forest.compile o [n]).source)) := by
  have hids : ∀ ns ms : Forest, Forest.Matches Label.RewrittenUpToId ns ms →
      (ns.compile o).source = (ms.compile o).source ∧
      (ns.compile o).diagnostics.map Diagnostic.anonymous =
        (ms.compile o).diagnostics.map Diagnostic.anonymous := fun ns ms h =>
    Forest.compile_of_matches_anonymous (h.mono fun _ _ => .of_rewrittenUpToId) o
  refine ⟨fun ns ms h => ?_, hids, fun s => ⟨fun force ns => ?_, fun taken ns => ?_, fun n => ?_⟩⟩
  · rw [Forest.compile_eq_of_matches (h.mono fun _ _ => .of_rewritten) o]
    exact ⟨rfl, rfl⟩
  · exact (hids _ _ (Forest.matches_assignIds force ns s)).1.symm
  · exact (hids _ _ (Forest.matches_replaceIds taken ns s)).1.symm
  · have h := (hids _ _ (Forest.matches_assignIds true [n] s)).1.symm
    rw [Node.assignIds_eq] at h
    exact h

/-- A button as it was loaded: with an empty text, an empty list of children, and an attribute that
    is off. -/
def loadedButton : Node :=
  ⟨⟨some "send", "button",
    some ⟨[("class", .str "wide"), ("page", .str "home"), ("disabled", .bool false)], by decide⟩,
    some ""⟩, some []⟩

/-- The same button with another id, and without what says nothing. -/
def bareButton : Node :=
  ⟨⟨some "tag_10000000", "button",
    some ⟨[("page", .str "home"), ("class", .str "wide")], by decide⟩, none⟩, none⟩

/-- Both have the same source. -/
theorem source_loadedButton :
    Forest.Matches Label.RewrittenUpToId [loadedButton] [bareButton] ∧
      Forest.source [loadedButton] = Forest.source [bareButton] := by
  have hlabel : Label.RewrittenUpToId loadedButton.label bareButton.label := by
    refine ⟨some "tag_10000000", ?_⟩
    -- first what is off goes, then the attributes change places, then the empty text goes
    refine .trans _ _ _ (.rel _ _ (.drop
      (b := ⟨[("class", .str "wide"), ("page", .str "home")], by decide⟩)
      [("class", .str "wide"), ("page", .str "home")] [] rfl rfl rfl (Or.inr (Or.inl rfl)))) ?_
    refine .trans _ _ _ (.rel _ _ (.permute
      (b := ⟨[("page", .str "home"), ("class", .str "wide")], by decide⟩) rfl (.swap _ _ []))) ?_
    exact .rel _ _ (.noText rfl)
  have hmatches : Forest.Matches Label.RewrittenUpToId [loadedButton] [bareButton] :=
    .cons hlabel .nil .nil
  exact ⟨hmatches, ((compile_of_rewritten .standard).2.1 _ _ hmatches).1⟩

end Pagewright
