import Pagewright.Proofs.Markup.Portrait

/-!
# Clean pages

When a page renders without a diagnostic, told without rendering it.

* `Json.Falsy`, `Json.IsScalar` -- the two kinds of values on which the shape of an attribute
  depends;
* `Label.WellFormed` -- what the attributes of an element must be, by the attributes alone;
  `Element.picture_succeeds_iff`: its call succeeds exactly where they are;
* `Forest.Shows` -- which elements of a page are looked at, with the number of elements around each:
  those around which there is nothing but elements, and no table;
* `clean_iff` -- **a page is clean exactly where every element that is looked at is well-formed and
  not too deep.**

Where a call fails, its children may not be looked at; this hides their diagnostics, but the one of
the call is there.
-/

namespace Pagewright

/-! ## 1. Values -/

namespace Json

/-- Neither an array nor an object. -/
def IsScalar : Json → Prop
  | .arr _ => False
  | .obj _ => False
  | _ => True

/-- What counts as not given: `null`, `false`, a zero, the empty text. -/
def Falsy (v : Json) : Prop :=
  v = .null ∨ v = .bool false ∨ (∃ n, v = .num n ∧ isZero n = true) ∨ v = .str ""

theorem truthy_eq_false_iff (v : Json) : v.truthy = false ↔ v.Falsy := by
  cases v with
  | null => simp [truthy, Falsy]
  | bool b => simp [truthy, Falsy]
  | num n => simp [truthy, Falsy]
  | str s => simp [truthy, Falsy]
  | arr items => simp [truthy, Falsy]
  | obj ms => simp [truthy, Falsy]

theorem literal?_eq_none_iff (v : Json) : v.literal? = none ↔ ¬ v.IsScalar := by
  cases v <;> simp [literal?, IsScalar]

theorem plain?_eq_none_iff (v : Json) : v.plain? = none ↔ ¬ v.IsScalar := by
  have hscalar : ∀ w : Json, w.IsScalar →
      ¬ (if w.truthy then w.literal? else some "") = none := by
    intro w hw h
    by_cases ht : w.truthy = true
    · rw [if_pos ht, literal?_eq_none_iff] at h
      exact h hw
    · rw [if_neg ht] at h
      cases h
  cases v with
  | arr items => simp [plain?, IsScalar]
  | obj ms => simp [plain?, IsScalar]
  | null => exact iff_of_false (hscalar .null trivial) fun h => h trivial
  | bool b => exact iff_of_false (hscalar (.bool b) trivial) fun h => h trivial
  | num n => exact iff_of_false (hscalar (.num n) trivial) fun h => h trivial
  | str s => exact iff_of_false (hscalar (.str s) trivial) fun h => h trivial

theorem isScalar_of_literal? {v : Json} {s : String} (h : v.literal? = some s) : v.IsScalar :=
  Classical.not_not.mp fun hno => by
    rw [(literal?_eq_none_iff v).mpr hno] at h
    cases h

theorem isScalar_of_plain? {v : Json} {s : String} (h : v.plain? = some s) : v.IsScalar :=
  Classical.not_not.mp fun hno => by
    rw [(plain?_eq_none_iff v).mpr hno] at h
    cases h

end Json

/-! ## 2. Well-formed attributes -/

namespace Label

/-- The attribute is absent, falsy or of this kind. -/
def FalsyOr (l : Label) (name : String) (P : Json → Prop) : Prop :=
  ∀ v, l.valueOf name = some v → v.Falsy ∨ P v

/-- Plain parameters: none is an array or an object. -/
def HasPlain (l : Label) (ps : List (String × String)) : Prop :=
  ∀ p ∈ ps, ∀ v, l.valueOf p.1 = some v → v.IsScalar

/-- An object whose members of these names, where they are there, are plain values. -/
def IsAlert (v : Json) : Prop :=
  ∃ ms, v = .obj ms ∧ ∀ name ∈ ["text", "confirmbutton", "cancelbutton", "icon"],
    ∀ w, Members.find name ms = some w → w.IsScalar

/-- An array of columns, each with a name and a title that are plain values and not `null`. -/
def AreColumns (v : Json) : Prop :=
  ∃ items, v = .arr items ∧ ∀ column ∈ items, ∀ name ∈ ["Name", "Title"],
    ∃ w, column.member name = some w ∧ w ≠ .null ∧ w.IsScalar

/-- An object of plain values. -/
def AreRules (v : Json) : Prop :=
  ∃ ms, v = .obj ms ∧ ∀ rule ∈ ms, rule.2.IsScalar

/-- What the attributes of an element must be. -/
structure WellFormed (e : Element) (l : Label) : Prop where
  plain : l.HasPlain e.parameters
  style : l.FalsyOr "style" fun v => ∃ s, v = .str s
  params : e = .button → l.FalsyOr "params" fun v => ∃ ms, v = .obj ms
  pageParams : e = .button → l.FalsyOr "pageparams" fun v => ∃ ms, v = .obj ms
  alert : e = .button → l.FalsyOr "alert" IsAlert
  columns : e = .table → l.FalsyOr "columns" AreColumns
  rules : e = .input ∨ e = .radioGroup → l.FalsyOr "validate" AreRules

/-- A given value decides what the attribute is; where there is none, it is of every kind. -/
theorem givenValue_cases (l : Label) (name : String) :
    (l.givenValue name = none ∧ ∀ P, l.FalsyOr name P) ∨
      ∃ v, l.givenValue name = some v ∧ ∀ P, l.FalsyOr name P ↔ P v := by
  unfold givenValue
  cases hv : l.valueOf name with
  | none =>
      refine Or.inl ⟨rfl, fun P w hw => ?_⟩
      rw [hv] at hw
      cases hw
  | some v =>
      rw [Option.filter_some]
      cases ht : v.truthy with
      | false =>
          refine Or.inl ⟨rfl, fun P w hw => Or.inl ?_⟩
          rw [hv] at hw
          cases hw
          exact v.truthy_eq_false_iff.mp ht
      | true =>
          refine Or.inr ⟨v, rfl, fun P => ⟨fun h => ?_, fun h w hw => ?_⟩⟩
          · rcases h v hv with hfalsy | hP
            · rw [v.truthy_eq_false_iff.mpr hfalsy] at ht
              cases ht
            · exact hP
          · rw [hv] at hw
            cases hw
            exact Or.inr h

end Label

/-! ## 3. Where the parts of a call succeed -/

/-- A check that finds no fault. -/
def Succeeds {α : Type} (x : Except Diagnostic α) : Prop := ∃ a, x = .ok a

theorem succeeds_ok {α : Type} (a : α) : Succeeds (.ok a) := ⟨a, rfl⟩

theorem not_succeeds_error {α : Type} (d : Diagnostic) :
    ¬ Succeeds (.error d : Except Diagnostic α) :=
  fun ⟨_, h⟩ => by cases h

theorem succeeds_bind_iff {α β : Type} {x : Except Diagnostic α} {f : α → Except Diagnostic β}
    {Q : Prop} (h : ∀ a, Succeeds (f a) ↔ Q) : Succeeds (x >>= f) ↔ Succeeds x ∧ Q := by
  cases x with
  | error d => exact iff_of_false (not_succeeds_error d) fun h => not_succeeds_error d h.1
  | ok a => exact (h a).trans ⟨fun hQ => ⟨succeeds_ok a, hQ⟩, fun hQ => hQ.2⟩

namespace Label

theorem parameterTexts_succeeds_iff (l : Label) (ps : List (String × String)) :
    Succeeds (l.parameterTexts ps) ↔ l.HasPlain ps := by
  induction ps with
  | nil => exact iff_of_true (succeeds_ok []) fun p hp => by cases hp
  | cons p ps ih =>
      obtain ⟨name, shown⟩ := p
      rw [HasPlain, List.forall_mem_cons, ← HasPlain, ← ih, parameterTexts, parameterText]
      cases hv : l.valueOf name with
      | none =>
          have hfirst : ∀ v, none = some v → Json.IsScalar v := fun v h => by cases h
          simp only
          cases l.parameterTexts ps with
          | error d => exact iff_of_false (not_succeeds_error d) fun h => not_succeeds_error d h.2
          | ok ss => exact iff_of_true (succeeds_ok _) ⟨hfirst, succeeds_ok ss⟩
      | some v =>
          cases hplain : v.plain? with
          | none =>
              have hno := v.plain?_eq_none_iff.mp hplain
              simp only [hplain]
              exact iff_of_false (not_succeeds_error _) fun h => hno (h.1 v rfl)
          | some s =>
              have hfirst : ∀ w, some v = some w → w.IsScalar := by
                rintro w ⟨rfl⟩
                exact Json.isScalar_of_plain? hplain
              simp only [hplain]
              cases l.parameterTexts ps with
              | error d =>
                  exact iff_of_false (not_succeeds_error d) fun h => not_succeeds_error d h.2
              | ok ss => exact iff_of_true (succeeds_ok _) ⟨hfirst, succeeds_ok ss⟩

theorem styleSuffix_succeeds_iff (l : Label) :
    Succeeds l.styleSuffix ↔ l.FalsyOr "style" fun v => ∃ s, v = .str s := by
  unfold styleSuffix
  rcases l.givenValue_cases "style" with ⟨hnone, hall⟩ | ⟨v, hv, hiff⟩
  · rw [hnone]
    exact iff_of_true (succeeds_ok "") (hall _)
  · rw [hv, hiff]
    cases v with
    | str s => exact iff_of_true (succeeds_ok _) ⟨s, rfl⟩
    | _ => exact iff_of_false (not_succeeds_error _) fun ⟨_, h⟩ => by cases h

theorem pageParameters_succeeds_iff (l : Label) (name shown : String) :
    Succeeds (l.pageParameters name shown) ↔ l.FalsyOr name fun v => ∃ ms, v = .obj ms := by
  unfold pageParameters
  rcases l.givenValue_cases name with ⟨hnone, hall⟩ | ⟨v, hv, hiff⟩
  · rw [hnone]
    exact iff_of_true (succeeds_ok []) (hall _)
  · rw [hv, hiff]
    cases v with
    | obj ms => exact iff_of_true (succeeds_ok _) ⟨ms, rfl⟩
    | _ => exact iff_of_false (not_succeeds_error _) fun ⟨_, h⟩ => by cases h

theorem columnField_eq {column w : Json} {name : String} (hw : column.member name = some w)
    (hnull : w ≠ .null) : columnField column name = w.literal? := by
  rw [columnField, hw]
  cases w with
  | null => exact absurd rfl hnull
  | _ => rfl

theorem columnField_isSome_iff (column : Json) (name : String) :
    (∃ s, columnField column name = some s) ↔
      ∃ w, column.member name = some w ∧ w ≠ .null ∧ w.IsScalar := by
  constructor
  · rintro ⟨s, hs⟩
    cases hw : column.member name with
    | none => rw [columnField, hw] at hs; cases hs
    | some w =>
        by_cases hnull : w = .null
        · rw [columnField, hw, hnull] at hs
          cases hs
        · rw [columnField_eq hw hnull] at hs
          exact ⟨w, rfl, hnull, Json.isScalar_of_literal? hs⟩
  · rintro ⟨w, hw, hnull, hscalar⟩
    rw [columnField_eq hw hnull]
    cases hs : w.literal? with
    | some s => exact ⟨s, rfl⟩
    | none => exact absurd hscalar (w.literal?_eq_none_iff.mp hs)

theorem columnText_isSome_iff (column : Json) :
    (∃ s, columnText column = some s) ↔ ∀ name ∈ ["Name", "Title"],
      ∃ w, column.member name = some w ∧ w ≠ .null ∧ w.IsScalar := by
  rw [List.forall_mem_cons, List.forall_mem_singleton, ← columnField_isSome_iff,
    ← columnField_isSome_iff, columnText]
  cases columnField column "Name" with
  | none => exact iff_of_false (fun ⟨_, h⟩ => by cases h) fun ⟨⟨_, h⟩, _⟩ => by cases h
  | some name =>
      cases columnField column "Title" with
      | none => exact iff_of_false (fun ⟨_, h⟩ => by cases h) fun ⟨_, ⟨_, h⟩⟩ => by cases h
      | some title => exact iff_of_true ⟨_, rfl⟩ ⟨⟨name, rfl⟩, ⟨title, rfl⟩⟩

theorem columnTexts_isSome_iff (items : List Json) :
    (∃ ss, columnTexts items = some ss) ↔ ∀ column ∈ items, ∃ s, columnText column = some s := by
  induction items with
  | nil => exact iff_of_true ⟨[], rfl⟩ fun _ h => by cases h
  | cons column items ih =>
      rw [List.forall_mem_cons, ← ih, columnTexts]
      cases columnText column with
      | none => exact iff_of_false (fun ⟨_, h⟩ => by cases h) fun ⟨⟨_, h⟩, _⟩ => by cases h
      | some s =>
          cases columnTexts items with
          | none => exact iff_of_false (fun ⟨_, h⟩ => by cases h) fun ⟨_, ⟨_, h⟩⟩ => by cases h
          | some ss => exact iff_of_true ⟨_, rfl⟩ ⟨⟨s, rfl⟩, ⟨ss, rfl⟩⟩

theorem columns_succeeds_iff (l : Label) :
    Succeeds l.columns ↔ l.FalsyOr "columns" AreColumns := by
  unfold columns
  rcases l.givenValue_cases "columns" with ⟨hnone, hall⟩ | ⟨v, hv, hiff⟩
  · rw [hnone]
    exact iff_of_true (succeeds_ok []) (hall _)
  · rw [hv, hiff]
    cases v with
    | arr items =>
        have hitems : (∃ ss, columnTexts items = some ss) ↔ AreColumns (.arr items) := by
          rw [columnTexts_isSome_iff]
          constructor
          · intro h
            exact ⟨items, rfl, fun column hc => (columnText_isSome_iff column).mp (h column hc)⟩
          · rintro ⟨_, ⟨rfl⟩, h⟩ column hc
            exact (columnText_isSome_iff column).mpr (h column hc)
        rw [← hitems]
        simp only
        cases columnTexts items with
        | none => exact iff_of_false (not_succeeds_error _) fun ⟨_, h⟩ => by cases h
        | some ss => exact iff_of_true (succeeds_ok _) ⟨ss, rfl⟩
    | _ => exact iff_of_false (not_succeeds_error _) fun ⟨_, h, _⟩ => by cases h

theorem ruleTexts_succeeds_iff (l : Label) (ms : List (String × Json)) :
    Succeeds (l.ruleTexts ms) ↔ ∀ rule ∈ ms, rule.2.IsScalar := by
  induction ms with
  | nil => exact iff_of_true (succeeds_ok []) fun _ h => by cases h
  | cons rule ms ih =>
      obtain ⟨name, v⟩ := rule
      rw [List.forall_mem_cons, ← ih, ruleTexts]
      cases hv : v.literal? with
      | none =>
          have hno := v.literal?_eq_none_iff.mp hv
          exact iff_of_false (not_succeeds_error _) fun h => hno h.1
      | some s =>
          have hscalar := Json.isScalar_of_literal? hv
          simp only
          cases l.ruleTexts ms with
          | error d => exact iff_of_false (not_succeeds_error d) fun h => not_succeeds_error d h.2
          | ok ss => exact iff_of_true (succeeds_ok _) ⟨hscalar, succeeds_ok ss⟩

theorem validationSuffix_succeeds_iff (l : Label) :
    Succeeds l.validationSuffix ↔ l.FalsyOr "validate" AreRules := by
  unfold validationSuffix
  rcases l.givenValue_cases "validate" with ⟨hnone, hall⟩ | ⟨v, hv, hiff⟩
  · rw [hnone]
    exact iff_of_true (succeeds_ok "") (hall _)
  · rw [hv, hiff]
    cases v with
    | obj ms =>
        have hms : Succeeds (l.ruleTexts ms) ↔ AreRules (.obj ms) := by
          rw [ruleTexts_succeeds_iff]
          constructor
          · exact fun h => ⟨ms, rfl, h⟩
          · rintro ⟨_, ⟨rfl⟩, h⟩
            exact h
        rw [← hms]
        simp only
        cases l.ruleTexts ms with
        | error d => exact iff_of_false (not_succeeds_error d) (not_succeeds_error d)
        | ok ss =>
            cases ss with
            | nil => exact iff_of_true (succeeds_ok "") (succeeds_ok [])
            | cons s ss => exact iff_of_true (succeeds_ok _) (succeeds_ok _)
    | _ => exact iff_of_false (not_succeeds_error _) fun ⟨_, h, _⟩ => by cases h

theorem alertTexts_succeeds_iff (l : Label) (ms : List (String × Json))
    (fields : List (String × String)) :
    Succeeds (l.alertTexts ms fields) ↔
      ∀ field ∈ fields, ∀ w, Members.find field.1 ms = some w → w.IsScalar := by
  induction fields with
  | nil => exact iff_of_true (succeeds_ok []) fun _ h => by cases h
  | cons field fields ih =>
      obtain ⟨name, shown⟩ := field
      rw [List.forall_mem_cons, ← ih, alertTexts]
      cases hw : Members.find name ms with
      | none => exact ⟨fun h => ⟨fun w hno => (by cases hno), h⟩, fun h => h.2⟩
      | some w =>
          simp only
          cases hplain : w.plain? with
          | none =>
              have hno := w.plain?_eq_none_iff.mp hplain
              exact iff_of_false (not_succeeds_error _) fun h => hno (h.1 w rfl)
          | some s =>
              have hscalar : ∀ w', some w = some w' → w'.IsScalar := by
                rintro w' ⟨rfl⟩
                exact Json.isScalar_of_plain? hplain
              simp only
              cases l.alertTexts ms fields with
              | error d =>
                  exact iff_of_false (not_succeeds_error d) fun h => not_succeeds_error d h.2
              | ok ss => exact iff_of_true (succeeds_ok _) ⟨hscalar, succeeds_ok ss⟩

theorem alertSuffix_succeeds_iff (l : Label) :
    Succeeds l.alertSuffix ↔ l.FalsyOr "alert" IsAlert := by
  unfold alertSuffix
  rcases l.givenValue_cases "alert" with ⟨hnone, hall⟩ | ⟨v, hv, hiff⟩
  · rw [hnone]
    exact iff_of_true (succeeds_ok "") (hall _)
  · rw [hv, hiff]
    cases v with
    | obj ms =>
        have hnames :
            alertFields.map (·.1) = ["text", "confirmbutton", "cancelbutton", "icon"] := rfl
        have hms : Succeeds (l.alertTexts ms alertFields) ↔ IsAlert (.obj ms) := by
          rw [alertTexts_succeeds_iff, IsAlert, ← hnames]
          simp only [List.forall_mem_map]
          constructor
          · exact fun h => ⟨ms, rfl, h⟩
          · rintro ⟨_, ⟨rfl⟩, h⟩
            exact h
        rw [← hms]
        simp only
        cases l.alertTexts ms alertFields with
        | error d => exact iff_of_false (not_succeeds_error d) (not_succeeds_error d)
        | ok ss => exact iff_of_true (succeeds_ok _) (succeeds_ok ss)
    | _ => exact iff_of_false (not_succeeds_error _) fun ⟨_, h, _⟩ => by cases h

end Label

/-! ## 4. Where a call succeeds -/

namespace Element

theorem layout_eq_action_iff (e : Element) : e.layout = .action ↔ e = .button := by
  cases e <;> decide

theorem layout_eq_grid_iff (e : Element) : e.layout = .grid ↔ e = .table := by
  cases e <;> decide

theorem layout_eq_field_iff (e : Element) : e.layout = .field ↔ e = .input ∨ e = .radioGroup := by
  cases e <;> decide

/-- The conditions on the attributes, by the layout of the call. -/
theorem wellFormed_iff (e : Element) (l : Label) :
    l.WellFormed e ↔ l.HasPlain e.parameters ∧ l.FalsyOr "style" (fun v => ∃ s, v = .str s) ∧
      (e.layout = .action → l.FalsyOr "params" (fun v => ∃ ms, v = .obj ms) ∧
        l.FalsyOr "pageparams" (fun v => ∃ ms, v = .obj ms) ∧ l.FalsyOr "alert" Label.IsAlert) ∧
      (e.layout = .grid → l.FalsyOr "columns" Label.AreColumns) ∧
      (e.layout = .field → l.FalsyOr "validate" Label.AreRules) := by
  rw [layout_eq_action_iff, layout_eq_grid_iff, layout_eq_field_iff]
  constructor
  · intro h
    exact ⟨h.plain, h.style, fun he => ⟨h.params he, h.pageParams he, h.alert he⟩, h.columns,
      h.rules⟩
  · rintro ⟨hplain, hstyle, haction, hgrid, hfield⟩
    exact ⟨hplain, hstyle, fun he => (haction he).1, fun he => (haction he).2.1,
      fun he => (haction he).2.2, hgrid, hfield⟩

theorem closePlain_succeeds_iff (e : Element) (l : Label) (before : List String) (body : String) :
    Succeeds (e.closePlain l before body) ↔ Succeeds l.styleSuffix := by
  rw [closePlain, succeeds_bind_iff fun _ => iff_of_true (succeeds_ok _) trivial, and_true]

theorem closeAction_succeeds_iff (e : Element) (l : Label) (before : List String) (body : String) :
    Succeeds (e.closeAction l before body) ↔ Succeeds (l.pageParameters "params" "Params") ∧
      Succeeds (l.pageParameters "pageparams" "PageParams") ∧ Succeeds l.styleSuffix ∧
      Succeeds l.alertSuffix := by
  refine succeeds_bind_iff fun params => succeeds_bind_iff fun pageParams =>
    succeeds_bind_iff fun style => ?_
  rw [succeeds_bind_iff fun _ => iff_of_true (succeeds_ok _) trivial, and_true]

theorem gridCall_succeeds_iff (e : Element) (l : Label) :
    Succeeds (e.gridCall l) ↔
      Succeeds (l.parameterTexts e.parameters) ∧ Succeeds l.columns ∧ Succeeds l.styleSuffix := by
  refine succeeds_bind_iff fun before => succeeds_bind_iff fun columns => ?_
  rw [succeeds_bind_iff fun _ => iff_of_true (succeeds_ok _) trivial, and_true]

theorem closeField_succeeds_iff (e : Element) (l : Label) (body : String) :
    Succeeds (e.closeField l body) ↔ Succeeds (l.parameterTexts e.parameters) ∧
      Succeeds l.validationSuffix ∧ Succeeds l.styleSuffix := by
  refine succeeds_bind_iff fun params => succeeds_bind_iff fun validation => ?_
  rw [succeeds_bind_iff fun _ => iff_of_true (succeeds_ok _) trivial, and_true]

/-- **A call succeeds exactly where the attributes are well-formed**, whatever its body. -/
theorem picture_succeeds_iff (e : Element) (l : Label) (body : Portrait) :
    Succeeds (e.picture l body).1 ↔ l.WellFormed e := by
  rw [wellFormed_iff, ← l.parameterTexts_succeeds_iff, ← l.styleSuffix_succeeds_iff,
    ← l.pageParameters_succeeds_iff "params" "Params",
    ← l.pageParameters_succeeds_iff "pageparams" "PageParams", ← l.alertSuffix_succeeds_iff,
    ← l.columns_succeeds_iff, ← l.validationSuffix_succeeds_iff, picture]
  cases e.layout with
  | plain =>
      have hcall : Succeeds (l.parameterTexts e.parameters >>= fun before =>
          e.closePlain l before body.source) ↔ _ :=
        succeeds_bind_iff fun before => e.closePlain_succeeds_iff l before body.source
      simp only [reduceCtorEq, false_implies, and_true]
      rw [← hcall]
      cases l.parameterTexts e.parameters <;> exact Iff.rfl
  | action =>
      have hcall : Succeeds (l.parameterTexts e.parameters >>= fun before =>
          e.closeAction l before body.source) ↔ _ :=
        succeeds_bind_iff fun before => e.closeAction_succeeds_iff l before body.source
      simp only [reduceCtorEq, false_implies, true_implies, and_true]
      -- the style is looked at after the page parameters
      rw [and_left_comm (a := Succeeds l.styleSuffix), and_left_comm (a := Succeeds l.styleSuffix),
        ← hcall]
      cases l.parameterTexts e.parameters <;> exact Iff.rfl
  | grid =>
      simp only [reduceCtorEq, false_implies, true_implies, and_true, true_and]
      rw [gridCall_succeeds_iff, and_comm (a := Succeeds l.columns)]
  | field =>
      simp only [reduceCtorEq, false_implies, true_implies, true_and]
      rw [closeField_succeeds_iff, and_comm (a := Succeeds l.validationSuffix)]

/-- What a call that succeeds leaves out is what its body leaves out; a table has no body. -/
theorem omissions_picture {e : Element} {l : Label} {body : Portrait}
    (h : Succeeds (e.picture l body).1) :
    (e.picture l body).2 = if e = .table then [] else body.omissions := by
  have hgrid := e.layout_eq_grid_iff
  unfold picture at h ⊢
  cases hlayout : e.layout with
  | plain =>
      rw [hlayout] at h hgrid
      rw [if_neg fun he => by cases hgrid.mpr he]
      cases hparams : l.parameterTexts e.parameters with
      | error d =>
          rw [hparams] at h
          exact absurd h (not_succeeds_error d)
      | ok before => rfl
  | action =>
      rw [hlayout] at h hgrid
      rw [if_neg fun he => by cases hgrid.mpr he]
      cases hparams : l.parameterTexts e.parameters with
      | error d =>
          rw [hparams] at h
          exact absurd h (not_succeeds_error d)
      | ok before => rfl
  | grid => rw [if_pos (hgrid.mp hlayout)]
  | field =>
      rw [hlayout] at hgrid
      rw [if_neg fun he => by cases hgrid.mpr he]

end Element

/-! ## 5. Clean portraits -/

theorem Portrait.settle_clean_iff (own : List Omission) (r : Except Diagnostic String) :
    Omission.diagnostics (Portrait.settle own r).omissions = [] ↔
      Omission.diagnostics own = [] ∧ Succeeds r := by
  cases r with
  | ok source => exact ⟨fun h => ⟨h, succeeds_ok source⟩, fun h => h.1⟩
  | error d =>
      rw [settle, Omission.diagnostics_append, List.append_eq_nil_iff]
      exact and_congr_right fun _ =>
        iff_of_false (List.cons_ne_nil d []) (not_succeeds_error d)

theorem Element.portrait_clean_iff (o : RenderOptions) (e : Element) (l : Label) (depth : Nat)
    (body : Portrait) : Omission.diagnostics (e.portrait o l depth body).omissions = [] ↔
      (depth < o.maxDepth ∧ l.WellFormed e) ∧
        (e ≠ .table → Omission.diagnostics body.omissions = []) := by
  unfold Element.portrait
  by_cases hdeep : o.maxDepth ≤ depth
  · rw [if_pos hdeep, Portrait.settle_clean_iff]
    exact iff_of_false (fun h => not_succeeds_error _ h.2) fun h => by omega
  · rw [if_neg hdeep, Portrait.settle_clean_iff, e.picture_succeeds_iff, and_comm,
      and_iff_right (Nat.lt_of_not_le hdeep)]
    refine and_congr_right fun hwell => ?_
    rw [omissions_picture ((e.picture_succeeds_iff l body).mpr hwell)]
    by_cases htable : e = .table
    · rw [if_pos htable]
      exact iff_of_true rfl fun hno => absurd htable hno
    · rw [if_neg htable]
      exact ⟨fun h _ => h, fun h => h htable⟩

/-- Literal text and unknown tags leave no diagnostic. -/
theorem Label.portrait_clean_iff (o : RenderOptions) (l : Label) (depth : Nat) (body : Portrait) :
    Omission.diagnostics (l.portrait o depth body).omissions = [] ↔
      ∀ e, Element.ofTag? l.tag = some e → (depth < o.maxDepth ∧ l.WellFormed e) ∧
        (e ≠ .table → Omission.diagnostics body.omissions = []) := by
  unfold portrait
  by_cases htext : l.isText = true
  · have hnone : Element.ofTag? l.tag = none := by
      rw [show l.tag = textTag from of_decide_eq_true htext]
      decide
    rw [if_pos htext, hnone]
    exact iff_of_true rfl fun e h => by cases h
  · rw [if_neg htext]
    cases Element.ofTag? l.tag with
    | none => exact iff_of_true rfl fun e h => by cases h
    | some e =>
        simp only [Option.some.injEq, forall_eq']
        exact e.portrait_clean_iff o l depth body

/-! ## 6. The elements that are looked at -/

/-- The page shows this label of this element, with so many elements around it: it stands at the
    top, or among the children of an element that is shown and is no table. -/
inductive Forest.Shows : List Node → Nat → Label → Element → Prop
  | here {ns : List Node} {n : Node} {e : Element} (hn : n ∈ ns)
      (htag : Element.ofTag? n.label.tag = some e) : Shows ns 0 n.label e
  | inside {ns : List Node} {n : Node} {e e' : Element} {l : Label} {k : Nat} (hn : n ∈ ns)
      (htag : Element.ofTag? n.label.tag = some e) (hopen : e ≠ .table)
      (hinside : Shows n.children k l e') : Shows ns (k + 1) l e'

namespace Forest

/-- What is shown by a page, from its first node, the children of that node and its neighbours. -/
theorem forall_shows_cons {P : Nat → Label → Element → Prop} (n : Node) (ns : Forest) :
    (∀ k l e, Shows (n :: ns) k l e → P k l e) ↔
      (∀ e, Element.ofTag? n.label.tag = some e → P 0 n.label e ∧
        (e ≠ .table → ∀ k l e', Shows n.children k l e' → P (k + 1) l e')) ∧
      ∀ k l e, Shows ns k l e → P k l e := by
  constructor
  · intro h
    refine ⟨fun e htag => ⟨h _ _ _ (.here (List.mem_cons_self ..) htag), ?_⟩, ?_⟩
    · exact fun hopen k l e' hinside => h _ _ _ (.inside (List.mem_cons_self ..) htag hopen hinside)
    · intro k l e hshows
      cases hshows with
      | here hn htag => exact h _ _ _ (.here (List.mem_cons_of_mem n hn) htag)
      | inside hn htag hopen hinside =>
          exact h _ _ _ (.inside (List.mem_cons_of_mem n hn) htag hopen hinside)
  · rintro ⟨hfirst, hrest⟩ k l e hshows
    cases hshows with
    | here hn htag =>
        rcases List.mem_cons.mp hn with rfl | hn
        · exact (hfirst e htag).1
        · exact hrest _ _ _ (.here hn htag)
    | inside hn htag hopen hinside =>
        rcases List.mem_cons.mp hn with rfl | hn
        · exact (hfirst _ htag).2 hopen _ _ _ hinside
        · exact hrest _ _ _ (.inside hn htag hopen hinside)

theorem portrait_clean_iff (o : RenderOptions) (ns : Forest) :
    ∀ depth : Nat, Omission.diagnostics (ns.portrait o depth).omissions = [] ↔
      ∀ k l e, Shows ns k l e → depth + k < o.maxDepth ∧ l.WellFormed e := by
  induction ns using Forest.induct with
  | nil =>
      intro depth
      refine iff_of_true rfl fun k l e h => ?_
      cases h with
      | here hn _ => cases hn
      | inside hn _ _ _ => cases hn
  | cons n ns below rest =>
      intro depth
      have hsplit : (Forest.portrait o depth (n :: ns)).omissions =
          (n.portrait o depth).omissions ++ (Forest.portrait o depth ns).omissions := rfl
      rw [hsplit, Omission.diagnostics_append, List.append_eq_nil_iff, rest depth, n.portrait_eq,
        n.label.portrait_clean_iff, forall_shows_cons, below (depth + 1)]
      -- one more element around the children
      simp only [Nat.add_zero, Nat.add_right_comm depth 1, Nat.add_assoc]

end Forest

/-- **A page is clean exactly where every element that is looked at is well-formed and not too
    deep**, under every limit, with trimming and without. -/
theorem clean_iff (o : RenderOptions) (ns : Forest) :
    (ns.compile o).diagnostics = [] ↔
      ∀ k l e, Forest.Shows ns k l e → k < o.maxDepth ∧ l.WellFormed e := by
  rw [Rendered.diagnostics, Forest.compile_eq, Forest.portrait_clean_iff]
  simp only [Nat.zero_add]

end Pagewright
