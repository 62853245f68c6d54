import Pagewright.Proofs.Editor.Effect
import Pagewright.Proofs.Page.RoundTrip

/-!
# Edits survive JSON, but for one

An edit is written as a value with its kind as the one name, and all its fields are written. What
this value reads as:

* every edit reads as itself, with its ids, texts, places, values and whole trees -- but for one
  kind of edit;
* an edit that sets an attribute to `null` reads as the edit that takes the attribute out, since
  `null` is also how the absent value is written (`Edit.asRead`);
* such an edit is not made up: it is what takes back a change to an attribute that was `null`
  (`inverse_setsNull_iff`). A `null` further inside a value, or in the attributes of a tag that is
  put in, is read again.

A place is written as a 64-bit word, so it has to be one (`Edit.Fits`).
-/

namespace Pagewright

open Json (readFields eq_readFields readFields_cons)

namespace Edit

/-! ## 1. What is read of an edit -/

/-- The place that an edit names, where it names one. -/
def place : Edit → Option Nat
  | insert _ index _ => some index
  | move _ _ index => some index
  | _ => none

/-- The place of the edit, if any, is a 64-bit word. -/
def Fits (e : Edit) : Prop := ∀ index ∈ e.place, index < UInt64.size

/-- The edit sets an attribute to `null`. -/
def SetsNull (e : Edit) : Prop := ∃ id name, e = setAttribute id name (some .null)

/-- What the value of an edit reads as. -/
def asRead : Edit → Edit
  | setAttribute id name (some .null) => setAttribute id name none
  | e => e

theorem asRead_of_not_setsNull {e : Edit} (h : ¬ e.SetsNull) : e.asRead = e := by
  unfold asRead
  split
  · rename_i id name
    exact absurd ⟨id, name, rfl⟩ h
  · rfl

theorem asRead_ne_of_setsNull {e : Edit} (h : e.SetsNull) : e.asRead ≠ e := by
  obtain ⟨id, name, rfl⟩ := h
  intro heq
  cases heq

/-! ## 2. The fields -/

/-- A place that is a 64-bit word is read again. -/
theorem asWord_indexJson {index : Nat} (h : index < UInt64.size) :
    (Json.asWord (indexJson index)).map UInt64.toNat = .ok index := by
  have hword : (UInt64.ofNat index).toNat = index := UInt64.toNat_ofNat_of_lt h
  have hnonneg : 0 ≤ (Whole.ofWord (UInt64.ofNat index)).val := Int.natCast_nonneg _
  have hval : (Whole.ofWord (UInt64.ofNat index)).val.toNat = index := by
    rw [Whole.ofWord, Int.toNat_natCast, hword]
  rw [indexJson, Json.asWord, if_pos hnonneg, hval, Except.map, hword]

theorem asOptionalText_textOrNull (s : Option String) :
    Json.asOptionalText (textOrNull s) = .ok s := by
  cases s with
  | none => rfl
  | some s => rfl

namespace Draft

section Fields

variable {known : List String} (d : Draft)

theorem fill_eq (ms : List (String × Json)) :
    fill known d ms = readFields (putField known) d ms :=
  eq_readFields (fun _ => by rw [fill]) (fun _ _ _ _ _ hput => by rw [fill, hput])
    (fun _ _ _ _ _ hput => by rw [fill, hput]) d ms

theorem putField_tagId (h : "tag_id" ∈ known) (id : String) :
    d.putField known "tag_id" (.str id) = .ok { d with tagId := some id } := by
  simp [putField, h, Json.asText, Except.map]

theorem putField_parent (h : "parent_id" ∈ known) (parent : Option String) :
    d.putField known "parent_id" (textOrNull parent) = .ok { d with parent := parent } := by
  simp [putField, h, asOptionalText_textOrNull, Except.map]

theorem putField_index (h : "index" ∈ known) {index : Nat} (hfits : index < UInt64.size) :
    d.putField known "index" (indexJson index) = .ok { d with index := some index } := by
  have hread := asWord_indexJson hfits
  cases hword : Json.asWord (indexJson index) with
  | error e => rw [hword] at hread; cases hread
  | ok word =>
      rw [hword, Except.map, Except.ok.injEq] at hread
      simp [putField, h, hword, Except.map, hread]

theorem putField_tag (h : "tag" ∈ known) (tag : Node) :
    d.putField known "tag" tag.toJson = .ok { d with tag := some tag } := by
  simp [putField, h, tag.ofJson_toJson, Except.map]

theorem putField_name (h : "name" ∈ known) (name : String) :
    d.putField known "name" (.str name) = .ok { d with name := some name } := by
  simp [putField, h, Json.asText, Except.map]

theorem putField_value (h : "value" ∈ known) (v : Json) :
    d.putField known "value" v = .ok { d with value := if v.isNull then none else some v } := by
  simp [putField, h]

theorem putField_text (h : "text" ∈ known) (text : String) :
    d.putField known "text" (.str text) = .ok { d with text := some text } := by
  simp [putField, h, Json.asText, Except.map]

theorem putField_nodes (h : "nodes" ∈ known) (nodes : Forest) :
    d.putField known "nodes" nodes.toJson = .ok { d with nodes := some nodes } := by
  simp [putField, h, asNodes, Forest.toJson, Forest.ofStrictItems_toItems, Except.map]

end Fields

end Draft

/-! ## 3. Edits -/

/-- An edit that names a kind reads as its fields under this kind do. -/
theorem ofJson_kind {kind : String} (h : kind ∈ kinds) (ms : List (String × Json)) :
    ofJson (.obj [(kind, .obj ms)]) = ofFields kind ms := by
  simp [ofJson, ofContent, h]

theorem ofJson_insert {index : Nat} (hfits : index < UInt64.size) (parent : Option String)
    (tag : Node) : ofJson (insert parent index tag).toJson = .ok (insert parent index tag) := by
  have hfill : Draft.fill ["parent_id", "index", "tag"] .empty
      [("parent_id", textOrNull parent), ("index", indexJson index), ("tag", tag.toJson)] =
        .ok { Draft.empty with parent := parent, index := some index, tag := some tag } := by
    rw [Draft.fill_eq, readFields_cons (Draft.putField_parent _ (by decide) parent),
      readFields_cons (Draft.putField_index _ (by decide) hfits),
      readFields_cons (Draft.putField_tag _ (by decide) tag), readFields]
  rw [toJson, ofJson_kind (by decide), ofFields, if_pos rfl, hfill]
  rfl

theorem ofJson_move {index : Nat} (hfits : index < UInt64.size) (id : String)
    (parent : Option String) :
    ofJson (move id parent index).toJson = .ok (move id parent index) := by
  have hfill : Draft.fill ["tag_id", "parent_id", "index"] .empty
      [("tag_id", .str id), ("parent_id", textOrNull parent), ("index", indexJson index)] =
        .ok { Draft.empty with tagId := some id, parent := parent, index := some index } := by
    rw [Draft.fill_eq, readFields_cons (Draft.putField_tagId _ (by decide) id),
      readFields_cons (Draft.putField_parent _ (by decide) parent),
      readFields_cons (Draft.putField_index _ (by decide) hfits), readFields]
  rw [toJson, ofJson_kind (by decide), ofFields, if_neg (by decide), if_pos rfl, hfill]
  rfl

theorem ofJson_remove (id : String) : ofJson (remove id).toJson = .ok (remove id) := by
  have hfill : Draft.fill ["tag_id"] .empty [("tag_id", .str id)] =
      .ok { Draft.empty with tagId := some id } := by
    rw [Draft.fill_eq, readFields_cons (Draft.putField_tagId _ (by decide) id), readFields]
  rw [toJson, ofJson_kind (by decide), ofFields, if_neg (by decide), if_neg (by decide),
    if_pos rfl, hfill]
  rfl

/-- The one field that reads otherwise: a value `null` reads as no value. -/
theorem ofJson_setAttribute (id name : String) (value : Option Json) :
    ofJson (setAttribute id name value).toJson = .ok (setAttribute id name value).asRead := by
  have hfill : Draft.fill ["tag_id", "name", "value"] .empty
      [("tag_id", .str id), ("name", .str name), ("value", value.getD .null)] =
        .ok { Draft.empty with
          tagId := some id
          name := some name
          value := if (value.getD .null).isNull then none else some (value.getD .null) } := by
    rw [Draft.fill_eq, readFields_cons (Draft.putField_tagId _ (by decide) id),
      readFields_cons (Draft.putField_name _ (by decide) name),
      readFields_cons (Draft.putField_value _ (by decide) _), readFields]
  rw [toJson, ofJson_kind (by decide), ofFields, if_neg (by decide), if_neg (by decide),
    if_neg (by decide), if_pos rfl, hfill]
  rcases value with _ | v
  · rfl
  · cases v with
    | null => rfl
    | _ => rfl

theorem ofJson_setText (id text : String) :
    ofJson (setText id text).toJson = .ok (setText id text) := by
  have hfill : Draft.fill ["tag_id", "text"] .empty [("tag_id", .str id), ("text", .str text)] =
      .ok { Draft.empty with tagId := some id, text := some text } := by
    rw [Draft.fill_eq, readFields_cons (Draft.putField_tagId _ (by decide) id),
      readFields_cons (Draft.putField_text _ (by decide) text), readFields]
  rw [toJson, ofJson_kind (by decide), ofFields, if_neg (by decide), if_neg (by decide),
    if_neg (by decide), if_neg (by decide), if_pos rfl, hfill]
  rfl

theorem ofJson_replacePage (nodes : Forest) :
    ofJson (replacePage nodes).toJson = .ok (replacePage nodes) := by
  have hfill : Draft.fill ["nodes"] .empty [("nodes", nodes.toJson)] =
      .ok { Draft.empty with nodes := some nodes } := by
    rw [Draft.fill_eq, readFields_cons (Draft.putField_nodes _ (by decide) nodes), readFields]
  rw [toJson, ofJson_kind (by decide), ofFields, if_neg (by decide), if_neg (by decide),
    if_neg (by decide), if_neg (by decide), if_neg (by decide), hfill]
  rfl

/-- Every edit is read, and as `asRead` says. -/
theorem ofJson_toJson {e : Edit} (h : e.Fits) : ofJson e.toJson = .ok e.asRead := by
  cases e with
  | insert parent index tag => exact ofJson_insert (h index rfl) parent tag
  | move id parent index => exact ofJson_move (h index rfl) id parent
  | remove id => exact ofJson_remove id
  | setAttribute id name value => exact ofJson_setAttribute id name value
  | setText id text => exact ofJson_setText id text
  | replacePage nodes => exact ofJson_replacePage nodes

/-- **Which edits survive JSON.** What is written of an edit always reads, and as the edit itself
    exactly when the edit does not set an attribute to `null`; one that does reads as the edit that
    takes the attribute out. -/
theorem survives_json (e : Edit) (h : e.Fits) :
    ofJson e.toJson = .ok e.asRead ∧ (ofJson e.toJson = .ok e ↔ ¬ e.SetsNull) := by
  refine ⟨ofJson_toJson h, ?_, ?_⟩
  · intro hread hnull
    rw [ofJson_toJson h, Except.ok.injEq] at hread
    exact asRead_ne_of_setsNull hnull hread
  · intro hnull
    rw [ofJson_toJson h, asRead_of_not_setsNull hnull]

/-- A paragraph with an attribute that is there and `null`. -/
def hiddenParagraph : Node := ⟨⟨some "x", "p", some (.put "hidden" .null .empty), none⟩, none⟩

/-- Putting this paragraph in survives, its `null` included. -/
theorem insert_hidden_survives_json : (insert none 1 hiddenParagraph).Fits ∧
    ofJson (insert none 1 hiddenParagraph).toJson = .ok (insert none 1 hiddenParagraph) := by
  have hfits : (insert none 1 hiddenParagraph).Fits := by
    intro index hindex
    cases hindex
    decide
  refine ⟨hfits, (survives_json _ hfits).2.mpr ?_⟩
  rintro ⟨id, name, h⟩
  cases h

/-! ## 4. Where a null comes from -/

/-- **Taking back sets an attribute to `null` exactly when it was `null`** before the change. -/
theorem inverse_setsNull_iff {page : Forest} {e inv : Edit} (h : e.inverse page = .ok inv) :
    inv.SetsNull ↔ ∃ id name value found, e = setAttribute id name value ∧
      page.find id = some found ∧ found.node.label.valueOf name = some .null := by
  constructor
  · rintro ⟨id, name, rfl⟩
    cases e with
    | insert parent k tag =>
        obtain ⟨_, _, hinv⟩ := inverse_insert h
        cases hinv
    | move id' parent k =>
        obtain ⟨_, _, _, _, hinv⟩ := inverse_move h
        cases hinv
    | remove id' =>
        obtain ⟨_, _, _, _, hinv⟩ := inverse_remove h
        cases hinv
    | setAttribute id' name' value =>
        obtain ⟨found, hfound, hinv⟩ := inverse_setAttribute h
        rw [setAttribute.injEq] at hinv
        obtain ⟨rfl, rfl, hvalue⟩ := hinv
        exact ⟨id, name, value, found, rfl, hfound, hvalue.symm⟩
    | setText id' text =>
        obtain ⟨_, _, hinv⟩ := inverse_setText h
        cases hinv
    | replacePage nodes => cases h
  · rintro ⟨id, name, value, found, rfl, hfound, hvalue⟩
    obtain ⟨found', hfound', hinv⟩ := inverse_setAttribute h
    rw [hfound, Option.some.injEq] at hfound'
    rw [hinv, ← hfound', hvalue]
    exact ⟨id, name, rfl⟩

/-- What takes back another value of this attribute does not survive: it makes the attribute
    `null` again, and what is read of it takes the attribute out. -/
theorem inverse_shown_lost_in_json :
    ∃ inv, inverse [hiddenParagraph] (setAttribute "x" "hidden" (some (.str "yes"))) = .ok inv ∧
      inv.Fits ∧ ofJson inv.toJson = .ok (setAttribute "x" "hidden" none) ∧
      ofJson inv.toJson ≠ .ok inv := by
  have hread : ofJson (setAttribute "x" "hidden" (some .null)).toJson =
      .ok (setAttribute "x" "hidden" none) := ofJson_setAttribute "x" "hidden" (some .null)
  refine ⟨setAttribute "x" "hidden" (some .null), rfl, ?_, hread, ?_⟩
  · intro index hindex
    cases hindex
  · rw [hread]
    intro h
    cases h

end Edit

end Pagewright
