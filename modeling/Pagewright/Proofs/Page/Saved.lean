import Pagewright.Proofs.Json.Pretty
import Pagewright.Proofs.Page.RoundTrip

/-!
# Pages survive saving

A page is saved as the text of its value, and loaded by reading the text and then the value. Both
ways back are known: `Json.read_pretty` for the text, `Forest.ofJson_toJson` for the value. What is
left is the value of a page:

* `Forest.Values` -- every attribute value of the page has a property;
* `Forest.exact_toJson` -- the value of a page is exact where its attribute values are: a node
  repeats no field, and all else that is written of it are strings;
* `Forest.load_save` -- so **a page loads as it was saved exactly as long as it is not too deep**.
-/

namespace Pagewright

/-! ## 1. The value of a page -/

/-- Every attribute value of the label has the property. -/
def Label.Values (P : Json → Prop) (l : Label) : Prop := ∀ name v, l.valueOf name = some v → P v

/-- Every attribute value of the page has the property. -/
def Forest.Values (P : Json → Prop) (ns : Forest) : Prop := ∀ l ∈ Forest.labels ns, l.Values P

theorem Forest.values_cons {P : Json → Prop} (n : Node) (ns : Forest) :
    Forest.Values P (n :: ns) ↔
      n.label.Values P ∧ Forest.Values P n.children ∧ Forest.Values P ns := by
  simp only [Forest.Values, Forest.labels_cons, List.forall_mem_cons, List.forall_mem_append]

/-- A field is exact where its value is, if it is written. -/
theorem exact_optionalField {α : Type} {name : String} {x : Option α} {f : α → Json}
    (h : ∀ a, x = some a → (f a).Exact) : ∀ m ∈ optionalField name (x.map f), m.2.Exact := by
  cases x with
  | none => exact List.forall_mem_nil _
  | some a => exact List.forall_mem_singleton.mpr (h a rfl)

namespace Label

theorem values_iff_of_attr {P : Json → Prop} {l : Label} {a : Attributes} (ha : l.attr = some a) :
    l.Values P ↔ ∀ m ∈ a.entries, P m.2 := by
  have hvalue : ∀ name v, l.valueOf name = some v ↔ (name, v) ∈ a.entries := by
    intro name v
    rw [valueOf, ha, Option.bind_some, Attributes.find, Members.find_eq_some_iff a.distinct]
  constructor
  · exact fun h m hm => h m.1 m.2 ((hvalue m.1 m.2).mpr hm)
  · exact fun h name v hv => h (name, v) ((hvalue name v).mp hv)

theorem values_of_attr_eq_none {P : Json → Prop} {l : Label} (ha : l.attr = none) :
    l.Values P := by
  intro name v hv
  rw [valueOf, ha] at hv
  cases hv

theorem exact_fields {l : Label} (h : l.Values Json.Exact) : ∀ m ∈ l.fields, m.2.Exact := by
  have hattr : ∀ a, l.attr = some a → Json.Exact (.obj a.entries) := fun a ha =>
    (Json.exact_obj_iff _).mpr ⟨a.distinct, (values_iff_of_attr ha).mp h⟩
  rw [fields, List.forall_mem_append, List.forall_mem_append, List.forall_mem_append]
  exact ⟨⟨⟨exact_optionalField fun id _ => Json.exact_str id,
    List.forall_mem_singleton.mpr (Json.exact_str l.tag)⟩, exact_optionalField hattr⟩,
    exact_optionalField fun text _ => Json.exact_str text⟩

/-- A label repeats no field. -/
theorem nodup_names_fields (l : Label) (more : List String) (hmore : more.Nodup)
    (hnew : ∀ name ∈ more, name ∉ ["id", "tag", "attr", "text"]) :
    (Members.names l.fields ++ more).Nodup := by
  have hsub : (Members.names l.fields).Sublist ["id", "tag", "attr", "text"] := by
    obtain ⟨_ | id, tag, _ | attr, _ | text⟩ := l <;> simp [fields, optionalField, Members.names]
  rw [List.nodup_append]
  refine ⟨hsub.nodup (by decide), hmore, ?_⟩
  rintro name hname _ hmem rfl
  exact hnew name hmem (hsub.subset hname)

end Label

/-- A node is exact where its attribute values and the nodes below it are. -/
theorem Node.exact_toJson {n : Node} (hl : n.label.Values Json.Exact)
    (below : ∀ v ∈ Forest.toItems n.children, v.Exact) : n.toJson.Exact := by
  obtain ⟨l, list⟩ := n
  have hfields := Label.exact_fields hl
  cases list with
  | none =>
      rw [Node.toJson, Json.exact_obj_iff]
      have hnodup := Label.nodup_names_fields l [] List.nodup_nil (by simp)
      rw [List.append_nil] at hnodup
      exact ⟨hnodup, hfields⟩
  | some cs =>
      have hlist : Json.Exact (.arr (Forest.toItems cs)) := (Json.exact_arr_iff _).mpr below
      have hnodup := Label.nodup_names_fields l ["children"] (by decide) (by decide)
      rw [Node.toJson, Json.exact_obj_iff, Members.names, List.map_append]
      refine ⟨hnodup, List.forall_mem_append.mpr ⟨hfields, ?_⟩⟩
      exact List.forall_mem_singleton.mpr hlist

namespace Forest

theorem exact_toItems (ns : Forest) : ns.Values Json.Exact → ∀ v ∈ toItems ns, v.Exact := by
  induction ns using Forest.induct with
  | nil =>
      intro _
      rw [toItems]
      exact List.forall_mem_nil _
  | cons n ns below rest =>
      intro h
      rw [values_cons] at h
      rw [toItems]
      exact List.forall_mem_cons.mpr ⟨Node.exact_toJson h.1 (below h.2.1), rest h.2.2⟩

/-- **The value of a page is exact** where its attribute values are. -/
theorem exact_toJson {ns : Forest} (h : ns.Values Json.Exact) : ns.toJson.Exact :=
  (Json.exact_arr_iff _).mpr (exact_toItems ns h)

/-! ## 2. Saved and loaded -/

/-- **A page loads as it was saved exactly as long as it is not too deep.** No number among the
    attribute values is a double; names within them are distinct, as in every object that was read.
    If the value of the page nests at most 127 arrays and objects, what was saved loads as this
    page, in the order of its attributes; if it nests more, the text is refused. -/
theorem load_save {ns : Forest} (h : ns.Values Json.Exact) :
    (ns.toJson.depth ≤ 127 → load ns.save = .ok ns) ∧
      (127 < ns.toJson.depth → load ns.save = .error (.text .malformed)) := by
  have hexact := exact_toJson h
  constructor
  · intro hdepth
    rw [load, save, Json.read_pretty hexact hdepth]
    exact ofJson_toJson ns
  · intro hdeep
    rw [load, save, Json.read_pretty_of_deep hexact hdeep]

/-- A page within so many `div`s, one in the other. Each of them is two levels of its value. -/
def within (ns : Forest) : Nat → Forest
  | 0 => ns
  | k + 1 => [⟨.ofTag "div", some (ns.within k)⟩]

theorem depth_within (ns : Forest) (k : Nat) :
    (ns.within k).toJson.depth = ns.toJson.depth + 2 * k := by
  induction k with
  | zero => rfl
  | succ k ih =>
      have hstep : (ns.within (k + 1)).toJson.depth = (ns.within k).toJson.depth + 2 := by
        have hvalue : (ns.within (k + 1)).toJson =
            .arr [.obj [("tag", .str "div"), ("children", (ns.within k).toJson)]] := by
          rw [within, toJson, toItems, toItems, Node.toJson]
          rfl
        rw [hvalue]
        simp [Json.depth, Json.depthItems, Json.depthMembers]
      omega

theorem values_within {P : Json → Prop} {ns : Forest} (h : ns.Values P) (k : Nat) :
    (ns.within k).Values P := by
  induction k with
  | zero => exact h
  | succ k ih =>
      exact (values_cons _ _).mpr
        ⟨Label.values_of_attr_eq_none rfl, ih, List.forall_mem_nil _⟩

theorem distinct_keepsake : ["zeta", "alpha", "data"].Nodup := by decide

/-- A node with all fields, some of them empty, and a value of choice among its attributes. -/
def keepsake (v : Json) : Forest :=
  [⟨⟨some "", "div", some ⟨[("zeta", .num (.whole ⟨-7, by decide, by decide⟩)),
    ("alpha", .str "\"tab\t\u0001 \\ é"), ("data", v)], distinct_keepsake⟩, some ""⟩, some []⟩]

theorem values_keepsake {v : Json} (h : v.Exact) : (keepsake v).Values Json.Exact := by
  refine (values_cons _ _).mpr ⟨?_, List.forall_mem_nil _, List.forall_mem_nil _⟩
  refine (Label.values_iff_of_attr rfl).mpr ?_
  simp only [List.forall_mem_cons]
  exact ⟨⟨trivial, trivial⟩, Json.exact_str _, h, List.forall_mem_nil _⟩

/-- Within 62 `div`s the node loads, where the value is `null`; an empty object is one too many. -/
theorem load_save_keepsake :
    load ((keepsake .null).within 62).save = .ok ((keepsake .null).within 62) ∧
      load ((keepsake (.obj [])).within 62).save = .error (.text .malformed) := by
  have hdepth : ((keepsake .null).within 62).toJson.depth = 127 := by
    rw [depth_within]
    decide
  have hdeep : ((keepsake (.obj [])).within 62).toJson.depth = 128 := by
    rw [depth_within]
    decide
  have hatom : Json.Exact .null := ⟨trivial, trivial⟩
  have hempty : Json.Exact (.obj []) :=
    (Json.exact_obj_iff []).mpr ⟨List.nodup_nil, List.forall_mem_nil _⟩
  exact ⟨(load_save (values_within (values_keepsake hatom) 62)).1 (by omega),
    (load_save (values_within (values_keepsake hempty) 62)).2 (by omega)⟩

end Forest

end Pagewright
