import Pagewright.Json.Value

/-!
# Attributes

The attributes of a page node: values under names, in the order in which they came, no name twice.
That no name comes twice is part of the type, so every operation below keeps it.
-/

namespace Pagewright

/-- Values under pairwise distinct names, in order. -/
structure Attributes where
  entries : List (String × Json)
  distinct : (Members.names entries).Nodup

namespace Attributes

/-- No attributes. -/
def empty : Attributes := ⟨[], List.nodup_nil⟩

instance : Inhabited Attributes := ⟨empty⟩

theorem ext {a b : Attributes} (h : a.entries = b.entries) : a = b := by
  cases a
  cases b
  cases h
  rfl

/-- The attributes that a list of pairs gives: of a repeated name the first place and the last
    value count. -/
def ofPairs (ms : List (String × Json)) : Attributes :=
  ⟨Members.ofPairs ms, Members.nodup_names_ofPairs ms⟩

/-- **The entries of attributes give the attributes back.** -/
theorem ofPairs_entries (a : Attributes) : ofPairs a.entries = a :=
  ext (Members.ofPairs_eq_self a.distinct)

/-- The names, in order. -/
def names (a : Attributes) : List String := Members.names a.entries

/-- The value under a name. -/
def find (name : String) (a : Attributes) : Option Json := Members.find name a.entries

/-- Writes a value under a name; a name that is there keeps its place, a new one goes last. -/
def put (name : String) (value : Json) (a : Attributes) : Attributes :=
  ⟨Members.put name value a.entries, Members.nodup_names_put name value a.entries a.distinct⟩

/-- Takes a name out; the last attribute moves into the free place. -/
def erase (name : String) (a : Attributes) : Attributes :=
  ⟨Members.erase name a.entries, Members.nodup_names_erase name a.entries a.distinct⟩

/-- Whether there are none. -/
def isEmpty (a : Attributes) : Bool := a.entries.isEmpty

@[simp] theorem find_put_self (name : String) (value : Json) (a : Attributes) :
    (a.put name value).find name = some value :=
  Members.find_put_self name value a.entries

theorem find_put_of_ne {name other : String} (hne : other ≠ name) (value : Json)
    (a : Attributes) : (a.put name value).find other = a.find other :=
  Members.find_put_of_ne hne value a.entries

@[simp] theorem find_empty (name : String) : empty.find name = none := rfl

@[simp] theorem find_erase_self (name : String) (a : Attributes) :
    (a.erase name).find name = none :=
  Members.find_erase_self a.distinct name

theorem find_erase_of_ne {name other : String} (hne : other ≠ name) (a : Attributes) :
    (a.erase name).find other = a.find other :=
  Members.find_erase_of_ne a.distinct hne

/-- Nothing reads in attributes that are empty. -/
theorem find_of_isEmpty {a : Attributes} (h : a.isEmpty = true) (name : String) :
    a.find name = none := by
  rw [isEmpty, List.isEmpty_iff] at h
  rw [find, h]
  rfl

end Attributes

end Pagewright
