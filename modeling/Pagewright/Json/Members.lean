/-!
# Ordered members

The members of an object are pairs of a name and a value, kept in the order in which they were
written. This file fixes what reading and changing them means:

* a name reads as its first pair (`find`);
* a name that is written again keeps its place, a new name goes last (`put`);
* a name that is taken out leaves its place to the last pair (`erase`), so that no more than one
  pair moves;
* a list that may repeat names settles to one without repetitions by writing its pairs in turn
  (`ofPairs`): the first place and the last value win.

The laws at the end say what each change does to the reading of every name, that names stay pairwise
distinct, and which changes can be taken back.
-/

namespace Pagewright

namespace Members

variable {α : Type}

/-! ## 1. Reading and changing -/

/-- The names, in order. -/
def names (ms : List (String × α)) : List String := ms.map (·.1)

/-- The value of the first pair with this name. -/
def find (name : String) : List (String × α) → Option α
  | [] => none
  | (k, v) :: rest => if k = name then some v else find name rest

/-- Writes a value under a name: in place where the name is there, at the end where it is new. -/
def put (name : String) (value : α) : List (String × α) → List (String × α)
  | [] => [(name, value)]
  | (k, v) :: rest => if k = name then (k, value) :: rest else (k, v) :: put name value rest

/-- A list whose last pair has come to the front; nothing, where there is no last pair. -/
def lastToFront (ms : List (String × α)) : List (String × α) :=
  match ms.getLast? with
  | none => []
  | some last => last :: ms.dropLast

/-- Takes a name out; the last pair moves into the place that comes free. -/
def erase (name : String) : List (String × α) → List (String × α)
  | [] => []
  | (k, v) :: rest => if k = name then lastToFront rest else (k, v) :: erase name rest

/-- Writes the pairs in turn, from the given start. -/
def putAll (start : List (String × α)) : List (String × α) → List (String × α)
  | [] => start
  | (k, v) :: rest => putAll (put k v start) rest

/-- The pairs with each name once: at its first place, with its last value. -/
def ofPairs (ms : List (String × α)) : List (String × α) := putAll [] ms

/-! ## 2. Names -/

@[simp] theorem names_nil : names ([] : List (String × α)) = [] := rfl

@[simp] theorem names_cons (k : String) (v : α) (rest : List (String × α)) :
    names ((k, v) :: rest) = k :: names rest := rfl

/-- A name reads as nothing exactly when it is not among the names. -/
theorem find_eq_none_iff (name : String) :
    ∀ ms : List (String × α), find name ms = none ↔ name ∉ names ms
  | [] => by simp [find]
  | (k, v) :: rest => by
      by_cases h : k = name
      · simp [find, h]
      · have h' : ¬ name = k := fun e => h e.symm
        simp [find, h, h', find_eq_none_iff name rest]

/-- Writing adds at most the written name. -/
theorem mem_names_put (name : String) (value : α) (x : String) :
    ∀ ms : List (String × α), x ∈ names (put name value ms) ↔ x = name ∨ x ∈ names ms
  | [] => by simp [put]
  | (k, v) :: rest => by
      by_cases h : k = name
      · subst h
        simp [put]
      · simp only [put, h, if_false, names_cons, List.mem_cons, mem_names_put name value x rest]
        constructor
        · rintro (h1 | h1 | h1)
          · exact Or.inr (Or.inl h1)
          · exact Or.inl h1
          · exact Or.inr (Or.inr h1)
        · rintro (h1 | h1 | h1)
          · exact Or.inr (Or.inl h1)
          · exact Or.inl h1
          · exact Or.inr (Or.inr h1)

/-- **Writing keeps names distinct.** -/
theorem nodup_names_put (name : String) (value : α) :
    ∀ ms : List (String × α), (names ms).Nodup → (names (put name value ms)).Nodup
  | [], _ => by simp [put]
  | (k, v) :: rest, hd => by
      rw [names_cons, List.nodup_cons] at hd
      by_cases h : k = name
      · simp [put, h, List.nodup_cons]
        subst h
        exact hd
      · simp only [put, h, if_false, names_cons, List.nodup_cons]
        refine ⟨?_, nodup_names_put name value rest hd.2⟩
        rw [mem_names_put]
        rintro (h1 | h1)
        · exact h h1
        · exact hd.1 h1

theorem nodup_names_putAll :
    ∀ (ms start : List (String × α)), (names start).Nodup → (names (putAll start ms)).Nodup
  | [], _, hd => hd
  | (k, v) :: rest, start, hd =>
      nodup_names_putAll rest (put k v start) (nodup_names_put k v start hd)

/-- **A settled list repeats no name.** -/
theorem nodup_names_ofPairs (ms : List (String × α)) : (names (ofPairs ms)).Nodup :=
  nodup_names_putAll ms [] List.nodup_nil

/-- Moving the last pair to the front only reorders. -/
theorem lastToFront_perm (ms : List (String × α)) : (lastToFront ms).Perm ms := by
  unfold lastToFront
  split
  · rename_i h
    rw [List.getLast?_eq_none_iff] at h
    rw [h]
  · rename_i last h
    obtain ⟨init, rfl⟩ := List.getLast?_eq_some_iff.mp h
    rw [List.dropLast_concat]
    exact (List.perm_append_singleton last init).symm

/-- Taking a name out of distinct names removes this name alone. -/
theorem names_erase_perm (name : String) :
    ∀ ms : List (String × α), (names (erase name ms)).Perm ((names ms).erase name)
  | [] => by simp [erase]
  | (k, v) :: rest => by
      by_cases h : k = name
      · subst h
        simp only [erase, if_true, names_cons, List.erase_cons_head]
        exact (lastToFront_perm rest).map _
      · have h' : (k == name) = false := by simpa using h
        simp only [erase, h, if_false, names_cons, List.erase_cons, h']
        exact (names_erase_perm name rest).cons k

/-- **Taking out keeps names distinct.** -/
theorem nodup_names_erase (name : String) (ms : List (String × α)) (hd : (names ms).Nodup) :
    (names (erase name ms)).Nodup :=
  ((names_erase_perm name ms).nodup_iff).mpr (hd.erase name)

/-! ## 3. What a change does to the reading of each name -/

@[simp] theorem find_put_self (name : String) (value : α) :
    ∀ ms : List (String × α), find name (put name value ms) = some value
  | [] => by simp [put, find]
  | (k, v) :: rest => by
      by_cases h : k = name
      · simp [put, find, h]
      · simp [put, find, h, find_put_self name value rest]

theorem find_put_of_ne {name other : String} (hne : other ≠ name) (value : α) :
    ∀ ms : List (String × α), find other (put name value ms) = find other ms
  | [] => by simp [put, find, Ne.symm hne]
  | (k, v) :: rest => by
      by_cases h : k = name
      · subst h
        simp [put, find, Ne.symm hne]
      · simp [put, find, h, find_put_of_ne hne value rest]

/-- Under distinct names, a name reads as any value that it has. -/
theorem find_eq_some_iff {ms : List (String × α)} (hd : (names ms).Nodup) (name : String)
    (value : α) : find name ms = some value ↔ (name, value) ∈ ms := by
  induction ms with
  | nil => simp [find]
  | cons e ms ih =>
      obtain ⟨k, v⟩ := e
      rw [names_cons, List.nodup_cons] at hd
      by_cases h : k = name
      · subst h
        have hk : (k, value) ∉ ms := fun hmem => hd.1 (List.mem_map_of_mem hmem)
        simp [find, hk, eq_comm]
      · have h' : ¬ name = k := fun e => h e.symm
        simp [find, h, h', ih hd.2]

/-- Under distinct names, the order of the pairs does not matter. -/
theorem find_eq_of_perm {ms ms' : List (String × α)} (h : ms.Perm ms') (hd : (names ms).Nodup)
    (name : String) : find name ms = find name ms' := by
  have hp : (names ms).Perm (names ms') := h.map _
  have hd' : (names ms').Nodup := hp.nodup_iff.mp hd
  apply Option.ext
  intro value
  rw [find_eq_some_iff hd, find_eq_some_iff hd', h.mem_iff]

theorem find_erase_self {ms : List (String × α)} (hd : (names ms).Nodup) (name : String) :
    find name (erase name ms) = none := by
  rw [find_eq_none_iff, (names_erase_perm name ms).mem_iff]
  exact hd.not_mem_erase

theorem find_erase_of_ne {ms : List (String × α)} (hd : (names ms).Nodup) {name other : String}
    (hne : other ≠ name) : find other (erase name ms) = find other ms := by
  induction ms with
  | nil => rfl
  | cons e ms ih =>
      obtain ⟨k, v⟩ := e
      rw [names_cons, List.nodup_cons] at hd
      by_cases h : k = name
      · subst h
        have hp : (names (lastToFront ms)).Perm (names ms) := (lastToFront_perm ms).map _
        have hfree : (names (lastToFront ms)).Nodup := hp.nodup_iff.mpr hd.2
        simp only [erase, find, if_true, if_neg (Ne.symm hne)]
        exact find_eq_of_perm (lastToFront_perm ms) hfree other
      · simp only [erase, find, h, if_false]
        rw [ih hd.2]

/-! ## 4. Writing back -/

/-- A new name goes last. -/
theorem put_of_not_mem {name : String} (value : α) :
    ∀ {ms : List (String × α)}, name ∉ names ms → put name value ms = ms ++ [(name, value)]
  | [], _ => rfl
  | (k, v) :: rest, h => by
      rw [names_cons, List.mem_cons, not_or] at h
      have hk : ¬ k = name := fun e => h.1 e.symm
      rw [put, if_neg hk, put_of_not_mem value h.2, List.cons_append]

/-- The value that a name has can be written again. -/
theorem put_of_find {name : String} {value : α} :
    ∀ {ms : List (String × α)}, find name ms = some value → put name value ms = ms
  | (k, v) :: rest, h => by
      rw [find] at h
      by_cases hk : k = name
      · rw [if_pos hk] at h
        rw [put, if_pos hk, Option.some.inj h]
      · rw [if_neg hk] at h
        rw [put, if_neg hk, put_of_find h]

/-- Of two values under a name the last one counts. -/
theorem put_put (name : String) (value other : α) :
    ∀ ms : List (String × α), put name value (put name other ms) = put name value ms
  | [] => by simp [put]
  | (k, v) :: rest => by
      by_cases hk : k = name
      · simp [put, hk]
      · simp [put, hk, put_put name value other rest]

/-- A name that is not there cannot be taken out. -/
theorem erase_of_not_mem {name : String} :
    ∀ {ms : List (String × α)}, name ∉ names ms → erase name ms = ms
  | [], _ => rfl
  | (k, v) :: rest, h => by
      rw [names_cons, List.mem_cons, not_or] at h
      have hk : ¬ k = name := fun e => h.1 e.symm
      rw [erase, if_neg hk, erase_of_not_mem h.2]

/-- Taking the last name out leaves the others in their places. -/
theorem erase_concat {name : String} (value : α) :
    ∀ {ms : List (String × α)}, name ∉ names ms → erase name (ms ++ [(name, value)]) = ms
  | [], _ => by simp [erase, lastToFront]
  | (k, v) :: rest, h => by
      rw [names_cons, List.mem_cons, not_or] at h
      have hk : ¬ k = name := fun e => h.1 e.symm
      rw [List.cons_append, erase, if_neg hk, erase_concat value h.2]

/-- Writing the pairs of a list with new, distinct names appends them as they are. -/
theorem putAll_eq_append :
    ∀ (ms start : List (String × α)), (names (start ++ ms)).Nodup → putAll start ms = start ++ ms
  | [], start, _ => by simp [putAll]
  | (k, v) :: rest, start, hd => by
      have hk : k ∉ names start := by
        intro hk
        rw [names, List.map_append, List.nodup_append] at hd
        exact hd.2.2 k hk k (by simp) rfl
      rw [putAll, put_of_not_mem v hk]
      have hd' : (names ((start ++ [(k, v)]) ++ rest)).Nodup := by simpa using hd
      rw [putAll_eq_append rest (start ++ [(k, v)]) hd']
      simp

/-- **A list that repeats no name is settled already.** -/
theorem ofPairs_eq_self {ms : List (String × α)} (hd : (names ms).Nodup) : ofPairs ms = ms := by
  have h := putAll_eq_append ms [] (by simpa using hd)
  simpa [ofPairs] using h

end Members

end Pagewright
