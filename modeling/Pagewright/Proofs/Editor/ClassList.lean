import Mathlib.Data.List.Find
import Pagewright.Proofs.Text.Words

/-!
# Class lists

What writing a text style does to the words of a class list, and what is read afterwards.

* `TextStyle.words_update` -- the words of a list that was written: for each class of the property,
  in menu order, the first word in which the class stands is rid of it; then the class of the value
  comes last;
* `others_stay_iff` -- **when the other classes stay**: exactly where, for each class of the
  property, the first word in which it stands is the class itself. The list is set with single
  blanks in any case;
* `value_read_back_iff` -- **when the value is read back**: exactly where no class of a value before
  it in the menu is left in the list. It is so where each class of the property stands in one word
  at most, and this word is the class.

Not every list is of this kind. A class within a longer word damages the word
(`info_box_damaged`), and of a class that stands twice in the list one stays
(`doubled_class_read`).
-/

namespace Pagewright

namespace TextStyle

open Text

/-! ## 1. The classes of a property -/

/-- The classes of a property, in menu order. -/
def classes (p : TextStyle) : List (List Char) := p.values.map fun v => v.2.toList

/-- The words that are no classes of the property. -/
def others (p : TextStyle) (ws : List (List Char)) : List (List Char) :=
  ws.filter fun w => !p.classes.contains w

theorem of_mem_classes {p : TextStyle} {k : List Char} (h : k ∈ p.classes) :
    k ≠ [] ∧ Unbroken k := by
  have hall : (p.classes.all fun k => !k.isEmpty && k.all fun c => !isBlank c) = true := by
    cases p <;> decide
  have hk := List.all_eq_true.mp hall k h
  rw [Bool.and_eq_true, List.all_eq_true] at hk
  exact ⟨by simpa using hk.1, fun c hc => by simpa using hk.2 c hc⟩

/-- No class of a property stands in another one. -/
theorem eq_of_occursIn {p : TextStyle} {k k' : List Char} (h : k ∈ p.classes)
    (h' : k' ∈ p.classes) (hwithin : occursIn k k' = true) : k = k' := by
  have hall : ∀ k ∈ p.classes, ∀ k' ∈ p.classes, occursIn k k' = true → k = k' := by
    cases p <;> decide
  exact hall k h k' h' hwithin

theorem occursIn_self (k : List Char) : occursIn k k = true :=
  (occursIn_iff k k).mpr (List.infix_refl k)

theorem nodup_classes (p : TextStyle) : p.classes.Nodup := by
  cases p <;> decide

theorem classFor_eq_some_iff {p : TextStyle} {value c : String} :
    p.classFor value = some c ↔ (value, c) ∈ p.values := by
  have hnames : (Members.names p.values).Nodup := by
    cases p <;> decide
  exact Members.find_eq_some_iff hnames value c

theorem mem_classes_of_classFor {p : TextStyle} {value c : String}
    (h : p.classFor value = some c) : c.toList ∈ p.classes :=
  List.mem_map_of_mem (f := fun v : String × String => v.2.toList) (classFor_eq_some_iff.mp h)

/-! ## 2. The words of a list that was written -/

theorem words_foldl_withoutFirst {ks : List (List Char)} (h : ∀ k ∈ ks, k ≠ [] ∧ Unbroken k)
    (cs : List Char) :
    words (ks.foldl (fun cs k => withoutFirst k cs) cs) =
      ks.foldl (fun ws k => strike k ws) (words cs) := by
  induction ks generalizing cs with
  | nil => rfl
  | cons k ks ih =>
      obtain ⟨hne, hk⟩ := h k List.mem_cons_self
      have hrest := ih (fun k' hk' => h k' (List.mem_cons_of_mem k hk')) (withoutFirst k cs)
      rw [List.foldl_cons, List.foldl_cons, hrest, words_withoutFirst hk hne]

/-- Each class of the property is taken out of the first word in which it stands. -/
theorem words_cleared (p : TextStyle) (cs : List Char) :
    words (p.cleared cs) = p.classes.foldl (fun ws k => strike k ws) (words cs) := by
  have hcleared : p.cleared cs = p.classes.foldl (fun cs k => withoutFirst k cs) cs := by
    unfold cleared classes
    rw [List.foldl_map]
  rw [hcleared, words_foldl_withoutFirst fun k hk => of_mem_classes hk]

/-- **A list that was written is its words, with single blanks.** -/
theorem toList_update (p : TextStyle) (classes value : String) :
    (p.update classes value).toList =
      [' '].intercalate (words (p.update classes value).toList) := by
  unfold update
  rw [String.toList_ofList, trimBlanks_singleBlanks,
    words_intercalate fun w hw => of_mem_words hw]

/-- **The words of a list that was written**: those that clearing leaves, and the class of the
    value. -/
theorem words_update (p : TextStyle) (classes value : String) :
    words (p.update classes value).toList =
      words (p.cleared classes.toList) ++ ((p.classFor value).map String.toList).toList := by
  unfold update
  rw [String.toList_ofList, trimBlanks_singleBlanks,
    words_intercalate fun w hw => of_mem_words hw]
  cases hvalue : p.classFor value with
  | none => rw [Option.map_none, Option.toList_none, List.append_nil]
  | some c =>
      obtain ⟨hne, hc⟩ := of_mem_classes (mem_classes_of_classFor hvalue)
      rw [words_append_cons _ isBlank_space, words_of_unbroken hc hne]
      rfl

/-! ## 3. The other classes -/

section Others

variable {p : TextStyle} {k : List Char} {ws : List (List Char)}

theorem others_append (p : TextStyle) (vs ws : List (List Char)) :
    p.others (vs ++ ws) = p.others vs ++ p.others ws := List.filter_append ..

theorem others_cons_of_mem (h : k ∈ p.classes) : p.others (k :: ws) = p.others ws := by
  unfold others
  rw [List.filter_cons_of_neg (by simp [h])]

theorem others_cons_of_notMem {w : List Char} (h : w ∉ p.classes) :
    p.others (w :: ws) = w :: p.others ws := by
  unfold others
  rw [List.filter_cons_of_pos (by simp [h])]

theorem others_update (p : TextStyle) (classes value : String) :
    p.others (words (p.update classes value).toList) =
      p.others (words (p.cleared classes.toList)) := by
  rw [words_update, others_append]
  cases hvalue : p.classFor value with
  | none => exact List.append_nil _
  | some c =>
      have hnone : p.others [c.toList] = [] := others_cons_of_mem (mem_classes_of_classFor hvalue)
      rw [Option.map_some, Option.toList_some, hnone, List.append_nil]

/-- How many characters the other words have together. -/
def bulk (p : TextStyle) (ws : List (List Char)) : Nat := (p.others ws).flatten.length

theorem bulk_append (p : TextStyle) (vs ws : List (List Char)) :
    p.bulk (vs ++ ws) = p.bulk vs + p.bulk ws := by
  unfold bulk
  rw [others_append, List.flatten_append, List.length_append]

theorem bulk_le (p : TextStyle) (ws : List (List Char)) : p.bulk ws ≤ ws.flatten.length := by
  induction ws with
  | nil => exact Nat.le_refl 0
  | cons w ws ih =>
      unfold bulk at ih ⊢
      rw [List.flatten_cons, List.length_append]
      by_cases hw : w ∈ p.classes
      · rw [others_cons_of_mem hw]
        omega
      · rw [others_cons_of_notMem hw, List.flatten_cons, List.length_append]
        omega

theorem length_flatten_words_le (cs : List Char) : (words cs).flatten.length ≤ cs.length := by
  rw [flatten_words]
  exact List.length_filter_le ..

/-- A class that is taken out as a word leaves the other words, and what is found for the other
    classes. -/
theorem others_strike_of_word (hk : k ∈ p.classes)
    (h : ∀ w, ws.find? (occursIn k) = some w → w = k) :
    p.others (strike k ws) = p.others ws ∧
      ∀ k' ∈ p.classes, k' ≠ k → (strike k ws).find? (occursIn k') = ws.find? (occursIn k') := by
  cases hfind : ws.find? (occursIn k) with
  | none => rw [strike_of_find_eq_none hfind]; exact ⟨rfl, fun _ _ _ => rfl⟩
  | some w =>
      have hw : w = k := h w hfind
      rw [hw] at hfind
      obtain ⟨before, after, hws, _, hstrike⟩ := strike_of_find hfind
      rw [withoutFirst_self, words_nil, List.nil_append] at hstrike
      refine ⟨?_, fun k' hk' hne => ?_⟩
      · rw [hstrike, hws, others_append, others_append, others_cons_of_mem hk]
      · have hnot : occursIn k' k = false :=
          Bool.eq_false_iff.mpr fun hwithin => hne (eq_of_occursIn hk' hk hwithin)
        rw [hstrike, hws, List.find?_append, List.find?_append, List.find?_cons, hnot]

/-- A class that is taken out of a longer word leaves fewer characters of other words. -/
theorem bulk_strike_lt (hk : k ∈ p.classes) {w : List Char}
    (h : ws.find? (occursIn k) = some w) (hne : w ≠ k) : p.bulk (strike k ws) < p.bulk ws := by
  obtain ⟨before, after, hws, _, hstrike⟩ := strike_of_find h
  have hwithin : occursIn k w = true := List.find?_some h
  have hother : w ∉ p.classes := fun hw => hne (eq_of_occursIn hk hw hwithin).symm
  have hlength := length_withoutFirst ((occursIn_iff k w).mp hwithin)
  have hpositive : 0 < k.length := List.length_pos_iff.mpr (of_mem_classes hk).1
  have hrest : p.bulk (words (withoutFirst k w)) ≤ (withoutFirst k w).length :=
    (p.bulk_le _).trans (length_flatten_words_le _)
  have hword : p.bulk (w :: after) = w.length + p.bulk after := by
    unfold bulk
    rw [others_cons_of_notMem hother, List.flatten_cons, List.length_append]
  rw [hstrike, hws, bulk_append, bulk_append, bulk_append, hword]
  omega

theorem bulk_strike_le (hk : k ∈ p.classes) (ws : List (List Char)) :
    p.bulk (strike k ws) ≤ p.bulk ws := by
  by_cases h : ∀ w, ws.find? (occursIn k) = some w → w = k
  · have hsame := (others_strike_of_word hk h).1
    unfold bulk
    rw [hsame]
  · simp only [Classical.not_forall] at h
    obtain ⟨w, hfind, hne⟩ := h
    exact (bulk_strike_lt hk hfind hne).le

theorem bulk_foldl_strike_le {ks : List (List Char)} (h : ∀ k ∈ ks, k ∈ p.classes)
    (ws : List (List Char)) : p.bulk (ks.foldl (fun ws k => strike k ws) ws) ≤ p.bulk ws := by
  induction ks generalizing ws with
  | nil => exact Nat.le_refl _
  | cons k ks ih =>
      have hfirst := bulk_strike_le (h k List.mem_cons_self) ws
      have hrest := ih (fun k' hk' => h k' (List.mem_cons_of_mem k hk')) (strike k ws)
      exact hrest.trans hfirst

/-- **The other words stay exactly where each class is taken out as a word.** -/
theorem others_foldl_strike_iff {ks : List (List Char)} (h : ∀ k ∈ ks, k ∈ p.classes)
    (hdistinct : ks.Nodup) (ws : List (List Char)) :
    p.others (ks.foldl (fun ws k => strike k ws) ws) = p.others ws ↔
      ∀ k ∈ ks, ∀ w, ws.find? (occursIn k) = some w → w = k := by
  induction ks generalizing ws with
  | nil => exact iff_of_true rfl fun _ hk => by cases hk
  | cons k ks ih =>
      have hk := h k List.mem_cons_self
      have hks : ∀ k' ∈ ks, k' ∈ p.classes := fun k' hk' => h k' (List.mem_cons_of_mem k hk')
      obtain ⟨hnew, hdistinct⟩ := List.nodup_cons.mp hdistinct
      rw [List.foldl_cons, List.forall_mem_cons]
      by_cases hword : ∀ w, ws.find? (occursIn k) = some w → w = k
      · obtain ⟨hsame, hfind⟩ := others_strike_of_word hk hword
        rw [and_iff_right hword, ← hsame, ih hks hdistinct]
        refine forall₂_congr fun k' hk' => ?_
        rw [hfind k' (hks k' hk') fun e => hnew (e ▸ hk')]
      · refine iff_of_false (fun hsame => ?_) fun hall => hword hall.1
        simp only [Classical.not_forall] at hword
        obtain ⟨w, hfind, hne⟩ := hword
        -- a longer word has lost characters, and no later step brings them back
        have hlost := bulk_strike_lt hk hfind hne
        have hlater := bulk_foldl_strike_le hks (strike k ws)
        unfold bulk at hlost hlater
        rw [hsame] at hlater
        omega

end Others

/-- **Writing a style leaves the other classes alone exactly where each class of the property that
    stands in the list stands first as a word of its own.** For every property, class list and
    value: the list that was written is its words with single blanks between them and none around
    them; and its words that are no classes of the property are those of the list before, in their
    order and number, if and only if, for each class of the property, the first word in which it
    stands is the class itself. -/
theorem others_stay_iff (p : TextStyle) (classes value : String) :
    (p.update classes value).toList = [' '].intercalate (words (p.update classes value).toList) ∧
    (p.others (words (p.update classes value).toList) = p.others (words classes.toList) ↔
      ∀ v ∈ p.values, ∀ w, (words classes.toList).find? (occursIn v.2.toList) = some w →
        w = v.2.toList) := by
  refine ⟨p.toList_update classes value, ?_⟩
  rw [others_update, words_cleared, others_foldl_strike_iff (fun _ hk => hk) p.nodup_classes]
  exact List.forall_mem_map

/-- A longer class that begins with a colour's class is damaged when the colour is written. -/
theorem info_box_damaged :
    let list := "panel text-info-box"
    TextStyle.update .color list "primary" = "panel -box text-primary" ∧
      TextStyle.others .color (words (TextStyle.update .color list "primary").toList) =
        ["panel".toList, "-box".toList] ∧
      TextStyle.others .color (words list.toList) = ["panel".toList, "text-info-box".toList] := by
  decide

/-! ## 4. Reading -/

section Reading

variable {p : TextStyle}

/-- A class stands in a list that was written where clearing has left it, or where it is the class
    of the value. -/
theorem occursIn_update_iff {k : List Char} (hk : k ∈ p.classes) (classes value : String) :
    occursIn k (p.update classes value).toList = true ↔
      (∃ c, p.classFor value = some c ∧ k = c.toList) ∨
        occursIn k (p.cleared classes.toList) = true := by
  obtain ⟨hne, hunbroken⟩ := of_mem_classes hk
  rw [occursIn_iff, infix_iff_of_unbroken hunbroken hne, words_update, occursIn_iff,
    infix_iff_of_unbroken hunbroken hne]
  cases hvalue : p.classFor value with
  | none => simp
  | some c =>
      have hc : k <:+: c.toList ↔ k = c.toList := by
        constructor
        · intro hwithin
          exact eq_of_occursIn hk (mem_classes_of_classFor hvalue) ((occursIn_iff k _).mpr hwithin)
        · intro e
          exact e ▸ List.infix_refl k
      simp only [Option.map_some, Option.toList_some, List.mem_append, List.mem_singleton,
        or_and_right, exists_or, exists_eq_left, hc, Option.some.injEq, exists_eq_left']
      exact or_comm

/-- A value of the property has its class, and no other value has this class. -/
theorem class_eq_iff {v : String × String} (hv : v ∈ p.values) (value : String) :
    (∃ c, p.classFor value = some c ∧ v.2.toList = c.toList) ↔ v.1 = value := by
  have hdistinct : ∀ v ∈ p.values, ∀ w ∈ p.values, v.2 = w.2 → v.1 = w.1 := by
    cases p <;> decide
  constructor
  · intro h
    obtain ⟨c, hc, he⟩ := h
    exact hdistinct v hv (value, c) (classFor_eq_some_iff.mp hc) (String.toList_inj.mp he)
  · intro h
    exact ⟨v.2, classFor_eq_some_iff.mpr (h ▸ hv), rfl⟩

/-- **What is read from a list that was written**: the first value in the menu that was written, or
    whose class clearing has left in the list. -/
theorem initialValue_of_update {l : Label} {classes value : String}
    (h : l.textOf "class" = some (p.update classes value)) :
    p.initialValue l = (p.values.find? fun v =>
      v.1 = value || occursIn v.2.toList (p.cleared classes.toList)).map (·.1) := by
  have hempty : p.valueIn "" = none := by
    cases p <;> decide
  have hread : p.initialValue l = p.valueIn (p.update classes value) := by
    unfold initialValue
    rw [h]
    by_cases hnothing : p.update classes value = ""
    · simp [hnothing, hempty]
    · simp [hnothing]
  have hsearch : (p.values.find? fun v => occursIn v.2.toList (p.update classes value).toList) =
      p.values.find? fun v => v.1 = value || occursIn v.2.toList (p.cleared classes.toList) := by
    refine List.find?_congr fun v hv => ?_
    have hk : v.2.toList ∈ p.classes := List.mem_map_of_mem hv
    rw [Bool.eq_iff_iff, occursIn_update_iff hk, class_eq_iff hv, Bool.or_eq_true,
      decide_eq_true_eq]
  rw [hread, valueIn, hsearch]

/-- A search for an entry of this name, or one with a property, gives the name exactly where no
    entry before it has the property. -/
theorem find?_name_iff (ms : List (String × String)) (name : String)
    (f : String × String → Bool) :
    (ms.find? fun v => v.1 = name || f v).map (·.1) =
        (if name ∈ ms.map (·.1) then some name else none) ↔
      ∀ v ∈ ms.takeWhile (fun v => v.1 ≠ name), f v = false := by
  induction ms with
  | nil => simp
  | cons v ms ih =>
      by_cases hname : v.1 = name
      · simp [hname]
      · have hshort : (v :: ms).takeWhile (fun v => v.1 ≠ name) =
            v :: ms.takeWhile fun v => v.1 ≠ name :=
          List.takeWhile_cons_of_pos (decide_eq_true hname)
        rw [hshort, List.forall_mem_cons, ← ih, List.find?_cons]
        cases hf : f v with
        | true =>
            -- another name is found
            refine iff_of_false (fun h => ?_) fun h => absurd h.1 (by decide)
            simp only [hname, decide_false, Bool.or_true, Option.map_some] at h
            split at h
            · exact hname (Option.some.inj h)
            · cases h
        | false =>
            have hmem : name ∈ (v :: ms).map (·.1) ↔ name ∈ ms.map (·.1) := by
              rw [List.map_cons, List.mem_cons, or_iff_right (Ne.symm hname)]
            rw [if_congr hmem rfl rfl, decide_eq_false hname, and_iff_right rfl]
            rfl

/-! ## 5. Lists in order -/

/-- Where a class stands in one word at most, and this is the class, the word is taken out. -/
theorem strike_eq_erase {k : List Char} {ws : List (List Char)}
    (h : (ws.filter (occursIn k)).Sublist [k]) : strike k ws = ws.erase k := by
  induction ws with
  | nil => rfl
  | cons w ws ih =>
      rw [strike]
      cases hw : occursIn k w with
      | true =>
          rw [List.filter_cons_of_pos hw] at h
          have hword : w = k := by
            rcases List.sublist_singleton.mp h with hnil | hone
            · cases hnil
            · exact (List.cons.inj hone).1
          rw [if_pos rfl, hword, withoutFirst_self, words_nil, List.nil_append,
            List.erase_cons_head]
      | false =>
          rw [List.filter_cons_of_neg (by rw [hw]; exact Bool.false_ne_true)] at h
          have hne : w ≠ k := by
            intro e
            rw [e, occursIn_self] at hw
            cases hw
          rw [if_neg Bool.false_ne_true, ih h, List.erase_cons_tail (by simpa using hne)]

/-- Where each class stands in one word at most, and this is the class, none is left. -/
theorem not_occursIn_foldl_strike {ks : List (List Char)} {ws : List (List Char)}
    (h : ∀ k ∈ ks, (ws.filter (occursIn k)).Sublist [k]) :
    (ks.foldl (fun ws k => strike k ws) ws).Sublist ws ∧
      ∀ k ∈ ks, ∀ w ∈ ks.foldl (fun ws k => strike k ws) ws, occursIn k w = false := by
  induction ks generalizing ws with
  | nil => exact ⟨List.Sublist.refl ws, fun _ hk => by cases hk⟩
  | cons k ks ih =>
      have hk := h k List.mem_cons_self
      have hless : (ws.erase k).Sublist ws := List.erase_sublist
      have hks : ∀ k' ∈ ks, ((ws.erase k).filter (occursIn k')).Sublist [k'] := fun k' hk' =>
        (hless.filter _).trans (h k' (List.mem_cons_of_mem k hk'))
      obtain ⟨hsublist, hnone⟩ := ih hks
      rw [List.foldl_cons, strike_eq_erase hk]
      refine ⟨hsublist.trans hless, fun k' hk' w hw => ?_⟩
      rcases List.mem_cons.mp hk' with rfl | hk'
      · -- its one word is gone, and no later step brings a word
        have hgone : (ws.erase k').filter (occursIn k') = [] := by
          rw [← List.erase_filter]
          rcases List.sublist_singleton.mp hk with hnil | hone
          · rw [hnil]
            rfl
          · rw [hone, List.erase_cons_head]
        exact Bool.eq_false_iff.mpr (List.filter_eq_nil_iff.mp hgone w (hsublist.subset hw))
      · exact hnone k' hk' w hw

/-- **A value is read back exactly where clearing leaves no class of a value before it.** For every
    property, class list and value, and every tag with the list that was written: what is read is
    the value where the property has it, and nothing where it has not, if and only if no class of a
    value before it in the menu, or of any value where the property has it not, is left in the list
    after one occurrence of each class has been taken out. In particular, it is so where each class
    of the property stands in one word of the list at most, and this word is the class itself. -/
theorem value_read_back_iff (p : TextStyle) (classes value : String) (l : Label)
    (h : l.textOf "class" = some (p.update classes value)) :
    (p.initialValue l = (if value ∈ p.values.map (·.1) then some value else none) ↔
      ∀ v ∈ p.values.takeWhile (fun v => v.1 ≠ value),
        occursIn v.2.toList (p.cleared classes.toList) = false) ∧
    ((∀ v ∈ p.values, ((words classes.toList).filter (occursIn v.2.toList)).Sublist
        [v.2.toList]) →
      p.initialValue l = if value ∈ p.values.map (·.1) then some value else none) := by
  have hiff : (p.initialValue l = if value ∈ p.values.map (·.1) then some value else none) ↔ _ :=
    initialValue_of_update h ▸
      find?_name_iff p.values value fun v => occursIn v.2.toList (p.cleared classes.toList)
  refine ⟨hiff, fun htidy => hiff.mpr fun v hv => ?_⟩
  have hmem : v ∈ p.values := (List.takeWhile_sublist _).subset hv
  have hk : v.2.toList ∈ p.classes := List.mem_map_of_mem hmem
  have hclasses : ∀ k ∈ p.classes, ((words classes.toList).filter (occursIn k)).Sublist [k] :=
    List.forall_mem_map.mpr htidy
  obtain ⟨hne, hunbroken⟩ := of_mem_classes hk
  have hnone := (not_occursIn_foldl_strike hclasses).2 _ hk
  refine Bool.eq_false_iff.mpr fun hleft => ?_
  rw [occursIn_iff, infix_iff_of_unbroken hunbroken hne, words_cleared] at hleft
  obtain ⟨w, hw, hwithin⟩ := hleft
  rw [← occursIn_iff, hnone w hw] at hwithin
  cases hwithin

/-- A list in order: the other value's class goes, and the new value is read. -/
theorem value_read_back_panel :
    let l := (Label.ofTag "div").putAttribute "class"
      (.str (TextStyle.update .align "panel  text-left bold" "center"))
    l.textOf "class" = some (TextStyle.update .align "panel  text-left bold" "center") ∧
      (∀ v ∈ TextStyle.values .align,
        ((words "panel  text-left bold".toList).filter (occursIn v.2.toList)).Sublist
          [v.2.toList]) ∧
      TextStyle.initialValue .align l = some "center" := by
  have hclass : ((Label.ofTag "div").putAttribute "class"
      (.str (TextStyle.update .align "panel  text-left bold" "center"))).textOf "class" =
        some (TextStyle.update .align "panel  text-left bold" "center") := by
    decide
  have htidy : ∀ v ∈ TextStyle.values .align,
      ((words "panel  text-left bold".toList).filter (occursIn v.2.toList)).Sublist
        [v.2.toList] := by
    decide
  exact ⟨hclass, htidy, (value_read_back_iff .align _ "center" _ hclass).2 htidy⟩

/-- A class that stands twice in the list is taken out once, and read in place of the new value; and
    it is read where the property should have been cleared. -/
theorem doubled_class_read :
    let tag (value : String) := (Label.ofTag "p").putAttribute "class"
      (.str (TextStyle.update .align "text-left text-left" value))
    TextStyle.update .align "text-left text-left" "center" = "text-left text-center" ∧
      TextStyle.initialValue .align (tag "center") = some "left" ∧
      TextStyle.initialValue .align (tag "") = some "left" ∧
      "center" ∈ (TextStyle.values .align).map (·.1) ∧
      "" ∉ (TextStyle.values .align).map (·.1) := by
  decide

end Reading

end TextStyle

end Pagewright
