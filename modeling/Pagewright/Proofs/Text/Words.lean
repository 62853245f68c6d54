import Mathlib.Data.List.Infix
import Pagewright.Editor.TextStyle

/-!
# Words

A class list is a text, but it is read as its words: what stands between white space. This file
says what the operations on the text do to the words.

* `Text.words` -- the words of a text, with `words_induct`: a text is a word, or a word, white space
  and a text;
* `TextStyle.trimBlanks_singleBlanks` -- a text that is set with single blanks and trimmed **is its
  words with a blank between neighbours**;
* `TextStyle.infix_iff_of_unbroken` -- a part without white space stands in a text exactly where it
  stands in one of the words;
* `TextStyle.words_withoutFirst` -- taking it out of the text takes it out of the first word that
  it stands in (`TextStyle.strike`).

A part without white space cannot lie across the white space after a word
(`Text.prefix_of_prefix_append`); both of the last two are from this.
-/

namespace Pagewright

/-! ## 1. The words of a text -/

namespace Text

/-- A text without white space. -/
def Unbroken (w : List Char) : Prop := ∀ c ∈ w, isBlank c = false

/-- The words of a text, from first to last. -/
def words (cs : List Char) : List (List Char) :=
  (cs.splitOnP isBlank).filter fun w => !w.isEmpty

/-- Induction on the words of a text; a word may be empty here. -/
theorem words_induct {P : List Char → Prop} (last : ∀ w, Unbroken w → P w)
    (blank : ∀ w b rest, Unbroken w → isBlank b = true → P rest → P (w ++ b :: rest))
    (cs : List Char) : P cs := by
  -- what was read of the first word goes before
  have hread : ∀ w, Unbroken w → P (w ++ cs) := by
    induction cs with
    | nil =>
        intro w hw
        rw [List.append_nil]
        exact last w hw
    | cons c cs ih =>
        intro w hw
        by_cases hc : isBlank c = true
        · have hrest : P ([] ++ cs) := ih [] fun _ h => by cases h
          exact blank w c cs hw hc hrest
        · have hlonger : Unbroken (w ++ [c]) := by
            intro d hd
            rcases List.mem_append.mp hd with hd | hd
            · exact hw d hd
            · rw [List.mem_singleton.mp hd]
              exact Bool.eq_false_iff.mpr hc
          have hnext := ih (w ++ [c]) hlonger
          rw [List.append_assoc] at hnext
          exact hnext
  exact hread [] fun _ h => by cases h

theorem words_nil : words [] = [] := rfl

theorem words_append_cons (x : List Char) {b : Char} (hb : isBlank b = true) (y : List Char) :
    words (x ++ b :: y) = words x ++ words y := by
  unfold words
  rw [List.splitOnP_append_cons x y hb, List.filter_append]

theorem words_of_unbroken {w : List Char} (h : Unbroken w) (hne : w ≠ []) : words w = [w] := by
  have hsplit : w.splitOnP isBlank = [w] := List.splitOnP_eq_singleton h
  unfold words
  rw [hsplit]
  simp [hne]

/-- The characters of the words are those of the text that are not white space. -/
theorem flatten_words (cs : List Char) :
    (words cs).flatten = cs.filter fun c => !isBlank c := by
  have hword : ∀ w, Unbroken w → (words w).flatten = w.filter fun c => !isBlank c := by
    intro w hw
    have hall : (w.filter fun c => !isBlank c) = w := by
      rw [List.filter_eq_self]
      intro c hc
      rw [hw c hc]
      rfl
    rw [hall]
    by_cases hne : w = []
    · rw [hne, words_nil, List.flatten_nil]
    · rw [words_of_unbroken hw hne, List.flatten_singleton]
  induction cs using words_induct with
  | last w hw => exact hword w hw
  | blank w b rest hw hb ih =>
      rw [words_append_cons w hb, List.flatten_append, List.filter_append, hword w hw, ih,
        List.filter_cons_of_neg (by rw [hb]; decide)]

/-- A word is not empty, and has no white space in it. -/
theorem of_mem_words {cs w : List Char} (h : w ∈ words cs) : w ≠ [] ∧ Unbroken w := by
  have hword : ∀ v, Unbroken v → w ∈ words v → w ≠ [] ∧ Unbroken w := by
    intro v hv hmem
    by_cases hne : v = []
    · rw [hne, words_nil] at hmem
      cases hmem
    · rw [words_of_unbroken hv hne, List.mem_singleton] at hmem
      rw [hmem]
      exact ⟨hne, hv⟩
  induction cs using words_induct with
  | last v hv => exact hword v hv h
  | blank v b rest hv hb ih =>
      rw [words_append_cons v hb, List.mem_append] at h
      rcases h with h | h
      · exact hword v hv h
      · exact ih h

theorem isBlank_space : isBlank ' ' = true := by decide

/-- Words with a blank between neighbours are the words of that text. -/
theorem words_intercalate {ws : List (List Char)} (h : ∀ w ∈ ws, w ≠ [] ∧ Unbroken w) :
    words ([' '].intercalate ws) = ws := by
  induction ws with
  | nil => rfl
  | cons w ws ih =>
      obtain ⟨hne, hw⟩ := h w List.mem_cons_self
      have hrest := ih fun v hv => h v (List.mem_cons_of_mem w hv)
      cases ws with
      | nil =>
          rw [List.intercalate_singleton]
          exact words_of_unbroken hw hne
      | cons v ws =>
          rw [List.intercalate_cons_cons, List.append_assoc, List.singleton_append,
            words_append_cons w isBlank_space, words_of_unbroken hw hne, hrest]
          rfl

theorem dropEndBlanks_append (x y : List Char) :
    dropEndBlanks (x ++ y) =
      if dropEndBlanks y = [] then dropEndBlanks x else x ++ dropEndBlanks y := by
  unfold dropEndBlanks
  rw [List.reverse_append, List.dropWhile_append]
  by_cases hy : y.reverse.dropWhile isBlank = []
  · simp [hy]
  · simp [hy]

theorem dropEndBlanks_of_unbroken {w : List Char} (h : Unbroken w) : dropEndBlanks w = w := by
  unfold dropEndBlanks
  have hstop : w.reverse.dropWhile isBlank = w.reverse := by
    cases hw : w.reverse with
    | nil => rfl
    | cons c cs =>
        have hmem : c ∈ w := List.mem_reverse.mp (hw ▸ List.mem_cons_self)
        rw [List.dropWhile_cons_of_neg]
        rw [h c hmem]
        exact Bool.false_ne_true
  rw [hstop, List.reverse_reverse]

/-- A part without white space that begins a word and what comes after its end begins the word. -/
theorem prefix_of_prefix_append {part w rest : List Char} {b : Char} (hpart : Unbroken part)
    (hb : isBlank b = true) (h : part <+: w ++ b :: rest) : part <+: w := by
  by_cases hle : part.length ≤ w.length
  · exact List.prefix_of_prefix_length_le h (List.prefix_append w _) hle
  · -- otherwise the white space is in it
    have hlonger : w ++ [b] <+: w ++ b :: rest := by simp
    have hwithin : w ++ [b] <+: part := by
      refine List.prefix_of_prefix_length_le hlonger h ?_
      rw [List.length_append, List.length_singleton]
      omega
    have hmem : b ∈ part := hwithin.subset (by simp)
    rw [hpart b hmem] at hb
    cases hb

end Text

namespace TextStyle

open Text

/-! ## 2. Single blanks -/

theorem singleBlanks_cons_blank {c : Char} (h : isBlank c = true) (cs : List Char) :
    singleBlanks false (c :: cs) = ' ' :: singleBlanks true cs ∧
      singleBlanks true (c :: cs) = singleBlanks true cs := by
  constructor
  · rw [singleBlanks, if_pos h, if_neg Bool.false_ne_true]
  · rw [singleBlanks, if_pos h, if_pos rfl]

theorem singleBlanks_cons {c : Char} (h : isBlank c = false) (within : Bool) (cs : List Char) :
    singleBlanks within (c :: cs) = c :: singleBlanks false cs := by
  rw [singleBlanks, if_neg (by rw [h]; exact Bool.false_ne_true)]

theorem singleBlanks_append {w : List Char} (h : Unbroken w) (hne : w ≠ []) (within : Bool)
    (cs : List Char) : singleBlanks within (w ++ cs) = w ++ singleBlanks false cs := by
  induction w generalizing within with
  | nil => exact absurd rfl hne
  | cons c w ih =>
      have hrest : Unbroken w := fun d hd => h d (List.mem_cons_of_mem c hd)
      rw [List.cons_append, singleBlanks_cons (h c List.mem_cons_self), List.cons_append]
      by_cases hw : w = []
      · rw [hw]
        rfl
      · rw [ih hrest hw]

/-- Within white space there is nothing to trim at the start. -/
theorem dropWhile_singleBlanks (within : Bool) (cs : List Char) :
    (singleBlanks within cs).dropWhile isBlank = singleBlanks true cs := by
  induction cs generalizing within with
  | nil => rfl
  | cons c cs ih =>
      cases hc : isBlank c with
      | false =>
          rw [singleBlanks_cons hc, singleBlanks_cons hc, List.dropWhile_cons_of_neg]
          rw [hc]
          exact Bool.false_ne_true
      | true =>
          obtain ⟨hfirst, hwithin⟩ := singleBlanks_cons_blank hc cs
          cases within with
          | false =>
              rw [hfirst, hwithin, List.dropWhile_cons_of_pos isBlank_space]
              exact ih true
          | true =>
              rw [hwithin]
              exact ih true

theorem dropEndBlanks_singleBlanks (cs : List Char) :
    dropEndBlanks (singleBlanks true cs) = [' '].intercalate (words cs) := by
  induction cs using words_induct with
  | last w hw =>
      by_cases hne : w = []
      · rw [hne]
        rfl
      · have hsingle : singleBlanks true w = w := by
          have happend := singleBlanks_append hw hne true []
          rw [List.append_nil, singleBlanks, List.append_nil] at happend
          exact happend
        rw [hsingle, dropEndBlanks_of_unbroken hw, words_of_unbroken hw hne,
          List.intercalate_singleton]
  | blank w b rest hw hb ih =>
      obtain ⟨hfirst, hwithin⟩ := singleBlanks_cons_blank hb rest
      rw [words_append_cons w hb]
      by_cases hne : w = []
      · rw [hne, List.nil_append, hwithin, ih]
        rfl
      · have hblank : dropEndBlanks [' '] = [] := by decide
        rw [singleBlanks_append hw hne, hfirst, words_of_unbroken hw hne, dropEndBlanks_append,
          ← List.singleton_append, dropEndBlanks_append, ih]
        cases hwords : words rest with
        | nil =>
            have hnil : [' '].intercalate ([] : List (List Char)) = [] := rfl
            rw [hnil, if_pos rfl, hblank, if_pos rfl, dropEndBlanks_of_unbroken hw]
            exact List.intercalate_singleton.symm
        | cons v vs =>
            have hv : v ≠ [] := (of_mem_words (hwords ▸ List.mem_cons_self)).1
            have hrest : [' '].intercalate (v :: vs) ≠ [] := by
              intro hnil
              cases vs with
              | nil => exact hv (by rw [← hnil, List.intercalate_singleton])
              | cons u us => simp [List.intercalate_cons_cons, hv] at hnil
            have hblanked : [' '] ++ [' '].intercalate (v :: vs) ≠ [] := by simp
            rw [if_neg hrest, if_neg hblanked, List.singleton_append (l := v :: vs),
              List.intercalate_cons_cons, List.append_assoc]

/-- **A text with single blanks, trimmed, is its words with a blank between neighbours.** -/
theorem trimBlanks_singleBlanks (cs : List Char) :
    trimBlanks (singleBlanks false cs) = [' '].intercalate (words cs) := by
  unfold trimBlanks
  rw [dropWhile_singleBlanks, dropEndBlanks_singleBlanks]

/-! ## 3. Parts of a text -/

theorem occursIn_iff (part cs : List Char) : occursIn part cs = true ↔ part <:+: cs := by
  induction cs with
  | nil => simp [occursIn]
  | cons c cs ih =>
      rw [occursIn, Bool.or_eq_true, List.isPrefixOf_iff_prefix, ih, List.infix_cons_iff]

theorem withoutFirst_of_begins {part : List Char} {c : Char} {cs : List Char}
    (h : part <+: c :: cs) : withoutFirst part (c :: cs) = (c :: cs).drop part.length := by
  rw [withoutFirst, if_pos (List.isPrefixOf_iff_prefix.mpr h)]

theorem withoutFirst_of_not_begins {part : List Char} {c : Char} {cs : List Char}
    (h : ¬ part <+: c :: cs) : withoutFirst part (c :: cs) = c :: withoutFirst part cs := by
  rw [withoutFirst, if_neg fun hprefix => h (List.isPrefixOf_iff_prefix.mp hprefix)]

/-- What is taken out is the part, once. -/
theorem length_withoutFirst {part cs : List Char} (h : part <:+: cs) :
    (withoutFirst part cs).length + part.length = cs.length := by
  induction cs with
  | nil =>
      rw [List.infix_nil.mp h]
      rfl
  | cons c cs ih =>
      by_cases hprefix : part <+: c :: cs
      · have hle := hprefix.length_le
        rw [withoutFirst_of_begins hprefix, List.length_drop]
        omega
      · have hrest := ih ((List.infix_cons_iff.mp h).resolve_left hprefix)
        rw [withoutFirst_of_not_begins hprefix, List.length_cons, List.length_cons]
        omega

theorem withoutFirst_self (part : List Char) : withoutFirst part part = [] := by
  have hlength := length_withoutFirst (List.infix_refl part)
  exact List.eq_nil_of_length_eq_zero (by omega)

theorem withoutFirst_of_not_infix {part cs : List Char} (h : ¬ part <:+: cs) :
    withoutFirst part cs = cs := by
  induction cs with
  | nil => rfl
  | cons c cs ih =>
      rw [List.infix_cons_iff, not_or] at h
      rw [withoutFirst_of_not_begins h.1, ih h.2]

/-- What is taken out of a word is taken out of every text that begins with the word. -/
theorem withoutFirst_append {part w : List Char} (h : part <:+: w) (hne : part ≠ [])
    (rest : List Char) : withoutFirst part (w ++ rest) = withoutFirst part w ++ rest := by
  induction w with
  | nil => exact absurd (List.infix_nil.mp h) hne
  | cons c w ih =>
      by_cases hprefix : part <+: c :: w
      · have hlonger : part <+: c :: (w ++ rest) := hprefix.trans (List.prefix_append (c :: w) rest)
        rw [withoutFirst_of_begins hprefix, List.cons_append, withoutFirst_of_begins hlonger,
          ← List.cons_append, List.drop_append_of_le_length hprefix.length_le]
      · have hwithin : part <:+: w := (List.infix_cons_iff.mp h).resolve_left hprefix
        have hnot : ¬ part <+: c :: (w ++ rest) := by
          -- it is no longer than the word it stands in
          intro hlonger
          refine hprefix (List.prefix_of_prefix_length_le hlonger
            (List.prefix_append (c :: w) rest) ?_)
          have hle := hwithin.length_le
          rw [List.length_cons]
          omega
        rw [withoutFirst_of_not_begins hprefix, List.cons_append, withoutFirst_of_not_begins hnot,
          ih hwithin, List.cons_append]

section Unbroken

variable {part : List Char} (hpart : Unbroken part) (hne : part ≠ [])

include hpart hne

theorem not_begins_blank {b : Char} (hb : isBlank b = true) (rest : List Char) :
    ¬ part <+: b :: rest := by
  intro h
  have hnil : part <+: [] := prefix_of_prefix_append hpart hb h
  exact hne (List.prefix_nil.mp hnil)

theorem infix_append_blank_iff {b : Char} (hb : isBlank b = true) (w rest : List Char) :
    part <:+: w ++ b :: rest ↔ part <:+: w ∨ part <:+: rest := by
  induction w with
  | nil =>
      rw [List.nil_append, List.infix_cons_iff, List.infix_nil, or_iff_right hne,
        or_iff_right (not_begins_blank hpart hne hb rest)]
  | cons c w ih =>
      rw [List.cons_append, List.infix_cons_iff, ih, List.infix_cons_iff, or_assoc]
      refine or_congr_left ⟨fun h => ?_, fun h => h.trans (List.prefix_append (c :: w) _)⟩
      exact prefix_of_prefix_append hpart hb h

/-- **A part without white space stands in a text where it stands in a word.** -/
theorem infix_iff_of_unbroken (cs : List Char) : part <:+: cs ↔ ∃ w ∈ words cs, part <:+: w := by
  have hword : ∀ w, Unbroken w → (part <:+: w ↔ ∃ v ∈ words w, part <:+: v) := by
    intro w hw
    by_cases hnil : w = []
    · rw [hnil, words_nil, List.infix_nil]
      simp [hne]
    · rw [words_of_unbroken hw hnil]
      simp
  induction cs using words_induct with
  | last w hw => exact hword w hw
  | blank w b rest hw hb ih =>
      have hrest : part <:+: rest ↔ ∃ v ∈ words rest, part <:+: v := ih
      rw [infix_append_blank_iff hpart hne hb, hword w hw, hrest, words_append_cons w hb]
      simp only [List.mem_append, or_and_right, exists_or]

theorem withoutFirst_append_blank {b : Char} (hb : isBlank b = true) {w : List Char}
    (h : ¬ part <:+: w) (rest : List Char) :
    withoutFirst part (w ++ b :: rest) = w ++ b :: withoutFirst part rest := by
  induction w with
  | nil =>
      rw [List.nil_append, withoutFirst_of_not_begins (not_begins_blank hpart hne hb rest)]
      rfl
  | cons c w ih =>
      rw [List.infix_cons_iff, not_or] at h
      have hnot : ¬ part <+: c :: (w ++ b :: rest) := by
        intro hlonger
        exact h.1 (prefix_of_prefix_append hpart hb hlonger)
      rw [List.cons_append, withoutFirst_of_not_begins hnot, ih h.2, List.cons_append]

end Unbroken

/-! ## 4. Words without a part -/

/-- The words, the first one in which the part stands rid of it; a word that is the part goes. -/
def strike (part : List Char) : List (List Char) → List (List Char)
  | [] => []
  | w :: ws =>
      if occursIn part w then words (withoutFirst part w) ++ ws else w :: strike part ws

/-- **Taking a part out of a text takes it out of the first word that it stands in.** -/
theorem words_withoutFirst {part : List Char} (hpart : Unbroken part) (hne : part ≠ [])
    (cs : List Char) : words (withoutFirst part cs) = strike part (words cs) := by
  induction cs using words_induct with
  | last w hw =>
      by_cases hnil : w = []
      · rw [hnil]
        rfl
      · rw [words_of_unbroken hw hnil, strike]
        by_cases hwithin : part <:+: w
        · rw [if_pos ((occursIn_iff part w).mpr hwithin), List.append_nil]
        · rw [if_neg fun h => hwithin ((occursIn_iff part w).mp h),
            withoutFirst_of_not_infix hwithin, words_of_unbroken hw hnil, strike]
  | blank w b rest hw hb ih =>
      rw [words_append_cons w hb]
      by_cases hwithin : part <:+: w
      · have hnil : w ≠ [] := fun e => hne (List.infix_nil.mp (e ▸ hwithin))
        rw [withoutFirst_append hwithin hne, words_append_cons _ hb, words_of_unbroken hw hnil,
          List.singleton_append, strike, if_pos ((occursIn_iff part w).mpr hwithin)]
      · rw [withoutFirst_append_blank hpart hne hb hwithin, words_append_cons w hb, ih]
        by_cases hnil : w = []
        · rw [hnil, words_nil, List.nil_append, List.nil_append]
        · rw [words_of_unbroken hw hnil, List.singleton_append, List.singleton_append, strike,
            if_neg fun h => hwithin ((occursIn_iff part w).mp h)]

theorem strike_of_find_eq_none {part : List Char} {ws : List (List Char)}
    (h : ws.find? (occursIn part) = none) : strike part ws = ws := by
  induction ws with
  | nil => rfl
  | cons w ws ih =>
      rw [List.find?_cons] at h
      cases hw : occursIn part w with
      | true =>
          rw [hw] at h
          cases h
      | false =>
          rw [hw] at h
          rw [strike, if_neg (by rw [hw]; exact Bool.false_ne_true), ih h]

theorem strike_of_find {part w : List Char} {ws : List (List Char)}
    (h : ws.find? (occursIn part) = some w) :
    ∃ before after, ws = before ++ w :: after ∧ (∀ v ∈ before, occursIn part v = false) ∧
      strike part ws = before ++ (words (withoutFirst part w) ++ after) := by
  induction ws with
  | nil => cases h
  | cons v ws ih =>
      rw [List.find?_cons] at h
      rw [strike]
      cases hv : occursIn part v with
      | true =>
          rw [hv] at h
          cases h
          refine ⟨[], ws, rfl, ?_, ?_⟩
          · intro u hu
            cases hu
          · rw [if_pos rfl, List.nil_append]
      | false =>
          rw [hv] at h
          obtain ⟨before, after, hws, hbefore, hstrike⟩ := ih h
          refine ⟨v :: before, after, by rw [hws]; rfl, ?_, ?_⟩
          · intro u hu
            rcases List.mem_cons.mp hu with rfl | hu
            · exact hv
            · exact hbefore u hu
          · rw [if_neg Bool.false_ne_true, hstrike]
            rfl

end TextStyle

end Pagewright
