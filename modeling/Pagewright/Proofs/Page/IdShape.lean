import Mathlib.Data.String.Basic
import Pagewright.Page.Ids

/-!
# The shape of generated ids

An id is told to be a generated one by the number that it writes. A number can be written with a plus
sign, with zeros before it, and in many lengths; of these ways the length and the range leave one.

* `eq_of_ofDigitChars_eq` -- as many digits that write the same number are the same digits;
* `isIdNumber_iff` -- **what is left are eight digits, the first of which is not zero**: a plus sign
  would leave seven, which write too small a number, and so would a zero in front;
* `isGenerated_iff_numberedId` -- these are the ids with a number of the range;
* `generated_iff_handed_out` -- **the ids that are told to be generated are those of the shape, and
  those that a numbering hands out**.
-/

namespace Pagewright

/-! ## 1. Digits -/

/-- The first digit counts for as much as the others leave room for. -/
theorem ofDigitChars_ten_cons (c : Char) (cs : List Char) :
    Nat.ofDigitChars 10 (c :: cs) 0 =
      10 ^ cs.length * (c.toNat - '0'.toNat) + Nat.ofDigitChars 10 cs 0 := by
  rw [Nat.ofDigitChars_cons, Nat.mul_zero, Nat.zero_add, Nat.ofDigitChars_eq_ofDigitChars_zero]

/-- A digit writes a number below ten. -/
theorem digit_lt_ten {c : Char} (h : c.isDigit = true) : c.toNat - '0'.toNat < 10 := by
  obtain ⟨_, hle⟩ := Char.isDigit_iff_toNat.mp h
  have hnine : '9'.toNat = '0'.toNat + 9 := rfl
  omega

theorem eq_of_digit_eq {c d : Char} (hc : c.isDigit = true) (hd : d.isDigit = true)
    (h : c.toNat - '0'.toNat = d.toNat - '0'.toNat) : c = d := by
  obtain ⟨hc, _⟩ := Char.isDigit_iff_toNat.mp hc
  obtain ⟨hd, _⟩ := Char.isDigit_iff_toNat.mp hd
  exact Char.toNat_inj.mp (by omega)

/-- So many digits write a number below the power of ten. -/
theorem ofDigitChars_lt {ds : List Char} (h : ∀ c ∈ ds, c.isDigit = true) :
    Nat.ofDigitChars 10 ds 0 < 10 ^ ds.length := by
  induction ds with
  | nil => exact Nat.one_pos
  | cons c ds ih =>
      have hc := digit_lt_ten (h c List.mem_cons_self)
      have hrest := ih fun d hd => h d (List.mem_cons_of_mem c hd)
      rw [ofDigitChars_ten_cons, List.length_cons, Nat.pow_succ]
      calc 10 ^ ds.length * (c.toNat - '0'.toNat) + Nat.ofDigitChars 10 ds 0
          < 10 ^ ds.length * (c.toNat - '0'.toNat) + 10 ^ ds.length := Nat.add_lt_add_left hrest _
        _ = 10 ^ ds.length * (c.toNat - '0'.toNat + 1) := (Nat.mul_succ _ _).symm
        _ ≤ 10 ^ ds.length * 10 := Nat.mul_le_mul_left _ hc

/-- **As many digits that write the same number are the same digits.** -/
theorem eq_of_ofDigitChars_eq {ds es : List Char} (hds : ∀ c ∈ ds, c.isDigit = true)
    (hes : ∀ c ∈ es, c.isDigit = true) (hlength : ds.length = es.length)
    (h : Nat.ofDigitChars 10 ds 0 = Nat.ofDigitChars 10 es 0) : ds = es := by
  induction ds generalizing es with
  | nil => exact (List.length_eq_zero_iff.mp hlength.symm).symm
  | cons c ds ih =>
      obtain ⟨e, es, rfl⟩ := List.exists_cons_of_length_eq_add_one hlength.symm
      have hrest : ds.length = es.length := Nat.succ.inj hlength
      obtain ⟨hc, hds⟩ := List.forall_mem_cons.mp hds
      obtain ⟨he, hes⟩ := List.forall_mem_cons.mp hes
      have hlt := ofDigitChars_lt hds
      have hlt' := ofDigitChars_lt hes
      have hpos : 0 < 10 ^ es.length := Nat.pow_pos (by decide)
      rw [ofDigitChars_ten_cons, ofDigitChars_ten_cons, hrest] at h
      rw [hrest] at hlt
      -- the first digit is the quotient by the power of ten, and the others write the remainder
      have hfirst := congrArg (· / 10 ^ es.length) h
      have hothers := congrArg (· % 10 ^ es.length) h
      simp only [Nat.mul_add_div hpos, Nat.div_eq_of_lt hlt, Nat.div_eq_of_lt hlt',
        Nat.add_zero] at hfirst
      simp only [Nat.mul_add_mod, Nat.mod_eq_of_lt hlt, Nat.mod_eq_of_lt hlt'] at hothers
      rw [eq_of_digit_eq hc he hfirst, ih hds hes hrest hothers]

/-- Each digit takes one octet. -/
theorem utf8ByteSize_of_digits {ds : List Char} (h : ∀ c ∈ ds, c.isDigit = true) :
    (String.ofList ds).utf8ByteSize = ds.length := by
  rw [String.utf8ByteSize_ofList]
  induction ds with
  | nil => rfl
  | cons c ds ih =>
      obtain ⟨hc, hds⟩ := List.forall_mem_cons.mp h
      have hsize : c.utf8Size = 1 := by
        obtain ⟨_, hle⟩ := Char.isDigit_iff_toNat.mp hc
        have hval : c.val.toNat ≤ 127 := Nat.le_trans hle (by decide)
        exact Char.utf8Size_eq_one_iff.mpr (UInt32.le_iff_toNat_le.mpr hval)
      rw [String.utf8Len_cons, ih hds, hsize, List.length_cons]

/-! ## 2. Numbers of ids -/

theorem leastIdNumber_eq : leastIdNumber = 10 ^ 7 := rfl

theorem greatestIdNumber_succ : greatestIdNumber + 1 = 10 ^ 8 := rfl

theorem leastIdNumber_add_idCount : leastIdNumber + idCount = greatestIdNumber + 1 := rfl

/-- Of eight digits, those that do not begin with zero write a number that needs as many. -/
theorem leastIdNumber_le_iff {cs : List Char} (hlength : cs.length = 8)
    (h : ∀ c ∈ cs, c.isDigit = true) :
    leastIdNumber ≤ Nat.ofDigitChars 10 cs 0 ↔ cs.head? ≠ some '0' := by
  obtain ⟨c, cs, rfl⟩ := List.exists_cons_of_length_eq_add_one hlength
  obtain ⟨hc, hcs⟩ := List.forall_mem_cons.mp h
  have hrest : cs.length = 7 := Nat.succ.inj hlength
  have hlt := ofDigitChars_lt hcs
  rw [ofDigitChars_ten_cons, hrest, leastIdNumber_eq, List.head?_cons, ne_eq, Option.some.injEq]
  rw [hrest] at hlt
  constructor
  · rintro hle rfl
    omega
  · intro hne
    have hpos : c.toNat - '0'.toNat ≠ 0 := fun hzero =>
      hne (eq_of_digit_eq hc rfl (hzero.trans (Nat.sub_self _).symm))
    omega

theorem le_greatestIdNumber {cs : List Char} (hlength : cs.length = 8)
    (h : ∀ c ∈ cs, c.isDigit = true) : Nat.ofDigitChars 10 cs 0 ≤ greatestIdNumber := by
  have hlt := ofDigitChars_lt h
  rw [hlength, ← greatestIdNumber_succ] at hlt
  exact Nat.le_of_lt_succ hlt

/-- A number is written after a plus sign, or as it is. -/
theorem withoutPlus_cases (cs : List Char) :
    (∃ ds, cs = '+' :: ds ∧ withoutPlus cs = ds) ∨ withoutPlus cs = cs := by
  unfold withoutPlus
  split
  · exact .inl ⟨_, rfl, rfl⟩
  · exact .inr rfl

theorem wordOf?_eq_some {cs : List Char} {n : Nat} (h : wordOf? cs = some n) :
    (∀ c ∈ withoutPlus cs, c.isDigit = true) ∧ n = Nat.ofDigitChars 10 (withoutPlus cs) 0 := by
  simp only [wordOf?] at h
  split at h
  · next hds => exact ⟨List.all_eq_true.mp hds.2.1, (Option.some.inj h).symm⟩
  · cases h

/-- Digits write their number, where it fits in a word. -/
theorem wordOf?_of_digits {cs : List Char} (hne : cs ≠ []) (h : ∀ c ∈ cs, c.isDigit = true)
    (hfits : Nat.ofDigitChars 10 cs 0 < UInt32.size) :
    wordOf? cs = some (Nat.ofDigitChars 10 cs 0) := by
  have hsame : withoutPlus cs = cs := by
    rcases withoutPlus_cases cs with ⟨ds, rfl, _⟩ | hsame
    · exact absurd (h '+' List.mem_cons_self) (by decide)
    · exact hsame
  simp only [wordOf?, hsame]
  rw [if_pos ⟨hne, List.all_eq_true.mpr h, hfits⟩]

/-- **The number of an id is written with eight digits, the first of which is not zero.** -/
theorem isIdNumber_iff {cs : List Char} :
    isIdNumber cs = true ↔
      cs.length = 8 ∧ (∀ c ∈ cs, c.isDigit = true) ∧ cs.head? ≠ some '0' := by
  unfold isIdNumber
  constructor
  · intro h
    cases hn : wordOf? cs with
    | none => rw [hn] at h; cases h
    | some n =>
        rw [hn] at h
        simp only [Bool.and_eq_true, decide_eq_true_eq] at h
        obtain ⟨hsize, hleast, _⟩ := h
        obtain ⟨hdigits, rfl⟩ := wordOf?_eq_some hn
        rcases withoutPlus_cases cs with ⟨ds, rfl, hds⟩ | hsame
        · -- a plus sign takes one octet of the eight, and seven digits write too small a number
          rw [hds] at hdigits hleast
          rw [String.utf8ByteSize_ofList, String.utf8Len_cons, ← String.utf8ByteSize_ofList,
            utf8ByteSize_of_digits hdigits] at hsize
          have hlt := ofDigitChars_lt hdigits
          rw [Nat.succ.inj hsize, ← leastIdNumber_eq] at hlt
          exact absurd hleast (Nat.not_le.mpr hlt)
        · rw [hsame] at hdigits hleast
          have hlength : cs.length = 8 := (utf8ByteSize_of_digits hdigits).symm.trans hsize
          exact ⟨hlength, hdigits, (leastIdNumber_le_iff hlength hdigits).mp hleast⟩
  · rintro ⟨hlength, hdigits, hhead⟩
    have hne : cs ≠ [] := List.ne_nil_of_length_eq_add_one hlength
    have hgreatest := le_greatestIdNumber hlength hdigits
    have hfits : Nat.ofDigitChars 10 cs 0 < UInt32.size :=
      Nat.lt_of_le_of_lt hgreatest (by decide)
    rw [wordOf?_of_digits hne hdigits hfits]
    simp only [Bool.and_eq_true, decide_eq_true_eq]
    exact ⟨(utf8ByteSize_of_digits hdigits).trans hlength,
      (leastIdNumber_le_iff hlength hdigits).mpr hhead, hgreatest⟩

/-! ## 3. Generated ids -/

theorem isGenerated_iff_shape (id : String) :
    isGenerated id = true ↔ ∃ ds : List Char, id.toList = idStem.toList ++ ds ∧ ds.length = 8 ∧
      (∀ c ∈ ds, c.isDigit = true) ∧ ds.head? ≠ some '0' := by
  unfold isGenerated
  constructor
  · intro h
    cases hds : idStem.toList.isPrefixOf? id.toList with
    | none => rw [hds] at h; cases h
    | some ds =>
        rw [hds] at h
        exact ⟨ds, (List.isPrefixOf?_eq_some_iff_append_eq.mp hds).symm, isIdNumber_iff.mp h⟩
  · rintro ⟨ds, hid, hshape⟩
    rw [List.isPrefixOf?_eq_some_iff_append_eq.mpr hid.symm]
    exact isIdNumber_iff.mpr hshape

theorem toList_numberedId (n : Nat) :
    (numberedId n).toList = idStem.toList ++ Nat.toDigits 10 n := by
  rw [numberedId, String.toList_append, Nat.toList_repr]

/-- A number of the range has eight digits. -/
theorem length_toDigits_of_range {n : Nat} (hleast : leastIdNumber ≤ n)
    (hgreatest : n ≤ greatestIdNumber) : (Nat.toDigits 10 n).length = 8 := by
  have hle : (Nat.toDigits 10 n).length ≤ 8 := by
    rw [Nat.length_toDigits_le_iff (by decide) (by decide), ← greatestIdNumber_succ]
    exact Nat.lt_succ_of_le hgreatest
  have hgt : ¬ (Nat.toDigits 10 n).length ≤ 7 := by
    rw [Nat.length_toDigits_le_iff (by decide) (by decide), ← leastIdNumber_eq]
    exact Nat.not_lt.mpr hleast
  omega

/-- **Generated ids are the ids with a number of the range.** -/
theorem isGenerated_iff_numberedId (id : String) :
    isGenerated id = true ↔
      ∃ n, leastIdNumber ≤ n ∧ n ≤ greatestIdNumber ∧ numberedId n = id := by
  have hdigits : ∀ n, ∀ c ∈ Nat.toDigits 10 n, c.isDigit = true :=
    fun n c hc => Nat.isDigit_of_mem_toDigits (by decide) (by decide) hc
  rw [isGenerated_iff_shape]
  constructor
  · rintro ⟨ds, hid, hlength, hds, hhead⟩
    have hleast := (leastIdNumber_le_iff hlength hds).mpr hhead
    have hgreatest := le_greatestIdNumber hlength hds
    -- the number is written again with as many digits, so with these
    have hsame : Nat.toDigits 10 (Nat.ofDigitChars 10 ds 0) = ds :=
      eq_of_ofDigitChars_eq (hdigits _) hds
        ((length_toDigits_of_range hleast hgreatest).trans hlength.symm)
        Nat.ofDigitChars_ten_toDigits
    refine ⟨_, hleast, hgreatest, String.toList_injective ?_⟩
    rw [toList_numberedId, hid, hsame]
  · rintro ⟨n, hleast, hgreatest, rfl⟩
    have hlength := length_toDigits_of_range hleast hgreatest
    refine ⟨_, toList_numberedId n, hlength, hdigits n, ?_⟩
    rw [← leastIdNumber_le_iff hlength (hdigits n), Nat.ofDigitChars_ten_toDigits]
    exact hleast

/-- Every number of the range makes an id of the shape that is told from others. -/
theorem isGenerated_numberedId {n : Nat} (hleast : leastIdNumber ≤ n)
    (hgreatest : n ≤ greatestIdNumber) : isGenerated (numberedId n) = true :=
  (isGenerated_iff_numberedId _).mpr ⟨n, hleast, hgreatest, rfl⟩

/-! ## 4. What a numbering hands out -/

namespace Numbering

/-- The number of an id that a numbering hands out is in the range. -/
theorem next_range (s : Numbering) : ∃ n, leastIdNumber ≤ n ∧ n ≤ greatestIdNumber ∧
    numberedId n = s.next.1 := by
  refine ⟨_, Nat.le_add_right leastIdNumber (s.count.toNat % idCount), ?_, rfl⟩
  have hrest : s.count.toNat % idCount < idCount := Nat.mod_lt _ (by decide)
  have hcount := leastIdNumber_add_idCount
  omega

/-- A numbering has counted what it has handed out. -/
theorem count_take (k : Nat) (s : Numbering) :
    (take k s).2.count = s.count + UInt32.ofNat k := by
  induction k generalizing s with
  | zero => exact (UInt32.add_zero s.count).symm
  | succ k ih =>
      show (take k s.next.2).2.count = _
      rw [ih, UInt32.ofNat_add, UInt32.add_comm (UInt32.ofNat k), ← UInt32.add_assoc]
      rfl

/-- After so many ids, a fresh numbering hands out the one with this number. -/
theorem next_take_fresh {n : Nat} (hleast : leastIdNumber ≤ n) (hgreatest : n ≤ greatestIdNumber) :
    (take (n - leastIdNumber) fresh).2.next.1 = numberedId n := by
  have hcount := leastIdNumber_add_idCount
  have hlt : n - leastIdNumber < idCount := by omega
  have hword : n - leastIdNumber < UInt32.size := Nat.lt_trans hlt (by decide)
  have hnumber : (take (n - leastIdNumber) fresh).2.count.toNat = n - leastIdNumber := by
    rw [count_take, fresh, UInt32.zero_add, UInt32.toNat_ofNat_of_lt' hword]
  rw [next, hnumber, Nat.mod_eq_of_lt hlt, Nat.add_sub_cancel' hleast]

end Numbering

/-- **Ids are told to be generated exactly where they are.** An id is told to be a generated one

    * exactly if it is `tag_` with eight digits, `0` to `9`, the first of which is not zero;
    * exactly if some numbering hands it out next, whatever it has counted;
    * exactly if a fresh numbering comes to it, within one round. -/
theorem generated_iff_handed_out (id : String) :
    (isGenerated id = true ↔ ∃ ds : List Char, id.toList = "tag_".toList ++ ds ∧ ds.length = 8 ∧
      (∀ c ∈ ds, '0' ≤ c ∧ c ≤ '9') ∧ ds.head? ≠ some '0') ∧
    (isGenerated id = true ↔ ∃ s : Numbering, s.next.1 = id) ∧
    (isGenerated id = true ↔ ∃ k < idCount, (Numbering.take k .fresh).2.next.1 = id) := by
  have hdigit : ∀ c : Char, c.isDigit = true ↔ '0' ≤ c ∧ c ≤ '9' :=
    fun c => Char.isDigit_iff_toNat
  refine ⟨?_, ?_, ?_⟩
  · rw [isGenerated_iff_shape]
    simp only [hdigit]
    rfl
  · rw [isGenerated_iff_numberedId]
    constructor
    · rintro ⟨n, hleast, hgreatest, rfl⟩
      exact ⟨_, Numbering.next_take_fresh hleast hgreatest⟩
    · rintro ⟨s, rfl⟩
      exact s.next_range
  · rw [isGenerated_iff_numberedId]
    constructor
    · rintro ⟨n, hleast, hgreatest, rfl⟩
      have hcount := leastIdNumber_add_idCount
      exact ⟨n - leastIdNumber, by omega, Numbering.next_take_fresh hleast hgreatest⟩
    · rintro ⟨k, _, rfl⟩
      exact (Numbering.take k .fresh).2.next_range

end Pagewright
