import Pagewright.Json.Printer
import Pagewright.Json.Reader

/-!
# Numbers and strings read back

The reader takes one character at a time, so that what it makes of a text is said by where it
stands after it:

* between tokens, blanks change nothing (`run_blanks`);
* `Arrives` -- **a value is read**: it is handed to whoever waits for it, or it is a number that any
  character which may follow a value will end (`step_of_arrives`);
* `arrives_whole` -- the digits of a whole number read as this number;
* `run_flatMap_escape`, `run_quoted` -- what is written of a string, escapes and all, reads as its
  characters.
-/

namespace Pagewright

namespace Json

variable {rules : ReadRules} {stack : List Frame} {q q' : ReadState} {c : Char}
  {cs ds : List Char} {e : ReadError} {v : Json}

/-! ## 1. Reading in parts -/

theorem run_append_of_ok (h : run rules q cs = .ok q') :
    run rules q (cs ++ ds) = run rules q' ds := by
  rw [run_append, h]

theorem run_append_of_error (h : run rules q cs = .error e) :
    run rules q (cs ++ ds) = .error e := by
  rw [run_append, h]

theorem run_cons_of_ok (h : step rules q c = .ok q') :
    run rules q (c :: cs) = run rules q' cs := by
  rw [run, h]

theorem run_cons_of_error (h : step rules q c = .error e) :
    run rules q (c :: cs) = .error e := by
  rw [run, h]

/-- Whether no word, number or string is open. -/
def Phase.between : Phase → Bool
  | .word _ _ => false
  | .number _ => false
  | .text _ _ _ => false
  | _ => true

theorem step_of_between (h : q.phase.between = true) (c : Char) :
    step rules q c = stepBetween rules q c := by
  obtain ⟨stack, phase⟩ := q
  cases phase with
  | word rest v => cases h
  | number n => cases h
  | text use read part => cases h
  | _ => rfl

theorem step_blank (h : q.phase.between = true) (hc : isBlank c = true) :
    step rules q c = .ok q := by
  rw [step_of_between h, stepBetween, if_pos hc]

/-- **Between tokens, blanks change nothing.** -/
theorem run_blanks (h : q.phase.between = true) (hcs : ∀ c ∈ cs, isBlank c = true) :
    run rules q cs = .ok q := by
  induction cs with
  | nil => rfl
  | cons c cs ih =>
      rw [List.forall_mem_cons] at hcs
      rw [run_cons_of_ok (step_blank h hcs.1)]
      exact ih hcs.2

/-- Whether a value may come next. -/
def Phase.awaits : Phase → Bool
  | .value => true
  | .firstItem => true
  | _ => false

theorem between_of_awaits {phase : Phase} (h : phase.awaits = true) : phase.between = true := by
  cases phase with
  | value => rfl
  | firstItem => rfl
  | _ => cases h

/-- Where a value may come next, a character opens one, unless it closes an array. -/
theorem step_awaits {phase : Phase} (h : phase.awaits = true) (hblank : isBlank c = false)
    (hc : c ≠ ']') : step rules ⟨stack, phase⟩ c = openValue rules stack c := by
  rw [step_of_between (between_of_awaits h), stepBetween, if_neg (by simp [hblank])]
  cases phase with
  | value => rfl
  | firstItem => exact if_neg hc
  | _ => cases h

/-! ## 2. The end of a value -/

/-- Whether a character may follow a value. -/
def endsValue (c : Char) : Bool := isBlank c || c = ',' || c = ']' || c = '\x7d'

theorem eq_of_endsValue (h : endsValue c = true) :
    c = ' ' ∨ c = '\t' ∨ c = '\n' ∨ c = '\r' ∨ c = ',' ∨ c = ']' ∨ c = '\x7d' := by
  simpa [endsValue, isBlank, or_assoc] using h

/-- No character that may follow a value goes on with a literal that may end. -/
theorem Numeral.next_of_endsValue {n : Numeral} (hn : n.complete = true)
    (hc : endsValue c = true) : n.next c = .ends := by
  obtain ⟨negative, part, whole, fraction, shrinks, exponent⟩ := n
  have hcases := eq_of_endsValue hc
  cases part with
  | zero => rcases hcases with rfl | rfl | rfl | rfl | rfl | rfl | rfl <;> rfl
  | whole => rcases hcases with rfl | rfl | rfl | rfl | rfl | rfl | rfl <;> rfl
  | fraction => rcases hcases with rfl | rfl | rfl | rfl | rfl | rfl | rfl <;> rfl
  | exponent => rcases hcases with rfl | rfl | rfl | rfl | rfl | rfl | rfl <;> rfl
  | _ => cases hn

/-- **A value is read**: it is handed to whoever waits for it, or it is a number that nothing has
    ended yet. -/
inductive Arrives : Json → List Frame → ReadState → Prop where
  | handed (v : Json) (stack : List Frame) : Arrives v stack (deliver v stack)
  | pending {n : Numeral} {x : Number} (stack : List Frame) (complete : n.complete = true)
      (value : n.value? = some x) : Arrives (.num x) stack ⟨stack, .number n⟩

theorem between_deliver (v : Json) (stack : List Frame) :
    (deliver v stack).phase.between = true := by
  cases stack with
  | nil => rfl
  | cons frame stack => cases frame <;> rfl

/-- **A character that may follow a value ends it.** -/
theorem step_of_arrives (h : Arrives v stack q) (hc : endsValue c = true) :
    step rules q c = stepBetween rules (deliver v stack) c := by
  cases h with
  | handed => exact step_of_between (between_deliver v stack) c
  | @pending n x stack complete value =>
      have hnext := n.next_of_endsValue complete hc
      simp only [step, hnext, closeNumber, value]

/-- So does the end of the text. -/
theorem closeText_of_arrives (h : Arrives v stack q) :
    closeText rules q = .ok (deliver v stack) := by
  cases h with
  | handed =>
      rw [closeText]
      cases stack with
      | nil => rfl
      | cons frame stack => cases frame <;> rfl
  | @pending n x stack complete value =>
      simp only [closeText, complete, if_true, closeNumber, value]

/-! ## 3. Whole numbers -/

/-- The digits of a number above zero do not begin with a zero. -/
theorem exists_toDigits_eq_cons (m : Nat) (hm : 0 < m) :
    ∃ c cs, Nat.toDigits 10 m = c :: cs ∧ c ≠ '0' := by
  induction m using Nat.strongRecOn with
  | ind m ih =>
      by_cases hsmall : m < 10
      · refine ⟨m.digitChar, [], Nat.toDigits_of_lt_base hsmall, fun hzero => ?_⟩
        have : m = 0 := Nat.digitChar_eq_zero.mp hzero
        omega
      · -- all but the last digit are those of the quotient by ten
        obtain ⟨c, cs, hdigits, hc⟩ := ih (m / 10) (by omega) (by omega)
        refine ⟨c, cs ++ [(m % 10).digitChar], ?_, hc⟩
        rw [Nat.toDigits_of_base_le (by omega) (by omega), hdigits, List.cons_append]

/-- The literal that these digits make, with a minus sign before them or not. -/
def Numeral.written (negative : Bool) (digits : List Char) : Numeral :=
  ⟨negative, if digits = ['0'] then .zero else .whole, digits.reverse, [], false, []⟩

theorem Numeral.complete_written (negative : Bool) (digits : List Char) :
    (written negative digits).complete = true := by
  by_cases hzero : digits = ['0']
  · simp only [complete, written, if_pos hzero]
  · simp only [complete, written, if_neg hzero]

theorem run_digits {n : Numeral} (hn : n.part = .whole) (hcs : ∀ c ∈ cs, c.isDigit = true) :
    run rules ⟨stack, .number n⟩ cs =
      .ok ⟨stack, .number { n with whole := cs.reverse ++ n.whole }⟩ := by
  induction cs generalizing n with
  | nil => rfl
  | cons c cs ih =>
      rw [List.forall_mem_cons] at hcs
      have hstep : step rules ⟨stack, .number n⟩ c =
          .ok ⟨stack, .number { n with whole := c :: n.whole }⟩ := by
        simp only [step, Numeral.next, hn, hcs.1, if_true]
      rw [run_cons_of_ok hstep, List.reverse_cons, List.append_assoc, List.singleton_append]
      exact ih (n := { n with whole := c :: n.whole }) hn hcs.2

/-- A digit opens a literal. -/
theorem openValue_digit (hc : c.isDigit = true) :
    openValue rules stack c = .ok ⟨stack, .number (.digit c)⟩ := by
  have hne : ∀ d : Char, d.isDigit = false → c ≠ d := by
    rintro d hd rfl
    rw [hc] at hd
    cases hd
  rw [openValue, if_neg (hne _ rfl), if_neg (hne _ rfl), if_neg (hne _ rfl), if_neg (hne _ rfl),
    if_neg (hne _ rfl), if_pos hc]

theorem not_isBlank_of_isDigit (hc : c.isDigit = true) : isBlank c = false := by
  rw [Bool.eq_false_iff]
  intro hblank
  have hcases : c = ' ' ∨ c = '\t' ∨ c = '\n' ∨ c = '\r' := by
    simpa [isBlank, or_assoc] using hblank
  rcases hcases with rfl | rfl | rfl | rfl <;> cases hc

/-- The digits of a number above zero, the first of them apart. -/
theorem exists_digits (m : Nat) (hm : 0 < m) :
    ∃ c cs, Nat.toDigits 10 m = c :: cs ∧ c ≠ '0' ∧ c.isDigit = true ∧
      ∀ d ∈ cs, d.isDigit = true := by
  obtain ⟨c, cs, hdigits, hc⟩ := exists_toDigits_eq_cons m hm
  have hall : ∀ d ∈ c :: cs, d.isDigit = true := fun d hd =>
    Nat.isDigit_of_mem_toDigits (b := 10) (by omega) (by omega) (hdigits ▸ hd)
  rw [List.forall_mem_cons] at hall
  exact ⟨c, cs, hdigits, hc, hall.1, hall.2⟩

theorem Numeral.written_cons (negative : Bool) (hc : c ≠ '0') :
    written negative (c :: cs) = ⟨negative, .whole, cs.reverse ++ [c], [], false, []⟩ := by
  have hone : c :: cs ≠ ['0'] := fun h => hc (List.cons.inj h).1
  rw [written, if_neg hone, List.reverse_cons]

theorem run_toDigits {phase : Phase} (hphase : phase.awaits = true) (m : Nat) :
    run rules ⟨stack, phase⟩ (Nat.toDigits 10 m) =
      .ok ⟨stack, .number (.written false (Nat.toDigits 10 m))⟩ := by
  rcases Nat.eq_zero_or_pos m with rfl | hm
  · rw [Nat.toDigits_zero, run, step_awaits hphase rfl (by decide)]
    rfl
  · obtain ⟨c, cs, hdigits, hzero, hc, hcs⟩ := exists_digits m hm
    have hbracket : c ≠ ']' := by
      rintro rfl
      cases hc
    have hopen : step rules ⟨stack, phase⟩ c = .ok ⟨stack, .number (.digit c)⟩ := by
      rw [step_awaits hphase (not_isBlank_of_isDigit hc) hbracket, openValue_digit hc]
    have hpart : (Numeral.digit c).part = .whole := if_neg hzero
    rw [hdigits, run_cons_of_ok hopen, run_digits hpart hcs, Numeral.written_cons false hzero,
      Numeral.digit, if_neg hzero]

theorem run_minus_toDigits {phase : Phase} (hphase : phase.awaits = true) {m : Nat} (hm : 0 < m) :
    run rules ⟨stack, phase⟩ ('-' :: Nat.toDigits 10 m) =
      .ok ⟨stack, .number (.written true (Nat.toDigits 10 m))⟩ := by
  obtain ⟨c, cs, hdigits, hzero, hc, hcs⟩ := exists_digits m hm
  have hopen : step rules ⟨stack, phase⟩ '-' = .ok ⟨stack, .number .minus⟩ :=
    step_awaits hphase rfl (by decide)
  have hfirst : step rules ⟨stack, .number .minus⟩ c =
      .ok ⟨stack, .number { Numeral.minus with part := .whole, whole := [c] }⟩ := by
    simp only [step, Numeral.next, Numeral.minus, if_neg hzero, hc, if_true]
  rw [hdigits, run_cons_of_ok hopen, run_cons_of_ok hfirst, run_digits rfl hcs,
    Numeral.written_cons true hzero]
  rfl

/-- The value of the digits of a number, where the words hold it. -/
theorem Numeral.value?_written (negative : Bool) (m : Nat) (n : Whole)
    (hn : n.val = if negative then -(m : Int) else m) (hm : negative = true → 0 < m) :
    (written negative (Nat.toDigits 10 m)).value? = some (.whole n) := by
  have hmagnitude : Nat.ofDigitChars 10 (Nat.toDigits 10 m).reverse.reverse 0 = m := by
    rw [List.reverse_reverse, Nat.ofDigitChars_ten_toDigits]
  have hwhole : (written negative (Nat.toDigits 10 m)).whole? = some n := by
    cases negative with
    | false =>
        have hval : (m : Int) = n.val := hn.symm
        simp only [whole?, written, hmagnitude, hval, Whole.ofInt?_val]
        split <;> simp_all
    | true =>
        have hpos : ¬ (m : Int) = 0 := by
          have := hm rfl
          omega
        have hval : -(m : Int) = n.val := hn.symm
        simp only [whole?, written, hmagnitude, hval, Whole.ofInt?_val, if_neg hpos]
        split <;> simp_all
  rw [value?, hwhole]

/-- **The digits of a whole number read as this number.** -/
theorem arrives_whole (n : Whole) {phase : Phase} (hphase : phase.awaits = true) :
    ∃ q, run rules ⟨stack, phase⟩ (numberText (.whole n)).toList = .ok q ∧
      Arrives (.num (.whole n)) stack q := by
  rcases hval : n.val with m | m
  · have htext : (numberText (.whole n)).toList = Nat.toDigits 10 m := by
      rw [numberText, hval]
      show (toString m).toList = _
      rw [Nat.toString_eq_ofList_toDigits, String.toList_ofList]
    rw [htext]
    refine ⟨_, run_toDigits hphase m, .pending stack (Numeral.complete_written _ _) ?_⟩
    exact Numeral.value?_written false m n hval (fun h => by cases h)
  · have htext : (numberText (.whole n)).toList = '-' :: Nat.toDigits 10 (m + 1) := by
      rw [numberText, hval]
      show ("-" ++ toString (m + 1)).toList = _
      simp only [Nat.toString_eq_ofList_toDigits, String.toList_append, String.toList_ofList]
      rfl
    rw [htext]
    refine ⟨_, run_minus_toDigits hphase (Nat.succ_pos m),
      .pending stack (Numeral.complete_written _ _) ?_⟩
    exact Numeral.value?_written true (m + 1) n hval (fun _ => Nat.succ_pos m)

/-! ## 4. Strings -/

theorem hexValue?_hexDigit : ∀ n : Nat, n < 16 → hexValue? (hexDigit n) = some n := by
  decide

theorem utf8Size_hexDigit : ∀ n : Nat, n < 16 → (hexDigit n).utf8Size = 1 := by
  decide

/-- A character that does not close a string leads on within it. -/
theorem step_text {use : StringUse} {read read' : List Char} {part part' : StringPart}
    (hopen : closesString part c = false)
    (hread : stepString rules read part c = .ok (read', part')) :
    step rules ⟨stack, .text use read part⟩ c = .ok ⟨stack, .text use read' part'⟩ := by
  simp only [step, hopen, hread]
  rfl

/-- The four octets of the number of a character below U+0020. -/
theorem run_unit {use : StringUse} {read : List Char} (hc : c.toNat < 32) :
    run rules ⟨stack, .text use read (.unit ⟨4, 0, false, none⟩)⟩
        ['0', '0', hexDigit (c.toNat / 16), hexDigit (c.toNat % 16)] =
      .ok ⟨stack, .text use (c :: read) .plain⟩ := by
  have hhigh := hexValue?_hexDigit (c.toNat / 16) (by omega)
  have hlow := hexValue?_hexDigit (c.toNat % 16) (by omega)
  have hsize := utf8Size_hexDigit (c.toNat / 16) (by omega)
  have hsize' := utf8Size_hexDigit (c.toNat % 16) (by omega)
  have hvalue : c.toNat / 16 * 16 + c.toNat % 16 = c.toNat := by omega
  -- a number this small is not half of a pair, so that the unit is a character of its own
  have hhalf : isSecondHalf c.toNat = false := by
    simp only [isSecondHalf, Bool.and_eq_false_imp, decide_eq_true_eq]
    omega
  have hhalf' : isFirstHalf c.toNat = false := by
    simp only [isFirstHalf, Bool.and_eq_false_imp, decide_eq_true_eq]
    omega
  have hfirst : stepString rules read (.unit ⟨4, 0, false, none⟩) '0' =
      .ok (read, .unit ⟨3, 0, false, none⟩) := rfl
  have hsecond : stepString rules read (.unit ⟨3, 0, false, none⟩) '0' =
      .ok (read, .unit ⟨2, 0, false, none⟩) := rfl
  have hthird : stepString rules read (.unit ⟨2, 0, false, none⟩) (hexDigit (c.toNat / 16)) =
      .ok (read, .unit ⟨1, c.toNat / 16, false, none⟩) := by
    simp [stepString, stepUnit, hhigh, hsize]
  have hfourth : stepString rules read (.unit ⟨1, c.toNat / 16, false, none⟩)
      (hexDigit (c.toNat % 16)) = .ok (c :: read, .plain) := by
    simp [stepString, stepUnit, closeUnit, hlow, hsize', hvalue, hhalf, hhalf', Char.ofNat_toNat]
  rw [run_cons_of_ok (step_text rfl hfirst), run_cons_of_ok (step_text rfl hsecond),
    run_cons_of_ok (step_text rfl hthird), run_cons_of_ok (step_text rfl hfourth), run]

/-- **A character reads back**, however it is escaped. -/
theorem run_escape (use : StringUse) (read : List Char) (c : Char) :
    run rules ⟨stack, .text use read .plain⟩ (escape c) =
      .ok ⟨stack, .text use (c :: read) .plain⟩ := by
  by_cases hshort : c = '"' ∨ c = '\\' ∨ c = '\x08' ∨ c = '\x0c' ∨ c = '\n' ∨ c = '\r' ∨ c = '\t'
  · -- a backslash and one more character
    rcases hshort with rfl | rfl | rfl | rfl | rfl | rfl | rfl <;> rfl
  · simp only [not_or] at hshort
    obtain ⟨hquote, hbackslash, hb, hf, hn, hr, ht⟩ := hshort
    rw [escape, if_neg hquote, if_neg hbackslash, if_neg hb, if_neg hf, if_neg hn, if_neg hr,
      if_neg ht]
    by_cases hc : c.toNat < 32
    · rw [if_pos hc, run_cons_of_ok (step_text rfl rfl), run_cons_of_ok (step_text rfl rfl)]
      exact run_unit hc
    · have hcloses : closesString .plain c = false := decide_eq_false hquote
      have hplain : stepString rules read .plain c = .ok (c :: read, .plain) := by
        rw [stepString, if_neg hbackslash, if_neg hc]
      rw [if_neg hc, run_cons_of_ok (step_text hcloses hplain), run]

theorem run_flatMap_escape (use : StringUse) (cs read : List Char) :
    run rules ⟨stack, .text use read .plain⟩ (cs.flatMap escape) =
      .ok ⟨stack, .text use (cs.reverse ++ read) .plain⟩ := by
  induction cs generalizing read with
  | nil => rfl
  | cons c cs ih =>
      rw [List.flatMap_cons, run_append_of_ok (run_escape use read c), ih, List.reverse_cons,
        List.append_assoc, List.singleton_append]

/-- **A string reads back**, up to the quote that closes it. -/
theorem run_quoted (use : StringUse) (s : String) :
    run rules ⟨stack, .text use [] .plain⟩ (s.toList.flatMap escape ++ ['"']) =
      .ok (closeString stack use s.toList.reverse) := by
  rw [run_append_of_ok (run_flatMap_escape use s.toList []), List.append_nil]
  rfl

theorem toList_quoted (s : String) :
    (quoted s).toList = '"' :: (s.toList.flatMap escape ++ ['"']) := by
  simp only [quoted, String.toList_append, String.toList_ofList]
  rfl

theorem ofList_reverse_reverse (s : String) : String.ofList s.toList.reverse.reverse = s := by
  rw [List.reverse_reverse, String.ofList_toList]

end Json

end Pagewright
