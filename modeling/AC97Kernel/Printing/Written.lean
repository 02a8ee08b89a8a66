/-
Formats can be written.

A directive is written with its flags, its width, its precision, its size and its
conversion, and is read again as it was.
-/

import AC97Kernel.Printing.Refinement

set_option autoImplicit false

namespace AC97Kernel.Printing

def Flags.write (flags : Flags) : List Char :=
  (if flags.minus then ['-'] else []) ++ (if flags.plus then ['+'] else []) ++
    (if flags.space then [' '] else []) ++ (if flags.num then ['#'] else []) ++
    (if flags.zero then ['0'] else [])

def Amount.write : Amount → List Char
  | .absent => []
  | .number value => numeral false 10 value
  | .argument => ['*']

def Conversion.write : Conversion → List Char
  | .none => []
  | .short => ['h']
  | .long => ['l']
  | .ldouble => ['L']

def Directive.writePrecision (directive : Directive) : List Char :=
  if directive.max = .absent then [] else '.' :: directive.max.write

def Directive.write (directive : Directive) : List Char :=
  directive.flags.write ++ (directive.min.write ++ (directive.writePrecision ++
    (directive.cflags.write ++ [directive.conversion])))

def Item.write : Item → List Char
  | .literal c => [c]
  | .directive written => '%' :: written.write
  | .unended written => '%' :: written.write

/-- The letters of `DP_S_CONV`, without `w`. -/
def conversions : List Char :=
  ['d', 'i', 'o', 'u', 'X', 'x', 'f', 'E', 'e', 'G', 'g', 'c', 's', 'p', 'n', '%']

/-- A width of 0 would be read as a flag. -/
structure Directive.Writable (directive : Directive) : Prop where
  conversion : directive.conversion ∈ conversions
  up : directive.flags.up = false
  unsigned : directive.flags.unsigned = false
  width : directive.min ≠ .number 0

def Item.Writable : Item → Prop
  | .literal c => c ≠ '%' ∧ c ≠ '\x00'
  | .directive written => written.Writable
  | .unended _ => False

section Reading

variable {c : Char} {rest : List Char} {directive : Directive}

/-- The letters that may follow a precision, a width, and the flags. -/
def afterPrecision : List Char := 'h' :: 'l' :: 'L' :: conversions

def afterWidth : List Char := '.' :: afterPrecision

def afterFlags : List Char := '*' :: afterWidth

theorem afterFlags_stops (among : c ∈ afterFlags) (flags : Flags) : setFlag flags c = none := by
  unfold setFlag
  split
  all_goals first
    | rfl
    | exact absurd among (by decide)

theorem digit_stops (digit : c.isDigit = true) (nonzero : c ≠ '0') (flags : Flags) :
    setFlag flags c = none := by
  unfold setFlag
  split
  all_goals first
    | rfl
    | exact absurd digit (by decide)
    | exact absurd rfl nonzero

theorem afterWidth_plain (among : c ∈ afterWidth) : c.isDigit = false ∧ c ≠ '*' := by
  have all : afterWidth.all (fun c => !c.isDigit && c != '*') = true := by decide
  have plain := List.all_eq_true.mp all c among
  rwa [Bool.and_eq_true, Bool.not_eq_true', bne_iff_ne] at plain

theorem readFlags_write {flags : Flags} (up : flags.up = false) (unsigned : flags.unsigned = false)
    (stops : ∀ more, setFlag more c = none) :
    readFlags {} (flags.write ++ c :: rest) = (flags, c :: rest) := by
  have ends (more : Flags) : readFlags more (c :: rest) = (more, c :: rest) := by
    rw [readFlags, stops more]
  obtain ⟨minus, plus, space, num, zero, _, _⟩ := flags
  simp only at up unsigned
  subst up unsigned
  cases minus <;> cases plus <;> cases space <;> cases num <;> cases zero
  all_goals exact ends _

theorem readNumber_digits (number : Nat) (digits : List Char)
    (all : ∀ c ∈ digits, c.isDigit = true) (stops : startsNumber rest = false) :
    readNumber number (digits ++ rest) =
      (digits.foldl (fun value c => 10 * value + digitValue c) number, rest) := by
  induction digits generalizing number with
  | nil => exact readNumber_absent number stops
  | cons c digits ih =>
      have digit : c.isDigit = true := all c List.mem_cons_self
      have value : digitValue c = c.toNat - '0'.toNat := if_pos digit
      rw [List.cons_append, readNumber, if_pos digit, List.foldl_cons, value]
      exact ih _ fun d among => all d (List.mem_cons_of_mem c among)

theorem numeral_digits (value : Nat) : ∀ c ∈ numeral false 10 value, c.isDigit = true := by
  intro c among
  unfold numeral at among
  rw [List.mem_reverse, List.mem_map] at among
  obtain ⟨digit, within, rfl⟩ := among
  have small : digit < 10 := by
    split at within
    · simp_all
    · exact Nat.digits_lt_base (by decide) within
  interval_cases digit <;> rfl

/-- A number other than 0 does not begin with a 0. -/
theorem numeral_head {value : Nat} (positive : value ≠ 0) :
    ∃ c digits, numeral false 10 value = c :: digits ∧ c ≠ '0' := by
  have some_ : Nat.digits 10 value ≠ [] := Nat.digits_ne_nil_iff_ne_zero.mpr positive
  have highest := Nat.getLast_digit_ne_zero 10 positive
  have small := Nat.digits_lt_base (by decide) (List.getLast_mem some_)
  unfold numeral
  rw [if_neg positive, ← List.dropLast_append_getLast some_, List.map_append, List.reverse_append]
  refine ⟨_, _, rfl, ?_⟩
  generalize (Nat.digits 10 value).getLast some_ = digit at *
  interval_cases digit <;> simp_all [digitChar]

theorem readAmount_write (amount : Amount) (among : c ∈ afterWidth) :
    readAmount (amount.write ++ c :: rest) = (amount, c :: rest) := by
  obtain ⟨digit, star⟩ := afterWidth_plain among
  have other : (c :: rest).head? ≠ some '*' := by simpa using star
  have stops : startsNumber (c :: rest) = false := digit
  cases amount with
  | absent =>
      rw [Amount.write, List.nil_append, readAmount_other (readNumber_absent 0 stops) other, stops]
      rfl
  | argument => exact readAmount_star rfl
  | number value =>
      have digits := numeral_digits value
      have number : readNumber 0 (numeral false 10 value ++ c :: rest) = (value, c :: rest) :=
        (readNumber_digits 0 _ digits stops).trans
          (congrArg (·, c :: rest) (readDigits_numeral (by decide) (by decide)))
      have starts : startsNumber (numeral false 10 value ++ c :: rest) = true := by
        have length := List.length_pos_iff.mp (numeral_positive false 10 value)
        cases written : numeral false 10 value with
        | nil => exact absurd written length
        | cons d more =>
            rw [written] at digits
            exact digits d List.mem_cons_self
      rw [Amount.write, readAmount_other number other, starts]
      rfl

/-! ### Directives and formats -/

theorem readPrecision_write (directive : Directive) (among : c ∈ afterPrecision) :
    readPrecision (directive.writePrecision ++ c :: rest) = (directive.max, c :: rest) := by
  unfold Directive.writePrecision
  by_cases absent : directive.max = .absent
  · have other : c ≠ '.' := by
      rintro rfl
      exact absurd among (by decide)
    rw [if_pos absent, absent, List.nil_append]
    unfold readPrecision
    split
    · next same => exact absurd (List.cons.inj same).1 other
    · rfl
  · rw [if_neg absent]
    exact readAmount_write directive.max (List.mem_cons_of_mem _ among)

theorem readSize_write (cflags : Conversion) (among : c ∈ conversions) :
    readSize (cflags.write ++ c :: rest) = (cflags, c :: rest) := by
  cases cflags with
  | none =>
      unfold readSize
      split
      · next same => exact absurd ((List.cons.inj same).1 ▸ among) (by decide)
      · next same => exact absurd ((List.cons.inj same).1 ▸ among) (by decide)
      · next same => exact absurd ((List.cons.inj same).1 ▸ among) (by decide)
      · rfl
  | short => rfl
  | long => rfl
  | ldouble => rfl

theorem readDirective_write (writable : directive.Writable) :
    readDirective (directive.write ++ rest) = some (directive, rest) := by
  have conversion := writable.conversion
  -- the first letters of what is behind the precision, the width and the flags
  obtain ⟨third, sizes, thirdSame, thirdAmong⟩ : ∃ c text, directive.cflags.write ++
      (directive.conversion :: rest) = c :: text ∧ c ∈ afterPrecision := by
    cases directive.cflags with
    | none => exact ⟨_, _, rfl, by simp [afterPrecision, conversion]⟩
    | short => exact ⟨_, _, rfl, by decide⟩
    | long => exact ⟨_, _, rfl, by decide⟩
    | ldouble => exact ⟨_, _, rfl, by decide⟩
  obtain ⟨second, precisions, secondSame, secondAmong⟩ : ∃ c text, directive.writePrecision ++
      third :: sizes = c :: text ∧ c ∈ afterWidth := by
    unfold Directive.writePrecision
    by_cases absent : directive.max = .absent
    · rw [if_pos absent]
      exact ⟨_, _, rfl, List.mem_cons_of_mem _ thirdAmong⟩
    · rw [if_neg absent]
      exact ⟨_, _, rfl, List.mem_cons_self⟩
  obtain ⟨first, widths, firstSame, stops⟩ : ∃ c text, directive.min.write ++
      second :: precisions = c :: text ∧ ∀ flags, setFlag flags c = none := by
    cases min : directive.min with
    | absent => exact ⟨_, _, rfl, afterFlags_stops (List.mem_cons_of_mem _ secondAmong)⟩
    | argument => exact ⟨_, _, rfl, afterFlags_stops List.mem_cons_self⟩
    | number value =>
        have positive : value ≠ 0 := fun zero => writable.width (by rw [min, zero])
        obtain ⟨d, digits, written, nonzero⟩ := numeral_head positive
        have digit := numeral_digits value d (written ▸ List.mem_cons_self)
        exact ⟨d, digits ++ second :: precisions, by rw [Amount.write, written, List.cons_append],
          digit_stops digit nonzero⟩
  have text : directive.write ++ rest = directive.flags.write ++ first :: widths := by
    rw [← firstSame, ← secondSame, ← thirdSame, Directive.write]
    simp only [List.append_assoc, List.singleton_append]
  have one : readFlags {} (directive.write ++ rest) =
      (directive.flags, directive.min.write ++ second :: precisions) := by
    rw [text, firstSame]
    exact readFlags_write writable.up writable.unsigned stops
  have two : readAmount (directive.min.write ++ second :: precisions) =
      (directive.min, directive.writePrecision ++ third :: sizes) := by
    rw [secondSame]
    exact readAmount_write directive.min secondAmong
  have three : readPrecision (directive.writePrecision ++ third :: sizes) =
      (directive.max, directive.cflags.write ++ directive.conversion :: rest) := by
    rw [thirdSame]
    exact readPrecision_write directive thirdAmong
  unfold readDirective
  simp only [one, two, three, readSize_write directive.cflags conversion]

/-- A list of items can be written as a format. -/
theorem items_write {written : List Item} (writable : ∀ item ∈ written, item.Writable) :
    items (written.flatMap Item.write) = written := by
  induction written with
  | nil => rw [List.flatMap_nil, items]
  | cons item written ih =>
      have first := writable item List.mem_cons_self
      have others := ih fun other among => writable other (List.mem_cons_of_mem item among)
      rw [List.flatMap_cons]
      cases item with
      | literal c =>
          rw [Item.write, List.singleton_append, items, if_neg first.1, others]
      | unended directive => exact first.elim
      | directive directive =>
          have other : directive.conversion ≠ 'w' := by
            intro w
            exact absurd (w ▸ first.conversion) (by decide)
          have read := @readDirective_write (written.flatMap Item.write) directive first
          rw [Item.write, List.cons_append, items, if_pos rfl]
          split
          · next none_ => cases read.symm.trans none_
          · next found rest some_ =>
              cases Option.some.inj (read.symm.trans some_)
              rw [if_neg other, others]

theorem Letters.append {first second : List Char} (one : Letters first) (two : Letters second) :
    Letters (first ++ second) :=
  fun c among => (List.mem_append.mp among).elim (one c) (two c)

theorem Flags.write_letters (flags : Flags) : Letters flags.write := by
  have letter (set : Bool) {c : Char} (letter : c ≠ '\x00') :
      Letters (if set then [c] else []) := by
    cases set with
    | false => exact fun d among => absurd among List.not_mem_nil
    | true =>
        intro d among
        rw [List.mem_singleton.mp among]
        exact letter
  exact ((((letter flags.minus (by decide)).append (letter flags.plus (by decide))).append
    (letter flags.space (by decide))).append (letter flags.num (by decide))).append
      (letter flags.zero (by decide))

theorem Amount.write_letters (amount : Amount) : Letters amount.write := by
  cases amount with
  | absent => exact fun c among => absurd among List.not_mem_nil
  | argument =>
      intro c among
      rw [List.mem_singleton.mp among]
      decide
  | number value =>
      intro c among nul
      have digit := numeral_digits value c among
      rw [nul] at digit
      exact absurd digit (by decide)

theorem Directive.write_letters (writable : directive.Writable) : Letters directive.write := by
  have precision : Letters directive.writePrecision := by
    unfold Directive.writePrecision
    split
    · exact fun c among => absurd among List.not_mem_nil
    · rintro c (_ | ⟨_, among⟩)
      · decide
      · exact directive.max.write_letters c among
  have size : Letters directive.cflags.write := by
    apply letters_of_all
    cases directive.cflags <;> rfl
  have conversion : Letters [directive.conversion] := by
    intro c among nul
    rw [List.mem_singleton.mp among] at nul
    exact absurd (nul ▸ writable.conversion) (by decide)
  exact directive.flags.write_letters.append (directive.min.write_letters.append
    (precision.append (size.append conversion)))

end Reading

end AC97Kernel.Printing
