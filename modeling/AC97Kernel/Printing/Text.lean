/-
What the conversions print.

A number is its numeral with a sign, zeros and spaces around it.  A string is cut behind
its padding.
-/

import Mathlib.Data.Nat.Digits.Lemmas
import AC97Kernel.Printing.Model

set_option autoImplicit false

namespace AC97Kernel.Printing

/-- The digits of a number, the highest one first; 0 has a digit. -/
def numeral (caps : Bool) (base value : Nat) : List Char :=
  ((if value = 0 then [0] else Nat.digits base value).map (digitChar caps)).reverse

/-- A text in a field of some width, on its left or on its right. -/
def padded (left : Bool) (width : Int) (text : List Char) : List Char :=
  let missing := List.replicate (width - text.length).toNat ' '
  if left then text ++ missing else missing ++ text

def strText (value : List Char) (flags : Flags) (min max : Int) : List Char :=
  (padded flags.minus min value).take max.toNat

/-- Zeros in front of a numeral. -/
def zeros (digits : List Char) (width : Int) : List Char :=
  List.replicate (width - digits.length).toNat '0' ++ digits

/-- With `DP_F_ZERO` the zeros fill the field, unless the precision asks for some. -/
def intText (value : Word) (base : Nat) (min max : Int) (flags : Flags) : List Char :=
  let digits := numeral flags.up base (uvalue flags value)
  let sign := signvalue flags value
  if flags.zero then
    let room := min - (if max ≥ digits.length then max else digits.length) - sign.length
    sign ++ zeros digits (if max ≥ digits.length + room then max else digits.length + room)
  else padded flags.minus min (sign ++ zeros digits max)

/-! ### Loops that put -/

namespace Sink

variable {sink : Sink} {c : Char} {first second text : List Char} {count : Nat} {max cnt : Int}

theorem puts_eq : sink.puts text = ⟨sink.currlen + text.length, sink.buffer ++ text⟩ := by
  induction text generalizing sink with
  | nil => simp [puts]
  | cons c text ih =>
      rw [puts, ih, dopr_outch]
      simp [Nat.add_assoc, Nat.add_comm 1]

theorem puts_puts : (sink.puts first).puts second = sink.puts (first ++ second) := by
  simp only [puts_eq, List.length_append, Nat.add_assoc, List.append_assoc]

theorem dopr_outch_eq : sink.dopr_outch c = sink.puts [c] := rfl

theorem repeated_eq : sink.repeated c count = sink.puts (List.replicate count c) := by
  induction count generalizing sink with
  | zero => rfl
  | succ count ih =>
      rw [repeated, ih, dopr_outch_eq, puts_puts]
      rfl

/-- The loop stops where the text ends or where `cnt` reaches `max`. -/
theorem value_eq : sink.value max text cnt =
    (cnt + (text.take (max - cnt).toNat).length, sink.puts (text.take (max - cnt).toNat)) := by
  induction text generalizing sink cnt with
  | nil => simp [value, puts]
  | cons c text ih =>
      by_cases more : cnt < max
      · obtain ⟨left, room⟩ : ∃ left, (max - cnt).toNat = left + 1 := ⟨(max - cnt).toNat - 1, by omega⟩
        have fewer : (max - (cnt + 1)).toNat = left := by omega
        rw [value, if_pos more, ih, room, fewer, dopr_outch_eq, puts_puts, List.take_succ_cons]
        simp only [List.length_cons, List.singleton_append, Nat.cast_add, Nat.cast_one]
        rw [Int.add_assoc, Int.add_comm 1]
      · have room : (max - cnt).toNat = 0 := by omega
        simp [value, more, room, puts]

theorem spaces_eq : sink.spaces max count cnt = sink.value max (List.replicate count ' ') cnt := by
  induction count generalizing sink cnt with
  | zero => rfl
  | succ count ih =>
      rw [spaces, List.replicate_succ, value, ih]

end Sink

section Strings

variable {sink : Sink} {value : List Char} {flags : Flags} {min max : Int}

theorem Sink.value_full {text : List Char} {cnt : Int} (full : ¬ cnt < max) :
    sink.value max text cnt = (cnt, sink) := by
  cases text with
  | nil => rfl
  | cons c text => rw [Sink.value, if_neg full]

/-- Two loops with one counter are one loop. -/
theorem Sink.value_value (first second : List Char) (cnt : Int) :
    (sink.value max first cnt).2.value max second (sink.value max first cnt).1 =
      sink.value max (first ++ second) cnt := by
  induction first generalizing sink cnt with
  | nil => rfl
  | cons c first ih =>
      by_cases more : cnt < max
      · rw [Sink.value, if_pos more, ih, List.cons_append, Sink.value, if_pos more]
      · rw [Sink.value_full more, Sink.value_full more, Sink.value_full more]

theorem fmtstr_eq : fmtstr sink value flags min max = sink.puts (strText value flags min max) := by
  have once (text : List Char) : (sink.value max text 0).2 = sink.puts (text.take max.toNat) := by
    rw [Sink.value_eq, Int.sub_zero]
  have least : (if min - value.length < 0 then 0 else min - value.length : Int) =
      ((min - value.length).toNat : Int) := by omega
  unfold fmtstr strText padded
  cases minus : flags.minus
  all_goals
    simp only [Bool.false_eq_true, if_false, if_true, least, Int.toNat_natCast, Int.neg_neg,
      Sink.spaces_eq, Sink.value_value]
    rw [once]
    congr 2
    simp

end Strings

/-! ### Numbers -/

section Numbers

variable {sink : Sink} {value : Word} {base : Nat} {min max : Int} {flags : Flags} {caps : Bool}

theorem convert_eq {room number : Nat} (wide : 2 ≤ base) (short : number < base ^ (room + 1)) :
    convert caps base (room + 1) number =
      (if number = 0 then [0] else Nat.digits base number).map (digitChar caps) := by
  induction room generalizing number with
  | zero =>
      rw [Nat.pow_one] at short
      rw [convert, Nat.mod_eq_of_lt short, Nat.div_eq_of_lt short, if_neg (not_not.mpr rfl)]
      by_cases none_ : number = 0
      · rw [if_pos none_, none_]
        rfl
      · rw [if_neg none_, Nat.digits_of_lt base number none_ short]
        rfl
  | succ room ih =>
      rw [convert]
      by_cases none_ : number = 0
      · rw [if_pos none_, none_, Nat.zero_div, Nat.zero_mod, if_neg (not_not.mpr rfl)]
        rfl
      · rw [if_neg none_, Nat.digits_of_two_le_of_pos wide (Nat.pos_of_ne_zero none_), List.map_cons]
        by_cases last : number / base = 0
        · rw [last, if_neg (not_not.mpr rfl), Nat.digits_zero]
          rfl
        · have fewer : number / base < base ^ (room + 1) := by
            rw [Nat.div_lt_iff_lt_mul (by omega), ← Nat.pow_succ]
            exact short
          rw [if_pos last, ih fewer, if_neg last]

theorem numeral_positive (caps : Bool) (base number : Nat) :
    0 < (numeral caps base number).length := by
  unfold numeral
  rw [List.length_reverse, List.length_map]
  by_cases none_ : number = 0
  · rw [if_pos none_]
    decide
  · rw [if_neg none_]
    exact List.length_pos_iff.mpr (Nat.digits_ne_nil_iff_ne_zero.mpr none_)

/-- No numeral of a word fills the buffer. -/
theorem numeral_length {number : Nat} (wide : 8 ≤ base) (small : number < 2 ^ 32) :
    (numeral caps base number).length ≤ 11 := by
  unfold numeral
  rw [List.length_reverse, List.length_map]
  by_cases none_ : number = 0
  · rw [if_pos none_]
    decide
  · rw [if_neg none_, Nat.digits_length_le_iff (by omega)]
    calc number < 2 ^ 32 := small
      _ ≤ 8 ^ 11 := by decide
      _ ≤ base ^ 11 := Nat.pow_le_pow_left wide 11

theorem uvalue_lt (flags : Flags) (value : Word) : uvalue flags value < 2 ^ 32 := by
  unfold uvalue
  split
  · exact (-value).isLt
  · exact value.isLt

theorem convert_uvalue (wide : 8 ≤ base) : convert flags.up base 20 (uvalue flags value) =
    (numeral flags.up base (uvalue flags value)).reverse := by
  have short : uvalue flags value < base ^ (19 + 1) :=
    calc uvalue flags value < 2 ^ 32 := uvalue_lt flags value
      _ ≤ 8 ^ 20 := by decide
      _ ≤ base ^ 20 := Nat.pow_le_pow_left wide 20
  rw [convert_eq (by omega) short]
  exact (List.reverse_reverse _).symm

theorem zeros_length (digits : List Char) (width : Int) : ((zeros digits width).length : Int) =
    if width ≥ digits.length then width else digits.length := by
  unfold zeros
  rw [List.length_append, List.length_replicate]
  split <;> omega

theorem fmtint_eq (wide : 8 ≤ base) :
    fmtint sink value base min max flags = sink.puts (intText value base min max flags) := by
  have some_ := numeral_positive flags.up base (uvalue flags value)
  have few := @numeral_length base flags.up _ wide (uvalue_lt flags value)
  unfold fmtint intText
  rw [convert_uvalue wide]
  generalize numeral flags.up base (uvalue flags value) = digits at *
  generalize signvalue flags value = sign
  have whole : ¬ digits.length = 20 := by omega
  have clipped : (if max < 0 then 0 else max) = (max.toNat : Int) := by omega
  have precise : (if (max.toNat : Int) - (digits.length : Int) < 0 then 0
      else (max.toNat : Int) - digits.length) = ((max.toNat - digits.length : Nat) : Int) := by omega
  have greater : (if (max.toNat : Int) ≥ digits.length then (max.toNat : Int) else digits.length) =
      ((digits.length + (max.toNat - digits.length) : Nat) : Int) := by omega
  have nonnegative (width : Int) : (if width < 0 then 0 else width) = (width.toNat : Int) := by omega
  have same : (if max ≥ (digits.length : Int) then max else digits.length) =
      ((digits.length + (max.toNat - digits.length) : Nat) : Int) := by omega
  simp only [List.length_reverse, if_neg whole, List.reverse_reverse, Sink.repeated_eq,
    Sink.puts_puts, clipped, precise, greater, nonnegative, same]
  generalize zeroes : max.toNat - digits.length = zpadlen
  generalize room : min - ((digits.length + zpadlen : Nat) : Int) - sign.length = spadlen
  cases zero : flags.zero with
  | true =>
      -- the spaces become zeros
      have filled : (if (zpadlen : Int) ≥ (spadlen.toNat : Int) then (zpadlen : Int)
          else (spadlen.toNat : Int)).toNat =
          ((if max ≥ digits.length + spadlen then max else digits.length + spadlen) -
            digits.length).toNat := by omega
      simp only [if_true, neg_zero, ite_self, Int.toNat_zero, List.replicate_zero, List.nil_append,
        List.append_nil, List.append_assoc, filled, zeros]
  | false =>
      have zero_ : zeros digits max = List.replicate zpadlen '0' ++ digits := by
        unfold zeros
        rw [← zeroes]
        congr 2
        omega
      have missing : (min - ((sign ++ (List.replicate zpadlen '0' ++ digits)).length : Int)).toNat =
          spadlen.toNat := by
        rw [← zero_, List.length_append, Nat.cast_add, zeros_length, same, zeroes, ← room]
        omega
      cases minus : flags.minus
      all_goals
        simp only [Bool.false_eq_true, if_false, if_true, padded, zero_, missing, Int.neg_neg,
          Int.toNat_natCast, Int.toNat_neg_natCast, List.replicate_zero, List.nil_append,
          List.append_nil, List.append_assoc]

/-- A field has the width that was asked for, if no precision keeps the zeros from filling it. -/
theorem intText_length (fills : flags.zero = false ∨
    max ≤ (numeral flags.up base (uvalue flags value)).length) :
    ((intText value base min max flags).length : Int) =
      (let digits : Int := (numeral flags.up base (uvalue flags value)).length
       let number := (signvalue flags value).length + (if max ≥ digits then max else digits)
       if min ≥ number then min else number) := by
  unfold intText
  generalize numeral flags.up base (uvalue flags value) = digits at *
  generalize signvalue flags value = sign
  cases zero : flags.zero with
  | true =>
      have narrow : max ≤ digits.length := fills.resolve_left (by simp [zero])
      simp only [if_true, List.length_append, Nat.cast_add, zeros_length]
      omega
  | false =>
      have whole := zeros_length digits max
      have length : ((sign ++ zeros digits max).length : Int) =
          sign.length + (if max ≥ digits.length then max else digits.length) := by
        rw [List.length_append, Nat.cast_add, whole]
      cases minus : flags.minus
      all_goals
        simp only [padded, Bool.false_eq_true, if_false, if_true,
          @List.length_append _ _ (List.replicate _ _), @List.length_append _ (List.replicate _ _),
          List.length_replicate, Nat.cast_add, length]
        omega

end Numbers

/-! ### Numbers can be read again -/

/-- The value of a digit of either case. -/
def digitValue (c : Char) : Nat :=
  if c.isDigit then c.toNat - '0'.toNat
  else if 'a'.toNat ≤ c.toNat then c.toNat - 'a'.toNat + 10
  else c.toNat - 'A'.toNat + 10

def readDigits (base : Nat) (text : List Char) : Nat :=
  text.foldl (fun value c => base * value + digitValue c) 0

def readSigned (base : Nat) : List Char → Int
  | '-' :: digits => -(readDigits base digits : Int)
  | '+' :: digits => readDigits base digits
  | digits => readDigits base digits

/-- A number in a field: spaces, a sign, digits, and spaces. -/
def readInt (base : Nat) (text : List Char) : Int :=
  readSigned base ((text.dropWhile (· = ' ')).takeWhile (· ≠ ' '))

section Reading

variable {value : Word} {base : Nat} {min max : Int} {flags : Flags} {caps : Bool}

theorem digitValue_digitChar {digit : Nat} (small : digit < 16) :
    digitValue (digitChar caps digit) = digit := by
  interval_cases digit <;> cases caps <;> rfl

/-- No digit is a space or a sign. -/
theorem digitChar_plain {digit : Nat} (small : digit < 16) : digitChar caps digit ≠ ' ' ∧
    digitChar caps digit ≠ '-' ∧ digitChar caps digit ≠ '+' := by
  interval_cases digit <;> cases caps <;> decide

theorem readDigits_map {digits : List Nat} (small : ∀ digit ∈ digits, digit < 16) :
    readDigits base (digits.map (digitChar caps)).reverse = Nat.ofDigits base digits := by
  induction digits with
  | nil => rfl
  | cons digit digits ih =>
      rw [List.map_cons, List.reverse_cons, readDigits, List.foldl_append, List.foldl_cons,
        List.foldl_nil, digitValue_digitChar (small digit List.mem_cons_self), Nat.ofDigits_cons,
        ← ih fun digit among => small digit (List.mem_cons_of_mem _ among), readDigits, Nat.add_comm]

theorem readDigits_numeral {number : Nat} (wide : 2 ≤ base) (narrow : base ≤ 16) :
    readDigits base (numeral caps base number) = number := by
  unfold numeral
  by_cases none_ : number = 0
  · rw [if_pos none_, readDigits_map (by simp)]
    simp [none_]
  · rw [if_neg none_, readDigits_map, Nat.ofDigits_digits]
    exact fun digit among => Nat.lt_of_lt_of_le (Nat.digits_lt_base (by omega) among) narrow

theorem readDigits_zeros (count : Nat) (digits : List Char) :
    readDigits base (List.replicate count '0' ++ digits) = readDigits base digits := by
  induction count with
  | zero => rfl
  | succ count ih =>
      rw [List.replicate_succ, List.cons_append, readDigits, List.foldl_cons]
      change List.foldl _ (base * 0 + 0) _ = _
      rw [Nat.mul_zero]
      exact ih

theorem intText_parts : ∃ before nulls after, intText value base min max flags =
    List.replicate before ' ' ++ (signvalue flags value ++
      ((List.replicate nulls '0' ++ numeral flags.up base (uvalue flags value)) ++
        List.replicate after ' ')) := by
  unfold intText zeros
  cases flags.zero with
  | true =>
      refine ⟨0, ?_, 0, ?same⟩
      case same =>
        simp only [if_true, List.replicate_zero, List.nil_append, List.append_nil]
        rfl
  | false =>
      cases flags.minus with
      | true =>
          refine ⟨0, ?_, ?_, ?same⟩
          case same =>
            simp only [padded, Bool.false_eq_true, if_false, if_true, List.replicate_zero,
              List.nil_append, List.append_assoc]
            rfl
      | false =>
          refine ⟨?_, ?_, 0, ?same⟩
          case same =>
            simp only [padded, Bool.false_eq_true, if_false, List.replicate_zero, List.append_nil]
            rfl

/-- What a field has between its spaces. -/
theorem readInt_field {sign body : List Char} (before after : Nat)
    (signs : sign = [] ∨ sign = ['-'] ∨ sign = ['+'] ∨ sign = [' ']) (some_ : body ≠ [])
    (plain : ∀ c ∈ body, c ≠ ' ' ∧ c ≠ '-' ∧ c ≠ '+') :
    readInt base (List.replicate before ' ' ++ (sign ++ (body ++ List.replicate after ' '))) =
      if sign = ['-'] then -(readDigits base body : Int) else readDigits base body := by
  have clean (c : Char) (among : c ∈ body) : c ≠ ' ' := (plain c among).1
  have dropped (text : List Char) : (List.replicate before ' ' ++ text).dropWhile (· = ' ') =
      text.dropWhile (· = ' ') := by
    rw [List.dropWhile_append]
    simp
  have taken (text : List Char) (clean : ∀ c ∈ text, c ≠ ' ') :
      (text ++ List.replicate after ' ').takeWhile (· ≠ ' ') = text := by
    rw [List.takeWhile_append_of_pos (by simpa using clean)]
    cases after <;> simp [List.replicate_succ]
  have stays {c : Char} {rest : List Char} (other : c ≠ ' ') :
      (c :: rest).dropWhile (· = ' ') = c :: rest := by simp [other]
  have number : readSigned base body = readDigits base body := by
    obtain ⟨c, rest, rfl⟩ := List.exists_cons_of_ne_nil some_
    obtain ⟨_, notMinus, notPlus⟩ := plain c List.mem_cons_self
    unfold readSigned
    split
    · next same => exact absurd (List.cons.inj same).1 notMinus
    · next same => exact absurd (List.cons.inj same).1 notPlus
    · rfl
  have bare : (body ++ List.replicate after ' ').dropWhile (· = ' ') =
      body ++ List.replicate after ' ' := by
    obtain ⟨c, rest, rfl⟩ := List.exists_cons_of_ne_nil some_
    exact stays (clean c List.mem_cons_self)
  have signed (c : Char) (other : c ≠ ' ') :
      (([c] ++ (body ++ List.replicate after ' ')).dropWhile (· = ' ')).takeWhile (· ≠ ' ') =
        c :: body := by
    rw [List.singleton_append, stays other, ← List.cons_append]
    apply taken
    rintro d (_ | ⟨_, among⟩)
    · exact other
    · exact clean d among
  unfold readInt
  rw [dropped]
  rcases signs with rfl | rfl | rfl | rfl
  · rw [List.nil_append, bare, taken body clean, number, if_neg (by simp)]
  · rw [signed '-' (by decide), if_pos rfl]
    rfl
  · rw [signed '+' (by decide), if_neg (by decide)]
    rfl
  · have space : ([' '] ++ (body ++ List.replicate after ' ')).dropWhile (· = ' ') =
        body ++ List.replicate after ' ' := by
      rw [List.singleton_append, List.dropWhile_cons_of_pos (by simp), bare]
    rw [space, taken body clean, number, if_neg (by decide)]

theorem signvalue_cases (flags : Flags) (value : Word) : signvalue flags value = [] ∨
    signvalue flags value = ['-'] ∨ signvalue flags value = ['+'] ∨
    signvalue flags value = [' '] := by
  unfold signvalue
  split_ifs <;> simp

theorem signvalue_minus : signvalue flags value = ['-'] ↔
    flags.unsigned = false ∧ value.toInt < 0 := by
  unfold signvalue
  split_ifs <;> simp_all

/-- Whatever the flags, the width and the precision, what is printed for a number is read as
this number. -/
theorem readInt_intText (wide : 8 ≤ base) (narrow : base ≤ 16) :
    readInt base (intText value base min max flags) =
      if flags.unsigned then (value.toNat : Int) else value.toInt := by
  obtain ⟨before, nulls, after, parts⟩ := @intText_parts value base min max flags
  have plain : ∀ c ∈ List.replicate nulls '0' ++ numeral flags.up base (uvalue flags value),
      c ≠ ' ' ∧ c ≠ '-' ∧ c ≠ '+' := by
    intro c among
    rcases List.mem_append.mp among with zero | digit
    · rw [List.eq_of_mem_replicate zero]
      decide
    · unfold numeral at digit
      rw [List.mem_reverse, List.mem_map] at digit
      obtain ⟨digit, within, rfl⟩ := digit
      apply digitChar_plain
      split at within
      · simp_all
      · exact Nat.lt_of_lt_of_le (Nat.digits_lt_base (by omega) within) narrow
  have some_ : List.replicate nulls '0' ++ numeral flags.up base (uvalue flags value) ≠ [] := by
    have length := numeral_positive flags.up base (uvalue flags value)
    exact List.append_ne_nil_of_right_ne_nil _ (List.length_pos_iff.mp length)
  rw [parts, readInt_field before after (signvalue_cases flags value) some_ plain,
    readDigits_zeros, readDigits_numeral (by omega) narrow]
  simp only [signvalue_minus]
  have negated := BitVec.toInt_eq_toNat_cond value
  have bound := value.isLt
  unfold uvalue
  cases flags.unsigned with
  | true => simp
  | false =>
      by_cases negative : value.toInt < 0
      · simp only [negative, and_self, if_true, Bool.false_eq_true, if_false, not_false_eq_true]
        rw [BitVec.toNat_neg]
        split at negated <;> omega
      · simp only [negative, and_false, if_false, Bool.false_eq_true]
        split at negated <;> omega

example : fmtint ⟨0, []⟩ (-7) 10 6 3 {} = ⟨6, "  -007".toList⟩ := by decide

end Reading

end AC97Kernel.Printing
