/-
What a format means.

A format is a sequence of characters and directives.  The loop of `dopr` reads it letter by
letter; here it is read as a whole and then printed item by item.
-/

import AC97Kernel.Printing.Text

set_option autoImplicit false

namespace AC97Kernel.Printing

/-- A width or a precision. -/
inductive Amount where
  | absent
  | number (value : Nat)
  | argument
  deriving DecidableEq

structure Directive where
  flags : Flags
  min : Amount
  max : Amount
  cflags : Conversion
  conversion : Char
  deriving DecidableEq

inductive Item where
  | literal (c : Char)
  | directive (directive : Directive)
  /-- A `%w` that ends the format. -/
  | unended (directive : Directive)
  deriving DecidableEq

/-! ### Reading -/

def setFlag (flags : Flags) : Char → Option Flags
  | '-' => some { flags with minus := true }
  | '+' => some { flags with plus := true }
  | ' ' => some { flags with space := true }
  | '#' => some { flags with num := true }
  | '0' => some { flags with zero := true }
  | _ => none

def readFlags (flags : Flags) : List Char → Flags × List Char
  | [] => (flags, [])
  | c :: text =>
      match setFlag flags c with
      | some more => readFlags more text
      | none => (flags, c :: text)

def readNumber (number : Nat) : List Char → Nat × List Char
  | [] => (number, [])
  | c :: text =>
      if c.isDigit then readNumber (10 * number + (c.toNat - '0'.toNat)) text
      else (number, c :: text)

def startsNumber : List Char → Bool
  | [] => false
  | c :: _ => c.isDigit

/-- Digits, or a star, which overrides digits in front of it. -/
def readAmount (text : List Char) : Amount × List Char :=
  match readNumber 0 text with
  | (_, '*' :: behind) => (.argument, behind)
  | (number, behind) => (if startsNumber text then .number number else .absent, behind)

theorem readAmount_star {number : Nat} {text behind : List Char}
    (read : readNumber 0 text = (number, '*' :: behind)) :
    readAmount text = (.argument, behind) := by
  rw [readAmount, read]
  rfl

theorem readAmount_other {number : Nat} {text behind : List Char}
    (read : readNumber 0 text = (number, behind)) (other : behind.head? ≠ some '*') :
    readAmount text = (if startsNumber text then .number number else .absent, behind) := by
  rw [readAmount, read]
  split
  · next same =>
      cases same
      exact absurd rfl other
  · next same =>
      cases same
      rfl

def readPrecision : List Char → Amount × List Char
  | '.' :: text => readAmount text
  | text => (.absent, text)

def readSize : List Char → Conversion × List Char
  | 'h' :: text => (.short, text)
  | 'l' :: text => (.long, text)
  | 'L' :: text => (.ldouble, text)
  | text => (.none, text)

/-- The directive behind a `%`, unless the format ends in it. -/
def readDirective (text : List Char) : Option (Directive × List Char) :=
  let (flags, first) := readFlags {} text
  let (min, second) := readAmount first
  let (max, third) := readPrecision second
  let (cflags, fourth) := readSize third
  match fourth with
  | [] => none
  | c :: rest => some (⟨flags, min, max, cflags, c⟩, rest)

/-! ### What is left -/

section Rest

variable {flags : Flags} {number : Nat}

theorem readFlags_suffix (text : List Char) : (readFlags flags text).2 <:+ text := by
  induction text generalizing flags with
  | nil => exact List.suffix_rfl
  | cons c text ih =>
      rw [readFlags]
      split
      · exact ih.trans (List.suffix_cons c text)
      · exact List.suffix_rfl

theorem readNumber_suffix (text : List Char) : (readNumber number text).2 <:+ text := by
  induction text generalizing number with
  | nil => exact List.suffix_rfl
  | cons c text ih =>
      rw [readNumber]
      split
      · exact ih.trans (List.suffix_cons c text)
      · exact List.suffix_rfl

theorem readAmount_suffix (text : List Char) : (readAmount text).2 <:+ text := by
  have suffix := @readNumber_suffix 0 text
  unfold readAmount
  split
  · next rest same =>
      rw [same] at suffix
      exact (List.suffix_cons '*' rest).trans suffix
  · next same =>
      rw [same] at suffix
      exact suffix

theorem readPrecision_suffix (text : List Char) : (readPrecision text).2 <:+ text := by
  unfold readPrecision
  split
  · exact (readAmount_suffix _).trans (List.suffix_cons _ _)
  · exact List.suffix_rfl

theorem readSize_suffix (text : List Char) : (readSize text).2 <:+ text := by
  unfold readSize
  split
  · exact List.suffix_cons _ _
  · exact List.suffix_cons _ _
  · exact List.suffix_cons _ _
  · exact List.suffix_rfl

theorem readDirective_suffix {text rest : List Char} {directive : Directive}
    (read : readDirective text = some (directive, rest)) :
    directive.conversion :: rest <:+ text := by
  unfold readDirective at read
  have size := readSize_suffix (readPrecision (readAmount (readFlags {} text).2).2).2
  simp only at read
  split at read
  · cases read
  · next c behind same =>
      rw [same] at size
      cases read
      exact size.trans ((readPrecision_suffix _).trans ((readAmount_suffix _).trans
        (readFlags_suffix _)))

theorem readDirective_length {text rest : List Char} {directive : Directive}
    (read : readDirective text = some (directive, rest)) : rest.length < text.length :=
  (readDirective_suffix read).length_le

end Rest

/-- The format without its NUL. -/
def items : List Char → List Item
  | [] => []
  | c :: text =>
      if c = '%' then
        match _ : readDirective text with
        | none => []
        | some (directive, rest) =>
            if directive.conversion = 'w' then
              match rest with
              | [] => [.unended directive]
              | _ :: rest => .directive directive :: items rest
            else .directive directive :: items rest
      else .literal c :: items text
termination_by text => text.length
decreasing_by
  · have shorter := readDirective_length ‹_›
    simp only [List.length_cons] at *
    omega
  · have shorter := readDirective_length ‹_›
    simp only [List.length_cons]
    omega
  · exact Nat.lt_succ_self _

/-! ### Printing -/

/-- What an item puts, the words it has taken up to here, and what it stores. -/
structure Output where
  text : List Char
  arg : Nat
  stores : List Stored
  deriving DecidableEq

section Printing

variable (environment : Environment) (maxlen : Nat)

/-- A value with the index of the next word. -/
def Amount.value (default : Int) (arg : Nat) : Amount → Int × Nat
  | .absent => (default, arg)
  | .number value => (value, arg)
  | .argument => ((environment.args arg).toInt, arg + 1)

/-- A conversion, with the length of what was put before it. -/
def Directive.converted (directive : Directive) (min max : Int) (arg currlen : Nat) : Output :=
  let word := environment.args arg
  let number (base : Nat) (flags : Flags) : Output := ⟨intText word base min max flags, arg + 1, []⟩
  let floatWords := if directive.cflags = .ldouble then 3 else 2
  match directive.conversion with
  | 'd' | 'i' => number 10 directive.flags
  | 'o' => number 8 { directive.flags with unsigned := true }
  | 'u' => number 10 { directive.flags with unsigned := true }
  | 'X' => number 16 { directive.flags with up := true, unsigned := true }
  | 'x' => number 16 { directive.flags with unsigned := true }
  | 'f' =>
      ⟨environment.fmtfp directive.cflags arg directive.flags min max, arg + floatWords, []⟩
  | 'E' | 'e' | 'G' | 'g' => ⟨[], arg + floatWords, []⟩
  | 'c' => ⟨[Char.ofNat (word.toNat % 256)], arg + 1, []⟩
  | 's' =>
      let text := if word = 0 then "<NULL>".toList else environment.string word
      ⟨strText text directive.flags min (if max < 0 then maxlen else max), arg + 1, []⟩
  | 'p' => number 16 directive.flags
  | 'n' => ⟨[], arg + 1, [⟨word, directive.cflags, currlen⟩]⟩
  | '%' => ⟨['%'], arg, []⟩
  | _ => ⟨[], arg, []⟩

/-- The width takes its word before the precision, and both before the conversion. -/
def Directive.output (directive : Directive) (arg currlen : Nat) : Output :=
  let (min, arg) := directive.min.value environment 0 arg
  let (max, arg) := directive.max.value environment (-1) arg
  directive.converted environment maxlen min max arg currlen

/-- Item after item, until `maxlen` is reached between two of them. -/
def print : List Item → Nat → List Char → List Stored → Outcome
  | [], _, buffer, stores => .printed buffer stores
  | item :: items, arg, buffer, stores =>
      if maxlen ≤ buffer.length then .printed buffer stores
      else
        match item with
        | .literal c => print items arg (buffer ++ [c]) stores
        | .directive directive =>
            let output := directive.output environment maxlen arg buffer.length
            print items output.arg (buffer ++ output.text) (stores ++ output.stores)
        | .unended _ => .beyond

end Printing

end AC97Kernel.Printing
