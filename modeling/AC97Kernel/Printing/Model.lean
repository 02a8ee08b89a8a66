/-
Formatted output, kernel/snprintf.cc.

The formatter of the programs, t0.dir/sbin/printf.c, is the same code with `putchar` for
the stream.  A format is the list of its characters with a NUL behind it; a read past the
NUL is a failure of its own.  What `fmtfp` prints is a parameter.
-/

import Mathlib.Data.BitVec
import Mathlib.Data.Int.Order.Basic

set_option autoImplicit false

namespace AC97Kernel.Printing

/-- `int`, `long` and pointers. -/
abbrev Word := BitVec 32

/-- The format read states, `DP_S_DEFAULT` to `DP_S_DONE`. -/
inductive ReadState where
  | default | flags | min | dot | max | mod | conv | done
  deriving DecidableEq

/-- `DP_F_MINUS` to `DP_F_UNSIGNED`. -/
structure Flags where
  minus : Bool := false
  plus : Bool := false
  space : Bool := false
  num : Bool := false
  zero : Bool := false
  up : Bool := false
  unsigned : Bool := false
  deriving DecidableEq

/-- `cflags`: none, `DP_C_SHORT`, `DP_C_LONG` and `DP_C_LDOUBLE`. -/
inductive Conversion where
  | none | short | long | ldouble
  deriving DecidableEq

/-- The stream with `currlen`, which counts what was put. -/
structure Sink where
  currlen : Nat
  buffer : List Char
  deriving DecidableEq

def Sink.dopr_outch (sink : Sink) (c : Char) : Sink := ⟨sink.currlen + 1, sink.buffer ++ [c]⟩

/-- What a call finds: the words of its `va_list`, the string at a pointer, and what `fmtfp`
prints for a number that starts at a word. -/
structure Environment where
  args : Nat → Word
  string : Word → List Char
  fmtfp : Conversion → Nat → Flags → Int → Int → List Char

namespace Sink

/-- The loops that put one character `count` times. -/
def repeated (sink : Sink) (c : Char) : Nat → Sink
  | 0 => sink
  | count + 1 => (sink.dopr_outch c).repeated c count

def puts (sink : Sink) : List Char → Sink
  | [] => sink
  | c :: text => (sink.dopr_outch c).puts text

/-- `while (padlen && (cnt < max))`. -/
def spaces (max : Int) : Nat → Int → Sink → Int × Sink
  | 0, cnt, sink => (cnt, sink)
  | padlen + 1, cnt, sink =>
      if cnt < max then spaces max padlen (cnt + 1) (sink.dopr_outch ' ') else (cnt, sink)

/-- `while (*value && (cnt < max))`. -/
def value (max : Int) : List Char → Int → Sink → Int × Sink
  | [], cnt, sink => (cnt, sink)
  | c :: text, cnt, sink =>
      if cnt < max then value max text (cnt + 1) (sink.dopr_outch c) else (cnt, sink)

end Sink

def fmtstr (sink : Sink) (value : List Char) (flags : Flags) (min max : Int) : Sink :=
  let strln : Int := value.length
  let least := if min - strln < 0 then 0 else min - strln
  let padlen := if flags.minus then -least else least
  let (before, padded) := sink.spaces max padlen.toNat 0
  let (cnt, printed) := padded.value max value before
  (printed.spaces max (-padlen).toNat cnt).2

/-- `"0123456789abcdef"[value]`. -/
def digitChar (caps : Bool) (value : Nat) : Char :=
  (if caps then "0123456789ABCDEF".toList else "0123456789abcdef".toList).getD value '0'

/-- The loop that fills `convert`, with the room that is left in it. -/
def convert (caps : Bool) (base : Nat) : Nat → Nat → List Char
  | 0, _ => []
  | room + 1, uvalue =>
      digitChar caps (uvalue % base) ::
        (if uvalue / base ≠ 0 then convert caps base room (uvalue / base) else [])

/-- `signvalue`, if it is not 0. -/
def signvalue (flags : Flags) (value : Word) : List Char :=
  if flags.unsigned then []
  else if value.toInt < 0 then ['-']
  else if flags.plus then ['+']
  else if flags.space then [' ']
  else []

def uvalue (flags : Flags) (value : Word) : Nat :=
  if ¬ flags.unsigned ∧ value.toInt < 0 then (-value).toNat else value.toNat

def fmtint (sink : Sink) (value : Word) (base : Nat) (min max : Int) (flags : Flags) : Sink :=
  let max := if max < 0 then 0 else max
  let filled := convert flags.up base 20 (uvalue flags value)
  let digits := if filled.length = 20 then filled.dropLast else filled
  let sign := signvalue flags value
  let place : Int := digits.length
  let signs : Int := sign.length
  let zpadlen := if max - place < 0 then 0 else max - place
  let greater := if max ≥ place then max else place
  let spadlen := if min - greater - signs < 0 then 0 else min - greater - signs
  let (zpadlen, spadlen) :=
    if flags.zero then (if zpadlen ≥ spadlen then zpadlen else spadlen, 0) else (zpadlen, spadlen)
  let spadlen := if flags.minus then -spadlen else spadlen
  let spaced := sink.repeated ' ' spadlen.toNat
  let signed := spaced.puts sign
  let zeros := signed.repeated '0' zpadlen.toNat
  let printed := zeros.puts digits.reverse
  printed.repeated ' ' (-spadlen).toNat

/-- What `%n` stores, and where. -/
structure Stored where
  pointer : Word
  size : Conversion
  currlen : Nat
  deriving DecidableEq

/-- The variables of `dopr`; `format` is what is behind `ch`, and `arg` counts the words that
`va_arg` has taken. -/
structure Reader where
  ch : Char
  format : List Char
  state : ReadState
  min : Int
  max : Int
  flags : Flags
  cflags : Conversion
  sink : Sink
  arg : Nat
  stores : List Stored
  deriving DecidableEq

namespace Reader

/-- `ch = *format++`. -/
def next (reader : Reader) : Option Reader :=
  match reader.format with
  | [] => none
  | c :: format => some { reader with ch := c, format := format }

def char_to_int (c : Char) : Int := c.toNat - '0'.toNat

section Cases

variable (environment : Environment) (maxlen : Nat) (reader : Reader)

/-- `va_arg` of one word. -/
def word : Word := environment.args reader.arg

/-- A conversion that prints a number. -/
def number (base : Nat) (flags : Flags) : Reader :=
  { reader with
    sink := fmtint reader.sink (reader.word environment) base reader.min reader.max flags
    arg := reader.arg + 1 }

/-- The words of a `double` or a `long double`. -/
def floatWords : Nat := if reader.cflags = .ldouble then 3 else 2

/-- `strvalue`, with `<NULL>` for a null pointer. -/
def strvalue : List Char :=
  if reader.word environment = 0 then "<NULL>".toList
  else environment.string (reader.word environment)

/-- The switch of `DP_S_CONV`. -/
def convCase : Option Reader :=
  match reader.ch with
  | 'd' | 'i' => some (reader.number environment 10 reader.flags)
  | 'o' => some (reader.number environment 8 { reader.flags with unsigned := true })
  | 'u' => some (reader.number environment 10 { reader.flags with unsigned := true })
  | 'X' => some (reader.number environment 16 { reader.flags with up := true, unsigned := true })
  | 'x' => some (reader.number environment 16 { reader.flags with unsigned := true })
  | 'f' =>
      some { reader with
        sink := reader.sink.puts
          (environment.fmtfp reader.cflags reader.arg reader.flags reader.min reader.max)
        arg := reader.arg + reader.floatWords }
  | 'E' | 'e' | 'G' | 'g' => some { reader with arg := reader.arg + reader.floatWords }
  | 'c' =>
      some { reader with
        sink := reader.sink.dopr_outch (Char.ofNat ((reader.word environment).toNat % 256))
        arg := reader.arg + 1 }
  | 's' =>
      let max := if reader.max < 0 then (maxlen : Int) else reader.max
      some { reader with
        sink := fmtstr reader.sink (reader.strvalue environment) reader.flags reader.min max
        arg := reader.arg + 1 }
  | 'p' => some (reader.number environment 16 reader.flags)
  | 'n' =>
      some { reader with
        stores := reader.stores ++
          [⟨reader.word environment, reader.cflags, reader.sink.currlen⟩]
        arg := reader.arg + 1 }
  | '%' => some { reader with sink := reader.sink.dopr_outch reader.ch }
  -- not supported, the next character is the conversion
  | 'w' => reader.next
  | _ => some reader

/-- The cases of the switch over `state`. -/
def stateCase : Option Reader :=
  match reader.state with
  | .default =>
      if reader.ch = '%' then { reader with state := .flags }.next
      else { reader with sink := reader.sink.dopr_outch reader.ch }.next
  | .flags =>
      match reader.ch with
      | '-' => { reader with flags := { reader.flags with minus := true } }.next
      | '+' => { reader with flags := { reader.flags with plus := true } }.next
      | ' ' => { reader with flags := { reader.flags with space := true } }.next
      | '#' => { reader with flags := { reader.flags with num := true } }.next
      | '0' => { reader with flags := { reader.flags with zero := true } }.next
      | _ => some { reader with state := .min }
  | .min =>
      if reader.ch.isDigit then
        { reader with min := 10 * reader.min + char_to_int reader.ch }.next
      else if reader.ch = '*' then
        { reader with
          min := (reader.word environment).toInt
          arg := reader.arg + 1
          state := .dot }.next
      else some { reader with state := .dot }
  | .dot =>
      if reader.ch = '.' then { reader with state := .max }.next
      else some { reader with state := .mod }
  | .max =>
      if reader.ch.isDigit then
        let max := if reader.max < 0 then 0 else reader.max
        { reader with max := 10 * max + char_to_int reader.ch }.next
      else if reader.ch = '*' then
        { reader with
          max := (reader.word environment).toInt
          arg := reader.arg + 1
          state := .mod }.next
      else some { reader with state := .mod }
  | .mod =>
      match reader.ch with
      | 'h' => { reader with cflags := .short, state := .conv }.next
      | 'l' => { reader with cflags := .long, state := .conv }.next
      | 'L' => { reader with cflags := .ldouble, state := .conv }.next
      | _ => some { reader with state := .conv }
  | .conv =>
      (reader.convCase environment maxlen).bind fun converted =>
        { converted with
          state := .default
          flags := {}
          cflags := .none
          min := 0
          max := -1 }.next
  | .done => some reader

/-- The body of the loop. -/
def turn : Option Reader :=
  if reader.ch = '\x00' ∨ maxlen ≤ reader.sink.currlen then
    { reader with state := .done }.stateCase environment maxlen
  else reader.stateCase environment maxlen

end Cases

end Reader

/-- What becomes of a call: what was put and stored, or a read behind the NUL. -/
inductive Outcome where
  | printed (buffer : List Char) (stores : List Stored)
  | beyond
  | running
  deriving DecidableEq

section Runs

variable (environment : Environment) (maxlen : Nat)

/-- The loop of `dopr`, for so many turns. -/
def loop : Nat → Reader → Outcome
  | 0, _ => .running
  | turns + 1, reader =>
      if reader.state = .done then .printed reader.sink.buffer reader.stores
      else
        match reader.turn environment maxlen with
        | none => .beyond
        | some reader => loop turns reader

/-- The variables before the loop; a format always has its NUL. -/
def start (format : List Char) : Option Reader :=
  Reader.next
    { ch := '\x00'
      format := format ++ ['\x00']
      state := .default
      min := 0
      max := -1
      flags := {}
      cflags := .none
      sink := ⟨0, []⟩
      arg := 0
      stores := [] }

/-- `dopr`, for so many turns of its loop. -/
def dopr (turns : Nat) (format : List Char) : Outcome :=
  match start format with
  | none => .beyond
  | some reader => loop environment maxlen turns reader

/-- `K::vsnprintf`. -/
def vsnprintf (turns : Nat) (format : List Char) : Outcome := dopr environment maxlen turns format

end Runs

end AC97Kernel.Printing
