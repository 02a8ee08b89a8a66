/-
The loop of `dopr` prints what a format means.

Every state of the loop has read a part of a directive.  From each of them the loop comes to
the state behind that part, and from the last one to the next item.
-/

import AC97Kernel.Printing.Directives

set_option autoImplicit false

namespace AC97Kernel.Printing

/-- A reader with a text in front of it. -/
def reading (state : ReadState) (min max : Int) (flags : Flags) (cflags : Conversion)
    (sink : Sink) (arg : Nat) (stores : List Stored) : List Char → Reader
  | [] => ⟨'\x00', [], state, min, max, flags, cflags, sink, arg, stores⟩
  | c :: text => ⟨c, text ++ ['\x00'], state, min, max, flags, cflags, sink, arg, stores⟩

section Runs

variable (environment : Environment) (maxlen : Nat)

/-- The loop ends, with an outcome. -/
def Finishes (reader : Reader) (outcome : Outcome) : Prop :=
  ∃ turns, ∀ more, turns ≤ more → loop environment maxlen more reader = outcome

/-- Whatever becomes of the second reader becomes of the first one. -/
def Follows (first second : Reader) : Prop :=
  ∀ outcome, Finishes environment maxlen second outcome → Finishes environment maxlen first outcome

end Runs

section Turns

variable {environment : Environment} {maxlen : Nat} {reader first second third : Reader}
  {outcome other : Outcome} {text : List Char} {c : Char}

theorem Follows.refl (reader : Reader) : Follows environment maxlen reader reader :=
  fun _ finishes => finishes

theorem Follows.trans (one : Follows environment maxlen first second)
    (two : Follows environment maxlen second third) : Follows environment maxlen first third :=
  fun outcome finishes => one outcome (two outcome finishes)

theorem Finishes.unique (one : Finishes environment maxlen reader outcome)
    (two : Finishes environment maxlen reader other) : outcome = other := by
  obtain ⟨first, all⟩ := one
  obtain ⟨second, every⟩ := two
  rw [← all (first + second) (Nat.le_add_right _ _), every (first + second) (Nat.le_add_left _ _)]

theorem Follows.of_turn (running : first.state ≠ .done)
    (turned : first.turn environment maxlen = some second) :
    Follows environment maxlen first second := by
  rintro outcome ⟨turns, all⟩
  refine ⟨turns + 1, fun more enough => ?_⟩
  obtain ⟨left, rfl⟩ : ∃ left, more = left + 1 := ⟨more - 1, by omega⟩
  rw [loop, if_neg running, turned]
  exact all left (Nat.le_of_succ_le_succ enough)

/-- The loop ends at the NUL and when enough was put. -/
theorem Finishes.of_end (ends : reader.ch = '\x00' ∨ maxlen ≤ reader.sink.currlen) :
    Finishes environment maxlen reader (.printed reader.sink.buffer reader.stores) := by
  have stops (more : Nat) :
      loop environment maxlen (more + 1) { reader with state := .done } =
        .printed reader.sink.buffer reader.stores := if_pos rfl
  refine ⟨2, fun more enough => ?_⟩
  obtain ⟨left, rfl⟩ : ∃ left, more = left + 1 + 1 := ⟨more - 2, by omega⟩
  by_cases done : reader.state = .done
  · rw [loop, if_pos done]
  · have turned : reader.turn environment maxlen = some { reader with state := .done } := by
      rw [Reader.turn, if_pos ends]
      rfl
    rw [loop, if_neg done, turned]
    exact stops left

end Turns

section States

variable {environment : Environment} {maxlen : Nat} {state : ReadState} {min max : Int}
  {flags : Flags} {cflags : Conversion} {sink : Sink} {arg : Nat} {stores : List Stored}
  {c : Char} {text : List Char} {second : Reader}

theorem Finishes.at_end : Finishes environment maxlen
    (reading state min max flags cflags sink arg stores []) (.printed sink.buffer stores) :=
  .of_end (.inl rfl)

theorem Finishes.full (full : maxlen ≤ sink.currlen) : Finishes environment maxlen
    (reading state min max flags cflags sink arg stores text) (.printed sink.buffer stores) := by
  cases text with
  | nil => exact .at_end
  | cons c text => exact .of_end (.inr full)

/-- Two readers at the NUL, with the same put and stored. -/
theorem Follows.at_end {state' : ReadState} {min' max' : Int} {flags' : Flags}
    {cflags' : Conversion} {arg' : Nat} : Follows environment maxlen
      (reading state min max flags cflags sink arg stores [])
      (reading state' min' max' flags' cflags' sink arg' stores []) := by
  intro outcome finishes
  rw [finishes.unique .at_end]
  exact .at_end

theorem next_reading : (reading state min max flags cflags sink arg stores (c :: text)).next =
    some (reading state min max flags cflags sink arg stores text) := by
  cases text <;> rfl

/-- One turn over a letter of the format. -/
theorem Follows.of_case (letter : c ≠ '\x00') (more : sink.currlen < maxlen)
    (running : state ≠ .done)
    (does : (reading state min max flags cflags sink arg stores (c :: text)).stateCase
      environment maxlen = some second) :
    Follows environment maxlen (reading state min max flags cflags sink arg stores (c :: text))
      second := by
  apply Follows.of_turn running
  rw [Reader.turn, if_neg]
  · exact does
  · rintro (nul | full)
    · exact letter nul
    · exact absurd full (Nat.not_le_of_lt more)

/-- No letter of a format is the NUL. -/
def Letters (text : List Char) : Prop := ∀ c ∈ text, c ≠ '\x00'

theorem letters_of_all {text : List Char} (all : text.all (· != '\x00') = true) : Letters text :=
  fun c among => bne_iff_ne.mp (List.all_eq_true.mp all c among)

theorem Letters.head (letters : Letters (c :: text)) : c ≠ '\x00' := letters c List.mem_cons_self

theorem Letters.suffix {rest : List Char} (letters : Letters text) (suffix : rest <:+ text) :
    Letters rest := fun c among => letters c (suffix.subset among)

theorem Letters.tail (letters : Letters (c :: text)) : Letters text :=
  letters.suffix (List.suffix_cons c text)

/-! ### The states -/

theorem flags_case : (reading .flags min max flags cflags sink arg stores (c :: text)).stateCase
    environment maxlen =
      match setFlag flags c with
      | some more => some (reading .flags min max more cflags sink arg stores text)
      | none => some (reading .min min max flags cflags sink arg stores (c :: text)) := by
  have next (more : Flags) :
      (reading .flags min max more cflags sink arg stores (c :: text)).next = _ := next_reading
  unfold Reader.stateCase setFlag
  simp only [reading] at next ⊢
  split
  all_goals simp [next]

theorem flags_follow (more : sink.currlen < maxlen) (letters : Letters text) :
    Follows environment maxlen (reading .flags min max flags cflags sink arg stores text)
      (reading .min min max (readFlags flags text).1 cflags sink arg stores
        (readFlags flags text).2) := by
  induction text generalizing flags with
  | nil => exact .at_end
  | cons c text ih =>
      rw [readFlags]
      cases set : setFlag flags c with
      | none =>
          apply Follows.of_case letters.head more (by simp)
          rw [flags_case, set]
      | some set_ =>
          refine Follows.trans (.of_case letters.head more (by simp) ?_) (ih letters.tail)
          rw [flags_case, set]

/-! ### Widths and precisions -/

theorem char_to_int_digit (digit : c.isDigit = true) :
    Reader.char_to_int c = ((c.toNat - '0'.toNat : Nat) : Int) := by
  have least : '0'.toNat ≤ c.toNat := by
    rw [Char.isDigit, Bool.and_eq_true] at digit
    exact of_decide_eq_true digit.1
  unfold Reader.char_to_int
  omega

theorem min_digit (digit : c.isDigit = true) {number : Nat} :
    (reading .min number max flags cflags sink arg stores (c :: text)).stateCase environment maxlen =
      some (reading .min ((10 * number + (c.toNat - '0'.toNat) : Nat) : Int) max flags cflags sink arg
        stores text) := by
  rw [← next_reading (c := c)]
  unfold Reader.stateCase
  simp only [reading, digit, if_true, char_to_int_digit]
  rfl

theorem min_star : (reading .min min max flags cflags sink arg stores ('*' :: text)).stateCase
    environment maxlen =
      some (reading .dot (environment.args arg).toInt max flags cflags sink (arg + 1) stores text) := by
  rw [← next_reading (c := '*')]
  rfl

theorem min_other (digit : c.isDigit = false) (star : c ≠ '*') :
    (reading .min min max flags cflags sink arg stores (c :: text)).stateCase environment maxlen =
      some (reading .dot min max flags cflags sink arg stores (c :: text)) := by
  unfold Reader.stateCase
  simp only [reading, digit, star, if_false, Bool.false_eq_true]

theorem min_number (more : sink.currlen < maxlen) (letters : Letters text) (number : Nat) :
    Follows environment maxlen (reading .min number max flags cflags sink arg stores text)
      (reading .min (readNumber number text).1 max flags cflags sink arg stores
        (readNumber number text).2) := by
  induction text generalizing number with
  | nil => exact .refl _
  | cons c text ih =>
      rw [readNumber]
      by_cases digit : c.isDigit
      · rw [if_pos digit]
        exact .trans (.of_case letters.head more (by simp) (min_digit digit)) (ih letters.tail _)
      · rw [if_neg digit]
        exact .refl _

theorem readNumber_rest (number : Nat) (text : List Char) :
    startsNumber (readNumber number text).2 = false := by
  induction text generalizing number with
  | nil => rfl
  | cons c text ih =>
      rw [readNumber]
      split
      · exact ih _
      · next other => simpa [startsNumber] using other

theorem readNumber_absent (number : Nat) (absent : startsNumber text = false) :
    readNumber number text = (number, text) := by
  cases text with
  | nil => rfl
  | cons c text =>
      have other : ¬ c.isDigit = true := by simpa [startsNumber] using absent
      rw [readNumber, if_neg other]

theorem min_follow (more : sink.currlen < maxlen) (letters : Letters text) :
    Follows environment maxlen (reading .min 0 max flags cflags sink arg stores text)
      (reading .dot ((readAmount text).1.value environment 0 arg).1 max flags cflags sink
        ((readAmount text).1.value environment 0 arg).2 stores (readAmount text).2) := by
  apply (min_number more letters 0).trans
  have rest := readNumber_rest 0 text
  have behind : Letters (readNumber 0 text).2 := letters.suffix (readNumber_suffix text)
  obtain ⟨⟨number, text'⟩, read⟩ : ∃ pair, readNumber 0 text = pair := ⟨_, rfl⟩
  rw [read] at rest behind ⊢
  -- without digits nothing was read and the default stays
  have value : ((if startsNumber text then Amount.number number else .absent).value
      environment 0 arg) = ((number : Int), arg) := by
    cases starts : startsNumber text with
    | true => rfl
    | false =>
        rw [readNumber_absent 0 starts] at read
        cases read
        rfl
  cases text' with
  | nil =>
      rw [readAmount_other read (by simp)]
      exact .at_end
  | cons c text' =>
      by_cases star : c = '*'
      · subst star
        rw [readAmount_star read]
        exact .of_case (by decide) more (by simp) min_star
      · rw [readAmount_other read (by simpa using star), value]
        exact .of_case behind.head more (by simp) (min_other rest star)

theorem max_digit (digit : c.isDigit = true) {number : Nat}
    (counted : max = number ∨ (max < 0 ∧ number = 0)) :
    (reading .max min max flags cflags sink arg stores (c :: text)).stateCase environment maxlen =
      some (reading .max min ((10 * number + (c.toNat - '0'.toNat) : Nat) : Int) flags cflags sink arg
        stores text) := by
  have base : (if max < 0 then 0 else max) = (number : Int) := by omega
  have does : (reading .max min max flags cflags sink arg stores (c :: text)).stateCase environment
      maxlen = Reader.next ⟨c, text ++ ['\x00'], .max, min,
        10 * (if max < 0 then 0 else max) + Reader.char_to_int c, flags, cflags, sink, arg, stores⟩ :=
    if_pos digit
  rw [does, base, char_to_int_digit digit, ← next_reading (c := c)]
  rfl

theorem max_star : (reading .max min max flags cflags sink arg stores ('*' :: text)).stateCase
    environment maxlen =
      some (reading .mod min (environment.args arg).toInt flags cflags sink (arg + 1) stores text) := by
  rw [← next_reading (c := '*')]
  rfl

theorem max_other (digit : c.isDigit = false) (star : c ≠ '*') :
    (reading .max min max flags cflags sink arg stores (c :: text)).stateCase environment maxlen =
      some (reading .mod min max flags cflags sink arg stores (c :: text)) := by
  unfold Reader.stateCase
  simp only [reading, digit, star, if_false, Bool.false_eq_true]

theorem max_number (more : sink.currlen < maxlen) (letters : Letters text) (number : Nat) :
    Follows environment maxlen (reading .max min number flags cflags sink arg stores text)
      (reading .max min (readNumber number text).1 flags cflags sink arg stores
        (readNumber number text).2) := by
  induction text generalizing number with
  | nil => exact .refl _
  | cons c text ih =>
      rw [readNumber]
      by_cases digit : c.isDigit
      · rw [if_pos digit]
        exact .trans (.of_case letters.head more (by simp) (max_digit digit (.inl rfl)))
          (ih letters.tail _)
      · rw [if_neg digit]
        exact .refl _

/-- The first digit takes the place of -1. -/
theorem max_first (more : sink.currlen < maxlen) (letters : Letters text) :
    Follows environment maxlen (reading .max min (-1) flags cflags sink arg stores text)
      (reading .max min (if startsNumber text then ((readNumber 0 text).1 : Int) else -1) flags cflags
        sink arg stores (readNumber 0 text).2) := by
  cases starts : startsNumber text with
  | false =>
      rw [readNumber_absent 0 starts]
      exact .refl _
  | true =>
      cases text with
      | nil => cases starts
      | cons c text =>
          have digit : c.isDigit = true := starts
          rw [readNumber, if_pos digit, if_pos rfl]
          exact .trans (.of_case letters.head more (by simp)
            (max_digit digit (.inr ⟨by decide, rfl⟩))) (max_number more letters.tail _)

theorem max_follow (more : sink.currlen < maxlen) (letters : Letters text) :
    Follows environment maxlen (reading .max min (-1) flags cflags sink arg stores text)
      (reading .mod min ((readAmount text).1.value environment (-1) arg).1 flags cflags sink
        ((readAmount text).1.value environment (-1) arg).2 stores (readAmount text).2) := by
  apply (max_first more letters).trans
  have rest := readNumber_rest 0 text
  have behind : Letters (readNumber 0 text).2 := letters.suffix (readNumber_suffix text)
  obtain ⟨⟨number, text'⟩, read⟩ : ∃ pair, readNumber 0 text = pair := ⟨_, rfl⟩
  rw [read] at rest behind ⊢
  have value : ((if startsNumber text then Amount.number number else .absent).value
      environment (-1) arg) = (if startsNumber text then (number : Int) else -1, arg) := by
    split <;> rfl
  cases text' with
  | nil =>
      rw [readAmount_other read (by simp)]
      exact .at_end
  | cons c text' =>
      by_cases star : c = '*'
      · subst star
        rw [readAmount_star read]
        exact .of_case (by decide) more (by simp) max_star
      · rw [readAmount_other read (by simpa using star), value]
        exact .of_case behind.head more (by simp) (max_other rest star)

theorem dot_follow (more : sink.currlen < maxlen) (letters : Letters text) :
    Follows environment maxlen (reading .dot min (-1) flags cflags sink arg stores text)
      (reading .mod min ((readPrecision text).1.value environment (-1) arg).1 flags cflags sink
        ((readPrecision text).1.value environment (-1) arg).2 stores (readPrecision text).2) := by
  cases text with
  | nil => exact .at_end
  | cons c text =>
      by_cases dot : c = '.'
      · subst dot
        refine .trans (.of_case (by decide) more (by simp) ?_) (max_follow more letters.tail)
        rw [← next_reading (c := '.')]
        rfl
      · have absent : readPrecision (c :: text) = (.absent, c :: text) := by
          simp [readPrecision, dot]
        rw [absent]
        apply Follows.of_case letters.head more (by simp)
        unfold Reader.stateCase
        simp only [reading, dot, if_false]
        rfl

theorem mod_follow (more : sink.currlen < maxlen) (letters : Letters text) :
    Follows environment maxlen (reading .mod min max flags .none sink arg stores text)
      (reading .conv min max flags (readSize text).1 sink arg stores (readSize text).2) := by
  cases text with
  | nil => exact .at_end
  | cons c text =>
      apply Follows.of_case letters.head more (by simp)
      have next (size : Conversion) :
          (reading .conv min max flags size sink arg stores (c :: text)).next = _ := next_reading
      unfold Reader.stateCase
      simp only [reading] at next ⊢
      split
      · exact next .short
      · exact next .long
      · exact next .ldouble
      · next short long ldouble =>
          have same : readSize (c :: text) = (.none, c :: text) := by
            unfold readSize
            split <;> simp_all
          rw [same]

/-! ### Directives -/

theorem number_eq {base : Nat} (wide : 8 ≤ base) (flags' : Flags) :
    (reading .conv min max flags cflags sink arg stores (c :: text)).number environment base flags' =
      reading .conv min max flags cflags
        (sink.puts (intText (environment.args arg) base min max flags')) (arg + 1) stores
        (c :: text) := by
  unfold Reader.number
  rw [fmtint_eq wide]
  rfl

/-- What the conversion of a letter other than `w` does to the reader. -/
theorem convCase_eq (other : c ≠ 'w') :
    let directive : Directive := ⟨flags, .absent, .absent, cflags, c⟩
    let output := directive.converted environment maxlen min max arg sink.currlen
    (reading .conv min max flags cflags sink arg stores (c :: text)).convCase environment maxlen =
      some (reading .conv min max flags cflags (sink.puts output.text) output.arg
        (stores ++ output.stores) (c :: text)) := by
  intro directive output
  have stored (none_ : output.stores = []) :
      some (reading .conv min max flags cflags (sink.puts output.text) output.arg stores (c :: text)) =
        some (reading .conv min max flags cflags (sink.puts output.text) output.arg
          (stores ++ output.stores) (c :: text)) := by
    rw [none_, List.append_nil]
  by_cases number : c ∈ ['d', 'i', 'o', 'u', 'X', 'x', 'p']
  · simp only [List.mem_cons, List.not_mem_nil, or_false] at number
    rcases number with rfl | rfl | rfl | rfl | rfl | rfl | rfl
    all_goals
      refine Eq.trans ?_ (stored rfl)
      exact congrArg some (number_eq (by decide) _)
  by_cases float : c ∈ ['E', 'e', 'G', 'g', 'f', 'c', '%']
  · simp only [List.mem_cons, List.not_mem_nil, or_false] at float
    rcases float with rfl | rfl | rfl | rfl | rfl | rfl | rfl
    all_goals exact stored rfl
  by_cases string : c = 's'
  · subst string
    refine Eq.trans ?_ (stored rfl)
    exact congrArg (fun sink => some (reading .conv min max flags cflags sink (arg + 1) stores
      ('s' :: text))) fmtstr_eq
  by_cases count : c = 'n'
  · subst count
    rfl
  · simp only [List.mem_cons, List.not_mem_nil, or_false, not_or] at number float
    have nothing : output = ⟨[], arg, []⟩ := by
      simp only [output, directive, Directive.converted]
      split <;> simp_all
    have skipped : (reading .conv min max flags cflags sink arg stores (c :: text)).convCase
        environment maxlen = some (reading .conv min max flags cflags sink arg stores (c :: text)) := by
      unfold Reader.convCase
      simp only [reading]
      split <;> simp_all
    rw [skipped, ← stored (by rw [nothing]), nothing]
    rfl

theorem conv_follow (more : sink.currlen < maxlen) (letter : c ≠ '\x00') (other : c ≠ 'w')
    {directive : Directive} (same : directive.flags = flags ∧ directive.cflags = cflags ∧
      directive.conversion = c) :
    let output := directive.converted environment maxlen min max arg sink.currlen
    Follows environment maxlen (reading .conv min max flags cflags sink arg stores (c :: text))
      (reading .default 0 (-1) {} .none (sink.puts output.text) output.arg (stores ++ output.stores)
        text) := by
  obtain ⟨rfl, rfl, rfl⟩ := same
  intro output
  apply Follows.of_case letter more (by simp)
  change ((reading .conv min max directive.flags directive.cflags sink arg stores
    (directive.conversion :: text)).convCase environment maxlen).bind _ = _
  rw [convCase_eq other]
  exact next_reading

theorem w_follow (more : sink.currlen < maxlen) :
    Follows environment maxlen (reading .conv min max flags cflags sink arg stores ('w' :: c :: text))
      (reading .default 0 (-1) {} .none sink arg stores text) := by
  apply Follows.of_case (by decide) more (by simp)
  exact next_reading

theorem w_beyond (more : sink.currlen < maxlen) :
    Finishes environment maxlen (reading .conv min max flags cflags sink arg stores ['w']) .beyond := by
  have turned : (reading .conv min max flags cflags sink arg stores ['w']).turn environment maxlen =
      none := by
    rw [Reader.turn, if_neg]
    · rfl
    · rintro (nul | full)
      · cases nul
      · exact absurd full (Nat.not_le_of_lt more)
  refine ⟨1, fun turns enough => ?_⟩
  obtain ⟨left, rfl⟩ : ∃ left, turns = left + 1 := ⟨turns - 1, by omega⟩
  rw [loop, if_neg (by simp [reading]), turned]

/-- From the `%` through all states up to the conversion. -/
theorem percent_follow (more : sink.currlen < maxlen) (letters : Letters text) :
    let first := readFlags {} text
    let second := readAmount first.2
    let third := readPrecision second.2
    let fourth := readSize third.2
    let least := second.1.value environment 0 arg
    let most := third.1.value environment (-1) least.2
    Follows environment maxlen (reading .default 0 (-1) {} .none sink arg stores ('%' :: text))
      (reading .conv least.1 most.1 first.1 fourth.1 sink most.2 stores fourth.2) := by
  intro first second third fourth least most
  have percent : Follows environment maxlen
      (reading .default 0 (-1) {} .none sink arg stores ('%' :: text))
      (reading .flags 0 (-1) {} .none sink arg stores text) := by
    apply Follows.of_case (by decide) more (by simp)
    exact next_reading
  have firstLetters : Letters first.2 := letters.suffix (readFlags_suffix text)
  have secondLetters : Letters second.2 := firstLetters.suffix (readAmount_suffix first.2)
  have thirdLetters : Letters third.2 := secondLetters.suffix (readPrecision_suffix second.2)
  exact percent.trans ((flags_follow more letters).trans ((min_follow more firstLetters).trans
    ((dot_follow more secondLetters).trans (mod_follow more thirdLetters))))

theorem directive_follow (more : sink.currlen < maxlen) (letters : Letters text)
    {directive : Directive} {rest : List Char}
    (read : readDirective text = some (directive, rest)) :
    let least := directive.min.value environment 0 arg
    let most := directive.max.value environment (-1) least.2
    Follows environment maxlen (reading .default 0 (-1) {} .none sink arg stores ('%' :: text))
      (reading .conv least.1 most.1 directive.flags directive.cflags sink most.2 stores
        (directive.conversion :: rest)) := by
  have follows := @percent_follow environment maxlen sink arg stores text more letters
  unfold readDirective at read
  simp only at read follows
  split at read
  · cases read
  · next c behind same =>
      rw [same] at follows
      cases read
      exact follows

/-- A directive that the end of the format cuts off prints nothing. -/
theorem unfinished (more : sink.currlen < maxlen) (letters : Letters text)
    (read : readDirective text = none) : Finishes environment maxlen
      (reading .default 0 (-1) {} .none sink arg stores ('%' :: text))
      (.printed sink.buffer stores) := by
  have follows := @percent_follow environment maxlen sink arg stores text more letters
  unfold readDirective at read
  simp only at read follows
  split at read
  · next same =>
      rw [same] at follows
      exact follows _ .at_end
  · cases read

/-- The loop prints the rest of the format. -/
theorem items_finish (letters : Letters text) (buffer : List Char) (arg : Nat)
    (stores : List Stored) : Finishes environment maxlen
      (reading .default 0 (-1) {} .none ⟨buffer.length, buffer⟩ arg stores text)
      (print environment maxlen (items text) arg buffer stores) := by
  fun_induction items text generalizing buffer arg stores with
  | case1 => exact .at_end
  | case2 text read =>
      by_cases more : buffer.length < maxlen
      · exact unfinished more letters.tail read
      · exact .full (Nat.le_of_not_lt more)
  | case3 text directive w read =>
      by_cases more : buffer.length < maxlen
      · rw [print, if_neg (Nat.not_le_of_lt more)]
        apply directive_follow more letters.tail read
        rw [w]
        exact w_beyond more
      · rw [print, if_pos (Nat.le_of_not_lt more)]
        exact .full (Nat.le_of_not_lt more)
  | case4 text directive w c rest read _ ih =>
      by_cases more : buffer.length < maxlen
      · rw [print, if_neg (Nat.not_le_of_lt more)]
        have behind : Letters rest := letters.suffix ((List.suffix_cons c rest).trans
          ((List.suffix_cons directive.conversion (c :: rest)).trans
            ((readDirective_suffix read).trans (List.suffix_cons '%' text))))
        have nothing : directive.output environment maxlen arg buffer.length = ⟨[],
            (directive.max.value environment (-1) (directive.min.value environment 0 arg).2).2, []⟩ := by
          unfold Directive.output Directive.converted
          simp only [w]
          rfl
        apply directive_follow more letters.tail read
        rw [w]
        apply w_follow more
        simp only [nothing, List.append_nil]
        exact ih behind buffer _ stores
      · rw [print, if_pos (Nat.le_of_not_lt more)]
        exact .full (Nat.le_of_not_lt more)
  | case5 text directive rest read other ih =>
      by_cases more : buffer.length < maxlen
      · rw [print, if_neg (Nat.not_le_of_lt more)]
        have suffix := (readDirective_suffix read).trans (List.suffix_cons '%' text)
        have letter : directive.conversion ≠ '\x00' := letters _ (suffix.subset List.mem_cons_self)
        have behind : Letters rest :=
          letters.suffix ((List.suffix_cons directive.conversion rest).trans suffix)
        apply directive_follow more letters.tail read
        apply conv_follow more letter other ⟨rfl, rfl, rfl⟩
        rw [Sink.puts_eq, ← List.length_append]
        exact ih behind _ _ _
      · rw [print, if_pos (Nat.le_of_not_lt more)]
        exact .full (Nat.le_of_not_lt more)
  | case6 c text other ih =>
      by_cases more : buffer.length < maxlen
      · rw [print, if_neg (Nat.not_le_of_lt more)]
        have does : (reading .default 0 (-1) {} .none ⟨buffer.length, buffer⟩ arg stores
            (c :: text)).stateCase environment maxlen =
              some (reading .default 0 (-1) {} .none ⟨buffer.length + 1, buffer ++ [c]⟩ arg stores
                text) := (if_neg other).trans next_reading
        apply Follows.of_case letters.head more (by simp) does
        have length : buffer.length + 1 = (buffer ++ [c]).length := by simp
        rw [length]
        exact ih letters.tail _ _ _
      · rw [print, if_pos (Nat.le_of_not_lt more)]
        exact .full (Nat.le_of_not_lt more)

/-- With enough turns `dopr` prints the items of its format, and reads behind the NUL only for
a `%w` at the end. -/
theorem dopr_prints (environment : Environment) (maxlen : Nat) (format : List Char)
    (letters : Letters format) : ∃ enough, ∀ turns, enough ≤ turns →
      vsnprintf environment maxlen turns format =
        print environment maxlen (items format) 0 [] [] := by
  obtain ⟨enough, all⟩ := items_finish letters [] 0 []
  refine ⟨enough, fun turns long => ?_⟩
  have begins : start format = some (reading .default 0 (-1) {} .none ⟨0, []⟩ 0 [] format) := by
    cases format <;> rfl
  rw [vsnprintf, dopr, begins]
  exact all turns long

theorem dopr_prints_number : ∃ enough, ∀ turns, enough ≤ turns →
    vsnprintf ⟨fun _ => 42, fun _ => [], fun _ _ _ _ _ => []⟩ 1000 turns "n=%5d".toList =
      print ⟨fun _ => 42, fun _ => [], fun _ _ _ _ _ => []⟩ 1000 (items "n=%5d".toList) 0 [] [] :=
  dopr_prints _ 1000 "n=%5d".toList (letters_of_all rfl)

end States

end AC97Kernel.Printing
