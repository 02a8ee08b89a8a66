/-
The stack that exec leaves to a program.

Every push keeps what lies above the stack pointer, so that the strings, the table of
their addresses and the two words below it can be followed one after the other.
-/

import AC97Kernel.Calls.Execl
import AC97Kernel.Storage.Files

set_option autoImplicit false

namespace AC97Kernel

open LittleEndian Slices ByteRuns

/-- The bytes that the strings take with their NULs. -/
def spaceFor (argv : List (List UInt8)) : Nat := (argv.map fun string => string.length + 1).sum

/-- All that is stored below the top: strings and padding, the table with its null, and
the two arguments of `main`. -/
def stackFor (argv : List (List UInt8)) : Nat :=
  (spaceFor argv + 4) / 4 * 4 + 4 * argv.length + 4 + 8

/-- What `start` finds at the stack pointer. -/
structure Marshalled (memory : Nat → UInt8) (sp : Nat) (argv : List (List UInt8)) : Prop where
  aligned : sp % 4 = 0
  argc : wordOn memory sp = argv.length
  table : wordOn memory (sp + 4) = sp + 8
  copies : ∀ index string, argv[index]? = some string →
    Occupies memory (wordOn memory (sp + 8 + 4 * index)) (string ++ [0])
  null : wordOn memory (sp + 8 + 4 * argv.length) = 0
  apart : ∀ first second string other, first < second → argv[first]? = some string →
    argv[second]? = some other →
      wordOn memory (sp + 8 + 4 * first) + (string ++ [0]).length ≤
        wordOn memory (sp + 8 + 4 * second)
  behind : ∀ index string, argv[index]? = some string →
    sp + 8 + 4 * (argv.length + 1) ≤ wordOn memory (sp + 8 + 4 * index)
  below : ∀ index string, argv[index]? = some string →
    wordOn memory (sp + 8 + 4 * index) + (string ++ [0]).length ≤ 0xefffe000

theorem spaceFor_cons (string : List UInt8) (rest : List (List UInt8)) :
    spaceFor (string :: rest) = string.length + 1 + spaceFor rest := rfl

/-- A word whose bytes stand in memory. -/
theorem wordOn_occupies {memory : Nat → UInt8} {address word : Nat}
    (occupies : Occupies memory address (encode 4 word)) (small : word < 2 ^ 32) :
    wordOn memory address = word := by
  have bytes : tabulate (fun index => memory (address + index)) 4 = encode 4 word := by
    apply List.ext_getElem?
    intro index
    by_cases inside : index < 4
    · rw [getElem?_tabulate _ inside, occupies index (by rwa [length_encode])]
    · rw [List.getElem?_eq_none (by rw [length_tabulate]; omega),
        List.getElem?_eq_none (by rw [length_encode]; omega)]
  have fits : word < 256 ^ 4 := small
  rw [wordOn, bytes, decode_encode, Nat.mod_eq_of_lt fits]

namespace SYS.Stack

variable {memory : Nat → UInt8} {stack next last : Stack} {bytes : List UInt8}

/-- What the stores of the stack have made of a memory. -/
def contents (memory : Nat → UInt8) (stack : Stack) : Nat → UInt8 := apply memory stack.stores

/-- The next stack is `count` bytes longer and keeps what lies above. -/
structure Grows (memory : Nat → UInt8) (stack next : Stack) (count : Nat) : Prop where
  sp : next.sp + count = stack.sp
  above : ∀ address ≥ stack.sp, contents memory next address = contents memory stack address

theorem Grows.refl : Grows memory stack stack 0 := ⟨Nat.add_zero _, fun _ _ => rfl⟩

theorem Grows.trans {first second : Nat} (grows : Grows memory stack next first)
    (more : Grows memory next last second) : Grows memory stack last (second + first) := by
  constructor
  · rw [← Nat.add_assoc, more.sp, grows.sp]
  · intro address above
    have lower : next.sp ≤ address := by
      have sp := grows.sp
      omega
    rw [more.above address lower, grows.above address above]

/-- What stands above the stack pointer stays. -/
theorem Grows.occupies {count address : Nat} (grows : Grows memory stack next count)
    (above : stack.sp ≤ address) (occupies : Occupies (contents memory stack) address bytes) :
    Occupies (contents memory next) address bytes :=
  occupies.kept fun place lower _ => grows.above place (by omega)

/-- A push that stays above 0. -/
theorem push_grows (memory : Nat → UInt8) (stack : Stack) (bytes : List UInt8)
    (room : bytes.length ≤ stack.sp) (word : stack.sp < 2 ^ 32) :
    Grows memory stack (stack.push bytes) bytes.length ∧
      Occupies (contents memory (stack.push bytes)) (stack.push bytes).sp bytes := by
  have sp : (stack.push bytes).sp = stack.sp - bytes.length := by
    unfold push
    simp only
    omega
  have stored : contents memory (stack.push bytes) =
      put (contents memory stack) (stack.sp - bytes.length) bytes := by
    have stores : (stack.push bytes).stores =
        stack.stores ++ storesAt (stack.push bytes).sp bytes := rfl
    unfold contents
    rw [stores, sp, apply_append, apply_storesAt _ (by omega)]
  refine ⟨⟨by omega, ?_⟩, ?_⟩
  · intro address above
    rw [stored]
    exact put_outside (by omega)
  · rw [stored, sp]
    exact put_occupies _ _ _

theorem pushWord_grows (memory : Nat → UInt8) (stack : Stack) (word : Nat) (room : 4 ≤ stack.sp)
    (below : stack.sp < 2 ^ 32) (small : word < 2 ^ 32) :
    Grows memory stack (stack.pushWord word) 4 ∧
      wordOn (contents memory (stack.pushWord word)) (stack.pushWord word).sp = word := by
  obtain ⟨grows, occupies⟩ := push_grows memory stack (encode 4 word) (by rwa [length_encode]) below
  rw [length_encode] at grows
  exact ⟨grows, wordOn_occupies occupies small⟩

/-- Words above the stack pointer stay. -/
theorem Grows.word {count address : Nat} (grows : Grows memory stack next count)
    (above : stack.sp ≤ address) :
    wordOn (contents memory next) address = wordOn (contents memory stack) address := by
  unfold wordOn
  congr 1
  apply tabulate_congr
  intro index _
  exact grows.above _ (by omega)

theorem pushStrings_cons (stack : Stack) (first : List UInt8) (rest : List (List UInt8)) :
    stack.pushStrings (first :: rest) =
      ((stack.pushStrings rest).1.push (first ++ [0]),
        ((stack.pushStrings rest).1.push (first ++ [0])).sp :: (stack.pushStrings rest).2) := rfl

theorem pushWords_cons (stack : Stack) (first : Nat) (rest : List Nat) :
    stack.pushWords (first :: rest) = (stack.pushWords rest).pushWord first := rfl

/-- The strings, each behind the one before it. -/
theorem pushStrings_grows (memory : Nat → UInt8) (stack : Stack) (argv : List (List UInt8))
    (room : spaceFor argv ≤ stack.sp) (word : stack.sp < 2 ^ 32) :
    Grows memory stack (stack.pushStrings argv).1 (spaceFor argv) ∧
    (stack.pushStrings argv).2.length = argv.length ∧
    ∀ index string, argv[index]? = some string →
      (stack.pushStrings argv).2[index]? =
        some ((stack.pushStrings argv).1.sp + spaceFor (argv.take index)) ∧
      Occupies (contents memory (stack.pushStrings argv).1)
        ((stack.pushStrings argv).1.sp + spaceFor (argv.take index)) (string ++ [0]) := by
  induction argv with
  | nil => exact ⟨Grows.refl, rfl, fun index string listed => by cases listed⟩
  | cons first rest ih =>
      have space := spaceFor_cons first rest
      obtain ⟨grows, length, copies⟩ := ih (by omega)
      have length_first : (first ++ [0]).length = first.length + 1 := by
        rw [List.length_append, List.length_singleton]
      have sp := grows.sp
      obtain ⟨more, copied⟩ := push_grows memory (stack.pushStrings rest).1 (first ++ [0])
        (by omega) (by omega)
      rw [pushStrings_cons]
      generalize (stack.pushStrings rest).1.push (first ++ [0]) = next at more copied ⊢
      have total := grows.trans more
      have spMore := more.sp
      rw [length_first, ← space] at total
      refine ⟨total, congrArg Nat.succ length, ?_⟩
      intro index string listed
      cases index with
      | zero =>
          rw [List.getElem?_cons_zero, Option.some.injEq] at listed
          have none_ : spaceFor ((first :: rest).take 0) = 0 := rfl
          rw [none_, Nat.add_zero, ← listed, List.getElem?_cons_zero]
          exact ⟨rfl, copied⟩
      | succ index =>
          obtain ⟨address, occupies⟩ := copies index string listed
          have same : next.sp + spaceFor ((first :: rest).take (index + 1)) =
              (stack.pushStrings rest).1.sp + spaceFor (rest.take index) := by
            rw [List.take_succ_cons, spaceFor_cons]
            omega
          rw [same]
          exact ⟨address, more.occupies (by omega) occupies⟩

theorem pushWords_grows (memory : Nat → UInt8) (stack : Stack) (words : List Nat)
    (room : 4 * words.length ≤ stack.sp) (below : stack.sp < 2 ^ 32)
    (small : ∀ word ∈ words, word < 2 ^ 32) :
    Grows memory stack (stack.pushWords words) (4 * words.length) ∧
    ∀ index word, words[index]? = some word →
      wordOn (contents memory (stack.pushWords words)) ((stack.pushWords words).sp + 4 * index) =
        word := by
  induction words with
  | nil => exact ⟨Grows.refl, fun index word listed => by cases listed⟩
  | cons first rest ih =>
      rw [List.length_cons] at room
      obtain ⟨grows, table⟩ := ih (by omega)
        fun word member => small word (List.mem_cons_of_mem _ member)
      have sp := grows.sp
      obtain ⟨more, stored⟩ := pushWord_grows memory (stack.pushWords rest) first (by omega)
        (by omega) (small first List.mem_cons_self)
      rw [pushWords_cons]
      generalize (stack.pushWords rest).pushWord first = next at more stored ⊢
      have spMore := more.sp
      have total := grows.trans more
      have length : 4 + 4 * rest.length = 4 * (first :: rest).length := by
        rw [List.length_cons]
        omega
      rw [length] at total
      refine ⟨total, ?_⟩
      intro index word listed
      cases index with
      | zero =>
          rw [List.getElem?_cons_zero, Option.some.injEq] at listed
          rw [Nat.mul_zero, Nat.add_zero, ← listed]
          exact stored
      | succ index =>
          have same : next.sp + 4 * (index + 1) = (stack.pushWords rest).sp + 4 * index := by omega
          rw [same, more.word (by omega)]
          exact table index word listed

/-- The stack that is built below any other one. -/
def buildOn (start : Stack) (argv : List (List UInt8)) : Stack :=
  let (stack, addresses) := start.pushStrings argv
  let stack := (stack.pushWord 0).pushWords addresses
  let stack := stack.pushWord stack.sp
  stack.pushWord argv.length

theorem spaceFor_take {argv : List (List UInt8)} {string : List UInt8} {first last : Nat}
    (listed : argv[first]? = some string) (before : first < last) :
    spaceFor (argv.take first) + (string ++ [0]).length ≤ spaceFor (argv.take last) := by
  induction argv generalizing first last with
  | nil => cases listed
  | cons head rest ih =>
      obtain ⟨last, rfl⟩ : ∃ earlier, last = earlier + 1 := ⟨last - 1, by omega⟩
      rw [List.take_succ_cons, spaceFor_cons]
      cases first with
      | zero =>
          rw [List.getElem?_cons_zero, Option.some.injEq] at listed
          rw [← listed, List.length_append, List.length_singleton, List.take_zero]
          change 0 + (head.length + 1) ≤ _
          omega
      | succ first =>
          have later := ih listed (Nat.lt_of_succ_lt_succ before)
          rw [List.take_succ_cons, spaceFor_cons]
          omega

/-- What the words and the strings of the stack are. -/
theorem buildOn_words (memory : Nat → UInt8) (start : Stack) (argv : List (List UInt8))
    (below : start.sp < 2 ^ 32) (room : spaceFor argv + 4 * argv.length + 12 ≤ start.sp) :
    (buildOn start argv).sp + 8 + 4 * (argv.length + 1) + spaceFor argv = start.sp ∧
    wordOn (contents memory (buildOn start argv)) (buildOn start argv).sp = argv.length ∧
    wordOn (contents memory (buildOn start argv)) ((buildOn start argv).sp + 4) =
      (buildOn start argv).sp + 8 ∧
    wordOn (contents memory (buildOn start argv))
      ((buildOn start argv).sp + 8 + 4 * argv.length) = 0 ∧
    ∀ index string, argv[index]? = some string →
      wordOn (contents memory (buildOn start argv)) ((buildOn start argv).sp + 8 + 4 * index) =
        (buildOn start argv).sp + 8 + 4 * (argv.length + 1) + spaceFor (argv.take index) ∧
      Occupies (contents memory (buildOn start argv))
        ((buildOn start argv).sp + 8 + 4 * (argv.length + 1) + spaceFor (argv.take index))
        (string ++ [0]) := by
  obtain ⟨strings, count, copies⟩ := pushStrings_grows memory start argv (by omega) below
  have unfolded : buildOn start argv =
      ((((start.pushStrings argv).1.pushWord 0).pushWords (start.pushStrings argv).2).pushWord
        (((start.pushStrings argv).1.pushWord 0).pushWords (start.pushStrings argv).2).sp).pushWord
          argv.length := rfl
  rw [unfolded]
  generalize (start.pushStrings argv).1 = first at *
  generalize (start.pushStrings argv).2 = addresses at *
  have firstSp := strings.sp
  obtain ⟨null, nullWord⟩ := pushWord_grows memory first 0 (by omega) (by omega) (by decide)
  generalize first.pushWord 0 = second at *
  have secondSp := null.sp
  have small : ∀ word ∈ addresses, word < 2 ^ 32 := by
    intro word member
    obtain ⟨index, listed⟩ := List.mem_iff_getElem?.1 member
    have inside : index < argv.length := by
      rw [← count]
      exact (List.getElem?_eq_some_iff.1 listed).1
    have at_ := List.getElem?_eq_getElem inside
    have space := spaceFor_take at_ inside
    rw [List.take_length] at space
    rw [(copies index _ at_).1] at listed
    cases listed
    omega
  obtain ⟨table, words⟩ := pushWords_grows memory second addresses (by omega) (by omega) small
  generalize second.pushWords addresses = third at *
  have thirdSp := table.sp
  obtain ⟨base, baseWord⟩ := pushWord_grows memory third third.sp (by omega) (by omega) (by omega)
  generalize third.pushWord third.sp = fourth at *
  have fourthSp := base.sp
  obtain ⟨argc, argcWord⟩ :=
    pushWord_grows memory fourth argv.length (by omega) (by omega) (by omega)
  generalize fourth.pushWord argv.length = fifth at *
  have fifthSp := argc.sp
  have onTop : fifth.sp + 8 = third.sp := by omega
  have behind : fifth.sp + 8 + 4 * (argv.length + 1) = first.sp := by omega
  rw [behind, onTop]
  refine ⟨by omega, argcWord, ?_, ?_, ?_⟩
  · have at_ : fifth.sp + 4 = fourth.sp := by omega
    rw [at_, argc.word (Nat.le_refl _), baseWord]
  · have at_ : third.sp + 4 * argv.length = second.sp := by omega
    rw [at_, argc.word (by omega), base.word (by omega), table.word (Nat.le_refl _), nullWord]
  · intro index string listed
    obtain ⟨address, occupies⟩ := copies index string listed
    constructor
    · rw [argc.word (by omega), base.word (by omega)]
      exact words index _ address
    · exact argc.occupies (by omega) (base.occupies (by omega) (table.occupies (by omega)
        (null.occupies (by omega) occupies)))

end SYS.Stack

/-- What exec has built below 0xefffe000 is what the program is to find, wherever the
stack pointer stays above the lower half. -/
theorem exec_marshals (memory : Nat → UInt8) (argv : List (List UInt8))
    (room : 0x80000000 + stackFor argv < 0xefffe000) :
    (SYS.Stack.build argv).sp + stackFor argv = 0xefffe000 ∧
      Marshalled (SYS.apply memory (SYS.Stack.build argv).stores) (SYS.Stack.build argv).sp
        argv := by
  obtain ⟨start, top, built⟩ : ∃ start : SYS.Stack,
      start.sp + ((spaceFor argv + 4) / 4 * 4 - spaceFor argv) = 0xefffe000 ∧
        SYS.Stack.build argv = SYS.Stack.buildOn start argv := by
    refine ⟨{ sp := 0xefffe000 - ((spaceFor argv + 4) / 4 * 4 - spaceFor argv), stores := [] },
      ?_, rfl⟩
    simp only
    omega
  unfold stackFor at room ⊢
  obtain ⟨total, argc, table, null, strings⟩ :=
    SYS.Stack.buildOn_words memory start argv (by omega) (by omega)
  rw [built]
  generalize SYS.Stack.buildOn start argv = final at *
  change _ ∧ Marshalled (SYS.Stack.contents memory final) final.sp argv
  have inside {index : Nat} {string : List UInt8} (listed : argv[index]? = some string) :
      spaceFor (argv.take index) + (string ++ [0]).length ≤ spaceFor argv := by
    have space := SYS.Stack.spaceFor_take listed (List.getElem?_eq_some_iff.1 listed).1
    rwa [List.take_length] at space
  refine ⟨by omega, ?_⟩
  constructor
  · omega
  · exact argc
  · exact table
  · intro index string listed
    rw [(strings index string listed).1]
    exact (strings index string listed).2
  · exact null
  · intro first second string other before listed listedOther
    rw [(strings first string listed).1, (strings second other listedOther).1]
    have space := SYS.Stack.spaceFor_take listed before
    omega
  · intro index string listed
    rw [(strings index string listed).1]
    omega
  · intro index string listed
    rw [(strings index string listed).1]
    have space := inside listed
    omega

/-- The strings `ab` and `c`. -/
theorem exec_marshals_sample :
    Marshalled (SYS.apply (fun _ => 0xFF) (SYS.Stack.build [[0x61, 0x62], [0x63]]).stores)
      (SYS.Stack.build [[0x61, 0x62], [0x63]]).sp [[0x61, 0x62], [0x63]] :=
  (exec_marshals (fun _ => 0xFF) [[0x61, 0x62], [0x63]] (by decide)).2

end AC97Kernel
