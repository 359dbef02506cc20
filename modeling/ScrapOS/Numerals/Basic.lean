import Mathlib

/-! Positional numerals over an alphabet, the most significant digit first. A number has one
numeral without a leading zero; every other numeral of it has zeros in front of that one. -/

set_option autoImplicit false

namespace ScrapOS

/-- A base with a character for each digit, and the digits read back from characters. -/
structure Numerals (α : Type) where
  base : Nat
  digit : Nat → α
  value : α → Option Nat
  one_lt : 1 < base
  value_iff : ∀ c d, value c = some d ↔ d < base ∧ digit d = c

namespace Numerals

variable {α : Type} (s : Numerals α)

/-- Reading on after a number that is already read. -/
def readFrom (n : Nat) : List α → Option Nat
  | [] => some n
  | c :: rest => (s.value c).bind fun d => readFrom (n * s.base + d) rest

def read : List α → Option Nat
  | [] => none
  | c :: rest => s.readFrom 0 (c :: rest)

/-- The digits of a number, the least significant first; at least one. -/
def lowFirst (n : Nat) : List Nat := if n = 0 then [0] else Nat.digits s.base n

/-- The lowest `count` digits of a number, the least significant first. -/
def lowest : Nat → Nat → List Nat
  | 0, _ => []
  | count + 1, n => n % s.base :: lowest count (n / s.base)

/-- The word that has these digits, the least significant first. -/
def spell (digits : List Nat) : List α := (digits.map s.digit).reverse

def numeral (n : Nat) : List α := s.spell (s.lowFirst n)

structure Canonical (word : List α) (n : Nat) : Prop where
  reads : s.read word = some n
  noLeadingZero : word.head? = some (s.digit 0) → word = [s.digit 0]

variable {s} {n count : Nat} {digits : List Nat} {word : List α}

/-! ## Spelling and reading -/

@[simp] theorem spell_nil : s.spell [] = [] := rfl

@[simp] theorem spell_cons (d : Nat) (digits : List Nat) :
    s.spell (d :: digits) = s.spell digits ++ [s.digit d] := by
  rw [spell, List.map_cons, List.reverse_cons, spell]

@[simp] theorem length_spell : (s.spell digits).length = digits.length := by
  rw [spell, List.length_reverse, List.length_map]

theorem spell_append (low high : List Nat) : s.spell (low ++ high) = s.spell high ++ s.spell low := by
  rw [spell, List.map_append, List.reverse_append, spell, spell]

theorem spell_replicate_zero (count : Nat) :
    s.spell (List.replicate count 0) = List.replicate count (s.digit 0) := by
  rw [spell, List.map_replicate, List.reverse_replicate]

theorem readFrom_append (n : Nat) (left right : List α) :
    s.readFrom n (left ++ right) = (s.readFrom n left).bind fun m => s.readFrom m right := by
  induction left generalizing n with
  | nil => rfl
  | cons c rest ih =>
      rw [List.cons_append, readFrom, readFrom]
      cases s.value c with
      | none => rfl
      | some d => exact ih _

theorem readFrom_spell (n : Nat) (small : ∀ d ∈ digits, d < s.base) :
    s.readFrom n (s.spell digits) = some (n * s.base ^ digits.length + Nat.ofDigits s.base digits) := by
  induction digits with
  | nil => simp [readFrom]
  | cons d digits ih =>
      have value : s.value (s.digit d) = some d :=
        (s.value_iff _ _).mpr ⟨small d List.mem_cons_self, rfl⟩
      have before := ih fun d member => small d (List.mem_cons_of_mem _ member)
      rw [spell_cons, readFrom_append, before, Option.bind_some, readFrom, value, Option.bind_some,
        readFrom, Nat.ofDigits_cons, List.length_cons]
      congr 1
      ring

theorem read_spell (nonempty : digits ≠ []) (small : ∀ d ∈ digits, d < s.base) :
    s.read (s.spell digits) = some (Nat.ofDigits s.base digits) := by
  have value := readFrom_spell 0 small
  rw [Nat.zero_mul, Nat.zero_add] at value
  cases spelled : s.spell digits with
  | nil =>
      have empty := congrArg List.length spelled
      rw [length_spell, List.length_nil] at empty
      exact absurd (List.length_eq_zero_iff.mp empty) nonempty
  | cons c rest =>
      rw [read, ← spelled]
      exact value

theorem exists_spell_of_readFrom {result : Nat} (reads : s.readFrom n word = some result) :
    ∃ digits, s.spell digits = word ∧ ∀ d ∈ digits, d < s.base := by
  induction word generalizing n with
  | nil => exact ⟨[], rfl, fun d member => by cases member⟩
  | cons c rest ih =>
      obtain ⟨d, value, later⟩ := Option.bind_eq_some_iff.mp reads
      obtain ⟨small, character⟩ := (s.value_iff c d).mp value
      obtain ⟨digits, spelled, restSmall⟩ := ih later
      refine ⟨digits ++ [d], ?_, ?_⟩
      · rw [spell_append, spelled, ← character]
        rfl
      · intro d' member
        cases List.mem_append.mp member with
        | inl before => exact restSmall d' before
        | inr last => exact List.mem_singleton.mp last ▸ small

/-- A word that reads as a number is spelled from digits of it. -/
theorem exists_spell (reads : s.read word = some n) :
    ∃ digits, s.spell digits = word ∧ digits ≠ [] ∧ (∀ d ∈ digits, d < s.base) ∧
      Nat.ofDigits s.base digits = n := by
  cases word with
  | nil => cases reads
  | cons c rest =>
      obtain ⟨digits, spelled, small⟩ := exists_spell_of_readFrom reads
      have nonempty : digits ≠ [] := by
        intro empty
        rw [empty] at spelled
        cases spelled
      have value := read_spell nonempty small
      rw [spelled, reads] at value
      exact ⟨digits, spelled, nonempty, small, (Option.some.inj value).symm⟩

/-! ## The digits of a number -/

theorem lowFirst_zero : s.lowFirst 0 = [0] := if_pos rfl

theorem lowFirst_pos (positive : n ≠ 0) : s.lowFirst n = Nat.digits s.base n := if_neg positive

theorem lowFirst_step : s.lowFirst n =
    n % s.base :: if n / s.base = 0 then [] else s.lowFirst (n / s.base) := by
  have one_lt := s.one_lt
  by_cases zero : n = 0
  · subst zero
    rw [lowFirst_zero, Nat.zero_mod, Nat.zero_div, if_pos rfl]
  · rw [lowFirst_pos zero, Nat.digits_def' one_lt (Nat.pos_of_ne_zero zero)]
    split
    · next last => rw [last, Nat.digits_zero]
    · next more => rw [lowFirst_pos more]

theorem lowFirst_ne_nil : s.lowFirst n ≠ [] := by
  rw [lowFirst_step]
  exact List.cons_ne_nil _ _

theorem lt_of_mem_lowFirst {d : Nat} (member : d ∈ s.lowFirst n) : d < s.base := by
  have one_lt := s.one_lt
  rw [lowFirst] at member
  split at member
  · rw [List.mem_singleton.mp member]
    omega
  · exact Nat.digits_lt_base one_lt member

theorem ofDigits_lowFirst : Nat.ofDigits s.base (s.lowFirst n) = n := by
  rw [lowFirst]
  split
  · next zero => rw [zero, Nat.ofDigits_singleton]
  · exact Nat.ofDigits_digits _ _

theorem length_lowFirst_le (positive : 0 < count) (bounded : n < s.base ^ count) :
    (s.lowFirst n).length ≤ count := by
  rw [lowFirst]
  split
  · exact positive
  · exact (Nat.digits_length_le_iff s.one_lt n).mpr bounded

@[simp] theorem length_lowest : (s.lowest count n).length = count := by
  induction count generalizing n with
  | zero => rfl
  | succ count ih => rw [lowest, List.length_cons, ih]

theorem lt_of_mem_lowest {d : Nat} (member : d ∈ s.lowest count n) : d < s.base := by
  induction count generalizing n with
  | zero => cases member
  | succ count ih =>
      cases List.mem_cons.mp member with
      | inl here => exact here ▸ Nat.mod_lt _ (Nat.lt_trans Nat.one_pos s.one_lt)
      | inr later => exact ih later

theorem ofDigits_lowest (bounded : n < s.base ^ count) : Nat.ofDigits s.base (s.lowest count n) = n := by
  induction count generalizing n with
  | zero =>
      rw [lowest, Nat.ofDigits_nil]
      exact (Nat.lt_one_iff.mp bounded).symm
  | succ count ih =>
      have rest : n / s.base < s.base ^ count := by
        apply Nat.div_lt_of_lt_mul
        rw [← Nat.pow_succ']
        exact bounded
      rw [lowest, Nat.ofDigits_cons, ih rest]
      exact Nat.mod_add_div n s.base

/-! ## The canonical numeral -/

theorem read_numeral : s.read (s.numeral n) = some n := by
  rw [numeral, read_spell lowFirst_ne_nil fun _ => lt_of_mem_lowFirst, ofDigits_lowFirst]

theorem length_numeral_le (positive : 0 < count) (bounded : n < s.base ^ count) :
    (s.numeral n).length ≤ count := by
  rw [numeral, length_spell]
  exact length_lowFirst_le positive bounded

theorem read_lowest (positive : 0 < count) (bounded : n < s.base ^ count) :
    s.read (s.spell (s.lowest count n)) = some n := by
  have nonempty : s.lowest count n ≠ [] := by
    intro empty
    have length : (s.lowest count n).length = count := length_lowest
    rw [empty] at length
    exact absurd length (Nat.ne_of_lt positive)
  rw [read_spell nonempty fun _ => lt_of_mem_lowest, ofDigits_lowest bounded]

/-- Two numerals of a number differ in leading zeros only. -/
theorem eq_zeros_append_numeral (reads : s.read word = some n) :
    word = List.replicate (word.length - (s.numeral n).length) (s.digit 0) ++ s.numeral n := by
  obtain ⟨digits, rfl, nonempty, small, rfl⟩ := exists_spell reads
  have padded : Nat.digitsAppend s.base digits.length (Nat.ofDigits s.base digits) = digits :=
    (Nat.setInvOn_digitsAppend_ofDigits s.one_lt digits.length).1 ⟨rfl, small⟩
  rw [length_spell, numeral, length_spell]
  by_cases zero : Nat.ofDigits s.base digits = 0
  · rw [zero, Nat.digitsAppend, Nat.digits_zero, List.nil_append, List.length_nil, Nat.sub_zero] at padded
    have positive : 0 < digits.length := List.length_pos_iff.mpr nonempty
    rw [zero, lowFirst_zero, spell_cons, spell_nil, List.nil_append, List.length_singleton,
      ← List.replicate_succ', Nat.sub_add_cancel positive, ← spell_replicate_zero, padded]
  · rw [Nat.digitsAppend] at padded
    rw [lowFirst_pos zero, ← spell_replicate_zero, ← spell_append, padded]

theorem canonical_numeral : s.Canonical (s.numeral n) n where
  reads := read_numeral
  noLeadingZero := by
    intro leading
    by_cases zero : n = 0
    · rw [zero, numeral, lowFirst_zero]
      rfl
    · have nonempty : Nat.digits s.base n ≠ [] := Nat.digits_ne_nil_iff_ne_zero.mpr zero
      rw [numeral, lowFirst_pos zero, spell, List.head?_reverse, List.getLast?_map,
        List.getLast?_eq_some_getLast nonempty, Option.map_some, Option.some.injEq] at leading
      have last := Nat.digits_lt_base s.one_lt (List.getLast_mem nonempty)
      have read := (s.value_iff _ _).mpr ⟨last, leading⟩
      have readZero := (s.value_iff _ _).mpr ⟨Nat.lt_trans Nat.one_pos s.one_lt, rfl⟩
      rw [readZero] at read
      exact absurd (Option.some.inj read).symm (Nat.getLast_digit_ne_zero s.base zero)

theorem canonical_iff : s.Canonical word n ↔ word = s.numeral n := by
  constructor
  · intro canonical
    have padded := eq_zeros_append_numeral canonical.reads
    have nonempty : 0 < (s.numeral n).length := by
      rw [numeral, length_spell]
      exact List.length_pos_iff.mpr lowFirst_ne_nil
    cases zeros : word.length - (s.numeral n).length with
    | zero =>
        rw [zeros] at padded
        exact padded
    | succ more =>
        rw [zeros, List.replicate_succ, List.cons_append] at padded
        have single := canonical.noLeadingZero (by rw [padded]; rfl)
        rw [single, List.length_singleton] at zeros
        omega
  · intro same
    exact same ▸ canonical_numeral

end Numerals

end ScrapOS
