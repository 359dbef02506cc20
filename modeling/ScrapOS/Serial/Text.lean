import ScrapOS.Serial.Numbers

/-! What `serial_write` puts on the line for a text, and the text read back. -/

set_option autoImplicit false

namespace ScrapOS

/-- The bytes of a string literal. -/
def text (s : String) : List Byte := s.toList.map ascii

@[simp] theorem newline_byte : ascii '\n' = 0x0a := rfl

@[simp] theorem return_byte : ascii '\r' = 0x0d := rfl

/-- The line for a text: a carriage return comes before each newline. -/
def wire : List Byte → List Byte
  | [] => []
  | c :: rest => if c = ascii '\n' then ascii '\r' :: c :: wire rest else c :: wire rest

/-- The receiving end drops the carriage returns that stand before newlines. -/
def unwire : List Byte → List Byte
  | [] => []
  | [c] => [c]
  | c :: next :: rest =>
      if c = ascii '\r' ∧ next = ascii '\n' then next :: unwire rest else c :: unwire (next :: rest)

section Text

variable {s : List Byte} {c : Byte}

theorem serialWrite_eq (out : Output) (s : List Byte) : serialWrite out s = out ++ wire s := by
  induction s generalizing out with
  | nil => simp [serialWrite, wire]
  | cons c rest ih =>
      by_cases newline : c = ascii '\n'
      · simp [serialWrite, wire, ih, serialPutc, newline]
      · simp only [serialWrite, wire, ih, serialPutc, newline, if_false, List.append_assoc,
          List.singleton_append]

@[simp] theorem wire_append (s t : List Byte) : wire (s ++ t) = wire s ++ wire t := by
  induction s with
  | nil => rfl
  | cons c rest ih =>
      simp only [List.cons_append, wire, ih]
      split <;> rfl

theorem wire_plain (plain : ascii '\n' ∉ s) : wire s = s := by
  induction s with
  | nil => rfl
  | cons c rest ih =>
      have other : c ≠ ascii '\n' := fun same => plain (same ▸ List.mem_cons_self)
      have restPlain : ascii '\n' ∉ rest := fun member => plain (List.mem_cons_of_mem _ member)
      simp only [wire, other, if_false, ih restPlain]

@[simp] theorem wire_numeral (n : Nat) : wire (decimal.numeral n) = decimal.numeral n := by
  refine wire_plain fun member => ?_
  obtain ⟨d, digit, same⟩ := List.mem_map.mp (List.mem_reverse.mp member)
  have apart : ∀ d < 10, decimal.digit d ≠ ascii '\n' := by decide
  exact apart d (Numerals.lt_of_mem_lowFirst digit) same

/-- The line never starts with a newline: its carriage return comes first. -/
theorem wire_head (s : List Byte) : (wire s).head? ≠ some (ascii '\n') := by
  cases s with
  | nil => simp [wire]
  | cons c rest =>
      by_cases newline : c = ascii '\n'
      · simp [wire, newline]
      · simp only [wire, newline, if_false, List.head?_cons, ne_eq, Option.some.injEq,
          not_false_eq_true]

theorem unwire_cons {line : List Byte} (apart : line.head? ≠ some (ascii '\n')) :
    unwire (c :: line) = c :: unwire line := by
  cases line with
  | nil => rfl
  | cons next rest =>
      have other : next ≠ ascii '\n' := fun same => apart (by rw [same, List.head?_cons])
      simp only [unwire, other, and_false, if_false]

/-- Whatever the text, its line reads back as the text. -/
theorem unwire_wire (s : List Byte) : unwire (wire s) = s := by
  induction s with
  | nil => rfl
  | cons c rest ih =>
      by_cases newline : c = ascii '\n'
      · simp only [wire, newline, if_true, unwire, and_self, ih]
      · simp only [wire, newline, if_false, unwire_cons (wire_head rest), ih]

end Text

end ScrapOS
