import ScrapOS.Numerals.Basic

/-! Texts made of literals and numerals, and the numbers read back from them. A reader knows the
literals; a numeral ends where the next literal begins, whose first character is not a digit. -/

set_option autoImplicit false

namespace ScrapOS.Reports

/-- What a reader expects. -/
inductive Piece (α : Type) where
  | literal (word : List α)
  | number (s : Numerals α)

/-- What a writer writes: a numeral stands for a number that it reads as. -/
inductive Item (α : Type) where
  | literal (word : List α)
  | number (s : Numerals α) (digits : List α) (n : Nat) (reads : s.read digits = some n)

variable {α : Type}

def Item.piece : Item α → Piece α
  | .literal word => .literal word
  | .number s _ _ _ => .number s

def Item.word : Item α → List α
  | .literal word => word
  | .number _ digits _ _ => digits

def Item.value : Item α → List Nat
  | .literal _ => []
  | .number _ _ n _ => [n]

def render (items : List (Item α)) : List α := items.flatMap Item.word

def numbers (items : List (Item α)) : List Nat := items.flatMap Item.value

/-- The numbers of a text, and what follows it. -/
def read [DecidableEq α] : List (Piece α) → List α → Option (List Nat × List α)
  | [], input => some ([], input)
  | .literal word :: pieces, input =>
      if word <+: input then read pieces (input.drop word.length) else none
  | .number s :: pieces, input =>
      let digits := input.takeWhile fun c => (s.value c).isSome
      (s.read digits).bind fun n =>
        (read pieces (input.drop digits.length)).map fun found => (n :: found.1, found.2)

/-- A literal that is not a digit follows each numeral. -/
def Separated : List (Item α) → Prop
  | [] => True
  | .literal _ :: items => Separated items
  | .number s _ _ _ :: items =>
      (∃ c word rest, items = .literal (c :: word) :: rest ∧ s.value c = none) ∧ Separated items

/-! ## Reading what was written -/

section Reading

variable {s : Numerals α} {digits : List α} {n : Nat}

@[simp] theorem render_nil : render ([] : List (Item α)) = [] := rfl

@[simp] theorem render_cons (item : Item α) (items : List (Item α)) :
    render (item :: items) = item.word ++ render items := List.flatMap_cons

@[simp] theorem render_append (items more : List (Item α)) :
    render (items ++ more) = render items ++ render more := List.flatMap_append

@[simp] theorem numbers_cons (item : Item α) (items : List (Item α)) :
    numbers (item :: items) = item.value ++ numbers items := List.flatMap_cons

@[simp] theorem numbers_append (items more : List (Item α)) :
    numbers (items ++ more) = numbers items ++ numbers more := List.flatMap_append

@[simp] theorem render_flatMap {β : Type} (line : β → List (Item α)) (lines : List β) :
    render (lines.flatMap line) = lines.flatMap fun entry => render (line entry) := by
  simp only [render, List.flatMap_assoc]

@[simp] theorem numbers_flatMap {β : Type} (line : β → List (Item α)) (lines : List β) :
    numbers (lines.flatMap line) = lines.flatMap fun entry => numbers (line entry) := by
  simp only [numbers, List.flatMap_assoc]

/-- A numeral ends where a character stands that is not one of its digits. -/
theorem Separated.number {reads : s.read digits = some n} {c : α} {word : List α}
    {items : List (Item α)} (other : s.value c = none) (later : Separated items) :
    Separated (.number s digits n reads :: .literal (c :: word) :: items) :=
  ⟨⟨c, word, items, rfl, other⟩, later⟩

theorem Separated.append {items more : List (Item α)} (first : Separated items)
    (second : Separated more) : Separated (items ++ more) := by
  induction items with
  | nil => exact second
  | cons item items ih =>
      cases item with
      | literal word => exact ih first
      | number s digits n reads =>
          obtain ⟨⟨c, word, rest, rfl, other⟩, later⟩ := first
          exact ⟨⟨c, word, rest ++ more, rfl, other⟩, ih later⟩

theorem Separated.flatMap {β : Type} {line : β → List (Item α)} {lines : List β}
    (each : ∀ entry ∈ lines, Separated (line entry)) : Separated (lines.flatMap line) := by
  induction lines with
  | nil => trivial
  | cons entry lines ih =>
      rw [List.flatMap_cons]
      exact (each entry List.mem_cons_self).append
        (ih fun other member => each other (List.mem_cons_of_mem _ member))

/-- A numeral is all digits, so the digits in front of another character are the numeral. -/
theorem takeWhile_numeral (reads : s.read digits = some n) {c : α} (other : s.value c = none)
    (rest : List α) : (digits ++ c :: rest).takeWhile (fun c => (s.value c).isSome) = digits := by
  obtain ⟨spelled, rfl, -, small, -⟩ := Numerals.exists_spell reads
  have all : ∀ c ∈ s.spell spelled, (s.value c).isSome = true := by
    intro c member
    obtain ⟨d, inside, rfl⟩ := List.mem_map.mp (List.mem_reverse.mp member)
    simp [(s.value_iff (s.digit d) d).mpr ⟨small d inside, rfl⟩]
  rw [List.takeWhile_append_of_pos all]
  simp [other]

theorem read_render [DecidableEq α] {items : List (Item α)} (separated : Separated items)
    (rest : List α) :
    read (items.map Item.piece) (render items ++ rest) = some (numbers items, rest) := by
  induction items with
  | nil => rfl
  | cons item items ih =>
      cases item with
      | literal word =>
          have here : word <+: word ++ (render items ++ rest) := List.prefix_append _ _
          simp only [List.map_cons, Item.piece, read, render_cons, Item.word, List.append_assoc, here,
            if_true, List.drop_left, ih separated, numbers_cons, Item.value, List.nil_append]
      | number s digits n reads =>
          obtain ⟨⟨c, word, more, shape, other⟩, later⟩ := separated
          have next : render items ++ rest = c :: (word ++ render more ++ rest) := by
            simp [shape, Item.word]
          have taken : (digits ++ (render items ++ rest)).takeWhile
              (fun c => (s.value c).isSome) = digits := by
            rw [next]
            exact takeWhile_numeral reads other _
          simp only [List.map_cons, Item.piece, read, render_cons, Item.word, List.append_assoc, taken,
            reads, Option.bind_some, List.drop_left, ih later, Option.map_some, numbers_cons,
            Item.value, List.singleton_append]

end Reading

end ScrapOS.Reports
