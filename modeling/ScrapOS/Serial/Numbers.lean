import ScrapOS.Serial.Basic
import ScrapOS.Numerals.Basic

/-! The numbers on the serial line read back: the decimal printers and `put_hex` print the
canonical numeral of a value, `put_hex64` the same with zeros in front, and none of them
leaves its buffer. -/

set_option autoImplicit false

namespace ScrapOS

/-! ## Decimal and hexadecimal numerals -/

/-- The place of a character among the `count` ones from `first` on. -/
def placeOf (first : Byte) (count : Nat) (c : Byte) : Option Nat :=
  if first.toNat ≤ c.toNat ∧ c.toNat < first.toNat + count then some (c.toNat - first.toNat)
  else none

theorem placeOf_eq_some_iff {first c : Byte} {count d : Nat} (fits : first.toNat + count ≤ 256) :
    placeOf first count c = some d ↔ d < count ∧ first + BitVec.ofNat 8 d = c := by
  have place : d < count ∧ first + BitVec.ofNat 8 d = c ↔ d < count ∧ c.toNat = first.toNat + d :=
    and_congr_right fun small => by bv_omega
  rw [place, placeOf]
  split
  · rw [Option.some.injEq]
    omega
  · next outside =>
    constructor
    · intro found
      cases found
    · intro range
      omega

def decimal : Numerals Byte where
  base := 10
  digit := fun d => ascii '0' + BitVec.ofNat 8 d
  value := placeOf (ascii '0') 10
  one_lt := by decide
  value_iff := fun _ _ => placeOf_eq_some_iff (by decide)

def hexDigit (d : Nat) : Byte :=
  if d < 10 then ascii '0' + BitVec.ofNat 8 d else ascii 'a' + BitVec.ofNat 8 (d - 10)

def hexValue (c : Byte) : Option Nat :=
  match placeOf (ascii '0') 10 c with
  | some d => some d
  | none => (placeOf (ascii 'a') 6 c).map (· + 10)

theorem hexDigit_toNat {d : Nat} (small : d < 16) :
    (hexDigit d).toNat = if d < 10 then 48 + d else 87 + d := by
  have zero : (ascii '0').toNat = 48 := rfl
  have letterA : (ascii 'a').toNat = 97 := rfl
  rw [hexDigit]
  split <;> rw [BitVec.toNat_add, BitVec.toNat_ofNat] <;> omega

theorem hexValue_eq_some_iff (c : Byte) (d : Nat) : hexValue c = some d ↔ d < 16 ∧ hexDigit d = c := by
  have zero : (ascii '0').toNat = 48 := rfl
  have letterA : (ascii 'a').toNat = 97 := rfl
  have spelled : d < 16 ∧ hexDigit d = c ↔ d < 16 ∧ c.toNat = if d < 10 then 48 + d else 87 + d := by
    refine and_congr_right fun small => ?_
    rw [← hexDigit_toNat small, eq_comm, BitVec.toNat_inj]
  rw [spelled, hexValue, placeOf, placeOf, zero, letterA]
  by_cases number : 48 ≤ c.toNat ∧ c.toNat < 48 + 10
  · rw [if_pos number]
    dsimp only
    rw [Option.some.injEq]
    split <;> omega
  · rw [if_neg number]
    dsimp only
    by_cases letter : 97 ≤ c.toNat ∧ c.toNat < 97 + 6
    · rw [if_pos letter, Option.map_some, Option.some.injEq]
      split <;> omega
    · rw [if_neg letter, Option.map_none]
      constructor
      · intro found
        cases found
      · intro range
        obtain ⟨small, place⟩ := range
        split at place <;> omega

/-- Hexadecimal with lower-case letters. -/
def hexadecimal : Numerals Byte where
  base := 16
  digit := hexDigit
  value := hexValue
  one_lt := by decide
  value_iff := hexValue_eq_some_iff

/-! ## Buffers filled from the start -/

section Buffers

variable {size : Nat} {buf : Vector Byte size} {written : List Byte} {out : Output}

theorem store_written (filled : written <+: buf.toList) (room : written.length < size) (c : Byte) :
    ∃ buf', Buffer.store buf written.length c = some buf' ∧ written ++ [c] <+: buf'.toList := by
  refine ⟨buf.set written.length c room, dif_pos room, ?_⟩
  obtain ⟨rest, whole⟩ := filled
  have length := congrArg List.length whole
  rw [List.length_append, Vector.length_toList] at length
  cases rest with
  | nil =>
      rw [List.length_nil] at length
      omega
  | cons old rest =>
      refine ⟨rest, ?_⟩
      rw [Vector.toList_set, ← whole, List.set_append_right _ _ (Nat.le_refl _), Nat.sub_self,
        List.set_cons_zero, List.append_assoc, List.singleton_append]

theorem putDown_written (filled : written <+: buf.toList) :
    putDown buf written.length out = some (out ++ written.reverse) := by
  induction written using List.reverseRecOn generalizing out with
  | nil => rw [List.reverse_nil, List.append_nil, List.length_nil, putDown]
  | append_singleton written c ih =>
      have before : written <+: buf.toList := (List.prefix_append _ _).trans filled
      have found : buf[written.length]? = some c := by
        obtain ⟨rest, whole⟩ := filled
        rw [← Vector.getElem?_toList, ← whole]
        simp
      rw [List.length_append, List.length_singleton, putDown, found, Option.bind_some, ih before,
        serialPutc, List.reverse_append, List.append_assoc]
      rfl

theorem putUp_rest {i left : Nat} (whole : i + left = size) :
    putUp buf left i out = some (out ++ buf.toList.drop i) := by
  induction left generalizing i out with
  | zero =>
      rw [putUp, List.drop_eq_nil_of_le (by rw [Vector.length_toList]; omega), List.append_nil]
  | succ left ih =>
      have inside : i < size := by omega
      have found : buf[i]? = some buf[i] := Vector.getElem?_eq_getElem inside
      have next : buf.toList.drop i = buf[i] :: buf.toList.drop (i + 1) := by
        rw [List.drop_eq_getElem_cons (by rw [Vector.length_toList]; exact inside), Vector.getElem_toList]
      rw [putUp, found, Option.bind_some, ih (by omega), serialPutc, List.append_assoc, next]
      rfl

end Buffers

/-! ## The digits the code computes -/

theorem decimal_char (v : Word) :
    ((ascii '0').setWidth 64 + v % 10).setWidth 8 = decimal.digit (v.toNat % 10) := by
  have remainder : (v % 10).toNat = v.toNat % 10 := BitVec.toNat_umod
  apply BitVec.eq_of_toNat_eq
  change _ = (ascii '0' + BitVec.ofNat 8 (v.toNat % 10)).toNat
  have zero : (ascii '0').toNat = 48 := rfl
  rw [BitVec.toNat_setWidth, BitVec.toNat_add, BitVec.toNat_add, BitVec.toNat_setWidth, remainder, zero,
    BitVec.toNat_ofNat]
  omega

theorem toNat_low_nibble (v : Word) : (v &&& 0xF).toNat = v.toNat % 16 := by
  rw [BitVec.toNat_and]
  exact Nat.and_two_pow_sub_one_eq_mod v.toNat 4

theorem nibble_char : ∀ d < 16,
    (if BitVec.ofNat 8 d < 10 then ascii '0' + BitVec.ofNat 8 d
      else ascii 'a' + (BitVec.ofNat 8 d - 10)) = hexadecimal.digit d := by decide

theorem hexadecimal_char (v : Word) :
    (if (v &&& 0xF).setWidth 8 < 10 then ascii '0' + (v &&& 0xF).setWidth 8
      else ascii 'a' + ((v &&& 0xF).setWidth 8 - 10)) = hexadecimal.digit (v.toNat % 16) := by
  have nibble : (v &&& 0xF).setWidth 8 = BitVec.ofNat 8 (v.toNat % 16) := by
    rw [← toNat_low_nibble]
    rfl
  rw [nibble]
  exact nibble_char _ (Nat.mod_lt _ (by decide))

theorem hexTable_char : ∀ d < 16, hexTable[d]? = some (hexadecimal.digit d) := by decide

/-! ## The digit loops -/

theorem decDigits_written {v : Word} {buf : Vector Byte 20} {written : List Byte}
    (filled : written <+: buf.toList)
    (room : written.length + (Nat.digits 10 v.toNat).length ≤ 20) :
    ∃ buf', decDigits v buf written.length =
        some (buf', (written ++ (Nat.digits 10 v.toNat).map decimal.digit).length) ∧
      written ++ (Nat.digits 10 v.toNat).map decimal.digit <+: buf'.toList := by
  induction left : v.toNat using Nat.strongRecOn generalizing v buf written with
  | ind n ih =>
      subst left
      rw [decDigits]
      cases Nat.eq_zero_or_pos v.toNat with
      | inl zero =>
          have done : ¬ v > 0 := fun positive => Nat.ne_of_gt positive zero
          rw [if_neg done, zero, Nat.digits_zero, List.map_nil, List.append_nil]
          exact ⟨buf, rfl, filled⟩
      | inr positive =>
          have more : v > 0 := positive
          have digits := Nat.digits_def' (by decide : 1 < 10) positive
          have smaller : (v / 10).toNat < v.toNat := by
            rw [toNat_div_ten]
            omega
          rw [digits, List.length_cons] at room
          obtain ⟨buf', stored, filled'⟩ := store_written filled (by omega) (decimal.digit (v.toNat % 10))
          have rest := ih _ smaller filled' (by
            rw [List.length_append, List.length_singleton, toNat_div_ten]
            omega) rfl
          have next : (written ++ [decimal.digit (v.toNat % 10)]).length = written.length + 1 :=
            List.length_append
          rw [next, toNat_div_ten, List.append_assoc, List.singleton_append, ← List.map_cons,
            ← digits] at rest
          rw [if_pos more, decimal_char, stored]
          exact rest

theorem hexDigits_written {v : Word} {buf : Vector Byte 16} {written : List Byte}
    (filled : written <+: buf.toList)
    (room : written.length + (hexadecimal.lowFirst v.toNat).length ≤ 16) :
    ∃ buf', hexDigits v buf written.length =
        some (buf', (written ++ (hexadecimal.lowFirst v.toNat).map hexadecimal.digit).length) ∧
      written ++ (hexadecimal.lowFirst v.toNat).map hexadecimal.digit <+: buf'.toList := by
  induction left : v.toNat using Nat.strongRecOn generalizing v buf written with
  | ind n ih =>
      subst left
      have digits := hexadecimal.lowFirst_step (n := v.toNat)
      have nonempty : 0 < (hexadecimal.lowFirst v.toNat).length :=
        List.length_pos_iff.mpr Numerals.lowFirst_ne_nil
      obtain ⟨buf', stored, filled'⟩ := store_written filled (by omega) (hexadecimal.digit (v.toNat % 16))
      have next : (written ++ [hexadecimal.digit (v.toNat % 16)]).length = written.length + 1 :=
        List.length_append
      rw [hexDigits, hexadecimal_char, stored, Option.bind_some]
      cases Nat.eq_zero_or_pos (v >>> 4).toNat with
      | inl zero =>
          have done : ¬ v >>> 4 > 0 := fun positive => Nat.ne_of_gt positive zero
          rw [toNat_shift_four] at zero
          have last : hexadecimal.lowFirst v.toNat = [v.toNat % 16] := by
            rw [digits]
            exact congrArg _ (if_pos zero)
          rw [if_neg done, last, ← next]
          exact ⟨buf', rfl, filled'⟩
      | inr positive =>
          have more : v >>> 4 > 0 := positive
          rw [toNat_shift_four] at positive
          have cons : hexadecimal.lowFirst v.toNat =
              v.toNat % 16 :: hexadecimal.lowFirst (v >>> 4).toNat := by
            rw [digits, toNat_shift_four]
            exact congrArg _ (if_neg (Nat.ne_of_gt positive))
          have smaller : (v >>> 4).toNat < v.toNat := by
            rw [toNat_shift_four]
            omega
          rw [cons, List.length_cons] at room
          have rest := ih _ smaller filled' (by rw [next]; omega) rfl
          rw [next, List.append_assoc, List.singleton_append, ← List.map_cons, ← cons] at rest
          rw [if_pos more]
          exact rest

theorem hex64Digits_written {count : Nat} (bounded : count ≤ 16) (v : Word) (buf : Vector Byte 16) :
    ∃ buf', hex64Digits count v buf = some buf' ∧
      buf'.toList = hexadecimal.spell (hexadecimal.lowest count v.toNat) ++ buf.toList.drop count := by
  induction count generalizing v buf with
  | zero => exact ⟨buf, rfl, rfl⟩
  | succ i ih =>
      have inside : i < 16 := bounded
      obtain ⟨buf', filled, digits⟩ := ih (Nat.le_of_lt inside) (v >>> 4)
        (buf.set i (hexadecimal.digit (v.toNat % 16)) inside)
      refine ⟨buf', ?_, ?_⟩
      · rw [hex64Digits, toNat_low_nibble, hexTable_char _ (Nat.mod_lt _ (by decide)), Option.bind_some,
          Buffer.store, dif_pos inside, Option.bind_some, filled]
      · have next : (buf.toList.set i (hexadecimal.digit (v.toNat % 16))).drop i =
            hexadecimal.digit (v.toNat % 16) :: buf.toList.drop (i + 1) := by
          have old : buf.toList.drop i = buf[i] :: buf.toList.drop (i + 1) :=
            List.drop_eq_getElem_cons (by rw [Vector.length_toList]; exact inside)
          rw [List.drop_set, if_neg (Nat.lt_irrefl i), Nat.sub_self, old, List.set_cons_zero]
        rw [digits, Vector.toList_set, next, toNat_shift_four, Numerals.lowest, Numerals.spell_cons,
          List.append_assoc, List.singleton_append]
        rfl

/-! ## The printers -/

section Printers

variable (out : Output) (v : Word)

theorem putDecBody_eq (buf : Vector Byte 20) :
    putDecBody out v buf = some (out ++ decimal.numeral v.toNat) := by
  rw [putDecBody]
  split
  · next zero =>
    subst zero
    rfl
  · next positive =>
    have nonzero : v.toNat ≠ 0 := fun zero => positive (BitVec.eq_of_toNat_eq zero)
    have digits : decimal.lowFirst v.toNat = Nat.digits 10 v.toNat := Numerals.lowFirst_pos nonzero
    have room : (Nat.digits 10 v.toNat).length ≤ 20 :=
      (Nat.digits_length_le_iff (by decide) _).mpr (Nat.lt_trans v.isLt (by decide))
    have empty : [] <+: buf.toList := List.nil_prefix
    obtain ⟨buf', looped, filled⟩ := decDigits_written (v := v) empty
      (by rw [List.length_nil, Nat.zero_add]; exact room)
    rw [List.nil_append] at looped filled
    rw [← List.length_nil, looped, Option.bind_some]
    dsimp only
    rw [putDown_written filled, Numerals.numeral, Numerals.spell, digits]

theorem Kernel.putHex_eq (buf : Vector Byte 16) : Kernel.putHex out v buf =
    some (out ++ [ascii '0', ascii 'x'] ++ hexadecimal.numeral v.toNat) := by
  have room : (hexadecimal.lowFirst v.toNat).length ≤ 16 :=
    Numerals.length_lowFirst_le (by decide) v.isLt
  have empty : [] <+: buf.toList := List.nil_prefix
  obtain ⟨buf', looped, filled⟩ := hexDigits_written (v := v) empty
    (by rw [List.length_nil, Nat.zero_add]; exact room)
  have sign : serialWrite out [ascii '0', ascii 'x'] = out ++ [ascii '0', ascii 'x'] := by
    simp [serialWrite, serialPutc, ascii]
  rw [List.nil_append] at looped filled
  rw [Kernel.putHex, ← List.length_nil, looped, Option.bind_some]
  dsimp only
  rw [putDown_written filled, Numerals.numeral, Numerals.spell, sign]

theorem Isr.putHex64_eq (buf : Vector Byte 16) : Isr.putHex64 out v buf =
    some (out ++ [ascii '0', ascii 'x'] ++ hexadecimal.spell (hexadecimal.lowest 16 v.toNat)) := by
  obtain ⟨buf', looped, digits⟩ := hex64Digits_written (Nat.le_refl 16) v buf
  have whole : buf.toList.drop 16 = [] := List.drop_eq_nil_of_le (by rw [Vector.length_toList])
  rw [whole, List.append_nil] at digits
  rw [Isr.putHex64, looped, Option.bind_some, putUp_rest (Nat.zero_add 16), List.drop_zero, digits, serialPutc, serialPutc,
    List.append_assoc out]
  rfl

end Printers

/-- Every printer prints a numeral of its argument: the decimal ones and `put_hex` the
canonical one, `put_hex64` the one of sixteen digits. -/
theorem printed_numbers_read_back (out : Output) (v : Word) (kernelBuf timerBuf : Vector Byte 20)
    (hexBuf hex64Buf : Vector Byte 16) :
    (∃ digits, Kernel.putDec out v kernelBuf = some (out ++ digits) ∧
      Timer.putDec out v timerBuf = some (out ++ digits) ∧
      decimal.Canonical digits v.toNat ∧ digits.length ≤ 20 ∧
      ∀ word, decimal.Canonical word v.toNat → word = digits) ∧
    ∃ digits digits64,
      Kernel.putHex out v hexBuf = some (out ++ [ascii '0', ascii 'x'] ++ digits) ∧
      hexadecimal.Canonical digits v.toNat ∧ digits.length ≤ 16 ∧
      (∀ word, hexadecimal.Canonical word v.toNat → word = digits) ∧
      Isr.putHex64 out v hex64Buf = some (out ++ [ascii '0', ascii 'x'] ++ digits64) ∧
      digits64.length = 16 ∧ hexadecimal.read digits64 = some v.toNat ∧
      digits64 = List.replicate (16 - digits.length) (ascii '0') ++ digits := by
  have reads : hexadecimal.read (hexadecimal.spell (hexadecimal.lowest 16 v.toNat)) = some v.toNat :=
    Numerals.read_lowest (by decide) v.isLt
  have length : (hexadecimal.spell (hexadecimal.lowest 16 v.toNat)).length = 16 := by
    rw [Numerals.length_spell, Numerals.length_lowest]
  have padded := Numerals.eq_zeros_append_numeral reads
  rw [length] at padded
  refine ⟨⟨_, putDecBody_eq out v kernelBuf, putDecBody_eq out v timerBuf, Numerals.canonical_numeral, ?_,
      fun word => Numerals.canonical_iff.mp⟩,
    ⟨_, _, Kernel.putHex_eq out v hexBuf, Numerals.canonical_numeral, ?_,
      fun word => Numerals.canonical_iff.mp, Isr.putHex64_eq out v hex64Buf, length, reads, padded⟩⟩
  · exact Numerals.length_numeral_le (by decide) (Nat.lt_trans v.isLt (by decide))
  · exact Numerals.length_numeral_le (by decide) v.isLt

end ScrapOS
