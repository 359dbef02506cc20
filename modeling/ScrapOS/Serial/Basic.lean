import ScrapOS.Memory.Bytes

/-! The serial line of `lib/serial.c`, and the number formatters that print on it: `put_dec`
and `put_hex` of `kernel.c`, `put_dec` of `timer.c` and `put_hex64` of `isr.c`. The output
is what the UART was given so far; waiting for it to take the next byte is left out. A
formatter builds its digits in a local buffer whose bytes are arbitrary at first, and has
no result when it leaves the buffer. -/

set_option autoImplicit false

namespace ScrapOS

abbrev Output := List Byte

def ascii (c : Char) : Byte := BitVec.ofNat 8 c.toNat

def serialPutc (out : Output) (c : Byte) : Output := out ++ [c]

def serialWrite (out : Output) : List Byte → Output
  | [] => out
  | c :: rest =>
      serialWrite (serialPutc (if c = ascii '\n' then serialPutc out (ascii '\r') else out) c) rest

/-! ## Local buffers -/

/-- `buf[i] = c`. -/
def Buffer.store {size : Nat} (buf : Vector Byte size) (i : Nat) (c : Byte) : Option (Vector Byte size) :=
  if inside : i < size then some (buf.set i c inside) else none

/-- `while (i-- > 0) { serial_putc(buf[i]); }` -/
def putDown {size : Nat} (buf : Vector Byte size) : Nat → Output → Option Output
  | 0, out => some out
  | i + 1, out => buf[i]?.bind fun c => putDown buf i (serialPutc out c)

/-- The last `left` turns of `for (int i = 0; i < 16; i++) { serial_putc(buf[i]); }`. -/
def putUp {size : Nat} (buf : Vector Byte size) : Nat → Nat → Output → Option Output
  | 0, _, out => some out
  | left + 1, i, out => buf[i]?.bind fun c => putUp buf left (i + 1) (serialPutc out c)

/-! ## `put_dec` -/

theorem toNat_div_ten (v : Word) : (v / 10).toNat = v.toNat / 10 := BitVec.toNat_udiv

/-- The digit loop of `put_dec`, with the buffer and the index it ends with. -/
def decDigits (v : Word) (buf : Vector Byte 20) (i : Nat) : Option (Vector Byte 20 × Nat) :=
  if v > 0 then
    (Buffer.store buf i (((ascii '0').setWidth 64 + v % 10).setWidth 8)).bind fun buf =>
      decDigits (v / 10) buf (i + 1)
  else some (buf, i)
termination_by v.toNat
decreasing_by
  rename_i positive
  have nonzero : 0 < v.toNat := positive
  rw [toNat_div_ten]
  omega

/-- The body that `kernel.c` and `timer.c` both have. -/
def putDecBody (out : Output) (v : Word) (buf : Vector Byte 20) : Option Output :=
  if v = 0 then some (serialPutc out (ascii '0'))
  else (decDigits v buf 0).bind fun (buf, i) => putDown buf i out

def Kernel.putDec (out : Output) (v : Word) (buf : Vector Byte 20) : Option Output :=
  putDecBody out v buf

def Timer.putDec (out : Output) (v : Word) (buf : Vector Byte 20) : Option Output :=
  putDecBody out v buf

/-! ## `put_hex` -/

theorem toNat_shift_four (v : Word) : (v >>> 4).toNat = v.toNat / 16 := by
  rw [BitVec.toNat_ushiftRight, Nat.shiftRight_eq_div_pow]

/-- The digit loop of `put_hex`, which runs at least once. -/
def hexDigits (v : Word) (buf : Vector Byte 16) (i : Nat) : Option (Vector Byte 16 × Nat) :=
  let nib := (v &&& 0xF).setWidth 8
  (Buffer.store buf i (if nib < 10 then ascii '0' + nib else ascii 'a' + (nib - 10))).bind fun buf =>
    if v >>> 4 > 0 then hexDigits (v >>> 4) buf (i + 1) else some (buf, i + 1)
termination_by v.toNat
decreasing_by
  rename_i more
  have nonzero : 0 < (v >>> 4).toNat := more
  rw [toNat_shift_four] at nonzero ⊢
  omega

def Kernel.putHex (out : Output) (v : Word) (buf : Vector Byte 16) : Option Output :=
  (hexDigits v buf 0).bind fun (buf, i) => putDown buf i (serialWrite out [ascii '0', ascii 'x'])

/-! ## `put_hex64` -/

/-- `static const char digits[]`, with its terminator. -/
def hexTable : List Byte :=
  [ascii '0', ascii '1', ascii '2', ascii '3', ascii '4', ascii '5', ascii '6', ascii '7', ascii '8',
    ascii '9', ascii 'a', ascii 'b', ascii 'c', ascii 'd', ascii 'e', ascii 'f', 0]

/-- The turns of `for (int i = 15; i >= 0; i--)` for the indices below the given one. -/
def hex64Digits : Nat → Word → Vector Byte 16 → Option (Vector Byte 16)
  | 0, _, buf => some buf
  | i + 1, v, buf =>
      hexTable[(v &&& 0xF).toNat]?.bind fun c =>
        (Buffer.store buf i c).bind fun buf => hex64Digits i (v >>> 4) buf

def Isr.putHex64 (out : Output) (v : Word) (buf : Vector Byte 16) : Option Output :=
  (hex64Digits 16 v buf).bind fun buf =>
    putUp buf 16 0 (serialPutc (serialPutc out (ascii '0')) (ascii 'x'))

end ScrapOS
