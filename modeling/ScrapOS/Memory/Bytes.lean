import Mathlib

/-! Byte memory over the full 64-bit address space, with little-endian loads and
stores of any width. Addresses wrap, so a range is described by the distance
from its base and not by two ordered end points. -/

set_option autoImplicit false

namespace ScrapOS

abbrev Byte := BitVec 8
abbrev Word := BitVec 64

/-- Every address holds a byte; which addresses a program may use is a matter
for the invariants of that program. -/
abbrev Memory := Word → Byte

/-- The `count` addresses from `base` on, wrapping at the end of the address space. -/
def span (base : Word) (count : Nat) : Set Word :=
  {address | (address - base).toNat < count}

namespace Memory

def load (m : Memory) (address : Word) : Nat → Nat
  | 0 => 0
  | count + 1 => (m address).toNat + 256 * load m (address + 1) count

def store (m : Memory) (address : Word) (count value : Nat) : Memory := fun target =>
  if (target - address).toNat < count then
    BitVec.ofNat 8 (value >>> (8 * (target - address).toNat))
  else m target

def load64 (m : Memory) (address : Word) : Word := BitVec.ofNat 64 (m.load address 8)

def store64 (m : Memory) (address value : Word) : Memory := m.store address 8 value.toNat

def load32 (m : Memory) (address : Word) : BitVec 32 := BitVec.ofNat 32 (m.load address 4)

def store32 (m : Memory) (address : Word) (value : BitVec 32) : Memory :=
  m.store address 4 value.toNat

def store8 (m : Memory) (address : Word) (value : Byte) : Memory :=
  Function.update m address value

end Memory

/-! ## Masks -/

section Masks

variable {w : Nat} (x mask : BitVec w)

private theorem and_not_eq_sub : x &&& ~~~mask = x - (x &&& mask) := by
  have apart : (x &&& ~~~mask) &&& (x &&& mask) = 0#w := by
    ext i
    simp only [BitVec.getElem_and, BitVec.getElem_not, BitVec.getElem_zero]
    cases x[i] <;> cases mask[i] <;> rfl
  have whole : (x &&& ~~~mask) ||| (x &&& mask) = x := by
    ext i
    simp only [BitVec.getElem_or, BitVec.getElem_and, BitVec.getElem_not]
    cases x[i] <;> cases mask[i] <;> rfl
  have sum := BitVec.add_eq_or_of_and_eq_zero _ _ apart
  rw [whole] at sum
  exact BitVec.eq_sub_iff_add_eq.mpr sum

theorem and_not_low (bits : Nat) (small : bits ≤ w) :
    (x &&& ~~~(BitVec.ofNat w (2 ^ bits - 1))).toNat = x.toNat / 2 ^ bits * 2 ^ bits := by
  have bound : 2 ^ bits ≤ 2 ^ w := Nat.pow_le_pow_right (by decide) small
  have positive := Nat.two_pow_pos bits
  have low : (x &&& BitVec.ofNat w (2 ^ bits - 1)).toNat = x.toNat % 2 ^ bits := by
    rw [BitVec.toNat_and, BitVec.toNat_ofNat, Nat.mod_eq_of_lt (by omega),
      Nat.and_two_pow_sub_one_eq_mod]
  have inside : x &&& BitVec.ofNat w (2 ^ bits - 1) ≤ x := by
    rw [BitVec.le_def, low]
    exact Nat.mod_le _ _
  have division := Nat.div_add_mod x.toNat (2 ^ bits)
  rw [and_not_eq_sub, BitVec.toNat_sub_of_le inside, low, Nat.mul_comm]
  omega

end Masks

/-! ## Spans -/

theorem mem_span {base address : Word} {count : Nat} :
    address ∈ span base count ↔ (address - base).toNat < count := Iff.rfl

@[simp] theorem span_zero (base : Word) : span base 0 = ∅ := by
  ext address
  simp [span]

theorem base_mem_span {base : Word} {count : Nat} (positive : 0 < count) :
    base ∈ span base count := by
  rw [mem_span, BitVec.sub_self]
  exact positive

theorem span_mono {base : Word} {count larger : Nat} (le : count ≤ larger) :
    span base count ⊆ span base larger :=
  fun _ member => Nat.lt_of_lt_of_le member le

theorem span_subset {base inner : Word} {count innerCount : Nat}
    (fits : (inner - base).toNat + innerCount ≤ count) :
    span inner innerCount ⊆ span base count := by
  intro address member
  simp only [mem_span] at member ⊢
  bv_omega

theorem span_disjoint {left right : Word} {leftCount rightCount : Nat}
    (past : leftCount ≤ (right - left).toNat) (before : rightCount ≤ (left - right).toNat) :
    Disjoint (span left leftCount) (span right rightCount) := by
  rw [Set.disjoint_left]
  intro address inLeft inRight
  simp only [mem_span] at inLeft inRight
  bv_omega

namespace Memory

/-! ## Loads -/

theorem load_congr {m m' : Memory} {address : Word} {count : Nat} (bounded : count ≤ 2 ^ 64)
    (agree : Set.EqOn m m' (span address count)) :
    m.load address count = m'.load address count := by
  induction count generalizing address with
  | zero => rfl
  | succ count ih =>
      have head : m address = m' address := agree (base_mem_span (Nat.succ_pos count))
      have tail : Set.EqOn m m' (span (address + 1) count) :=
        agree.mono (span_subset (by bv_omega))
      simp only [load, head, ih (by omega) tail]

theorem load_moved {m m' : Memory} {address moved : Word} {count : Nat}
    (agree : ∀ i, i < count → m' (moved + BitVec.ofNat 64 i) = m (address + BitVec.ofNat 64 i)) :
    m'.load moved count = m.load address count := by
  induction count generalizing address moved with
  | zero => rfl
  | succ count ih =>
      have head : m' moved = m address := by simpa using agree 0 (Nat.succ_pos count)
      have tail : m'.load (moved + 1) count = m.load (address + 1) count := by
        refine ih fun i inside => ?_
        have next := agree (i + 1) (Nat.succ_lt_succ inside)
        have shift : ∀ start : Word, start + 1 + BitVec.ofNat 64 i = start + BitVec.ofNat 64 (i + 1) :=
          fun start => by bv_omega
        rw [shift, shift, next]
      simp only [load, head, tail]

theorem load64_congr {m m' : Memory} {address : Word}
    (agree : Set.EqOn m m' (span address 8)) : m.load64 address = m'.load64 address := by
  rw [load64, load64, load_congr (by decide) agree]

theorem load32_congr {m m' : Memory} {address : Word}
    (agree : Set.EqOn m m' (span address 4)) : m.load32 address = m'.load32 address := by
  rw [load32, load32, load_congr (by decide) agree]

/-! ## Stores -/

theorem store_eqOn_compl (m : Memory) (address : Word) (count value : Nat) :
    Set.EqOn (m.store address count value) m (span address count)ᶜ := by
  intro target outside
  have past : ¬ (target - address).toNat < count := outside
  simp only [store, past, if_false]

theorem store64_eqOn_compl (m : Memory) (address value : Word) :
    Set.EqOn (m.store64 address value) m (span address 8)ᶜ :=
  store_eqOn_compl m address 8 value.toNat

theorem store32_eqOn_compl (m : Memory) (address : Word) (value : BitVec 32) :
    Set.EqOn (m.store32 address value) m (span address 4)ᶜ :=
  store_eqOn_compl m address 4 value.toNat

private theorem load_store_from (m : Memory) (address : Word) (value skipped count total : Nat)
    (inside : skipped + count ≤ total) (bounded : total ≤ 2 ^ 64) :
    (m.store address total value).load (address + BitVec.ofNat 64 skipped) count =
      value / 256 ^ skipped % 256 ^ count := by
  induction count generalizing skipped with
  | zero => simp [load, Nat.mod_one]
  | succ count ih =>
      have offset : (address + BitVec.ofNat 64 skipped - address).toNat = skipped := by
        bv_omega
      have next : address + BitVec.ofNat 64 skipped + 1 =
          address + BitVec.ofNat 64 (skipped + 1) := by bv_omega
      have byte : ((m.store address total value) (address + BitVec.ofNat 64 skipped)).toNat =
          value / 256 ^ skipped % 256 := by
        have within : skipped < total := by omega
        simp only [store, offset, within, if_true, BitVec.toNat_ofNat, Nat.shiftRight_eq_div_pow,
          Nat.pow_mul]
      rw [load, byte, next, ih (skipped + 1) (by omega), Nat.pow_succ, ← Nat.div_div_eq_div_mul,
        Nat.pow_succ', Nat.mod_mul]

theorem load_store (m : Memory) (address : Word) (count value : Nat) (bounded : count ≤ 2 ^ 64) :
    (m.store address count value).load address count = value % 256 ^ count := by
  simpa using load_store_from m address value 0 count count (by omega) bounded

@[simp] theorem load64_store64 (m : Memory) (address value : Word) :
    (m.store64 address value).load64 address = value := by
  rw [load64, store64, load_store m address 8 value.toNat (by decide)]
  bv_omega

@[simp] theorem load32_store32 (m : Memory) (address : Word) (value : BitVec 32) :
    (m.store32 address value).load32 address = value := by
  rw [load32, store32, load_store m address 4 value.toNat (by decide)]
  bv_omega

theorem load64_store64_of_apart (m : Memory) {address target value : Word}
    (past : 8 ≤ (target - address).toNat) (before : 8 ≤ (address - target).toNat) :
    (m.store64 target value).load64 address = m.load64 address :=
  load64_congr ((store64_eqOn_compl m target value).mono
    (span_disjoint past before).subset_compl_right)

theorem load64_store32_of_apart (m : Memory) {address target : Word} {value : BitVec 32}
    (past : 8 ≤ (target - address).toNat) (before : 4 ≤ (address - target).toNat) :
    (m.store32 target value).load64 address = m.load64 address :=
  load64_congr ((store32_eqOn_compl m target value).mono
    (span_disjoint past before).subset_compl_right)

theorem load32_store64_of_apart (m : Memory) {address target value : Word}
    (past : 4 ≤ (target - address).toNat) (before : 8 ≤ (address - target).toNat) :
    (m.store64 target value).load32 address = m.load32 address :=
  load32_congr ((store64_eqOn_compl m target value).mono
    (span_disjoint past before).subset_compl_right)

theorem load32_store32_of_apart (m : Memory) {address target : Word} {value : BitVec 32}
    (past : 4 ≤ (target - address).toNat) (before : 4 ≤ (address - target).toNat) :
    (m.store32 target value).load32 address = m.load32 address :=
  load32_congr ((store32_eqOn_compl m target value).mono
    (span_disjoint past before).subset_compl_right)

theorem load64_eq_of_eqOn_compl {m m' : Memory} {address : Word} {changed : Set Word}
    (frame : Set.EqOn m' m changedᶜ) (apart : Disjoint (span address 8) changed) :
    m'.load64 address = m.load64 address :=
  load64_congr (frame.mono apart.subset_compl_right)

theorem load32_eq_of_eqOn_compl {m m' : Memory} {address : Word} {changed : Set Word}
    (frame : Set.EqOn m' m changedᶜ) (apart : Disjoint (span address 4) changed) :
    m'.load32 address = m.load32 address :=
  load32_congr (frame.mono apart.subset_compl_right)

end Memory

theorem eqOn_compl_trans {m m' m'' : Memory} {first second : Set Word}
    (left : Set.EqOn m' m firstᶜ) (right : Set.EqOn m'' m' secondᶜ) :
    Set.EqOn m'' m (first ∪ second)ᶜ := by
  intro address outside
  simp only [Set.compl_union, Set.mem_inter_iff] at outside
  exact (right outside.2).trans (left outside.1)

theorem eqOn_compl_mono {m m' : Memory} {changed larger : Set Word}
    (frame : Set.EqOn m' m changedᶜ) (subset : changed ⊆ larger) :
    Set.EqOn m' m largerᶜ :=
  frame.mono (Set.compl_subset_compl.mpr subset)

end ScrapOS
