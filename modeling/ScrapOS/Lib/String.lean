import ScrapOS.Memory.Bytes

/-! The byte primitives of `lib/string.c`: filling memory, moving it between ranges that may
overlap, copying it, and comparing it. -/

set_option autoImplicit false

namespace ScrapOS

/-- `memset`, as the memory after `count` passes of its loop. -/
def memset (m : Memory) (dest : Word) (value : Byte) : Nat → Memory
  | 0 => m
  | i + 1 => (memset m dest value i).store8 (dest + BitVec.ofNat 64 i) value

section Memset

variable {m : Memory} {dest address : Word} {value : Byte} {count : Nat}

theorem memset_inside (bounded : count ≤ 2 ^ 64) (inside : address ∈ span dest count) :
    memset m dest value count address = value := by
  induction count with
  | zero => exact absurd inside (by simp)
  | succ i ih =>
      rw [memset, Memory.store8]
      by_cases last : address = dest + BitVec.ofNat 64 i
      · rw [last, Function.update_self]
      · rw [Function.update_of_ne last]
        rw [mem_span] at inside
        apply ih (by omega)
        rw [mem_span]
        bv_omega

theorem memset_frame (bounded : count ≤ 2 ^ 64) :
    Set.EqOn (memset m dest value count) m (span dest count)ᶜ := by
  intro address outside
  have past : ¬ (address - dest).toNat < count := outside
  clear outside
  induction count with
  | zero => rfl
  | succ i ih =>
      have other : address ≠ dest + BitVec.ofNat 64 i := by bv_omega
      rw [memset, Memory.store8, Function.update_of_ne other]
      exact ih (by omega) (by omega)

end Memset

/-! ## memmove -/

/-- The loop of `memmove` that copies from the front, after so many passes. -/
def copyForward (m : Memory) (dest src : Word) : Nat → Memory
  | 0 => m
  | i + 1 =>
      let m := copyForward m dest src i
      m.store8 (dest + BitVec.ofNat 64 i) (m (src + BitVec.ofNat 64 i))

/-- The loop of `memmove` that copies from the back, with so many passes to go. -/
def copyBackward (m : Memory) (dest src : Word) : Nat → Memory
  | 0 => m
  | i + 1 =>
      copyBackward (m.store8 (dest + BitVec.ofNat 64 i) (m (src + BitVec.ofNat 64 i))) dest src i

def memmove (m : Memory) (dest src : Word) (count : Nat) : Memory :=
  if dest < src then copyForward m dest src count
  else if dest > src then copyBackward m dest src count
  else m

section Memmove

variable {m : Memory} {dest src : Word} {count i : Nat}

theorem copyForward_frame (bounded : count ≤ 2 ^ 64) :
    Set.EqOn (copyForward m dest src count) m (span dest count)ᶜ := by
  intro address outside
  have past : ¬ (address - dest).toNat < count := outside
  clear outside
  induction count with
  | zero => rfl
  | succ i ih =>
      have other : address ≠ dest + BitVec.ofNat 64 i := by bv_omega
      rw [copyForward, Memory.store8, Function.update_of_ne other]
      exact ih (by omega) (by omega)

theorem copyBackward_frame (bounded : count ≤ 2 ^ 64) :
    Set.EqOn (copyBackward m dest src count) m (span dest count)ᶜ := by
  intro address outside
  have past : ¬ (address - dest).toNat < count := outside
  clear outside
  induction count generalizing m with
  | zero => rfl
  | succ i ih =>
      have other : address ≠ dest + BitVec.ofNat 64 i := by bv_omega
      rw [copyBackward, ih (by omega) (by omega), Memory.store8, Function.update_of_ne other]

/-- Copying from the front reads each byte before it is overwritten when the target comes first. -/
theorem copyForward_inside (before : dest < src) (fits : src.toNat + count ≤ 2 ^ 64)
    (inside : i < count) :
    copyForward m dest src count (dest + BitVec.ofNat 64 i) = m (src + BitVec.ofNat 64 i) := by
  induction count with
  | zero => cases inside
  | succ last ih =>
      rw [copyForward, Memory.store8]
      by_cases isLast : i = last
      · subst isLast
        rw [Function.update_self]
        refine copyForward_frame (by omega) fun overwritten => ?_
        rw [mem_span] at overwritten
        rw [BitVec.lt_def] at before
        bv_omega
      · have other : dest + BitVec.ofNat 64 i ≠ dest + BitVec.ofNat 64 last := by bv_omega
        rw [Function.update_of_ne other]
        exact ih (by omega) (by omega)

theorem copyBackward_inside (after : src < dest) (fits : dest.toNat + count ≤ 2 ^ 64)
    (inside : i < count) :
    copyBackward m dest src count (dest + BitVec.ofNat 64 i) = m (src + BitVec.ofNat 64 i) := by
  rw [BitVec.lt_def] at after
  induction count generalizing m with
  | zero => cases inside
  | succ last ih =>
      rw [copyBackward]
      by_cases isLast : i = last
      · subst isLast
        rw [copyBackward_frame (by omega), Memory.store8, Function.update_self]
        rw [Set.mem_compl_iff, mem_span]
        bv_omega
      · have other : src + BitVec.ofNat 64 i ≠ dest + BitVec.ofNat 64 last := by bv_omega
        rw [ih (by omega) (by omega), Memory.store8, Function.update_of_ne other]

theorem memmove_inside (destFits : dest.toNat + count ≤ 2 ^ 64) (srcFits : src.toNat + count ≤ 2 ^ 64)
    (inside : i < count) :
    memmove m dest src count (dest + BitVec.ofNat 64 i) = m (src + BitVec.ofNat 64 i) := by
  rw [memmove]
  split
  · next before => exact copyForward_inside before srcFits inside
  · next notBefore =>
    split
    · next after => exact copyBackward_inside after destFits inside
    · next notAfter =>
      have same : dest = src := by bv_omega
      rw [same]

theorem memmove_frame (bounded : count ≤ 2 ^ 64) :
    Set.EqOn (memmove m dest src count) m (span dest count)ᶜ := by
  rw [memmove]
  split
  · exact copyForward_frame bounded
  · split
    · exact copyBackward_frame bounded
    · exact fun _ _ => rfl

/-- A call of `memmove`: the pointer it returns, and the memory after it. -/
def callMemmove (m : Memory) (dest src count : Word) : Word × Memory :=
  (dest, memmove m dest src count.toNat)

/-- However the two ranges lie, the target holds the bytes of the source afterwards, nothing
else changed, and the target is returned. -/
theorem memmove_correct {count : Word} (destFits : dest.toNat + count.toNat ≤ 2 ^ 64)
    (srcFits : src.toNat + count.toNat ≤ 2 ^ 64) :
    (callMemmove m dest src count).1 = dest ∧
      (∀ i, i < count.toNat → (callMemmove m dest src count).2 (dest + BitVec.ofNat 64 i) =
        m (src + BitVec.ofNat 64 i)) ∧
      Set.EqOn (callMemmove m dest src count).2 m (span dest count.toNat)ᶜ := by
  refine ⟨rfl, ?_, ?_⟩
  · intro i inside
    exact memmove_inside destFits srcFits inside
  · exact memmove_frame (Nat.le_of_lt count.isLt)

/-- Four bytes moved up by two: the third one was overwritten by the first before. -/
theorem memmove_correct_overlapping :
    (callMemmove (fun address => address.setWidth 8) 0x1002 0x1000 4).2
      (0x1002 + BitVec.ofNat 64 2) = 2 := by
  have moved : (callMemmove (fun address => address.setWidth 8) 0x1002 0x1000 4).1 = 0x1002 ∧ _ ∧ _ :=
    memmove_correct (by decide) (by decide)
  rw [moved.2.1 2 (by decide)]
  decide

end Memmove

/-! ## memcpy and memcmp -/

/-- `memcpy`, whose callers promise that the ranges do not meet. -/
def memcpy (m : Memory) (dest src : Word) (count : Nat) : Memory := copyForward m dest src count

/-- The loop of `memcmp`, with so many passes to go. -/
def memcmpFrom (m : Memory) (a b : Word) : Nat → Word → Int
  | 0, _ => 0
  | left + 1, i =>
      if m (a + i) ≠ m (b + i) then (m (a + i)).toNat - (m (b + i)).toNat
      else memcmpFrom m a b left (i + 1)

def memcmp (m : Memory) (a b count : Word) : Int := memcmpFrom m a b count.toNat 0

/-- The bytes of a range. -/
def bytesAt (m : Memory) (address : Word) : Nat → List Byte
  | 0 => []
  | count + 1 => m address :: bytesAt m (address + 1) count

section Compare

variable {m : Memory} {a b dest src i : Word} {count left : Nat}

theorem bytesAt_congr {m' : Memory} {other : Word}
    (same : ∀ i < count, m (a + BitVec.ofNat 64 i) = m' (other + BitVec.ofNat 64 i)) :
    bytesAt m a count = bytesAt m' other count := by
  induction count generalizing a other with
  | zero => rfl
  | succ count ih =>
      have first := same 0 (Nat.succ_pos count)
      simp only [BitVec.add_zero] at first
      have next (base : Word) (i : Nat) :
          base + 1 + BitVec.ofNat 64 i = base + BitVec.ofNat 64 (i + 1) := by
        rw [BitVec.add_assoc, Nat.add_comm i 1, BitVec.ofNat_add]
        rfl
      simp only [bytesAt, first, List.cons.injEq, true_and]
      exact ih fun i inside => by
        rw [next, next]
        exact same (i + 1) (Nat.succ_lt_succ inside)

theorem memcmpFrom_eq_zero_iff : memcmpFrom m a b left i = 0 ↔
    bytesAt m (a + i) left = bytesAt m (b + i) left := by
  induction left generalizing i with
  | zero => simp [memcmpFrom, bytesAt]
  | succ left ih =>
      simp only [memcmpFrom, bytesAt, BitVec.add_assoc]
      by_cases same : m (a + i) = m (b + i)
      · simpa [same] using ih
      · have apart : (m (a + i)).toNat ≠ (m (b + i)).toNat := fun eq => same (BitVec.eq_of_toNat_eq eq)
        simp only [same, ne_eq, not_false_eq_true, if_true, List.cons.injEq, false_and, iff_false]
        omega

theorem memcmpFrom_neg_iff : memcmpFrom m a b left i < 0 ↔
    bytesAt m (a + i) left < bytesAt m (b + i) left := by
  induction left generalizing i with
  | zero => simp [memcmpFrom, bytesAt]
  | succ left ih =>
      simp only [memcmpFrom, bytesAt, BitVec.add_assoc, List.cons_lt_cons_iff]
      by_cases same : m (a + i) = m (b + i)
      · simpa [same] using ih
      · simp only [same, ne_eq, not_false_eq_true, if_true, false_and, or_false, BitVec.lt_def]
        omega

theorem memcmpFrom_swap : memcmpFrom m b a left i = - memcmpFrom m a b left i := by
  induction left generalizing i with
  | zero => rfl
  | succ left ih =>
      by_cases same : m (a + i) = m (b + i)
      · simpa [memcmpFrom, same] using ih
      · have other : ¬ m (b + i) = m (a + i) := fun eq => same eq.symm
        simp [memcmpFrom, same, other]

/-- The difference fits the `int` that holds it. -/
theorem memcmpFrom_small : -256 < memcmpFrom m a b left i ∧ memcmpFrom m a b left i < 256 := by
  induction left generalizing i with
  | zero => simp [memcmpFrom]
  | succ left ih =>
      simp only [memcmpFrom]
      split
      · omega
      · exact ih

theorem memcmp_eq_zero_iff {count : Word} : memcmp m a b count = 0 ↔
    bytesAt m a count.toNat = bytesAt m b count.toNat := by
  have fromStart := @memcmpFrom_eq_zero_iff m a b 0 count.toNat
  rwa [show a + 0 = a from BitVec.add_zero a, show b + 0 = b from BitVec.add_zero b] at fromStart

/-- The sign of what `memcmp` returns is the order of the two byte strings in a dictionary: zero
for equal ones, and the other sign for the arguments exchanged. -/
theorem memcmp_lexicographic (m : Memory) (a b count : Word) :
    (memcmp m a b count = 0 ↔ bytesAt m a count.toNat = bytesAt m b count.toNat) ∧
    (memcmp m a b count < 0 ↔ bytesAt m a count.toNat < bytesAt m b count.toNat) ∧
    memcmp m b a count = - memcmp m a b count ∧
    -256 < memcmp m a b count ∧ memcmp m a b count < 256 := by
  have negative := @memcmpFrom_neg_iff m a b 0 count.toNat
  rw [show a + 0 = a from BitVec.add_zero a, show b + 0 = b from BitVec.add_zero b] at negative
  exact ⟨memcmp_eq_zero_iff, negative, memcmpFrom_swap, memcmpFrom_small⟩

/-- Copying from the front is also right when the target comes after the end of the source. -/
theorem copyForward_past {i : Nat} (past : src.toNat + count ≤ dest.toNat)
    (fits : dest.toNat + count ≤ 2 ^ 64) (inside : i < count) :
    copyForward m dest src count (dest + BitVec.ofNat 64 i) = m (src + BitVec.ofNat 64 i) := by
  induction count with
  | zero => cases inside
  | succ last ih =>
      rw [copyForward, Memory.store8]
      by_cases isLast : i = last
      · subst isLast
        rw [Function.update_self]
        refine copyForward_frame (by omega) fun overwritten => ?_
        rw [mem_span] at overwritten
        bv_omega
      · have other : dest + BitVec.ofNat 64 i ≠ dest + BitVec.ofNat 64 last := by bv_omega
        rw [Function.update_of_ne other]
        exact ih (by omega) (by omega) (by omega)

theorem memcpy_inside {i : Nat} (destFits : dest.toNat + count ≤ 2 ^ 64)
    (srcFits : src.toNat + count ≤ 2 ^ 64)
    (apart : dest.toNat + count ≤ src.toNat ∨ src.toNat + count ≤ dest.toNat) (inside : i < count) :
    memcpy m dest src count (dest + BitVec.ofNat 64 i) = m (src + BitVec.ofNat 64 i) := by
  cases apart with
  | inl before =>
      have less : dest < src := by
        rw [BitVec.lt_def]
        omega
      exact copyForward_inside less srcFits inside
  | inr past => exact copyForward_past past destFits inside

/-- On ranges that do not meet, as `restrict` promises, `memcpy` and `memmove` leave the same
memory, and `memcmp` then finds the target equal to the source. -/
theorem memcpy_agrees_with_memmove (m : Memory) {dest src count : Word}
    (destFits : dest.toNat + count.toNat ≤ 2 ^ 64) (srcFits : src.toNat + count.toNat ≤ 2 ^ 64)
    (apart : dest.toNat + count.toNat ≤ src.toNat ∨ src.toNat + count.toNat ≤ dest.toNat) :
    memcpy m dest src count.toNat = memmove m dest src count.toNat ∧
      memcmp (memcpy m dest src count.toNat) dest src count = 0 := by
  have small : count.toNat ≤ 2 ^ 64 := Nat.le_of_lt count.isLt
  constructor
  · funext address
    by_cases inside : address ∈ span dest count.toNat
    · have place : address = dest + BitVec.ofNat 64 (address - dest).toNat := by
        rw [BitVec.ofNat_toNat, BitVec.setWidth_eq]
        bv_omega
      rw [mem_span] at inside
      rw [place, memcpy_inside destFits srcFits apart inside, memmove_inside destFits srcFits inside]
    · exact (copyForward_frame small inside).trans (memmove_frame small inside).symm
  · apply memcmp_eq_zero_iff.mpr
    apply bytesAt_congr
    intro i inside
    have source : src + BitVec.ofNat 64 i ∉ span dest count.toNat := by
      rw [mem_span]
      bv_omega
    rw [memcpy_inside destFits srcFits apart inside]
    exact (copyForward_frame small source).symm

/-- Eight bytes copied to the next eight. -/
theorem memcpy_agrees_with_memmove_eight :
    memcmp (memcpy (fun address => address.setWidth 8) 0x1008 0x1000 8) 0x1008 0x1000 8 = 0 :=
  (memcpy_agrees_with_memmove (fun address => address.setWidth 8)
    (by decide : (0x1008 : Word).toNat + (8 : Word).toNat ≤ 2 ^ 64) (by decide)
    (.inr (by decide : (0x1000 : Word).toNat + (8 : Word).toNat ≤ (0x1008 : Word).toNat))).2

end Compare

end ScrapOS
