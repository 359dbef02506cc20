import ScrapOS.Slab.Basic

/-! How a slab page is carved and how a request is rounded up: where the slots of a page
lie, which class or order serves a request, and what masking a pointer down finds. -/

set_option autoImplicit false

namespace ScrapOS.Slab

@[simp] theorem slabDataOff_eq : slabDataOff = 48 := by decide

@[simp] theorem largeDataOff_eq : largeDataOff = 16 := by decide

/-! ## Size classes -/

/-- `obj_size` of a class as a number of bytes. -/
def classBytes (cls : Nat) : Nat := (classSize cls).toNat

/-- The number of slots in a slab of a class. -/
def slotCount (cls : Nat) : Nat := 4048 / classBytes cls

theorem class_bounds {cls : Nat} (small : cls < slabNumClasses) :
    16 ≤ classBytes cls ∧ classBytes cls ≤ 2048 ∧ classBytes cls % 16 = 0 := by
  interval_cases cls <;> decide

theorem slotCount_bounds {cls : Nat} (small : cls < slabNumClasses) :
    0 < slotCount cls ∧ slotCount cls ≤ 253 := by
  interval_cases cls <;> decide

/-- The slot count that `cache_grow` computes. -/
theorem slotCount_eq {cls : Nat} (small : cls < slabNumClasses) :
    ((slabPageSize - slabDataOff) / classSize cls).setWidth 32 = BitVec.ofNat 32 (slotCount cls) := by
  interval_cases cls <;> decide

/-- The class that serves a request is the smallest one that fits. -/
theorem classFor_eq_some_iff {size : Word} {cls : Nat} : classFor size = some cls ↔
    IsLeast {cls | cls < slabNumClasses ∧ size.toNat ≤ classBytes cls} cls := by
  rw [classFor, List.find?_range_eq_some]
  constructor
  · rintro ⟨fits, inRange, tooSmall⟩
    refine ⟨⟨List.mem_range.mp inRange, of_decide_eq_true fits⟩, ?_⟩
    rintro other ⟨-, otherFits⟩
    by_contra before
    have refused := tooSmall other (Nat.not_le.mp before)
    rw [Bool.not_eq_true', decide_eq_false_iff_not] at refused
    exact refused otherFits
  · rintro ⟨⟨small, fits⟩, least⟩
    refine ⟨decide_eq_true fits, List.mem_range.mpr small, fun other before => ?_⟩
    rw [Bool.not_eq_true', decide_eq_false_iff_not]
    exact fun otherFits => Nat.not_le.mpr before (least ⟨Nat.lt_trans before small, otherFits⟩)

theorem classFor_eq_some {size : Word} {cls : Nat} (chosen : classFor size = some cls) :
    cls < slabNumClasses ∧ size.toNat ≤ classBytes cls := (classFor_eq_some_iff.mp chosen).1

theorem classFor_eq_none_iff {size : Word} : classFor size = none ↔ 2048 < size.toNat := by
  rw [classFor, List.find?_eq_none]
  constructor
  · intro tooSmall
    have largest := tooSmall 7 (by decide)
    rw [decide_eq_true_iff] at largest
    exact Nat.not_le.mp largest
  · intro large cls inRange fits
    have bounds := class_bounds (List.mem_range.mp inRange)
    have enough : size.toNat ≤ classBytes cls := of_decide_eq_true fits
    omega

/-! ## Orders -/

theorem exists_least_order (bytes : Nat) : ∃ o, IsLeast {o | bytes ≤ 4096 * 2 ^ o} o := by
  have some : ∃ o, bytes ≤ 4096 * 2 ^ o := by
    have below := Nat.lt_two_pow_self (n := bytes)
    exact ⟨bytes, by omega⟩
  exact ⟨Nat.find some, Nat.find_spec some, fun _ enough => Nat.find_min' some enough⟩

theorem pageShift_toNat {o : Nat} (inRange : o < 52) : (slabPageSize <<< o).toNat = 4096 * 2 ^ o := by
  have small : 2 ^ (12 + o) < 2 ^ 64 := Nat.pow_lt_pow_right (by decide) (by omega)
  rw [BitVec.toNat_shiftLeft, Nat.shiftLeft_eq, show slabPageSize.toNat = 2 ^ 12 from rfl,
    ← Nat.pow_add, Nat.mod_eq_of_lt small, Nat.pow_add]

theorem pageShift_zero {o : Nat} (past : 52 ≤ o) : slabPageSize <<< o = 0 := by
  have whole : 2 ^ 12 * 2 ^ o = 2 ^ 64 * 2 ^ (o - 52) := by
    rw [← Nat.pow_add, ← Nat.pow_add]
    congr 1
    omega
  apply BitVec.eq_of_toNat_eq
  rw [BitVec.toNat_shiftLeft, Nat.shiftLeft_eq, show slabPageSize.toNat = 2 ^ 12 from rfl, whole,
    Nat.mul_mod_right]
  rfl

/-- The loop stops at the first order whose block is large enough. -/
theorem orderFrom_eq_some_iff {bytes : Word} {steps o order : Nat} (inRange : o + steps ≤ 52) :
    orderFrom bytes steps o = some order ↔ o ≤ order ∧ order < o + steps ∧
      bytes.toNat ≤ 4096 * 2 ^ order ∧ ∀ j, o ≤ j → j < order → 4096 * 2 ^ j < bytes.toNat := by
  induction steps generalizing o with
  | zero =>
      constructor
      · intro found
        cases found
      · rintro ⟨low, high, -⟩
        omega
  | succ steps ih =>
      have size := pageShift_toNat (show o < 52 by omega)
      rw [orderFrom]
      by_cases more : slabPageSize <<< o < bytes
      · rw [if_pos more, ih (by omega)]
        rw [BitVec.lt_def, size] at more
        constructor
        · rintro ⟨low, high, enough, tooSmall⟩
          refine ⟨by omega, by omega, enough, fun j atLeast before => ?_⟩
          rcases Nat.eq_or_lt_of_le atLeast with rfl | later
          · exact more
          · exact tooSmall j later before
        · rintro ⟨low, high, enough, tooSmall⟩
          have different : order ≠ o := by
            rintro rfl
            omega
          exact ⟨by omega, by omega, enough, fun j atLeast before => tooSmall j (by omega) before⟩
      · rw [if_neg more, Option.some.injEq]
        rw [BitVec.lt_def, size, Nat.not_lt] at more
        constructor
        · rintro rfl
          exact ⟨Nat.le_refl _, by omega, more, fun j low high => by omega⟩
        · rintro ⟨low, high, -, tooSmall⟩
          by_contra different
          have refused := tooSmall o (Nat.le_refl _) (by omega)
          omega

theorem orderForBytes_eq_some_iff {bytes : Word} {order : Nat} :
    orderForBytes bytes = some order ↔
      order < 52 ∧ IsLeast {o | bytes.toNat ≤ 4096 * 2 ^ o} order := by
  rw [orderForBytes, orderFrom_eq_some_iff (Nat.le_refl 52)]
  constructor
  · rintro ⟨-, inRange, enough, tooSmall⟩
    refine ⟨by omega, enough, fun other otherEnough => ?_⟩
    by_contra before
    exact Nat.not_lt.mpr otherEnough (tooSmall other (Nat.zero_le _) (Nat.not_le.mp before))
  · rintro ⟨inRange, enough, least⟩
    refine ⟨Nat.zero_le _, by omega, enough, fun j _ before => ?_⟩
    exact Nat.not_le.mp fun otherEnough => Nat.not_le.mpr before (least otherEnough)

theorem orderForBytes_eq_some {bytes : Word} {order : Nat} (found : orderForBytes bytes = some order) :
    order < 52 ∧ bytes.toNat ≤ 4096 * 2 ^ order := by
  obtain ⟨inRange, least⟩ := orderForBytes_eq_some_iff.mp found
  exact ⟨inRange, least.1⟩

/-- The requests up to half the address space have an order, and no others. -/
theorem orderForBytes_isSome_iff {bytes : Word} :
    (orderForBytes bytes).isSome ↔ bytes.toNat ≤ 2 ^ 63 := by
  have largest : 4096 * 2 ^ 51 = 2 ^ 63 := by decide
  rw [Option.isSome_iff_exists]
  constructor
  · rintro ⟨order, found⟩
    obtain ⟨inRange, enough⟩ := orderForBytes_eq_some found
    calc bytes.toNat ≤ 4096 * 2 ^ order := enough
      _ ≤ 4096 * 2 ^ 51 := Nat.mul_le_mul_left _ (Nat.pow_le_pow_right (by decide) (by omega))
      _ = 2 ^ 63 := largest
  · intro small
    have enough : bytes.toNat ≤ 4096 * 2 ^ 51 := by omega
    obtain ⟨order, least⟩ := exists_least_order bytes.toNat
    exact ⟨order, orderForBytes_eq_some_iff.mpr ⟨Nat.lt_succ_of_le (least.2 enough), least⟩⟩

/-- Further rounds of the loop shift the page size out of the word and never stop it. -/
theorem orderFrom_past (bytes : Word) (more : Nat) :
    orderFrom bytes (52 + more) 0 = orderForBytes bytes := by
  have onward : ∀ steps o, orderFrom bytes (steps + more) o =
      (orderFrom bytes steps o).or (orderFrom bytes more (o + steps)) := by
    intro steps
    induction steps with
    | zero => simp [orderFrom]
    | succ steps ih =>
        intro o
        rw [Nat.succ_add, orderFrom, orderFrom]
        split
        · rw [ih, Nat.add_assoc, Nat.add_comm 1]
        · rfl
  have never : bytes ≠ 0 → ∀ steps o, 52 ≤ o → orderFrom bytes steps o = none := by
    intro nonzero steps
    induction steps with
    | zero => exact fun _ _ => rfl
    | succ steps ih =>
        intro o past
        have less : slabPageSize <<< o < bytes := by
          rw [pageShift_zero past]
          bv_omega
        rw [orderFrom, if_pos less]
        exact ih _ (by omega)
  rw [onward, orderForBytes]
  cases found : orderFrom bytes 52 0 with
  | some order => rfl
  | none =>
      have large : ¬ bytes.toNat ≤ 2 ^ 63 := by
        rw [← orderForBytes_isSome_iff, orderForBytes, found]
        simp
      rw [never (by bv_omega) more _ (by decide)]
      rfl

/-! ## Slots of a page -/

def slots (cls : Nat) (base : Word) : List Word :=
  (List.range (slotCount cls)).map (slotAt base (classSize cls))

section Slots

variable {cls i j : Nat} {base slot left right : Word}

theorem slotAt_eq (base : Word) (small : cls < slabNumClasses) (inPage : i < slotCount cls) :
    slotAt base (classSize cls) i = base + BitVec.ofNat 64 (48 + i * classBytes cls) ∧
      48 + i * classBytes cls + classBytes cls ≤ 4096 := by
  obtain ⟨lower, upper, -⟩ := class_bounds small
  have whole : (i + 1) * classBytes cls ≤ slotCount cls * classBytes cls :=
    Nat.mul_le_mul_right _ inPage
  have room : slotCount cls * classBytes cls ≤ 4048 := Nat.div_mul_le_self ..
  rw [Nat.succ_mul] at whole
  have offset : BitVec.ofNat 64 i * classSize cls = BitVec.ofNat 64 (i * classBytes cls) := by
    rw [BitVec.ofNat_mul, classBytes, BitVec.ofNat_toNat, BitVec.setWidth_eq]
  rw [slotAt, slabDataOff_eq, offset]
  generalize i * classBytes cls = distance at *
  exact ⟨by bv_omega, by omega⟩

theorem mem_slots : slot ∈ slots cls base ↔ ∃ i < slotCount cls, slotAt base (classSize cls) i = slot := by
  simp [slots]

theorem slot_offset (small : cls < slabNumClasses) (member : slot ∈ slots cls base) :
    ∃ i, slot = base + BitVec.ofNat 64 (48 + i * classBytes cls) ∧
      48 + i * classBytes cls + classBytes cls ≤ 4096 := by
  obtain ⟨i, inPage, rfl⟩ := mem_slots.mp member
  exact ⟨i, slotAt_eq base small inPage⟩

theorem slot_distance (small : cls < slabNumClasses) (member : slot ∈ slots cls base) :
    48 ≤ (slot - base).toNat ∧ (slot - base).toNat + classBytes cls ≤ 4096 := by
  obtain ⟨i, rfl, room⟩ := slot_offset small member
  generalize i * classBytes cls = distance at *
  have shift : (base + BitVec.ofNat 64 (48 + distance) - base).toNat = 48 + distance := by bv_omega
  omega

theorem slot_subset_page (small : cls < slabNumClasses) (member : slot ∈ slots cls base) :
    span slot (classBytes cls) ⊆ span base 4096 :=
  span_subset (slot_distance small member).2

theorem slot_disjoint_header (small : cls < slabNumClasses) (member : slot ∈ slots cls base) :
    Disjoint (span slot (classBytes cls)) (span base 48) := by
  obtain ⟨lower, upper⟩ := slot_distance small member
  have sizes := class_bounds small
  exact span_disjoint (by bv_omega) (by bv_omega)

theorem slot_disjoint_slot (small : cls < slabNumClasses) (inLeft : left ∈ slots cls base)
    (inRight : right ∈ slots cls base) (different : left ≠ right) :
    Disjoint (span left (classBytes cls)) (span right (classBytes cls)) := by
  obtain ⟨i, rfl, roomLeft⟩ := slot_offset small inLeft
  obtain ⟨j, rfl, roomRight⟩ := slot_offset small inRight
  have indices : i ≠ j := fun same => different (by rw [same])
  have apart : i * classBytes cls + classBytes cls ≤ j * classBytes cls ∨
      j * classBytes cls + classBytes cls ≤ i * classBytes cls := by
    rcases Nat.lt_or_gt_of_ne indices with before | after
    · exact .inl (Nat.succ_mul i _ ▸ Nat.mul_le_mul_right _ before)
    · exact .inr (Nat.succ_mul j _ ▸ Nat.mul_le_mul_right _ after)
  generalize i * classBytes cls = first at *
  generalize j * classBytes cls = second at *
  generalize classBytes cls = bytes at *
  exact span_disjoint (by bv_omega) (by bv_omega)

theorem slots_nodup (small : cls < slabNumClasses) : (slots cls base).Nodup := by
  refine List.Nodup.map_on ?_ List.nodup_range
  intro i inI j inJ same
  obtain ⟨first, roomFirst⟩ := slotAt_eq base small (List.mem_range.mp inI)
  obtain ⟨second, roomSecond⟩ := slotAt_eq base small (List.mem_range.mp inJ)
  have sizes := class_bounds small
  rw [first, second] at same
  have distances : i * classBytes cls = j * classBytes cls := by
    generalize i * classBytes cls = distance at *
    generalize j * classBytes cls = distance' at *
    bv_omega
  exact Nat.eq_of_mul_eq_mul_right (by omega) distances

theorem slots_length : (slots cls base).length = slotCount cls := by
  simp [slots]

theorem slots_ne_nil (small : cls < slabNumClasses) : slots cls base ≠ [] := by
  have counts := slotCount_bounds small
  rw [← List.length_pos_iff_ne_nil, slots_length]
  exact counts.1

/-! ## Masking a pointer down -/

theorem pageBase_toNat (ptr : Word) : (pageBase ptr).toNat = ptr.toNat / 4096 * 4096 := by
  have rounded := and_not_low ptr 12 (by decide)
  exact rounded

theorem pageBase_eq {ptr : Word} (aligned : base.toNat % 4096 = 0)
    (inPage : (ptr - base).toNat < 4096) : pageBase ptr = base := by
  apply BitVec.eq_of_toNat_eq
  rw [pageBase_toNat]
  bv_omega

theorem pageBase_slot (small : cls < slabNumClasses) (aligned : base.toNat % 4096 = 0)
    (member : slot ∈ slots cls base) : pageBase slot = base := by
  have distance := slot_distance small member
  have sizes := class_bounds small
  exact pageBase_eq aligned (by omega)

theorem slot_aligned (small : cls < slabNumClasses) (aligned : base.toNat % 4096 = 0)
    (member : slot ∈ slots cls base) : slot.toNat % 16 = 0 := by
  obtain ⟨i, rfl, room⟩ := slot_offset small member
  have sizes := class_bounds small
  have multiple : i * classBytes cls % 16 = 0 := by rw [Nat.mul_mod, sizes.2.2, Nat.mul_zero, Nat.zero_mod]
  generalize i * classBytes cls = distance at *
  bv_omega

theorem slot_ne_zero (small : cls < slabNumClasses) (aligned : base.toNat % 4096 = 0)
    (member : slot ∈ slots cls base) : slot ≠ 0 := by
  have distance := slot_distance small member
  have sizes := class_bounds small
  bv_omega

end Slots

end ScrapOS.Slab
