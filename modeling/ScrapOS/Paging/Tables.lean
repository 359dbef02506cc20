import ScrapOS.Paging.Basic
import ScrapOS.Memory.DirectMap
import ScrapOS.RadixTree.Basic

/-! The page tables in memory are a radix tree over table frames, with nine-bit
indices and entries that refer to a frame by their address bits. -/

set_option autoImplicit false

namespace ScrapOS.Paging

open RadixTree

abbrev Index := BitVec 9

/-! ## Entries -/

/-- A present entry refers to the frame of its address bits. -/
def pteFormat : Format Nat Word where
  child found :=
    if found &&& ptePresent ≠ 0 then some ((found &&& pteAddrMask).toNat / 4096) else none
  blank := 0
  child_blank := rfl

theorem pteAddrMask_toNat (found : Word) :
    (found &&& pteAddrMask).toNat = found.toNat % 2 ^ 52 / 4096 * 4096 := by
  have masks : pteAddrMask = BitVec.ofNat 64 (2 ^ 52 - 1) &&& ~~~(BitVec.ofNat 64 (2 ^ 12 - 1)) := by
    decide
  have high : (found &&& BitVec.ofNat 64 (2 ^ 52 - 1)).toNat = found.toNat % 2 ^ 52 := by
    rw [BitVec.toNat_and, BitVec.toNat_ofNat, Nat.mod_eq_of_lt (by decide),
      Nat.and_two_pow_sub_one_eq_mod]
  have rounded := and_not_low (found &&& BitVec.ofNat 64 (2 ^ 52 - 1)) 12 (by decide)
  rw [high] at rounded
  rw [masks, ← BitVec.and_assoc]
  exact rounded

theorem pteAddrMask_aligned (found : Word) : (found &&& pteAddrMask).toNat % 4096 = 0 := by
  rw [pteAddrMask_toNat]
  exact Nat.mul_mod_left _ _

theorem child_lt {found : Word} {frame : Nat} (refers : pteFormat.child found = some frame) :
    frame < 2 ^ 40 := by
  rw [pteFormat] at refers
  dsimp only at refers
  split at refers
  · cases refers
    rw [pteAddrMask_toNat]
    omega
  · cases refers

theorem child_eq_none_iff {found : Word} :
    pteFormat.child found = none ↔ found &&& ptePresent = 0 := by
  rw [pteFormat]
  dsimp only
  split
  · next present => exact iff_of_false (Option.some_ne_none _) present
  · next absent => exact ⟨fun _ => Decidable.of_not_not absent, fun _ => rfl⟩

theorem child_eq_some_iff {found : Word} {frame : Nat} :
    pteFormat.child found = some frame ↔
      found &&& ptePresent ≠ 0 ∧ found &&& pteAddrMask = frameAddress frame ∧ frame < 2 ^ 40 := by
  have aligned := frameAddress_of_aligned (pteAddrMask_aligned found)
  constructor
  · intro refers
    have bounded := child_lt refers
    rw [pteFormat] at refers
    dsimp only at refers
    split at refers
    · next present =>
      cases refers
      exact ⟨present, aligned.symm, bounded⟩
    · cases refers
  · rintro ⟨present, address, bounded⟩
    rw [pteFormat]
    dsimp only
    rw [if_pos present, address, frameAddress_div (by omega)]

/-- The entry that `next_level` installs for a table it creates. -/
def tableEntry (frame : Nat) (leafUserBit : Word) : Word :=
  (frameAddress frame &&& pteAddrMask) ||| ptePresent ||| pteWrite ||| leafUserBit

theorem mask_frameAddress {frame : Nat} (bounded : frame < 2 ^ 40) :
    frameAddress frame &&& pteAddrMask = frameAddress frame := by
  apply BitVec.eq_of_toNat_eq
  rw [pteAddrMask_toNat, frameAddress_toNat (by omega)]
  omega

theorem mask_of_aligned {phys : Word} (aligned : phys.toNat % 4096 = 0)
    (bounded : phys.toNat < 2 ^ 52) : phys &&& pteAddrMask = phys := by
  apply BitVec.eq_of_toNat_eq
  rw [pteAddrMask_toNat]
  omega

/-- The user bit is one that a table entry can carry next to its address. -/
theorem leafUser_cases (flags : Word) : leafUser flags = 0 ∨ leafUser flags = pteUser := by
  rw [leafUser]
  split
  · exact .inr rfl
  · exact .inl rfl

section Bits

variable {address bits bit : Word}

theorem or_mask (flagsOnly : bits &&& pteAddrMask = 0#64) :
    ((address &&& pteAddrMask) ||| bits) &&& pteAddrMask = address &&& pteAddrMask := by
  rw [BitVec.and_or_distrib_right, flagsOnly, BitVec.and_assoc, BitVec.and_self, BitVec.or_zero]

theorem or_flag (flag : pteAddrMask &&& bit = 0#64) :
    ((address &&& pteAddrMask) ||| bits) &&& bit = bits &&& bit := by
  rw [BitVec.and_or_distrib_right, BitVec.and_assoc, flag, BitVec.and_zero, BitVec.zero_or]

end Bits

theorem tableEntry_bits (frame : Nat) {leafUserBit : Word}
    (user : leafUserBit = 0 ∨ leafUserBit = pteUser) :
    tableEntry frame leafUserBit &&& ptePresent ≠ 0 ∧
      tableEntry frame leafUserBit &&& pteWrite ≠ 0 ∧
      (tableEntry frame leafUserBit &&& pteUser ≠ 0 ↔ leafUserBit = pteUser) ∧
      tableEntry frame leafUserBit &&& pteAddrMask = frameAddress frame &&& pteAddrMask := by
  have grouped : tableEntry frame leafUserBit =
      (frameAddress frame &&& pteAddrMask) ||| (ptePresent ||| pteWrite ||| leafUserBit) := by
    rw [tableEntry, BitVec.or_assoc, BitVec.or_assoc, BitVec.or_assoc]
  rw [grouped, or_flag (by decide), or_flag (by decide), or_flag (by decide)]
  cases user with
  | inl none =>
      subst none
      exact ⟨by decide, by decide, by decide, or_mask (by decide)⟩
  | inr set =>
      subst set
      exact ⟨by decide, by decide, by decide, or_mask (by decide)⟩

theorem child_tableEntry {frame : Nat} (bounded : frame < 2 ^ 40) {leafUserBit : Word}
    (user : leafUserBit = 0 ∨ leafUserBit = pteUser) :
    pteFormat.child (tableEntry frame leafUserBit) = some frame := by
  obtain ⟨present, -, -, address⟩ := tableEntry_bits frame user
  rw [child_eq_some_iff]
  exact ⟨present, address.trans (mask_frameAddress bounded), bounded⟩

/-- A table entry is the one for the frame that it refers to. -/
theorem tableEntry_child {frame other : Nat} {leafUserBit : Word}
    (user : leafUserBit = 0 ∨ leafUserBit = pteUser)
    (refers : pteFormat.child (tableEntry other leafUserBit) = some frame) :
    tableEntry other leafUserBit = tableEntry frame leafUserBit := by
  have address := (child_eq_some_iff.mp refers).2.1
  rw [(tableEntry_bits other user).2.2.2] at address
  rw [tableEntry, tableEntry, ← address, BitVec.and_assoc, BitVec.and_self]

theorem leafEntry_bits (phys flags : Word) :
    leafEntry phys flags &&& ptePresent ≠ 0 ∧
      (leafEntry phys flags &&& pteWrite ≠ 0 ↔ flags &&& vmWrite ≠ 0) ∧
      (leafEntry phys flags &&& pteUser ≠ 0 ↔ flags &&& vmUser ≠ 0) ∧
      leafEntry phys flags &&& pteAddrMask = phys &&& pteAddrMask := by
  rw [leafEntry]
  split
  · next user =>
    split
    · next write =>
      rw [BitVec.or_assoc, BitVec.or_assoc, or_flag (by decide), or_flag (by decide),
        or_flag (by decide), or_mask (by decide)]
      exact ⟨by decide, iff_of_true (by decide) write, iff_of_true (by decide) user, rfl⟩
    · next noWrite =>
      rw [BitVec.or_assoc, or_flag (by decide), or_flag (by decide), or_flag (by decide),
        or_mask (by decide)]
      exact ⟨by decide, iff_of_false (by decide) noWrite, iff_of_true (by decide) user, rfl⟩
  · next noUser =>
    split
    · next write =>
      rw [BitVec.or_assoc, or_flag (by decide), or_flag (by decide), or_flag (by decide),
        or_mask (by decide)]
      exact ⟨by decide, iff_of_true (by decide) write, iff_of_false (by decide) noUser, rfl⟩
    · next noWrite =>
      rw [or_flag (by decide), or_flag (by decide), or_flag (by decide), or_mask (by decide)]
      exact ⟨by decide, iff_of_false (by decide) noWrite, iff_of_false (by decide) noUser, rfl⟩

/-! ## Indices -/

def pml4Of (v : Word) : Index := v.extractLsb' 39 9

def pdptOf (v : Word) : Index := v.extractLsb' 30 9

def pdOf (v : Word) : Index := v.extractLsb' 21 9

def ptOf (v : Word) : Index := v.extractLsb' 12 9

theorem shift_and_mask (v : Word) (low : Nat) :
    (v >>> low) &&& 0x1ff = (v.extractLsb' low 9).setWidth 64 := by
  apply BitVec.eq_of_toNat_eq
  have mask : (0x1ff : Word).toNat = 2 ^ 9 - 1 := rfl
  rw [BitVec.toNat_and, BitVec.toNat_setWidth, BitVec.extractLsb'_toNat, BitVec.toNat_ushiftRight,
    mask, Nat.and_two_pow_sub_one_eq_mod]
  omega

/-- The path to the page table of an address. -/
def tablePath (v : Word) : List Index := [pdOf v, pdptOf v, pml4Of v]

/-- The path to the leaf entry of an address. -/
def pathOf (v : Word) : List Index := ptOf v :: tablePath v

/-- A page number: bits 47 to 12 of an address. -/
abbrev Page := BitVec 36

def pageOf (v : Word) : Page := v.extractLsb' 12 36

theorem pathOf_eq_iff {v w : Word} : pathOf v = pathOf w ↔ pageOf v = pageOf w := by
  simp only [pathOf, tablePath, pageOf, pml4Of, pdptOf, pdOf, ptOf, List.cons.injEq, and_true,
    ← BitVec.toNat_inj, BitVec.extractLsb'_toNat, Nat.shiftRight_eq_div_pow]
  omega

/-! ## Cells -/

/-- The entries of the table in a frame. -/
def cells (hhdm : Word) (m : Memory) (frame : Nat) (index : Index) : Word :=
  entry m (tableAt hhdm (frameAddress frame)) (index.setWidth 64)

section Cells

variable {hhdm : Word} {m m' : Memory} {frame other : Nat}

theorem cell_subset (bounded : frame < 2 ^ 52) (index : Index) :
    span (tableAt hhdm (frameAddress frame) + 8 * index.setWidth 64) 8 ⊆
      frameBytes hhdm {frame} := by
  apply span_subset_frameBytes bounded
  bv_omega

theorem cells_congr (bounded : frame < 2 ^ 52) (same : Set.EqOn m' m (frameBytes hhdm {frame}))
    (index : Index) : cells hhdm m' frame index = cells hhdm m frame index :=
  Memory.load64_congr (same.mono (cell_subset bounded index))

theorem setEntry_frame (bounded : frame < 2 ^ 52) (index : Index) (value : Word) :
    Set.EqOn (setEntry m (tableAt hhdm (frameAddress frame)) (index.setWidth 64) value) m
      (frameBytes hhdm {frame})ᶜ :=
  eqOn_compl_mono (Memory.store64_eqOn_compl m _ value) (cell_subset bounded index)

theorem cells_setEntry_self (index : Index) (value : Word) :
    cells hhdm (setEntry m (tableAt hhdm (frameAddress frame)) (index.setWidth 64) value)
      frame index = value :=
  Memory.load64_store64 m _ value

theorem cells_setEntry_of_ne (bounded : frame < 2 ^ 52) (otherBounded : other < 2 ^ 52)
    {index position : Index} (value : Word) (different : other = frame → position ≠ index) :
    cells hhdm (setEntry m (tableAt hhdm (frameAddress frame)) (index.setWidth 64) value)
      other position = cells hhdm m other position := by
  apply Memory.load64_store64_of_apart
  · unfold tableAt frameAddress
    by_cases same : other = frame
    · subst same
      have distinct := different rfl
      bv_omega
    · bv_omega
  · unfold tableAt frameAddress
    by_cases same : other = frame
    · subst same
      have distinct := different rfl
      bv_omega
    · bv_omega

theorem cells_memset (bounded : frame < 2 ^ 52) (index : Index) :
    cells hhdm (memset m (tableAt hhdm (frameAddress frame)) 0 4096) frame index = 0 := by
  have zeros : Set.EqOn (memset m (tableAt hhdm (frameAddress frame)) 0 4096) (fun _ => 0)
      (span (tableAt hhdm (frameAddress frame) + 8 * index.setWidth 64) 8) := by
    intro address inside
    have inFrame := cell_subset bounded index inside
    rw [← page_eq_frameBytes bounded] at inFrame
    exact memset_inside (by decide) inFrame
  exact (Memory.load64_congr zeros).trans rfl

theorem memset_table_frame (bounded : frame < 2 ^ 52) :
    Set.EqOn (memset m (tableAt hhdm (frameAddress frame)) 0 4096) m
      (frameBytes hhdm {frame})ᶜ := by
  rw [← page_eq_frameBytes bounded]
  exact memset_frame (by decide)

end Cells

end ScrapOS.Paging
