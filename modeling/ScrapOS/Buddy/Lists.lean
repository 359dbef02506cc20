import ScrapOS.Buddy.Basic
import ScrapOS.DyadicBlocks.Basic

/-! The buddy allocator on plain lists of physical addresses: push at the head,
remove by value, search by value. This is the allocator without its links; the
memory that encodes it is the subject of `Buddy.Refinement`. A block on list `o`
is read as the dyadic block of order `o` that starts at its first frame. -/

set_option autoImplicit false

namespace ScrapOS.Buddy

abbrev Lists := Nat → List Word

namespace Lists

def push (lists : Lists) (order : Nat) (phys : Word) : Lists :=
  Function.update lists order (phys :: lists order)

def remove (lists : Lists) (order : Nat) (phys : Word) : Lists :=
  Function.update lists order ((lists order).erase phys)

def searchOrder (lists : Lists) : Nat → Nat → Nat
  | 0, o => o
  | steps + 1, o =>
      if o ≤ buddyMaxOrder ∧ lists o = [] then searchOrder lists steps (o + 1) else o

def splitDown (lists : Lists) (phys : Word) (order : Nat) : Nat → Lists
  | 0 => lists
  | o + 1 =>
      if o + 1 > order then splitDown (lists.push o (phys + blockBytes o)) phys order o
      else lists

def alloc (lists : Lists) (order : Nat) : Word × Lists :=
  if order > buddyMaxOrder then (0, lists)
  else
    let o := lists.searchOrder (buddyMaxOrder + 1) order
    if o > buddyMaxOrder then (0, lists)
    else
      let phys := (lists o).headD 0
      (phys, (lists.remove o phys).splitDown phys order o)

def mergeUp : Nat → Lists → Word → Nat → Lists
  | 0, lists, phys, order => lists.push order phys
  | steps + 1, lists, phys, order =>
      if order < buddyMaxOrder then
        let buddy := phys ^^^ blockBytes order
        if buddy ∈ lists order then
          mergeUp steps (lists.remove order buddy) (if buddy < phys then buddy else phys)
            (order + 1)
        else lists.push order phys
      else lists.push order phys

def free (lists : Lists) (phys : Word) (order : Nat) : Lists :=
  if order > buddyMaxOrder then lists else mergeUp buddyMaxOrder lists phys order

end Lists

/-! ## Addresses and blocks -/

/-- Alignment of an address to a block of order `o`. -/
def AlignedTo (o : Nat) (phys : Word) : Prop := 2 ^ (12 + o) ∣ phys.toNat

instance (o : Nat) (phys : Word) : Decidable (AlignedTo o phys) :=
  inferInstanceAs (Decidable (2 ^ (12 + o) ∣ phys.toNat))

/-- The frames of the block of order `o` at an address. -/
def blockOf (o : Nat) (phys : Word) : DyadicBlocks.Block := ⟨o, phys.toNat / 2 ^ (12 + o)⟩

/-- A block as `buddy_alloc` hands it out: its address and its order. -/
abbrev Handle := Word × Nat

def Handle.block (handle : Handle) : DyadicBlocks.Block := blockOf handle.2 handle.1

@[simp] theorem Handle.block_mk (phys : Word) (o : Nat) :
    Handle.block (phys, o) = blockOf o phys := rfl

@[simp] theorem blockOf_order (o : Nat) (phys : Word) : (blockOf o phys).order = o := rfl

theorem blockBytes_toNat {o : Nat} (bounded : o ≤ buddyMaxOrder) :
    (blockBytes o).toNat = 2 ^ (12 + o) := by
  have small : 2 ^ (12 + o) < 2 ^ 64 :=
    Nat.pow_lt_pow_right (by decide) (by unfold buddyMaxOrder at bounded; omega)
  rw [blockBytes, BitVec.toNat_shiftLeft, Nat.shiftLeft_eq]
  rw [show (pmmFrameSize.toNat : Nat) = 2 ^ 12 from rfl, ← Nat.pow_add, Nat.mod_eq_of_lt small]

theorem AlignedTo.mono {o smaller : Nat} {phys : Word} (aligned : AlignedTo o phys)
    (le : smaller ≤ o) : AlignedTo smaller phys :=
  Nat.dvd_trans (Nat.pow_dvd_pow 2 (Nat.add_le_add_left le 12)) aligned

/-- An aligned address leaves room for its whole block below the end of memory. -/
theorem AlignedTo.add_le {o : Nat} {phys : Word} (bounded : o ≤ buddyMaxOrder)
    (aligned : AlignedTo o phys) : phys.toNat + 2 ^ (12 + o) ≤ 2 ^ 64 := by
  obtain ⟨index, position⟩ := aligned
  have below : phys.toNat < 2 ^ 64 := phys.isLt
  have whole : 2 ^ 64 = 2 ^ (12 + o) * 2 ^ (52 - o) := by
    rw [← Nat.pow_add]
    congr 1
    unfold buddyMaxOrder at bounded
    omega
  rw [position, whole] at below ⊢
  rw [← Nat.mul_succ]
  exact Nat.mul_le_mul_left _ (Nat.lt_of_mul_lt_mul_left below)

theorem blockOf_first {o : Nat} {phys : Word} (aligned : AlignedTo o phys) :
    (blockOf o phys).first * 4096 = phys.toNat := by
  obtain ⟨index, position⟩ := aligned
  simp only [blockOf, DyadicBlocks.Block.first, position, Nat.mul_div_cancel_left _ (Nat.two_pow_pos _)]
  rw [Nat.pow_add]
  ring

theorem eq_of_blockOf_eq {o : Nat} {left right : Word} (leftAligned : AlignedTo o left)
    (rightAligned : AlignedTo o right) (same : blockOf o left = blockOf o right) :
    left = right := by
  apply BitVec.eq_of_toNat_eq
  rw [← blockOf_first leftAligned, ← blockOf_first rightAligned, same]

theorem upper_half {o : Nat} {phys : Word} (bounded : o + 1 ≤ buddyMaxOrder)
    (aligned : AlignedTo (o + 1) phys) :
    AlignedTo o (phys + blockBytes o) ∧
      blockOf o phys = ⟨o, 2 * (blockOf (o + 1) phys).index⟩ ∧
      blockOf o (phys + blockBytes o) = ⟨o, 2 * (blockOf (o + 1) phys).index + 1⟩ := by
  have fits := aligned.add_le bounded
  have size := blockBytes_toNat (Nat.le_of_succ_le bounded)
  obtain ⟨index, position⟩ := aligned
  have positive := Nat.two_pow_pos (12 + o)
  have double : 2 ^ (12 + (o + 1)) = 2 ^ (12 + o) * 2 := by rw [← Nat.add_assoc, Nat.pow_succ]
  have lower : phys.toNat = 2 ^ (12 + o) * (2 * index) := by rw [position, double, Nat.mul_assoc]
  have upper : (phys + blockBytes o).toNat = 2 ^ (12 + o) * (2 * index + 1) := by
    rw [BitVec.toNat_add, size, Nat.mod_eq_of_lt (by omega), lower]
    ring
  have quotient : (blockOf (o + 1) phys).index = index := by
    rw [blockOf, position, Nat.mul_div_cancel_left _ (Nat.two_pow_pos _)]
  refine ⟨⟨_, upper⟩, ?_, ?_⟩
  · rw [quotient, blockOf, lower, Nat.mul_div_cancel_left _ positive]
  · rw [quotient, blockOf, upper, Nat.mul_div_cancel_left _ positive]

/-- Flipping the size bit of an aligned address gives the other half of the
block one order up. -/
theorem xor_blockBytes {o : Nat} {phys : Word} (bounded : o ≤ buddyMaxOrder)
    (aligned : AlignedTo o phys) :
    AlignedTo o (phys ^^^ blockBytes o) ∧
      blockOf o (phys ^^^ blockBytes o) = (blockOf o phys).buddy := by
  obtain ⟨index, position⟩ := aligned
  have flipped : (phys ^^^ blockBytes o).toNat = 2 ^ (12 + o) * (index ^^^ 1) := by
    rw [BitVec.toNat_xor, blockBytes_toNat bounded, position, Nat.mul_comm, Nat.mul_comm _ (_ ^^^ _),
      ← Nat.shiftLeft_eq, ← Nat.shiftLeft_eq, Nat.shiftLeft_xor_distrib, Nat.one_shiftLeft]
  refine ⟨⟨_, flipped⟩, ?_⟩
  rw [blockOf, flipped, blockOf, position, Nat.mul_div_cancel_left _ (Nat.two_pow_pos _),
    Nat.mul_div_cancel_left _ (Nat.two_pow_pos _), DyadicBlocks.Block.buddy]

/-- The lower of a block and its buddy is where the merged block starts. -/
theorem lower_of_pair {o : Nat} {phys : Word} (bounded : o ≤ buddyMaxOrder)
    (aligned : AlignedTo o phys) :
    AlignedTo (o + 1) (if phys ^^^ blockBytes o < phys then phys ^^^ blockBytes o else phys) ∧
      blockOf (o + 1) (if phys ^^^ blockBytes o < phys then phys ^^^ blockBytes o else phys) =
        (blockOf o phys).parent := by
  have flipped := xor_blockBytes bounded aligned
  obtain ⟨index, position⟩ := aligned
  obtain ⟨⟨index', position'⟩, buddy⟩ := flipped
  have positive := Nat.two_pow_pos (12 + o)
  have double : 2 ^ (12 + (o + 1)) = 2 ^ (12 + o) * 2 := by rw [← Nat.add_assoc, Nat.pow_succ]
  have paired : index' = index ^^^ 1 := by
    have same := congrArg DyadicBlocks.Block.index buddy
    simp only [blockOf, DyadicBlocks.Block.buddy, position, position',
      Nat.mul_div_cancel_left _ positive] at same
    exact same
  have minimum := DyadicBlocks.Block.min_index_buddy (blockOf o phys)
  have quotient : (blockOf o phys).index = index := by
    rw [blockOf, position, Nat.mul_div_cancel_left _ positive]
  rw [quotient, ← paired] at minimum
  have lowest : (if phys ^^^ blockBytes o < phys then phys ^^^ blockBytes o else phys).toNat =
      2 ^ (12 + (o + 1)) * (index / 2) := by
    rw [double, Nat.mul_assoc, ← minimum]
    split
    · next less =>
      have order : index' < index := by
        rw [BitVec.lt_def, position, position'] at less
        exact Nat.lt_of_mul_lt_mul_left less
      rw [position', Nat.min_eq_right (Nat.le_of_lt order)]
    · next notLess =>
      have order : index ≤ index' := by
        rw [BitVec.lt_def, position, position', Nat.not_lt] at notLess
        exact Nat.le_of_mul_le_mul_left notLess positive
      rw [position, Nat.min_eq_left order]
  refine ⟨⟨_, lowest⟩, ?_⟩
  rw [blockOf, lowest, Nat.mul_div_cancel_left _ (Nat.two_pow_pos _), DyadicBlocks.Block.parent, quotient,
    blockOf_order]

/-! ## The blocks of all lists -/

namespace Lists

def blocks (lists : Lists) : List DyadicBlocks.Block :=
  (List.range (buddyMaxOrder + 1)).flatMap fun o => (lists o).map (blockOf o)

theorem mem_blocks {lists : Lists} {block : DyadicBlocks.Block} :
    block ∈ lists.blocks ↔ ∃ o, o ≤ buddyMaxOrder ∧ ∃ phys ∈ lists o, blockOf o phys = block := by
  simp [blocks]

theorem blocks_nil : blocks (fun _ => []) = [] := by
  simp [blocks]

private theorem flatMap_update_cons (lists : Lists) (order : Nat) (phys : Word)
    (orders : List Nat) (unique : orders.Nodup) (member : order ∈ orders) :
    (orders.flatMap fun o => (lists.push order phys o).map (blockOf o)).Perm
      (blockOf order phys :: orders.flatMap fun o => (lists o).map (blockOf o)) := by
  induction orders with
  | nil => cases member
  | cons head rest ih =>
      obtain ⟨absent, unique⟩ := List.nodup_cons.mp unique
      by_cases same : head = order
      · subst same
        have unchanged : (rest.flatMap fun o => (lists.push head phys o).map (blockOf o)) =
            rest.flatMap fun o => (lists o).map (blockOf o) := by
          rw [List.flatMap_congr]
          intro o inRest
          have different : o ≠ head := fun equal => absent (equal ▸ inRest)
          rw [push, Function.update_of_ne different]
        rw [List.flatMap_cons, List.flatMap_cons, unchanged]
        simp [push]
      · have inRest : order ∈ rest := (List.mem_cons.mp member).resolve_left fun equal => same equal.symm
        rw [List.flatMap_cons, List.flatMap_cons, push, Function.update_of_ne same]
        exact ((ih unique inRest).append_left _).trans List.perm_middle

theorem blocks_push (lists : Lists) {order : Nat} (bounded : order ≤ buddyMaxOrder) (phys : Word) :
    (lists.push order phys).blocks.Perm (blockOf order phys :: lists.blocks) :=
  flatMap_update_cons lists order phys _ List.nodup_range
    (List.mem_range.mpr (Nat.lt_succ_of_le bounded))

theorem blocks_remove {lists : Lists} {order : Nat} (bounded : order ≤ buddyMaxOrder) {phys : Word}
    (member : phys ∈ lists order) :
    lists.blocks.Perm (blockOf order phys :: (lists.remove order phys).blocks) := by
  have reordered := blocks_push (lists.remove order phys) bounded phys
  refine List.Perm.trans ?_ reordered
  refine List.Perm.flatMap_left _ fun o _ => ?_
  by_cases same : o = order
  · subst same
    simpa [push, remove] using (List.perm_cons_erase member).map (blockOf o)
  · rw [push, Function.update_of_ne same, remove, Function.update_of_ne same]

end Lists

end ScrapOS.Buddy
