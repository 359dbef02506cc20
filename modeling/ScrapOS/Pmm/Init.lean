import ScrapOS.Pmm.Bitmap

/-! `pmm_init` on a well-formed memory map: afterwards the free frames are the usable
frames without those that hold the bitmap. -/

set_option autoImplicit false

namespace ScrapOS

/-- The frames of an entry. -/
def MemmapEntry.frames (e : MemmapEntry) : Set Nat :=
  Set.Ico (e.base.toNat / 4096) (e.base.toNat / 4096 + e.length.toNat / 4096)

/-- The frames of the usable entries. -/
def usableFrames (memmap : List MemmapEntry) : Set Nat :=
  {frame | ∃ e ∈ memmap, e.type = limineMemmapUsable ∧ frame ∈ e.frames}

/-- A memory map as Limine promises it: the usable entries are page-aligned, disjoint
and do not contain frame 0, and their end is an address. -/
structure MemmapValid (memmap : List MemmapEntry) : Prop where
  aligned : ∀ e ∈ memmap, e.type = limineMemmapUsable →
    e.base.toNat % 4096 = 0 ∧ e.length.toNat % 4096 = 0
  addressed : ∀ e ∈ memmap, e.type = limineMemmapUsable → e.base.toNat + e.length.toNat < 2 ^ 64
  disjoint : memmap.Pairwise fun left right => left.type = limineMemmapUsable →
    right.type = limineMemmapUsable → Disjoint left.frames right.frames
  zero : 0 ∉ usableFrames memmap

namespace MemmapEntry

theorem frames_ncard (e : MemmapEntry) : e.frames.ncard = e.length.toNat / 4096 := by
  rw [frames, Set.ncard_eq_toFinset_card', Set.toFinset_Ico, Nat.card_Ico]
  omega

end MemmapEntry

theorem usableFrames_nil : usableFrames [] = ∅ := by simp [usableFrames]

theorem usableFrames_cons (e : MemmapEntry) (rest : List MemmapEntry) :
    usableFrames (e :: rest) =
      (if e.type = limineMemmapUsable then e.frames else ∅) ∪ usableFrames rest := by
  ext frame
  simp only [usableFrames, List.mem_cons, Set.mem_union, Set.mem_ofPred_eq]
  split
  · next usable => simp only [exists_eq_or_imp, usable, true_and]
  · next other => simp only [exists_eq_or_imp, other, false_and, false_or, Set.mem_empty_iff_false]

theorem disjoint_usableFrames {e : MemmapEntry} {rest : List MemmapEntry}
    (usable : e.type = limineMemmapUsable)
    (disjoint : ∀ other ∈ rest, e.type = limineMemmapUsable → other.type = limineMemmapUsable →
      Disjoint e.frames other.frames) : Disjoint e.frames (usableFrames rest) := by
  rw [Set.disjoint_left]
  intro frame inEntry inRest
  obtain ⟨other, member, otherUsable, inOther⟩ := inRest
  exact Set.disjoint_left.mp (disjoint other member usable otherUsable) inEntry inOther

theorem MemmapValid.entry_eq {memmap : List MemmapEntry} (valid : MemmapValid memmap)
    {e e' : MemmapEntry} (member : e ∈ memmap) (member' : e' ∈ memmap)
    (usable : e.type = limineMemmapUsable) (usable' : e'.type = limineMemmapUsable) :
    e = e' ∨ Disjoint e.frames e'.frames := by
  by_cases same : e = e'
  · exact .inl same
  · have symmetric : Std.Symm fun left right : MemmapEntry => left.type = limineMemmapUsable →
        right.type = limineMemmapUsable → Disjoint left.frames right.frames :=
      ⟨fun _ _ apart usableLeft usableRight => (apart usableRight usableLeft).symm⟩
    exact .inr (valid.disjoint.forall member member' same usable usable')

namespace Pmm

/-! ## Runs of bits -/

/-- Bits were rewritten until those of `clear` are the clear ones, and nothing outside the
bitmap. -/
structure Swept (hhdm : Word) (bitmapFrames clear : Set Nat) (m : Memory) (g : Globals)
    (result : Memory × Globals) : Prop where
  marks : Marks hhdm bitmapFrames clear result.1 result.2
  frame : Set.EqOn result.1 m (frameBytes hhdm bitmapFrames)ᶜ
  total : result.2.totalFrames = g.totalFrames
  bitmap : result.2.bitmap = g.bitmap
  bytes : result.2.bitmapBytes = g.bitmapBytes

section Sweep

variable {hhdm : Word} {bitmapFrames clear : Set Nat} {m : Memory} {g : Globals}

theorem Swept.refl (marks : Marks hhdm bitmapFrames clear m g) :
    Swept hhdm bitmapFrames clear m g (m, g) := ⟨marks, Set.eqOn_refl _ _, rfl, rfl, rfl⟩

private theorem ico_succ (start count : Nat) :
    Set.Ico start (start + (count + 1)) = insert (start + count) (Set.Ico start (start + count)) := by
  ext frame
  simp only [Set.mem_Ico, Set.mem_insert_iff]
  omega

theorem clearRun_swept (marks : Marks hhdm bitmapFrames clear m g) (start : Word) (count : Nat)
    (inside : start.toNat + count ≤ g.totalFrames.toNat) :
    Swept hhdm bitmapFrames (clear ∪ Set.Ico start.toNat (start.toNat + count)) m g
        (clearRun m g start count) ∧
      (clearRun m g start count).2.usableFrames = g.usableFrames + BitVec.ofNat 64 count := by
  have total := marks.total
  induction count with
  | zero =>
      rw [clearRun, Nat.add_zero, Set.Ico_self, Set.union_empty]
      exact ⟨.refl marks, (BitVec.add_zero _).symm⟩
  | succ count ih =>
      obtain ⟨before, counted⟩ := ih (by omega)
      rw [clearRun]
      generalize clearRun m g start count = result at before counted
      obtain ⟨m', g'⟩ := result
      have sameTotal : g'.totalFrames = g.totalFrames := before.total
      have index : (start + BitVec.ofNat 64 count).toNat = start.toNat + count := by bv_omega
      have within : (start + BitVec.ofNat 64 count).toNat < g'.totalFrames.toNat := by
        rw [sameTotal]
        omega
      have marks' := before.marks.unset within
      rw [index, ← Set.union_insert, ← ico_succ] at marks'
      refine ⟨⟨marks'.congr (Set.eqOn_refl _ _) rfl rfl rfl,
        (before.marks.bitmap_frame within _).trans before.frame, sameTotal, before.bitmap,
        before.bytes⟩, ?_⟩
      dsimp only at counted ⊢
      rw [counted, BitVec.add_assoc, BitVec.ofNat_add]
      rfl

/-- A run of bits of the span is set, and the free counter goes down by as many. -/
theorem reserveRun_swept (marks : Marks hhdm bitmapFrames clear m g) (first : Word) (count : Nat)
    (inside : first.toNat + count ≤ g.totalFrames.toNat) :
    Swept hhdm bitmapFrames (clear \ Set.Ico first.toNat (first.toNat + count)) m g
        (reserveRun m g first count) ∧
      (reserveRun m g first count).2.freeFrames = g.freeFrames - BitVec.ofNat 64 count ∧
      (reserveRun m g first count).2.usableFrames = g.usableFrames := by
  have total := marks.total
  induction count with
  | zero =>
      rw [reserveRun, Nat.add_zero, Set.Ico_self, Set.sdiff_empty]
      exact ⟨.refl marks, (BitVec.sub_zero _).symm, rfl⟩
  | succ count ih =>
      obtain ⟨before, counted, sameUsable⟩ := ih (by omega)
      rw [reserveRun]
      generalize reserveRun m g first count = result at before counted sameUsable
      obtain ⟨m', g'⟩ := result
      have sameTotal : g'.totalFrames = g.totalFrames := before.total
      have index : (first + BitVec.ofNat 64 count).toNat = first.toNat + count := by bv_omega
      have within : (first + BitVec.ofNat 64 count).toNat < g'.totalFrames.toNat := by
        rw [sameTotal]
        omega
      have marks' := before.marks.set (first + BitVec.ofNat 64 count)
      rw [index, Set.sdiff_sdiff, Set.union_singleton, ← ico_succ] at marks'
      refine ⟨⟨marks'.congr (Set.eqOn_refl _ _) rfl rfl rfl,
        (before.marks.bitmap_frame within _).trans before.frame, sameTotal, before.bitmap,
        before.bytes⟩, ?_, sameUsable⟩
      dsimp only at counted ⊢
      bv_omega

theorem clearUsable_cons (m : Memory) (g : Globals) (e : MemmapEntry) (rest : List MemmapEntry) :
    clearUsable m g (e :: rest) =
      if e.type = limineMemmapUsable then
        clearUsable (clearRun m g (e.base / pmmFrameSize) (e.length / pmmFrameSize).toNat).1
          (clearRun m g (e.base / pmmFrameSize) (e.length / pmmFrameSize).toNat).2 rest
      else clearUsable m g rest := by
  rw [clearUsable, List.foldl_cons]
  by_cases usable : e.type = limineMemmapUsable
  · rw [if_pos usable, clearUsable]
    dsimp only
    rw [if_neg (not_not_intro usable)]
  · rw [if_neg usable, clearUsable]
    dsimp only
    rw [if_pos usable]

/-- Every usable entry is cleared; disjoint entries are counted once each. -/
theorem clearUsable_swept {memmap : List MemmapEntry} (marks : Marks hhdm bitmapFrames clear m g)
    (covered : ∀ e ∈ memmap, e.type = limineMemmapUsable →
      e.base.toNat / 4096 + e.length.toNat / 4096 ≤ g.totalFrames.toNat)
    (disjoint : memmap.Pairwise fun left right => left.type = limineMemmapUsable →
      right.type = limineMemmapUsable → Disjoint left.frames right.frames) :
    Swept hhdm bitmapFrames (clear ∪ usableFrames memmap) m g (clearUsable m g memmap) ∧
      (clearUsable m g memmap).2.usableFrames =
        g.usableFrames + BitVec.ofNat 64 (usableFrames memmap).ncard := by
  induction memmap generalizing clear m g with
  | nil =>
      rw [usableFrames_nil, Set.union_empty, Set.ncard_empty]
      exact ⟨.refl marks, (BitVec.add_zero _).symm⟩
  | cons e rest ih =>
      rw [List.pairwise_cons] at disjoint
      have coveredRest : ∀ e ∈ rest, e.type = limineMemmapUsable →
          e.base.toNat / 4096 + e.length.toNat / 4096 ≤ g.totalFrames.toNat :=
        fun e' member => covered e' (List.mem_cons_of_mem e member)
      rw [clearUsable_cons, usableFrames_cons]
      by_cases usable : e.type = limineMemmapUsable
      · have start := frameIndex_toNat e.base
        have count := frameIndex_toNat e.length
        obtain ⟨here, counted⟩ := clearRun_swept marks (e.base / pmmFrameSize)
          (e.length / pmmFrameSize).toNat (by rw [start, count]; exact covered e List.mem_cons_self usable)
        rw [if_pos usable, if_pos usable]
        generalize clearRun m g (e.base / pmmFrameSize) (e.length / pmmFrameSize).toNat = result
          at here counted
        obtain ⟨m', g'⟩ := result
        have sameTotal : g'.totalFrames = g.totalFrames := here.total
        obtain ⟨there, countedRest⟩ := ih here.marks (by rw [sameTotal]; exact coveredRest) disjoint.2
        rw [start, count, Set.union_assoc] at there
        have apart := disjoint_usableFrames usable disjoint.1
        have finite : (usableFrames rest).Finite :=
          there.marks.finite.subset fun frame member => .inr (.inr member)
        refine ⟨⟨there.marks, there.frame.trans here.frame, there.total.trans here.total,
          there.bitmap.trans here.bitmap, there.bytes.trans here.bytes⟩, ?_⟩
        rw [Set.ncard_union_eq apart (Set.finite_Ico _ _) finite, e.frames_ncard, ← count]
        dsimp only at counted
        rw [countedRest, BitVec.ofNat_add, ← BitVec.add_assoc, counted]
      · rw [if_neg usable, if_neg usable, Set.empty_union]
        exact ih marks coveredRest disjoint.2

end Sweep

/-! ## Where the bitmap goes -/

theorem highestAddr_spec (memmap : List MemmapEntry)
    (addressed : ∀ e ∈ memmap, e.type = limineMemmapUsable →
      e.base.toNat + e.length.toNat < 2 ^ 64) :
    ∀ e ∈ memmap, e.type = limineMemmapUsable →
      e.base.toNat + e.length.toNat ≤ (highestAddr memmap).toNat := by
  have fold : ∀ (rest : List MemmapEntry) (highest : Word),
      (∀ e ∈ rest, e.type = limineMemmapUsable → e.base.toNat + e.length.toNat < 2 ^ 64) →
      let final := rest.foldl (fun highest e =>
        if e.type ≠ limineMemmapUsable then highest
        else if e.base + e.length > highest then e.base + e.length else highest) highest
      highest.toNat ≤ final.toNat ∧ ∀ e ∈ rest, e.type = limineMemmapUsable →
        e.base.toNat + e.length.toNat ≤ final.toNat := by
    intro rest
    induction rest with
    | nil => exact fun highest _ => ⟨Nat.le_refl _, by simp⟩
    | cons e rest ih =>
        intro highest addressed
        have addressedRest := fun e' member => addressed e' (List.mem_cons_of_mem e member)
        rw [List.foldl_cons]
        split
        · next other =>
          obtain ⟨above, covers⟩ := ih highest addressedRest
          refine ⟨above, fun e' member usable => ?_⟩
          cases List.mem_cons.mp member with
          | inl here => exact absurd (here ▸ usable) other
          | inr later => exact covers e' later usable
        · next usable =>
          have top := addressed e List.mem_cons_self (Decidable.of_not_not usable)
          have noWrap : (e.base + e.length).toNat = e.base.toNat + e.length.toNat := by bv_omega
          obtain ⟨above, covers⟩ := ih
            (if e.base + e.length > highest then e.base + e.length else highest) addressedRest
          have larger : highest.toNat ≤
                (if e.base + e.length > highest then e.base + e.length else highest).toNat ∧
              e.base.toNat + e.length.toNat ≤
                (if e.base + e.length > highest then e.base + e.length else highest).toNat := by
            split <;> bv_omega
          refine ⟨larger.1.trans above, fun e' member usable' => ?_⟩
          cases List.mem_cons.mp member with
          | inl here => exact here ▸ larger.2.trans above
          | inr later => exact covers e' later usable'
  exact (fold memmap 0 addressed).2

theorem bitmapPhys_spec {memmap : List MemmapEntry} {bytes : Word}
    (found : bitmapPhys memmap bytes ≠ 0) :
    ∃ e ∈ memmap, e.type = limineMemmapUsable ∧ bytes.toNat ≤ e.length.toNat ∧
      bitmapPhys memmap bytes = e.base := by
  rw [bitmapPhys] at found ⊢
  cases search : memmap.find? (fun e => e.type == limineMemmapUsable && bytes ≤ e.length) with
  | none =>
      rw [search] at found
      exact absurd rfl found
  | some e =>
      have fits := List.find?_some search
      rw [Bool.and_eq_true, beq_iff_eq, decide_eq_true_eq] at fits
      exact ⟨e, List.mem_of_find?_eq_some search, fits.1, BitVec.le_def.mp fits.2, rfl⟩

/-- The frames that the bytes of the bitmap lie in. -/
def Globals.bitmapFrames (hhdm : Word) (g : Globals) : Set Nat :=
  {frame | ∃ i : Word, i.toNat < g.bitmapBytes.toNat ∧ frameOf hhdm (g.bitmap + i) = frame}

section Fill

variable {hhdm : Word} {g : Globals} {e : MemmapEntry}

/-- The bitmap lies at the start of an aligned entry that can hold it. -/
structure Placed (hhdm : Word) (e : MemmapEntry) (g : Globals) : Prop where
  aligned : e.base.toNat % 4096 = 0
  addressed : e.base.toNat + e.length.toNat < 2 ^ 64
  fits : g.bitmapBytes.toNat ≤ e.length.toNat
  bitmap : g.bitmap = e.base + hhdm

namespace Placed

theorem offset (placed : Placed hhdm e g) {i : Word} (inside : i.toNat < g.bitmapBytes.toNat) :
    (g.bitmap + i - hhdm).toNat = e.base.toNat + i.toNat := by
  have addressed := placed.addressed
  have fits := placed.fits
  rw [placed.bitmap]
  bv_omega

theorem bitmapFrames_eq (placed : Placed hhdm e g) :
    g.bitmapFrames hhdm = Set.Ico (e.base.toNat / 4096)
      (e.base.toNat / 4096 + (g.bitmapBytes.toNat + 4095) / 4096) := by
  have aligned := placed.aligned
  have addressed := placed.addressed
  have fits := placed.fits
  ext frame
  rw [Set.mem_Ico]
  constructor
  · rintro ⟨i, inside, rfl⟩
    rw [frameOf, placed.offset inside]
    omega
  · intro range
    have small : (BitVec.ofNat 64 ((frame - e.base.toNat / 4096) * 4096)).toNat =
        (frame - e.base.toNat / 4096) * 4096 := by bv_omega
    have inside : (BitVec.ofNat 64 ((frame - e.base.toNat / 4096) * 4096)).toNat <
        g.bitmapBytes.toNat := by omega
    refine ⟨_, inside, ?_⟩
    rw [frameOf, placed.offset inside, small]
    omega

theorem bitmapFrames_ncard (placed : Placed hhdm e g) :
    (g.bitmapFrames hhdm).ncard = (g.bitmapBytes.toNat + 4095) / 4096 := by
  rw [placed.bitmapFrames_eq, Set.ncard_eq_toFinset_card', Set.toFinset_Ico, Nat.card_Ico]
  omega

theorem bitmapFrames_subset (placed : Placed hhdm e g) (lengthAligned : e.length.toNat % 4096 = 0) :
    g.bitmapFrames hhdm ⊆ e.frames := by
  have fits := placed.fits
  rw [placed.bitmapFrames_eq, MemmapEntry.frames]
  apply Set.Ico_subset_Ico_right
  omega

end Placed

theorem frameCount (bytes : Word) (small : bytes.toNat < 2 ^ 52) :
    ((bytes + pmmFrameSize - 1) / pmmFrameSize).toNat = (bytes.toNat + 4095) / 4096 := by
  have sum : (bytes + pmmFrameSize - 1).toNat = bytes.toNat + 4095 := by bv_omega
  rw [BitVec.toNat_udiv, sum]
  rfl

theorem bitmap_span (hhdm : Word) (g : Globals) :
    span g.bitmap g.bitmapBytes.toNat ⊆ frameBytes hhdm (g.bitmapFrames hhdm) := by
  intro address inside
  rw [mem_span] at inside
  refine ⟨address - g.bitmap, inside, ?_⟩
  rw [BitVec.add_comm, BitVec.sub_add_cancel]

/-- Painted with ones, the bitmap marks every frame used. -/
theorem painted_marks (hhdm : Word) (m : Memory) (g : Globals) (total : g.totalFrames.toNat < 2 ^ 52)
    (bytes : g.bitmapBytes.toNat = (g.totalFrames.toNat + 7) / 8) :
    Marks hhdm (g.bitmapFrames hhdm) ∅ (memset m g.bitmap 0xFF g.bitmapBytes.toNat) g where
  total := total
  bytes := bytes
  stored := by
    intro i inside
    refine ⟨i / 8, ?_, rfl⟩
    rw [byte_toNat]
    omega
  bits := by
    intro i inside
    have byte := byte_toNat i
    have within : g.bitmap + i / 8 ∈ span g.bitmap g.bitmapBytes.toNat := by
      have distance : (g.bitmap + i / 8 - g.bitmap).toNat = i.toNat / 8 := by
        rw [← byte]
        generalize i / 8 = index
        bv_omega
      rw [mem_span, distance]
      omega
    rw [bitTest_eq, memset_inside (by omega) within]
    have low : (i % 8).toNat < 8 := by
      rw [bit_toNat]
      exact Nat.mod_lt _ (by decide)
    have ones : ∀ k, k < 8 → (0xFF : Byte).getLsbD k = true := by decide
    rw [ones _ low]
    simp
  bounded := fun frame member => absurd member (Set.notMem_empty frame)

end Fill

/-! ## The whole of `pmm_init` -/

/-- What `pmm_init` leaves behind: the free frames are the usable ones without those
of the bitmap, and nothing outside the bitmap was written. -/
structure Booted (hhdm : Word) (memmap : List MemmapEntry) (m m' : Memory) (g' : Globals) :
    Prop where
  inside : g'.bitmapFrames hhdm ⊆ usableFrames memmap
  tracks : Tracks hhdm (g'.bitmapFrames hhdm) (usableFrames memmap \ g'.bitmapFrames hhdm) m' g'
  frame : Set.EqOn m' m (frameBytes hhdm (g'.bitmapFrames hhdm))ᶜ
  spanned : ∀ frame ∈ usableFrames memmap, frame < g'.totalFrames.toNat
  counted : g'.usableFrames = BitVec.ofNat 64 (usableFrames memmap).ncard

/-- Passes 3 and 4 on a painted bitmap. -/
theorem Placed.booted {hhdm : Word} {memmap : List MemmapEntry} {e : MemmapEntry} {m : Memory}
    {g : Globals} (valid : MemmapValid memmap) (member : e ∈ memmap)
    (usable : e.type = limineMemmapUsable) (placed : Placed hhdm e g)
    (marks : Marks hhdm (g.bitmapFrames hhdm) ∅ (memset m g.bitmap 0xFF g.bitmapBytes.toNat) g)
    (covered : ∀ e ∈ memmap, e.type = limineMemmapUsable →
      e.base.toNat / 4096 + e.length.toNat / 4096 ≤ g.totalFrames.toNat)
    (none : g.usableFrames = 0) {cleared : Memory × Globals}
    (clearing : clearUsable (memset m g.bitmap 0xFF g.bitmapBytes.toNat) g memmap = cleared)
    {reserved : Memory × Globals}
    (reserving : reserveRun cleared.1 { cleared.2 with freeFrames := cleared.2.usableFrames }
      (e.base / pmmFrameSize) ((g.bitmapBytes + pmmFrameSize - 1) / pmmFrameSize).toNat = reserved) :
    Booted hhdm memmap m reserved.1 { reserved.2 with nextHint := 0 } := by
  have total := marks.total
  have bytes := marks.bytes
  have lengthAligned := (valid.aligned e member usable).2
  have inEntry := placed.bitmapFrames_subset lengthAligned
  have subset : g.bitmapFrames hhdm ⊆ usableFrames memmap :=
    fun frame inside => ⟨e, member, usable, inEntry inside⟩
  obtain ⟨clearSwept, counted⟩ := clearUsable_swept marks covered valid.disjoint
  rw [clearing] at clearSwept counted
  rw [Set.empty_union] at clearSwept
  have counted : cleared.2.usableFrames = BitVec.ofNat 64 (usableFrames memmap).ncard := by
    rw [none] at counted
    exact counted.trans (BitVec.zero_add _)
  have first := frameIndex_toNat e.base
  have count : ((g.bitmapBytes + pmmFrameSize - 1) / pmmFrameSize).toNat =
      (g.bitmapBytes.toNat + 4095) / 4096 := frameCount g.bitmapBytes (by omega)
  have inSpan : (e.base / pmmFrameSize).toNat +
      ((g.bitmapBytes + pmmFrameSize - 1) / pmmFrameSize).toNat ≤ cleared.2.totalFrames.toNat := by
    have top := covered e member usable
    have fits := placed.fits
    rw [first, count, clearSwept.total]
    omega
  have countedMarks : Marks hhdm (g.bitmapFrames hhdm) (usableFrames memmap) cleared.1
      { cleared.2 with freeFrames := cleared.2.usableFrames } :=
    clearSwept.marks.congr (Set.eqOn_refl _ _) rfl rfl rfl
  obtain ⟨reserveSwept, freed, sameUsable⟩ := reserveRun_swept countedMarks (e.base / pmmFrameSize)
    ((g.bitmapBytes + pmmFrameSize - 1) / pmmFrameSize).toNat inSpan
  rw [first, count, ← placed.bitmapFrames_eq] at reserveSwept
  rw [reserving] at freed sameUsable
  rw [← count, reserving] at reserveSwept
  have sameBitmap : Globals.bitmapFrames hhdm { reserved.2 with nextHint := 0 } =
      g.bitmapFrames hhdm := by
    have bitmap := reserveSwept.bitmap.trans clearSwept.bitmap
    have bytes := reserveSwept.bytes.trans clearSwept.bytes
    rw [Globals.bitmapFrames, Globals.bitmapFrames]
    dsimp only
    rw [bitmap, bytes]
  refine ⟨?_, ⟨?_, ?_, ?_, ?_, Nat.zero_le _⟩, ?_, ?_, sameUsable.trans counted⟩
  · rw [sameBitmap]
    exact subset
  · rw [sameBitmap]
    exact reserveSwept.marks.congr (Set.eqOn_refl _ _) rfl rfl rfl
  · exact fun inside => valid.zero inside.1
  · exact Set.disjoint_sdiff_left
  · have room := clearSwept.marks.ncard_le
    have fewer := Set.ncard_le_ncard subset clearSwept.marks.finite
    have remaining := Set.ncard_sdiff subset (clearSwept.marks.finite.subset subset)
    have card := placed.bitmapFrames_ncard
    rw [clearSwept.total] at room
    rw [sameBitmap, remaining, card]
    rw [count] at freed
    dsimp only at freed ⊢
    rw [freed, counted]
    bv_omega
  · rw [sameBitmap]
    apply (reserveSwept.frame.trans clearSwept.frame).trans
    exact eqOn_compl_mono (memset_frame (by omega)) (bitmap_span hhdm g)
  · rintro frame ⟨other, otherMember, otherUsable, inside⟩
    have top := covered other otherMember otherUsable
    have last := inside.2
    have sameTotal := reserveSwept.total.trans clearSwept.total
    dsimp only at sameTotal ⊢
    rw [sameTotal]
    omega

theorem pmmInit_booted {hhdm : Word} {memmap : List MemmapEntry} {m m' : Memory} {g' : Globals}
    (valid : MemmapValid memmap) (done : pmmInit m memmap hhdm = some (m', g')) :
    Booted hhdm memmap m m' g' := by
  have covers := highestAddr_spec memmap valid.addressed
  rw [pmmInit] at done
  dsimp only at done
  split at done
  · cases done
  · next found =>
    obtain ⟨e, member, usable, fits, base⟩ := bitmapPhys_spec found
    have total := frameIndex_toNat (highestAddr memmap)
    have bytes : ((highestAddr memmap / pmmFrameSize + 7) / 8).toNat =
        ((highestAddr memmap / pmmFrameSize).toNat + 7) / 8 := by
      have sum : (highestAddr memmap / pmmFrameSize + 7).toNat =
          (highestAddr memmap / pmmFrameSize).toNat + 7 := by
        generalize highestAddr memmap / pmmFrameSize = totalFrames at total
        bv_omega
      rw [BitVec.toNat_udiv, sum]
      rfl
    have covered : ∀ e ∈ memmap, e.type = limineMemmapUsable →
        e.base.toNat / 4096 + e.length.toNat / 4096 ≤ (highestAddr memmap / pmmFrameSize).toNat := by
      intro e' member' usable'
      have top := covers e' member' usable'
      obtain ⟨base', length'⟩ := valid.aligned e' member' usable'
      omega
    rw [base] at done
    have placed : Placed hhdm e ⟨e.base + hhdm, (highestAddr memmap / pmmFrameSize + 7) / 8,
        highestAddr memmap / pmmFrameSize, 0, 0, 0⟩ :=
      ⟨(valid.aligned e member usable).1, valid.addressed e member usable, fits, rfl⟩
    have marks := painted_marks hhdm m ⟨e.base + hhdm, (highestAddr memmap / pmmFrameSize + 7) / 8,
      highestAddr memmap / pmmFrameSize, 0, 0, 0⟩ (by dsimp only; omega) bytes
    rw [Option.some.injEq, Prod.mk.injEq] at done
    obtain ⟨rfl, rfl⟩ := done
    exact placed.booted valid member usable marks covered rfl rfl rfl

/-! ## A small machine -/

/-- Sixteen usable frames from frame 1 on, and a reserved region above them. -/
def smallMap : List MemmapEntry :=
  [⟨0x1000, 0x10000, limineMemmapUsable⟩, ⟨0x11000, 0x2000, 1⟩]

def smallHhdm : Word := 0xffff800000000000

theorem smallMap_frames : usableFrames smallMap = Set.Ico 1 17 := by
  rw [smallMap, usableFrames_cons, usableFrames_cons, if_pos rfl, if_neg (by decide)]
  rw [usableFrames_nil, Set.union_empty, Set.union_empty]
  rfl

theorem smallMap_valid : MemmapValid smallMap := by
  refine ⟨by decide, by decide, ?_, ?_⟩
  · simp [smallMap]
  · rw [smallMap_frames]
    simp

def smallBoot : Memory × Globals :=
  (pmmInit (fun _ => 0) smallMap smallHhdm).get (by decide +kernel)

theorem smallBoot_done :
    pmmInit (fun _ => 0) smallMap smallHhdm = some (smallBoot.1, smallBoot.2) := by
  have succeeds : (pmmInit (fun _ => 0) smallMap smallHhdm).isSome := by decide +kernel
  exact (Option.some_get succeeds).symm

end Pmm

end ScrapOS
