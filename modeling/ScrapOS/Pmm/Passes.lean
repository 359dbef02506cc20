import ScrapOS.Pmm.Init

/-! The passes of `pmm_init`, as the lists of indices they touch. They describe memory
exactly, and the CPU is halted only when no usable entry can hold the bitmap. -/

set_option autoImplicit false

namespace ScrapOS.Pmm

/-! ## Indices -/

/-- `total_frames` of a map. -/
def spanFrames (memmap : List MemmapEntry) : Word := highestAddr memmap / pmmFrameSize

/-- `bitmap_bytes` of a map. -/
def spanBytes (memmap : List MemmapEntry) : Word := (spanFrames memmap + 7) / 8

def runIndices (start : Word) (count : Nat) : List Word :=
  (List.range count).map fun f => start + BitVec.ofNat 64 f

/-- The bits that pass 3 clears. -/
def clearedIndices : List MemmapEntry → List Word
  | [] => []
  | e :: rest =>
      (if e.type = limineMemmapUsable then
        runIndices (e.base / pmmFrameSize) (e.length / pmmFrameSize).toNat
      else []) ++ clearedIndices rest

/-- The bits that pass 4 sets. -/
def reservedIndices (bitmapPhys bitmapBytes : Word) : List Word :=
  runIndices (bitmapPhys / pmmFrameSize) ((bitmapBytes + pmmFrameSize - 1) / pmmFrameSize).toNat

theorem runIndices_succ (start : Word) (count : Nat) :
    runIndices start (count + 1) = runIndices start count ++ [start + BitVec.ofNat 64 count] := by
  rw [runIndices, List.range_succ, List.map_append]
  rfl

theorem runIndices_length (start : Word) (count : Nat) : (runIndices start count).length = count := by
  rw [runIndices, List.length_map, List.length_range]

theorem mem_runIndices {start i : Word} {count : Nat} (noWrap : start.toNat + count < 2 ^ 64) :
    i ∈ runIndices start count ↔ i.toNat ∈ Set.Ico start.toNat (start.toNat + count) := by
  rw [runIndices, List.mem_map, Set.mem_Ico]
  constructor
  · rintro ⟨f, member, rfl⟩
    have inside := List.mem_range.mp member
    bv_omega
  · intro range
    refine ⟨i.toNat - start.toNat, List.mem_range.mpr (by omega), ?_⟩
    bv_omega

section Passes

variable (m : Memory) (g : Globals)

theorem clearRun_eq (start : Word) (count : Nat) :
    clearRun m g start count =
      ((runIndices start count).foldl (fun m i => bitClear m g i) m,
        { g with usableFrames := g.usableFrames + BitVec.ofNat 64 count }) := by
  induction count with
  | zero =>
      have same : g.usableFrames + BitVec.ofNat 64 0 = g.usableFrames := BitVec.add_zero _
      rw [same]
      rfl
  | succ count ih =>
      have next : g.usableFrames + BitVec.ofNat 64 count + 1 =
          g.usableFrames + BitVec.ofNat 64 (count + 1) := by bv_omega
      rw [clearRun, ih, runIndices_succ, List.foldl_append]
      dsimp only
      rw [next]
      rfl

theorem reserveRun_eq (first : Word) (count : Nat) :
    reserveRun m g first count =
      ((runIndices first count).foldl (fun m i => bitSet m g i) m,
        { g with freeFrames := g.freeFrames - BitVec.ofNat 64 count }) := by
  induction count with
  | zero =>
      have same : g.freeFrames - BitVec.ofNat 64 0 = g.freeFrames := BitVec.sub_zero _
      rw [same]
      rfl
  | succ count ih =>
      have next : g.freeFrames - BitVec.ofNat 64 count - 1 =
          g.freeFrames - BitVec.ofNat 64 (count + 1) := by bv_omega
      rw [reserveRun, ih, runIndices_succ, List.foldl_append]
      dsimp only
      rw [next]
      rfl

theorem clearUsable_eq (memmap : List MemmapEntry) :
    clearUsable m g memmap =
      ((clearedIndices memmap).foldl (fun m i => bitClear m g i) m,
        { g with
          usableFrames := g.usableFrames + BitVec.ofNat 64 (clearedIndices memmap).length }) := by
  induction memmap generalizing m g with
  | nil =>
      have same : g.usableFrames + BitVec.ofNat 64 0 = g.usableFrames := BitVec.add_zero _
      rw [clearedIndices, List.length_nil, same]
      rfl
  | cons e rest ih =>
      rw [clearUsable_cons, clearedIndices]
      by_cases usable : e.type = limineMemmapUsable
      · have more : g.usableFrames + BitVec.ofNat 64 (e.length / pmmFrameSize).toNat +
            BitVec.ofNat 64 (clearedIndices rest).length = g.usableFrames +
              BitVec.ofNat 64 ((e.length / pmmFrameSize).toNat + (clearedIndices rest).length) := by
          rw [BitVec.ofNat_add, BitVec.add_assoc]
        rw [if_pos usable, if_pos usable, clearRun_eq, ih, List.foldl_append, List.length_append,
          runIndices_length]
        dsimp only
        rw [more]
        rfl
      · rw [if_neg usable, if_neg usable, List.nil_append]
        exact ih m g

end Passes

/-! ## The whole of `pmm_init` -/

section Init

variable {hhdm : Word} {memmap : List MemmapEntry} {m m' : Memory} {g' : Globals}

/-- What the four passes leave behind when there is room for the bitmap. -/
structure Passed (hhdm : Word) (memmap : List MemmapEntry) (m m' : Memory) (g' : Globals) :
    Prop where
  total : g'.totalFrames = spanFrames memmap
  bytes : g'.bitmapBytes = spanBytes memmap
  bitmap : g'.bitmap = bitmapPhys memmap (spanBytes memmap) + hhdm
  painted : m' =
    (reservedIndices (bitmapPhys memmap (spanBytes memmap)) g'.bitmapBytes).foldl
      (fun m i => bitSet m g' i)
      ((clearedIndices memmap).foldl (fun m i => bitClear m g' i)
        (memset m g'.bitmap 0xFF g'.bitmapBytes.toNat))

theorem pmmInit_none :
    pmmInit m memmap hhdm = none ↔ bitmapPhys memmap (spanBytes memmap) = 0 := by
  rw [pmmInit]
  dsimp only
  split
  · next absent => exact iff_of_true rfl absent
  · next found => exact iff_of_false (Option.some_ne_none _) found

theorem pmmInit_passed (done : pmmInit m memmap hhdm = some (m', g')) :
    Passed hhdm memmap m m' g' := by
  rw [pmmInit] at done
  dsimp only at done
  split at done
  · cases done
  · rw [clearUsable_eq] at done
    dsimp only at done
    rw [reserveRun_eq] at done
    dsimp only at done
    rw [Option.some.injEq, Prod.mk.injEq] at done
    obtain ⟨rfl, rfl⟩ := done
    exact ⟨rfl, rfl, rfl, rfl⟩

theorem mem_clearedIndices {i : Word} (member : i ∈ clearedIndices memmap) :
    ∃ e ∈ memmap, e.type = limineMemmapUsable ∧
      i ∈ runIndices (e.base / pmmFrameSize) (e.length / pmmFrameSize).toNat := by
  induction memmap with
  | nil => cases member
  | cons e rest ih =>
      rw [clearedIndices, List.mem_append] at member
      cases member with
      | inl here =>
          split at here
          · next usable => exact ⟨e, List.mem_cons_self, usable, here⟩
          · cases here
      | inr there =>
          obtain ⟨e', member, usable, inside⟩ := ih there
          exact ⟨e', List.mem_cons_of_mem e member, usable, inside⟩

theorem clearedIndices_usable {i : Word} (member : i ∈ clearedIndices memmap) :
    i.toNat ∈ usableFrames memmap := by
  obtain ⟨e, member, usable, inside⟩ := mem_clearedIndices member
  have start := frameIndex_toNat e.base
  have count := frameIndex_toNat e.length
  rw [mem_runIndices (by omega), start, count] at inside
  exact ⟨e, member, usable, inside⟩

/-- An entry of the map holds the bitmap, from its base on. -/
theorem Passed.placed (passed : Passed hhdm memmap m m' g') (valid : MemmapValid memmap)
    (found : bitmapPhys memmap (spanBytes memmap) ≠ 0) :
    ∃ e ∈ memmap, e.type = limineMemmapUsable ∧ Placed hhdm e g' ∧
      bitmapPhys memmap (spanBytes memmap) = e.base := by
  obtain ⟨e, member, usable, fits, base⟩ := bitmapPhys_spec found
  refine ⟨e, member, usable, ⟨(valid.aligned e member usable).1, valid.addressed e member usable,
    ?_, ?_⟩, base⟩
  · rw [passed.bytes]
    exact fits
  · rw [passed.bitmap, base]

/-- Pass 4 touches the bits of the frames that hold the bitmap, and those only. -/
theorem mem_reservedIndices {e : MemmapEntry} (placed : Placed hhdm e g')
    (small : g'.bitmapBytes.toNat < 2 ^ 52) {i : Word} :
    i ∈ reservedIndices e.base g'.bitmapBytes ↔ i.toNat ∈ g'.bitmapFrames hhdm := by
  have start := frameIndex_toNat e.base
  have count := frameCount g'.bitmapBytes small
  rw [reservedIndices, mem_runIndices (by omega), start, count, placed.bitmapFrames_eq]

/-- A usable entry that can hold the bitmap is found, as its base is not 0. -/
theorem bitmapPhys_eq_zero (valid : MemmapValid memmap)
    (nonempty : ∀ e ∈ memmap, e.type = limineMemmapUsable → e.length ≠ 0) (bytes : Word) :
    bitmapPhys memmap bytes = 0 ↔
      ∀ e ∈ memmap, e.type = limineMemmapUsable → e.length.toNat < bytes.toNat := by
  rw [bitmapPhys]
  cases search : memmap.find? (fun e => e.type == limineMemmapUsable && bytes ≤ e.length) with
  | none =>
      refine iff_of_true rfl fun e member usable => ?_
      have short := List.find?_eq_none.mp search e member
      rw [Bool.and_eq_true, beq_iff_eq, decide_eq_true_eq, BitVec.le_def] at short
      exact Nat.lt_of_not_le fun fits => short ⟨usable, fits⟩
  | some e =>
      have member := List.mem_of_find?_eq_some search
      have fits := List.find?_some search
      rw [Bool.and_eq_true, beq_iff_eq, decide_eq_true_eq, BitVec.le_def] at fits
      refine iff_of_false (fun zero => ?_) fun short => ?_
      · have length := nonempty e member fits.1
        have aligned := (valid.aligned e member fits.1).2
        refine valid.zero ⟨e, member, fits.1, ?_⟩
        dsimp only at zero
        rw [MemmapEntry.frames, zero, Set.mem_Ico]
        have long : e.length.toNat ≠ 0 := fun none => length (BitVec.eq_of_toNat_eq none)
        exact ⟨Nat.le_refl _, by bv_omega⟩
      · have tooShort := short e member fits.1
        omega

/-! ## Exactness -/

/-- The bitmap describes the map: its clear bits are the usable frames without its own, the
counters count them, it lies inside one usable entry, and no pass leaves it. -/
structure Describes (hhdm : Word) (memmap : List MemmapEntry) (m' : Memory) (g' : Globals) :
    Prop where
  bits : ∀ i : Word, i.toNat < g'.totalFrames.toNat →
    (bitTest m' g' i = false ↔
      i.toNat ∈ usableFrames memmap ∧ i.toNat ∉ g'.bitmapFrames hhdm)
  padding : ∀ i : Word, g'.totalFrames.toNat ≤ i.toNat → i.toNat < 8 * g'.bitmapBytes.toNat →
    bitTest m' g' i = true
  usable : g'.usableFrames.toNat = (usableFrames memmap).ncard
  free : g'.freeFrames.toNat = (clearFrames m' g').ncard
  balance : g'.freeFrames.toNat + (g'.bitmapFrames hhdm).ncard = g'.usableFrames.toNat
  spanned : ∀ frame ∈ usableFrames memmap, frame < g'.totalFrames.toNat
  inEntry : ∃ e ∈ memmap, e.type = limineMemmapUsable ∧
    (∀ i : Word, i.toNat < g'.bitmapBytes.toNat →
      e.base.toNat ≤ (g'.bitmap + i - hhdm).toNat ∧
        (g'.bitmap + i - hhdm).toNat < e.base.toNat + e.length.toNat) ∧
    g'.bitmapFrames hhdm ⊆ e.frames
  reserved : ∀ i : Word, i ∈ reservedIndices (g'.bitmap - hhdm) g'.bitmapBytes ↔
    i.toNat ∈ g'.bitmapFrames hhdm
  touched : ∀ i ∈ clearedIndices memmap ++ reservedIndices (g'.bitmap - hhdm) g'.bitmapBytes,
    i.toNat / 8 < g'.bitmapBytes.toNat

theorem Placed.phys {e : MemmapEntry} (placed : Placed hhdm e g') : g'.bitmap - hhdm = e.base := by
  rw [placed.bitmap, BitVec.add_sub_cancel]

theorem Booted.usable_le (booted : Booted hhdm memmap m m' g') :
    (usableFrames memmap).ncard ≤ g'.totalFrames.toNat :=
  ncard_le_of_lt booted.spanned

theorem Booted.balance (booted : Booted hhdm memmap m m' g') :
    g'.freeFrames.toNat + (g'.bitmapFrames hhdm).ncard = g'.usableFrames.toNat := by
  have total := booted.tracks.total
  have room := booted.usable_le
  have finite : (usableFrames memmap).Finite :=
    (Set.finite_lt_nat g'.totalFrames.toNat).subset booted.spanned
  have split := Set.ncard_sdiff_add_ncard_of_subset booted.inside finite
  have counted : g'.usableFrames.toNat = (usableFrames memmap).ncard := by
    rw [booted.counted]
    bv_omega
  rw [booted.tracks.counted, counted]
  exact split

theorem pmmInit_describes (valid : MemmapValid memmap)
    (done : pmmInit m memmap hhdm = some (m', g')) : Describes hhdm memmap m' g' := by
  have booted := pmmInit_booted valid done
  have passed := pmmInit_passed done
  have total := booted.tracks.total
  have bytes := booted.tracks.bytes
  have room := booted.usable_le
  have found : bitmapPhys memmap (spanBytes memmap) ≠ 0 := by
    intro absent
    rw [pmmInit_none.mpr absent] at done
    cases done
  obtain ⟨e, member, usable, placed, -⟩ := passed.placed valid found
  have own := @mem_reservedIndices hhdm g' e placed (by omega)
  rw [← placed.phys] at own
  have inEntry := placed.bitmapFrames_subset (valid.aligned e member usable).2
  have inSpan : ∀ i : Word, i.toNat ∈ usableFrames memmap →
      i.toNat / 8 < g'.bitmapBytes.toNat := by
    intro i inside
    have below := booted.spanned i.toNat inside
    omega
  constructor
  case bits => exact fun i inside => booted.tracks.bit inside
  case padding =>
    intro i past stored
    cases bit : bitTest m' g' i with
    | true => rfl
    | false =>
        have below := booted.tracks.bounded i.toNat ((booted.tracks.bits i stored).mp bit)
        omega
  case usable =>
    rw [booted.counted]
    bv_omega
  case free => rw [booted.tracks.counted, booted.tracks.clearFrames_eq]
  case balance => exact booted.balance
  case spanned => exact booted.spanned
  case inEntry =>
    refine ⟨e, member, usable, fun i inside => ?_, inEntry⟩
    have fits := placed.fits
    rw [placed.offset inside]
    omega
  case reserved => exact fun i => own
  case touched =>
    intro i touched
    cases List.mem_append.mp touched with
    | inl cleared => exact inSpan i (clearedIndices_usable cleared)
    | inr reserved => exact inSpan i (booted.inside (own.mp reserved))

/-- `pmm_init` halts exactly when no usable entry can hold the bitmap; otherwise its four
passes, each inside the bitmap, leave a bitmap that describes the map exactly. -/
theorem pmm_init_exact {memmap : List MemmapEntry} (valid : MemmapValid memmap)
    (nonempty : ∀ e ∈ memmap, e.type = limineMemmapUsable → e.length ≠ 0) (m : Memory)
    (hhdm : Word) :
    (pmmInit m memmap hhdm = none ↔
      ∀ e ∈ memmap, e.type = limineMemmapUsable → e.length.toNat < (spanBytes memmap).toNat) ∧
    ∀ m' g', pmmInit m memmap hhdm = some (m', g') →
      Passed hhdm memmap m m' g' ∧ Describes hhdm memmap m' g' :=
  ⟨pmmInit_none.trans (bitmapPhys_eq_zero valid nonempty _),
    fun _ _ done => ⟨pmmInit_passed done, pmmInit_describes valid done⟩⟩

theorem pmm_init_exact_smallMap : Describes smallHhdm smallMap smallBoot.1 smallBoot.2 :=
  ((pmm_init_exact smallMap_valid (by decide) (fun _ => 0) smallHhdm).2 _ _ smallBoot_done).2

end Init

end ScrapOS.Pmm
