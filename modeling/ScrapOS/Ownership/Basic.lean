import Mathlib

/-! Items that have exactly one owner each. Handing items over is a change of two of the
owners' sets, and it keeps every item with exactly one owner. -/

set_option autoImplicit false

namespace ScrapOS.Ownership

variable {Owner Item : Type*} {items moved : Set Item} {held held' : Owner → Set Item}
  {source target : Owner} {item : Item}

/-- Exactly the items of `items` are held, each by one owner. -/
structure OwnedOnce (items : Set Item) (held : Owner → Set Item) : Prop where
  inside : ∀ owner, held owner ⊆ items
  once : ∀ item ∈ items, ∃! owner, item ∈ held owner

namespace OwnedOnce

theorem mem_iff (owned : OwnedOnce items held) : item ∈ items ↔ ∃ owner, item ∈ held owner := by
  constructor
  · intro member
    obtain ⟨owner, holds, -⟩ := owned.once item member
    exact ⟨owner, holds⟩
  · rintro ⟨owner, holds⟩
    exact owned.inside owner holds

theorem unique (owned : OwnedOnce items held) {left right : Owner} (holdsLeft : item ∈ held left)
    (holdsRight : item ∈ held right) : left = right :=
  (owned.once item (owned.inside left holdsLeft)).unique holdsLeft holdsRight

theorem disjoint (owned : OwnedOnce items held) (different : source ≠ target) :
    Disjoint (held source) (held target) :=
  Set.disjoint_left.mpr fun _ holds holds' => different (owned.unique holds holds')

/-- Ownership is a matter of who holds which item. -/
theorem of_unique (covered : ∀ item, item ∈ items ↔ ∃ owner, item ∈ held owner)
    (unique : ∀ left right item, item ∈ held left → item ∈ held right → left = right) :
    OwnedOnce items held where
  inside := fun owner item holds => (covered item).mpr ⟨owner, holds⟩
  once := by
    intro item member
    obtain ⟨owner, holds⟩ := (covered item).mp member
    exact ⟨owner, holds, fun other holdsToo => unique other owner item holdsToo holds⟩

theorem move (owned : OwnedOnce items held) (different : source ≠ target)
    (available : moved ⊆ held source) (left : held' source = held source \ moved)
    (gained : held' target = held target ∪ moved)
    (others : ∀ owner, owner ≠ source → owner ≠ target → held' owner = held owner) :
    OwnedOnce items held' := by
  have now : ∀ owner item, item ∈ held' owner ↔
      (item ∈ moved ∧ owner = target) ∨ (item ∉ moved ∧ item ∈ held owner) := by
    intro owner item
    by_cases isSource : owner = source
    · subst isSource
      rw [left, Set.mem_sdiff]
      have notTarget := different
      tauto
    · by_cases isTarget : owner = target
      · subst isTarget
        rw [gained, Set.mem_union]
        tauto
      · rw [others owner isSource isTarget]
        have stays : item ∈ held owner → item ∉ moved :=
          fun holds isMoved => isSource (owned.unique holds (available isMoved))
        tauto
  apply of_unique
  · intro item
    rw [owned.mem_iff]
    constructor
    · rintro ⟨owner, holds⟩
      by_cases isMoved : item ∈ moved
      · exact ⟨target, (now target item).mpr (.inl ⟨isMoved, rfl⟩)⟩
      · exact ⟨owner, (now owner item).mpr (.inr ⟨isMoved, holds⟩)⟩
    · rintro ⟨owner, holds⟩
      rcases (now owner item).mp holds with ⟨isMoved, -⟩ | ⟨-, before⟩
      · exact ⟨source, available isMoved⟩
      · exact ⟨owner, before⟩
  · intro first second item holdsFirst holdsSecond
    rcases (now first item).mp holdsFirst with ⟨isMoved, isTarget⟩ | ⟨notMoved, before⟩
    · rcases (now second item).mp holdsSecond with ⟨-, isTargetToo⟩ | ⟨notMoved, -⟩
      · rw [isTarget, isTargetToo]
      · exact absurd isMoved notMoved
    · rcases (now second item).mp holdsSecond with ⟨isMoved, -⟩ | ⟨-, beforeToo⟩
      · exact absurd isMoved notMoved
      · exact owned.unique before beforeToo

/-- A holder is one of two owners or another one. -/
theorem holder_cases {owner : Owner} (holds : item ∈ held owner) (source target : Owner) :
    (item ∈ held source ∨ item ∈ held target) ∨ owner ≠ source ∧ owner ≠ target := by
  by_cases isSource : owner = source
  · exact .inl (.inl (isSource ▸ holds))
  · by_cases isTarget : owner = target
    · exact .inl (.inr (isTarget ▸ holds))
    · exact .inr ⟨isSource, isTarget⟩

/-- Two owners divide what they hold together in another way. -/
theorem divide (owned : OwnedOnce items held) (source target : Owner)
    (together : held' source ∪ held' target = held source ∪ held target)
    (apart : Disjoint (held' source) (held' target))
    (others : ∀ owner, owner ≠ source → owner ≠ target → held' owner = held owner) :
    OwnedOnce items held' := by
  have kept : ∀ item, item ∈ held' source ∨ item ∈ held' target ↔ item ∈ held source ∨ item ∈ held target :=
    fun item => Set.ext_iff.mp together item
  apply of_unique
  · intro item
    rw [owned.mem_iff]
    constructor
    · rintro ⟨owner, holds⟩
      rcases holder_cases holds source target with either | ⟨notSource, notTarget⟩
      · rcases (kept item).mpr either with atSource | atTarget
        · exact ⟨source, atSource⟩
        · exact ⟨target, atTarget⟩
      · exact ⟨owner, by rw [others owner notSource notTarget]; exact holds⟩
    · rintro ⟨owner, holds⟩
      rcases holder_cases holds source target with either | ⟨notSource, notTarget⟩
      · rcases (kept item).mp either with atSource | atTarget
        · exact ⟨source, atSource⟩
        · exact ⟨target, atTarget⟩
      · exact ⟨owner, by rw [← others owner notSource notTarget]; exact holds⟩
  · -- whoever else holds an item keeps it from both
    have excluded : ∀ {owner item}, item ∈ held' owner → owner ≠ source → owner ≠ target →
        ¬ (item ∈ held' source ∨ item ∈ held' target) := by
      intro owner item holds notSource notTarget either
      rw [others owner notSource notTarget] at holds
      rcases (kept item).mp either with atSource | atTarget
      · exact notSource (owned.unique holds atSource)
      · exact notTarget (owned.unique holds atTarget)
    intro first second item holdsFirst holdsSecond
    by_cases either : item ∈ held' source ∨ item ∈ held' target
    · have isOne : ∀ {owner}, item ∈ held' owner → owner = source ∨ owner = target := by
        intro owner holds
        by_contra neither
        rw [not_or] at neither
        exact excluded holds neither.1 neither.2 either
      have exclusive := Set.disjoint_left.mp apart
      rcases isOne holdsFirst with rfl | rfl
      · rcases isOne holdsSecond with rfl | rfl
        · rfl
        · exact absurd holdsSecond (exclusive holdsFirst)
      · rcases isOne holdsSecond with rfl | rfl
        · exact absurd holdsFirst (exclusive holdsSecond)
        · rfl
    · have before : ∀ {owner}, item ∈ held' owner → item ∈ held owner := by
        intro owner holds
        rcases holder_cases holds source target with here | ⟨notSource, notTarget⟩
        · exact absurd here either
        · rwa [← others owner notSource notTarget]
      exact owned.unique (before holdsFirst) (before holdsSecond)

end OwnedOnce

end ScrapOS.Ownership
