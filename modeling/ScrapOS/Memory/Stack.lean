import ScrapOS.Memory.Bytes

/-! Stacks of words that grow downwards: each push moves the stack pointer down
by eight bytes and stores there, so the words pushed last stand first. -/

set_option autoImplicit false

namespace ScrapOS

/-- The words of a list stand one after the other from `address` on. -/
def WordsAt (m : Memory) : Word → List Word → Prop
  | _, [] => True
  | address, word :: words => m.load64 address = word ∧ WordsAt m (address + 8) words

def pushWord (sp : Word) (m : Memory) (word : Word) : Word × Memory :=
  (sp - 8, m.store64 (sp - 8) word)

def pushWords (sp : Word) (m : Memory) : List Word → Word × Memory
  | [] => (sp, m)
  | word :: words => pushWords (pushWord sp m word).1 (pushWord sp m word).2 words

variable {m m' : Memory} {address sp : Word} {words older : List Word}

theorem WordsAt.congr (standing : WordsAt m address words) (fits : 8 * words.length ≤ 2 ^ 64)
    (agree : Set.EqOn m' m (span address (8 * words.length))) : WordsAt m' address words := by
  induction words generalizing address with
  | nil => trivial
  | cons word words ih =>
      rw [List.length_cons] at fits agree
      have head : span address 8 ⊆ span address (8 * (words.length + 1)) := span_mono (by omega)
      have tail : span (address + 8) (8 * words.length) ⊆ span address (8 * (words.length + 1)) := by
        intro target member
        rw [mem_span] at member ⊢
        bv_omega
      refine ⟨?_, ih standing.2 (by omega) (agree.mono tail)⟩
      rw [Memory.load64_congr (agree.mono head), standing.1]

theorem wordsAt_append (m : Memory) (address : Word) (words more : List Word) :
    WordsAt m address (words ++ more) ↔
      WordsAt m address words ∧ WordsAt m (address + BitVec.ofNat 64 (8 * words.length)) more := by
  induction words generalizing address with
  | nil => simp [WordsAt]
  | cons word words ih =>
      have next : address + 8 + BitVec.ofNat 64 (8 * words.length) =
          address + BitVec.ofNat 64 (8 * (words.length + 1)) := by bv_omega
      rw [List.cons_append, WordsAt, WordsAt, ih, next, List.length_cons, and_assoc]

theorem pushWord_frame (sp : Word) (m : Memory) (word : Word) :
    Set.EqOn (pushWord sp m word).2 m (span (sp - 8) 8)ᶜ := Memory.store64_eqOn_compl ..

theorem WordsAt.push (standing : WordsAt m sp older) (fits : 8 * (older.length + 1) ≤ 2 ^ 64)
    (word : Word) : WordsAt (pushWord sp m word).2 (pushWord sp m word).1 (word :: older) := by
  refine ⟨Memory.load64_store64 .., ?_⟩
  have back : (pushWord sp m word).1 + 8 = sp := BitVec.sub_add_cancel sp 8
  rw [back]
  have apart : span sp (8 * older.length) ⊆ (span (sp - 8) 8)ᶜ := by
    intro target member inside
    rw [mem_span] at member inside
    bv_omega
  exact standing.congr (by omega) ((pushWord_frame sp m word).mono apart)

theorem pushWords_sp (sp : Word) (m : Memory) (words : List Word) :
    (pushWords sp m words).1 = sp - BitVec.ofNat 64 (8 * words.length) := by
  induction words generalizing sp m with
  | nil => simp [pushWords]
  | cons word words ih =>
      rw [pushWords, ih]
      simp only [pushWord, List.length_cons]
      bv_omega

theorem pushWords_frame (sp : Word) (m : Memory) (words : List Word)
    (fits : 8 * words.length ≤ 2 ^ 64) :
    Set.EqOn (pushWords sp m words).2 m
      (span (sp - BitVec.ofNat 64 (8 * words.length)) (8 * words.length))ᶜ := by
  induction words generalizing sp m with
  | nil => exact fun _ _ => rfl
  | cons word words ih =>
      rw [List.length_cons] at fits ⊢
      intro target outside
      rw [Set.mem_compl_iff, mem_span] at outside
      rw [pushWords, ih _ _ (by omega), pushWord_frame]
      · rw [Set.mem_compl_iff, mem_span]
        bv_omega
      · rw [Set.mem_compl_iff, mem_span]
        simp only [pushWord]
        bv_omega

theorem WordsAt.pushWords (standing : WordsAt m sp older) (words : List Word)
    (fits : 8 * (words.length + older.length) ≤ 2 ^ 64) :
    WordsAt (pushWords sp m words).2 (pushWords sp m words).1 (words.reverse ++ older) := by
  induction words generalizing sp m older with
  | nil => exact standing
  | cons word words ih =>
      rw [List.length_cons] at fits
      rw [ScrapOS.pushWords, List.reverse_cons, List.append_assoc]
      exact ih (standing.push (by omega) word)
        (by rw [List.length_append, List.length_singleton]; omega)

end ScrapOS
