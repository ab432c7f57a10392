import Mathlib
import SnippetGrader.Text.Utf8

/-
  Characters of decoded bytes.

  A character of ASCII is decoded from its own byte alone. All
  other bytes, whether they form characters or not, are decoded
  to characters beyond ASCII.

  Key theorems include:
    * `Text.mem_decodeUtf8`
    * `Text.decodeUtf8_cons`
-/

namespace SnippetGrader.Text

------------------------------------------------------------
-- Open Characters
------------------------------------------------------------

/-
  An open character whose code will be that of a character
  beyond ASCII, whichever of the bytes that it expects follow.
-/
structure OpenChar.Sound (char : OpenChar) : Prop where
  low : 0x80 ≤ char.low.toNat
  high : char.high.toNat ≤ 0xBF
  beyond :
    0x80 ≤ (char.code * 64 + (char.low.toNat - 0x80)) * 64 ^ char.later
  valid :
    (char.code * 64 + (char.high.toNat - 0x80) + 1) * 64 ^ char.later
        ≤ 0xD800 ∨
      0xE000 ≤
          (char.code * 64 + (char.low.toNat - 0x80)) * 64 ^ char.later ∧
        (char.code * 64 + (char.high.toNat - 0x80) + 1) * 64 ^ char.later
          ≤ 0x110000

/- A character is sound if any byte may follow, and the code is in range. -/
theorem OpenChar.Sound.of_code
    {code later : Nat}
    (hBeyond : 0x80 ≤ code * 64 * 64 ^ later)
    (hValid :
      (code * 64 + 64) * 64 ^ later ≤ 0xD800 ∨
        0xE000 ≤ code * 64 * 64 ^ later ∧
          (code * 64 + 64) * 64 ^ later ≤ 0x110000) :
    OpenChar.Sound { code := code, later := later } := by
  have hMin : (0x80 : UInt8).toNat = 0x80 := rfl
  have hMax : (0xBF : UInt8).toNat = 0xBF := rfl
  refine ⟨hMin.ge, hMax.le, ?_, ?_⟩
  · simpa only [hMin, Nat.sub_self, Nat.add_zero] using hBeyond
  · simpa only [hMin, hMax, Nat.sub_self, Nat.add_zero, Nat.add_assoc,
      Nat.reduceSub, Nat.reduceAdd] using hValid

/- A range of first bytes that open sound characters comes before others. -/
private theorem opens_or_stray_ite
    {c : Prop}
    [Decidable c]
    {char : OpenChar}
    {lead : LeadByte}
    (hSound : c → char.Sound)
    (hElse :
      ¬c →
        (∃ next, lead = .opens next ∧ next.Sound) ∨ lead = .stray) :
    (∃ next, (if c then .opens char else lead) = .opens next ∧ next.Sound) ∨
      (if c then .opens char else lead) = .stray := by
  by_cases h : c
  · rw [if_pos h]
    exact Or.inl ⟨char, rfl, hSound h⟩
  · rw [if_neg h]
    exact hElse h

/- A first byte stands for itself, or it opens a sound character, or neither. -/
theorem lead_cases
    (b : UInt8) :
    b.toNat < 0x80 ∧ LeadByte.of b = .whole (Char.ofNat b.toNat) ∨
      0x80 ≤ b.toNat ∧
        ((∃ char, LeadByte.of b = .opens char ∧ char.Sound) ∨
          LeadByte.of b = .stray) := by
  by_cases hSmall : b.toNat < 0x80
  · exact Or.inl ⟨hSmall, if_pos hSmall⟩
  refine Or.inr ⟨not_lt.mp hSmall, ?_⟩
  have hRange {low high : Nat}
      (h : (decide (low ≤ b.toNat) && decide (b.toNat ≤ high)) = true) :
      low ≤ b.toNat ∧ b.toNat ≤ high :=
    (Bool.and_eq_true_iff.mp h).imp of_decide_eq_true of_decide_eq_true
  have hNot {n : Nat} (h : ¬(b.toNat == n) = true) : b.toNat ≠ n :=
    fun hEq => h (beq_iff_eq.mpr hEq)
  rw [LeadByte.of, if_neg hSmall]
  -- In the order of the ranges, which the bounds of a second byte cut.
  refine opens_or_stray_ite (fun hTwo => ?_) fun _ => ?_
  · have := hRange hTwo
    exact .of_code (by omega) (by omega)
  refine opens_or_stray_ite
    (fun _ => ⟨by decide, by decide, by decide, by decide⟩) fun _ => ?_
  refine opens_or_stray_ite
    (fun _ => ⟨by decide, by decide, by decide, by decide⟩) fun hCut => ?_
  refine opens_or_stray_ite (fun hThree => ?_) fun _ => ?_
  · have := hRange hThree
    have := hNot hCut
    exact .of_code (by omega) (by omega)
  refine opens_or_stray_ite
    (fun _ => ⟨by decide, by decide, by decide, by decide⟩) fun _ => ?_
  refine opens_or_stray_ite
    (fun _ => ⟨by decide, by decide, by decide, by decide⟩) fun _ => ?_
  refine opens_or_stray_ite (fun hFour => ?_) fun _ => Or.inr rfl
  have := hRange hFour
  exact .of_code (by omega) (by omega)

/- A first byte opens only sound characters. -/
theorem sound_of_opens
    {b : UInt8}
    {char : OpenChar}
    (hOpens : LeadByte.of b = .opens char) :
    char.Sound := by
  rcases lead_cases b with
    ⟨-, hLead⟩ | ⟨-, ⟨_, hLead, hSound⟩ | hLead⟩ <;>
    rw [hOpens] at hLead <;> cases hLead
  exact hSound

/- A sound character is still sound after one more byte. -/
theorem OpenChar.Sound.next
    {char : OpenChar}
    (hSound : char.Sound)
    {b : UInt8}
    (hLow : char.low.toNat ≤ b.toNat)
    (hHigh : b.toNat ≤ char.high.toNat)
    {later : Nat}
    (hLater : char.later = later + 1) :
    OpenChar.Sound
      { code := char.code * 64 + b.toNat % 64, later := later } := by
  have hFrom := hSound.low
  have hUpTo := hSound.high
  have hByte : b.toNat % 64 = b.toNat - 0x80 := by omega
  have hFirst :
      (char.code * 64 + (char.low.toNat - 0x80)) * 64 ^ char.later ≤
        (char.code * 64 + b.toNat % 64) * 64 ^ char.later :=
    Nat.mul_le_mul_right _ (by omega)
  have hLast :
      (char.code * 64 + b.toNat % 64 + 1) * 64 ^ char.later ≤
        (char.code * 64 + (char.high.toNat - 0x80) + 1) *
          64 ^ char.later :=
    Nat.mul_le_mul_right _ (by omega)
  have hBeyond := hSound.beyond
  have hValid := hSound.valid
  have hUnit (n : Nat) :
      n * 64 * 64 ^ later = n * 64 ^ char.later := by
    rw [hLater, Nat.pow_succ', Nat.mul_assoc]
  have hStart :
      ((char.code * 64 + b.toNat % 64) * 64 + (0x80 - 0x80)) *
          64 ^ later =
        (char.code * 64 + b.toNat % 64) * 64 ^ char.later := by
    rw [Nat.sub_self, Nat.add_zero, hUnit]
  have hEnd :
      ((char.code * 64 + b.toNat % 64) * 64 + (0xBF - 0x80) + 1) *
          64 ^ later =
        (char.code * 64 + b.toNat % 64 + 1) * 64 ^ char.later := by
    rw [← hUnit, Nat.add_mul _ 1 64]
  have hMin : (0x80 : UInt8).toNat = 0x80 := rfl
  have hMax : (0xBF : UInt8).toNat = 0xBF := rfl
  constructor
  · exact Nat.le_of_eq hMin.symm
  · exact Nat.le_of_eq hMax
  · simp only [hMin, hStart]
    omega
  · simp only [hMin, hMax, hStart, hEnd]
    omega

/- The last byte of a sound character gives one beyond ASCII. -/
theorem OpenChar.Sound.last
    {char : OpenChar}
    (hSound : char.Sound)
    {b : UInt8}
    (hLow : char.low.toNat ≤ b.toNat)
    (hHigh : b.toNat ≤ char.high.toNat)
    (hLater : char.later = 0) :
    0x80 ≤ (Char.ofNat (char.code * 64 + b.toNat % 64)).toNat := by
  have hFrom := hSound.low
  have hUpTo := hSound.high
  have hBeyond := hSound.beyond
  have hValid := hSound.valid
  simp only [hLater, Nat.pow_zero, Nat.mul_one] at hBeyond hValid
  have hCode : (char.code * 64 + b.toNat % 64).isValidChar := by
    simp only [Nat.isValidChar]
    omega
  rw [Char.ofNat, dif_pos hCode]
  change 0x80 ≤ char.code * 64 + b.toNat % 64
  omega

------------------------------------------------------------
-- Characters
------------------------------------------------------------

/- A character beyond ASCII, or one that stands for its own byte. -/
def ComesFrom (bytes : List UInt8) (c : Char) : Prop :=
  0x80 ≤ c.toNat ∨
    ∃ b ∈ bytes, b.toNat < 0x80 ∧ c = Char.ofNat b.toNat

theorem ComesFrom.later
    {bytes : List UInt8}
    {c : Char}
    (hFrom : ComesFrom bytes c)
    (b : UInt8) :
    ComesFrom (b :: bytes) c := by
  rcases hFrom with hBeyond | ⟨b', hMem, hByte⟩
  · exact Or.inl hBeyond
  · exact Or.inr ⟨b', List.mem_cons_of_mem _ hMem, hByte⟩

theorem comesFrom_replacement
    (bytes : List UInt8) :
    ComesFrom bytes replacement :=
  Or.inl (by decide)

theorem comesFrom_whole
    {b : UInt8}
    {c : Char}
    (hWhole : LeadByte.of b = .whole c)
    (bytes : List UInt8) :
    ComesFrom (b :: bytes) c := by
  rcases lead_cases b with
    ⟨hSmall, hLead⟩ | ⟨-, ⟨_, hLead, -⟩ | hLead⟩ <;>
    rw [hWhole] at hLead <;> cases hLead
  exact Or.inr ⟨b, List.mem_cons_self, hSmall, rfl⟩

theorem decodeFrom_none_cons
    (b : UInt8)
    (rest : List UInt8) :
    decodeFrom none (b :: rest) =
      match LeadByte.of b with
      | .whole c => c :: decodeFrom none rest
      | .opens char => decodeFrom (some char) rest
      | .stray => replacement :: decodeFrom none rest :=
  rfl

theorem decodeFrom_some_cons
    (char : OpenChar)
    (b : UInt8)
    (rest : List UInt8) :
    decodeFrom (some char) (b :: rest) =
      if char.low ≤ b && b ≤ char.high then
        match char.later with
        | 0 =>
            Char.ofNat (char.code * 64 + b.toNat % 64) ::
              decodeFrom none rest
        | later + 1 =>
            decodeFrom
              (some
                { code := char.code * 64 + b.toNat % 64, later := later })
              rest
      else
        match LeadByte.of b with
        | .whole c => replacement :: c :: decodeFrom none rest
        | .opens next => replacement :: decodeFrom (some next) rest
        | .stray => replacement :: replacement :: decodeFrom none rest :=
  rfl

theorem mem_decodeFrom
    {state : Option OpenChar}
    (hState : ∀ char, state = some char → char.Sound)
    {bytes : List UInt8} :
    ∀ c ∈ decodeFrom state bytes, ComesFrom bytes c := by
  fun_induction decodeFrom state bytes with
  | case1 => simp
  | case2 =>
      intro c hMem
      rw [List.mem_singleton.mp hMem]
      exact comesFrom_replacement _
  | case3 b rest c hWhole ih =>
      intro c' hMem
      rcases List.mem_cons.mp hMem with rfl | hLater
      · exact comesFrom_whole hWhole rest
      · exact (ih (by simp) c' hLater).later b
  | case4 b rest char hOpens ih =>
      intro c hMem
      refine (ih ?_ c hMem).later b
      intro _ hSome
      cases hSome
      exact sound_of_opens hOpens
  | case5 b rest _ ih =>
      intro c hMem
      rcases List.mem_cons.mp hMem with rfl | hLater
      · exact comesFrom_replacement _
      · exact (ih (by simp) c hLater).later b
  | case6 char b rest hRange code hLater ih =>
      have hSound := hState char rfl
      simp only [Bool.and_eq_true, decide_eq_true_eq,
        UInt8.le_iff_toNat_le] at hRange
      intro c hMem
      rcases List.mem_cons.mp hMem with rfl | hRest
      · exact Or.inl (hSound.last hRange.1 hRange.2 hLater)
      · exact (ih (by simp) c hRest).later b
  | case7 char b rest hRange code later hLater ih =>
      have hSound := hState char rfl
      simp only [Bool.and_eq_true, decide_eq_true_eq,
        UInt8.le_iff_toNat_le] at hRange
      intro c hMem
      refine (ih ?_ c hMem).later b
      intro _ hSome
      cases hSome
      exact hSound.next hRange.1 hRange.2 hLater
  | case8 char b rest _ c hWhole ih =>
      intro c' hMem
      rcases List.mem_cons.mp hMem with rfl | hLater
      · exact comesFrom_replacement _
      · rcases List.mem_cons.mp hLater with rfl | hRest
        · exact comesFrom_whole hWhole rest
        · exact (ih (by simp) c' hRest).later b
  | case9 char b rest _ next hOpens ih =>
      intro c hMem
      rcases List.mem_cons.mp hMem with rfl | hLater
      · exact comesFrom_replacement _
      · refine (ih ?_ c hLater).later b
        intro _ hSome
        cases hSome
        exact sound_of_opens hOpens
  | case10 char b rest _ _ ih =>
      intro c hMem
      rcases List.mem_cons.mp hMem with rfl | hLater
      · exact comesFrom_replacement _
      · rcases List.mem_cons.mp hLater with rfl | hRest
        · exact comesFrom_replacement _
        · exact (ih (by simp) c hRest).later b

/- Every decoded character is beyond ASCII or one of the bytes. -/
theorem mem_decodeUtf8
    {bytes : List UInt8}
    {c : Char}
    (hMem : c ∈ decodeUtf8 bytes) :
    ComesFrom bytes c := by
  refine mem_decodeFrom ?_ c hMem
  intro _ hNone
  cases hNone

/- A byte of ASCII is decoded by itself. -/
theorem decodeUtf8_cons
    {b : UInt8}
    (hByte : b.toNat < 0x80)
    (rest : List UInt8) :
    decodeUtf8 (b :: rest) = Char.ofNat b.toNat :: decodeUtf8 rest := by
  have hWhole : LeadByte.of b = .whole (Char.ofNat b.toNat) := by
    simp only [LeadByte.of, hByte, if_true]
  rw [decodeUtf8, decodeFrom_none_cons, hWhole]
  rfl

/- An open character is followed by no byte of its own. -/
theorem decodeFrom_some_eq_cons
    {char : OpenChar}
    (hSound : char.Sound)
    (bytes : List UInt8) :
    ∃ c chars,
      decodeFrom (some char) bytes = c :: chars ∧ 0x80 ≤ c.toNat := by
  induction bytes generalizing char with
  | nil => exact ⟨replacement, [], rfl, by decide⟩
  | cons b rest ih =>
      rw [decodeFrom_some_cons]
      split
      · rename_i hRange
        simp only [Bool.and_eq_true, decide_eq_true_eq,
          UInt8.le_iff_toNat_le] at hRange
        cases hLater : char.later with
        | zero =>
            exact ⟨_, _, rfl, hSound.last hRange.1 hRange.2 hLater⟩
        | succ later =>
            exact ih (hSound.next hRange.1 hRange.2 hLater)
      · cases LeadByte.of b with
        | whole c => exact ⟨_, _, rfl, by decide⟩
        | opens next => exact ⟨_, _, rfl, by decide⟩
        | stray => exact ⟨_, _, rfl, by decide⟩

/- Bytes beyond ASCII are decoded to a character beyond ASCII first. -/
theorem decodeUtf8_cons_beyond
    {b : UInt8}
    (hByte : 0x80 ≤ b.toNat)
    (rest : List UInt8) :
    ∃ c chars,
      decodeUtf8 (b :: rest) = c :: chars ∧ 0x80 ≤ c.toNat := by
  rw [decodeUtf8, decodeFrom_none_cons]
  rcases lead_cases b with
    ⟨hSmall, -⟩ | ⟨-, ⟨char, hLead, hSound⟩ | hLead⟩
  · omega
  · rw [hLead]
    exact decodeFrom_some_eq_cons hSound rest
  · rw [hLead]
    exact ⟨_, _, rfl, by decide⟩

end SnippetGrader.Text
