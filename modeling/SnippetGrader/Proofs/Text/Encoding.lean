import SnippetGrader.Proofs.Text.Decoding

/-
  Decoding what a text is encoded as.

  The bytes of a text are those of its characters, one after the
  other, and the bytes of a character are decoded to it whatever
  follows. So a text is read back from its bytes.

  Key theorems include:
    * `Text.encodeUtf8_eq`
    * `Text.mem_utf8EncodeChar`
    * `Text.decodeUtf8_encodeUtf8`
    * `Text.ofUtf8_encodeUtf8`
-/

namespace SnippetGrader.Text

------------------------------------------------------------
-- Bytes of Texts
------------------------------------------------------------

/- A byte array is listed from its first byte on. -/
theorem toList_loop_eq
    (bytes : ByteArray)
    (index : Nat)
    (before : List UInt8) :
    ByteArray.toList.loop bytes index before =
      before.reverse ++ bytes.data.toList.drop index := by
  induction index, before using ByteArray.toList.loop.induct bytes with
  | case1 index before hIndex ih =>
      have hBound : index < bytes.data.toList.length := by
        simpa using hIndex
      have hByte : bytes.get! index = bytes.data.toList[index] := by
        rw [Array.getElem_toList]
        exact getElem!_pos bytes.data index hIndex
      rw [ByteArray.toList.loop, if_pos hIndex, ih,
        List.drop_eq_getElem_cons hBound, hByte]
      simp
  | case2 index before hIndex =>
      have hEnd : bytes.data.toList.length ≤ index := by
        simpa using hIndex
      rw [ByteArray.toList.loop, if_neg hIndex,
        List.drop_eq_nil_of_le hEnd, List.append_nil]

/- The bytes of a text are those of its characters. -/
theorem encodeUtf8_eq
    (text : String) :
    encodeUtf8 text = text.toList.flatMap String.utf8EncodeChar := by
  obtain ⟨chars, rfl⟩ : ∃ chars, text = String.ofList chars :=
    ⟨text.toList, String.ofList_toList.symm⟩
  rw [encodeUtf8, String.toUTF8, String.toByteArray_ofList,
    List.utf8Encode, ByteArray.toList, toList_loop_eq,
    List.data_toByteArray, String.toList_ofList]
  rfl

@[simp] theorem encodeUtf8_append
    (first second : String) :
    encodeUtf8 (first ++ second) =
      encodeUtf8 first ++ encodeUtf8 second := by
  simp only [encodeUtf8_eq, String.toList_append, List.flatMap_append]

------------------------------------------------------------
-- Characters
------------------------------------------------------------

theorem toNat_ofNat
    {n : Nat}
    (hByte : n < 256) :
    (UInt8.ofNat n).toNat = n := by
  rw [UInt8.toNat_ofNat']
  omega

theorem decodeFrom_open
    {char : OpenChar}
    {b : UInt8}
    (hLow : char.low.toNat ≤ b.toNat)
    (hHigh : b.toNat ≤ char.high.toNat)
    (rest : List UInt8) :
    decodeFrom (some char) (b :: rest) =
      match char.later with
      | 0 =>
          Char.ofNat (char.code * 64 + b.toNat % 64) ::
            decodeFrom none rest
      | later + 1 =>
          decodeFrom
            (some { code := char.code * 64 + b.toNat % 64, later := later })
            rest := by
  have hOpen : (decide (char.low ≤ b) && decide (b ≤ char.high)) = true := by
    simp only [Bool.and_eq_true, decide_eq_true_eq,
      UInt8.le_iff_toNat_le]
    exact ⟨hLow, hHigh⟩
  rw [decodeFrom_some_cons]
  exact if_pos hOpen

/- A character of ASCII has one byte. -/
theorem utf8EncodeChar_of_small
    {c : Char}
    (hSmall : c.toNat < 0x80) :
    String.utf8EncodeChar c = [UInt8.ofNat c.toNat] := by
  unfold String.utf8EncodeChar
  change c.val.toNat < 0x80 at hSmall
  dsimp only
  rw [if_pos (by omega)]
  rfl

/- The bytes of a character are of ASCII iff it is. -/
theorem mem_utf8EncodeChar
    {c : Char}
    {b : UInt8}
    (hMem : b ∈ String.utf8EncodeChar c) :
    c.toNat < 0x80 ∧ b.toNat = c.toNat ∨
      0x80 ≤ c.toNat ∧ 0x80 ≤ b.toNat := by
  by_cases hSmall : c.toNat < 0x80
  · rw [utf8EncodeChar_of_small hSmall, List.mem_singleton] at hMem
    refine Or.inl ⟨hSmall, ?_⟩
    rw [hMem, toNat_ofNat (by omega)]
  · refine Or.inr ⟨not_lt.mp hSmall, ?_⟩
    unfold String.utf8EncodeChar at hMem
    change ¬ c.val.toNat < 0x80 at hSmall
    dsimp only at hMem
    rw [if_neg (by omega)] at hMem
    -- The bytes of all other characters have their first bit set.
    have hSet {n : Nat} (hRange : 128 ≤ n ∧ n < 256)
        (hByte : b = UInt8.ofNat n) : 0x80 ≤ b.toNat := by
      rw [hByte, toNat_ofNat hRange.2]
      exact hRange.1
    split at hMem
    · simp only [List.mem_cons, List.not_mem_nil, or_false] at hMem
      rcases hMem with hByte | hByte <;> exact hSet (by omega) hByte
    · split at hMem
      · simp only [List.mem_cons, List.not_mem_nil, or_false] at hMem
        rcases hMem with hByte | hByte | hByte <;>
          exact hSet (by omega) hByte
      · simp only [List.mem_cons, List.not_mem_nil, or_false] at hMem
        rcases hMem with hByte | hByte | hByte | hByte <;>
          exact hSet (by omega) hByte

/- The last byte of a character completes its code. -/
theorem decodeFrom_last
    {code value : Nat}
    {low high : UInt8}
    (hLow : low.toNat ≤ value % 64 + 128)
    (hHigh : value % 64 + 128 ≤ high.toNat)
    (hCode : code = value / 64)
    (rest : List UInt8) :
    decodeFrom (some { code := code, later := 0, low := low, high := high })
        (UInt8.ofNat (value % 64 + 128) :: rest) =
      Char.ofNat value :: decodeFrom none rest := by
  have hByte : (UInt8.ofNat (value % 64 + 128)).toNat = value % 64 + 128 :=
    toNat_ofNat (by omega)
  rw [decodeFrom_open (by rw [hByte]; exact hLow)
    (by rw [hByte]; exact hHigh)]
  dsimp only
  rw [hByte]
  congr 2
  omega

/- A byte within a character adds six bits to its code. -/
theorem decodeFrom_middle
    {code later value : Nat}
    {low high : UInt8}
    (hLow : low.toNat ≤ value % 64 + 128)
    (hHigh : value % 64 + 128 ≤ high.toNat)
    (hCode : code = value / 64)
    (rest : List UInt8) :
    decodeFrom
        (some { code := code, later := later + 1, low := low, high := high })
        (UInt8.ofNat (value % 64 + 128) :: rest) =
      decodeFrom (some { code := value, later := later }) rest := by
  have hByte : (UInt8.ofNat (value % 64 + 128)).toNat = value % 64 + 128 :=
    toNat_ofNat (by omega)
  rw [decodeFrom_open (by rw [hByte]; exact hLow)
    (by rw [hByte]; exact hHigh)]
  dsimp only
  rw [hByte]
  congr 3
  omega

theorem decodeFrom_lead
    {b : UInt8}
    {char : OpenChar}
    (hLead : LeadByte.of b = .opens char)
    (rest : List UInt8) :
    decodeFrom none (b :: rest) = decodeFrom (some char) rest := by
  rw [decodeFrom_none_cons, hLead]

/- The first of three bytes, and the range that it opens. -/
theorem lead_of_three
    {value : Nat}
    (hLow : 2047 < value)
    (hHigh : value ≤ 65535)
    (hValid : value < 0xD800 ∨ 0xDFFF < value) :
    ∃ low high : UInt8,
      LeadByte.of (UInt8.ofNat (value / 4096 % 16 + 224)) =
          .opens
            { code := value / 4096, later := 1, low := low, high := high } ∧
        low.toNat ≤ value / 64 % 64 + 128 ∧
          value / 64 % 64 + 128 ≤ high.toNat := by
  have hByte :
      (UInt8.ofNat (value / 4096 % 16 + 224)).toNat =
        value / 4096 + 224 := by
    rw [toNat_ofNat (by omega)]
    omega
  unfold LeadByte.of
  simp only [hByte, Bool.and_eq_true, decide_eq_true_eq, beq_iff_eq]
  rw [if_neg (by omega), if_neg (by omega)]
  by_cases hFirst : value / 4096 = 0
  · refine ⟨0xA0, 0xBF, ?_, ?_, ?_⟩
    · rw [if_pos (by omega), hFirst]
    · change 160 ≤ _
      omega
    · change _ ≤ 191
      omega
  rw [if_neg (by omega)]
  by_cases hSurrogate : value / 4096 = 13
  · refine ⟨0x80, 0x9F, ?_, ?_, ?_⟩
    · rw [if_pos (by omega), hSurrogate]
    · change 128 ≤ _
      omega
    · change _ ≤ 159
      omega
  · refine ⟨0x80, 0xBF, ?_, ?_, ?_⟩
    · rw [if_neg (by omega), if_pos (by omega),
        show (value / 4096 + 224) % 16 = value / 4096 by omega]
    · change 128 ≤ _
      omega
    · change _ ≤ 191
      omega

/- The first of four bytes, and the range that it opens. -/
theorem lead_of_four
    {value : Nat}
    (hLow : 65535 < value)
    (hHigh : value < 0x110000) :
    ∃ low high : UInt8,
      LeadByte.of (UInt8.ofNat (value / 262144 % 8 + 240)) =
          .opens
            { code := value / 262144, later := 2, low := low, high := high } ∧
        low.toNat ≤ value / 4096 % 64 + 128 ∧
          value / 4096 % 64 + 128 ≤ high.toNat := by
  have hByte :
      (UInt8.ofNat (value / 262144 % 8 + 240)).toNat =
        value / 262144 + 240 := by
    rw [toNat_ofNat (by omega)]
    omega
  unfold LeadByte.of
  simp only [hByte, Bool.and_eq_true, decide_eq_true_eq, beq_iff_eq]
  rw [if_neg (by omega), if_neg (by omega), if_neg (by omega),
    if_neg (by omega), if_neg (by omega)]
  by_cases hFirst : value / 262144 = 0
  · refine ⟨0x90, 0xBF, ?_, ?_, ?_⟩
    · rw [if_pos (by omega), hFirst]
    · change 144 ≤ _
      omega
    · change _ ≤ 191
      omega
  rw [if_neg (by omega)]
  by_cases hLast : value / 262144 = 4
  · refine ⟨0x80, 0x8F, ?_, ?_, ?_⟩
    · rw [if_pos (by omega), hLast]
    · change 128 ≤ _
      omega
    · change _ ≤ 143
      omega
  · refine ⟨0x80, 0xBF, ?_, ?_, ?_⟩
    · rw [if_neg (by omega), if_pos (by omega),
        show (value / 262144 + 240) % 8 = value / 262144 by omega]
    · change 128 ≤ _
      omega
    · change _ ≤ 191
      omega

/- A character is decoded from its own bytes, whatever follows. -/
theorem decodeFrom_utf8EncodeChar
    (c : Char)
    (rest : List UInt8) :
    decodeFrom none (String.utf8EncodeChar c ++ rest) =
      c :: decodeFrom none rest := by
  have hSame : Char.ofNat c.val.toNat = c := Char.ofNat_toNat c
  have hValid : c.val.toNat < 0xD800 ∨
      0xDFFF < c.val.toNat ∧ c.val.toNat < 0x110000 := c.valid
  unfold String.utf8EncodeChar
  generalize c.val.toNat = value at hSame hValid
  dsimp only
  rw [← hSame]
  by_cases hOne : value ≤ 127
  · have hByte : (UInt8.ofNat value).toNat = value :=
      toNat_ofNat (by omega)
    have hWhole := decodeUtf8_cons (by omega : (UInt8.ofNat value).toNat < 0x80)
    rw [hByte] at hWhole
    rw [if_pos hOne, List.singleton_append]
    exact hWhole rest
  rw [if_neg hOne]
  by_cases hTwo : value ≤ 2047
  · have hByte :
        (UInt8.ofNat (value / 64 % 32 + 192)).toNat =
          value / 64 + 192 := by
      rw [toNat_ofNat (by omega)]
      omega
    have hLead :
        LeadByte.of (UInt8.ofNat (value / 64 % 32 + 192)) =
          .opens { code := value / 64, later := 0 } := by
      unfold LeadByte.of
      simp only [hByte, Bool.and_eq_true, decide_eq_true_eq]
      rw [if_neg (by omega), if_pos (by omega),
        show (value / 64 + 192) % 32 = value / 64 by omega]
    rw [if_pos hTwo, List.cons_append, List.singleton_append,
      decodeFrom_lead hLead, decodeFrom_last _ _ rfl]
    · simp
    · simp
      omega
  rw [if_neg hTwo]
  by_cases hThree : value ≤ 65535
  · obtain ⟨low, high, hLead, hLow, hHigh⟩ :=
      lead_of_three (by omega) hThree (by omega)
    rw [if_pos hThree]
    simp only [List.cons_append, List.nil_append]
    rw [decodeFrom_lead hLead, decodeFrom_middle hLow hHigh (by omega),
      decodeFrom_last _ _ rfl]
    · simp
    · simp
      omega
  · obtain ⟨low, high, hLead, hLow, hHigh⟩ :=
      lead_of_four (by omega : 65535 < value) (by omega)
    rw [if_neg hThree]
    simp only [List.cons_append, List.nil_append]
    rw [decodeFrom_lead hLead, decodeFrom_middle hLow hHigh (by omega),
      decodeFrom_middle _ _ (by omega), decodeFrom_last _ _ rfl]
    all_goals simp
    all_goals omega

theorem decodeFrom_encode
    (chars : List Char)
    (rest : List UInt8) :
    decodeFrom none (chars.flatMap String.utf8EncodeChar ++ rest) =
      chars ++ decodeFrom none rest := by
  induction chars with
  | nil => rfl
  | cons c later ih =>
      rw [List.flatMap_cons, List.append_assoc,
        decodeFrom_utf8EncodeChar, ih, List.cons_append]

/- A text is read back from its bytes. -/
theorem decodeUtf8_encodeUtf8
    (text : String) :
    decodeUtf8 (encodeUtf8 text) = text.toList := by
  have hDecode := decodeFrom_encode text.toList []
  rwa [List.append_nil, decodeFrom, List.append_nil, ← encodeUtf8_eq]
    at hDecode

theorem ofUtf8_encodeUtf8
    (text : String) :
    ofUtf8 (encodeUtf8 text) = text := by
  rw [ofUtf8, decodeUtf8_encodeUtf8, String.ofList_toList]

end SnippetGrader.Text
