import Mathlib
import SnippetGrader.Text.Search

/-
  The lengths of cut and joined texts.

  The pieces of a text with the separator between them are the
  text again, so a text with parts replaced is as long as it was,
  but for what each of these parts gives way to.

  Key theorems include:
    * `Text.intercalate_pieces`
    * `Text.utf8Len_intercalate`
    * `Text.utf8Len_replace`
-/

namespace SnippetGrader.Text

open String (utf8Len utf8Len_append)

------------------------------------------------------------
-- Pieces of Texts
------------------------------------------------------------

theorem cutAt_ne_nil
    (separator : List Char)
    (limit skip : Nat)
    (current chars : List Char) :
    cutAt separator limit skip current chars ≠ [] := by
  fun_induction cutAt separator limit skip current chars with
  | case1 => exact List.cons_ne_nil _ _
  | case2 limit skip current c rest ih => exact ih
  | case3 current c rest ih => exact ih
  | case4 => exact List.cons_ne_nil _ _
  | case5 limit current c rest hOther ih => exact ih

/-
  What is left to cut, after the characters to skip, follows the
  piece read so far.
-/
theorem intercalate_cutAt
    {separator : List Char}
    (hSeparator : separator ≠ [])
    (limit skip : Nat)
    (current chars : List Char) :
    separator.intercalate (cutAt separator limit skip current chars) =
      current.reverse ++ chars.drop skip := by
  fun_induction cutAt separator limit skip current chars with
  | case1 => rw [List.intercalate_singleton, List.drop_nil, List.append_nil]
  | case2 limit skip current c rest ih => exact ih
  | case3 current c rest ih =>
      rw [ih, List.reverse_cons, List.append_assoc]
      rfl
  | case4 limit current c rest hFound ih =>
      obtain ⟨after, hAfter⟩ := List.isPrefixOf_iff_prefix.mp hFound
      obtain ⟨first, others, rfl⟩ := List.exists_cons_of_ne_nil hSeparator
      have hRest : rest.drop ((first :: others).length - 1) = after := by
        rw [← (List.cons.inj hAfter).2]
        exact List.drop_left' rfl
      rw [List.intercalate_cons_of_ne_nil (cutAt_ne_nil _ _ _ _ _), ih,
        hRest, List.reverse_nil, List.nil_append, List.append_assoc, hAfter]
      rfl
  | case5 limit current c rest hOther ih =>
      rw [ih, List.reverse_cons, List.append_assoc]
      rfl

theorem flatten_tail
    (limit : Nat)
    (chars : List Char) :
    (cutEverywhere.tail limit chars).flatten = chars := by
  fun_induction cutEverywhere.tail limit chars with
  | case1 chars => exact List.append_nil chars
  | case2 => rfl
  | case3 more c rest ih => rw [List.flatten_cons, ih, List.singleton_append]

theorem intercalate_nil
    (parts : List (List Char)) :
    [].intercalate parts = parts.flatten := by
  induction parts with
  | nil => rfl
  | cons part rest ih =>
      cases rest with
      | nil => rw [List.intercalate_singleton, List.flatten_singleton]
      | cons next rest =>
          rw [List.intercalate_cons_cons, ih, List.append_nil]
          rfl

/- The pieces of a text with the separator between them are the text. -/
theorem intercalate_pieces
    (separator : List Char)
    (limit : Nat)
    (chars : List Char) :
    separator.intercalate (pieces separator limit chars) = chars := by
  unfold pieces
  split
  · rename_i hEmpty
    obtain rfl := List.isEmpty_iff.mp hEmpty
    rw [intercalate_nil]
    cases limit with
    | zero => exact List.append_nil chars
    | succ more => exact flatten_tail more chars
  · rename_i hSome
    rw [intercalate_cutAt (mt List.isEmpty_iff.mpr hSome)]
    rfl

------------------------------------------------------------
-- Lengths in Bytes
------------------------------------------------------------

/- A joined text has the separator once less often than it has parts. -/
theorem utf8Len_intercalate
    (separator : List Char)
    (parts : List (List Char)) :
    utf8Len (separator.intercalate parts) =
      utf8Len separator * (parts.length - 1) + (parts.map utf8Len).sum := by
  induction parts with
  | nil => rfl
  | cons part rest ih =>
      cases rest with
      | nil =>
          rw [List.intercalate_singleton]
          simp
      | cons next rest =>
          rw [List.intercalate_cons_cons, utf8Len_append, utf8Len_append, ih]
          simp only [List.map_cons, List.sum_cons, List.length_cons,
            Nat.add_sub_cancel]
          ring

/- Each part that is replaced gives way to the new one. -/
theorem utf8Len_replace
    (limit : Nat)
    (old new chars : List Char) :
    utf8Len (replace limit old new chars)
        + countUpTo limit old chars * utf8Len old =
      utf8Len chars + countUpTo limit old chars * utf8Len new := by
  have hOld :=
    congrArg utf8Len (intercalate_pieces old limit chars)
  rw [utf8Len_intercalate] at hOld
  rw [replace, utf8Len_intercalate, countUpTo, ← hOld]
  ring

end SnippetGrader.Text
