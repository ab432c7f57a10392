/-
  Finding, cutting and replacing parts of a text.

  A text is cut at the places where a separator occurs, from the
  left and without overlap. An empty separator occurs before
  every character and at the end.

  Key definitions include:
    * `Text.pieces`
    * `Text.contains`
    * `Text.replace`
    * `Text.words`
-/

namespace SnippetGrader.Text

/-
  Cuts a text at a non-empty separator, at most `limit` times.
  The count `skip` is the number of characters that still belong
  to the separator found last, and `current` holds the piece
  read so far, reversed.
-/
def cutAt
    (separator : List Char) :
    (limit skip : Nat) →
    (current : List Char) →
    List Char →
    List (List Char)
  | _, _, current, [] => [current.reverse]
  | limit, skip + 1, current, _ :: rest =>
      cutAt separator limit skip current rest
  | 0, 0, current, c :: rest =>
      cutAt separator 0 0 (c :: current) rest
  | limit + 1, 0, current, c :: rest =>
      if separator.isPrefixOf (c :: rest) then
        current.reverse
          :: cutAt separator limit (separator.length - 1) [] rest
      else
        cutAt separator (limit + 1) 0 (c :: current) rest


/-
  Puts each character in a piece of its own, with an empty piece
  at either end, until `limit` cuts have been made.
-/
def cutEverywhere (limit : Nat) (chars : List Char) : List (List Char) :=
  match limit with
  | 0 => [chars]
  | more + 1 => [] :: tail more chars
where
  tail : Nat → List Char → List (List Char)
    | 0, chars => [chars]
    | _ + 1, [] => [[]]
    | more + 1, c :: rest => [c] :: tail more rest

/-
  The pieces of a text between the occurrences of a separator,
  at most `limit` of which are cut at.
-/
def pieces
    (separator : List Char)
    (limit : Nat)
    (chars : List Char) :
    List (List Char) :=
  if separator.isEmpty then cutEverywhere limit chars
  else cutAt separator limit 0 [] chars

/- A limit that no text reaches: more cuts than it has places. -/
def everywhere (chars : List Char) : Nat :=
  chars.length + 1

/- Whether a part occurs in a text. -/
def contains (part : List Char) : List Char → Bool
  | [] => part.isEmpty
  | c :: rest => part.isPrefixOf (c :: rest) || contains part rest

/- The number of occurrences of a part, up to a limit. -/
def countUpTo (limit : Nat) (part chars : List Char) : Nat :=
  (pieces part limit chars).length - 1

/- Replaces the first `limit` occurrences of a part. -/
def replace (limit : Nat) (old new chars : List Char) : List Char :=
  new.intercalate (pieces old limit chars)

/-
  The words of a text: its longest runs of characters that are
  not separators. After `limit` words, the rest of the text is
  one more word. The count `fuel` bounds the number of words.
-/
def wordsAt
    (isSeparator : Char → Bool) :
    (fuel : Nat) →
    (limit : Option Nat) →
    List Char →
    List (List Char)
  | 0, _, _ => []
  | fuel + 1, limit, chars =>
      match chars.dropWhile isSeparator with
      | [] => []
      | rest =>
          if limit == some 0 then [rest]
          else
            rest.takeWhile (fun c => !isSeparator c)
              :: wordsAt isSeparator fuel (limit.map (· - 1))
                  (rest.dropWhile fun c => !isSeparator c)

/- The words of a text, with an optional limit on their number. -/
def words
    (isSeparator : Char → Bool)
    (limit : Option Nat)
    (chars : List Char) :
    List (List Char) :=
  wordsAt isSeparator (chars.length + 1) limit chars

end SnippetGrader.Text
