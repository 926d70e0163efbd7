/-!
# Prefix trees

A set of words, stored by their letters, that finds the longest of its words at the front of a text.

* `PrefixTree.insert` — adds a word; the empty word has no place in a tree and changes nothing;
* `PrefixTree.longest` — the length of the longest word of the tree that the text begins with;
* `PrefixTree.longest_le` — a word that is found is not empty and lies within the text;
* `PrefixTree.longestAt` — the longest word at an offset of a source.
-/

namespace Lox

/-- **Prefix trees.** `node letter ends below beside` holds the words that begin with `letter`: the
word `letter` itself when `ends`, and those that go on as the words of `below` do. The words that
begin with another letter are in `beside`. -/
inductive PrefixTree
  | leaf
  | node (letter : Char) (ends : Bool) (below beside : PrefixTree)
  deriving Inhabited

namespace PrefixTree

/-- The tree of a single word. -/
def ofWord : List Char → PrefixTree
  | [] => leaf
  | c :: word => node c word.isEmpty (ofWord word) leaf

/-- **Insertion.** -/
def insert : PrefixTree → List Char → PrefixTree
  | tree, [] => tree
  | leaf, word => ofWord word
  | node letter ends below beside, c :: word =>
    if c = letter then node letter (ends || word.isEmpty) (below.insert word) beside
    else node letter ends below (beside.insert (c :: word))

/-- The tree of a list of words. -/
def ofWords (words : List (List Char)) : PrefixTree := words.foldl insert leaf

/-- **The longest match.** A walk down the tree that remembers the last place where a word ended. -/
def longest : PrefixTree → List Char → Option Nat
  | leaf, _ => none
  | node .., [] => none
  | node letter ends below beside, c :: text =>
    if c = letter then
      match below.longest text with
      | some n => some (n + 1)
      | none => if ends then some 1 else none
    else beside.longest (c :: text)

/-- **A match is a part of the text,** and not an empty one. -/
theorem longest_le {tree : PrefixTree} {text : List Char} {n : Nat}
    (found : tree.longest text = some n) : 0 < n ∧ n ≤ text.length := by
  induction tree generalizing text n with
  | leaf => simp [longest] at found
  | node letter ends below beside ihBelow ihBeside =>
    cases text with
    | nil => simp [longest] at found
    | cons c text =>
      rw [longest] at found
      by_cases h : c = letter
      · rw [if_pos h] at found
        cases hbelow : below.longest text with
        | some m =>
          -- a longer word ends below this letter
          have := ihBelow hbelow
          simp only [hbelow, Option.some.injEq] at found
          simp only [List.length_cons]
          omega
        | none =>
          -- only the letter itself can be the word
          cases ends <;> simp [hbelow] at found
          simp only [List.length_cons]
          omega
      · rw [if_neg h] at found
        exact ihBeside found

/-- **Offset errors.** -/
inductive OffsetError
  | outOfRange
  deriving DecidableEq, Repr

/-- The text of an offset error. -/
def OffsetError.message : OffsetError → String
  | outOfRange => "string index out of range"

/-- **The text from an offset on.** A negative offset counts from the end of the source, and such a
text goes on with the front of the source behind its end. No text begins farther back than the
source is long. -/
def textFrom (source : List Char) : Int → Except OffsetError (List Char)
  | .ofNat start => .ok (source.drop start)
  | .negSucc back =>
    if back < source.length then .ok (source.drop (source.length - (back + 1)) ++ source)
    else .error .outOfRange

/-- The longest word of the tree that `source` holds at the offset `start`. -/
def longestAt (tree : PrefixTree) (source : List Char) (start : Int) :
    Except OffsetError (Option (List Char)) := do
  let text ← textFrom source start
  return (tree.longest text).map text.take

end PrefixTree

end Lox
