import Lox.Token.PrefixTree
import Mathlib.Data.List.Infix

/-!
# The words of a prefix tree

A prefix tree is a set of words, and a match is the longest of its words that the text begins with.
Which words these are depends on nothing but the words that were added.

* `PrefixTree.Holds` — the words of a tree;
* `PrefixTree.holds_insert`, `PrefixTree.holds_foldl_insert`, `PrefixTree.holds_ofWords` — the words
  that were added, and no others;
* `PrefixTree.holds_of_longest`, `PrefixTree.longest_of_holds` — a match is a word, and no word that
  the text begins with is longer;
* `PrefixTree.longest_eq_some_iff`, `PrefixTree.longest_eq_none_iff`, `PrefixTree.longest_congr` —
  the words of a tree decide all its matches;
* `PrefixTree.LongestWordAt`, `PrefixTree.longestAt_ofWords` — what is found at an offset of a source
  is the longest of the words that were added.
-/

namespace Lox

namespace PrefixTree

/-- **The words of a tree.** -/
def Holds : PrefixTree → List Char → Prop
  | leaf, _ => False
  | node .., [] => False
  | node letter ends below beside, c :: word =>
    if c = letter then (word = [] ∧ ends = true) ∨ below.Holds word else beside.Holds (c :: word)

@[simp] theorem not_holds_nil (tree : PrefixTree) : ¬ tree.Holds [] := by
  cases tree <;> exact id

/-! ### Insertion -/

theorem holds_ofWord {word text : List Char} :
    (ofWord word).Holds text ↔ text = word ∧ word ≠ [] := by
  induction word generalizing text with
  | nil => simp [ofWord, Holds]
  | cons c word ih =>
    cases text with
    | nil => simp
    | cons d text =>
      rw [ofWord, Holds]
      by_cases hd : d = c
      · -- the rest of the word is below the letter, or there is none
        rw [if_pos hd, ih, List.isEmpty_iff]
        cases word <;> simp [hd]
      · rw [if_neg hd]
        simp [Holds, hd]

/-- **A word that is added** is held from then on, and so are all words from before. -/
theorem holds_insert {tree : PrefixTree} {word text : List Char} :
    (tree.insert word).Holds text ↔ tree.Holds text ∨ (text = word ∧ word ≠ []) := by
  induction tree generalizing word text with
  | leaf =>
    -- the empty word is never held
    cases word with
    | nil => simp [insert]
    | cons c word =>
      -- a leaf becomes the branch for the word
      change (ofWord (c :: word)).Holds text ↔ _
      rw [holds_ofWord]
      simp [Holds]
  | node letter ends below beside ihBelow ihBeside =>
    cases word with
    | nil => simp [insert]
    | cons c word =>
      rw [insert]
      by_cases hc : c = letter
      · subst hc
        rw [if_pos rfl]
        cases text with
        | nil => simp
        | cons d text =>
          -- the word goes below its first letter, and leaves everything beside it alone
          rw [Holds, Holds, ihBelow]
          by_cases hd : d = c
          · rw [if_pos hd, if_pos hd, Bool.or_eq_true, List.isEmpty_iff]
            cases word <;> cases text <;> simp [hd]
          · simp [hd]
      · rw [if_neg hc]
        cases text with
        | nil => simp
        | cons d text =>
          -- the word goes beside, and leaves everything below the letter alone
          rw [Holds, Holds, ihBeside]
          by_cases hd : d = letter
          · -- the word that is added begins with another letter
            simp [hd, Ne.symm hc]
          · simp [hd]

/-- **Words that are added one after the other** are all held in the end, whatever their order, and
so are all words from before. -/
theorem holds_foldl_insert {words : List (List Char)} {tree : PrefixTree} {text : List Char} :
    (words.foldl insert tree).Holds text ↔ tree.Holds text ∨ (text ∈ words ∧ text ≠ []) := by
  induction words generalizing tree with
  | nil => simp
  | cons word words ih =>
    rw [List.foldl_cons, ih, holds_insert, List.mem_cons, or_assoc]
    refine or_congr_right ?_
    constructor
    · rintro (⟨rfl, hne⟩ | ⟨hmem, hne⟩)
      · exact ⟨.inl rfl, hne⟩
      · exact ⟨.inr hmem, hne⟩
    · rintro ⟨rfl | hmem, hne⟩
      · exact .inl ⟨rfl, hne⟩
      · exact .inr ⟨hmem, hne⟩

/-- **The words of a list** are what its tree holds, the empty one excepted. -/
theorem holds_ofWords {words : List (List Char)} {text : List Char} :
    (ofWords words).Holds text ↔ text ∈ words ∧ text ≠ [] := by
  rw [ofWords, holds_foldl_insert]
  exact or_iff_right id

/-! ### The longest match -/

/-- **A match is a word** of the tree. -/
theorem holds_of_longest {tree : PrefixTree} {text : List Char} {n : Nat}
    (h : tree.longest text = some n) : tree.Holds (text.take n) := by
  induction tree generalizing text n with
  | leaf => simp [longest] at h
  | node letter ends below beside ihBelow ihBeside =>
    cases text with
    | nil => simp [longest] at h
    | cons c text =>
      -- a match is not empty
      obtain ⟨m, rfl⟩ : ∃ m, n = m + 1 := Nat.exists_eq_add_one.2 (longest_le h).1
      rw [longest] at h
      rw [List.take_succ_cons, Holds]
      by_cases hc : c = letter
      · rw [if_pos hc] at h ⊢
        cases hbelow : below.longest text with
        | some k =>
          rw [hbelow] at h
          obtain rfl : k = m := by simpa using h
          exact .inr (ihBelow hbelow)
        | none =>
          -- nothing longer ends below, so that the letter itself is the word
          rw [hbelow] at h
          cases ends with
          | false => simp at h
          | true =>
            obtain rfl : m = 0 := by simpa using h.symm
            exact .inl ⟨List.take_zero, rfl⟩
      · rw [if_neg hc] at h ⊢
        -- the match is beside
        have hbeside := ihBeside h
        rwa [List.take_succ_cons] at hbeside

/-- **No word that the text begins with is longer** than the match, and where there is such a word
there is a match. -/
theorem longest_of_holds {tree : PrefixTree} {word text : List Char} (h : tree.Holds word)
    (hleading : word <+: text) : ∃ n, tree.longest text = some n ∧ word.length ≤ n := by
  -- the word leads the text, so that both take the same way through the tree
  induction tree generalizing word text with
  | leaf => exact h.elim
  | node letter ends below beside ihBelow ihBeside =>
    cases word with
    | nil => exact h.elim
    | cons c word =>
      obtain ⟨rest, rfl⟩ := hleading
      rw [Holds] at h
      rw [List.cons_append, longest]
      by_cases hc : c = letter
      · rw [if_pos hc] at h ⊢
        obtain ⟨rfl, rfl⟩ | hword := h
        · cases hbelow : below.longest ([] ++ rest) with
          | some k => exact ⟨k + 1, rfl, Nat.le_add_left ..⟩
          | none => exact ⟨1, rfl, Nat.le_refl _⟩
        · obtain ⟨k, hk, hle⟩ := ihBelow hword (List.prefix_append word rest)
          rw [hk]
          exact ⟨k + 1, rfl, Nat.succ_le_succ hle⟩
      · rw [if_neg hc] at h ⊢
        exact ihBeside h (List.prefix_append (c :: word) rest)

section Matches

variable {tree tree' : PrefixTree} {text : List Char}

/-- **Where there is a match** it is as long as the longest word that the text begins with. -/
theorem longest_eq_some_iff {n : Nat} : tree.longest text = some n ↔
    n ≤ text.length ∧ tree.Holds (text.take n) ∧
      ∀ word, tree.Holds word → word <+: text → word.length ≤ n := by
  constructor
  · intro h
    refine ⟨(longest_le h).2, holds_of_longest h, fun word hword hleading => ?_⟩
    obtain ⟨m, hm, hle⟩ := longest_of_holds hword hleading
    rw [h] at hm
    obtain rfl := Option.some.inj hm
    exact hle
  · rintro ⟨hn, hword, hlongest⟩
    obtain ⟨m, hm, hle⟩ := longest_of_holds hword (List.take_prefix n text)
    -- the match is itself a word that the text begins with, and so it is not longer either
    have hge := hlongest _ (holds_of_longest hm) (List.take_prefix m text)
    rw [List.length_take_of_le hn] at hle
    rw [List.length_take_of_le (longest_le hm).2] at hge
    rw [hm, Nat.le_antisymm hge hle]

/-- **Where there is no match** the text begins with none of the words. -/
theorem longest_eq_none_iff :
    tree.longest text = none ↔ ∀ word, tree.Holds word → ¬ word <+: text := by
  constructor
  · intro h word hword hleading
    obtain ⟨m, hm, -⟩ := longest_of_holds hword hleading
    rw [h] at hm
    contradiction
  · intro hnone
    cases h : tree.longest text with
    | none => rfl
    | some n => exact absurd (List.take_prefix n text) (hnone _ (holds_of_longest h))

/-- **Trees of the same words** have the same matches, whatever their shapes. -/
theorem longest_congr (h : ∀ word, tree.Holds word ↔ tree'.Holds word) (text : List Char) :
    tree.longest text = tree'.longest text := by
  refine Option.ext fun n => ?_
  simp only [longest_eq_some_iff, h]

/-- The same at every offset, those that count from the end of the source included. -/
theorem longestAt_congr (h : ∀ word, tree.Holds word ↔ tree'.Holds word) (source : List Char)
    (start : Int) : tree.longestAt source start = tree'.longestAt source start := by
  simp only [longestAt, longest_congr h]

end Matches

/-! ### Offsets of a source -/

section Offsets

variable {words : List (List Char)} {source word : List Char} {start : Nat}

/-- **A word stands at an offset** of a source if the slice of its length there is the word. -/
def StandsAt (source : List Char) (start : Nat) (word : List Char) : Prop :=
  source.extract start (start + word.length) = word

instance decidableStandsAt (source : List Char) (start : Nat) (word : List Char) :
    Decidable (StandsAt source start word) :=
  inferInstanceAs (Decidable (_ = _))

theorem standsAt_iff : StandsAt source start word ↔ word <+: source.drop start := by
  rw [StandsAt, List.extract_eq_take_drop, Nat.add_sub_cancel_left, List.prefix_iff_eq_take,
    eq_comm]

/-- **The longest word at an offset,** out of a list of words. -/
structure LongestWordAt (words : List (List Char)) (source : List Char) (start : Nat)
    (word : List Char) : Prop where
  mem : word ∈ words
  standsAt : StandsAt source start word
  length_le : ∀ other ∈ words, StandsAt source start other → other.length ≤ word.length

/-- **At an offset from the front** the match is looked for in the rest of the source. -/
theorem longestAt_natCast (tree : PrefixTree) (source : List Char) (start : Nat) :
    tree.longestAt source start =
      .ok ((tree.longest (source.drop start)).map (source.drop start).take) :=
  rfl

/-- The tree of words that are not empty holds just these. -/
theorem holds_ofWords_iff_mem (hwords : ∀ word ∈ words, word ≠ []) :
    (ofWords words).Holds word ↔ word ∈ words := by
  rw [holds_ofWords]
  exact and_iff_left_of_imp (hwords word)

theorem longestAt_ofWords_eq_some_iff (hwords : ∀ word ∈ words, word ≠ []) :
    (ofWords words).longestAt source start = .ok (some word) ↔
      LongestWordAt words source start word := by
  rw [longestAt_natCast, Except.ok.injEq, Option.map_eq_some_iff]
  constructor
  · rintro ⟨n, hn, rfl⟩
    obtain ⟨hle, hheld, hlongest⟩ := longest_eq_some_iff.1 hn
    refine ⟨(holds_ofWords_iff_mem hwords).1 hheld, standsAt_iff.2 (List.take_prefix _ _), ?_⟩
    intro other hother hstands
    rw [List.length_take_of_le hle]
    exact hlongest other ((holds_ofWords_iff_mem hwords).2 hother) (standsAt_iff.1 hstands)
  · intro h
    have hleading := standsAt_iff.1 h.standsAt
    have htake : (source.drop start).take word.length = word :=
      (List.prefix_iff_eq_take.1 hleading).symm
    refine ⟨word.length, longest_eq_some_iff.2 ⟨hleading.length_le, ?_, ?_⟩, htake⟩
    · rw [htake]
      exact (holds_ofWords_iff_mem hwords).2 h.mem
    · intro other hother hprefix
      exact h.length_le other ((holds_ofWords_iff_mem hwords).1 hother)
        (standsAt_iff.2 hprefix)

theorem longestAt_ofWords_eq_none_iff (hwords : ∀ word ∈ words, word ≠ []) :
    (ofWords words).longestAt source start = .ok none ↔
      ∀ word ∈ words, ¬ StandsAt source start word := by
  rw [longestAt_natCast, Except.ok.injEq, Option.map_eq_none_iff, longest_eq_none_iff]
  simp only [holds_ofWords_iff_mem hwords, standsAt_iff]

/-- **The longest of the words that were added** is found at every offset from the front of a source,
and nothing is found exactly if none of them stands there. In which order they were added does not
matter, nor how often. -/
theorem longestAt_ofWords (hwords : ∀ word ∈ words, word ≠ []) (source : List Char) (start : Nat) :
    ∃ found, (ofWords words).longestAt source start = .ok found ∧
      (∀ word, found = some word ↔ LongestWordAt words source start word) ∧
      (found = none ↔ ∀ word ∈ words, ¬ StandsAt source start word) ∧
      ∀ words' : List (List Char), (∀ word, word ∈ words' ↔ word ∈ words) →
        (ofWords words').longestAt source start = .ok found := by
  have hfound := longestAt_natCast (ofWords words) source start
  refine ⟨_, hfound, fun word => ?_, ?_, fun words' hsame => ?_⟩
  · rw [← longestAt_ofWords_eq_some_iff hwords, hfound, Except.ok.injEq]
  · rw [← longestAt_ofWords_eq_none_iff hwords, hfound, Except.ok.injEq]
  · rw [← hfound]
    refine longestAt_congr (fun word => ?_) source start
    rw [holds_ofWords, holds_ofWords, hsame]

end Offsets

/-- One word is added twice, it is the front of the two others, and the source ends inside the longest
of them. -/
theorem longestAt_ofWords_inside :
    let words := [['o', 'r'], ['o', 'r', 'd', 'e', 'r'], ['o', 'r', 'd'], ['o', 'r']]
    let source := ['a', ' ', 'o', 'r', 'd', 'e']
    (∀ word ∈ words, word ≠ []) ∧ LongestWordAt words source 2 ['o', 'r', 'd'] ∧
      ∃ found, (ofWords words).longestAt source (2 : Nat) = .ok found ∧
        (∀ word, found = some word ↔ LongestWordAt words source 2 word) ∧
        (found = none ↔ ∀ word ∈ words, ¬ StandsAt source 2 word) ∧
        ∀ words' : List (List Char), (∀ word, word ∈ words' ↔ word ∈ words) →
          (ofWords words').longestAt source (2 : Nat) = .ok found := by
  intro words source
  have hwords : ∀ word ∈ words, word ≠ [] := by decide
  exact ⟨hwords, ⟨by decide, by decide, by decide⟩, longestAt_ofWords hwords source 2⟩

end PrefixTree

end Lox
