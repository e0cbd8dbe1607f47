import RegexTree.Invalid
import RegexTree.Node.Kind

/-! # Words
The names of kinds (`NodeKind.name`) and the tags of reasons (`Reason.tag`) are words: they have
neither spaces nor punctuation other than dashes and underscores, so that they end where a space or
a parenthesis stands behind them. Words that are joined by a space (`Text.joinWord`) are cut apart
again at the first space (`Text.cutWord`). -/

namespace RegexTree

/-- The character is a lower-case letter, an underscore or a dash. -/
def isWordChar (c : Char) : Bool := c.isLower || c == '_' || c == '-'

/-- A character that is `isWordChar` is not one that is not. -/
theorem ne_of_isWordChar {c d : Char} (hc : isWordChar c = true) (hd : isWordChar d = false) :
    c ≠ d := by
  rintro rfl
  rw [hc] at hd
  cases hd

/-- A word has no character that no word has. -/
theorem not_mem_of_isWordChar {word : List Char} {d : Char}
    (hword : ∀ c ∈ word, isWordChar c = true) (hd : isWordChar d = false) : d ∉ word :=
  fun hmem => ne_of_isWordChar (hword d hmem) hd rfl

/-- Items that have a property, in front of one that does not, are cut off by `takeWhile` and
`dropWhile` from what follows. -/
theorem takeWhile_dropWhile_append {α : Type} {p : α → Bool} {xs ys : List α}
    (hxs : ∀ x ∈ xs, p x = true) (hys : ∀ y ∈ ys.head?, p y = false) :
    (xs ++ ys).takeWhile p = xs ∧ (xs ++ ys).dropWhile p = ys := by
  rw [List.takeWhile_append_of_pos hxs, List.dropWhile_append_of_pos hxs]
  cases ys with
  | nil => exact ⟨List.append_nil xs, rfl⟩
  | cons y ys =>
    have hy : ¬ p y = true := Bool.not_eq_true _ ▸ hys y rfl
    rw [List.takeWhile_cons_of_neg hy, List.dropWhile_cons_of_neg hy, List.append_nil]
    exact ⟨rfl, rfl⟩

namespace NodeKind

/-- A `name` of a kind has word characters only. -/
theorem name_isWord (kind : NodeKind) : ∀ c ∈ kind.name.toList, isWordChar c = true := by
  have hall : (all.all fun k => k.name.toList.all isWordChar) = true := by decide +kernel
  exact List.all_eq_true.mp (List.all_eq_true.mp hall kind (mem_all kind))

/-- A `name` of a kind is not empty. -/
theorem name_ne_nil (kind : NodeKind) : kind.name.toList ≠ [] := by
  have hall : ∀ k ∈ all, k.name ≠ "" := by decide +kernel
  exact fun h => hall kind (mem_all kind) (String.toList_eq_nil_iff.mp h)

/-- A kind that `ofName?` leads to has this name. -/
theorem name_of_ofName? {name : String} {kind : NodeKind} (h : ofName? name = some kind) :
    kind.name = name := by
  simpa using List.find?_some h

end NodeKind

namespace Reason

/-- A `tag` of a reason has word characters only. -/
theorem tag_isWord (r : Reason) : ∀ c ∈ r.tag.toList, isWordChar c = true := by
  have hall : (all.all fun r => r.tag.toList.all isWordChar) = true := by decide +kernel
  exact List.all_eq_true.mp (List.all_eq_true.mp hall r (mem_all r))

/-- A `tag` of a reason is not empty. -/
theorem tag_ne_nil (r : Reason) : r.tag.toList ≠ [] := by
  have hall : ∀ r ∈ all, r.tag ≠ "" := by decide +kernel
  exact fun h => hall r (mem_all r) (String.toList_eq_nil_iff.mp h)

/-- A reason that `ofTag?` leads to has this tag. -/
theorem tag_of_ofTag? {tag : String} {r : Reason} (h : ofTag? tag = some r) : r.tag = tag := by
  simpa using List.find?_some h

end Reason

namespace Text

/-- A word and, behind a space, what follows it if anything does. -/
def joinWord (word : List Char) (more : Option (List Char)) : List Char :=
  word ++ (more.map (' ' :: ·)).getD []

/-- The text before the first space, and the text behind this space if there is one. -/
def cutWord : List Char → List Char × Option (List Char)
  | [] => ([], none)
  | c :: text =>
    if c = ' ' then ([], some text) else (c :: (cutWord text).1, (cutWord text).2)

/-- Words that `joinWord` joins have no character that none of them has, apart from spaces. -/
theorem not_mem_joinWord {c : Char} {word : List Char} {more : Option (List Char)} (hc : c ≠ ' ')
    (hword : c ∉ word) (hmore : ∀ text ∈ more, c ∉ text) : c ∉ joinWord word more := by
  cases more with
  | none => simpa [joinWord] using hword
  | some text => simpa [joinWord, hc] using ⟨hword, hmore text rfl⟩

/-- A word that `joinWord` joins with something is cut off again by `cutWord`. -/
theorem cutWord_joinWord {word : List Char} (hword : ' ' ∉ word) (more : Option (List Char)) :
    cutWord (joinWord word more) = (word, more) := by
  induction word with
  | nil => cases more <;> rfl
  | cons c word ih =>
    rw [List.mem_cons, not_or] at hword
    obtain ⟨hc, hrest⟩ := hword
    rw [joinWord, List.cons_append, ← joinWord, cutWord, if_neg (Ne.symm hc), ih hrest]

/-- Joining what `cutWord` cut apart gives the text back. -/
theorem joinWord_cutWord (text : List Char) :
    joinWord (cutWord text).1 (cutWord text).2 = text := by
  induction text with
  | nil => rfl
  | cons c text ih =>
    rw [cutWord]
    split
    · next hspace => rw [hspace]; rfl
    · rw [joinWord, List.cons_append, ← joinWord, ih]

end Text

end RegexTree
