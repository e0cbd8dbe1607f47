import RegexTree.Span

/-! # Cursors
A cursor is a place in a pattern: its byte offset and the characters that are still to be read.
Every reader of this library takes a cursor to a later one, so that what it read is the text between
the two. `Cursor.Reads` states this, and `Cursor.textIn_spanTo` says that the span between two
cursors marks the text that was read. -/

namespace RegexTree

/-- A place in a pattern. -/
structure Cursor where
  /-- The byte offset of the place. -/
  pos : Nat
  /-- The characters from the place to the end. -/
  rest : List Char
  deriving DecidableEq, Repr

namespace Cursor

/-- The beginning of a text, as a `Cursor`. -/
def ofString (text : String) : Cursor := ⟨0, text.toList⟩

/-- The characters after a number of bytes, if these end where a character begins. -/
def dropBytes? : Nat → List Char → Option (List Char)
  | 0, text => some text
  | _ + 1, [] => none
  | n + 1, x :: text => if x.utf8Size ≤ n + 1 then dropBytes? (n + 1 - x.utf8Size) text else none
termination_by _ text => text

/-- The place at a byte offset of a text, found by `dropBytes?`; there is none past the end or
inside a character. -/
def ofString? (text : String) (offset : Nat) : Option Cursor :=
  (dropBytes? offset text.toList).map (⟨offset, ·⟩)

/-! ## Steps and runs -/

/-- The place after one more character; the end stays where it is. -/
def next (c : Cursor) : Cursor :=
  match c.rest with
  | [] => c
  | x :: text => ⟨c.pos + x.utf8Size, text⟩

/-- The place after a text that stands at the cursor. -/
def past (c : Cursor) (text : List Char) : Cursor :=
  ⟨c.pos + byteLength text, c.rest.drop text.length⟩

/-- The longest run of characters of a kind that stands at the cursor. -/
def run (p : Char → Bool) (c : Cursor) : List Char := c.rest.takeWhile p

/-- The longest `run` of at most a given length. -/
def runUpTo (limit : Nat) (p : Char → Bool) (c : Cursor) : List Char :=
  (c.rest.take limit).takeWhile p

/-- The place after the character, if it is the one that is expected. -/
def accept? (expected : Char) (c : Cursor) : Option Cursor :=
  match c.rest with
  | [] => none
  | x :: _ => if x = expected then some c.next else none

/-- The place after the word, if it stands at the cursor, as `accept?` for one character. -/
def acceptAll? (word : List Char) (c : Cursor) : Option Cursor :=
  if word.isPrefixOf c.rest then some (c.past word) else none

/-- The `Span` between two places. -/
def spanTo (c later : Cursor) : Span := ⟨c.pos, later.pos⟩

/-- The place after the character if `accept?` takes it, with the character's span. -/
def skipOptional (expected : Char) (c : Cursor) : Option Span × Cursor :=
  match c.accept? expected with
  | some later => (some (c.spanTo later), later)
  | none => (none, c)

/-! ## What is read between two places -/

/-- The second cursor is the first one after reading a text. -/
def Reads (c : Cursor) (text : List Char) (later : Cursor) : Prop :=
  c.rest = text ++ later.rest ∧ later.pos = c.pos + byteLength text

/-- The second cursor is the first one after reading some text, whichever it is: `Reads` without the
text. -/
def Reaches (c later : Cursor) : Prop := ∃ text, c.Reads text later

/-- Nothing is read by staying. -/
protected theorem Reads.refl (c : Cursor) : c.Reads [] c := ⟨rfl, rfl⟩

/-- What is read in two steps is the one text and then the other. -/
protected theorem Reads.trans {a b c : Cursor} {s t : List Char} (hab : a.Reads s b)
    (hbc : b.Reads t c) : a.Reads (s ++ t) c := by
  obtain ⟨hs, hsp⟩ := hab
  obtain ⟨ht, htp⟩ := hbc
  exact ⟨by rw [hs, ht, List.append_assoc], by rw [htp, hsp, byteLength_append, Nat.add_assoc]⟩

/-- The span between two places of a source marks the text that is read between them. -/
theorem textIn_spanTo {source : String} {before text : List Char} {c later : Cursor}
    (hc : (ofString source).Reads before c) (h : c.Reads text later) :
    (c.spanTo later).textIn source = String.ofList text := by
  obtain ⟨hsource, hpos⟩ := hc
  obtain ⟨hrest, hlater⟩ := h
  have hs : source = String.ofList (before ++ (text ++ later.rest)) := by
    rw [← hrest, ← hsource]
    exact String.ofList_toList.symm
  have hstart : c.pos = byteLength before := by rw [hpos]; exact Nat.zero_add _
  rw [Span.textIn, spanTo, hs, hlater, hstart]
  exact Text.slice_part before text later.rest

namespace Reaches

/-- Every place reaches itself. -/
protected theorem refl (c : Cursor) : c.Reaches c := ⟨[], Reads.refl c⟩

/-- What is reached from a place that is reached is reached. -/
protected theorem trans {a b c : Cursor} (hab : a.Reaches b) (hbc : b.Reaches c) : a.Reaches c := by
  obtain ⟨s, hs⟩ := hab
  obtain ⟨t, ht⟩ := hbc
  exact ⟨s ++ t, hs.trans ht⟩

/-- A place that `Reaches` another has no fewer characters left. -/
theorem length_le {a b : Cursor} (h : a.Reaches b) : b.rest.length ≤ a.rest.length := by
  obtain ⟨s, hs, -⟩ := h
  simp [hs]

/-- A place that `Reaches` another does not lie behind it. -/
theorem pos_le {a b : Cursor} (h : a.Reaches b) : a.pos ≤ b.pos := by
  obtain ⟨s, -, hs⟩ := h
  omega

end Reaches

/-! ## Every step reaches a later place -/

/-- Before the end, the next place is one character on. -/
@[simp] theorem next_cons (pos : Nat) (x : Char) (text : List Char) :
    next ⟨pos, x :: text⟩ = ⟨pos + x.utf8Size, text⟩ := rfl

/-- The place `next` is reached. -/
theorem reaches_next (c : Cursor) : c.Reaches c.next := by
  obtain ⟨pos, _ | ⟨x, text⟩⟩ := c
  · exact Reaches.refl _
  · exact ⟨[x], by simp, by simp⟩

/-- Before the end, one more character leaves fewer. -/
theorem length_next_lt {c : Cursor} {x : Char} {text : List Char} (h : c.rest = x :: text) :
    c.next.rest.length < c.rest.length := by
  obtain ⟨pos, rest⟩ := c
  subst h
  simp

/-- Whatever lies beyond `next` leaves fewer characters. -/
theorem Reaches.length_lt {c later : Cursor} {x : Char} {text : List Char} (h : c.rest = x :: text)
    (hr : c.next.Reaches later) : later.rest.length < c.rest.length :=
  Nat.lt_of_le_of_lt hr.length_le (length_next_lt h)

/-- The place `past` a text that stands at the cursor is reached. -/
theorem reaches_past {c : Cursor} {text : List Char} (h : text <+: c.rest) :
    c.Reaches (c.past text) := by
  obtain ⟨more, hm⟩ := h
  exact ⟨text, by simp [past, ← hm], rfl⟩

/-- What `run` takes stands at the cursor. -/
theorem run_isPrefix (p : Char → Bool) (c : Cursor) : c.run p <+: c.rest :=
  List.takeWhile_prefix p

/-- What `runUpTo` takes stands at the cursor. -/
theorem runUpTo_isPrefix (limit : Nat) (p : Char → Bool) (c : Cursor) :
    c.runUpTo limit p <+: c.rest :=
  (List.takeWhile_prefix p).trans (List.take_prefix limit c.rest)

/-- The place after a run is reached. -/
theorem reaches_past_run (p : Char → Bool) (c : Cursor) : c.Reaches (c.past (c.run p)) :=
  reaches_past (run_isPrefix p c)

/-- The place after a run of limited length is reached. -/
theorem reaches_past_runUpTo (limit : Nat) (p : Char → Bool) (c : Cursor) :
    c.Reaches (c.past (c.runUpTo limit p)) :=
  reaches_past (runUpTo_isPrefix limit p c)

/-- The place after a character that `accept?` takes is reached. -/
theorem reaches_of_accept? {expected : Char} {c later : Cursor}
    (h : c.accept? expected = some later) : c.Reaches later := by
  unfold accept? at h
  split at h
  · cases h
  · split at h
    · cases h
      exact reaches_next c
    · cases h

/-- The place after a word that `acceptAll?` takes is reached. -/
theorem reaches_of_acceptAll? {word : List Char} {c later : Cursor}
    (h : c.acceptAll? word = some later) : c.Reaches later := by
  unfold acceptAll? at h
  split at h
  · cases h
    exact reaches_past (List.isPrefixOf_iff_prefix.mp (by assumption))
  · cases h

/-- The place where `skipOptional` leaves the cursor is reached. -/
theorem reaches_skipOptional (expected : Char) (c : Cursor) :
    c.Reaches (c.skipOptional expected).2 := by
  unfold skipOptional
  split
  · exact reaches_of_accept? (by assumption)
  · exact Reaches.refl c

/-- Every place that `ofString?` gives is reached from the beginning of the text. -/
theorem reaches_of_ofString? {text : String} {offset : Nat} {c : Cursor}
    (h : ofString? text offset = some c) : (ofString text).Reaches c := by
  obtain ⟨rest, hrest, rfl⟩ := Option.map_eq_some_iff.mp h
  suffices ∀ n source, dropBytes? n source = some rest →
      ∃ read, source = read ++ rest ∧ n = byteLength read by
    obtain ⟨read, hread, hn⟩ := this offset text.toList hrest
    exact ⟨read, hread, by simp [ofString, hn]⟩
  intro n source
  fun_induction dropBytes? n source with
  | case1 source => intro hs; cases hs; exact ⟨[], by simp, rfl⟩
  | case2 => simp
  | case3 n x source hx ih =>
    intro hs
    obtain ⟨read, hread, hn⟩ := ih hs
    exact ⟨x :: read, by simp [hread], by simp only [byteLength_cons]; omega⟩
  | case4 => simp

end Cursor

end RegexTree
