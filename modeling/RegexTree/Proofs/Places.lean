import RegexTree.Recovery

/-! # Places of a text
A place of a text is a `Cursor` that is reached from its beginning, so that its offset is a boundary
between two characters. The main statements say that the offsets at which a cursor exists are these
boundaries and no others (`Cursor.ofString?_isSome_iff`), that the cursor at the offset of a place
is the place (`Cursor.Reaches.ofString?_pos`), and that the span between two places marks a part of
the text (`Cursor.Reaches.toList_textIn`). -/

namespace RegexTree

namespace Cursor

/-! ## Reading texts -/

/-- A text `Reads` in one go where its two parts do one after the other. -/
theorem reads_append_iff {a c : Cursor} {s t : List Char} :
    a.Reads (s ++ t) c ↔ ∃ b, a.Reads s b ∧ b.Reads t c := by
  constructor
  · rintro ⟨hrest, hpos⟩
    -- the place between the parts is given by the length of the first and what stands behind it
    refine ⟨⟨a.pos + byteLength s, t ++ c.rest⟩, ⟨?_, rfl⟩, rfl, ?_⟩
    · rw [hrest, List.append_assoc]
    · rw [hpos, byteLength_append, Nat.add_assoc]
  · rintro ⟨b, hs, ht⟩
    exact hs.trans ht

/-- A text is read character by character. -/
theorem reads_cons_iff {a c : Cursor} {x : Char} {t : List Char} :
    a.Reads (x :: t) c ↔ ∃ b, a.Reads [x] b ∧ b.Reads t c :=
  reads_append_iff (s := [x])

/-- The place after a text is determined by the text. -/
theorem Reads.unique {a b c : Cursor} {t : List Char} (hb : a.Reads t b) (hc : a.Reads t c) :
    b = c := by
  obtain ⟨hbrest, hbpos⟩ := hb
  obtain ⟨hcrest, hcpos⟩ := hc
  have hrest : b.rest = c.rest := List.append_cancel_left (hbrest.symm.trans hcrest)
  obtain ⟨bpos, brest⟩ := b
  obtain ⟨cpos, crest⟩ := c
  simp_all

/-- A text that is read leads to a later place. -/
theorem Reads.reaches {a b : Cursor} {t : List Char} (h : a.Reads t b) : a.Reaches b := ⟨t, h⟩

/-- What is left at a later place is the end of what is left at an earlier one. -/
theorem Reaches.suffix {a b : Cursor} (h : a.Reaches b) : b.rest <:+ a.rest := by
  obtain ⟨w, hw, -⟩ := h
  exact ⟨w, hw.symm⟩

/-- The first character of a text that is read is one of those that are left before it. -/
theorem Reads.mem_rest {a b : Cursor} {x : Char} {w : List Char} (h : a.Reads (x :: w) b) :
    x ∈ a.rest := by
  rw [h.1]
  exact List.mem_cons_self

/-- Two texts that are read one behind the other lie in the span from the beginning of the first to
the end of the second, which is the `Span.cover` of theirs. -/
theorem Reaches.cover_spanTo {a b c d : Cursor} (hab : a.Reaches b) (hbc : b.Reaches c)
    (hcd : c.Reaches d) : (a.spanTo b).cover (c.spanTo d) = a.spanTo d := by
  have hstart : a.pos ≤ c.pos := (hab.trans hbc).pos_le
  have hstop : b.pos ≤ d.pos := (hbc.trans hcd).pos_le
  simp [spanTo, Span.cover, hstart, hstop]

/-- A text that is read leaves fewer characters by its length. -/
theorem Reads.length_rest {a b : Cursor} {w : List Char} (h : a.Reads w b) :
    a.rest.length = w.length + b.rest.length := by
  rw [h.1, List.length_append]

/-- The text between two places with the same offset is empty. -/
theorem Reads.eq_nil_of_pos_le {a b : Cursor} {w : List Char} (h : a.Reads w b)
    (hle : b.pos ≤ a.pos) : w = [] := by
  refine Decidable.byContradiction fun hne => ?_
  have hpos := byteLength_pos hne
  have hb := h.2
  omega

/-- Before the end, one character is read by `next`. -/
theorem reads_next {c : Cursor} {x : Char} {t : List Char} (h : c.rest = x :: t) :
    c.Reads [x] c.next := by
  obtain ⟨pos, rest⟩ := c
  subst h
  exact ⟨rfl, by simp⟩

/-- After `next` the first character is gone. -/
theorem rest_next {c : Cursor} {x : Char} {t : List Char} (h : c.rest = x :: t) :
    c.next.rest = t := by
  obtain ⟨pos, rest⟩ := c
  subst h
  rfl

/-- A text that stands at the cursor leads to a place before what follows it. -/
theorem exists_reads {c : Cursor} {w t : List Char} (h : c.rest = w ++ t) :
    ∃ later, c.Reads w later ∧ later.rest = t :=
  ⟨⟨c.pos + byteLength w, t⟩, ⟨h, rfl⟩, rfl⟩

/-- What holds of the first character that is read holds of the one that stands at the cursor. -/
theorem Reads.forall_head {c later : Cursor} {x : Char} {w : List Char} (h : c.Reads (x :: w) later)
    {P : Char → Prop} (hx : P x) : ∀ y, c.rest.head? = some y → P y := by
  intro y hy
  rw [h.1] at hy
  exact Option.some.inj hy ▸ hx

/-- The step to `next` is the only way to read the character that stands at the cursor. -/
theorem Reads.eq_next {c later : Cursor} {x : Char} (h : c.Reads [x] later) : later = c.next :=
  h.unique (reads_next h.1)

/-- Two steps are the only way to read two characters. -/
theorem Reads.eq_next_next {c later : Cursor} {x y : Char} (h : c.Reads [x, y] later) :
    later = c.next.next := by
  obtain ⟨middle, hx, hy⟩ := reads_cons_iff.mp h
  rw [hy.eq_next, hx.eq_next]

/-- A text that stands at the cursor is read by going `past` it. -/
theorem reads_past {c : Cursor} {t : List Char} (h : t <+: c.rest) : c.Reads t (c.past t) := by
  obtain ⟨more, hmore⟩ := h
  exact ⟨by simp [past, ← hmore], rfl⟩

/-- Going `past` no text is staying. -/
@[simp] theorem past_nil (c : Cursor) : c.past [] = c :=
  (reads_past List.nil_prefix).unique (.refl c)

/-- A character that `accept?` takes is read. -/
theorem reads_of_accept? {x : Char} {c later : Cursor} (h : c.accept? x = some later) :
    c.Reads [x] later := by
  unfold accept? at h
  split at h
  · cases h
  · rename_i y t hrest
    split at h
    · rename_i hy
      cases h
      exact reads_next (hy ▸ hrest)
    · cases h

/-- A character is taken by `accept?` where it stands. -/
theorem accept?_of_head {c : Cursor} {x : Char} {t : List Char} (h : c.rest = x :: t) :
    c.accept? x = some c.next := by
  simp [accept?, h]

/-- A character is not taken by `accept?` where it does not stand. -/
theorem accept?_eq_none {c : Cursor} {x : Char} (h : c.rest.head? ≠ some x) :
    c.accept? x = none := by
  obtain ⟨pos, _ | ⟨y, t⟩⟩ := c
  · rfl
  · have hy : y ≠ x := by simpa using h
    simp [accept?, hy]

/-- Where `accept?` does not take a character it does not stand. -/
theorem head_ne_of_accept? {c : Cursor} {x : Char} (h : c.accept? x = none) :
    c.rest.head? ≠ some x := by
  intro hx
  obtain ⟨t, ht⟩ : ∃ t, c.rest = x :: t := List.head?_eq_some_iff.mp hx
  rw [accept?_of_head ht] at h
  cases h

/-- A word that `acceptAll?` takes is read. -/
theorem reads_of_acceptAll? {word : List Char} {c later : Cursor}
    (h : c.acceptAll? word = some later) : c.Reads word later := by
  unfold acceptAll? at h
  split at h
  · rename_i hword
    cases h
    exact reads_past (List.isPrefixOf_iff_prefix.mp hword)
  · cases h

/-- What `skipOptional` takes: the character where it stands, and nothing elsewhere. -/
inductive Skips (x : Char) (c : Cursor) : Cursor → Option Span → Prop where
  /-- The character does not stand there. -/
  | absent (hnext : c.rest.head? ≠ some x) : Skips x c c none
  /-- The character stands there. -/
  | present {later : Cursor} (hread : c.Reads [x] later) : Skips x c later (some (c.spanTo later))

/-- An optional character is skipped where it stands: `skipOptional` does as `Skips` says. -/
theorem skips_skipOptional (x : Char) (c : Cursor) :
    Skips x c (c.skipOptional x).2 (c.skipOptional x).1 := by
  unfold skipOptional
  cases h : c.accept? x with
  | none => exact .absent (head_ne_of_accept? h)
  | some later => exact .present (reads_of_accept? h)

/-- What `Skips` says is what `skipOptional` does. -/
theorem skipOptional_of_skips {x : Char} {c later : Cursor} {s : Option Span}
    (h : Skips x c later s) : c.skipOptional x = (s, later) := by
  cases h with
  | absent hnext => simp [skipOptional, accept?_eq_none hnext]
  | present hread =>
    obtain rfl := hread.eq_next
    simp [skipOptional, accept?_of_head hread.1]

/-- Skipping an optional character does not go back. -/
theorem Skips.reaches {x : Char} {c later : Cursor} {s : Option Span} (h : Skips x c later s) :
    c.Reaches later := by
  cases h with
  | absent => exact .refl c
  | present hread => exact hread.reaches

/-- Without a span nothing was skipped, so the character does not stand there. -/
theorem Skips.of_none {x : Char} {c later : Cursor} {s : Option Span} (h : Skips x c later s)
    (hnone : s = none) : later = c ∧ c.rest.head? ≠ some x := by
  cases h with
  | absent hnext => exact ⟨rfl, hnext⟩
  | present => cases hnone

/-! ## Runs -/

/-- What `run` takes is read. -/
theorem reads_run (p : Char → Bool) (c : Cursor) : c.Reads (c.run p) (c.past (c.run p)) :=
  reads_past (run_isPrefix p c)

/-- What `runUpTo` takes is read. -/
theorem reads_runUpTo (limit : Nat) (p : Char → Bool) (c : Cursor) :
    c.Reads (c.runUpTo limit p) (c.past (c.runUpTo limit p)) :=
  reads_past (runUpTo_isPrefix limit p c)

/-- A run of limited length is no longer than its limit. -/
theorem length_runUpTo_le (limit : Nat) (p : Char → Bool) (c : Cursor) :
    (c.runUpTo limit p).length ≤ limit :=
  Nat.le_trans (List.takeWhile_prefix _).length_le (List.length_take_le limit _)

/-- All characters of a `run` are of its kind. -/
theorem of_mem_run {p : Char → Bool} {c : Cursor} {x : Char} (h : x ∈ c.run p) : p x = true :=
  List.all_eq_true.mp List.all_takeWhile x h

/-- All characters that `runUpTo` takes are of its kind. -/
theorem of_mem_runUpTo {limit : Nat} {p : Char → Bool} {c : Cursor} {x : Char}
    (h : x ∈ c.runUpTo limit p) : p x = true :=
  List.all_eq_true.mp List.all_takeWhile x h

/-- What follows a `run` begins with another kind of character. -/
theorem head_past_run {p : Char → Bool} {c : Cursor} {x : Char}
    (h : (c.past (c.run p)).rest.head? = some x) : p x = false := by
  -- what is left behind a run is what dropping its characters leaves
  have hrest : (c.past (c.run p)).rest = c.rest.dropWhile p := by
    refine List.append_cancel_left (((reads_run p c).1).symm.trans ?_)
    exact List.takeWhile_append_dropWhile.symm
  rw [hrest] at h
  have hfirst := List.head?_dropWhile_not p c.rest
  rw [h] at hfirst
  simpa using hfirst

/-- A `run` ends before the first character of another kind. -/
theorem run_of_rest {p : Char → Bool} {c : Cursor} {w t : List Char} (h : c.rest = w ++ t)
    (hw : ∀ x ∈ w, p x = true) (ht : ∀ x, t.head? = some x → p x = false) : c.run p = w := by
  rw [run, h, List.takeWhile_append_of_pos hw]
  cases t with
  | nil => simp
  | cons y t => simp [ht y rfl]

/-- A run of limited length has its full length where enough characters of its kind stand. -/
theorem runUpTo_of_rest {limit : Nat} {p : Char → Bool} {c : Cursor} {w t : List Char}
    (h : c.rest = w ++ t) (hlength : w.length = limit) (hw : ∀ x ∈ w, p x = true) :
    c.runUpTo limit p = w := by
  have hall : (w ++ []).takeWhile p = w ++ [].takeWhile p := List.takeWhile_append_of_pos hw
  rw [runUpTo, h, List.take_left' hlength]
  simpa using hall

/-! ## Places -/

/-- The offset of a place is a boundary between two characters. -/
theorem Reaches.isValid {source : String} {c : Cursor} (h : (ofString source).Reaches c) :
    (⟨c.pos⟩ : String.Pos.Raw).IsValid source := by
  obtain ⟨before, hrest, hpos⟩ := h
  -- the source is what was read and what is left, and the offset is where they meet
  have hsource : source = String.ofList before ++ String.ofList c.rest := by
    rw [← String.ofList_append, ← hrest]
    exact String.ofList_toList.symm
  refine String.Pos.Raw.isValid_iff_exists_append.mpr ⟨_, _, hsource, ?_⟩
  rw [String.Pos.Raw.ext_iff, String.byteIdx_rawEndPos, utf8ByteSize_ofList, hpos]
  exact Nat.zero_add _

/-- What is read from a place on is what the span marks by `Span.textIn`. -/
theorem Reaches.toList_textIn {source : String} {w : List Char} {c later : Cursor}
    (hc : (ofString source).Reaches c) (h : c.Reads w later) :
    ((c.spanTo later).textIn source).toList = w := by
  obtain ⟨before, hbefore⟩ := hc
  rw [textIn_spanTo hbefore h, String.toList_ofList]

/-- The end of a text is the only place after which nothing is left. -/
theorem Reaches.pos_of_end {source : String} {c : Cursor} (h : (ofString source).Reaches c)
    (hend : c.rest = []) : c.pos = source.utf8ByteSize := by
  obtain ⟨before, hrest, hpos⟩ := h
  rw [hend, List.append_nil] at hrest
  have hsource : source = String.ofList before := by
    rw [← hrest]
    exact String.ofList_toList.symm
  rw [hpos, hsource, utf8ByteSize_ofList]
  exact Nat.zero_add _

/-- The place at the end of a text is the one behind all that is left. -/
theorem Reaches.eq_of_end {a b : Cursor} (h : a.Reaches b) (hend : b.rest = []) :
    b = ⟨a.pos + byteLength a.rest, []⟩ := by
  obtain ⟨w, hrest, hpos⟩ := h
  rw [hend, List.append_nil] at hrest
  obtain ⟨pos, rest⟩ := b
  subst hend
  rw [hrest, show pos = _ from hpos]

/-- Dropping the bytes of a text by `dropBytes?` leaves what follows it. -/
theorem dropBytes?_append (before rest : List Char) :
    dropBytes? (byteLength before) (before ++ rest) = some rest := by
  induction before with
  | nil => rw [byteLength_nil, dropBytes?, List.nil_append]
  | cons x before ih =>
    -- a character has at least one byte, so the number of bytes to drop is a successor
    have hx := Char.utf8Size_pos x
    obtain ⟨n, hn⟩ : ∃ n, byteLength (x :: before) = n + 1 :=
      ⟨byteLength (x :: before) - 1, by rw [byteLength_cons]; omega⟩
    have hle : x.utf8Size ≤ n + 1 := by rw [byteLength_cons] at hn; omega
    have hrest : n + 1 - x.utf8Size = byteLength before := by rw [byteLength_cons] at hn; omega
    rw [hn, List.cons_append, dropBytes?, if_pos hle, hrest, ih]

/-- The place that `ofString?` gives at the offset of a place is this place: what is left of the
text from the offset on is what is left at the place. -/
theorem Reaches.ofString?_pos {source : String} {c : Cursor} (h : (ofString source).Reaches c) :
    ofString? source c.pos = some c := by
  obtain ⟨before, hrest, hpos⟩ := h
  have hsource : source.toList = before ++ c.rest := hrest
  have hoffset : c.pos = byteLength before := hpos.trans (Nat.zero_add _)
  rw [ofString?, hsource, hoffset, dropBytes?_append, Option.map_some, ← hoffset]

/-- There is a cursor at an offset by `ofString?` exactly where a character begins or the text
ends. -/
theorem ofString?_isSome_iff (source : String) (offset : Nat) :
    (ofString? source offset).isSome = true ↔ (⟨offset⟩ : String.Pos.Raw).IsValid source := by
  constructor
  · intro h
    obtain ⟨c, hc⟩ := Option.isSome_iff_exists.mp h
    have hpos : c.pos = offset := by
      obtain ⟨rest, -, rfl⟩ := Option.map_eq_some_iff.mp hc
      rfl
    exact hpos ▸ (reaches_of_ofString? hc).isValid
  · intro h
    obtain ⟨before, rest, rfl, hoffset⟩ := String.Pos.Raw.isValid_iff_exists_append.mp h
    have hlength : offset = byteLength before.toList := by
      rw [byteLength_toList]
      exact congrArg String.Pos.Raw.byteIdx hoffset
    rw [ofString?, String.toList_append, hlength, dropBytes?_append]
    rfl

end Cursor

/-! ## Parts of a text -/

/-- A span marks a part of a source: it is not inverted, and both its ends are boundaries between
characters, so neither lies past the end. -/
def Span.IsPartOf (s : Span) (source : String) : Prop :=
  s.start ≤ s.stop ∧ (⟨s.start⟩ : String.Pos.Raw).IsValid source ∧
    (⟨s.stop⟩ : String.Pos.Raw).IsValid source

/-- A span lies between two places where it goes from a later place of the first to an earlier place
of the second. -/
def Span.Between (c later : Cursor) (s : Span) : Prop :=
  ∃ a b, c.Reaches a ∧ a.Reaches b ∧ b.Reaches later ∧ s = a.spanTo b

namespace Span.Between

variable {c later : Cursor} {s : Span}

/-- A span `Between` two places lies between earlier and later ones. -/
protected theorem mono {before after : Cursor} (hc : before.Reaches c) (hl : later.Reaches after)
    (h : s.Between c later) : s.Between before after := by
  obtain ⟨a, b, ha, hab, hb, rfl⟩ := h
  exact ⟨a, b, hc.trans ha, hab, hb.trans hl, rfl⟩

/-- The span from one place to a later one lies between them. -/
protected theorem whole (h : c.Reaches later) : (c.spanTo later).Between c later :=
  ⟨c, later, .refl c, h, .refl later, rfl⟩

/-- A span `Between` two places of a source is one that `IsPartOf` it. -/
theorem isPartOf {source : String} (hc : (Cursor.ofString source).Reaches c)
    (h : s.Between c later) : s.IsPartOf source := by
  obtain ⟨a, b, ha, hab, -, rfl⟩ := h
  exact ⟨hab.pos_le, (hc.trans ha).isValid, ((hc.trans ha).trans hab).isValid⟩

end Span.Between

end RegexTree
