import RegexTree.Backreference
import RegexTree.Group
import RegexTree.Proofs.Forms.Escape

/-! # Forms of group names
A group name is written as name characters and escapes of code points. The main statements say that
the reader of names takes such a text up to the closing bracket (`GroupName.form_of_read?`), that it
takes every such text (`GroupName.read?_of_form`), and what is left behind where a name is malformed
(`GroupName.region_of_recover`). -/

namespace RegexTree

namespace GroupName

/-- A character that a name `allows` as itself is a later character of names. -/
theorem isGroupNameContinue_of_allows {first : Bool} {x : Char} (h : allows first x = true) :
    isGroupNameContinue x = true := by
  cases first with
  | false => exact h
  | true => exact isGroupNameContinue_of_start h

/-- A name `allows` no backslash as itself. -/
theorem ne_backslash_of_allows {first : Bool} {x : Char} (h : allows first x = true) :
    x ≠ '\\' := by
  rintro rfl
  exact absurd (isGroupNameContinue_of_allows h) (by decide)

/-- A name `allows` no closing bracket as itself. -/
theorem ne_close_of_allows {first : Bool} {x : Char} (h : allows first x = true) : x ≠ '>' := by
  rintro rfl
  exact absurd (isGroupNameContinue_of_allows h) (by decide)

/-- The texts of a name or of a later part of it. -/
inductive Form : Bool → List Char → Prop where
  /-- Nothing. -/
  | nil {first : Bool} : Form first []
  /-- A character that stands for itself. -/
  | char {first : Bool} {x : Char} {w : List Char} (hx : allows first x = true)
      (hw : Form false w) : Form first (x :: w)
  /-- The escape of a code point. -/
  | escape {first : Bool} {p : CodePoint} {u w : List Char} (hp : CodePoint.Form p u)
      (hw : Form false w) : Form first ('\\' :: u ++ w)

/-! ## Escapes in names -/

/-- The escape of a code point is read by `readCode?` as it is written. -/
theorem reads_of_readCode? {c later : Cursor} {n : Nat} (h : readCode? c = some (n, later)) :
    ∃ p u, CodePoint.Form p u ∧ c.Reads ('\\' :: u) later ∧ p.value = n := by
  unfold readCode? at h
  split at h
  · rename_i hopen
    obtain ⟨t, ht⟩ := List.isPrefixOf_iff_prefix.mp hopen
    have hbackslash : c.Reads ['\\'] c.next := Cursor.reads_next ht.symm
    have hu : c.next.rest = 'u' :: t := List.append_cancel_left (hbackslash.1.symm.trans ht.symm)
    have htakes := CodePoint.takes_read hu
    split at h
    · rename_i p after hread
      rw [hread] at htakes
      cases h
      obtain ⟨u, hp, hreads⟩ := htakes
      exact ⟨p, u, hp, hbackslash.trans hreads, rfl⟩
    · cases h
  · cases h

/-- The escape of a code point is read by `readCode?` where it stands. -/
theorem readCode?_of_form {p : CodePoint} {u : List Char} (hp : CodePoint.Form p u)
    {c later : Cursor} (h : c.Reads ('\\' :: u) later) : readCode? c = some (p.value, later) := by
  obtain ⟨body, hbackslash, hread⟩ := Cursor.reads_cons_iff.mp h
  obtain rfl := hbackslash.eq_next
  have hu : ∃ t, u = 'u' :: t := by
    cases hp with
    | plain => exact ⟨_, rfl⟩
    | braced => exact ⟨_, rfl⟩
  obtain ⟨t, rfl⟩ := hu
  have hopen : ['\\', 'u'].isPrefixOf c.rest = true :=
    List.isPrefixOf_iff_prefix.mpr ⟨t ++ later.rest, by rw [h.1]; rfl⟩
  rw [readCode?, if_pos hopen, CodePoint.read_of_form hp hread]

/-- Without a backslash no escape is read. -/
theorem readCode?_eq_none {c : Cursor} (h : c.rest.head? ≠ some '\\') : readCode? c = none := by
  have hopen : ['\\', 'u'].isPrefixOf c.rest ≠ true := by
    intro hopen
    obtain ⟨t, ht⟩ := List.isPrefixOf_iff_prefix.mp hopen
    rw [← ht] at h
    exact h rfl
  rw [readCode?, if_neg hopen]

/-- A character that `readEscaped?` reads is written as one escape or, where two form a surrogate
pair, as two. -/
theorem reads_of_readEscaped? {c later : Cursor} {x : Char}
    (h : readEscaped? c = some (x, later)) :
    ∃ p u middle, CodePoint.Form p u ∧ c.Reads ('\\' :: u) middle ∧
      (later = middle ∨ ∃ q v, CodePoint.Form q v ∧ middle.Reads ('\\' :: v) later) := by
  simp only [readEscaped?, Option.bind_eq_bind, Option.bind_eq_some_iff, Prod.exists] at h
  obtain ⟨code, middle, hcode, h⟩ := h
  obtain ⟨p, u, hp, hread, -⟩ := reads_of_readCode? hcode
  refine ⟨p, u, middle, hp, hread, ?_⟩
  -- a second escape is only taken if both are halves of a pair
  split at h
  · rename_i trail after hpair
    simp only [Option.some.injEq, Prod.mk.injEq] at h
    obtain ⟨-, rfl⟩ := h
    split at hpair
    · simp only [readTrail?, Option.bind_eq_bind, Option.bind_eq_some_iff, Prod.exists] at hpair
      obtain ⟨n, stop, htrail, hpair⟩ := hpair
      obtain ⟨q, v, hq, hreadTrail, -⟩ := reads_of_readCode? htrail
      split at hpair
      · cases hpair
        exact .inr ⟨q, v, hq, hreadTrail⟩
      · cases hpair
    · cases hpair
  · simp only [Option.some.injEq, Prod.mk.injEq] at h
    exact .inl h.2.symm

/-! ## Names -/

/-- The characters that `readElements?` reads are written in a `Form` of names, and none are read
from no text. -/
theorem form_of_readElements? {first : Bool} {c later : Cursor} {name : List Char}
    (h : readElements? first c = some (name, later)) :
    ∃ w, Form first w ∧ c.Reads w later ∧ (w = [] → name = []) := by
  fun_induction readElements? first c generalizing name with
  | case1 first c hclose =>
    cases h
    exact ⟨[], .nil, .refl _, fun _ => rfl⟩
  | case2 => cases h
  | case3 first c hclose x next hx ih =>
    obtain ⟨⟨xs, stop⟩, hxs, heq⟩ := Option.map_eq_some_iff.mp h
    cases heq
    obtain ⟨w, hw, hread, -⟩ := ih hxs
    unfold readElement? at hx
    split at hx
    · cases hx
    · rename_i y t hrest
      split at hx
      · obtain ⟨p, u, middle, hp, hreadFirst, hsecond⟩ := reads_of_readEscaped? hx
        rcases hsecond with rfl | ⟨q, v, hq, hreadSecond⟩
        · exact ⟨_, .escape hp hw, hreadFirst.trans hread, (absurd · (List.cons_ne_nil _ _))⟩
        · exact ⟨_, .escape hp (.escape hq hw), hreadFirst.trans (hreadSecond.trans hread),
            (absurd · (List.cons_ne_nil _ _))⟩
      · split at hx
        · rename_i hallowed
          cases hx
          exact ⟨_, .char hallowed hw, (Cursor.reads_next hrest).trans hread,
            (absurd · (List.cons_ne_nil _ _))⟩
        · cases hx

/-- An element that `readElement?` reads before the closing bracket begins the name. -/
theorem readElements?_of_element {first : Bool} {c next : Cursor} {x : Char}
    (hclose : c.rest.head? ≠ some '>') (h : readElement? first c = some (x, next)) :
    readElements? first c =
      (readElements? false next).map fun (xs, stop) => (x :: xs, stop) := by
  rw [readElements?, if_neg hclose]
  split
  · simp_all
  · simp_all

/-- A character that a name `allows` as itself is an element. -/
theorem readElement?_of_allows {first : Bool} {c : Cursor} {x : Char} {t : List Char}
    (hrest : c.rest = x :: t) (hx : allows first x = true) :
    readElement? first c = some (x, c.next) := by
  unfold readElement?
  split
  · simp_all
  · rename_i y t hy
    obtain rfl : x = y := by simp_all
    rw [if_neg (ne_backslash_of_allows hx), if_pos hx]

/-- At a backslash an element is an escaped character. -/
theorem readElement?_of_backslash {first : Bool} {c : Cursor} {t : List Char}
    (hrest : c.rest = '\\' :: t) : readElement? first c = readEscaped? c := by
  unfold readElement?
  split
  · simp_all
  · simp_all

/-- Reading by `readEscaped?` takes the first escape, and the second one where both form a pair. -/
theorem readEscaped?_of_readCode? {c middle : Cursor} {code : Nat}
    (h : readCode? c = some (code, middle)) :
    (∃ x, readEscaped? c = some (x, middle)) ∨
      ∃ x n later, readCode? middle = some (n, later) ∧ readEscaped? c = some (x, later) := by
  cases htrail : if isLeadSurrogate code then readTrail? middle else none with
  | none => exact .inl ⟨decode code, by simp [readEscaped?, h, htrail]⟩
  | some trail =>
    obtain ⟨n, later⟩ := trail
    refine .inr ⟨decode (combineSurrogates code n), n, later, ?_, ?_⟩
    · split at htrail
      · simp only [readTrail?, Option.bind_eq_bind, Option.bind_eq_some_iff, Prod.exists] at htrail
        obtain ⟨m, stop, hcode, htrail⟩ := htrail
        split at htrail
        · cases htrail
          exact hcode
        · cases htrail
      · cases htrail
    · simp [readEscaped?, h, htrail]

/-- A `Form` of a name before a closing bracket is read to the bracket. -/
theorem readElements?_of_form {first : Bool} {w : List Char} (hw : Form first w)
    {c later : Cursor} (h : c.Reads w later) (hclose : later.rest.head? = some '>') :
    ∃ name, readElements? first c = some (name, later) ∧ (w ≠ [] → name ≠ []) := by
  -- a surrogate pair takes two elements of the form, so the induction is on the length
  induction hn : w.length using Nat.strongRecOn generalizing first w c with
  | ind n ih =>
    subst hn
    cases hw with
    | nil =>
      obtain rfl := h.unique (.refl c)
      refine ⟨[], ?_, fun hne => absurd rfl hne⟩
      rw [readElements?, if_pos hclose]
    | @char _ x w hx hw =>
      obtain ⟨next, hread, hrest⟩ := Cursor.reads_cons_iff.mp h
      obtain rfl := hread.eq_next
      obtain ⟨name, hname, -⟩ := ih w.length (by simp) hw hrest rfl
      have hne : c.rest.head? ≠ some '>' := by
        rw [hread.1]
        simpa using ne_close_of_allows hx
      refine ⟨x :: name, ?_, fun _ => List.cons_ne_nil _ _⟩
      rw [readElements?_of_element hne (readElement?_of_allows hread.1 hx), hname]
      rfl
    | @escape _ p u w hp hw =>
      obtain ⟨middle, hread, hrest⟩ := Cursor.reads_append_iff.mp h
      have hne : c.rest.head? ≠ some '>' := by
        simp [hread.1]
      have helement : readElement? first c = readEscaped? c := readElement?_of_backslash hread.1
      rcases readEscaped?_of_readCode? (readCode?_of_form hp hread) with
        ⟨x, hx⟩ | ⟨x, n, stop, hcode, hx⟩
      -- the escape is an element by itself
      · have hlt : w.length < ('\\' :: u ++ w).length := by
          rw [List.length_append, List.length_cons]
          omega
        obtain ⟨name, hname, -⟩ := ih w.length hlt hw hrest rfl
        refine ⟨x :: name, ?_, fun _ => List.cons_ne_nil _ _⟩
        rw [readElements?_of_element hne (helement.trans hx), hname]
        rfl
      -- it is the first half of a pair, so the form goes on with another escape
      · cases hw with
        | nil =>
          obtain rfl := hrest.unique (.refl middle)
          rw [readCode?_eq_none (by rw [hclose]; decide)] at hcode
          cases hcode
        | @char _ y w hy hw =>
          have hhead : middle.rest.head? ≠ some '\\' := by
            rw [hrest.1]
            simpa using ne_backslash_of_allows hy
          rw [readCode?_eq_none hhead] at hcode
          cases hcode
        | @escape _ q v w hq hw =>
          obtain ⟨after, hread, hrest⟩ := Cursor.reads_append_iff.mp hrest
          rw [readCode?_of_form hq hread] at hcode
          cases hcode
          have hlt : w.length < ('\\' :: u ++ ('\\' :: v ++ w)).length := by
            rw [List.length_append, List.length_append, List.length_cons]
            omega
          obtain ⟨name, hname, -⟩ := ih w.length hlt hw hrest rfl
          refine ⟨x :: name, ?_, fun _ => List.cons_ne_nil _ _⟩
          rw [readElements?_of_element hne (helement.trans hx), hname]
          rfl

/-- A name that `read?` reads is written in a `Form` of names and stands before a closing
bracket. -/
theorem form_of_read? {c later : Cursor} {name : GroupName}
    (h : read? c = some (name, later)) :
    ∃ w, w ≠ [] ∧ Form true w ∧ c.Reads w later ∧ later.rest.head? = some '>' ∧
      name.span = c.spanTo later := by
  simp only [read?, Option.bind_eq_bind, Option.bind_eq_some_iff, Prod.exists] at h
  obtain ⟨chars, stop, hchars, h⟩ := h
  obtain ⟨w, hw, hread, hempty⟩ := form_of_readElements? hchars
  have hclose := head_of_readElements? hchars
  split at h
  · cases h
  · rename_i hne
    cases h
    exact ⟨w, fun hw => hne (hempty hw), hw, hread, hclose, rfl⟩

/-- A name is read by `read?` where a `Form` of it stands before a closing bracket. -/
theorem read?_of_form {w : List Char} (hne : w ≠ []) (hw : Form true w) {c later : Cursor}
    (h : c.Reads w later) (hclose : later.rest.head? = some '>') :
    ∃ name, read? c = some (name, later) := by
  obtain ⟨chars, hchars, hnonempty⟩ := readElements?_of_form hw h hclose
  exact ⟨_, by simp [read?, hchars, hnonempty hne]; rfl⟩

/-- The texts that are left behind where a name is malformed: up to a closing bracket, or the name
characters that stand there. -/
inductive Region : List Char → Prop where
  /-- Nothing before the closing bracket has a meaning of its own, but for backslashes. -/
  | closed {v : List Char} (hv : ∀ y ∈ v, Cursor.isSkippable '>' true y = true) :
      Region (v ++ ['>'])
  /-- Name characters. -/
  | chars {v : List Char} (hv : ∀ y ∈ v, isGroupNameContinue y = true) : Region v

/-- What `recover` leaves behind of a malformed name is a `Region`. -/
theorem region_of_recover (c : Cursor) : ∃ w, Region w ∧ c.Reads w (recover c) := by
  unfold recover Cursor.recover
  cases hcloser : c.pastCloser? '>' true with
  | none => exact ⟨_, .chars fun y hy => Cursor.of_mem_run hy, Cursor.reads_run _ c⟩
  | some later =>
    have hskip := Cursor.reads_run (Cursor.isSkippable '>' true) c
    exact ⟨_, .closed fun y hy => Cursor.of_mem_run hy,
      hskip.trans (Cursor.reads_of_accept? hcloser)⟩

end GroupName

/-! ## References by name -/

namespace Backreference

/-- What a reference by name turns out to be, form by form. -/
inductive Takes (c later : Cursor) : Except Invalid Backreference → Prop where
  /-- A name in angle brackets. -/
  | named {w : List Char} {name : GroupName} {inside stop : Cursor}
      (hopen : c.Reads ['\\', 'k', '<'] inside) (hne : w ≠ []) (hw : GroupName.Form true w)
      (hread : inside.Reads w stop) (hclose : stop.Reads ['>'] later)
      (hspan : name.span = inside.spanTo stop) :
      Takes c later (.ok (.named (c.spanTo later) name))
  /-- No opening bracket after the letter. -/
  | bare (hread : c.Reads ['\\', 'k'] later) :
      Takes c later (.error ⟨c.spanTo later, .badBackreference⟩)
  /-- No name between the brackets. -/
  | malformed {w : List Char} {inside : Cursor} (hopen : c.Reads ['\\', 'k', '<'] inside)
      (hw : GroupName.Region w) (hread : inside.Reads w later) :
      Takes c later (.error ⟨c.spanTo later, .badBackreference⟩)

/-- A reference by name begins with a backslash and its letter. -/
theorem Takes.reads {c later : Cursor} {r : Except Invalid Backreference} (h : Takes c later r) :
    ∃ w, c.Reads ('\\' :: 'k' :: w) later := by
  cases h with
  | named hopen hne hw hread hclose => exact ⟨_, (hopen.trans hread).trans hclose⟩
  | bare hread => exact ⟨_, hread⟩
  | malformed hopen hw hread => exact ⟨_, hopen.trans hread⟩

/-- A reference by name is read by `readNamed` as one of the forms. -/
theorem takes_readNamed {c body : Cursor} (h : c.Reads ['\\', 'k'] body) :
    Takes c (readNamed c body).2 (readNamed c body).1 := by
  unfold readNamed
  split
  · exact .bare h
  · rename_i inside hbracket
    have hopen := h.trans (Cursor.reads_of_accept? hbracket)
    split
    · rename_i name stop hread
      obtain ⟨w, hne, hw, hreads, hclose, hspan⟩ := GroupName.form_of_read? hread
      obtain ⟨t, ht⟩ := List.head?_eq_some_iff.mp hclose
      exact .named hopen hne hw hreads (Cursor.reads_next ht) hspan
    · obtain ⟨w, hw, hreads⟩ := GroupName.region_of_recover inside
      exact .malformed hopen hw hreads

end Backreference

/-! ## Openings of groups -/

namespace GroupKind

/-- What an identifier of a `GroupKind` turns out to be, form by form. -/
inductive Takes (c later : Cursor) : GroupKind → Prop where
  /-- One of the fixed identifiers. -/
  | plain {word : List Char} {kind : Span → GroupKind} (hword : (word, kind) ∈ identifiers)
      (hread : c.Reads word later) : Takes c later (kind (c.spanTo later))
  /-- A name in angle brackets. -/
  | named {w : List Char} {name : GroupName} {inside stop : Cursor}
      (hopen : c.Reads ['?', '<'] inside) (hne : w ≠ []) (hw : GroupName.Form true w)
      (hread : inside.Reads w stop) (hclose : stop.Reads ['>'] later)
      (hspan : name.span = inside.spanTo stop) :
      Takes c later (.named (c.spanTo later) name)
  /-- No name between the brackets. -/
  | badName {w : List Char} {inside : Cursor} (hopen : c.Reads ['?', '<'] inside)
      (hw : GroupName.Region w) (hread : inside.Reads w later) :
      Takes c later (.malformed ⟨c.spanTo later, .badGroupName⟩)
  /-- A question mark that begins no identifier. -/
  | unknown (hread : c.Reads ['?'] later) :
      Takes c later (.malformed ⟨c.spanTo later, .unknownConstruct⟩)

/-- The fixed `identifiers`, one by one. -/
theorem eq_of_mem_identifiers {word : List Char} {kind : Span → GroupKind}
    (h : (word, kind) ∈ identifiers) :
    (word = ['?', '<', '='] ∧ kind = lookbehind) ∨
      (word = ['?', '<', '!'] ∧ kind = negativeLookbehind) ∨
        (word = ['?', ':'] ∧ kind = nonCapturing) ∨ (word = ['?', '='] ∧ kind = lookahead) ∨
          (word = ['?', '!'] ∧ kind = negativeLookahead) := by
  simpa only [identifiers, List.mem_cons, Prod.mk.injEq, List.not_mem_nil, or_false] using h

/-- The fixed `identifiers` begin with a question mark. -/
theorem exists_of_mem_identifiers {word : List Char} {kind : Span → GroupKind}
    (h : (word, kind) ∈ identifiers) : ∃ w, word = '?' :: w := by
  rcases eq_of_mem_identifiers h with
    ⟨rfl, -⟩ | ⟨rfl, -⟩ | ⟨rfl, -⟩ | ⟨rfl, -⟩ | ⟨rfl, -⟩ <;> exact ⟨_, rfl⟩

/-- An identifier begins with a question mark. -/
theorem Takes.reads {c later : Cursor} {kind : GroupKind} (h : Takes c later kind) :
    ∃ w, c.Reads ('?' :: w) later := by
  cases h with
  | plain hword hread =>
    obtain ⟨w, rfl⟩ := exists_of_mem_identifiers hword
    exact ⟨w, hread⟩
  | named hopen hne hw hread hclose => exact ⟨_, (hopen.trans hread).trans hclose⟩
  | badName hopen hw hread => exact ⟨_, hopen.trans hread⟩
  | unknown hread => exact ⟨_, hread⟩

/-- An identifier is read by `readIdentifier` as one of the forms. -/
theorem takes_readIdentifier {c : Cursor} {t : List Char} (h : c.rest = '?' :: t) :
    Takes c (readIdentifier c).2 (readIdentifier c).1 := by
  unfold readIdentifier
  split
  · rename_i result hplain
    obtain ⟨⟨word, kind⟩, hword, hread⟩ := List.exists_of_findSome?_eq_some hplain
    obtain ⟨later, hlater, rfl⟩ := Option.map_eq_some_iff.mp hread
    exact .plain hword (Cursor.reads_of_acceptAll? hlater)
  · split
    · rename_i inside hinside
      have hopen := Cursor.reads_of_acceptAll? hinside
      unfold readNamed
      split
      · rename_i name stop hread
        obtain ⟨w, hne, hw, hreads, hclose, hspan⟩ := GroupName.form_of_read? hread
        obtain ⟨u, hu⟩ := List.head?_eq_some_iff.mp hclose
        exact .named hopen hne hw hreads (Cursor.reads_next hu) hspan
      · obtain ⟨w, hw, hreads⟩ := GroupName.region_of_recover inside
        exact .badName hopen hw hreads
    · exact .unknown (Cursor.reads_next h)

/-- The fixed `identifiers` stand where their kinds say. -/
theorem identifier_of_mem {word : List Char} {kind : Span → GroupKind}
    (h : (word, kind) ∈ identifiers) (s : Span) : (kind s).identifier = some s := by
  rcases eq_of_mem_identifiers h with ⟨-, rfl⟩ | ⟨-, rfl⟩ | ⟨-, rfl⟩ | ⟨-, rfl⟩ | ⟨-, rfl⟩ <;> rfl

/-- An identifier stands between the places where it is read. -/
theorem Takes.identifier_eq {c later : Cursor} {kind : GroupKind} (h : Takes c later kind) :
    kind.identifier = some (c.spanTo later) := by
  cases h with
  | plain hword => exact identifier_of_mem hword _
  | named => rfl
  | badName => rfl
  | unknown => rfl

end GroupKind

namespace GroupOpening

/-- What the opening of a group turns out to be, form by form. -/
inductive Takes (c later : Cursor) : GroupOpening → Prop where
  /-- A parenthesis alone. -/
  | anonymous (hread : c.Reads ['('] later) (hnext : later.rest.head? ≠ some '?') :
      Takes c later ⟨c.spanTo later, .anonymous⟩
  /-- A parenthesis and an identifier. -/
  | identified {kind : GroupKind} {inside : Cursor} (hopen : c.Reads ['('] inside)
      (hkind : GroupKind.Takes inside later kind) : Takes c later ⟨c.spanTo inside, kind⟩

/-- An opening begins with its parenthesis. -/
theorem Takes.reads {c later : Cursor} {o : GroupOpening} (h : Takes c later o) :
    ∃ w, c.Reads ('(' :: w) later := by
  cases h with
  | anonymous hread => exact ⟨_, hread⟩
  | identified hopen hkind =>
    obtain ⟨w, hw⟩ := hkind.reads
    exact ⟨_, hopen.trans hw⟩

/-- An opening is read by `GroupOpening.read` as one of the forms. -/
theorem takes_read {c : Cursor} {t : List Char} (h : c.rest = '(' :: t) :
    Takes c (read c).2 (read c).1 := by
  have hopen := Cursor.reads_next h
  unfold read
  dsimp only
  split
  · rename_i hmark
    obtain ⟨u, hu⟩ := List.head?_eq_some_iff.mp hmark
    exact .identified hopen (GroupKind.takes_readIdentifier hu)
  · rename_i hmark
    exact .anonymous hopen hmark

/-- An opening begins with its parenthesis. -/
theorem Takes.start_eq {c later : Cursor} {o : GroupOpening} (h : Takes c later o) :
    o.parenthesis.start = c.pos := by
  cases h with
  | anonymous => rfl
  | identified => rfl

/-- An opening ends with its identifier, if it has one. -/
theorem Takes.stop_eq {c later : Cursor} {o : GroupOpening} (h : Takes c later o) :
    o.stop = later.pos := by
  cases h with
  | anonymous => rfl
  | identified hopen hkind => rw [GroupOpening.stop, hkind.identifier_eq]; rfl

end GroupOpening

end RegexTree
