import RegexTree.Proofs.Nesting

/-! # Spans of typed trees
Every `Span` that a typed tree holds or computes, part by part. Terms and everything in them but the
bodies of groups take at least one character; alternatives and disjunctions may be empty. The main
statement, `Derives.marks`, says that the spans of a derivation mark parts of what is read. -/

namespace RegexTree

/-! ## The spans of a part -/

/-- The spans of a property: its words and the equals sign. -/
def UnicodeProperty.spans (p : UnicodeProperty) : List Span :=
  (p.name.map fun n => [n.token.span, n.operator]).getD [] ++ [p.value.span]

/-- The spans of an escaped set of characters. -/
def ClassEscape.spans (e : ClassEscape) : List Span :=
  match e.kind with
  | .predefined _ => [e.span]
  | .property p => e.span :: p.spans

/-- The spans of a backslash sequence. -/
def Escaped.spans : Escaped → List Span
  | .character e => [e.span]
  | .set e => e.spans
  | .invalid i => [i.span]

/-- The spans of an atom of a class. -/
def ClassAtom.spans : ClassAtom → List Span
  | .literal span _ => [span]
  | .escape e => [e.span]
  | .classEscape e => e.spans
  | .invalid i => [i.span]

/-- As an atom of a class, by `ofEscaped`, a backslash sequence has the spans that it has on its
own. -/
theorem ClassAtom.spans_ofEscaped (e : Escaped) : (ofEscaped e).spans = e.spans := by
  cases e <;> rfl

/-- The spans of a member of a class. -/
def ClassMember.spans : ClassMember → List Span
  | .atom a => a.spans
  | .range r => r.span :: (r.low.spans ++ r.delimiter :: r.high.spans)

/-- The spans of a class. -/
def CharacterClass.spans (c : CharacterClass) : List Span :=
  c.span :: c.opening :: (c.negation.toList ++ (c.members.flatMap (·.spans) ++ c.closing.toList))

/-- The spans of a reference. -/
def Backreference.spans : Backreference → List Span
  | .numeric span _ => [span]
  | .named span name => [span, name.span]

/-- The spans of an atom. -/
def Atom.spans : Atom → List Span
  | .literal span _ => [span]
  | .anyCharacter span => [span]
  | .assertion span _ => [span]
  | .escape e => [e.span]
  | .classEscape e => e.spans
  | .characterClass c => c.spans
  | .backreference b => b.spans
  | .invalid i => [i.span]

/-- As an atom, by `ofEscaped`, a backslash sequence has the spans that it has on its own. -/
theorem Atom.spans_ofEscaped (e : Escaped) : (ofEscaped e).spans = e.spans := by
  cases e <;> rfl

/-- The spans of what follows a lower bound. -/
def UpperPart.spans (u : UpperPart) : List Span := u.delimiter :: (u.max.map (·.span)).toList

/-- The spans of a count. -/
def Count.spans (c : Count) : List Span := c.min.span :: (c.upper.map (·.spans)).getD []

/-- The spans of a quantifier. -/
def Quantifier.spans (q : Quantifier) : List Span :=
  q.span :: q.operator :: ((match q.kind with | .count c => c.spans | _ => []) ++
    q.lazyMark.toList)

/-- The name of a group, if it has one. -/
def GroupKind.name? : GroupKind → Option GroupName
  | .named _ name => some name
  | _ => none

/-- The spans of the kind of a group: its identifier and its name. -/
def GroupKind.spans (kind : GroupKind) : List Span :=
  kind.identifier.toList ++ (kind.name?.map (·.span)).toList

/-- The spans of an element, without the body of a group. -/
def Element.spans : Element → List Span
  | .atom a => a.spans
  | .group g => g.span :: g.opening.parenthesis :: (g.opening.kind.spans ++ g.closing.toList)

/-- The spans of a term, without the body of a group. -/
def Term.spans (t : Term) : List Span :=
  t.span :: (t.element.spans ++ (t.quantifier.map (·.spans)).getD [])

/-- The spans of a disjunction and its alternatives, which may be empty. -/
def Disjunction.openSpans (d : Disjunction) : List Span :=
  d.span :: d.alternatives.map (·.span)

/-- The spans of a disjunction that are never empty: those of its bars and terms. -/
def Disjunction.solidSpans (d : Disjunction) : List Span :=
  d.bars ++ (d.alternatives.flatMap (·.terms)).flatMap (·.spans)

/-! ## Spans that mark a text -/

/-- A span marks a text between two places that is not empty. -/
def Span.Marks (c later : Cursor) (s : Span) : Prop :=
  ∃ a b, c.Reaches a ∧ a.Reaches b ∧ a.pos < b.pos ∧ b.Reaches later ∧ s = a.spanTo b

namespace Span.Marks

variable {c mid later : Cursor} {s : Span}

/-- A span that `Marks` a text between two places does so between earlier and later ones. -/
protected theorem mono {before after : Cursor} (hc : before.Reaches c) (hl : later.Reaches after)
    (h : s.Marks c later) : s.Marks before after := by
  obtain ⟨a, b, ha, hab, hlt, hb, rfl⟩ := h
  exact ⟨a, b, hc.trans ha, hab, hlt, hb.trans hl, rfl⟩

/-- The span of a part that begins with some character marks the part. -/
theorem of_beginning {x : Char} {w : List Char} (h : c.Reads (x :: w) mid)
    (hl : mid.Reaches later) : (c.spanTo later).Marks c later := by
  have hpos := byteLength_pos (List.cons_ne_nil x w)
  have hmid : mid.pos = c.pos + byteLength (x :: w) := h.2
  have hle := hl.pos_le
  exact ⟨c, later, .refl c, h.reaches.trans hl, by omega, .refl later, rfl⟩

/-- The span from one place to a later one marks the text between them. -/
theorem of_reads {x : Char} {w : List Char} (h : c.Reads (x :: w) later) :
    (c.spanTo later).Marks c later := of_beginning h (.refl later)

/-- The span of a text that is not empty marks this text. -/
theorem of_word {word : List Char} (h : c.Reads word later) (hne : word ≠ []) :
    (c.spanTo later).Marks c later := by
  obtain ⟨x, w, rfl⟩ := List.exists_cons_of_ne_nil hne
  exact of_reads h

/-- What `Marks` a text lies `Span.Between` the two places. -/
theorem between (h : s.Marks c later) : s.Between c later := by
  obtain ⟨a, b, ha, hab, -, hb, rfl⟩ := h
  exact ⟨a, b, ha, hab, hb, rfl⟩

/-- What `Marks` a text has bytes. -/
theorem start_lt (h : s.Marks c later) : s.start < s.stop := by
  obtain ⟨a, b, -, -, hlt, -, rfl⟩ := h
  exact hlt

end Span.Marks

/-- All of some spans mark texts between two places. -/
def Span.AllMark (c later : Cursor) (ss : List Span) : Prop := ∀ s ∈ ss, s.Marks c later

namespace Span.AllMark

variable {c mid later : Cursor} {s : Span} {ss ts : List Span}

/-- No spans are to be looked at. -/
protected theorem nil : AllMark c later [] := List.forall_mem_nil _

/-- One span more marks a text. -/
protected theorem cons (hs : s.Marks c later) (hss : AllMark c later ss) :
    AllMark c later (s :: ss) := List.forall_mem_cons.mpr ⟨hs, hss⟩

/-- The spans of two lists mark texts. -/
protected theorem append (hss : AllMark c later ss) (hts : AllMark c later ts) :
    AllMark c later (ss ++ ts) := List.forall_mem_append.mpr ⟨hss, hts⟩

/-- One span marks a text. -/
protected theorem single (hs : s.Marks c later) : AllMark c later [s] := .cons hs .nil

/-- Spans that `AllMark` texts between two places do so between earlier and later ones. -/
protected theorem mono {before after : Cursor} (hc : before.Reaches c) (hl : later.Reaches after)
    (h : AllMark c later ss) : AllMark before after ss := fun s hs => (h s hs).mono hc hl

/-- What two parts in a row mark, by `mono` and `append`. -/
protected theorem seq (hc : c.Reaches mid) (hl : mid.Reaches later) (hss : AllMark c mid ss)
    (hts : AllMark mid later ts) : AllMark c later (ss ++ ts) :=
  (hss.mono (.refl c) hl).append (hts.mono hc (.refl later))

end Span.AllMark

/-! ## The spans of each part mark what was read for it -/

section Parts

variable {c later : Cursor}

/-- The spans of a `UnicodeProperty` mark what stands between its braces. -/
theorem UnicodeProperty.Form.marks {negated : Bool} {p : UnicodeProperty}
    (h : Form negated c later p) : Span.AllMark c later p.spans := by
  cases h with
  | value hword hread => exact .single (.of_word hread hword.1)
  | named hname hreadName hoperator hword hread =>
    exact .cons ((Span.Marks.of_word hreadName hname.1).mono (.refl c)
        (hoperator.trans hread).reaches)
      (.cons ((Span.Marks.of_reads hoperator).mono hreadName.reaches hread.reaches)
        (.single ((Span.Marks.of_word hread hword.1).mono (hreadName.trans hoperator).reaches
          (.refl later))))

/-- The spans of an `Escaped` mark texts in it. -/
theorem Escaped.Takes.marks {inClass : Bool} {e : Escaped} (h : Takes inClass c later e) :
    Span.AllMark c later e.spans := by
  cases h with
  | special hx hread => exact .single (.of_reads hread)
  | controlLetter hx hread => exact .single (.of_reads hread)
  | hexadecimal hlength hdigits hread => exact .single (.of_reads hread)
  | unicode hp hread => exact .single (.of_reads hread)
  | null hread hnext => exact .single (.of_reads hread)
  | identity hx hread => exact .single (.of_reads hread)
  | predefined hx hread => exact .single (.of_reads hread)
  | property hx hopen hp hclose =>
    exact .cons (.of_beginning hopen (hp.reaches.trans hclose.reaches))
      (hp.marks.mono hopen.reaches hclose.reaches)
  | lone hread hend => exact .single (.of_reads hread)
  | bad hw hread => exact .single (.of_reads hread)

/-- The spans of a `ClassAtom` mark texts in it. -/
theorem ClassAtom.Takes.marks {a : ClassAtom} (h : Takes c later a) :
    Span.AllMark c later a.spans := by
  cases h with
  | literal hx hclose hread => exact .single (.of_reads hread)
  | escaped he =>
    rw [spans_ofEscaped]
    exact he.marks

/-- An optional character marks itself. -/
theorem Cursor.Skips.marks {x : Char} {s : Option Span} (h : Cursor.Skips x c later s) :
    Span.AllMark c later s.toList := by
  cases h with
  | absent => exact .nil
  | present hread => exact .single (.of_reads hread)

/-- The spans of a `ClassMember` mark texts in it. -/
theorem ClassMember.Takes.marks {m : ClassMember} (h : Takes c later m) :
    Span.AllMark c later m.spans := by
  cases h with
  | atom ha => exact ha.marks
  | range hlow hdash hhigh =>
    -- a range has no span of its own: it goes from its lower to its upper end
    have hwhole := (ClassMember.Takes.range hlow hdash hhigh).span_eq
    obtain ⟨x, w, hread⟩ := hlow.reads
    obtain ⟨y, v, hreadHigh⟩ := hhigh.reads
    have hl := hdash.reaches.trans hreadHigh.reaches
    rw [spans]
    rw [span] at hwhole
    rw [hwhole]
    exact .cons (.of_beginning hread hl)
      (.seq hread.reaches hl hlow.marks
        (.cons ((Span.Marks.of_reads hdash).mono (.refl _) hreadHigh.reaches)
          (hhigh.marks.mono hdash.reaches (.refl later))))

/-- The spans of members mark texts in them. -/
theorem CharacterClass.Members.marks {ms : List ClassMember} (h : Members c ms later) :
    Span.AllMark c later (ms.flatMap (·.spans)) := by
  induction h with
  | nil => exact .nil
  | cons hm hms ih =>
    obtain ⟨x, w, hread⟩ := hm.reads
    exact .seq hread.reaches hms.reaches hm.marks ih

/-- The spans of a `CharacterClass` mark texts in it. -/
theorem CharacterClass.Takes.marks {s : CharacterClass} (h : Takes c later s) :
    Span.AllMark c later s.spans := by
  obtain ⟨hopen, hnegation, hmembers, hclosing, -⟩ := h
  -- the opening bracket begins the class, and all other parts stand one after the other behind it
  have hrest := hmembers.reaches.trans hclosing.reaches
  have hinside := hnegation.reaches.trans hrest
  exact .cons (.of_beginning hopen hinside)
    (.cons ((Span.Marks.of_reads hopen).mono (.refl c) hinside)
      ((Span.AllMark.seq hnegation.reaches hrest hnegation.marks
        (.seq hmembers.reaches hclosing.reaches hmembers.marks hclosing.marks)).mono hopen.reaches
          (.refl later)))

/-- The spans of a reference by name, or of what is left of one, mark texts in it. -/
theorem Backreference.Takes.marks {r : Except Invalid Backreference} (h : Takes c later r) :
    Span.AllMark c later (Atom.ofReference r).spans := by
  cases h with
  | named hopen hne hw hread hclose hspan =>
    refine .cons (.of_beginning hopen (hread.trans hclose).reaches) (.single ?_)
    rw [hspan]
    exact (Span.Marks.of_word hread hne).mono hopen.reaches hclose.reaches
  | bare hread => exact .single (.of_reads hread)
  | malformed hopen hw hread => exact .single (.of_beginning hopen hread.reaches)

/-- The spans of an `Atom` mark texts in it. -/
theorem Atom.Takes.marks {a : Atom} (h : Takes c later a) : Span.AllMark c later a.spans := by
  cases h with
  | literal hx hread => exact .single (.of_reads hread)
  | anyCharacter hread => exact .single (.of_reads hread)
  | atStart hread => exact .single (.of_reads hread)
  | atEnd hread => exact .single (.of_reads hread)
  | boundary hx hread => exact .single (.of_reads hread)
  | numeric hd hzero hdigits hread hnext => exact .single (.of_reads hread)
  | reference hr => exact hr.marks
  | escaped he =>
    rw [spans_ofEscaped]
    exact he.marks
  | characterClass hs => exact hs.marks
  | stray hx hread => exact .single (.of_reads hread)

/-- The spans of a `Count` mark texts in it. -/
theorem Count.Takes.marks {count : Count} (h : Takes c later count) :
    Span.AllMark c later count.spans := by
  obtain ⟨hopen, hdigits, hread, hupper, hclose⟩ := h
  refine .cons ((Span.Marks.of_word hread hdigits.1).mono hopen.reaches
    (hupper.reaches.trans hclose.reaches)) ?_
  refine Span.AllMark.mono (hopen.trans hread).reaches hclose.reaches ?_
  cases hupper with
  | none => exact .nil
  | comma hread => exact .single (.of_reads hread)
  | bound hcomma hdigits hread =>
    exact .cons ((Span.Marks.of_reads hcomma).mono (.refl _) hread.reaches)
      (.single ((Span.Marks.of_word hread hdigits.1).mono hcomma.reaches (.refl _)))

/-- The spans of a `Quantifier` mark texts in it. -/
theorem Quantifier.Takes.marks {q : Quantifier} (h : Takes c later q) :
    Span.AllMark c later q.spans := by
  have hwhole := h.span_eq
  obtain ⟨x, w, -, hread⟩ := h.reads
  obtain @⟨kind, mark, middle, hkind, hmark⟩ := h
  obtain ⟨y, v, -, hreadKind⟩ := hkind.reads
  rw [spans, hwhole]
  refine .cons (.of_reads hread)
    (.cons ((Span.Marks.of_reads hreadKind).mono (.refl c) hmark.reaches)
      (.seq hreadKind.reaches hmark.reaches ?_ hmark.marks))
  -- only counts hold spans below their operator
  cases hkind with
  | count hcount => exact hcount.marks
  | _ => exact .nil

/-- The spans of a quantifier that may follow mark texts in it. -/
theorem Quantifier.Follows.marks {q : Option Quantifier} (h : Follows c later q) :
    Span.AllMark c later ((q.map (·.spans)).getD []) := by
  cases h with
  | absent => exact .nil
  | present hq => exact hq.marks

/-- The spans of an identifier mark texts in it. -/
theorem GroupKind.Takes.marks {kind : GroupKind} (h : Takes c later kind) :
    Span.AllMark c later kind.spans := by
  obtain ⟨w, hread⟩ := h.reads
  rw [spans, h.identifier_eq]
  refine .cons (.of_reads hread) ?_
  cases h with
  | plain hword =>
    rcases eq_of_mem_identifiers hword with
      ⟨-, rfl⟩ | ⟨-, rfl⟩ | ⟨-, rfl⟩ | ⟨-, rfl⟩ | ⟨-, rfl⟩ <;> exact .nil
  | @named w name inside stop hopen hne hw hread hclose hspan =>
    have hname : name.span.Marks c later := by
      rw [hspan]
      exact (Span.Marks.of_word hread hne).mono hopen.reaches hclose.reaches
    exact .single hname
  | badName => exact .nil
  | unknown => exact .nil

/-- The spans of a `GroupOpening` mark texts in it. -/
theorem GroupOpening.Takes.marks {o : GroupOpening} (h : Takes c later o) :
    Span.AllMark c later (o.parenthesis :: o.kind.spans) := by
  cases h with
  | anonymous hread => exact .single (.of_reads hread)
  | identified hopen hkind =>
    obtain ⟨w, hread⟩ := hkind.reads
    exact .cons ((Span.Marks.of_reads hopen).mono (.refl c) hread.reaches)
      (hkind.marks.mono hopen.reaches (.refl later))

/-! ## Terms -/

/-- A `Term` stands where its element and its quantifier were read. -/
theorem Term.span_eq {mid : Cursor} {element : Element} {q : Option Quantifier}
    (hmid : c.Reaches mid) (helement : element.span = c.spanTo mid)
    (hq : Quantifier.Follows mid later q) : Term.span ⟨element, q⟩ = c.spanTo later := by
  have hreach := hq.reaches
  cases hq with
  | absent => exact helement
  | @present _ q hq =>
    show element.span.cover q.span = c.spanTo later
    rw [helement, hq.span_eq]
    exact hmid.cover_spanTo (.refl mid) hreach

/-- The spans of a term mark texts in it if those of its element do. -/
theorem Term.marks {x : Char} {w : List Char} {mid : Cursor} {element : Element}
    {q : Option Quantifier} (hread : c.Reads (x :: w) mid)
    (hspan : element.span = c.spanTo mid) (helement : Span.AllMark c mid element.spans)
    (hq : Quantifier.Follows mid later q) :
    Span.AllMark c later (Term.spans ⟨element, q⟩) := by
  rw [Term.spans, Term.span_eq hread.reaches hspan hq]
  exact .cons (.of_beginning hread hq.reaches)
    (.seq hread.reaches hq.reaches helement hq.marks)

/-- The spans of a term without a group mark texts in it. -/
theorem Term.Takes.marks {nested first : Bool} {t : Term} (h : Takes nested first c later t) :
    Span.AllMark c later t.spans := by
  cases h with
  | atom ha hq =>
    obtain ⟨x, w, hread⟩ := ha.reads
    exact Term.marks hread ha.span_eq ha.marks hq
  | strayClosing houtside hread hq => exact Term.marks hread rfl (.single (.of_reads hread)) hq
  | strayQuantifier hq =>
    obtain ⟨x, w, -, hread⟩ := hq.reads
    exact .cons (.of_reads hread) (.single (.of_reads hread))
  | malformedCount hw hread =>
    rcases hread with hread | hread
    · exact .cons (.of_reads hread) (.single (.of_reads hread))
    · exact .cons (.of_reads hread) (.single (.of_reads hread))
  | brace hread => exact .cons (.of_reads hread) (.single (.of_reads hread))

end Parts

/-! ## Derivations -/

namespace Derives

variable {nested first : Bool} {c mid later : Cursor} {terms : List Term} {others : List Branch}

/-- The spans of a group and its quantifier mark texts in the group. -/
theorem marks_group {inside innerMid bodyEnd close next : Cursor} {o : GroupOpening}
    {innerTerms : List Term} {innerOthers : List Branch} {closing : Option Span}
    {q : Option Quantifier} {body : Disjunction} (ho : GroupOpening.Takes c inside o)
    (hbody : Derives true true inside innerTerms innerMid innerOthers bodyEnd)
    (hclose : Closes bodyEnd close closing next q) :
    Span.AllMark c next (Term.spans ⟨.group ⟨c.spanTo close, o, body, closing⟩, q⟩) := by
  have hinside := hbody.reaches_later
  obtain ⟨w, hopen⟩ := ho.reads
  obtain ⟨v, hrest⟩ := hinside.trans hclose.reaches_close
  have hgroup := hopen.trans hrest
  have hclosing : Span.AllMark bodyEnd close closing.toList := by
    cases hclose with
    | closed hclose => exact .single (.of_reads hclose)
    | missing => exact .nil
  have hfollows : Quantifier.Follows close next q := by
    cases hclose with
    | closed hclose hq => exact hq
    | missing hend =>
      -- the input has ended, so no quantifier stands there
      refine .absent fun later q hq => ?_
      obtain ⟨x, w, -, hread⟩ := hq.reads
      rw [hread.1] at hend
      cases hend
  refine Term.marks hgroup rfl (.cons (.of_reads hgroup) ?_) hfollows
  exact Span.AllMark.append (ho.marks.mono (.refl c) (hinside.trans hclose.reaches_close))
    (hclosing.mono (hopen.reaches.trans hinside) (.refl close))

/-- The spans of the terms of the current alternative mark texts in what is derived, and so do the
further bars and the spans of the terms behind them. -/
theorem marks (h : Derives nested first c terms mid others later) :
    Span.AllMark c later (terms.flatMap (·.spans)) ∧
      Span.AllMark c later (others.map (·.bar)) ∧
        Span.AllMark c later ((others.flatMap (·.alternative.terms)).flatMap (·.spans)) := by
  induction h with
  | stop hend => exact ⟨.nil, .nil, .nil⟩
  | bar hbar hread hrest ih =>
    obtain ⟨hterms, hbars, hothers⟩ := ih
    have hl := hrest.reaches_later
    refine ⟨.nil, .cons ((Span.Marks.of_reads hbar).mono (.refl _) hl)
      (hbars.mono hbar.reaches (.refl _)), ?_⟩
    rw [List.flatMap_cons, List.flatMap_append]
    exact (hterms.append hothers).mono hbar.reaches (.refl _)
  | term hread hterm hrest ih =>
    obtain ⟨hterms, hbars, hothers⟩ := ih
    have hl := hrest.reaches_later
    exact ⟨.seq hread.reaches hl ((hread.takes_term hterm).marks) hterms,
      hbars.mono hread.reaches (.refl _), hothers.mono hread.reaches (.refl _)⟩
  | group ho hread hbody hclose hrest ihbody ih =>
    obtain ⟨hterms, hbars, hothers⟩ := ih
    have hl := hrest.reaches_later
    have hgroup := hread.reaches.trans (hbody.reaches_later.trans hclose.reaches)
    exact ⟨.seq hgroup hl (marks_group ho hbody hclose) hterms, hbars.mono hgroup (.refl _),
      hothers.mono hgroup (.refl _)⟩

/-- The further alternatives lie in what is derived, as `Span.Between` says. -/
theorem between_of_mem (h : Derives nested first c terms mid others later) :
    ∀ b ∈ others, b.alternative.span.Between c later := by
  induction h with
  | stop hend => nofun
  | bar hbar hread hrest ih =>
    intro b hb
    rcases List.mem_cons.mp hb with rfl | hb
    · exact (Span.Between.whole hrest.reaches.1).mono hbar.reaches hrest.reaches.2
    · exact (ih b hb).mono hbar.reaches (.refl _)
  | term hread hterm hrest ih => exact fun b hb => (ih b hb).mono hread.reaches (.refl _)
  | group ho hread hbody hclose hrest ihbody ih =>
    have hgroup := hread.reaches.trans (hbody.reaches_later.trans hclose.reaches)
    exact fun b hb => (ih b hb).mono hgroup (.refl _)

end Derives

end RegexTree
