import RegexTree.Proofs.Grammar.Soundness
import RegexTree.Proofs.Schema.Basic
import RegexTree.Proofs.Tiling.Parts

/-! # Parts of a pattern that fit the schema
The node of each part of the typed tree fits what may stand in its place: one of `Label.escaped`,
`Label.classAtoms`, `Label.units` or `Label.quantifiers`, or a range. What is read for a leaf is its
text, so the form of what was read is the form of the text. -/

namespace RegexTree

namespace Node.Fit

variable {source : String} {c later : Cursor}

/-! ## Tokens that may be missing -/

/-- A token that may be left out fits, whether it is there or not. -/
theorem skipped {x : Char} {s : Option Span} (kind : NodeKind)
    (hx : (kind, [x]) ∈ NodeKind.fixedTokens) (hc : (Cursor.ofString source).Reaches c)
    (h : Cursor.Skips x c later s) :
    Fit source (s.map (Node.leaf kind)).toList (Label.optional (Label.once (.node kind))) := by
  cases h with
  | absent => exact absent
  | present hread => exact present (fixed kind hx hc hread)

/-- A closing delimiter or the stand-in for a missing one fits. -/
theorem ofClosing {x : Char} {reason : Reason} {closing : Option Span} (kind : NodeKind)
    (hx : (kind, [x]) ∈ NodeKind.fixedTokens) (hreason : reason.Token [])
    (hc : (Cursor.ofString source).Reaches c) (h : Cursor.Skips x c later closing) :
    Fit source [Node.ofClosing kind reason later.pos closing]
      (Label.oneOf [.node kind, .invalid reason]) := by
  cases h with
  | absent =>
    exact (ofInvalid hc (.refl c) hreason).oneOf (List.mem_cons_of_mem _ List.mem_cons_self)
  | present hread => exact (fixed kind hx hc hread).oneOf List.mem_cons_self

/-! ## Escapes -/

/-- A fixed token and a code behind it fit in a row. -/
theorem code {kind : NodeKind} {start : Cursor} {token digits : List Char}
    (hkind : (kind.isOrdinary && kind.rule.rmatch []) = true) (htoken : token ∈ punctuationTokens)
    (hdigits : kind.Token digits) (hc : (Cursor.ofString source).Reaches c)
    (hopen : c.Reads token start) (hread : start.Reads digits later) :
    Fit source [Node.punctuation c.pos start.pos, Node.leaf kind (start.spanTo later)]
      (Label.once (.token token) * Label.once (.node kind)) :=
  (punctuation htoken hc hopen).cons (leaf hkind (hc.trans hopen.reaches) hread hdigits)

/-- The node of a code fits if the one with a node for each of its tokens does. -/
theorem ofCode (kind : NodeKind) {code : NodeKind} {start stop : Cursor} {token suffix : List Char}
    {P : RegularExpression Label} (htoken : c.Reads token start) (hsuffix : stop.Reads suffix later)
    (h : Fit source [Node.branch kind (c.spanTo later)
      ([Node.punctuation c.pos start.pos, Node.leaf code (start.spanTo stop)] ++
        if suffix = [] then [] else [Node.punctuation stop.pos later.pos])] P) :
    Fit source [Node.ofCode kind code (c.spanTo later) (byteLength token) (byteLength suffix)]
      P := by
  rw [ofCode_eq htoken hsuffix]
  exact h

/-- The node of a code point fits its kind. -/
theorem ofCodePoint {p : CodePoint} {w : List Char} (hp : CodePoint.Form p w)
    (hc : (Cursor.ofString source).Reaches c) (h : c.Reads ('\\' :: w) later) :
    Fit source [ofEscape ⟨c.spanTo later, .unicode p⟩] (Label.once (.node .unicodeEscape)) := by
  have hcode : NodeKind.unicodeEscape = .unicodeEscape →
      ∃ p w, CodePoint.Form p w ∧ ((c.spanTo later).textIn source).toList = '\\' :: w :=
    fun _ => ⟨p, w, hp, hc.toList_textIn h⟩
  cases hp with
  | @plain digits hlength hdigits =>
    obtain ⟨start, htoken, hread⟩ := (Cursor.reads_append_iff (s := ['\\', 'u'])).mp h
    have hne : digits ≠ [] := List.ne_nil_of_length_eq_add_one hlength
    have hchildren := code rfl (by decide) (.unicodeCode hne hdigits) hc htoken hread
    exact ofCode _ htoken (.refl later) (of_children hchildren.left (by decide)
      (fun hempty => absurd hempty (List.cons_ne_nil _ _)) hcode)
  | @braced digits hne hdigits hle =>
    obtain ⟨stop, hstop, hclose⟩ :=
      (Cursor.reads_append_iff (s := '\\' :: 'u' :: '{' :: digits)).mp h
    obtain ⟨start, htoken, hread⟩ := (Cursor.reads_append_iff (s := ['\\', 'u', '{'])).mp hstop
    have hinside := hc.trans htoken.reaches
    have hbehind := (leaf rfl hinside hread (.unicodeCode hne hdigits)).cons
      (punctuation (by decide) (hinside.trans hread.reaches) hclose)
    have hchildren := (punctuation (by decide) hc htoken).cons hbehind
    exact ofCode _ htoken hclose (of_children hchildren.right (by decide)
      (fun hempty => absurd hempty (List.cons_ne_nil _ _)) hcode)

/-- What stands between the braces of a property fits, and so does the closing brace. -/
theorem ofProperty {negated : Bool} {p : UnicodeProperty} {close : Cursor}
    (hp : UnicodeProperty.Form negated c close p) (hclose : close.Reads ['}'] later)
    (hc : (Cursor.ofString source).Reaches c) :
    Fit source (ofPropertyName p.name ++
        [Node.leaf .unicodePropertyValue p.value.span, Node.punctuation close.pos later.pos])
      (Label.optional
          (Label.once (.node .unicodePropertyName) * Label.once (.node .unicodePropertyOperator)) *
        (Label.once (.node .unicodePropertyValue) * Label.once (.token ['}']))) := by
  have hbrace : Fit source [Node.punctuation close.pos later.pos] (Label.once (.token ['}'])) :=
    punctuation (by decide) (hc.trans hp.reaches) hclose
  cases hp with
  | value hword hread =>
    exact absent.append ((leaf rfl hc hread (.unicodePropertyValue hword)).cons hbrace)
  | named hname hreadName hoperator hword hread =>
    have hafterName := hc.trans hreadName.reaches
    have hnamed := (leaf rfl hc hreadName (.unicodePropertyName hname)).cons
      (fixed .unicodePropertyOperator (by decide) hafterName hoperator)
    have hvalue := leaf rfl (hafterName.trans hoperator.reaches) hread (.unicodePropertyValue hword)
    exact (present hnamed).append (hvalue.cons hbrace)

/-- A character that may be escaped stands for itself behind the backslash. -/
theorem mem_of_isIdentityEscape {inClass : Bool} {x : Char}
    (hx : isIdentityEscape x = true ∨ inClass = true ∧ x = '-') :
    x ∈ '/' :: '-' :: syntaxChars := by
  rcases hx with hx | ⟨-, rfl⟩
  · simp only [isIdentityEscape, isSyntaxChar, Bool.or_eq_true, List.contains_iff_mem,
      beq_iff_eq] at hx
    rcases hx with hx | rfl
    · exact List.mem_cons_of_mem _ (List.mem_cons_of_mem _ hx)
    · exact List.mem_cons_self
  · exact List.mem_cons_of_mem _ List.mem_cons_self

/-- The node of an `Escaped` fits one of the labels of backslash sequences (`Label.escaped`). -/
theorem ofEscaped {inClass : Bool} {e : Escaped} (hc : (Cursor.ofString source).Reaches c)
    (h : Escaped.Takes inClass c later e) :
    Fit source [Node.ofEscaped e] (Label.oneOf Label.escaped) := by
  cases h with
  | special hx hread =>
    refine (leaf rfl hc hread (.specialEscape ?_)).oneOf (by decide)
    rcases hx with hx | ⟨-, rfl⟩
    · exact List.mem_append_left _ (List.contains_iff_mem.mp hx)
    · exact List.mem_append_right _ List.mem_cons_self
  | @controlLetter x hx hread =>
    obtain ⟨start, htoken, hcode⟩ := (Cursor.reads_append_iff (s := ['\\', 'c'])).mp hread
    have hchildren := code rfl (by decide) (.controlLetterCode hx) hc htoken hcode
    have hnode := ofCode .controlLetterEscape htoken (.refl later) (branch _ _ rfl hchildren)
    exact hnode.oneOf (by decide)
  | @hexadecimal digits hlength hdigits hread =>
    obtain ⟨start, htoken, hcode⟩ := (Cursor.reads_append_iff (s := ['\\', 'x'])).mp hread
    have hchildren := code rfl (by decide) (.hexadecimalCode hlength hdigits) hc htoken hcode
    have hnode := ofCode .hexadecimalEscape htoken (.refl later) (branch _ _ rfl hchildren)
    exact hnode.oneOf (by decide)
  | unicode hp hread => exact (ofCodePoint hp hc hread).oneOf (by decide)
  | null hread hnext =>
    exact (fixed .nullCharacter (by decide) hc hread).oneOf (by decide)
  | @identity x hx hread =>
    obtain ⟨start, hoperator, hchar⟩ := Cursor.reads_cons_iff.mp hread
    have hmem := mem_of_isIdentityEscape hx
    have htoken : Fit source [Node.punctuation start.pos later.pos]
        (Label.oneOf (('/' :: '-' :: syntaxChars).map fun y => .token [y])) :=
      (punctuation (List.mem_append_right _ (List.mem_map_of_mem hmem))
        (hc.trans hoperator.reaches) hchar).oneOf (List.mem_map.mpr ⟨x, hmem, rfl⟩)
    have hchildren := (fixed .escapeOperator (by decide) hc hoperator).cons htoken
    have hstart : c.pos + 1 = start.pos := hoperator.2.symm
    have hnode := branch .identityEscape (c.spanTo later) rfl hchildren
    simp only [Cursor.spanTo, ← hstart] at hnode
    exact hnode.oneOf (by decide)
  | predefined hx hread =>
    have htext := NodeKind.Token.characterClassEscape (List.contains_iff_mem.mp hx)
    exact (leaf rfl hc hread htext).oneOf (by decide)
  | @property x p inside close hx hopen hp hclose =>
    have hopening : Fit source [Node.punctuation c.pos inside.pos]
        (Label.oneOf [.token ['\\', 'p', '{'], .token ['\\', 'P', '{']]) := by
      rcases hx with rfl | rfl
      · exact (punctuation (by decide) hc hopen).oneOf (by decide)
      · exact (punctuation (by decide) hc hopen).oneOf (by decide)
    have hchildren := hopening.cons (ofProperty hp hclose (hc.trans hopen.reaches))
    have hnode := branch .characterClassEscape (c.spanTo later) rfl
      (present hchildren)
    -- the letter of a property is one of two, and either has one byte
    have hstart : c.pos + 3 = inside.pos := by
      rw [hopen.2]
      rcases hx with rfl | rfl <;> rfl
    have hstop : later.pos - 1 = close.pos := by rw [hclose.2]; rfl
    rw [← hstart, ← hstop] at hnode
    exact hnode.oneOf (by decide)
  | lone hread hend => exact (ofInvalid hc hread .loneBackslash).oneOf (by decide)
  | bad hw hread => exact (ofInvalid hc hread (.badEscape hw)).oneOf (by decide)

/-! ## Character classes -/

/-- The node of a `ClassAtom` fits one of `Label.classAtoms`. -/
theorem ofClassAtom {a : ClassAtom} (hc : (Cursor.ofString source).Reaches c)
    (h : ClassAtom.Takes c later a) :
    Fit source [Node.ofClassAtom a] (Label.oneOf Label.classAtoms) := by
  cases h with
  | literal hx hclose hread =>
    exact (leaf rfl hc hread (.classCharacter ⟨hclose, hx⟩)).oneOf (by decide)
  | escaped he =>
    rw [ofClassAtom_ofEscaped]
    exact (ofEscaped hc he).oneOf_of_subset (List.subset_cons_self _ _)

/-- The node of a `ClassMember` fits a range or one of the labels of atoms. -/
theorem ofClassMember {m : ClassMember} (hc : (Cursor.ofString source).Reaches c)
    (h : ClassMember.Takes c later m) :
    Fit source [Node.ofClassMember m]
      (Label.oneOf (.node .characterRange :: Label.classAtoms)) := by
  cases h with
  | atom ha => exact (ofClassAtom hc ha).oneOf_of_subset (List.subset_cons_self _ _)
  | @range low high dash afterDash hlow hdash hhigh =>
    obtain ⟨x, w, hread⟩ := hlow.reads
    have hatDash := hc.trans hread.reaches
    have hdelimiter := fixed .rangeDelimiter (by decide) hatDash hdash
    have hchildren := (ofClassAtom hc hlow).cons
      (hdelimiter.cons (ofClassAtom (hatDash.trans hdash.reaches) hhigh))
    exact (branch .characterRange _ rfl hchildren).oneOf (by decide)

/-- The nodes of members fit any number of members. -/
theorem map_ofClassMember {ms : List ClassMember} (hc : (Cursor.ofString source).Reaches c)
    (h : CharacterClass.Members c ms later) :
    Fit source (ms.map Node.ofClassMember)
      (.star (Label.oneOf (.node .characterRange :: Label.classAtoms))) := by
  induction h with
  | nil => exact star_nil
  | cons hm hms ih =>
    obtain ⟨x, w, hread⟩ := hm.reads
    exact (ofClassMember hc hm).star_append (ih (hc.trans hread.reaches))

/-- The node of a `CharacterClass` fits its kind. -/
theorem ofCharacterClass {s : CharacterClass} (hc : (Cursor.ofString source).Reaches c)
    (h : CharacterClass.Takes c later s) :
    Fit source [Node.ofCharacterClass s] (Label.once (.node .characterClass)) := by
  obtain ⟨hopen, hnegation, hmembers, hclosing, -⟩ := h
  have hinside := hc.trans hopen.reaches
  have hstart := hinside.trans hnegation.reaches
  have hbegin := fixed .setBegin (by decide) hc hopen
  have hmark := skipped .setNegation (by decide) hinside hnegation
  have hend := ofClosing .setEnd (by decide) .unterminatedClass
    (hstart.trans hmembers.reaches) hclosing
  have hchildren := hbegin.cons (hmark.append ((map_ofClassMember hstart hmembers).append hend))
  have hnode := branch .characterClass (c.spanTo later) rfl hchildren
  rw [← List.append_assoc] at hnode
  exact hnode

/-! ## Atoms -/

/-- A name between fixed tokens fits. -/
theorem name {start stop : Cursor} {token w : List Char} {name : GroupName}
    (htoken : token ∈ punctuationTokens) (hc : (Cursor.ofString source).Reaches c)
    (hopen : c.Reads token start) (hne : w ≠ []) (hw : GroupName.Form true w)
    (hread : start.Reads w stop) (hclose : stop.Reads ['>'] later)
    (hspan : name.span = start.spanTo stop) :
    Fit source [Node.punctuation c.pos name.span.start, Node.leaf .groupName name.span,
      Node.punctuation name.span.stop later.pos] (Label.named token) := by
  rw [hspan]
  have hstart := hc.trans hopen.reaches
  have hbracket := punctuation (by decide) (hstart.trans hread.reaches) hclose
  exact (punctuation htoken hc hopen).cons
    ((leaf rfl hstart hread (.groupName hne hw)).cons hbracket)

/-- The node of a reference by name (`Atom.ofReference`), or of what is left of one, fits one of the
labels of units. -/
theorem ofReference {r : Except Invalid Backreference} (hc : (Cursor.ofString source).Reaches c)
    (h : Backreference.Takes c later r) :
    Fit source [Node.ofAtom (Atom.ofReference r)] (Label.oneOf Label.units) := by
  cases h with
  | named hopen hne hw hread hclose hspan =>
    have hchildren := present (name (by decide) hc hopen hne hw hread hclose hspan)
    exact (branch .backreferenceEscape _ rfl hchildren).oneOf (by decide)
  | bare hread => exact (ofInvalid hc hread .bareReference).oneOf (by decide)
  | malformed hopen hw hread =>
    exact (ofInvalid hc (hopen.trans hread) (.badBackreference hw)).oneOf (by decide)

/-- The node of an `Atom` fits one of `Label.units`. -/
theorem ofAtom {a : Atom} (hc : (Cursor.ofString source).Reaches c) (h : Atom.Takes c later a) :
    Fit source [Node.ofAtom a] (Label.oneOf Label.units) := by
  cases h with
  | @literal x hx hread =>
    have hpattern : x ∉ syntaxChars := by
      simpa [isPatternChar, isSyntaxChar] using hx
    exact (leaf rfl hc hread (.patternCharacter hpattern)).oneOf (by decide)
  | anyCharacter hread =>
    exact (fixed .anyCharacter (by decide) hc hread).oneOf (by decide)
  | atStart hread =>
    exact (fixed .startAssertion (by decide) hc hread).oneOf (by decide)
  | atEnd hread =>
    exact (fixed .endAssertion (by decide) hc hread).oneOf (by decide)
  | @boundary x hx hread =>
    -- the two letters are two kinds of leaves
    have hletter : x = 'b' ∨ x = 'B' := by simpa [isWordBoundaryMarker] using hx
    rcases hletter with rfl | rfl
    · exact (fixed .boundaryAssertion (by decide) hc hread).oneOf (by decide)
    · exact (fixed .nonBoundaryAssertion (by decide) hc hread).oneOf
        (by decide)
  | numeric hd hzero hdigits hread hnext =>
    exact (leaf rfl hc hread (.backreferenceEscape hd hzero hdigits)).oneOf (by decide)
  | reference hr => exact ofReference hc hr
  | escaped he =>
    rw [ofAtom_ofEscaped]
    exact (ofEscaped hc he).oneOf_of_subset (by decide)
  | characterClass hs => exact (ofCharacterClass hc hs).oneOf (by decide)
  | @stray x hx hread =>
    have hmem : x ∈ [')', ']', '}', '{', '?'] := by rcases hx with rfl | rfl <;> decide
    exact (ofInvalid hc hread (.unknownConstruct hmem)).oneOf (by decide)

/-! ## Quantifiers -/

/-- The nodes of what follows a lower bound fit. -/
theorem ofUpperPart {upper : Option UpperPart} (hc : (Cursor.ofString source).Reaches c)
    (h : UpperPart.Takes c later upper) :
    Fit source (Node.ofUpperPart upper)
      (Label.optional (Label.once (.node .countQuantifierDelimiter) *
        Label.optional (Label.once (.node .countQuantifierValue)))) := by
  cases h with
  | none => exact absent
  | comma hread =>
    have hcomma := fixed .countQuantifierDelimiter (by decide) hc hread
    exact present (hcomma.cons absent)
  | bound hread hdigits hbound =>
    have hcomma := fixed .countQuantifierDelimiter (by decide) hc hread
    have hvalue := leaf rfl (hc.trans hread.reaches) hbound (.countQuantifierValue hdigits)
    exact present (hcomma.cons (present hvalue))

/-- An operator of one character and the mark behind it fit. -/
theorem operator {x : Char} {mark : Option Span} {middle : Cursor} (hx : [x] ∈ punctuationTokens)
    (hc : (Cursor.ofString source).Reaches c) (hread : c.Reads [x] middle)
    (hmark : Cursor.Skips '?' middle later mark) :
    Fit source ([Node.punctuation c.pos middle.pos] ++ (mark.map (Node.leaf .lazyMark)).toList)
      (Label.operator x) :=
  (punctuation hx hc hread).append
    (skipped .lazyMark (by decide) (hc.trans hread.reaches) hmark)

/-- A `Count` and the mark behind it fit. -/
theorem count {count : Count} {mark : Option Span} {middle : Cursor}
    (hc : (Cursor.ofString source).Reaches c) (h : Count.Takes c middle count)
    (hmark : Cursor.Skips '?' middle later mark) :
    Fit source ((ofOperator (.count count) (c.spanTo middle)).2 ++
      (mark.map (Node.leaf .lazyMark)).toList) NodeKind.countQuantifier.rule := by
  obtain @⟨digits, inside, behind, close, upper, hopen, hdigits, hread, hupper, hclose⟩ := h
  have hinside := hc.trans hopen.reaches
  have hbehind := hinside.trans hread.reaches
  have hatClose := hbehind.trans hupper.reaches
  have hlazy := skipped .lazyMark (by decide) (hatClose.trans hclose.reaches) hmark
  have hbrace := punctuation (by decide) hatClose hclose
  have hend := (ofUpperPart hbehind hupper).append (hbrace.cons hlazy)
  have hchildren := (punctuation (by decide) hc hopen).cons
    ((leaf rfl hinside hread (.countQuantifierValue hdigits)).cons hend)
  have hstart : c.pos + 1 = inside.pos := hopen.2.symm
  have hstop : middle.pos - 1 = close.pos := by rw [hclose.2]; rfl
  simp only [ofOperator, Cursor.spanTo, hstart, hstop, List.cons_append, List.append_assoc,
    List.nil_append]
  exact hchildren

/-- The node of a `Quantifier` fits one of `Label.quantifiers`. -/
theorem ofQuantifier {q : Quantifier} (hc : (Cursor.ofString source).Reaches c)
    (h : Quantifier.Takes c later q) :
    Fit source [Node.ofQuantifier q] (Label.oneOf Label.quantifiers) := by
  obtain ⟨hkind, hmark⟩ := h
  cases hkind with
  | zeroOrMore hread =>
    exact (branch .zeroOrMore _ rfl (operator (by decide) hc hread hmark)).oneOf (by decide)
  | oneOrMore hread =>
    exact (branch .oneOrMore _ rfl (operator (by decide) hc hread hmark)).oneOf (by decide)
  | optional hread =>
    exact (branch .optional _ rfl (operator (by decide) hc hread hmark)).oneOf (by decide)
  | count hcount =>
    exact (branch .countQuantifier _ rfl (count hc hcount hmark)).oneOf (by decide)

end Node.Fit

end RegexTree
