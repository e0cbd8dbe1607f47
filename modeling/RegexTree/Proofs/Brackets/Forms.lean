import RegexTree.Proofs.Brackets.Scanner
import RegexTree.Proofs.Derivation

/-! # Forms under the scanner
The scanner passes over escapes, names, quantifiers, counts and identifiers, well formed or not: no
bracket or bar is lost in them or made up. Of each form this is a lemma `scanFrom_eq`: scanning from
its beginning reports what scanning from its end does. Only classes, groups, bars and stray brackets
report. -/

namespace RegexTree

variable {s : Scanner} {c later : Cursor}

/-! ## Escapes -/

/-- The scanner passes over the texts of code points (`CodePoint.Form`): all but their `u` is
inert. -/
theorem CodePoint.Form.isInert {p : CodePoint} {w : List Char} (h : Form p w) :
    ∃ v, w = 'u' :: v ∧ ∀ y ∈ v, Scanner.isInert y = true := by
  cases h with
  | plain hlength hdigits =>
    exact ⟨_, rfl, fun y hy => Scanner.isInert_of_isHexDigit (hdigits y hy)⟩
  | braced hne hdigits hle =>
    exact ⟨_, rfl, Scanner.isInert_braced fun y hy =>
      Scanner.isInert_of_isHexDigit (hdigits y hy)⟩

/-- The scanner passes over what is left of code points. -/
theorem CodePoint.BadForm.isInert {w : List Char} (h : BadForm w) :
    ∃ v, w = 'u' :: v ∧ ∀ y ∈ v, Scanner.isInert y = true := by
  cases h with
  | short hlength hdigits =>
    exact ⟨_, rfl, fun y hy => Scanner.isInert_of_isHexDigit (hdigits y hy)⟩
  | unclosed hdigits =>
    exact ⟨_, rfl, Scanner.isInert_opened fun y hy =>
      Scanner.isInert_of_isHexDigit (hdigits y hy)⟩
  | closed hdigits hvalue =>
    exact ⟨_, rfl, Scanner.isInert_braced fun y hy =>
      Scanner.isInert_of_isHexDigit (hdigits y hy)⟩

/-- Behind its first character the text of a bad escape is inert. -/
theorem Escaped.BadForm.isInert {w : List Char} (h : BadForm w) :
    ∃ x v, w = x :: v ∧ ∀ y ∈ v, Scanner.isInert y = true := by
  cases h with
  | control => exact ⟨_, _, rfl, List.forall_mem_nil _⟩
  | hexadecimal hlength hdigits =>
    exact ⟨_, _, rfl, fun y hy => Scanner.isInert_of_isHexDigit (hdigits y hy)⟩
  | unicode hw =>
    obtain ⟨v, rfl, hv⟩ := hw.isInert
    exact ⟨_, v, rfl, hv⟩
  | null hne hdigits =>
    exact ⟨_, _, rfl, fun y hy => Scanner.isInert_of_isDecimalDigit (hdigits y hy)⟩
  | property hx => exact ⟨_, _, rfl, List.forall_mem_nil _⟩
  | closedProperty hx hw =>
    exact ⟨_, _, rfl, Scanner.isInert_braced fun y hy =>
      Scanner.isInert_of_isSkippable_brace (hw y hy)⟩
  | openProperty hx hw =>
    exact ⟨_, _, rfl, Scanner.isInert_opened fun y hy =>
      Scanner.isInert_of_propertyAllows (hw y hy)⟩
  | unknown hx => exact ⟨_, _, rfl, List.forall_mem_nil _⟩

/-- The words and the equals sign of a property are inert. -/
theorem UnicodeProperty.Form.scanFrom_eq {negated : Bool} {p : UnicodeProperty}
    (h : Form negated c later p) : s.scanFrom c = s.scanFrom later := by
  have hword : ∀ {word : List Char}, PropertyToken.IsWord word →
      ∀ y ∈ word, Scanner.isInert y = true := fun hword y hy =>
    Scanner.isInert_of_propertyAllows (by simp [allows, hword.2 y hy])
  cases h with
  | value hvalue hread => exact Scanner.scanFrom_of_isInert hread (hword hvalue)
  | named hname hreadName hoperator hvalue hread =>
    rw [Scanner.scanFrom_of_isInert hreadName (hword hname),
      Scanner.scanFrom_of_isInert hoperator (forall_mem_of_all (by decide)),
      Scanner.scanFrom_of_isInert hread (hword hvalue)]

/-- The scanner passes over an `Escaped`. -/
theorem Escaped.Takes.scanFrom_eq {inClass : Bool} {e : Escaped} (h : Takes inClass c later e) :
    s.scanFrom c = s.scanFrom later := by
  cases h with
  | special hx hread => exact Scanner.scanFrom_of_escape hread
  | controlLetter hx hread =>
    exact Scanner.scanFrom_of_escaped hread (by simpa using Scanner.isInert_of_isControlLetter hx)
  | hexadecimal hlength hdigits hread =>
    exact Scanner.scanFrom_of_escaped hread fun y hy =>
      Scanner.isInert_of_isHexDigit (hdigits y hy)
  | unicode hp hread =>
    obtain ⟨v, rfl, hv⟩ := hp.isInert
    exact Scanner.scanFrom_of_escaped hread hv
  | null hread hnext => exact Scanner.scanFrom_of_escape hread
  | identity hx hread => exact Scanner.scanFrom_of_escape hread
  | predefined hx hread => exact Scanner.scanFrom_of_escape hread
  | property hx hopen hp hclose =>
    rw [Scanner.scanFrom_of_escaped hopen (forall_mem_of_all (by decide)), hp.scanFrom_eq,
      Scanner.scanFrom_of_isInert hclose (forall_mem_of_all (by decide))]
  | lone hread hend => exact Scanner.scanFrom_of_lone hread hend
  | bad hw hread =>
    obtain ⟨x, v, rfl, hv⟩ := hw.isInert
    exact Scanner.scanFrom_of_escaped hread hv

/-! ## Names -/

/-- The scanner passes over names. -/
theorem GroupName.Form.scanFrom_eq {first : Bool} {w : List Char} (h : Form first w)
    (hread : c.Reads w later) : s.scanFrom c = s.scanFrom later := by
  induction h generalizing c with
  | nil => rw [hread.unique (.refl c)]
  | @char first x w hx hw ih =>
    obtain ⟨next, hfirst, hrest⟩ := Cursor.reads_cons_iff.mp hread
    have hinert := Scanner.isInert_of_isGroupNameContinue (isGroupNameContinue_of_allows hx)
    rw [Scanner.scanFrom_of_isInert hfirst (by simpa using hinert), ih hrest]
  | escape hp hw ih =>
    obtain ⟨next, hescape, hrest⟩ := Cursor.reads_append_iff.mp hread
    obtain ⟨v, rfl, hv⟩ := hp.isInert
    rw [Scanner.scanFrom_of_escaped hescape hv, ih hrest]

/-- The scanner passes over what is left of a malformed name (`GroupName.Region`). -/
theorem GroupName.Region.scanFrom_eq {w : List Char} (h : Region w) (hread : c.Reads w later) :
    s.scanFrom c = s.scanFrom later := by
  cases h with
  | closed hv =>
    exact Scanner.scanFrom_of_closed hread (by decide) fun y hy =>
      Scanner.isInert_of_isSkippable_bracket (hv y hy)
  | chars hv =>
    exact Scanner.scanFrom_of_isInert hread fun y hy =>
      Scanner.isInert_of_isGroupNameContinue (hv y hy)

/-- The scanner passes over references by name, or what is left of them. -/
theorem Backreference.Takes.scanFrom_eq {r : Except Invalid Backreference} (h : Takes c later r) :
    s.scanFrom c = s.scanFrom later := by
  cases h with
  | named hopen hne hw hread hclose =>
    rw [Scanner.scanFrom_of_escaped hopen (forall_mem_of_all (by decide)), hw.scanFrom_eq hread,
      Scanner.scanFrom_of_isInert hclose (forall_mem_of_all (by decide))]
  | bare hread => exact Scanner.scanFrom_of_escape hread
  | malformed hopen hw hread =>
    rw [Scanner.scanFrom_of_escaped hopen (forall_mem_of_all (by decide)), hw.scanFrom_eq hread]

/-- The scanner passes over identifiers of groups. -/
theorem GroupKind.Takes.scanFrom_eq {kind : GroupKind} (h : Takes c later kind) :
    s.scanFrom c = s.scanFrom later := by
  cases h with
  | plain hword hread =>
    refine Scanner.scanFrom_of_isInert hread ?_
    rcases eq_of_mem_identifiers hword with ⟨rfl, -⟩ | ⟨rfl, -⟩ | ⟨rfl, -⟩ | ⟨rfl, -⟩ | ⟨rfl, -⟩ <;>
      exact forall_mem_of_all (by decide)
  | named hopen hne hw hread hclose =>
    rw [Scanner.scanFrom_of_isInert hopen (forall_mem_of_all (by decide)), hw.scanFrom_eq hread,
      Scanner.scanFrom_of_isInert hclose (forall_mem_of_all (by decide))]
  | badName hopen hw hread =>
    rw [Scanner.scanFrom_of_isInert hopen (forall_mem_of_all (by decide)), hw.scanFrom_eq hread]
  | unknown hread => exact Scanner.scanFrom_of_isInert hread (forall_mem_of_all (by decide))

/-! ## Quantifiers -/

/-- The digits of a bound are inert. -/
theorem IsNumeral.isInert {digits : List Char} (h : IsNumeral digits) :
    ∀ y ∈ digits, Scanner.isInert y = true := fun y hy =>
  Scanner.isInert_of_isDecimalDigit (h.2 y hy)

/-- The scanner passes over a `Count`. -/
theorem Count.Takes.scanFrom_eq {count : Count} (h : Takes c later count) :
    s.scanFrom c = s.scanFrom later := by
  obtain ⟨hopen, hdigits, hread, hupper, hclose⟩ := h
  have hend := Scanner.scanFrom_of_isInert (s := s) hclose (forall_mem_of_all (by decide))
  rw [Scanner.scanFrom_of_isInert hopen (forall_mem_of_all (by decide)),
    Scanner.scanFrom_of_isInert hread hdigits.isInert, ← hend]
  cases hupper with
  | none => rfl
  | comma hcomma => exact Scanner.scanFrom_of_isInert hcomma (forall_mem_of_all (by decide))
  | bound hcomma hbound hread =>
    rw [Scanner.scanFrom_of_isInert hcomma (forall_mem_of_all (by decide)),
      Scanner.scanFrom_of_isInert hread hbound.isInert]

/-- The scanner passes over an optional character that is inert. -/
theorem Cursor.Skips.scanFrom_eq {x : Char} {span : Option Span} (h : Cursor.Skips x c later span)
    (hx : Scanner.isInert x = true) : s.scanFrom c = s.scanFrom later := by
  cases h with
  | absent => rfl
  | present hread => exact Scanner.scanFrom_of_isInert hread (by simpa using hx)

/-- The scanner passes over quantifiers. -/
theorem Quantifier.Takes.scanFrom_eq {q : Quantifier} (h : Takes c later q) :
    s.scanFrom c = s.scanFrom later := by
  obtain ⟨hkind, hmark⟩ := h
  rw [← hmark.scanFrom_eq (by decide)]
  cases hkind with
  | zeroOrMore hread => exact Scanner.scanFrom_of_isInert hread (forall_mem_of_all (by decide))
  | oneOrMore hread => exact Scanner.scanFrom_of_isInert hread (forall_mem_of_all (by decide))
  | optional hread => exact Scanner.scanFrom_of_isInert hread (forall_mem_of_all (by decide))
  | count hcount => exact hcount.scanFrom_eq

/-- The scanner passes over a quantifier that may follow. -/
theorem Quantifier.Follows.scanFrom_eq {q : Option Quantifier} (h : Follows c later q) :
    s.scanFrom c = s.scanFrom later := by
  cases h with
  | absent => rfl
  | present hq => exact hq.scanFrom_eq

/-! ## Classes -/

/-- Inside a class the scanner only reacts to the closing bracket and to backslashes. -/
theorem Scanner.scanFrom_of_literal {depth : Nat} {x : Char} (h : c.Reads [x] later)
    (hx : x ≠ '\\') (hclose : x ≠ ']') :
    (⟨depth, true⟩ : Scanner).scanFrom c = (⟨depth, true⟩ : Scanner).scanFrom later := by
  rw [scanFrom_of_reads h hx]
  simp [step, hclose]

/-- Inside a class the scanner passes over atoms. -/
theorem ClassAtom.Takes.scanFrom_eq {depth : Nat} {a : ClassAtom} (h : Takes c later a) :
    (⟨depth, true⟩ : Scanner).scanFrom c = (⟨depth, true⟩ : Scanner).scanFrom later := by
  cases h with
  | literal hx hclose hread => exact Scanner.scanFrom_of_literal hread hx hclose
  | escaped he => exact he.scanFrom_eq

/-- Inside a class the scanner passes over its `Members`. -/
theorem CharacterClass.Members.scanFrom_eq {depth : Nat} {ms : List ClassMember}
    (h : Members c ms later) :
    (⟨depth, true⟩ : Scanner).scanFrom c = (⟨depth, true⟩ : Scanner).scanFrom later := by
  induction h with
  | nil => rfl
  | cons hm hms ih =>
    rw [← ih]
    cases hm with
    | atom ha => exact ha.scanFrom_eq
    | range hlow hdash hhigh =>
      rw [hlow.scanFrom_eq, Scanner.scanFrom_of_literal hdash (by decide) (by decide),
        hhigh.scanFrom_eq]

/-- Of a `CharacterClass` the scanner reports the brackets. -/
theorem CharacterClass.Takes.scanFrom_eq {depth : Nat} {cls : CharacterClass}
    (h : Takes c later cls) :
    (⟨depth, false⟩ : Scanner).scanFrom c =
      (.setBegin, cls.opening) :: (cls.closing.map (Delimiter.setEnd, ·)).toList ++
        (⟨depth, false⟩ : Scanner).scanFrom later := by
  obtain ⟨hopen, hnegation, hmembers, hclosing, hend⟩ := h
  -- a class that is cut off ends with the input, where the state no longer matters
  have hinside := Scanner.scanFrom_of_reads (s := ⟨depth, false⟩) hopen (by decide)
  rw [hinside]
  simp only [Scanner.step, Bool.false_eq_true, if_false, if_true, Option.map_some,
    Option.toList_some, List.cons_append, List.nil_append]
  rw [hnegation.scanFrom_eq (by decide), hmembers.scanFrom_eq]
  cases hclosing with
  | absent hnext => rw [Scanner.scanFrom_of_end (hend rfl), Scanner.scanFrom_of_end (hend rfl)]; rfl
  | present hread =>
    rw [Scanner.scanFrom_of_reads hread (by decide)]
    rfl

end RegexTree
