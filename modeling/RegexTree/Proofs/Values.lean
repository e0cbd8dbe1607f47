import RegexTree.Proofs.Isolation

/-! # What atoms say
The values that atoms store are those of their texts: characters, codes and numbers of any length
are decoded exactly, up to 64 bits for the number of a group. The main statement says so of every
atom of a pattern (`Atom.IsDecoded`), at any depth and inside character classes, and that an escape
fails to name a character only where it names a surrogate. -/

namespace RegexTree

/-! ## Values and texts -/

/-- The letters that name a control character, with the code of what they name. -/
def controlCodes : List (Char × Nat) :=
  [('b', 8), ('t', 9), ('n', 10), ('v', 11), ('f', 12), ('r', 13)]

/-- A number is that of its digits in base sixteen, and no larger than the last `CodePoint`. -/
structure IsHexadecimalOf (n : Nat) (digits : List Char) : Prop where
  /-- There are digits. -/
  ne_nil : digits ≠ []
  /-- There is nothing else. -/
  isHexDigit : ∀ d ∈ digits, isHexDigit d = true
  /-- The number is theirs. -/
  eq : n = Numeral.hexadecimal digits
  /-- It is a code point. -/
  le_last : n ≤ CodePoint.last

namespace EscapeKind

/-- The text of an escape is the one that its kind says. -/
def IsReadOff (text : List Char) : EscapeKind → Prop
  | special letter => text = ['\\', letter]
  | controlLetter letter code =>
    text = ['\\', 'c', letter] ∧ code = letter.toNat % 32 ∧ 1 ≤ code ∧ code ≤ 26
  | hexadecimal code => ∃ digits, IsHexadecimalOf code digits ∧ text = '\\' :: 'x' :: digits
  | unicode p => ∃ digits, IsHexadecimalOf p.value digits ∧
      text = '\\' :: 'u' :: (if p.braced then '{' :: (digits ++ ['}']) else digits)
  | null => text = ['\\', '0']
  | identity char => text = ['\\', char]

/-- An escape of this kind names the character. -/
def Names (x : Char) : EscapeKind → Prop
  | special letter => (letter, x.toNat) ∈ controlCodes
  | controlLetter _ code => x.toNat = code
  | hexadecimal code => x.toNat = code
  | unicode p => x.toNat = p.value
  | null => x.toNat = 0
  | identity char => x = char

/-- An escape of this kind gives a code point that is no character. -/
def IsSurrogate (kind : EscapeKind) : Prop :=
  ∃ p, kind = unicode p ∧ 0xD800 ≤ p.value ∧ p.value ≤ 0xDFFF

end EscapeKind

/-- An escape is decoded as its text says. -/
structure Escape.IsDecoded (source : String) (e : Escape) : Prop where
  /-- Its kind is read off its text. -/
  kind : e.kind.IsReadOff (e.span.textIn source).toList
  /-- It has no value exactly if it gives a surrogate. -/
  value_eq_none_iff : e.value = none ↔ e.kind.IsSurrogate
  /-- Its value is the character that it names. -/
  value : ∀ x, e.value = some x → e.kind.Names x

namespace UnicodeProperty

/-- The words of a property. -/
def tokens (p : UnicodeProperty) : List PropertyToken := (p.name.map (·.token)).toList ++ [p.value]

/-- What stands between the braces of a property. -/
def spelling (p : UnicodeProperty) : List Char :=
  ((p.name.map fun n => n.token.text.toList ++ ['=']).getD []) ++ p.value.text.toList

/-- The text of a property escape is the one that the property says. -/
structure IsReadOff (source : String) (text : List Char) (p : UnicodeProperty) : Prop where
  /-- The letter says whether the property is negated, and the words stand in the braces. -/
  text_eq : text = '\\' :: (if p.negated then 'P' else 'p') :: '{' :: (p.spelling ++ ['}'])
  /-- The words are those that stand at their places. -/
  tokens : ∀ t ∈ p.tokens, t.text = t.span.textIn source

end UnicodeProperty

/-- An escape for a set is decoded as its text says. -/
def ClassEscape.IsDecoded (source : String) (e : ClassEscape) : Prop :=
  match e.kind with
  | .predefined letter => (e.span.textIn source).toList = ['\\', letter]
  | .property p => p.IsReadOff source (e.span.textIn source).toList

/-- An `Escaped` is decoded as its text says. -/
def Escaped.IsDecoded (source : String) : Escaped → Prop
  | character e => e.IsDecoded source
  | set e => e.IsDecoded source
  | invalid _ => True

/-- A `ClassAtom` is decoded as its text says. -/
def ClassAtom.IsDecoded (source : String) : ClassAtom → Prop
  | literal span value => (span.textIn source).toList = [value]
  | escape e => e.IsDecoded source
  | classEscape e => e.IsDecoded source
  | invalid _ => True

/-- A reference by number is decoded as its text says. -/
def Backreference.IsDecoded (source : String) : Backreference → Prop
  | numeric span index => ∃ digits, (span.textIn source).toList = '\\' :: digits ∧
      IsNumeral digits ∧ index = min (Numeral.decimal digits) Numeral.max64 ∧ 1 ≤ index
  | named _ _ => True

/-- An atom is decoded as its text says, with the atoms of its members if it is a class. -/
def Atom.IsDecoded (source : String) : Atom → Prop
  | literal span value => (span.textIn source).toList = [value]
  | escape e => e.IsDecoded source
  | classEscape e => e.IsDecoded source
  | characterClass s => ∀ m ∈ s.members, ∀ a ∈ m.atoms, a.IsDecoded source
  | backreference r => r.IsDecoded source
  | anyCharacter _ => True
  | assertion _ _ => True
  | invalid _ => True

/-! ## Characters -/

namespace CodePoint

/-- A number up to the last code point is no character, for `toChar?`, exactly if it is a
surrogate. -/
theorem toChar?_eq_none_iff {n : Nat} (h : n ≤ last) :
    toChar? n = none ↔ 0xD800 ≤ n ∧ n ≤ 0xDFFF := by
  have hlast : n ≤ 0x10FFFF := h
  have hvalid : n.isValidChar ↔ ¬ (0xD800 ≤ n ∧ n ≤ 0xDFFF) := by
    simp only [Nat.isValidChar]
    omega
  unfold toChar?
  by_cases hn : n.isValidChar
  · rw [dif_pos hn]
    exact ⟨nofun, fun hsurrogate => absurd hsurrogate (hvalid.mp hn)⟩
  · rw [dif_neg hn]
    exact ⟨fun _ => Decidable.not_not.mp fun h => hn (hvalid.mpr h), fun _ => rfl⟩

end CodePoint

/-- A letter for a control character has a value by `specialChar?`, which is the character with its
code. -/
theorem specialChar?_eq_some {letter : Char} (h : isSpecialEscape letter = true ∨ letter = 'b') :
    ∃ x, specialChar? letter = some x ∧ (letter, x.toNat) ∈ controlCodes := by
  have hmem : letter ∈ 'b' :: specialEscapes := by
    rcases h with h | rfl
    · exact List.mem_cons_of_mem _ (List.contains_iff_mem.mp h)
    · exact List.mem_cons_self
  simp only [specialEscapes, List.mem_cons, List.not_mem_nil, or_false] at hmem
  rcases hmem with rfl | rfl | rfl | rfl | rfl | rfl <;> exact ⟨_, rfl, by decide⟩

/-- The place of a letter in the alphabet is its code modulo 32. -/
theorem toNat_mod_of_isControlLetter {x : Char} (h : isControlLetter x = true) :
    1 ≤ x.toNat % 32 ∧ x.toNat % 32 ≤ 26 := by
  have hletter : (x.isUpper || x.isLower) = true := h
  rcases Bool.or_eq_true_iff.mp hletter with hupper | hlower
  · have hval : 65 ≤ x.val ∧ x.val ≤ 90 := of_decide_eq_true hupper
    have hrange : 65 ≤ x.toNat ∧ x.toNat ≤ 90 := hval
    omega
  · obtain ⟨hge, hle⟩ := Bool.and_eq_true_iff.mp hlower
    have hrange : 97 ≤ x.toNat ∧ x.toNat ≤ 122 := ⟨of_decide_eq_true hge, of_decide_eq_true hle⟩
    omega

/-! ## What is read is decoded -/

variable {source : String} {inClass : Bool} {c later : Cursor}

/-- The value of a code that is a character has this code, and only a surrogate has none. -/
theorem Escape.isDecoded_of_code {span : Span} {kind : EscapeKind} {n : Nat}
    (hkind : kind.IsReadOff (span.textIn source).toList) (hle : n ≤ CodePoint.last)
    (hvalue : Escape.value ⟨span, kind⟩ = CodePoint.toChar? n)
    (hsurrogate : kind.IsSurrogate ↔ 0xD800 ≤ n ∧ n ≤ 0xDFFF)
    (hnames : ∀ x : Char, x.toNat = n → kind.Names x) : IsDecoded source ⟨span, kind⟩ where
  kind := hkind
  value_eq_none_iff := by rw [hvalue, CodePoint.toChar?_eq_none_iff hle, hsurrogate]
  value := by
    intro x hx
    rw [hvalue] at hx
    exact hnames x (CodePoint.toNat_of_toChar? hx)

/-- An escape that always has a value is decoded if this is the character that it names. -/
theorem Escape.isDecoded_of_value {span : Span} {kind : EscapeKind} {x : Char}
    (hkind : kind.IsReadOff (span.textIn source).toList)
    (hvalue : Escape.value ⟨span, kind⟩ = some x) (hnames : kind.Names x)
    (hunicode : ∀ p, kind ≠ .unicode p) : IsDecoded source ⟨span, kind⟩ where
  kind := hkind
  value_eq_none_iff := by
    rw [hvalue]
    constructor
    · nofun
    · rintro ⟨p, rfl, -⟩
      exact absurd rfl (hunicode p)
  value := by
    intro y hy
    obtain rfl := Option.some.inj (hvalue.symm.trans hy)
    exact hnames

/-- The texts of a `CodePoint` are those of its value. -/
theorem CodePoint.Form.isReadOff {p : CodePoint} {w : List Char} (h : Form p w) :
    (EscapeKind.unicode p).IsReadOff ('\\' :: w) := by
  have hle := h.value_le
  cases h with
  | @plain digits hlength hdigits =>
    have hne : digits ≠ [] := List.ne_nil_of_length_eq_add_one hlength
    exact ⟨digits, ⟨hne, hdigits, rfl, hle⟩, rfl⟩
  | @braced digits hne hdigits hlast => exact ⟨digits, ⟨hne, hdigits, rfl, hle⟩, rfl⟩

/-- What stands between the braces of a property is the property. -/
theorem UnicodeProperty.Form.reads_spelling {negated : Bool} {p : UnicodeProperty}
    (hc : (Cursor.ofString source).Reaches c) (h : Form negated c later p) :
    c.Reads p.spelling later ∧ p.negated = negated ∧
      ∀ t ∈ p.tokens, t.text = t.span.textIn source := by
  have hword : ∀ {a b : Cursor} {word : List Char}, (Cursor.ofString source).Reaches a →
      a.Reads word b → String.ofList word = (a.spanTo b).textIn source := fun ha hread =>
    String.toList_inj.mp (String.toList_ofList.trans (ha.toList_textIn hread).symm)
  cases h with
  | @value word _ hread =>
    refine ⟨?_, rfl, List.forall_mem_singleton.mpr (hword hc hread)⟩
    rw [spelling]
    simpa using hread
  | @named name word afterName afterOperator _ hname hoperator _ hread =>
    have hafter := (hc.trans hname.reaches).trans hoperator.reaches
    refine ⟨?_, rfl, List.forall_mem_cons.mpr ⟨hword hc hname, ?_⟩⟩
    · rw [spelling]
      simpa using (hname.trans hoperator).trans hread
    · exact List.forall_mem_singleton.mpr (hword hafter hread)

/-- An `Escaped` that is read is decoded as its text says. -/
theorem Escaped.Takes.isDecoded {e : Escaped} (hc : (Cursor.ofString source).Reaches c)
    (h : Takes inClass c later e) : e.IsDecoded source := by
  cases h with
  | @special x hx hread =>
    obtain ⟨y, hvalue, hcode⟩ := specialChar?_eq_some (hx.imp_right And.right)
    exact Escape.isDecoded_of_value (hc.toList_textIn hread) hvalue hcode nofun
  | @controlLetter x hx hread =>
    obtain ⟨hpos, hle⟩ := toNat_mod_of_isControlLetter hx
    have hlast : x.toNat % 32 ≤ CodePoint.last := Nat.le_trans hle (by decide)
    refine Escape.isDecoded_of_code ⟨hc.toList_textIn hread, rfl, hpos, hle⟩ hlast rfl ?_
      fun _ h => h
    constructor
    · rintro ⟨p, hp, -⟩
      cases hp
    · omega
  | @hexadecimal digits hlength hdigits hread =>
    have hne : digits ≠ [] := List.ne_nil_of_length_eq_add_one hlength
    have hlt := Numeral.hexadecimal_lt digits
    have hpow : Nat.pow 16 digits.length = 256 := by rw [hlength]
    have hlast : Numeral.hexadecimal digits ≤ CodePoint.last :=
      Numeral.hexadecimal_le_last (Nat.le_trans (Nat.le_of_eq hlength) (by decide))
    refine Escape.isDecoded_of_code ⟨digits, ⟨hne, hdigits, rfl, hlast⟩, hc.toList_textIn hread⟩
      hlast rfl ?_ fun _ h => h
    constructor
    · rintro ⟨p, hp, -⟩
      cases hp
    · omega
  | @unicode p w hp hread =>
    refine Escape.isDecoded_of_code ?_ hp.value_le rfl ?_ fun _ h => h
    · rw [hc.toList_textIn hread]
      exact hp.isReadOff
    · constructor
      · rintro ⟨q, hq, hsurrogate⟩
        cases hq
        exact hsurrogate
      · exact fun hsurrogate => ⟨p, rfl, hsurrogate⟩
  | null hread hnext =>
    exact Escape.isDecoded_of_value (hc.toList_textIn hread) rfl rfl nofun
  | identity hx hread => exact Escape.isDecoded_of_value (hc.toList_textIn hread) rfl rfl nofun
  | predefined hx hread => exact hc.toList_textIn hread
  | @property x p inside close hx hopen hp hclose =>
    obtain ⟨hspelling, hnegated, htokens⟩ := hp.reads_spelling (hc.trans hopen.reaches)
    refine ⟨?_, htokens⟩
    have hletter : x = if p.negated then 'P' else 'p' := by
      rw [hnegated]
      rcases hx with rfl | rfl <;> rfl
    rw [hc.toList_textIn ((hopen.trans hspelling).trans hclose), ← hletter]
    rfl
  | lone => trivial
  | bad => trivial

/-- A `ClassAtom` that is read is decoded as its text says. -/
theorem ClassAtom.Takes.isDecoded {a : ClassAtom} (hc : (Cursor.ofString source).Reaches c)
    (h : Takes c later a) : a.IsDecoded source := by
  cases h with
  | literal hx hclose hread => exact hc.toList_textIn hread
  | @escaped e he =>
    have hdecoded := he.isDecoded hc
    cases e <;> exact hdecoded

/-- An `Atom` that is read is decoded as its text says. -/
theorem Atom.Takes.isDecoded {a : Atom} (hc : (Cursor.ofString source).Reaches c)
    (h : Takes c later a) : a.IsDecoded source := by
  cases h with
  | literal hx hread => exact hc.toList_textIn hread
  | @numeric d digits hd hzero hdigits hread hnext =>
    have hindex := Numeral.decimalUpTo_eq_min Numeral.max64 (d :: digits)
    have hpos := Numeral.one_le_decimal hd hzero digits
    have hmax : 1 ≤ Numeral.max64 := by decide
    refine ⟨d :: digits, hc.toList_textIn hread,
      ⟨List.cons_ne_nil _ _, List.forall_mem_cons.mpr ⟨hd, hdigits⟩⟩, hindex, ?_⟩
    show 1 ≤ Numeral.decimalUpTo Numeral.max64 (d :: digits)
    omega
  | reference hr => cases hr <;> trivial
  | @escaped e he =>
    have hdecoded := he.isDecoded hc
    cases e <;> exact hdecoded
  | characterClass hs =>
    obtain ⟨hopen, hnegation, hmembers, -, -⟩ := hs
    have hstart := (hc.trans hopen.reaches).trans hnegation.reaches
    intro m hm a ha
    obtain ⟨start, stop, hreach, htakes⟩ := hmembers.takes_of_mem m hm a ha
    exact htakes.isDecoded (hstart.trans hreach)
  | _ => trivial

/-- Every atom of a pattern, at any depth, is decoded as its text says. -/
theorem Regex.atoms_decoded (source : String) :
    ∀ t ∈ (parse source).terms, ∀ a, t.element = .atom a → a.IsDecoded source := by
  intro t ht a ha
  rcases exists_takes_of_atom ht ha with ⟨i, rfl⟩ | ⟨c, later, hc, htakes⟩
  · trivial
  · exact htakes.isDecoded hc

/-- Behind leading zeros, in a class in a group, stands a surrogate, which names no character. -/
theorem Regex.atoms_decoded_surrogate :
    let e : Escape := ⟨⟨2, 12⟩, .unicode ⟨0xD800, true⟩⟩
    let s : CharacterClass :=
      ⟨⟨1, 13⟩, ⟨1, 2⟩, none, [.atom (.escape e)], some ⟨12, 13⟩⟩
    let t : Term := ⟨.atom (.characterClass s), none⟩
    t ∈ (parse "([\\u\x7b00d800\x7d])").terms ∧ t.element = .atom (.characterClass s) ∧
      e.value = none ∧ e.kind.IsReadOff (e.span.textIn "([\\u\x7b00d800\x7d])").toList := by
  intro e s t
  have ht : t ∈ (parse "([\\u\x7b00d800\x7d])").terms := by decide +kernel
  have hdecoded : e.IsDecoded "([\\u\x7b00d800\x7d])" :=
    atoms_decoded "([\\u\x7b00d800\x7d])" t ht _ rfl (.atom (.escape e)) List.mem_cons_self
      (.escape e) List.mem_cons_self
  have hsurrogate : e.kind.IsSurrogate := ⟨_, rfl, by decide, by decide⟩
  exact ⟨ht, rfl, hdecoded.value_eq_none_iff.mpr hsurrogate, hdecoded.kind⟩

end RegexTree
