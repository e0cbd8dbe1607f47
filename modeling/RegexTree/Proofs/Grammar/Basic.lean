import RegexTree.Proofs.Forms.Lexeme

/-! # The grammar of patterns
The grammar, production by production, without places and without recovery. A phrase is a relation
between the text from its beginning on and the text that is left behind it, so that a production may
look at what follows. A pattern is derived if a `Disjunction` leaves nothing behind. Below the
productions stands what can be said of a disjunction by its first character. -/

namespace RegexTree

/-- The characters that stand for themselves after a backslash are the `syntaxChars` and the
slash. -/
theorem isIdentityEscape_iff {x : Char} :
    isIdentityEscape x = true ↔ x ∈ syntaxChars ∨ x = '/' := by
  simp [isIdentityEscape, isSyntaxChar]

/-- The characters that stand for themselves outside a class are all but the `syntaxChars`. -/
theorem isPatternChar_iff {x : Char} : isPatternChar x = true ↔ x ∉ syntaxChars := by
  simp [isPatternChar, isSyntaxChar]

namespace Grammar

/-! ## Escapes and classes -/

/-- The escapes of a character or of a set that mean the same inside a class and outside. -/
inductive Escape : List Char → List Char → Prop where
  /-- A letter for a control character. -/
  | special {x : Char} {t : List Char} (hx : x ∈ specialEscapes) : Escape ('\\' :: x :: t) t
  /-- A control character by its letter. -/
  | control {x : Char} {t : List Char} (hx : isControlLetter x = true) :
      Escape ('\\' :: 'c' :: x :: t) t
  /-- Two hexadecimal digits. -/
  | hexadecimal {a b : Char} {t : List Char} (ha : isHexDigit a = true)
      (hb : isHexDigit b = true) : Escape ('\\' :: 'x' :: a :: b :: t) t
  /-- Four hexadecimal digits, or digits in braces that are no larger than the last code point. -/
  | unicode {p : CodePoint} {w t : List Char} (hp : CodePoint.Form p w) :
      Escape ('\\' :: (w ++ t)) t
  /-- A zero that no digit follows. -/
  | null {t : List Char} (hnext : ∀ x, t.head? = some x → isDecimalDigit x = false) :
      Escape ('\\' :: '0' :: t) t
  /-- A letter for a predefined set. -/
  | predefined {x : Char} {t : List Char} (hx : x ∈ classEscapes) : Escape ('\\' :: x :: t) t
  /-- The value of a property. -/
  | property {x : Char} {value t : List Char} (hx : x = 'p' ∨ x = 'P')
      (hvalue : PropertyToken.IsWord value) :
      Escape ('\\' :: x :: '{' :: (value ++ '}' :: t)) t
  /-- The name and the value of a property. -/
  | namedProperty {x : Char} {name value t : List Char} (hx : x = 'p' ∨ x = 'P')
      (hname : PropertyToken.IsWord name) (hvalue : PropertyToken.IsWord value) :
      Escape ('\\' :: x :: '{' :: (name ++ '=' :: (value ++ '}' :: t))) t

/-- The members of a class; a range is three of them. -/
inductive Member : List Char → List Char → Prop where
  /-- A character that stands for itself. -/
  | literal {x : Char} {t : List Char} (hclose : x ≠ ']') (hx : x ≠ '\\') : Member (x :: t) t
  /-- An escape. -/
  | escape {s t : List Char} (he : Escape s t) : Member s t
  /-- The letter for a backspace. -/
  | backspace {t : List Char} : Member ('\\' :: 'b' :: t) t
  /-- An escaped character that stands for itself. -/
  | identity {x : Char} {t : List Char} (hx : x ∈ syntaxChars ∨ x = '/' ∨ x = '-') :
      Member ('\\' :: x :: t) t

/-- Any number of members. -/
inductive Members : List Char → List Char → Prop where
  /-- No more members. -/
  | nil {t : List Char} : Members t t
  /-- A member and those after it. -/
  | cons {s u t : List Char} (hm : Member s u) (hms : Members u t) : Members s t

/-! ## Quantifiers -/

/-- A quantifier without the mark that makes it lazy. -/
inductive Operator : List Char → List Char → Prop where
  /-- A star. -/
  | star {t : List Char} : Operator ('*' :: t) t
  /-- A plus. -/
  | plus {t : List Char} : Operator ('+' :: t) t
  /-- A question mark. -/
  | optional {t : List Char} : Operator ('?' :: t) t
  /-- A number in braces. -/
  | exact {digits t : List Char} (hdigits : IsNumeral digits) :
      Operator ('{' :: (digits ++ '}' :: t)) t
  /-- A number, a comma and perhaps another number in braces. -/
  | bounded {digits more t : List Char} (hdigits : IsNumeral digits)
      (hmore : ∀ d ∈ more, isDecimalDigit d = true) :
      Operator ('{' :: (digits ++ ',' :: (more ++ '}' :: t))) t

/-- A quantifier with or without the mark that makes it lazy. -/
inductive Quantifier : List Char → List Char → Prop where
  /-- An operator alone. -/
  | eager {s t : List Char} (ho : Operator s t) : Quantifier s t
  /-- An operator and a mark. -/
  | lazy {s t : List Char} (ho : Operator s ('?' :: t)) : Quantifier s t

/-- An `Operator` does not depend on what follows it. -/
theorem Operator.append {s t : List Char} (h : Operator s t) (u : List Char) :
    Operator (s ++ u) (t ++ u) := by
  cases h with
  | star => exact .star
  | plus => exact .plus
  | optional => exact .optional
  | exact hdigits =>
    simp only [List.cons_append, List.append_assoc]
    exact .exact hdigits
  | bounded hdigits hmore =>
    simp only [List.cons_append, List.append_assoc]
    exact .bounded hdigits hmore

/-- What an operator takes is a text of its own. -/
theorem Operator.exists_text {s t : List Char} (h : Operator s t) :
    ∃ w, s = w ++ t ∧ Operator w [] := by
  cases h with
  | star => exact ⟨['*'], rfl, .star⟩
  | plus => exact ⟨['+'], rfl, .plus⟩
  | optional => exact ⟨['?'], rfl, .optional⟩
  | @exact digits _ hdigits => exact ⟨'{' :: (digits ++ ['}']), by simp, .exact hdigits⟩
  | @bounded digits more _ hdigits hmore =>
    exact ⟨'{' :: (digits ++ ',' :: (more ++ ['}'])), by simp, .bounded hdigits hmore⟩

/-- What a `Quantifier` takes is a text of its own. -/
theorem Quantifier.exists_text {s t : List Char} (h : Quantifier s t) :
    ∃ w, s = w ++ t ∧ Quantifier w [] := by
  cases h with
  | eager ho =>
    obtain ⟨w, rfl, hw⟩ := ho.exists_text
    exact ⟨w, rfl, .eager hw⟩
  | lazy ho =>
    obtain ⟨w, rfl, hw⟩ := ho.exists_text
    exact ⟨w ++ ['?'], by simp, .lazy (hw.append ['?'])⟩

/-! ## Elements and what they are put together to -/

/-- What may stand between the parenthesis of a group and its body. -/
inductive Identifier : List Char → List Char → Prop where
  /-- Nothing. -/
  | none {t : List Char} : Identifier t t
  /-- One of the fixed identifiers. -/
  | fixed {w t : List Char}
      (hw : w ∈ [['?', ':'], ['?', '='], ['?', '!'], ['?', '<', '='], ['?', '<', '!']]) :
      Identifier (w ++ t) t
  /-- A name in angle brackets. -/
  | named {w t : List Char} (hne : w ≠ []) (hw : GroupName.Form true w) :
      Identifier ('?' :: '<' :: (w ++ '>' :: t)) t

mutual

/-- What a quantifier can follow. -/
inductive Element : List Char → List Char → Prop where
  /-- A character that stands for itself. -/
  | literal {x : Char} {t : List Char} (hx : x ∉ syntaxChars) : Element (x :: t) t
  /-- The dot, the caret or the dollar sign. -/
  | symbol {x : Char} {t : List Char} (hx : x ∈ ['.', '^', '$']) : Element (x :: t) t
  /-- A letter for a word boundary, or for none. -/
  | boundary {x : Char} {t : List Char} (hx : x = 'b' ∨ x = 'B') : Element ('\\' :: x :: t) t
  /-- A reference by number, which does not begin with a zero. -/
  | number {d : Char} {digits t : List Char} (hd : isDecimalDigit d = true) (hzero : d ≠ '0')
      (hdigits : ∀ e ∈ digits, isDecimalDigit e = true) : Element ('\\' :: d :: (digits ++ t)) t
  /-- A reference by name. -/
  | name {w t : List Char} (hne : w ≠ []) (hw : GroupName.Form true w) :
      Element ('\\' :: 'k' :: '<' :: (w ++ '>' :: t)) t
  /-- An escape. -/
  | escape {s t : List Char} (he : Escape s t) : Element s t
  /-- An escaped character that stands for itself. -/
  | identity {x : Char} {t : List Char} (hx : x ∈ syntaxChars ∨ x = '/') :
      Element ('\\' :: x :: t) t
  /-- A class. -/
  | set {s t : List Char} (hms : Members s (']' :: t)) : Element ('[' :: s) t
  /-- The complement of a class. -/
  | negatedSet {s t : List Char} (hms : Members s (']' :: t)) : Element ('[' :: '^' :: s) t
  /-- A group. -/
  | group {s u t : List Char} (hi : Identifier s u) (hd : Disjunction u (')' :: t)) :
      Element ('(' :: s) t

/-- An element, which may be repeated. -/
inductive Term : List Char → List Char → Prop where
  /-- An element alone. -/
  | once {s t : List Char} (he : Element s t) : Term s t
  /-- An element and its quantifier. -/
  | repeated {s u t : List Char} (he : Element s u) (hq : Quantifier u t) : Term s t

/-- Any number of terms. -/
inductive Alternative : List Char → List Char → Prop where
  /-- No more terms. -/
  | nil {t : List Char} : Alternative t t
  /-- A term and those after it. -/
  | cons {s u t : List Char} (ht : Term s u) (ha : Alternative u t) : Alternative s t

/-- Alternatives with bars between them. -/
inductive Disjunction : List Char → List Char → Prop where
  /-- The last alternative. -/
  | last {s t : List Char} (ha : Alternative s t) : Disjunction s t
  /-- An alternative, a bar and the other alternatives. -/
  | bar {s u t : List Char} (ha : Alternative s ('|' :: u)) (hd : Disjunction u t) :
      Disjunction s t

end

/-! ## First characters -/

/-- What stands before the rest of a disjunction: a quantifier, or nothing. -/
inductive Tail : List Char → List Char → Prop where
  /-- The rest of the disjunction alone. -/
  | once {s t : List Char} (hd : Disjunction s t) : Tail s t
  /-- A quantifier and the rest of the disjunction. -/
  | repeated {s u t : List Char} (hq : Quantifier s u) (hd : Disjunction u t) : Tail s t

/-- The ways in which a disjunction begins. -/
inductive Beginning : List Char → List Char → Prop where
  /-- Nothing is left of the disjunction. -/
  | stop {t : List Char} : Beginning t t
  /-- A bar and the rest of the disjunction. -/
  | bar {s t : List Char} (hd : Disjunction s t) : Beginning ('|' :: s) t
  /-- An element and what stands behind it. -/
  | element {s u t : List Char} (he : Element s u) (ht : Tail u t) : Beginning s t

/-- A `Disjunction` begins in one of the three ways. -/
theorem Disjunction.beginning {s t : List Char} (h : Disjunction s t) : Beginning s t := by
  cases h with
  | last ha =>
    -- without a bar the rest of the alternative is all that is left
    cases ha with
    | nil => exact .stop
    | cons ht ha =>
      cases ht with
      | once he => exact .element he (.once (.last ha))
      | repeated he hq => exact .element he (.repeated hq (.last ha))
  | bar ha hd =>
    -- with a bar the rest of the alternative stands before it
    cases ha with
    | nil => exact .bar hd
    | cons ht ha =>
      cases ht with
      | once he => exact .element he (.once (.bar ha hd))
      | repeated he hq => exact .element he (.repeated hq (.bar ha hd))

/-- The characters that begin neither an element nor an alternative. -/
def nonStarters : List Char := ['|', ')', '*', '+', '?', '{']

/-- An escape begins with a backslash. -/
theorem Escape.head {s t : List Char} (h : Escape s t) : s.head? = some '\\' := by
  cases h <;> rfl

/-- A member begins with any character but the closing bracket. -/
theorem Member.head {s t : List Char} (h : Member s t) : ∃ x, s.head? = some x ∧ x ≠ ']' := by
  cases h with
  | literal hclose => exact ⟨_, rfl, hclose⟩
  | escape he => exact ⟨_, he.head, by decide⟩
  | backspace => exact ⟨_, rfl, by decide⟩
  | identity => exact ⟨_, rfl, by decide⟩

/-- A member that begins with no backslash is its first character. -/
theorem Member.eq_of_literal {x : Char} {s t : List Char} (h : Member (x :: s) t)
    (hx : x ≠ '\\') : s = t := by
  generalize hs : x :: s = u at h
  cases h with
  | literal => exact (List.cons.inj hs).2
  | escape he =>
    rw [← hs] at he
    exact absurd (Option.some.inj he.head) hx
  | backspace => exact absurd (List.cons.inj hs).1 hx
  | identity => exact absurd (List.cons.inj hs).1 hx

/-- There are no members before a closing bracket or at the end. -/
theorem Members.eq_of_head {s t : List Char} (h : Members s t)
    (hs : ∀ x, s.head? = some x → x = ']') : s = t := by
  cases h with
  | nil => rfl
  | cons hm =>
    obtain ⟨x, hx, hclose⟩ := hm.head
    exact absurd (hs x hx) hclose

/-- Members before a closing bracket are none, or a member and others. -/
theorem Members.first {x : Char} {s t u : List Char} (h : Members s (']' :: t)) (hs : s = x :: u)
    (hx : x ≠ ']') : ∃ v, Member s v ∧ Members v (']' :: t) := by
  cases h with
  | nil => exact absurd (List.cons.inj hs).1.symm hx
  | cons hm hms => exact ⟨_, hm, hms⟩

/-- An `Element` begins with none of the `nonStarters`. -/
theorem Element.head {s t : List Char} (h : Element s t) :
    ∃ x, s.head? = some x ∧ x ∉ nonStarters := by
  cases h with
  | @literal x _ hx =>
    have hreserved : ∀ y ∈ nonStarters, y ∈ syntaxChars := forall_mem_of_all (by decide)
    exact ⟨x, rfl, fun hmem => hx (hreserved x hmem)⟩
  | @symbol x _ hx =>
    have hstart : ∀ y ∈ ['.', '^', '$'], y ∉ nonStarters := forall_mem_of_all (by decide)
    exact ⟨x, rfl, hstart x hx⟩
  | escape he => exact ⟨_, he.head, by decide⟩
  | _ => exact ⟨_, rfl, by decide⟩

/-- An element that begins with a character without a meaning of its own is this character. -/
theorem Element.eq_of_literal {x : Char} {s t : List Char} (h : Element (x :: s) t)
    (hx : x ∉ syntaxChars) : s = t := by
  generalize hs : x :: s = u at h
  -- all other elements begin with a syntax character
  cases h with
  | literal => exact (List.cons.inj hs).2
  | @symbol y _ hy =>
    have hreserved : ∀ y ∈ ['.', '^', '$'], y ∈ syntaxChars := forall_mem_of_all (by decide)
    exact absurd ((List.cons.inj hs).1 ▸ hreserved y hy) hx
  | escape he =>
    rw [← hs] at he
    exact absurd (Option.some.inj he.head ▸ by decide) hx
  | _ => exact absurd ((List.cons.inj hs).1 ▸ by decide) hx

/-- A quantifier begins with one of four characters. -/
theorem Quantifier.head {s t : List Char} (h : Quantifier s t) :
    ∃ x, s.head? = some x ∧ x ∈ ['*', '+', '?', '{'] := by
  cases h with
  | eager ho => cases ho <;> exact ⟨_, rfl, by decide⟩
  | lazy ho => cases ho <;> exact ⟨_, rfl, by decide⟩

/-- A group of the grammar is an `Identifier`, a body and a closing parenthesis. -/
theorem Element.group_of_head {s t : List Char} (h : Element ('(' :: s) t) :
    ∃ u, Identifier s u ∧ Disjunction u (')' :: t) := by
  generalize hs : '(' :: s = v at h
  cases h with
  | literal hx => exact absurd ((List.cons.inj hs).1 ▸ by decide) hx
  | symbol hx => exact absurd ((List.cons.inj hs).1 ▸ hx) (by decide)
  | escape he =>
    rw [← hs] at he
    cases he.head
  | group hi hd => exact ⟨_, (List.cons.inj hs).2 ▸ hi, hd⟩
  | _ => cases hs

/-- A disjunction is empty where no element and no bar can begin. -/
theorem Disjunction.eq_of_head {s t : List Char} (h : Disjunction s t)
    (hs : ∀ x, s.head? = some x → x ∈ nonStarters ∧ x ≠ '|') : s = t := by
  cases h.beginning with
  | stop => rfl
  | bar => exact absurd rfl (hs '|' rfl).2
  | element he =>
    obtain ⟨x, hx, hstart⟩ := he.head
    exact absurd (hs x hx).1 hstart

/-- A disjunction that begins with a bar goes on behind it. -/
theorem Disjunction.of_bar {s t : List Char} (h : Disjunction ('|' :: s) t)
    (ht : t.head? ≠ some '|') : Disjunction s t := by
  generalize hs : '|' :: s = u at h
  cases h.beginning with
  | stop => exact absurd (congrArg List.head? hs).symm ht
  | bar hd => exact (List.cons.inj hs).2 ▸ hd
  | element he =>
    obtain ⟨x, hx, hstart⟩ := he.head
    rw [← hs] at hx
    exact absurd (Option.some.inj hx ▸ by decide) hstart

/-- A disjunction that is not empty and does not begin with a bar begins with an element. -/
theorem Disjunction.element_of_head {s t : List Char} (h : Disjunction s t) (hne : s ≠ t)
    (hbar : s.head? ≠ some '|') : ∃ u, Element s u ∧ Tail u t := by
  cases h.beginning with
  | stop => exact absurd rfl hne
  | bar => exact absurd rfl hbar
  | element he htail => exact ⟨_, he, htail⟩

/-- Behind a digit that a disjunction begins with stands what may stand behind an element. -/
theorem Disjunction.tail_of_digit {d : Char} {s t : List Char} (h : Disjunction (d :: s) t)
    (hd : isDecimalDigit d = true) (ht : t.head? ≠ some d) : Tail s t := by
  have hdigit : ∀ x ∈ syntaxChars, isDecimalDigit x = false := forall_mem_of_all (by decide)
  have hpattern : d ∉ syntaxChars := fun hmem => by simp [hdigit d hmem] at hd
  generalize hs : d :: s = u at h
  cases h.beginning with
  | stop => exact absurd (congrArg List.head? hs).symm ht
  | bar => exact absurd ((List.cons.inj hs).1 ▸ by decide) hpattern
  | element he htail =>
    rw [← hs] at he
    exact he.eq_of_literal hpattern ▸ htail

/-- Digits that may begin the rest of a disjunction may belong to the element before it. -/
theorem Tail.of_digits {digits s t : List Char} (h : Tail (digits ++ s) t)
    (hdigits : ∀ d ∈ digits, isDecimalDigit d = true)
    (ht : ∀ x, t.head? = some x → isDecimalDigit x = false) : Tail s t := by
  induction digits with
  | nil => exact h
  | cons d digits ih =>
    -- no quantifier begins with a digit, so the first one is an element of its own and is given up
    have hd := hdigits d List.mem_cons_self
    refine ih ?_ fun e he => hdigits e (List.mem_cons_of_mem d he)
    cases h with
    | once hrest =>
      refine hrest.tail_of_digit hd fun hhead => ?_
      simp [ht d hhead] at hd
    | repeated hq hrest =>
      have hdigit : ∀ x ∈ ['*', '+', '?', '{'], isDecimalDigit x = false :=
        forall_mem_of_all (by decide)
      obtain ⟨x, hx, hmem⟩ := hq.head
      obtain rfl : d = x := Option.some.inj hx
      simp [hdigit d hmem] at hd

end Grammar

end RegexTree
