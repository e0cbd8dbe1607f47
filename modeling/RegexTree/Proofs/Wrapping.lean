import RegexTree.Proofs.Alike.Derivation
import RegexTree.Proofs.Grammar.Readers

/-! # Patterns in groups
The main statement says that a pattern between parentheses is one group with this pattern as its
body, of the kind that stands behind the opening parenthesis and with the quantifier that stands
behind the closing one. The pattern may make no sense in places, as long as nothing in it ends only
with the input and none of its closing parentheses is without a group. -/

namespace RegexTree

open Cursor (Alike)

/-! ## Kinds of groups -/

/-- The kind of a group that begins at the offset zero, with the text behind its parenthesis. A name
is any text that is read as a name up to the closing angle bracket. -/
inductive GroupKind.IsNamedBy : GroupKind → String → Prop where
  /-- Nothing stands behind the parenthesis. -/
  | anonymous : IsNamedBy .anonymous ""
  /-- A group that captures nothing. -/
  | nonCapturing : IsNamedBy (.nonCapturing ⟨1, 3⟩) "?:"
  /-- What follows the place must match. -/
  | lookahead : IsNamedBy (.lookahead ⟨1, 3⟩) "?="
  /-- What follows the place must not match. -/
  | negativeLookahead : IsNamedBy (.negativeLookahead ⟨1, 3⟩) "?!"
  /-- What precedes the place must match. -/
  | lookbehind : IsNamedBy (.lookbehind ⟨1, 4⟩) "?<="
  /-- What precedes the place must not match. -/
  | negativeLookbehind : IsNamedBy (.negativeLookbehind ⟨1, 4⟩) "?<!"
  /-- A name in angle brackets. -/
  | named {text : String} {name : GroupName}
      (hname : GroupName.read? (.ofString (text ++ ">")) =
        some (name, ⟨text.utf8ByteSize, ['>']⟩)) :
      IsNamedBy (.named ⟨1, 1 + ("?<" ++ text ++ ">").utf8ByteSize⟩ (name.shift 3))
        ("?<" ++ text ++ ">")

/-- A text that is read as a `GroupName` up to a closing bracket is read so wherever it stands
before one. -/
theorem GroupName.read?_shift {text : String} {name : GroupName}
    (h : read? (.ofString (text ++ ">")) = some (name, ⟨text.utf8ByteSize, ['>']⟩)) (pos : Nat)
    (r : List Char) :
    read? ⟨pos, text.toList ++ '>' :: r⟩ =
      some (name.shift pos, ⟨pos + text.utf8ByteSize, '>' :: r⟩) := by
  have halike : Alike pos 0 [] r (.ofString (text ++ ">")) ⟨pos, text.toList ++ '>' :: r⟩ := by
    refine ⟨Nat.zero_add pos, text.toList ++ ['>'], ?_, by simp⟩
    simp [Cursor.ofString, String.toList_append]
  obtain ⟨name', later', hread, hname, hlater, -⟩ := alike_of_read? halike h List.nil_suffix
  have hpos : later'.pos = pos + text.utf8ByteSize :=
    (hlater.pos_eq.symm.trans (Nat.add_comm _ _))
  have hrest : later'.rest = '>' :: r := by
    obtain ⟨-, u, hu, hv⟩ := hlater
    rw [List.append_nil] at hu
    rw [hv, ← hu]
    rfl
  have hname' : name' = name.shift pos := by rw [hname, shift_zero]
  rw [hread, hname', ← hpos, ← hrest]

/-- An identifier with a `GroupName` is read up to its closing bracket. -/
theorem GroupKind.readIdentifier_eq_named {text : String} {name : GroupName}
    (h : GroupName.read? (.ofString (text ++ ">")) = some (name, ⟨text.utf8ByteSize, ['>']⟩))
    (r : List Char) :
    readIdentifier ⟨1, '?' :: '<' :: (text.toList ++ '>' :: r)⟩ =
      (named ⟨1, 3 + text.utf8ByteSize + 1⟩ (name.shift 3), ⟨3 + text.utf8ByteSize + 1, r⟩) := by
  obtain ⟨w, hne, hform, hread, -, -⟩ := GroupName.form_of_read? h
  have hw : w = text.toList := by
    have hrest := hread.1
    simp only [Cursor.ofString, String.toList_append] at hrest
    exact (List.append_cancel_right hrest).symm
  subst hw
  have hplain : readPlain? ⟨1, '?' :: '<' :: (text.toList ++ '>' :: r)⟩ = none :=
    readPlain?_of_name hne hform rfl
  have hopen : Cursor.Reads ⟨1, '?' :: '<' :: (text.toList ++ '>' :: r)⟩ ['?', '<']
      ⟨3, text.toList ++ '>' :: r⟩ := ⟨rfl, rfl⟩
  rw [readIdentifier_eq_readNamed hopen hplain]
  simp only [readNamed, GroupName.read?_shift h 3 r]
  rfl

/-- Behind an opening parenthesis the kind of a group is read up to the end of its text, unless
nothing stands there and a question mark follows. -/
theorem GroupKind.IsNamedBy.read_eq {kind : GroupKind} {text : String} (h : kind.IsNamedBy text)
    {r : List Char} (hr : text = "" → r.head? ≠ some '?') :
    GroupOpening.read ⟨0, '(' :: (text.toList ++ r)⟩ =
      (⟨⟨0, 1⟩, kind⟩, ⟨1 + text.utf8ByteSize, r⟩) := by
  cases h with
  | anonymous => exact if_neg (hr rfl)
  | @named text name hname =>
    have hlength : 1 + ("?<" ++ text ++ ">").utf8ByteSize = 3 + text.utf8ByteSize + 1 := by
      rw [String.utf8ByteSize_append, String.utf8ByteSize_append]
      have hopen : "?<".utf8ByteSize = 2 := rfl
      have hclose : ">".utf8ByteSize = 1 := rfl
      omega
    have htext : ("?<" ++ text ++ ">").toList ++ r = '?' :: '<' :: (text.toList ++ '>' :: r) := by
      simp [String.toList_append]
    have hnext : Cursor.next ⟨0, '(' :: '?' :: '<' :: (text.toList ++ '>' :: r)⟩ =
        ⟨1, '?' :: '<' :: (text.toList ++ '>' :: r)⟩ := rfl
    rw [htext, hlength, GroupOpening.read, hnext]
    simp only [List.head?_cons, if_true, readIdentifier_eq_named hname r]
    rfl
  | _ => rfl

/-! ## Disjunctions in groups -/

/-- A span marks a closing parenthesis that closes nothing. -/
def Invalid.IsStrayClosing (source : String) (i : Invalid) : Prop :=
  i.reason = .unknownConstruct ∧ i.span.textIn source = ")"

instance (source : String) (i : Invalid) : Decidable (i.IsStrayClosing source) :=
  inferInstanceAs (Decidable (_ ∧ _))

/-- A term without a group is the same term in a group, unless it is a closing parenthesis
(`Invalid.IsStrayClosing`). -/
theorem Lexeme.ReadAt.term?_nested {source : String} {nested first : Bool} {c later : Cursor}
    {l : Lexeme} {u : Term} (hread : Lexeme.ReadAt c later l) (hu : l.term? nested first = some u)
    (hc : (Cursor.ofString source).Reaches c)
    (hstray : ∀ i ∈ u.element.invalids, ¬ i.IsStrayClosing source) :
    l.term? true first = some u := by
  cases hread.takes with
  | closing hclose hq =>
    cases nested with
    | true => exact hu
    | false =>
      cases hu
      obtain ⟨before, hbefore⟩ := hc
      exact absurd ⟨rfl, Cursor.textIn_spanTo hbefore hclose⟩ (hstray _ List.mem_cons_self)
  | _ => exact hu

/-- What is derived outside of groups is derived in a group as well, if no closing parenthesis
closes nothing. -/
theorem Derives.nested {source : String} {nested first : Bool} {c mid later : Cursor}
    {terms : List Term} {others : List Branch}
    (h : Derives nested first c terms mid others later) (hc : (Cursor.ofString source).Reaches c)
    (hstray : ∀ i ∈ Term.invalidsOfAll terms ++ Branch.invalidsOfAll others,
      ¬ i.IsStrayClosing source) : Derives true first c terms mid others later := by
  induction h with
  | stop hend => exact .stop (hend.imp_right fun hclose => ⟨rfl, hclose.2⟩)
  | bar hbar hread hrest ih => exact .bar hbar hread (ih (hc.trans hbar.reaches) hstray)
  | term hread hterm hrest ih =>
    rw [Term.invalidsOfAll_cons, List.append_assoc] at hstray
    obtain ⟨helement, hmore⟩ := List.forall_mem_append.mp hstray
    exact .term hread (hread.term?_nested hterm hc helement) (ih (hc.trans hread.reaches) hmore)
  | group ho hread hbody hclose hrest ihbody ih =>
    rw [Term.invalidsOfAll_cons, List.append_assoc] at hstray
    have hgroup := hread.reaches.trans (hbody.reaches_later.trans hclose.reaches)
    exact .group ho hread hbody hclose
      (ih (hc.trans hgroup) (List.forall_mem_append.mp hstray).2)

/-! ## What follows a group -/

/-- The quantifier that the whole of a text is at an offset; the empty text is none. -/
def Quantifier.IsReadOff (offset : Nat) (text : String) : Option Quantifier → Prop
  | none => text = ""
  | some q => Takes ⟨offset, text.toList⟩ ⟨offset + text.utf8ByteSize, []⟩ q

/-- The whole of a text that is empty or a `Grammar.Quantifier` is read as this quantifier. -/
theorem Quantifier.exists_isReadOff (offset : Nat) {text : String}
    (h : text = "" ∨ Grammar.Quantifier text.toList []) :
    ∃ q, IsReadOff offset text q ∧
      Follows ⟨offset, text.toList⟩ ⟨offset + text.utf8ByteSize, []⟩ q := by
  rcases h with rfl | h
  · refine ⟨none, rfl, .absent fun later q hq => ?_⟩
    obtain ⟨x, w, -, hread⟩ := hq.reads
    cases hread.1
  · obtain ⟨q, later, hq, hend⟩ :=
      Grammar.Quantifier.exists_takes (c := ⟨offset, text.toList⟩) h (by simp)
    obtain ⟨x, w, -, hread⟩ := hq.reads
    have hlater : later = ⟨offset + text.utf8ByteSize, []⟩ := by
      rw [hread.reaches.eq_of_end hend, byteLength_toList]
    rw [hlater] at hq
    exact ⟨some q, hq, .present hq⟩

/-! ## The whole pattern -/

/-- Where the text of a pattern stands before a closing parenthesis, its body is derived (`Derives`)
as that of a group, moved to this place, if nothing in it ends only with the input and every closing
parenthesis in it closes a group. -/
theorem Regex.exists_derives_nested {pattern : String} (pos : Nat) (r : List Char)
    (hclosed : ∀ i ∈ (Tree.parse pattern).diagnostics,
      ¬ i.IsCutOff ∧ ¬ i.IsStrayClosing pattern) :
    ∃ terms mid others,
      Derives true true ⟨pos, pattern.toList ++ ')' :: r⟩ terms mid others
          ⟨pos + pattern.utf8ByteSize, ')' :: r⟩ ∧
        (⟨⟨⟨pos, mid.pos⟩, terms⟩, others⟩ : Disjunction) = (parse pattern).body.shift pos := by
  obtain ⟨terms, mid, others, later, hd, hend, hpos⟩ := exists_derives pattern
  rw [hd.invalids_eq] at hclosed
  have hnested := hd.nested (.refl _) fun i hi => (hclosed i hi).2
  have halike : Alike pos 0 [] (')' :: r) (.ofString pattern) ⟨pos, pattern.toList ++ ')' :: r⟩ :=
    ⟨Nat.zero_add _, pattern.toList, (List.append_nil _).symm, rfl⟩
  obtain ⟨terms', mid', others', later', hshift, hlater, hderives⟩ :=
    hnested.alike_disjunction halike (.cons (by decide) r) List.nil_suffix
      (fun _ _ i hi => (hclosed i hi).1) fun (_ : true = true) => rfl
  have hrest : later'.rest = ')' :: r := hlater.rest_of_rest_eq hend
  have hlaterEq : later' = ⟨pos + pattern.utf8ByteSize, ')' :: r⟩ := by
    rw [← hrest, Nat.add_comm, ← hpos, hlater.pos_eq]
    rfl
  have hends : EndsAt true later' := .inr ⟨rfl, by rw [hrest]; rfl⟩
  refine ⟨terms', mid', others', hlaterEq ▸ hderives hends, ?_⟩
  rw [hd.body_eq, hshift, Disjunction.shift_zero]
  rfl

/-- A pattern in parentheses is one alternative with one term: a group of the kind that is named
behind the opening parenthesis, with the body of the pattern, moved, and the quantifier that stands
behind the closing one. -/
theorem Regex.parse_group {kind : GroupKind} (identifier pattern repetition : String)
    (hkind : kind.IsNamedBy identifier)
    (hmark : identifier = "" → pattern.toList.head? ≠ some '?')
    (hclosed : ∀ i ∈ (Tree.parse pattern).diagnostics,
      ¬ i.IsCutOff ∧ ¬ i.IsStrayClosing pattern)
    (hrepetition : repetition = "" ∨ Grammar.Quantifier repetition.toList []) :
    let inside := 1 + identifier.utf8ByteSize
    let stop := inside + pattern.utf8ByteSize
    ∃ q, Quantifier.IsReadOff (stop + 1) repetition q ∧
      (parse ("(" ++ identifier ++ pattern ++ ")" ++ repetition)).body =
        ⟨⟨⟨0, stop + 1 + repetition.utf8ByteSize⟩,
          [⟨.group ⟨⟨0, stop + 1⟩, ⟨⟨0, 1⟩, kind⟩, (parse pattern).body.shift inside,
            some ⟨stop, stop + 1⟩⟩, q⟩]⟩, []⟩ := by
  intro inside stop
  have hwhole : Cursor.ofString ("(" ++ identifier ++ pattern ++ ")" ++ repetition) =
      ⟨0, '(' :: (identifier.toList ++ (pattern.toList ++ ')' :: repetition.toList))⟩ := by
    simp [Cursor.ofString, String.toList_append]
  have hopen : GroupOpening.read
      (.ofString ("(" ++ identifier ++ pattern ++ ")" ++ repetition)) =
        (⟨⟨0, 1⟩, kind⟩, ⟨inside, pattern.toList ++ ')' :: repetition.toList⟩) := by
    rw [hwhole]
    refine hkind.read_eq fun hempty => ?_
    have hhead := hmark hempty
    cases hpattern : pattern.toList with
    | nil => simp
    | cons x r => simpa [hpattern] using hhead
  have hrest := congrArg Cursor.rest hwhole
  have hopening := GroupOpening.takes_read hrest
  have hread := Lexeme.read_open hrest
  rw [hopen] at hopening hread
  obtain ⟨terms, mid, others, hbody, hshift⟩ :=
    exists_derives_nested inside repetition.toList hclosed
  -- the closing parenthesis ends the group, and the quantifier behind it ends the input
  obtain ⟨q, hq, hfollows⟩ := Quantifier.exists_isReadOff (stop + 1) hrepetition
  have hclose : Cursor.Reads ⟨stop, ')' :: repetition.toList⟩ [')'] ⟨stop + 1, repetition.toList⟩ :=
    ⟨rfl, rfl⟩
  have hgroup : Derives false true _ _ _ _ _ :=
    .group hopening ⟨_, _, hrest, hread⟩ hbody (.of_follows hclose hfollows) (.stop (.inl rfl))
  refine ⟨q, hq, ?_⟩
  rw [hgroup.body_eq, ← hshift]
  rfl

/-- A lookahead around a class with a bad escape and a group without a name, repeated lazily. -/
theorem Regex.parse_group_lookahead :
    (GroupKind.lookahead ⟨1, 3⟩).IsNamedBy "?=" ∧
      (∀ i ∈ (Tree.parse "[\\q]|(?<>x)").diagnostics,
        ¬ i.IsCutOff ∧ ¬ i.IsStrayClosing "[\\q]|(?<>x)") ∧
      Grammar.Quantifier "{1,2}?".toList [] ∧
      ∃ q, Quantifier.IsReadOff 15 "{1,2}?" q ∧
        (parse ("(" ++ "?=" ++ "[\\q]|(?<>x)" ++ ")" ++ "{1,2}?")).body =
          ⟨⟨⟨0, 21⟩, [⟨.group ⟨⟨0, 15⟩, ⟨⟨0, 1⟩, .lookahead ⟨1, 3⟩⟩,
            (parse "[\\q]|(?<>x)").body.shift 3, some ⟨14, 15⟩⟩, q⟩]⟩, []⟩ :=
  have hclosed : ∀ i ∈ (Tree.parse "[\\q]|(?<>x)").diagnostics,
      ¬ i.IsCutOff ∧ ¬ i.IsStrayClosing "[\\q]|(?<>x)" := by decide +kernel
  have hrepetition : Grammar.Quantifier "{1,2}?".toList [] :=
    .lazy (@Grammar.Operator.bounded ['1'] ['2'] ['?']
      ⟨by decide, forall_mem_of_all (by decide)⟩ (forall_mem_of_all (by decide)))
  ⟨.lookahead, hclosed, hrepetition,
    parse_group "?=" "[\\q]|(?<>x)" "{1,2}?" .lookahead nofun hclosed (.inr hrepetition)⟩

end RegexTree
