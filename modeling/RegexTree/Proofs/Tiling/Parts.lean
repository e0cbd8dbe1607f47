import RegexTree.Node.OfRegex
import RegexTree.Proofs.Derivation
import RegexTree.Proofs.Tiling.Basic

/-! # Tilings of the parts of a pattern
The node of each part of the typed tree tiles the text that was read for the part. The main
statement, `Derives.tiles`, follows a derivation: the nodes of its terms and of its further
alternatives tile what is read. -/

namespace RegexTree

namespace Node

variable {c mid later : Cursor}

/-! ## Single nodes -/

/-- A `leaf` tiles what it spans. -/
theorem tiles_leaf {kind : NodeKind} (hkind : (kind == .pattern) = false) (h : c.Reaches later) :
    Tiles c [leaf kind (c.spanTo later)] later :=
  .leaf (by simp [isBranch, isLeaf, leaf, hkind]) rfl h .nil

/-- An invalid leaf, by `ofInvalid`, tiles what it spans. -/
theorem tiles_ofInvalid (reason : Reason) (h : c.Reaches later) :
    Tiles c [ofInvalid ⟨c.spanTo later, reason⟩] later :=
  .leaf rfl rfl h .nil

/-- A `branch` tiles what its children tile. -/
theorem tiles_branch {children : List Node} (kind : NodeKind) (h : Tiles c children later) :
    Tiles c [branch kind (c.spanTo later) children] later :=
  .branch rfl h .nil

/-- One node more tiles one part more. -/
theorem Tiles.cons {n : Node} {ns : List Node} (hn : Tiles c [n] mid) (hns : Tiles mid ns later) :
    Tiles c (n :: ns) later :=
  hn.append hns

/-- A `punctuation` of a known width tiles the token. -/
theorem tiles_punctuation {token : List Char} {start stop : Nat} (h : c.Reads token later)
    (hstart : start = c.pos) (hstop : stop = later.pos) :
    Tiles c [punctuation start stop] later := by
  subst hstart hstop
  exact tiles_leaf rfl h.reaches

/-- A node that may be left out tiles what `Cursor.skipOptional` took. -/
theorem tiles_optional {x : Char} {kind : NodeKind} {s : Option Span}
    (hkind : (kind == .pattern) = false) (h : Cursor.Skips x c later s) :
    Tiles c (s.map (leaf kind)).toList later := by
  cases h with
  | absent => exact .nil
  | present hread => exact tiles_leaf hkind hread.reaches

/-! ## Escapes -/

/-- A code between fixed tokens has a node for each of them and for itself; only code points in
braces have a token behind their digits. -/
theorem ofCode_eq {kind code : NodeKind} {start stop : Cursor} {token suffix : List Char}
    (htoken : c.Reads token start) (hsuffix : stop.Reads suffix later) :
    ofCode kind code (c.spanTo later) (byteLength token) (byteLength suffix) =
      branch kind (c.spanTo later)
        ([punctuation c.pos start.pos, leaf code (start.spanTo stop)] ++
          if suffix = [] then [] else [punctuation stop.pos later.pos]) := by
  have hstart : c.pos + byteLength token = start.pos := htoken.2.symm
  have hstop : later.pos - byteLength suffix = stop.pos := by
    have := hsuffix.2
    omega
  simp only [ofCode, Cursor.spanTo, hstart, hstop]
  by_cases hempty : suffix = []
  · rw [if_pos hempty, hempty, if_pos byteLength_nil]
  · rw [if_neg hempty, if_neg (Nat.ne_of_gt (byteLength_pos hempty))]

/-- A code between fixed tokens is tiled by them and the code. -/
theorem tiles_ofCode {kind code : NodeKind} {start stop : Cursor} {token digits suffix : List Char}
    (hcode : (code == .pattern) = false) (htoken : c.Reads token start)
    (hdigits : start.Reads digits stop) (hsuffix : stop.Reads suffix later) :
    Tiles c [ofCode kind code (c.spanTo later) (byteLength token) (byteLength suffix)] later := by
  rw [ofCode_eq htoken hsuffix]
  refine tiles_branch kind ?_
  refine (tiles_punctuation htoken rfl rfl).cons ((tiles_leaf hcode hdigits.reaches).append ?_)
  by_cases hempty : suffix = []
  · subst hempty
    obtain rfl := hsuffix.unique (.refl stop)
    rw [if_pos rfl]
    exact .nil
  · rw [if_neg hempty]
    exact tiles_punctuation hsuffix rfl rfl

/-- A `UnicodeProperty` tiles what stands between its braces. -/
theorem tiles_ofProperty {negated : Bool} {p : UnicodeProperty}
    (h : UnicodeProperty.Form negated c later p) :
    Tiles c (ofPropertyName p.name ++ [leaf .unicodePropertyValue p.value.span]) later := by
  cases h with
  | value hword hread => exact tiles_leaf rfl hread.reaches
  | named hname hreadName hoperator hword hread =>
    exact (tiles_leaf rfl hreadName.reaches).cons
      ((tiles_leaf rfl hoperator.reaches).cons (tiles_leaf rfl hread.reaches))

/-- The node of an `Escaped`. -/
def ofEscaped : Escaped → Node
  | .character e => ofEscape e
  | .set e => ofClassEscape e
  | .invalid i => ofInvalid i

/-- As an atom of a class, a backslash sequence has the node that it has on its own
(`ofEscaped`). -/
theorem ofClassAtom_ofEscaped (e : Escaped) :
    ofClassAtom (ClassAtom.ofEscaped e) = ofEscaped e := by
  cases e <;> rfl

/-- As an atom, a backslash sequence has the node that it has on its own (`ofEscaped`). -/
theorem ofAtom_ofEscaped (e : Escaped) : ofAtom (Atom.ofEscaped e) = ofEscaped e := by
  cases e <;> rfl

/-- The node of an `Escaped` tiles it. -/
theorem tiles_ofEscaped {inClass : Bool} {e : Escaped} (h : Escaped.Takes inClass c later e) :
    Tiles c [ofEscaped e] later := by
  cases h with
  | special hx hread => exact tiles_leaf rfl hread.reaches
  | @controlLetter x hx hread =>
    obtain ⟨start, htoken, hcode⟩ := (Cursor.reads_append_iff (s := ['\\', 'c'])).mp hread
    exact tiles_ofCode rfl htoken hcode (.refl later)
  | @hexadecimal digits hlength hdigits hread =>
    obtain ⟨start, htoken, hcode⟩ := (Cursor.reads_append_iff (s := ['\\', 'x'])).mp hread
    exact tiles_ofCode rfl htoken hcode (.refl later)
  | unicode hp hread =>
    cases hp with
    | @plain digits hlength hdigits =>
      obtain ⟨start, htoken, hcode⟩ := (Cursor.reads_append_iff (s := ['\\', 'u'])).mp hread
      exact tiles_ofCode rfl htoken hcode (.refl later)
    | @braced digits hne hdigits hle =>
      obtain ⟨stop, hread, hclose⟩ :=
        (Cursor.reads_append_iff (s := '\\' :: 'u' :: '{' :: digits)).mp hread
      obtain ⟨start, htoken, hcode⟩ := (Cursor.reads_append_iff (s := ['\\', 'u', '{'])).mp hread
      exact tiles_ofCode rfl htoken hcode hclose
  | null hread hnext => exact tiles_leaf rfl hread.reaches
  | @identity x hx hread =>
    obtain ⟨start, hoperator, hchar⟩ := Cursor.reads_cons_iff.mp hread
    have hstart : c.pos + 1 = start.pos := hoperator.2.symm
    refine tiles_branch _ ?_
    simp only [Cursor.spanTo, hstart]
    exact (tiles_leaf rfl hoperator.reaches).cons (tiles_punctuation hchar rfl rfl)
  | predefined hx hread => exact tiles_leaf rfl hread.reaches
  | @property x p inside close hx hopen hp hclose =>
    -- the letter of a property is one of two, and either has one byte
    have hstart : c.pos + 3 = inside.pos := by
      rw [hopen.2]
      rcases hx with rfl | rfl <;> rfl
    have hstop : later.pos - 1 = close.pos := by rw [hclose.2]; rfl
    refine tiles_branch _ ?_
    simp only [Cursor.spanTo, hstart, hstop, List.cons_append]
    rw [List.append_cons]
    have hinner := (tiles_ofProperty hp).append (tiles_punctuation hclose rfl rfl)
    exact (tiles_punctuation hopen rfl rfl).append hinner
  | lone hread hend => exact tiles_ofInvalid _ hread.reaches
  | bad hw hread => exact tiles_ofInvalid _ hread.reaches

/-! ## Character classes -/

/-- The node of a `ClassAtom` tiles it. -/
theorem tiles_ofClassAtom {a : ClassAtom} (h : ClassAtom.Takes c later a) :
    Tiles c [ofClassAtom a] later := by
  cases h with
  | literal hx hclose hread => exact tiles_leaf rfl hread.reaches
  | escaped he =>
    rw [ofClassAtom_ofEscaped]
    exact tiles_ofEscaped he

/-- The node of a `ClassMember` tiles it. -/
theorem tiles_ofClassMember {m : ClassMember} (h : ClassMember.Takes c later m) :
    Tiles c [ofClassMember m] later := by
  cases h with
  | atom ha => exact tiles_ofClassAtom ha
  | range hlow hdash hhigh =>
    have hspan : (ClassMember.range _).span = c.spanTo later :=
      (ClassMember.Takes.range hlow hdash hhigh).span_eq
    rw [ClassMember.span] at hspan
    rw [ofClassMember, hspan]
    exact tiles_branch _ ((tiles_ofClassAtom hlow).cons
      ((tiles_leaf rfl hdash.reaches).cons (tiles_ofClassAtom hhigh)))

/-- The nodes of members tile them. -/
theorem tiles_map_ofClassMember {ms : List ClassMember}
    (h : CharacterClass.Members c ms later) : Tiles c (ms.map ofClassMember) later := by
  induction h with
  | nil => exact .nil
  | cons hm hms ih => exact (tiles_ofClassMember hm).cons ih

/-- The node of a closing delimiter tiles it, and the stand-in for a missing one tiles nothing. -/
theorem tiles_ofClosing {x : Char} {kind : NodeKind} {reason : Reason} {closing : Option Span}
    (hkind : (kind == .pattern) = false) (h : Cursor.Skips x c later closing) :
    Tiles c [ofClosing kind reason later.pos closing] later := by
  cases h with
  | absent => exact tiles_ofInvalid _ (.refl c)
  | present hread => exact tiles_leaf hkind hread.reaches

/-- The node of a class tiles it. -/
theorem tiles_ofCharacterClass {s : CharacterClass} (h : CharacterClass.Takes c later s) :
    Tiles c [ofCharacterClass s] later := by
  obtain ⟨hopen, hnegation, hmembers, hclosing, -⟩ := h
  refine tiles_branch _ ?_
  rw [List.cons_append, List.cons_append]
  exact (tiles_leaf rfl hopen.reaches).cons
    (((tiles_optional rfl hnegation).append (tiles_map_ofClassMember hmembers)).append
      (tiles_ofClosing rfl hclosing))

/-! ## Atoms
A `GroupName` between fixed tokens is tiled by them and the node of the name (`Node.ofName`). -/

/-- A name between fixed tokens is tiled by them and the name. -/
theorem tiles_ofName {kind : NodeKind} {start stop : Cursor} {token w : List Char}
    {name : GroupName} (htoken : c.Reads token start) (hread : start.Reads w stop)
    (hclose : stop.Reads ['>'] later) (hspan : name.span = start.spanTo stop) :
    Tiles c [ofName kind (c.spanTo later) name] later := by
  rw [ofName, hspan]
  exact tiles_branch _ ((tiles_punctuation htoken rfl rfl).cons
    ((tiles_leaf rfl hread.reaches).cons (tiles_punctuation hclose rfl rfl)))

/-- The node of a reference by name (`Atom.ofReference`), or of what is left of one, tiles it. -/
theorem tiles_ofReference {r : Except Invalid Backreference} (h : Backreference.Takes c later r) :
    Tiles c [ofAtom (Atom.ofReference r)] later := by
  cases h with
  | named hopen hne hw hread hclose hspan => exact tiles_ofName hopen hread hclose hspan
  | bare hread => exact tiles_ofInvalid _ hread.reaches
  | malformed hopen hw hread => exact tiles_ofInvalid _ (hopen.trans hread).reaches

/-- The node of an atom tiles it. -/
theorem tiles_ofAtom {a : Atom} (h : Atom.Takes c later a) : Tiles c [ofAtom a] later := by
  cases h with
  | literal hx hread => exact tiles_leaf rfl hread.reaches
  | anyCharacter hread => exact tiles_leaf rfl hread.reaches
  | atStart hread => exact tiles_leaf rfl hread.reaches
  | atEnd hread => exact tiles_leaf rfl hread.reaches
  | @boundary x hx hread =>
    refine tiles_leaf ?_ hread.reaches
    split <;> rfl
  | numeric hd hzero hdigits hread hnext => exact tiles_leaf rfl hread.reaches
  | reference hr => exact tiles_ofReference hr
  | escaped he =>
    rw [ofAtom_ofEscaped]
    exact tiles_ofEscaped he
  | characterClass hs => exact tiles_ofCharacterClass hs
  | stray hx hread => exact tiles_ofInvalid _ hread.reaches

/-! ## Quantifiers -/

/-- The nodes of an `UpperPart`, which follows a lower bound, tile it. -/
theorem tiles_ofUpperPart {upper : Option UpperPart} (h : UpperPart.Takes c later upper) :
    Tiles c (ofUpperPart upper) later := by
  cases h with
  | none => exact .nil
  | comma hread => exact tiles_leaf rfl hread.reaches
  | bound hcomma hdigits hread =>
    exact (tiles_leaf rfl hcomma.reaches).cons (tiles_leaf rfl hread.reaches)

/-- The nodes of an operator tile it. -/
theorem tiles_ofOperator {kind : QuantifierKind} (h : QuantifierKind.Takes c later kind) :
    Tiles c (ofOperator kind (c.spanTo later)).2 later := by
  cases h with
  | zeroOrMore hread => exact tiles_punctuation hread rfl rfl
  | oneOrMore hread => exact tiles_punctuation hread rfl rfl
  | optional hread => exact tiles_punctuation hread rfl rfl
  | count hcount =>
    obtain @⟨digits, inside, middle, close, upper, hopen, hdigits, hread, hupper, hclose⟩ := hcount
    have hstart : c.pos + 1 = inside.pos := hopen.2.symm
    have hstop : later.pos - 1 = close.pos := by rw [hclose.2]; rfl
    simp only [ofOperator, Cursor.spanTo, hstart, hstop]
    exact (tiles_punctuation hopen rfl rfl).cons ((tiles_leaf rfl hread.reaches).cons
      ((tiles_ofUpperPart hupper).append (tiles_punctuation hclose rfl rfl)))

/-- The node of a `Quantifier` tiles it. -/
theorem tiles_ofQuantifier {q : Quantifier} (h : Quantifier.Takes c later q) :
    Tiles c [ofQuantifier q] later := by
  have hspan := h.span_eq
  obtain ⟨hkind, hmark⟩ := h
  rw [ofQuantifier, hspan]
  exact tiles_branch _ ((tiles_ofOperator hkind).append (tiles_optional rfl hmark))

/-! ## Groups and alternatives -/

/-- The node of a `GroupKind` tiles it. -/
theorem tiles_ofGroupKind {kind : GroupKind} (h : GroupKind.Takes c later kind) :
    Tiles c (ofGroupKind kind).2.toList later := by
  cases h with
  | @plain word kind hword hread =>
    rcases GroupKind.eq_of_mem_identifiers hword with
      ⟨-, rfl⟩ | ⟨-, rfl⟩ | ⟨-, rfl⟩ | ⟨-, rfl⟩ | ⟨-, rfl⟩
    all_goals exact tiles_leaf rfl hread.reaches
  | named hopen hne hw hread hclose hspan => exact tiles_ofName hopen hread hclose hspan
  | badName hopen hw hread => exact tiles_ofInvalid _ (hopen.trans hread).reaches
  | unknown hread => exact tiles_ofInvalid _ hread.reaches

/-- Behind its parenthesis an opening is tiled by the node of its identifier. -/
theorem tiles_identifier {o : GroupOpening} (h : GroupOpening.Takes c later o) :
    ∃ inside, c.Reads ['('] inside ∧ o.parenthesis = c.spanTo inside ∧
      Tiles inside (ofGroupKind o.kind).2.toList later := by
  cases h with
  | anonymous hread hnext => exact ⟨later, hread, rfl, .nil⟩
  | identified hopen hkind => exact ⟨_, hopen, rfl, tiles_ofGroupKind hkind⟩

/-- The nodes of a `GroupOpening` tile it. -/
theorem tiles_opening {o : GroupOpening} (h : GroupOpening.Takes c later o) :
    Tiles c (leaf .groupBegin o.parenthesis :: (ofGroupKind o.kind).2.toList) later := by
  obtain ⟨inside, hopen, hparenthesis, hidentifier⟩ := tiles_identifier h
  rw [hparenthesis]
  exact (tiles_leaf rfl hopen.reaches).cons hidentifier

/-- The nodes of a term: its element, and its quantifier if it has one. -/
def ofTerm (t : Term) : List Node :=
  ofElement t.element :: (t.quantifier.map ofQuantifier).toList

/-- The nodes of terms are those of the first (`Node.ofTerm`) and those of the others. -/
theorem ofTerms_cons (t : Term) (terms : List Term) :
    ofTerms (t :: terms) = ofTerm t ++ ofTerms terms := by
  obtain ⟨element, _ | q⟩ := t
  · rfl
  · rfl

/-- The node of a quantifier that may follow tiles it. -/
theorem tiles_quantifier {q : Option Quantifier} (h : Quantifier.Follows c later q) :
    Tiles c (q.map ofQuantifier).toList later := by
  cases h with
  | absent => exact .nil
  | present hq => exact tiles_ofQuantifier hq

/-- The nodes of a term without a group tile it. -/
theorem tiles_ofTerm {nested first : Bool} {t : Term} (h : Term.Takes nested first c later t) :
    Tiles c (ofTerm t) later := by
  cases h with
  | atom ha hq => exact (tiles_ofAtom ha).cons (tiles_quantifier hq)
  | strayClosing houtside hread hq =>
    exact (tiles_ofInvalid _ hread.reaches).cons (tiles_quantifier hq)
  | strayQuantifier hq =>
    obtain ⟨x, w, -, hread⟩ := hq.reads
    exact tiles_ofInvalid _ hread.reaches
  | malformedCount hw hread =>
    exact tiles_ofInvalid _ (hread.elim Cursor.Reads.reaches Cursor.Reads.reaches)
  | brace hread => exact tiles_ofInvalid _ hread.reaches

/-- The nodes that end a group (`Closes`) tile the closing parenthesis and the quantifier. -/
theorem tiles_closes {close : Cursor} {closing : Option Span} {q : Option Quantifier}
    (h : Closes c close closing later q) :
    Tiles c [ofClosing .groupEnd .unterminatedGroup close.pos closing] close ∧
      Tiles close (q.map ofQuantifier).toList later := by
  cases h with
  | closed hclose hq => exact ⟨tiles_leaf rfl hclose.reaches, tiles_quantifier hq⟩
  | missing => exact ⟨tiles_ofInvalid _ (.refl c), .nil⟩

end Node

/-! ## Derivations -/

/-- Behind its first bar a disjunction ends as the one that begins there. -/
theorem Disjunction.last_cons (first : Alternative) (b : Branch) (others : List Branch) :
    Disjunction.last ⟨first, b :: others⟩ = Disjunction.last ⟨b.alternative, others⟩ := by
  cases others with
  | nil => rfl
  | cons b' others => simp [Disjunction.last, List.getLast?_cons]

namespace Derives

variable {nested first : Bool} {c mid later : Cursor} {terms : List Term} {others : List Branch}

/-- The span of the disjunction that is derived runs from the start to the later place. -/
theorem span_eq (h : Derives nested first c terms mid others later) (start : Cursor)
    (before : List Term) :
    Disjunction.span ⟨⟨start.spanTo mid, before⟩, others⟩ = start.spanTo later := by
  induction h generalizing start before with
  | stop hend => rfl
  | @bar _ _ c next mid later terms others hbar hread hrest ih =>
    -- the span ends with the last alternative, which stands behind the bar
    have hnext := congrArg Span.stop (ih next terms)
    rw [Disjunction.span, Disjunction.last_cons]
    exact congrArg (Span.mk start.pos) hnext
  | term hread hterm hrest ih => exact ih start before
  | group ho hread hbody hclose hrest ihbody ih => exact ih start before

/-- The nodes of terms tile the rest of the current alternative, and the nodes of further
alternatives and their bars tile what follows it. -/
theorem tiles (h : Derives nested first c terms mid others later) :
    Node.Tiles c (Node.ofTerms terms) mid ∧ Node.Tiles mid (Node.ofBranches others) later := by
  induction h with
  | stop hend => exact ⟨.nil, .nil⟩
  | bar hbar hread hrest ih =>
    exact ⟨.nil, (Node.tiles_leaf rfl hbar.reaches).cons ((Node.tiles_branch _ ih.1).cons ih.2)⟩
  | term hread hterm hrest ih =>
    rw [Node.ofTerms_cons]
    exact ⟨(Node.tiles_ofTerm (hread.takes_term hterm)).append ih.1, ih.2⟩
  | @group _ _ c inside innerMid bodyEnd close next mid later o innerTerms terms innerOthers others
      closing q ho hread hbody hclose hrest ihbody ih =>
    obtain ⟨hclosing, hquantifier⟩ := Node.tiles_closes hclose
    -- the body first, then the group around it, then the quantifier and the terms behind it
    have halternatives := (Node.tiles_branch .pattern ihbody.1).cons ihbody.2
    have hdisjunction : Node.Tiles inside
        [Node.ofDisjunction ⟨⟨inside.spanTo innerMid, innerTerms⟩, innerOthers⟩] bodyEnd := by
      rw [Node.ofDisjunction, hbody.span_eq]
      exact Node.tiles_branch _ halternatives
    have hgroup : Node.Tiles c [Node.ofGroup ⟨c.spanTo close, o,
        ⟨⟨inside.spanTo innerMid, innerTerms⟩, innerOthers⟩, closing⟩] close :=
      Node.tiles_branch _ ((Node.tiles_opening ho).append (hdisjunction.cons hclosing))
    rw [Node.ofTerms_cons]
    exact ⟨(hgroup.cons hquantifier).append ih.1, ih.2⟩

/-- The node of a disjunction tiles what is derived. -/
theorem tiles_ofDisjunction (h : Derives nested first c terms mid others later) :
    Node.Tiles c [Node.ofDisjunction ⟨⟨c.spanTo mid, terms⟩, others⟩] later := by
  rw [Node.ofDisjunction, h.span_eq]
  exact Node.tiles_branch _ ((Node.tiles_branch .pattern h.tiles.1).cons h.tiles.2)

end Derives

end RegexTree
