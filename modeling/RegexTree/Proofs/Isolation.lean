import RegexTree.Proofs.Alike.Derivation
import RegexTree.Proofs.Nesting
import RegexTree.Proofs.Tiling.Parts

/-! # Parts of a pattern on their own
The main statement says that parsing the text of an element or of the body of a group gives this
part again, moved to the beginning: what a part is depends neither on what stands around it nor on
the groups that it stands in. -/

namespace RegexTree

open Cursor (Alike)

/-- What is read between two places looks alike when it stands alone. -/
theorem Cursor.Reads.alike_alone {c later : Cursor} {w : List Char} (h : c.Reads w later) :
    Alike 0 c.pos later.rest [] c (.ofString (String.ofList w)) := by
  refine ⟨(Nat.zero_add _).symm, w, h.1, ?_⟩
  rw [List.append_nil]
  exact String.toList_ofList

/-! ## Where the terms of a pattern stand -/

/-- Every term of what is derived stands (`Term.StandsAt`) somewhere between its ends. -/
theorem Derives.standsAt_of_mem {nested first : Bool} {c mid later : Cursor} {terms : List Term}
    {others : List Branch} (h : Derives nested first c terms mid others later) :
    ∀ t ∈ terms ++ others.flatMap (·.alternative.terms),
      ∃ first' a b, c.Reaches a ∧ t.StandsAt nested first' a b := by
  induction h with
  | stop hend => exact List.forall_mem_nil _
  | bar hbar hread hrest ih =>
    intro t ht
    obtain ⟨first', a, b, ha, hstands⟩ := ih t ht
    exact ⟨first', a, b, hbar.reaches.trans ha, hstands⟩
  | @term _ first c next _ _ _ _ _ _ hread hterm hrest ih =>
    intro t ht
    rcases List.mem_cons.mp ht with rfl | ht
    · exact ⟨first, c, next, .refl c, .lexeme hread hterm⟩
    · obtain ⟨first', a, b, ha, hstands⟩ := ih t ht
      exact ⟨first', a, b, hread.reaches.trans ha, hstands⟩
  | @group _ first c _ _ _ _ next _ _ _ _ _ _ _ _ _ ho hread hbody hclose hrest ihbody ih =>
    intro t ht
    rcases List.mem_cons.mp ht with rfl | ht
    · exact ⟨first, c, next, .refl c, .group ho hread hbody hclose⟩
    · obtain ⟨first', a, b, ha, hstands⟩ := ih t ht
      have hgroup := hread.reaches.trans (hbody.reaches_later.trans hclose.reaches)
      exact ⟨first', a, b, hgroup.trans ha, hstands⟩

/-- Every term of a pattern, at any depth, stands somewhere in it. -/
theorem Regex.standsAt_of_mem_terms {pattern : String} {t : Term}
    (h : t ∈ (parse pattern).terms) :
    ∃ nested first a b, (Cursor.ofString pattern).Reaches a ∧ t.StandsAt nested first a b := by
  obtain ⟨d, hd, ht⟩ := List.mem_flatMap.mp h
  obtain ⟨nested, c, later, hc, mid, hderives, -⟩ := Reading.derivedAt_of_mem_disjunctions hd
  have hmem : t ∈ d.first.terms ++ d.others.flatMap (·.alternative.terms) := by
    rwa [Disjunction.alternatives, List.flatMap_cons, List.flatMap_map] at ht
  obtain ⟨first, a, b, ha, hstands⟩ := hderives.standsAt_of_mem t hmem
  exact ⟨nested, first, a, b, hc.trans ha, hstands⟩

/-- Every atom of a pattern, at any depth, is read somewhere in it unless it is invalid. -/
theorem Regex.exists_takes_of_atom {pattern : String} {t : Term} {a : Atom}
    (ht : t ∈ (parse pattern).terms) (ha : t.element = .atom a) :
    (∃ i, a = .invalid i) ∨
      ∃ c later, (Cursor.ofString pattern).Reaches c ∧ Atom.Takes c later a := by
  obtain ⟨nested, first, c, later, hc, hstands⟩ := standsAt_of_mem_terms ht
  cases hstands with
  | group => cases ha
  | lexeme hread hterm =>
    cases hread.takes_term hterm with
    | atom htakes hq =>
      cases ha
      exact .inr ⟨c, _, hc, htakes⟩
    | _ => exact .inl ⟨_, (Element.atom.inj ha).symm⟩

/-! ## Elements on their own -/

/-- The element is a quantifier, well-formed or not, that stands where nothing is to be repeated. -/
def Element.IsStrayQuantifier (e : Element) : Prop :=
  ∃ i, e = .atom (.invalid i) ∧ (i.reason = .badQuantifier ∨ i.reason = .stackedQuantifier)

/-- A text is one element and nothing else: parsing it gives one alternative, with one term that is
not repeated. -/
def Element.IsAllOf (e : Element) (text : String) : Prop :=
  (Regex.parse text).body = ⟨⟨⟨0, text.utf8ByteSize⟩, [⟨e, none⟩]⟩, []⟩

/-- The text of an element that begins at a place is the same element and nothing else. -/
def Element.StandsAlone (e : Element) (c : Cursor) : Prop :=
  ∃ (w : List Char) (later : Cursor) (alone : Element), c.Reads w later ∧
    e.span = c.spanTo later ∧ alone.IsAllOf (String.ofList w) ∧ alone.shift c.pos = e

/-- A text is one element (`Element.IsAllOf`) if this element alone is derived from it. -/
theorem Derives.isAllOf {text : String} {e : Element} {later : Cursor}
    (h : Derives false true (.ofString text) [⟨e, none⟩] later [] later) : e.IsAllOf text := by
  have hend : later.rest = [] := h.endsAt.resolve_right (by simp)
  have hspan : (Cursor.ofString text).spanTo later = ⟨0, text.utf8ByteSize⟩ :=
    congrArg (Span.mk 0) (h.reaches_later.pos_of_end hend)
  rw [Element.IsAllOf, h.body_eq, hspan]

/-- A text is one element if it is one lexeme. -/
theorem Lexeme.ReadAt.isAllOf {text : String} {e : Element} {l : Lexeme} {later : Cursor}
    (h : ReadAt (.ofString text) later l) (hterm : l.term? false true = some ⟨e, none⟩)
    (hend : later.rest = []) : e.IsAllOf text :=
  Derives.isAllOf (.term h hterm (.stop (.inl hend)))

/-- An `Atom` that is read with its quantifier is the same atom on its own. -/
theorem Lexeme.ReadAt.standsAlone_atom {c later : Cursor} {a : Atom} {q : Option Quantifier}
    (h : Lexeme.ReadAt c later (.atom a q)) : (Element.atom a).StandsAlone c := by
  obtain ⟨x, t, hrest, hx, rfl, -, -⟩ := h.eq_read_atom
  have hreach := c.reaches_next.trans (Atom.reaches_read x c)
  obtain ⟨w, hw⟩ := hreach
  have halike := hw.alike_alone
  obtain ⟨⟨t', hrest'⟩, -⟩ :=
    halike.next hrest ((Atom.reaches_read x c).stays List.suffix_rfl)
  obtain ⟨hshift, hlater⟩ :=
    Atom.alike_read halike .nil hrest List.suffix_rfl (Uncut.nil _ _)
  have hend := hlater.rest_of_rest_eq rfl
  have halone := readAt_atom_of_delimits hrest' hx (hend ▸ .nil)
  refine ⟨w, _, _, hw, (Atom.takes_read hrest hx).span_eq, isAllOf halone rfl hend, ?_⟩
  rw [Element.shift, ← hshift, Atom.shift_zero]

/-- A lexeme that is an element, but no stray quantifier, is the same element on its own
(`StandsAlone`). -/
theorem Lexeme.ReadAt.standsAlone {nested first : Bool} {c later : Cursor} {l : Lexeme}
    {t : Term} (h : Lexeme.ReadAt c later l) (hterm : l.term? nested first = some t)
    (hstray : ¬ t.element.IsStrayQuantifier) : t.element.StandsAlone c := by
  cases l with
  | bar => cases hterm
  | opening => cases hterm
  | atom a q =>
    cases hterm
    exact standsAlone_atom h
  | closing span q =>
    cases nested with
    | true => cases hterm
    | false =>
      cases hterm
      cases h.takes with
      | closing hread hq =>
        -- the quantifier behind the parenthesis is not taken over
        have halike := hread.alike_alone
        obtain ⟨later', hread', hlater⟩ := halike.of_reads hread List.suffix_rfl
        have hend : later'.rest = [] := hlater.rest_of_rest_eq rfl
        have halone := readAt_closing_of_delimits hread' (hend ▸ .nil)
        refine ⟨_, _, _, hread, rfl, isAllOf halone rfl hend, ?_⟩
        rw [Element.shift, Atom.shift, Invalid.shift, ← halike.shift_spanTo hlater,
          Span.shift_zero]
  | strayQuantifier span =>
    cases hterm
    refine absurd ⟨_, rfl, ?_⟩ hstray
    cases first with
    | true => exact .inl rfl
    | false => exact .inr rfl
  | strayBrace i =>
    cases hterm
    have hspan : i.span = c.spanTo later := by
      cases h.takes with
      | malformedCount => rfl
      | brace => rfl
    obtain ⟨w, hw⟩ := h.reaches
    obtain ⟨l', later', hread', hshift, hlater⟩ :=
      h.alike hw.alike_alone .nil List.suffix_rfl (Uncut.nil _ _)
    cases l' with
    | strayBrace i' =>
      refine ⟨w, later, _, hw, hspan, isAllOf hread' rfl (hlater.rest_of_rest_eq rfl), ?_⟩
      rw [Element.shift, Atom.shift, ← strayBrace.inj hshift, Invalid.shift_zero]
    | _ => cases hshift

/-- A group ends on its own as it does before a quantifier. -/
theorem Closes.alone {m n : Nat} {a b close later : Cursor} {closing : Option Span}
    {q : Option Quantifier} (hc : Closes a close closing later q)
    (h : Alike m n close.rest [] a b) :
    ∃ close' closing', Closes b close' closing' close' none ∧ EndsAt true b ∧
      close'.rest = [] ∧ closing.map (·.shift m) = closing'.map (·.shift n) ∧
        Alike m n close.rest [] close close' := by
  cases hc with
  | closed hclose =>
    obtain ⟨close', hclose', halike⟩ := h.of_reads hclose List.suffix_rfl
    have hend : close'.rest = [] := halike.rest_of_rest_eq rfl
    exact ⟨close', _, .of_delimits hclose' (hend ▸ .nil), .of_reads hclose', hend,
      congrArg some (h.shift_spanTo halike), halike⟩
  | missing hend =>
    have hend' : b.rest = [] := h.rest_of_rest_eq rfl
    exact ⟨b, none, .missing hend', .inl hend', hend', rfl, h⟩

/-- An element that is no stray quantifier is the same element on its own. -/
theorem Term.StandsAt.standsAlone {nested first : Bool} {c later : Cursor} {t : Term}
    (h : t.StandsAt nested first c later) (hstray : ¬ t.element.IsStrayQuantifier) :
    t.element.StandsAlone c := by
  cases h with
  | lexeme hread hterm => exact Lexeme.ReadAt.standsAlone hread hterm hstray
  | @group inside innerMid bodyEnd close o innerTerms innerOthers closing q ho hread hbody hclose =>
    have hinside : inside.Reaches close := hbody.reaches_later.trans hclose.reaches_close
    obtain ⟨w, hw⟩ := hread.reaches.trans hinside
    have halike := hw.alike_alone
    obtain ⟨o', inside', ho', hread', hopening, hinsideAlike⟩ :=
      GroupOpening.alike_readAt hread halike .nil (hinside.stays List.suffix_rfl)
    obtain ⟨innerTerms', innerMid', innerOthers', bodyEnd', hinner, hbodyEnd, hbody'⟩ :=
      hbody.alike_disjunction hinsideAlike .nil (hclose.reaches_close.stays List.suffix_rfl)
        (Uncut.nil _ _) fun _ => rfl
    obtain ⟨close', closing', hclose', hends, hend, hclosing, hcloseAlike⟩ := hclose.alone hbodyEnd
    refine ⟨w, close, _, hw, rfl,
      Derives.isAllOf (.group ho' hread' (hbody' hends) hclose' (.stop (.inl hend))), ?_⟩
    show Element.shift c.pos _ = .group _
    rw [← Group.shift_zero ⟨c.spanTo close, _, _, _⟩]
    simp only [Element.shift, Group.shift, hopening, hinner, hclosing,
      halike.shift_spanTo hcloseAlike]

/-! ## Bodies of groups on their own -/

/-- The text of a group's body is the same `Disjunction` on its own. -/
theorem Derives.parse_body {inside innerMid bodyEnd : Cursor} {terms : List Term}
    {others : List Branch} (h : Derives true true inside terms innerMid others bodyEnd) :
    ∃ w, inside.Reads w bodyEnd ∧
      (Regex.parse (String.ofList w)).body.shift inside.pos =
        ⟨⟨inside.spanTo innerMid, terms⟩, others⟩ := by
  obtain ⟨w, hw⟩ := h.reaches_later
  have halike := hw.alike_alone
  obtain ⟨terms', mid', others', later', hshift, hlater, hderives⟩ :=
    h.alike_disjunction halike .nil List.suffix_rfl (Uncut.nil _ _)
      fun htrue : false = true => by cases htrue
  refine ⟨w, hw, ?_⟩
  rw [(hderives (.inl (hlater.rest_of_rest_eq rfl))).body_eq, ← hshift, Disjunction.shift_zero]

/-- Parts of a pattern do not depend on what is around them. The text of an element at any depth,
but for quantifiers that repeat nothing, is one alternative with one term that is not repeated, and
the element of this term is the same, moved to the beginning. The text of a group's body is the same
disjunction, moved to the beginning. -/
theorem Regex.parse_isolated (pattern : String) :
    (∀ t ∈ (parse pattern).terms, ¬ t.element.IsStrayQuantifier →
      ∃ alone, (parse (t.element.span.textIn pattern)).body =
          ⟨⟨⟨0, (t.element.span.textIn pattern).utf8ByteSize⟩, [⟨alone, none⟩]⟩, []⟩ ∧
        alone.shift t.element.span.start = t.element) ∧
      ∀ t ∈ (parse pattern).terms, ∀ g, t.element = .group g →
        (parse (g.body.span.textIn pattern)).body.shift g.body.span.start = g.body := by
  constructor
  · intro t ht hstray
    obtain ⟨nested, first, a, b, ⟨before, ha⟩, hstands⟩ := standsAt_of_mem_terms ht
    obtain ⟨w, later, alone, hw, hspan, hall, hshift⟩ := hstands.standsAlone hstray
    refine ⟨alone, ?_⟩
    rw [hspan, Cursor.textIn_spanTo ha hw]
    exact ⟨hall, hshift⟩
  · intro t ht g hg
    obtain ⟨nested, first, a, b, ⟨before, ha⟩, hstands⟩ := standsAt_of_mem_terms ht
    cases hstands with
    | lexeme hread hterm =>
      have htakes := hread.takes_term hterm
      cases htakes <;> cases hg
    | @group inside innerMid bodyEnd close o innerTerms innerOthers closing q ho hread hbody
        hclose =>
      cases hg
      obtain ⟨w, hw, hbodyEq⟩ := hbody.parse_body
      obtain ⟨v, hv⟩ := hread.reaches
      rw [hbody.span_eq, Cursor.textIn_spanTo (ha.trans hv) hw]
      exact hbodyEq

end RegexTree
