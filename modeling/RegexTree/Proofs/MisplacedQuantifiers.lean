import RegexTree.Proofs.Grammar.Readers
import RegexTree.Proofs.Nesting
import RegexTree.Regex.DecidableEq

/-! # Misplaced quantifiers
A quantifier that repeats nothing is an invalid term. Its reason should tell what stands before it
(`Reason.TellsPlace`): the beginning of the alternative, or a term that ends in a quantifier. The
reader only looks whether there is a term before it. The main statement says that the reason tells
what it should exactly where the term before the quantifier is not an opening brace on its own,
which takes no quantifier although it ends in none (`Term.IsLoneBrace`). -/

namespace RegexTree

/-! ## What a term ends in -/

namespace Term

/-- The term carries a quantifier, or it is itself a misplaced or malformed one. -/
def EndsInQuantifier (t : Term) : Prop :=
  t.quantifier.isSome = true ∨ ∃ i : Invalid, t.element = .atom (.invalid i) ∧
    (i.reason = .badQuantifier ∨ i.reason = .stackedQuantifier)

/-- The term is an opening brace that begins nothing like a count. -/
def IsLoneBrace (source : String) (t : Term) : Prop :=
  ∃ i : Invalid, t = ⟨.atom (.invalid i), none⟩ ∧ i.reason = .unknownConstruct ∧
    i.span.textIn source = "\x7b"

/-- A lone brace does not end in a quantifier. -/
theorem IsLoneBrace.not_endsInQuantifier {source : String} {t : Term} (h : t.IsLoneBrace source) :
    ¬ t.EndsInQuantifier := by
  obtain ⟨i, rfl, hreason, -⟩ := h
  intro hends
  rcases hends with hquantifier | ⟨j, hj, hbad | hstacked⟩
  · cases hquantifier
  · cases hj
    rw [hreason] at hbad
    cases hbad
  · cases hj
    rw [hreason] at hstacked
    cases hstacked

end Term

/-- The whole text of an invalid span is a quantifier. -/
def Invalid.IsQuantifier (source : String) (i : Invalid) : Prop :=
  Grammar.Quantifier (i.span.textIn source).toList []

/-- What a misplaced quantifier should tell of the terms before it in its alternative. -/
structure Reason.TellsPlace (before : List Term) (reason : Reason) : Prop where
  /-- It has nothing to repeat exactly where it comes first. -/
  bad : reason = .badQuantifier ↔ before = []
  /-- It is stacked exactly where the term before it ends in a quantifier. -/
  stacked : reason = .stackedQuantifier ↔ ∃ t, before.getLast? = some t ∧ t.EndsInQuantifier
  /-- There is no other case. -/
  either : reason = .badQuantifier ∨ reason = .stackedQuantifier

/-! ## Where no quantifier is read -/

/-- Where the text of a quantifier stands, its `QuantifierKind` is read. -/
theorem Quantifier.exists_takes_kind {c stop : Cursor} {w : List Char} (hw : c.Reads w stop)
    (hquantifier : Grammar.Quantifier w []) :
    ∃ kind middle, QuantifierKind.Takes c middle kind ∧
      (middle.rest = stop.rest ∨ middle.rest = '?' :: stop.rest) := by
  cases hquantifier with
  | eager ho =>
    have hoperator := ho.append stop.rest
    rw [← hw.1] at hoperator
    obtain ⟨kind, middle, hkind, hmiddle⟩ := hoperator.exists_takes
    exact ⟨kind, middle, hkind, .inl hmiddle⟩
  | lazy ho =>
    have hoperator := ho.append stop.rest
    rw [← hw.1] at hoperator
    obtain ⟨kind, middle, hkind, hmiddle⟩ := hoperator.exists_takes
    exact ⟨kind, middle, hkind, .inr hmiddle⟩

/-- Where a lexeme is read that is no quantifier, no text of a quantifier stands. -/
theorem Lexeme.ReadAt.not_quantifier {c later middle : Cursor} {l : Lexeme} {w : List Char}
    (h : ReadAt c later l) (hl : ∀ s, l ≠ .strayQuantifier s) (hw : c.Reads w middle) :
    ¬ Grammar.Quantifier w [] := by
  intro hq
  obtain ⟨x, t, hrest, hread⟩ := h
  obtain ⟨kind, stop, hkind, -⟩ := Quantifier.exists_takes_kind hw hq
  have hquantifier := Quantifier.read?_eq_some_iff.mpr
    (.mk hkind (Cursor.skips_skipOptional '?' stop))
  -- a quantifier would be read before anything else
  rw [Lexeme.read, hquantifier] at hread
  exact hl _ (Prod.mk.inj hread).1.symm

/-! ## One term after the other -/

namespace Term

/-- No quantifier is read from a place behind a term, unless the term ends in one or is a lone
brace. -/
def Precedes (source : String) (t : Term) (c : Cursor) : Prop :=
  t.EndsInQuantifier ∨ t.IsLoneBrace source ∨ ∀ later q, ¬ Quantifier.Takes c later q

/-- A term that is a misplaced quantifier is told apart by whether there is a term before it, which
then ends in a quantifier or is a lone brace. -/
def Suits (source : String) (previous : Option Term) (t : Term) : Prop :=
  ∀ i : Invalid, t.element = .atom (.invalid i) → i.IsQuantifier source →
    match previous with
    | none => i.reason = .badQuantifier
    | some u => i.reason = .stackedQuantifier ∧ (u.EndsInQuantifier ∨ u.IsLoneBrace source)

/-- Each term suits the one before it. -/
def AllSuit (source : String) : Option Term → List Term → Prop
  | _, [] => True
  | previous, t :: terms => t.Suits source previous ∧ AllSuit source (some t) terms

/-- A term among others suits the last one before it (`Suits`). -/
theorem AllSuit.suits {source : String} {previous : Option Term} {before after : List Term}
    {t : Term} (h : AllSuit source previous (before ++ t :: after)) :
    t.Suits source (before.getLast?.or previous) := by
  induction before generalizing previous with
  | nil => exact h.1
  | cons u before ih =>
    have hnext := ih h.2
    cases before with
    | nil => exact hnext
    | cons v before =>
      have hlast := List.getLast?_eq_some_getLast (List.cons_ne_nil v before)
      rw [hlast, Option.some_or] at hnext
      rw [List.getLast?_cons_cons, hlast, Option.some_or]
      exact hnext

/-- What carries the quantifier that may follow it is followed by no other one. -/
theorem precedes_of_follows {source : String} {e : Element} {c later : Cursor}
    {q : Option Quantifier} (h : Quantifier.Follows c later q) :
    Precedes source ⟨e, q⟩ later := by
  cases h with
  | absent hnone => exact .inr (.inr hnone)
  | present => exact .inl (.inl rfl)

variable {source : String} {nested first : Bool} {c later : Cursor} {t : Term}

/-- Behind a term without a group a quantifier is read only if the term ends in one or is a lone
brace (`Precedes`). -/
theorem Takes.precedes (hc : (Cursor.ofString source).Reaches c)
    (h : Term.Takes nested first c later t) : t.Precedes source later := by
  cases h with
  | atom ha hq => exact precedes_of_follows hq
  | strayClosing houtside hread hq => exact precedes_of_follows hq
  | strayQuantifier hq =>
    refine .inl (.inr ⟨_, rfl, ?_⟩)
    cases first with
    | true => exact .inl rfl
    | false => exact .inr rfl
  | malformedCount hw hread => exact .inl (.inr ⟨_, rfl, .inl rfl⟩)
  | brace hread =>
    obtain ⟨before, hbefore⟩ := hc
    exact .inr (.inl ⟨_, rfl, rfl, Cursor.textIn_spanTo hbefore hread⟩)

/-- The text of an invalid term without a group is read from the place where the term begins. -/
theorem Takes.exists_reads (hc : (Cursor.ofString source).Reaches c)
    (h : Term.Takes nested first c later t) {i : Invalid} (hi : t.element = .atom (.invalid i)) :
    ∃ middle, c.Reads (i.span.textIn source).toList middle := by
  have hreads : ∃ w middle, c.Reads w middle ∧ i.span = c.spanTo middle := by
    cases h with
    | atom ha hq =>
      cases hi
      obtain ⟨x, w, hread⟩ := ha.reads
      exact ⟨_, _, hread, ha.span_eq⟩
    | strayClosing houtside hread hq =>
      cases hi
      exact ⟨_, _, hread, rfl⟩
    | strayQuantifier hq =>
      cases hi
      obtain ⟨x, w, -, hread⟩ := hq.reads
      exact ⟨_, _, hread, rfl⟩
    | malformedCount hw hread =>
      cases hi
      rcases hread with hread | hread
      · exact ⟨_, _, hread, rfl⟩
      · exact ⟨_, _, hread, rfl⟩
    | brace hread =>
      cases hi
      exact ⟨_, _, hread, rfl⟩
  obtain ⟨w, middle, hread, hspan⟩ := hreads
  rw [hspan, hc.toList_textIn hread]
  exact ⟨middle, hread⟩

/-- A `Lexeme` that is a term suits what stands before it. -/
theorem suits_of_readAt {l : Lexeme} {previous : Option Term}
    (hc : (Cursor.ofString source).Reaches c) (hread : Lexeme.ReadAt c later l)
    (hterm : l.term? nested previous.isNone = some t)
    (hprevious : ∀ u ∈ previous, u.Precedes source c) : t.Suits source previous := by
  intro i hi hquantifier
  obtain ⟨middle, hw⟩ := (hread.takes_term hterm).exists_reads hc hi
  by_cases hstray : ∃ s, l = .strayQuantifier s
  · obtain ⟨s, rfl⟩ := hstray
    cases hterm
    cases hi
    cases previous with
    | none => rfl
    | some u =>
      -- a quantifier is read here, so something must keep it from following the term before it
      cases hread.takes with
      | strayQuantifier hq =>
        rcases hprevious u rfl with hends | hbrace | hnone
        · exact ⟨rfl, .inl hends⟩
        · exact ⟨rfl, .inr hbrace⟩
        · exact absurd hq (hnone _ _)
  · exact absurd hquantifier (hread.not_quantifier (fun s hs => hstray ⟨s, hs⟩) hw)

end Term

/-! ## Whole patterns -/

/-- Behind a group a quantifier is read only if the group carries one. -/
theorem Closes.precedes {source : String} {c close later : Cursor} {closing : Option Span}
    {q : Option Quantifier} (h : Closes c close closing later q) (g : Group) :
    Term.Precedes source ⟨.group g, q⟩ later := by
  cases h with
  | closed hclose hq => exact Term.precedes_of_follows hq
  | missing hend =>
    refine .inr (.inr fun after q hq => ?_)
    obtain ⟨x, w, -, hread⟩ := hq.reads
    have hrest := hread.1
    rw [hend] at hrest
    cases hrest

/-- In what is derived each term suits the one before it (`Term.AllSuit`). -/
theorem Derives.allSuit {source : String} {nested first : Bool} {c mid later : Cursor}
    {terms : List Term} {others : List Branch}
    (h : Derives nested first c terms mid others later) (hc : (Cursor.ofString source).Reaches c)
    (previous : Option Term) (hfirst : first = previous.isNone)
    (hprevious : ∀ u ∈ previous, u.Precedes source c) :
    Term.AllSuit source previous terms ∧
      ∀ b ∈ others, Term.AllSuit source none b.alternative.terms := by
  -- each term is what the next one looks back at, so the previous term varies along the derivation
  induction h generalizing previous with
  | stop hend => exact ⟨trivial, nofun⟩
  | bar hbar hread hrest ih =>
    obtain ⟨hterms, hothers⟩ := ih (hc.trans hbar.reaches) none rfl nofun
    exact ⟨trivial, List.forall_mem_cons.mpr ⟨hterms, hothers⟩⟩
  | @term _ _ _ _ _ _ l t _ _ hread hterm hrest ih =>
    subst hfirst
    have hsuits := Term.suits_of_readAt hc hread hterm hprevious
    have hprecedes := (hread.takes_term hterm).precedes hc
    obtain ⟨hterms, hothers⟩ := ih (hc.trans hread.reaches) (some t) rfl
      fun u hu => Option.mem_some_iff.mp hu ▸ hprecedes
    exact ⟨⟨hsuits, hterms⟩, hothers⟩
  | @group _ _ c inside innerMid bodyEnd close next mid later o innerTerms terms innerOthers others
      closing q ho hread hbody hclose hrest ihbody ih =>
    have hnext := hread.reaches.trans (hbody.reaches_later.trans hclose.reaches)
    obtain ⟨hterms, hothers⟩ := ih (hc.trans hnext) (some _) rfl
      fun u hu => Option.mem_some_iff.mp hu ▸ hclose.precedes _
    exact ⟨⟨nofun, hterms⟩, hothers⟩

/-- In every alternative of a pattern each term suits the one before it. -/
theorem Regex.allSuit {pattern : String} {d : Disjunction}
    (hd : d ∈ (parse pattern).disjunctions) {a : Alternative} (ha : a ∈ d.alternatives) :
    Term.AllSuit pattern none a.terms := by
  obtain ⟨nested, start, stop, hstart, mid, hderives, -⟩ :=
    Reading.derivedAt_of_mem_disjunctions hd
  obtain ⟨hterms, hothers⟩ := hderives.allSuit hstart none rfl nofun
  rcases List.mem_cons.mp ha with rfl | ha
  · exact hterms
  · obtain ⟨b, hb, rfl⟩ := List.mem_map.mp ha
    exact hothers b hb

/-- The reason of a misplaced quantifier, at any depth, tells what stands before it in its
alternative exactly where this is not a lone brace. -/
theorem Regex.tellsPlace_iff {pattern : String} {d : Disjunction}
    (hd : d ∈ (parse pattern).disjunctions) {a : Alternative} (ha : a ∈ d.alternatives)
    {before after : List Term} {i : Invalid} {q : Option Quantifier}
    (hterms : a.terms = before ++ ⟨.atom (.invalid i), q⟩ :: after)
    (hi : i.IsQuantifier pattern) :
    i.reason.TellsPlace before ↔ ∀ t, before.getLast? = some t → ¬ t.IsLoneBrace pattern := by
  have hsuits := (hterms ▸ allSuit hd ha).suits i rfl hi
  rw [Option.or_none] at hsuits
  constructor
  · intro htells t ht hbrace
    rw [ht] at hsuits
    obtain ⟨u, hu, hends⟩ := htells.stacked.mp hsuits.1
    obtain rfl : t = u := Option.some.inj (ht.symm.trans hu)
    exact hbrace.not_endsInQuantifier hends
  · intro hbrace
    cases hlast : before.getLast? with
    | none =>
      rw [hlast] at hsuits
      obtain rfl := List.getLast?_eq_none_iff.mp hlast
      exact ⟨iff_of_true hsuits rfl, by simp [hsuits], .inl hsuits⟩
    | some t =>
      rw [hlast] at hsuits
      obtain ⟨hreason, hends | hlone⟩ := hsuits
      · have hne : before ≠ [] := by
          rintro rfl
          cases hlast
        exact ⟨by simp [hreason, hne], iff_of_true hreason ⟨t, hlast, hends⟩, .inr hreason⟩
      · exact absurd hlone (hbrace t hlast)

/-- A lazy count behind a star, in a group: it is stacked, and the star is what it is stacked on. -/
theorem Regex.tellsPlace_iff_stacked :
    let star : Term := ⟨.atom (.literal ⟨1, 2⟩ 'x'), some ⟨.zeroOrMore, ⟨2, 3⟩, none⟩⟩
    let count : Invalid := ⟨⟨3, 7⟩, .stackedQuantifier⟩
    let alternative : Alternative := ⟨⟨1, 7⟩, [star, ⟨.atom (.invalid count), none⟩]⟩
    ⟨alternative, []⟩ ∈ (parse "(x*{2}?)").disjunctions ∧ count.IsQuantifier "(x*{2}?)" ∧
      (count.reason.TellsPlace [star] ↔
        ∀ t, [star].getLast? = some t → ¬ t.IsLoneBrace "(x*{2}?)") := by
  intro star count alternative
  have hd : ⟨alternative, []⟩ ∈ (parse "(x*{2}?)").disjunctions := by decide +kernel
  have hterms : alternative.terms = [star] ++ ⟨.atom (.invalid count), none⟩ :: [] := rfl
  have htext : (count.span.textIn "(x*{2}?)").toList = "{2}?".toList := by decide +kernel
  have hcount : count.IsQuantifier "(x*{2}?)" := by
    rw [Invalid.IsQuantifier, htext]
    exact .lazy (@Grammar.Operator.exact ['2'] ['?'] ⟨by decide, forall_mem_of_all (by decide)⟩)
  exact ⟨hd, hcount, tellsPlace_iff hd List.mem_cons_self hterms hcount⟩

/-- A star behind a lone brace is stacked, although the brace ends in no quantifier. -/
theorem Regex.exists_not_tellsPlace :
    ∃ d ∈ (parse "\x7b*").disjunctions, ∃ a ∈ d.alternatives, ∃ before after i q,
      a.terms = before ++ ⟨.atom (.invalid i), q⟩ :: after ∧ i.IsQuantifier "\x7b*" ∧
        ¬ i.reason.TellsPlace before := by
  let brace : Term := ⟨.atom (.invalid ⟨⟨0, 1⟩, .unknownConstruct⟩), none⟩
  let star : Invalid := ⟨⟨1, 2⟩, .stackedQuantifier⟩
  have hd : ⟨⟨⟨0, 2⟩, [brace, ⟨.atom (.invalid star), none⟩]⟩, []⟩ ∈
      (parse "\x7b*").disjunctions := by
    decide +kernel
  have hbrace : brace.IsLoneBrace "\x7b*" := ⟨_, rfl, rfl, rfl⟩
  have htext : (star.span.textIn "\x7b*").toList = "*".toList := by decide +kernel
  have hstar : star.IsQuantifier "\x7b*" := by
    rw [Invalid.IsQuantifier, htext]
    exact .eager .star
  refine ⟨_, hd, _, List.mem_cons_self, [brace], [], star, none, rfl, hstar, ?_⟩
  intro htells
  obtain ⟨t, ht, hends⟩ := htells.stacked.mp rfl
  obtain rfl : brace = t := Option.some.inj ht
  exact hbrace.not_endsInQuantifier hends

end RegexTree
