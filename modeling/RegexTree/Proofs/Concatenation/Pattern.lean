import RegexTree.Proofs.Concatenation.Seam
import RegexTree.Proofs.Positions
import RegexTree.Proofs.Tiling.Parts

/-! # Patterns in a row
The main statement says that of two patterns that make sense, written one behind the other, the last
alternative of the first goes on with the first alternative of the second, and nothing else changes
(`Disjunction.behind`). A number or a null escape that stands last in the first pattern must not
meet a digit. -/

namespace RegexTree

variable {nested first : Bool} {c next later : Cursor} {t : List Char}

/-! ## Terms at a seam -/

/-- A digit behind the term would be read as a part of it. -/
def Term.TakesDigits (u : Term) : Prop := ∃ a, u = ⟨.atom a, none⟩ ∧ a.TakesDigits

/-- An `Atom` that makes sense is read with its quantifier as before if the text goes on. -/
theorem Lexeme.ReadAt.append {a : Atom} {q : Option Quantifier}
    (hread : ReadAt c next (.atom a q)) (hvalid : a.invalids = [])
    (hnext : q = none → NoQuantifier next.rest) (ht : NoQuantifier t)
    (hdigit : next.rest = [] → q = none → a.TakesDigits → NoDigit t) :
    ReadAt (c.append t) (next.append t) (.atom a q) := by
  obtain ⟨x, r, hrest, hx, rfl, hq, hlater⟩ := hread.eq_read_atom
  have hfollows := Quantifier.follows_readOptional (Atom.read x c).2
  rw [← hq, ← hlater] at hfollows
  have hatom : Atom.read x (c.append t) = ((Atom.read x c).1, (Atom.read x c).2.append t) := by
    refine Atom.read_append hrest hvalid fun hend htakes => ?_
    -- at the end of the text no quantifier follows, so the atom is all that is read
    have hnone := Quantifier.readOptional_of_delimits (hend ▸ Delimits.nil)
    rw [hnone] at hq hlater
    exact hdigit (hlater ▸ hend) hq htakes
  have hrest' : (c.append t).rest = x :: (r ++ t) := by
    rw [Cursor.append, hrest]
    rfl
  exact Lexeme.readAt_atom hrest' hx hatom (hfollows.append hnext ht)

namespace Term.StandsAt

/-- An atom that makes sense stands as before if the text goes on. -/
theorem append_lexeme {l : Lexeme} {u : Term} (hread : Lexeme.ReadAt c next l)
    (hterm : l.term? nested first = some u) (hvalid : u.element.invalids = [])
    (hnext : NoQuantifier next.rest) (ht : NoQuantifier t)
    (hdigit : next.rest = [] → u.TakesDigits → NoDigit t) :
    u.StandsAt nested first (c.append t) (next.append t) := by
  obtain ⟨a, q, rfl, rfl, ha⟩ := Lexeme.exists_atom hterm hvalid
  refine .lexeme (hread.append ha (fun _ => hnext) ht fun hend hq htakes => ?_) hterm
  exact hdigit hend ⟨a, by rw [hq], htakes⟩

/-- A group that makes sense stands as before if the text goes on. -/
theorem append_group {inside innerMid bodyEnd close : Cursor} {o : GroupOpening}
    {innerTerms : List Term} {innerOthers : List Branch} {closing : Option Span}
    {q : Option Quantifier} (hread : Lexeme.ReadAt c inside (.opening o))
    (hbody : Derives true true inside innerTerms innerMid innerOthers bodyEnd)
    (hclose : Closes bodyEnd close closing next q)
    (hvalid : Group.invalids ⟨c.spanTo close, o,
      ⟨⟨inside.spanTo innerMid, innerTerms⟩, innerOthers⟩, closing⟩ = [])
    (hnext : NoQuantifier next.rest) (ht : NoQuantifier t) :
    Term.StandsAt nested first (c.append t) (next.append t) ⟨.group ⟨c.spanTo close, o,
      ⟨⟨inside.spanTo innerMid, innerTerms⟩, innerOthers⟩, closing⟩, q⟩ := by
  obtain ⟨-, hbodyValid, hclosed⟩ := Group.invalids_eq_nil hvalid
  cases hclose with
  | missing => exact absurd rfl hclosed
  | closed hparenthesis hq =>
    -- up to the closing parenthesis the group cannot see what follows it
    have hdelimits : Delimits (bodyEnd.append t).rest :=
      hparenthesis.append.1 ▸ Delimits.cons (by decide) _
    have halike := Cursor.alike_append_of_suffix
      (hread.reaches.trans hbody.reaches_later).suffix t
    obtain ⟨bodyEnd', hbodyEnd, hgroup⟩ :=
      alike_closed hread hbody hbodyValid halike hdelimits List.suffix_rfl
    rw [hbodyEnd.eq_append] at hgroup
    exact hgroup nested first hparenthesis.append rfl (hq.append (fun _ => hnext) ht)

end Term.StandsAt

/-! ## Disjunctions in a row -/

/-- Two alternatives in a row. -/
def Alternative.append (x y : Alternative) : Alternative :=
  ⟨x.span.through y.span, x.terms ++ y.terms⟩

namespace Disjunction

/-- A disjunction behind another one, given by its first alternative and the further ones: the last
alternative before the seam goes on with the first one behind it. -/
def behind (e : Disjunction) : Alternative → List Branch → Disjunction
  | first, [] => ⟨first.append e.first, e.others⟩
  | first, b :: others => Draft.prepend (e.behind b.alternative others) (first, b.bar)

/-- The `Disjunction` is derived from a place, where its first alternative begins, up to another. -/
def DerivedFrom (d : Disjunction) (nested first : Bool) (c stop : Cursor) : Prop :=
  ∃ terms mid others, Derives nested first c terms mid others stop ∧
    ⟨⟨c.spanTo mid, terms⟩, others⟩ = d

variable (e : Disjunction)

/-- What stands before the first alternative stays there (`Alternative.append`). -/
theorem behind_append (x y : Alternative) (others : List Branch) :
    e.behind (x.append y) others =
      ⟨x.append (e.behind y others).first, (e.behind y others).others⟩ := by
  cases others with
  | nil => simp [behind, Alternative.append, Span.through, List.append_assoc]
  | cons b others => rfl

/-- At the seam two alternatives become one, and all others stay as they are. -/
theorem alternatives_behind (first : Alternative) (others : List Branch) :
    (e.behind first others).alternatives =
      (Disjunction.mk first others).alternatives.dropLast ++
        ((Disjunction.mk first others).last.append e.first) :: e.alternatives.tail := by
  induction others generalizing first with
  | nil => rfl
  | cons b others ih =>
    have hrest : (e.behind first (b :: others)).alternatives =
        first :: (e.behind b.alternative others).alternatives := rfl
    rw [hrest, ih, last_cons]
    rfl

/-- The bars are those before the seam and those behind it. -/
theorem bars_behind (first : Alternative) (others : List Branch) :
    (e.behind first others).bars = (Disjunction.mk first others).bars ++ e.bars := by
  induction others generalizing first with
  | nil => rfl
  | cons b others ih =>
    have hrest : (e.behind first (b :: others)).bars =
        b.bar :: (e.behind b.alternative others).bars := rfl
    rw [hrest, ih]
    rfl

/-- What makes no sense with an alternative in front (`Draft.prepend`) is what makes none in
either. -/
theorem invalids_prepend (first : Alternative) (bar : Span) :
    (Draft.prepend e (first, bar)).invalids = first.invalids ++ e.invalids := by
  cases e
  rfl

/-- What makes no sense is what makes none before the seam and what makes none behind it. -/
theorem invalids_behind (first : Alternative) (others : List Branch) :
    (e.behind first others).invalids = (Disjunction.mk first others).invalids ++ e.invalids := by
  induction others generalizing first with
  | nil =>
    obtain ⟨⟨span, terms⟩, branches⟩ := e
    obtain ⟨span', terms'⟩ := first
    simp [behind, Alternative.append, Disjunction.invalids, Alternative.invalids,
      Branch.invalidsOfAll, Term.invalidsOfAll_append]
  | cons b others ih =>
    obtain ⟨bar, alternative⟩ := b
    rw [behind, invalids_prepend, ih, ← List.append_assoc]
    rfl

/-- With one more term in front the last term stays the same, if there was one. -/
theorem getLast?_last_cons {span span' : Span} {u v : Term} {terms : List Term}
    {others : List Branch}
    (h : (Disjunction.mk ⟨span, terms⟩ others).last.terms.getLast? = some v) :
    (Disjunction.mk ⟨span', u :: terms⟩ others).last.terms.getLast? = some v := by
  cases others with
  | nil =>
    have hlast : terms.getLast? = some v := h
    have hcons : (u :: terms).getLast? = some v := by rw [List.getLast?_cons, hlast]; rfl
    exact hcons
  | cons b others =>
    rw [last_cons] at h ⊢
    exact h

end Disjunction

/-! ## Derivations at a seam -/

namespace Derives

variable {mid : Cursor} {terms : List Term} {others : List Branch}

/-- What makes sense does not begin like a quantifier. -/
theorem noQuantifier (h : Derives nested first c terms mid others later)
    (hvalid : Term.invalidsOfAll terms ++ Branch.invalidsOfAll others = []) :
    NoQuantifier c.rest := by
  cases h with
  | stop hend =>
    intro x hx
    rcases hend with hend | ⟨-, hhead⟩
    · rw [hend] at hx
      cases hx
    · obtain rfl : ')' = x := Option.some.inj (hhead.symm.trans hx)
      decide
  | bar hbar => exact hbar.forall_head (by decide)
  | term hread hterm =>
    obtain ⟨a, q, rfl, -, -⟩ :=
      Lexeme.exists_atom hterm (Term.invalids_eq_nil_of_cons hvalid).1
    cases hread.takes with
    | atom ha =>
      intro x hx hmem
      have hstart : ∀ y ∈ ['*', '+', '?', '{'], y ∈ Atom.nonStarters :=
        forall_mem_of_all (by decide)
      exact ha.not_mem_nonStarters x hx (hstart x hmem)
  | group ho =>
    obtain ⟨w, hread⟩ := ho.reads
    exact hread.forall_head (by decide)

/-- What makes sense is derived whether or not terms of its alternative stand before it. -/
theorem of_first (h : Derives nested first c terms mid others later)
    (hvalid : Term.invalidsOfAll terms ++ Branch.invalidsOfAll others = []) (first' : Bool) :
    Derives nested first' c terms mid others later := by
  cases h with
  | stop hend => exact .stop hend
  | bar hbar hread hrest => exact .bar hbar hread hrest
  | term hread hterm hrest =>
    obtain ⟨a, q, rfl, rfl, -⟩ :=
      Lexeme.exists_atom hterm (Term.invalids_eq_nil_of_cons hvalid).1
    exact .term hread rfl hrest
  | group ho hread hbody hclose hrest => exact .group ho hread hbody hclose hrest

variable {e : Disjunction} {stop : Cursor}

/-- A term in front of the terms before a seam stands in front of the whole (`DerivedFrom`). -/
theorem behind_cons {u : Term} (hstands : u.StandsAt nested first c next)
    (h : (e.behind ⟨next.spanTo mid, terms⟩ others).DerivedFrom nested false next stop) :
    (e.behind ⟨c.spanTo mid, u :: terms⟩ others).DerivedFrom nested first c stop := by
  obtain ⟨terms', mid', others', hd, heq⟩ := h
  refine ⟨u :: terms', mid', others', hstands.derives hd, ?_⟩
  have hfirst : (⟨c.spanTo mid, u :: terms⟩ : Alternative) =
      Alternative.append ⟨c.spanTo next, [u]⟩ ⟨next.spanTo mid, terms⟩ := rfl
  rw [hfirst, Disjunction.behind_append, ← heq]
  rfl

/-- What makes sense and ends with the text is derived as before if the text goes on, and then what
is derived behind the seam. -/
theorem append (hd : Derives nested first c terms mid others later) (hend : later.rest = [])
    (hvalid : Term.invalidsOfAll terms ++ Branch.invalidsOfAll others = [])
    (ht : NoQuantifier t)
    (hdigit : ∀ u, (Disjunction.mk ⟨c.spanTo mid, terms⟩ others).last.terms.getLast? = some u →
      u.TakesDigits → NoDigit t)
    (hmore : ∀ first, e.DerivedFrom nested first (later.append t) stop) :
    (e.behind ⟨c.spanTo mid, terms⟩ others).DerivedFrom nested first (c.append t) stop := by
  -- what follows a term or a bar makes sense as well, so no term before the seam gets a quantifier
  induction hd with
  | @stop _ first =>
    obtain ⟨terms, mid, others, hd, rfl⟩ := hmore first
    exact ⟨terms, mid, others, hd, rfl⟩
  | bar hbar hread hrest ih =>
    rw [Disjunction.last_cons] at hdigit
    obtain ⟨terms', mid', others', hd, heq⟩ := ih hend hvalid hdigit hmore
    refine ⟨[], _, _, .bar hbar.append (Lexeme.readAt_bar hbar.append) hd, ?_⟩
    rw [Disjunction.behind, ← heq]
    rfl
  | @term nested first c next mid later l u terms others hread hterm hrest ih =>
    obtain ⟨hvalidTerm, hvalidRest⟩ := Term.invalids_eq_nil_of_cons hvalid
    have hstands : u.StandsAt nested first (c.append t) (next.append t) := by
      refine .append_lexeme hread hterm hvalidTerm (hrest.noQuantifier hvalidRest) ht ?_
      intro hnext htakes
      obtain ⟨rfl, rfl, -⟩ := hrest.of_end hnext
      exact hdigit u rfl htakes
    exact behind_cons hstands
      (ih hend hvalidRest (fun v hv => hdigit v (Disjunction.getLast?_last_cons hv)) hmore)
  | group ho hread hbody hclose hrest ihbody ih =>
    obtain ⟨hvalidTerm, hvalidRest⟩ := Term.invalids_eq_nil_of_cons hvalid
    have hnext := hrest.noQuantifier hvalidRest
    exact behind_cons (.append_group hread hbody hclose hvalidTerm hnext ht)
      (ih hend hvalidRest (fun v hv => hdigit v (Disjunction.getLast?_last_cons hv)) hmore)

end Derives

/-! ## Patterns -/

/-- Of two patterns that make sense, written one behind the other, the last alternative of the first
goes on with the first alternative of the second, and the others stay as they are, unless a number
or a null escape that stands last in the first pattern meets a digit. -/
theorem Regex.parse_append (a b : String) (ha : (Tree.parse a).hasInvalid = false)
    (hb : (Tree.parse b).hasInvalid = false)
    (hdigit : ∀ u, (parse a).body.last.terms.getLast? = some u → u.TakesDigits →
      NoDigit b.toList) :
    (Tree.parse (a ++ b)).hasInvalid = false ∧
      (parse (a ++ b)).body.alternatives =
        (parse a).body.alternatives.dropLast ++
          (parse a).body.last.append ((parse b).body.first.shift a.utf8ByteSize) ::
            (parse b).body.alternatives.tail.map (·.shift a.utf8ByteSize) ∧
      (parse (a ++ b)).body.bars =
        (parse a).body.bars ++ (parse b).body.bars.map (·.shift a.utf8ByteSize) := by
  have ha' : (parse a).body.invalids = [] := (Tree.hasInvalid_parse a).mp ha
  have hb' : (parse b).body.invalids = [] := (Tree.hasInvalid_parse b).mp hb
  obtain ⟨termsA, midA, othersA, laterA, hA, hendA, hposA⟩ := exists_derives a
  have hrest : (laterA.append b.toList).rest = b.toList := by
    rw [Cursor.append, hendA, List.nil_append]
  obtain ⟨termsB, midB, othersB, laterB, hB, hshift⟩ := exists_derives_shift hrest
  have hstart : (Cursor.ofString a).append b.toList = .ofString (a ++ b) := by
    simp [Cursor.append, Cursor.ofString, String.toList_append]
  have hpos : (laterA.append b.toList).pos = a.utf8ByteSize := hposA
  rw [hpos] at hshift
  have hvalidA : Term.invalidsOfAll termsA ++ Branch.invalidsOfAll othersA = [] := by
    rw [← hA.invalids_eq, Tree.diagnostics_parse]
    exact ha'
  have hvalidB : Term.invalidsOfAll termsB ++ Branch.invalidsOfAll othersB = [] := by
    have hmoved := congrArg Disjunction.invalids hshift
    rw [Disjunction.invalids_shift, hb'] at hmoved
    exact hmoved
  have hseam : NoQuantifier b.toList := hrest ▸ hB.noQuantifier hvalidB
  rw [hA.body_eq] at hdigit
  obtain ⟨terms, mid, others, hwhole, hbehind⟩ := hA.append hendA hvalidA hseam hdigit
    fun first => ⟨termsB, midB, othersB, hB.of_first hvalidB first, hshift⟩
  rw [hstart] at hwhole hbehind
  have hbody : (parse (a ++ b)).body = ((parse b).body.shift a.utf8ByteSize).behind
      ⟨(Cursor.ofString a).spanTo midA, termsA⟩ othersA := hwhole.body_eq.trans hbehind
  rw [hA.body_eq, hbody, ← Disjunction.first_shift, List.map_tail]
  refine ⟨?_, ?_, ?_⟩
  · rw [Tree.hasInvalid_parse, invalids, hbody, Disjunction.invalids_behind,
      Disjunction.invalids_shift, hb', List.map_nil, List.append_nil]
    exact hvalidA
  · rw [Disjunction.alternatives_behind, Disjunction.alternatives_shift]
  · rw [Disjunction.bars_behind, Disjunction.bars_shift]

/-- A reference by number stands before a class of digits with a count. -/
theorem Regex.parse_append_reference :
    (Tree.parse "(x)|\\1").hasInvalid = false ∧ (Tree.parse "[0-9]{2}|y").hasInvalid = false ∧
      NoDigit "[0-9]{2}|y".toList ∧
      (Tree.parse ("(x)|\\1" ++ "[0-9]{2}|y")).hasInvalid = false ∧
      (parse ("(x)|\\1" ++ "[0-9]{2}|y")).body.alternatives =
        (parse "(x)|\\1").body.alternatives.dropLast ++
          (parse "(x)|\\1").body.last.append ((parse "[0-9]{2}|y").body.first.shift 6) ::
            (parse "[0-9]{2}|y").body.alternatives.tail.map (·.shift 6) ∧
      (parse ("(x)|\\1" ++ "[0-9]{2}|y")).body.bars =
        (parse "(x)|\\1").body.bars ++ (parse "[0-9]{2}|y").body.bars.map (·.shift 6) :=
  have ha : (Tree.parse "(x)|\\1").hasInvalid = false := by decide +kernel
  have hb : (Tree.parse "[0-9]{2}|y").hasInvalid = false := by decide +kernel
  have hseam : NoDigit "[0-9]{2}|y".toList := by
    intro x hx
    obtain rfl : '[' = x := Option.some.inj hx
    decide
  ⟨ha, hb, hseam, parse_append "(x)|\\1" "[0-9]{2}|y" ha hb fun _ _ _ => hseam⟩

end RegexTree
