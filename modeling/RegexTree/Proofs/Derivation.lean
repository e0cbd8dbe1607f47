import RegexTree.Proofs.Forms.Lexeme
import RegexTree.Tree

/-! # Derivations
A derivation (`Derives`) says, by recursion on the nesting of groups, which disjunction is read from
a place: it takes lexemes one after the other and goes into a group at each opening. The main
statements say that there is a derivation from every place (`exists_derives`) and that the assembly
of lexemes, which keeps the open groups in a list, puts together the disjunction of the derivation
(`Assembly.outcome_startingAt`). -/

namespace RegexTree

/-! ## What is derived -/

/-- Nothing more is read of a disjunction: the input ends, or the group around it does. -/
def EndsAt (nested : Bool) (c : Cursor) : Prop :=
  c.rest = [] ∨ nested = true ∧ c.rest.head? = some ')'

/-- The term that a lexeme is, if it is one, given whether a group is open around it and whether it
is the first of its alternative. -/
def Lexeme.term? (nested first : Bool) : Lexeme → Option Term
  | .atom a q => some ⟨.atom a, q⟩
  | .closing span q => if nested then none else some ⟨.atom (.invalid ⟨span, .unknownConstruct⟩), q⟩
  | .strayQuantifier span =>
    some ⟨.atom (.invalid ⟨span, if first then .badQuantifier else .stackedQuantifier⟩), none⟩
  | .strayBrace i => some ⟨.atom (.invalid i), none⟩
  | .bar _ => none
  | .opening _ => none

/-- What a term without a group turns out to be, form by form. -/
inductive Term.Takes (nested first : Bool) (c later : Cursor) : Term → Prop where
  /-- An atom and the quantifier after it. -/
  | atom {a : Atom} {middle : Cursor} {q : Option Quantifier} (ha : Atom.Takes c middle a)
      (hq : Quantifier.Follows middle later q) : Takes nested first c later ⟨.atom a, q⟩
  /-- A closing parenthesis outside of groups and the quantifier after it. -/
  | strayClosing {middle : Cursor} {q : Option Quantifier} (houtside : nested = false)
      (hread : c.Reads [')'] middle) (hq : Quantifier.Follows middle later q) :
      Takes nested first c later ⟨.atom (.invalid ⟨c.spanTo middle, .unknownConstruct⟩), q⟩
  /-- A quantifier that follows nothing it could repeat. -/
  | strayQuantifier {q : Quantifier} (hq : Quantifier.Takes c later q) :
      Takes nested first c later
        ⟨.atom (.invalid
          ⟨c.spanTo later, if first then .badQuantifier else .stackedQuantifier⟩), none⟩
  /-- A brace and what looks like a count, with or without a closing brace. -/
  | malformedCount {w : List Char} (hw : ∀ y ∈ w, Count.allows y = true)
      (hread : c.Reads ('{' :: w ++ ['}']) later ∨ c.Reads ('{' :: w) later) :
      Takes nested first c later ⟨.atom (.invalid ⟨c.spanTo later, .badQuantifier⟩), none⟩
  /-- A brace alone. -/
  | brace (hread : c.Reads ['{'] later) :
      Takes nested first c later ⟨.atom (.invalid ⟨c.spanTo later, .unknownConstruct⟩), none⟩

/-- A lexeme that is a term by `Lexeme.term?` is of one of the forms of `Term.Takes`. -/
theorem Lexeme.ReadAt.takes_term {nested first : Bool} {c later : Cursor} {l : Lexeme} {t : Term}
    (h : ReadAt c later l) (ht : l.term? nested first = some t) :
    Term.Takes nested first c later t := by
  cases h.takes with
  | bar => cases ht
  | opening => cases ht
  | closing hread hq =>
    cases nested with
    | true => cases ht
    | false =>
      cases ht
      exact .strayClosing rfl hread hq
  | atom ha hq =>
    cases ht
    exact .atom ha hq
  | strayQuantifier hq =>
    cases ht
    exact .strayQuantifier hq
  | malformedCount hw hread =>
    cases ht
    exact .malformedCount hw hread
  | brace hread =>
    cases ht
    exact .brace hread

/-- How a group ends: the closing parenthesis with the place after it, and the quantifier with the
place after that. At the end of input there is neither. -/
inductive Closes (c : Cursor) : Cursor → Option Span → Cursor → Option Quantifier → Prop where
  /-- The parenthesis stands there. -/
  | closed {close later : Cursor} {q : Option Quantifier} (hclose : c.Reads [')'] close)
      (hq : Quantifier.Follows close later q)
      (hread : Lexeme.ReadAt c later (.closing (c.spanTo close) q)) :
      Closes c close (some (c.spanTo close)) later q
  /-- The input has ended. -/
  | missing (hend : c.rest = []) : Closes c c none c none

/-- What is read from a place on: the further terms of the current alternative, the place where it
ends, the further alternatives, and the place where the disjunction ends. The flags say whether a
group is open around the disjunction, and whether the current alternative has no terms yet. -/
inductive Derives : (nested first : Bool) → Cursor → List Term → Cursor → List Branch → Cursor →
    Prop where
  /-- Nothing more. -/
  | stop {nested first : Bool} {c : Cursor} (hend : EndsAt nested c) :
      Derives nested first c [] c [] c
  /-- A bar and what follows it. -/
  | bar {nested first : Bool} {c next mid later : Cursor} {terms : List Term}
      {others : List Branch} (hbar : c.Reads ['|'] next)
      (hread : Lexeme.ReadAt c next (.bar (c.spanTo next)))
      (hrest : Derives nested true next terms mid others later) :
      Derives nested first c [] c (⟨c.spanTo next, ⟨next.spanTo mid, terms⟩⟩ :: others) later
  /-- A term without a group and what follows it. -/
  | term {nested first : Bool} {c next mid later : Cursor} {l : Lexeme} {t : Term}
      {terms : List Term} {others : List Branch} (hread : Lexeme.ReadAt c next l)
      (hterm : l.term? nested first = some t)
      (hrest : Derives nested false next terms mid others later) :
      Derives nested first c (t :: terms) mid others later
  /-- A group and what follows it. -/
  | group {nested first : Bool} {c inside innerMid bodyEnd close next mid later : Cursor}
      {o : GroupOpening} {innerTerms terms : List Term} {innerOthers others : List Branch}
      {closing : Option Span} {q : Option Quantifier}
      (ho : GroupOpening.Takes c inside o) (hread : Lexeme.ReadAt c inside (.opening o))
      (hbody : Derives true true inside innerTerms innerMid innerOthers bodyEnd)
      (hclose : Closes bodyEnd close closing next q)
      (hrest : Derives nested false next terms mid others later) :
      Derives nested first c
        (⟨.group ⟨c.spanTo close, o, ⟨⟨inside.spanTo innerMid, innerTerms⟩, innerOthers⟩, closing⟩,
          q⟩ :: terms) mid others later

/-! ## Places in a derivation -/

namespace Closes

variable {c close later : Cursor} {closing : Option Span} {q : Option Quantifier}

/-- The closing parenthesis ends at a later place. -/
theorem reaches_close (h : Closes c close closing later q) : c.Reaches close := by
  cases h with
  | closed hclose => exact hclose.reaches
  | missing => exact .refl c

/-- The quantifier of a group ends at a later place. -/
theorem reaches_later (h : Closes c close closing later q) : close.Reaches later := by
  cases h with
  | closed hclose hq => exact hq.reaches
  | missing => exact .refl c

/-- What `Closes` a group ends at a later place. -/
theorem reaches (h : Closes c close closing later q) : c.Reaches later :=
  h.reaches_close.trans h.reaches_later

/-- What follows a group is its quantifier, and there is none where the input has ended. -/
theorem follows (h : Closes c close closing later q) : Quantifier.Follows close later q := by
  cases h with
  | closed hclose hq => exact hq
  | missing hend =>
    refine .absent fun after q hq => ?_
    obtain ⟨x, w, -, hread⟩ := hq.reads
    rw [hread.1] at hend
    cases hend

end Closes

namespace Derives

variable {nested first : Bool} {c mid later : Cursor} {terms : List Term} {others : List Branch}

/-- The current alternative ends at a later place, and the disjunction ends later still. -/
theorem reaches (h : Derives nested first c terms mid others later) :
    c.Reaches mid ∧ mid.Reaches later := by
  induction h with
  | stop => exact ⟨.refl _, .refl _⟩
  | bar hbar hread hrest ih => exact ⟨.refl _, hbar.reaches.trans (ih.1.trans ih.2)⟩
  | term hread hterm hrest ih => exact ⟨hread.reaches.trans ih.1, ih.2⟩
  | group ho hread hbody hclose hrest ihbody ih =>
    have hgroup := hread.reaches.trans (ihbody.1.trans ihbody.2)
    exact ⟨(hgroup.trans hclose.reaches).trans ih.1, ih.2⟩

/-- What a place `Derives` ends at a later place. -/
theorem reaches_later (h : Derives nested first c terms mid others later) : c.Reaches later :=
  h.reaches.1.trans h.reaches.2

/-- A derivation goes on to a place where its disjunction `EndsAt`. -/
theorem endsAt (h : Derives nested first c terms mid others later) : EndsAt nested later := by
  induction h with
  | stop hend => exact hend
  | bar hbar hread hrest ih => exact ih
  | term hread hterm hrest ih => exact ih
  | group ho hread hbody hclose hrest ihbody ih => exact ih

end Derives

/-! ## There is a derivation from every place -/

/-- A closing parenthesis ends a group with the quantifier that follows. -/
theorem Closes.of_follows {c close later : Cursor} {q : Option Quantifier}
    (h : c.Reads [')'] close) (hq : Quantifier.Follows close later q) :
    Closes c close (some (c.spanTo close)) later q := by
  refine .closed h hq ⟨')', _, h.1, ?_⟩
  rw [Lexeme.read_close h.1, ← h.eq_next, hq.readOptional_eq]

/-- A closing parenthesis ends a group with the quantifier that may follow it. -/
theorem Closes.exists_of_reads {c close : Cursor} (h : c.Reads [')'] close) :
    ∃ later q, Quantifier.Follows close later q ∧
      Closes c close (some (c.spanTo close)) later q := by
  have hfollows := Quantifier.follows_readOptional close
  exact ⟨_, _, hfollows, .of_follows h hfollows⟩

/-- Where the body of a group `EndsAt`, something `Closes` the group. -/
theorem closes_of_endsAt {c : Cursor} (h : EndsAt true c) :
    ∃ close closing later q, Closes c close closing later q := by
  rcases h with hend | ⟨-, hhead⟩
  · exact ⟨_, _, _, _, .missing hend⟩
  · obtain ⟨t, ht⟩ := List.head?_eq_some_iff.mp hhead
    obtain ⟨later, q, -, hclose⟩ := Closes.exists_of_reads (Cursor.reads_next ht)
    exact ⟨_, _, _, _, hclose⟩

/-- There is a derivation from every place. -/
theorem exists_derives (nested first : Bool) (c : Cursor) :
    ∃ terms mid others later, Derives nested first c terms mid others later := by
  -- a group's body and what follows the group both begin further on, so the induction is on length
  induction hn : c.rest.length using Nat.strongRecOn generalizing nested first c with
  | ind n ih =>
    subst hn
    cases hrest : c.rest with
    | nil => exact ⟨_, _, _, _, .stop (.inl hrest)⟩
    | cons x t =>
      have hread := Lexeme.readAt_read hrest
      generalize (Lexeme.read x c).2 = next, (Lexeme.read x c).1 = l at hread
      have htakes := hread.takes
      have hlt := hread.length_lt
      -- a lexeme is a term or one of the three that shape the tree
      by_cases hterm : ∃ u, l.term? nested first = some u
      · obtain ⟨u, hu⟩ := hterm
        obtain ⟨terms, mid, others, later, h⟩ := ih _ hlt nested false next rfl
        exact ⟨_, _, _, _, .term hread hu h⟩
      · cases htakes with
        | bar hbar =>
          obtain ⟨terms, mid, others, later, h⟩ := ih _ hlt nested true next rfl
          exact ⟨_, _, _, _, .bar hbar hread h⟩
        | opening ho =>
          obtain ⟨innerTerms, innerMid, innerOthers, bodyEnd, hbody⟩ := ih _ hlt true true next rfl
          obtain ⟨close, closing, after, q, hclose⟩ := closes_of_endsAt hbody.endsAt
          have hle : after.rest.length ≤ next.rest.length :=
            (hbody.reaches_later.trans hclose.reaches).length_le
          obtain ⟨terms, mid, others, later, h⟩ :=
            ih _ (Nat.lt_of_le_of_lt hle hlt) nested false after rfl
          exact ⟨_, _, _, _, .group ho hread hbody hclose h⟩
        | closing hclose hq =>
          -- outside of groups the parenthesis is a term, so here the group around it ends
          have hnested : nested = true := by
            cases nested with
            | true => rfl
            | false => exact absurd ⟨_, rfl⟩ hterm
          exact ⟨_, _, _, _, .stop (.inr ⟨hnested, by rw [hclose.1]; rfl⟩)⟩
        | atom ha hq => exact absurd ⟨_, rfl⟩ hterm
        | strayQuantifier hq => exact absurd ⟨_, rfl⟩ hterm
        | malformedCount hw hread => exact absurd ⟨_, rfl⟩ hterm
        | brace hread => exact absurd ⟨_, rfl⟩ hterm

/-! ## The assembly puts together what is derived -/

/-- A draft after the rest of its disjunction: the further terms, then each bar and the alternative
after it. -/
def Draft.absorb : Draft → List Term → List Branch → Draft
  | d, terms, [] => terms.foldl addTerm d
  | d, terms, b :: others =>
    absorb ((terms.foldl addTerm d).addBar b.bar) b.alternative.terms others

/-- Terms are taken up by `absorb` one by one. -/
@[simp] theorem Draft.absorb_cons (d : Draft) (t : Term) (terms : List Term)
    (others : List Branch) : d.absorb (t :: terms) others = (d.addTerm t).absorb terms others := by
  cases others with
  | nil => rfl
  | cons b others => rfl

/-- A draft that has taken up the rest of its disjunction by `absorb` is finished as this
disjunction. -/
theorem Derives.finish_absorb {nested first : Bool} {c mid later : Cursor} {terms : List Term}
    {others : List Branch} (h : Derives nested first c terms mid others later) (d : Draft) :
    (d.absorb terms others).finish later.pos =
      d.complete.foldl Draft.prepend
        ⟨⟨⟨d.start, mid.pos⟩, d.terms.reverse ++ terms⟩, others⟩ := by
  -- each term and each bar changes the draft, so it varies along the derivation
  induction h generalizing d with
  | stop hend => simp [Draft.absorb, Draft.finish, Draft.current]
  | @bar _ _ c next mid later terms others hbar hread hrest ih =>
    have hnext := ih (d.addBar (c.spanTo next))
    simp only [Draft.absorb, List.foldl_nil, hnext]
    simp [Draft.addBar, Draft.prepend, Draft.current, Cursor.spanTo]
  | term hread hterm hrest ih =>
    rw [Draft.absorb_cons, ih]
    simp [Draft.addTerm]
  | group ho hread hbody hclose hrest ihbody ih =>
    rw [Draft.absorb_cons, ih]
    simp [Draft.addTerm]

namespace Assembly

/-- At the end of input `readAll` reads nothing more. -/
theorem readAll_of_end {a : Assembly} {c : Cursor} (h : c.rest = []) : a.readAll c = (a, c) := by
  rw [readAll]
  split
  · rfl
  · simp_all

/-- A lexeme is pushed by `readAll` when it is read, and reading goes on behind it. -/
theorem readAll_of_readAt {a : Assembly} {c next : Cursor} {l : Lexeme}
    (h : Lexeme.ReadAt c next l) : a.readAll c = (a.push l).readAll next := by
  obtain ⟨x, t, hrest, hread⟩ := h
  rw [readAll]
  split
  · simp_all
  · rename_i y u hy
    obtain rfl : x = y := by simp_all
    rw [hread]

/-- The disjunction that is put together by `readAll` from a place. -/
def outcome (a : Assembly) (c : Cursor) : Disjunction := (a.readAll c).1.finish (a.readAll c).2.pos

/-- At the end of input the open groups are closed by `finishGroups`. -/
theorem outcome_of_end {a : Assembly} {c : Cursor} (h : c.rest = []) :
    a.outcome c = finishGroups c.pos a.draft a.groups := by
  rw [outcome, readAll_of_end h]
  rfl

/-- A lexeme is pushed when it is read, which does not change the `outcome`. -/
theorem outcome_of_readAt {a : Assembly} {c next : Cursor} {l : Lexeme}
    (h : Lexeme.ReadAt c next l) : a.outcome c = (a.push l).outcome next := by
  rw [outcome, readAll_of_readAt h, outcome]

/-- The assembly is in the middle of what is derived: a group is open in it or not, and the current
alternative has terms or not. -/
def Suits (a : Assembly) (nested first : Bool) : Prop :=
  nested = !a.groups.isEmpty ∧ first = a.draft.terms.isEmpty

/-- A lexeme that is a term by `Lexeme.term?` is pushed as this term. -/
theorem push_of_term? {a : Assembly} {nested first : Bool} (ha : a.Suits nested first)
    {l : Lexeme} {t : Term} (h : l.term? nested first = some t) :
    ∃ events, a.push l = ⟨a.draft.addTerm t, a.groups, events⟩ := by
  obtain ⟨draft, groups, events⟩ := a
  obtain ⟨rfl, rfl⟩ := ha
  cases l with
  | bar => cases h
  | opening => cases h
  | closing span q =>
    cases groups with
    | nil => cases h; exact ⟨_, rfl⟩
    | cons g outer => cases h
  | atom a q => cases h; exact ⟨_, rfl⟩
  | strayQuantifier span => cases h; exact ⟨_, rfl⟩
  | strayBrace i => cases h; exact ⟨_, rfl⟩

/-- Where a group ends, it becomes a term of the draft around it. -/
theorem outcome_of_closes {c close later : Cursor} {closing : Option Span} {q : Option Quantifier}
    (h : Closes c close closing later q) (body outer : Draft) (o : GroupOpening)
    (groups : List OpenGroup) (events : List Event) :
    ∃ events', (⟨body, ⟨o, outer⟩ :: groups, events⟩ : Assembly).outcome c =
      (⟨outer.addTerm ⟨.group ⟨⟨o.parenthesis.start, close.pos⟩, o, body.finish c.pos, closing⟩, q⟩,
        groups, events'⟩ : Assembly).outcome later := by
  cases h with
  | closed hclose hq hread => exact ⟨events, outcome_of_readAt hread⟩
  | missing hend =>
    -- at the end of input both assemblies close what is open, the group first
    refine ⟨events, ?_⟩
    rw [outcome_of_end hend, outcome_of_end hend]
    rfl

/-- The `outcome` from a place is that from where its derivation ends, once the draft has taken up
by `Draft.absorb` what is derived. -/
theorem outcome_of_derives {nested first : Bool} {c mid later : Cursor} {terms : List Term}
    {others : List Branch} (h : Derives nested first c terms mid others later) {a : Assembly}
    (ha : a.Suits nested first) :
    ∃ events, a.outcome c =
      (⟨a.draft.absorb terms others, a.groups, events⟩ : Assembly).outcome later := by
  -- the groups that are open at the place are the same at the end, since bodies end before
  induction h generalizing a with
  | stop hend => exact ⟨a.events, rfl⟩
  | @bar _ _ c next mid later terms others hbar hread hrest ih =>
    have hnext : (a.push (.bar (c.spanTo next))).Suits _ true := ⟨ha.1, rfl⟩
    obtain ⟨events, hevents⟩ := ih hnext
    exact ⟨events, (outcome_of_readAt hread).trans hevents⟩
  | term hread hterm hrest ih =>
    obtain ⟨events, hpush⟩ := push_of_term? ha hterm
    obtain ⟨events, hevents⟩ := ih (a := ⟨a.draft.addTerm _, a.groups, events⟩) ⟨ha.1, rfl⟩
    refine ⟨events, (outcome_of_readAt hread).trans ?_⟩
    rw [hpush, hevents, Draft.absorb_cons]
  | @group _ _ c inside innerMid bodyEnd close next mid later o innerTerms terms innerOthers others
      closing q ho hread hbody hclose hrest ihbody ih =>
    -- the opening starts a new draft, which takes up the body; its end adds the group as a term
    have hopened : (a.push (.opening o)).Suits true true := ⟨rfl, rfl⟩
    obtain ⟨events, hinner⟩ := ihbody hopened
    obtain ⟨events, hclosed⟩ := outcome_of_closes hclose
      ((Draft.startingAt o.stop).absorb innerTerms innerOthers) a.draft o a.groups events
    obtain ⟨events, hevents⟩ := ih (a := ⟨a.draft.addTerm _, a.groups, events⟩) ⟨ha.1, rfl⟩
    have hbody := hbody.finish_absorb (Draft.startingAt o.stop)
    refine ⟨events, (outcome_of_readAt hread).trans ((hinner.trans hclosed).trans ?_)⟩
    rw [hbody, hevents, Draft.absorb_cons, ho.stop_eq, ho.start_eq]
    rfl

/-- The disjunction that is read from a place, with no group open, is the one that is derived. -/
theorem outcome_startingAt {c mid later : Cursor} {terms : List Term} {others : List Branch}
    (h : Derives false true c terms mid others later) :
    (startingAt c.pos).outcome c = ⟨⟨c.spanTo mid, terms⟩, others⟩ := by
  obtain ⟨events, hevents⟩ := outcome_of_derives h (a := startingAt c.pos) ⟨rfl, rfl⟩
  have hend : later.rest = [] := h.endsAt.resolve_right (by simp)
  rw [hevents, outcome_of_end hend]
  exact h.finish_absorb (Draft.startingAt c.pos)

end Assembly

/-- What `Reading.ofCursor` reads from a place to the end of a pattern is derived from this
place. -/
theorem Reading.derives_ofCursor (pattern : String) (c : Cursor) :
    ∃ terms mid others later, Derives false true c terms mid others later ∧ later.rest = [] ∧
      (ofCursor pattern c).regex =
        ⟨⟨0, pattern.utf8ByteSize⟩, ⟨⟨c.spanTo mid, terms⟩, others⟩⟩ := by
  obtain ⟨terms, mid, others, later, h⟩ := exists_derives false true c
  refine ⟨terms, mid, others, later, h, h.endsAt.resolve_right (by simp), ?_⟩
  rw [← Assembly.outcome_startingAt h]
  rfl

/-! ## Patterns -/

/-- What is derived from the beginning of a pattern is the body of `Regex.parse`. -/
theorem Derives.body_eq {pattern : String} {mid later : Cursor} {terms : List Term}
    {others : List Branch}
    (hd : Derives false true (.ofString pattern) terms mid others later) :
    (Regex.parse pattern).body = ⟨⟨(Cursor.ofString pattern).spanTo mid, terms⟩, others⟩ :=
  Assembly.outcome_startingAt hd

/-- The root of `Tree.parse` has the disjunction of what is derived from the beginning of the
pattern. -/
theorem Derives.root_eq {pattern : String} {mid later : Cursor} {terms : List Term}
    {others : List Branch}
    (hd : Derives false true (.ofString pattern) terms mid others later) :
    (Tree.parse pattern).root = Node.branch .regex ⟨0, pattern.utf8ByteSize⟩
      [Node.ofDisjunction ⟨⟨(Cursor.ofString pattern).spanTo mid, terms⟩, others⟩] := by
  rw [← hd.body_eq]
  rfl

/-- The body of `Regex.parse` is derived from the beginning to the end of the pattern. -/
theorem Regex.exists_derives (pattern : String) :
    ∃ terms mid others later,
      Derives false true (.ofString pattern) terms mid others later ∧ later.rest = [] ∧
        later.pos = pattern.utf8ByteSize := by
  obtain ⟨terms, mid, others, later, hd⟩ :=
    RegexTree.exists_derives false true (.ofString pattern)
  have hend : later.rest = [] := hd.endsAt.resolve_right (by simp)
  exact ⟨terms, mid, others, later, hd, hend, hd.reaches_later.pos_of_end hend⟩

end RegexTree
