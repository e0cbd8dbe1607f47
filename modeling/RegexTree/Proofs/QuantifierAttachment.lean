import RegexTree.Proofs.Isolation
import RegexTree.Proofs.MisplacedQuantifiers
import RegexTree.Proofs.Partition
import RegexTree.Proofs.Schema.Derivation

/-! # Attached quantifiers
A quantifier belongs to the element that it stands behind, and takes as much of the text as it can.
The main statement says so of every term of a pattern: behind an element without a quantifier there
is none, unless the element is itself what is left of one, and then it carries none. In the tree a
quantifier is therefore always a child of an alternative and stands behind what it repeats. -/

namespace RegexTree

/-! ## Quantifiers in a text -/

/-- The text is the longest quantifier that stands at the beginning of another text. -/
structure IsLongestQuantifier (w text : List Char) : Prop where
  /-- It stands at the beginning. -/
  isPrefix : w <+: text
  /-- It is a quantifier. -/
  quantifier : Grammar.Quantifier w []
  /-- No longer text is one that stands there. -/
  longest : ∀ v, v <+: text → Grammar.Quantifier v [] → v.length ≤ w.length

/-- The text does not begin with a quantifier. -/
def BeginsNoQuantifier (text : List Char) : Prop :=
  ∀ w, w <+: text → ¬ Grammar.Quantifier w []

namespace Quantifier

variable {c later stop : Cursor} {q : Quantifier} {v : List Char}

/-- A `Quantifier` that is read leaves no more behind than any text of a quantifier that stands
there. -/
theorem Takes.length_le (h : Takes c later q) (hv : c.Reads v stop)
    (hquantifier : Grammar.Quantifier v []) : later.rest.length ≤ stop.rest.length := by
  obtain @⟨kind, mark, middle, hkind, hmark⟩ := h
  obtain ⟨kind', middle', hkind', hmiddle⟩ := exists_takes_kind hv hquantifier
  -- only one operator stands there
  have hsame : some (kind, middle) = some (kind', middle') :=
    (readKind?_of_takes hkind).symm.trans (readKind?_of_takes hkind')
  obtain ⟨rfl, rfl⟩ := Prod.mk.inj (Option.some.inj hsame)
  rcases hmiddle with hmiddle | hmiddle
  · rw [← hmiddle]
    exact hmark.reaches.length_le
  · cases hmark with
    | absent hnext => exact absurd (by rw [hmiddle]; rfl) hnext
    | present hread =>
      rw [hread.1] at hmiddle
      exact Nat.le_of_eq (congrArg List.length (List.cons.inj hmiddle).2)

/-- A quantifier that is read is the longest one that stands there, by `IsLongestQuantifier`. -/
theorem Takes.isLongest (h : Takes c later q) {w : List Char} (hw : c.Reads w later) :
    IsLongestQuantifier w c.rest where
  isPrefix := ⟨later.rest, hw.1.symm⟩
  quantifier := h.quantifier_of_reads hw
  longest := by
    rintro v ⟨t, ht⟩ hquantifier
    obtain ⟨stop, hv, rfl⟩ := Cursor.exists_reads ht.symm
    have hle := h.length_le hv hquantifier
    have hlength : (w ++ later.rest).length = (v ++ stop.rest).length := by rw [← hw.1, ← hv.1]
    rw [List.length_append, List.length_append] at hlength
    omega

/-- Where no quantifier is read, none stands. -/
theorem beginsNoQuantifier (hnone : ∀ later q, ¬ Takes c later q) : BeginsNoQuantifier c.rest := by
  rintro v ⟨t, ht⟩ hquantifier
  obtain ⟨stop, hv, -⟩ := Cursor.exists_reads ht.symm
  obtain ⟨kind, middle, hkind, -⟩ := exists_takes_kind hv hquantifier
  exact hnone _ _ (.mk hkind (Cursor.skips_skipOptional '?' middle))

end Quantifier

/-! ## Terms -/

/-- The text of a pattern behind an element, up to the end. -/
def Element.textBehind (source : String) (e : Element) : List Char :=
  ((⟨e.span.stop, source.utf8ByteSize⟩ : Span).textIn source).toList

/-- The element is what is left of a quantifier, well-formed or not, that had nothing to repeat. -/
def Element.IsStray (source : String) (e : Element) : Prop :=
  e.IsStrayQuantifier ∨ ∃ i, e = .atom (.invalid i) ∧ i.reason = .unknownConstruct ∧
    i.span.textIn source = "\x7b"

/-- The quantifier of a term, if it has one, is all that it should be. -/
structure Term.IsAttached (source : String) (t : Term) : Prop where
  /-- A quantifier stands directly behind its element and is as long as it can be. -/
  attached : ∀ q, t.quantifier = some q → q.span.start = t.element.span.stop ∧
    IsLongestQuantifier (q.span.textIn source).toList (t.element.textBehind source)
  /-- No quantifier stands behind an element without one, unless the element is stray. -/
  bare : t.quantifier = none → ¬ t.element.IsStray source →
    BeginsNoQuantifier (t.element.textBehind source)
  /-- A stray element carries no quantifier. -/
  stray : t.element.IsStray source → t.quantifier = none

variable {source : String} {c middle later : Cursor}

/-- What is left behind an element (`textBehind`) is the rest of the pattern. -/
theorem Element.textBehind_eq {e : Element} (hc : (Cursor.ofString source).Reaches middle)
    (hspan : e.span.stop = middle.pos) : e.textBehind source = middle.rest := by
  have hread : middle.Reads middle.rest ⟨middle.pos + byteLength middle.rest, []⟩ :=
    ⟨by simp, rfl⟩
  have hend := (hc.trans hread.reaches).pos_of_end rfl
  have htext := hc.toList_textIn hread
  rw [Cursor.spanTo, hend, ← hspan] at htext
  exact htext

/-- An element that is no stray one is attached to the quantifier that may follow it. -/
theorem Term.isAttached_of_follows {e : Element} {q : Option Quantifier}
    (hc : (Cursor.ofString source).Reaches middle) (hspan : e.span.stop = middle.pos)
    (hq : Quantifier.Follows middle later q) (hstray : ¬ e.IsStray source) :
    IsAttached source ⟨e, q⟩ := by
  have hbehind := Element.textBehind_eq hc hspan
  constructor
  case attached =>
    rintro p rfl
    cases hq with
    | present hq =>
      obtain ⟨x, w, -, hw⟩ := hq.reads
      rw [hbehind, hq.span_eq, hc.toList_textIn hw]
      exact ⟨hspan.symm, hq.isLongest hw⟩
  case bare =>
    rintro rfl -
    cases hq with
    | absent hnone =>
      rw [hbehind]
      exact Quantifier.beginsNoQuantifier hnone
  case stray => exact fun h => absurd h hstray

/-- A stray element without a quantifier is all that it should be. -/
theorem Term.isAttached_of_stray {e : Element} (hstray : e.IsStray source) :
    IsAttached source ⟨e, none⟩ where
  attached := nofun
  bare := fun _ h => absurd hstray h
  stray := fun _ => rfl

/-- An invalid span whose reason is of no quantifier and whose text is not an opening brace is not
stray (`Element.IsStray`). -/
theorem Element.not_isStray {i : Invalid} (hreason : i.reason ≠ .badQuantifier ∧
    i.reason ≠ .stackedQuantifier)
    (htext : i.reason = .unknownConstruct → i.span.textIn source ≠ "\x7b") :
    ¬ (Element.atom (.invalid i)).IsStray source := by
  rintro (⟨j, hj, hbad | hstacked⟩ | ⟨j, hj, hunknown, hbrace⟩) <;> cases hj
  · exact hreason.1 hbad
  · exact hreason.2 hstacked
  · exact htext hunknown hbrace

/-- A character that closes nothing is not stray. -/
theorem Element.not_isStray_of_closer (hc : (Cursor.ofString source).Reaches c) {x : Char}
    (hx : x ≠ '\x7b') (hread : c.Reads [x] middle) :
    ¬ (Element.atom (.invalid ⟨c.spanTo middle, .unknownConstruct⟩)).IsStray source := by
  refine not_isStray ⟨nofun, nofun⟩ fun _ htext => ?_
  have hlist : ((c.spanTo middle).textIn source).toList = ['\x7b'] := congrArg String.toList htext
  rw [hc.toList_textIn hread] at hlist
  exact hx (List.cons.inj hlist).1

/-- An `Atom` is not stray: what is left of a quantifier is a lexeme of its own. -/
theorem Atom.Takes.not_isStray {a : Atom} (hc : (Cursor.ofString source).Reaches c)
    (h : Takes c middle a) : ¬ (Element.atom a).IsStray source := by
  cases h with
  | reference hr =>
    cases hr with
    | named =>
      rintro (⟨i, hi, -⟩ | ⟨i, hi, -⟩) <;> cases hi
    | bare => exact Element.not_isStray ⟨nofun, nofun⟩ nofun
    | malformed => exact Element.not_isStray ⟨nofun, nofun⟩ nofun
  | escaped he =>
    cases he with
    | lone => exact Element.not_isStray ⟨nofun, nofun⟩ nofun
    | bad => exact Element.not_isStray ⟨nofun, nofun⟩ nofun
    | _ => rintro (⟨i, hi, -⟩ | ⟨i, hi, -⟩) <;> cases hi
  | stray hx hread =>
    refine Element.not_isStray_of_closer hc ?_ hread
    rcases hx with rfl | rfl <;> decide
  | _ => rintro (⟨i, hi, -⟩ | ⟨i, hi, -⟩) <;> cases hi

/-- A `Term` without a group is attached to its quantifier. -/
theorem Term.Takes.isAttached {nested first : Bool} {t : Term}
    (hc : (Cursor.ofString source).Reaches c) (h : Term.Takes nested first c later t) :
    t.IsAttached source := by
  cases h with
  | atom ha hq =>
    obtain ⟨x, w, hread⟩ := ha.reads
    exact isAttached_of_follows (hc.trans hread.reaches) (congrArg Span.stop ha.span_eq) hq
      (ha.not_isStray hc)
  | strayClosing houtside hread hq =>
    exact isAttached_of_follows (hc.trans hread.reaches) rfl hq
      (Element.not_isStray_of_closer hc (by decide) hread)
  | strayQuantifier hq =>
    refine isAttached_of_stray (.inl ⟨_, rfl, ?_⟩)
    cases first with
    | true => exact .inl rfl
    | false => exact .inr rfl
  | malformedCount => exact isAttached_of_stray (.inl ⟨_, rfl, .inl rfl⟩)
  | brace hread =>
    refine isAttached_of_stray (.inr ⟨_, rfl, rfl, ?_⟩)
    exact String.toList_inj.mp (hc.toList_textIn hread)

/-- A group is attached to the quantifier behind its closing parenthesis. -/
theorem Closes.isAttached {bodyEnd close : Cursor} {closing : Option Span} {q : Option Quantifier}
    (hc : (Cursor.ofString source).Reaches bodyEnd) (h : Closes bodyEnd close closing later q)
    {g : Group} (hspan : g.span.stop = close.pos) : Term.IsAttached source ⟨.group g, q⟩ := by
  refine Term.isAttached_of_follows (hc.trans h.reaches_close) hspan h.follows ?_
  rintro (⟨i, hi, -⟩ | ⟨i, hi, -⟩) <;> cases hi

/-- Every term of a pattern, at any depth, is attached to its quantifier (`Term.IsAttached`). -/
theorem Regex.isAttached_of_mem_terms {t : Term} (ht : t ∈ (parse source).terms) :
    t.IsAttached source := by
  obtain ⟨nested, first, a, b, ha, hstands⟩ := standsAt_of_mem_terms ht
  cases hstands with
  | lexeme hread hterm => exact (hread.takes_term hterm).isAttached ha
  | group ho hread hbody hclose =>
    exact hclose.isAttached ((ha.trans hread.reaches).trans hbody.reaches_later) rfl

/-! ## Nodes -/

namespace NodeKind

/-- The kinds of the nodes of quantifiers. -/
def quantifiers : List NodeKind := [zeroOrMore, oneOrMore, optional, countQuantifier]

end NodeKind

namespace Label

/-- No unit is one of the `quantifiers`. -/
theorem not_mem_units_of_mem_quantifiers : ∀ s ∈ quantifiers, s ∉ units := by decide

/-- Among the children of an alternative, a unit is the last one before a quantifier. -/
theorem exists_unit_before {w before after : List Label} {s : Label}
    (hw : w ∈ NodeKind.pattern.rule.matches') (hsplit : w = before ++ s :: after)
    (hs : s ∈ quantifiers) : ∃ u ∈ units, before.getLast? = some u := by
  obtain ⟨ws, rfl, hall⟩ := Language.mem_kstar.mp hw
  clear hw
  -- the children are units with or without a quantifier, one after the other
  induction ws generalizing before with
  | nil => simp at hsplit
  | cons v ws ih =>
    obtain ⟨hv, hrest⟩ := List.forall_mem_cons.mp hall
    obtain ⟨x, hx, y, hy, rfl⟩ := Language.mem_mul.mp hv
    obtain ⟨u, hu, rfl⟩ := mem_oneOf.mp hx
    rw [List.flatten_cons, List.append_assoc, List.singleton_append] at hsplit
    cases before with
    | nil =>
      obtain ⟨rfl, -⟩ := List.cons.inj hsplit
      exact absurd hu (not_mem_units_of_mem_quantifiers _ hs)
    | cons b before =>
      obtain ⟨rfl, htail⟩ := List.cons.inj hsplit
      rcases hy with hy | hy
      · obtain ⟨q, -, rfl⟩ := mem_oneOf.mp hy
        cases before with
        | nil => exact ⟨_, hu, rfl⟩
        | cons p before =>
          obtain ⟨r, hr, hlast⟩ := ih hrest (List.cons.inj htail).2
          exact ⟨r, hr, by rw [List.getLast?_cons_cons, List.getLast?_cons, hlast]; rfl⟩
      · obtain rfl : y = [] := hy
        obtain ⟨r, hr, hlast⟩ := ih hrest htail
        exact ⟨r, hr, by rw [List.getLast?_cons, hlast]; rfl⟩

end Label

namespace Node

/-- A node that conforms looks like a quantifier exactly if it is of a kind of quantifiers. -/
theorem Conforms.label_mem_quantifiers {n : Node} (h : n.Conforms source) :
    n.label source ∈ Label.quantifiers ↔ n.kind ∈ NodeKind.quantifiers := by
  have hkinds : Label.quantifiers = NodeKind.quantifiers.map .node := rfl
  have hnone : .invalid ∉ NodeKind.quantifiers ∧ .punctuation ∉ NodeKind.quantifiers := by decide
  rw [hkinds, label]
  cases hreason : n.reason with
  | some reason =>
    have hkind := (h.invalid reason hreason).1
    simp [hkind, hnone.1]
  | none =>
    by_cases hkind : n.kind = .punctuation
    · simp [hkind, hnone.2]
    · simp [hkind]

/-- Only alternatives have quantifiers as children. -/
theorem Conforms.kind_eq_pattern {n m : Node} (h : n.Conforms source) (hm : m ∈ n.children)
    (hlabel : m.label source ∈ Label.quantifiers) : n.kind = .pattern := by
  have hletters : ∀ kind : NodeKind, kind = .pattern ∨
      ∀ s ∈ Label.quantifiers, s ∉ Label.letters kind.rule := by
    intro kind
    cases kind <;> decide
  refine (hletters n.kind).resolve_right fun hno => ?_
  exact hno _ hlabel (Label.mem_letters h.children _ (List.mem_map_of_mem hm))

/-- Nodes that cover a span (`coversTo`) stand one directly behind the other. -/
theorem stop_eq_start_of_coversTo {stop start : Nat} {before after : List Node} {m n : Node}
    (h : coversTo stop start (before ++ m :: n :: after) = true) : m.span.stop = n.span.start := by
  induction before generalizing start with
  | nil =>
    simp only [List.nil_append, coversTo, Bool.and_eq_true, beq_iff_eq] at h
    exact h.2.1.symm
  | cons b before ih =>
    simp only [List.cons_append, coversTo, Bool.and_eq_true] at h
    exact ih h.2

end Node

/-- A quantifier is a child of an alternative in the tree of a pattern, and what stands directly
before it is no quantifier and ends where it begins. -/
theorem Tree.exists_before_quantifier {n q : Node} {before after : List Node}
    (hn : n ∈ (parse source).root.preorder) (hsplit : n.children = before ++ q :: after)
    (hq : q.kind ∈ NodeKind.quantifiers) :
    n.kind = .pattern ∧ ∃ u, before.getLast? = some u ∧ u.kind ∉ NodeKind.quantifiers ∧
      u.span.stop = q.span.start := by
  have hmem : ∀ m ∈ n.children, m.Conforms source := fun m hm =>
    conforms_of_mem (Node.mem_preorderOfAll_of_mem_children hn hm)
  have hchild : q ∈ n.children := by
    rw [hsplit]
    simp
  have hlabel := (hmem q hchild).label_mem_quantifiers.mpr hq
  have hconforms : n.Conforms source := conforms_of_mem hn
  have hkind := hconforms.kind_eq_pattern hchild hlabel
  refine ⟨hkind, ?_⟩
  have hlabels := hconforms.children
  rw [hkind, hsplit, List.map_append, List.map_cons] at hlabels
  obtain ⟨s, hs, hlast⟩ := Label.exists_unit_before hlabels rfl hlabel
  rw [List.getLast?_map] at hlast
  obtain ⟨u, hu, rfl⟩ := Option.map_eq_some_iff.mp hlast
  obtain ⟨init, rfl⟩ := List.getLast?_eq_some_iff.mp hu
  refine ⟨u, hu, fun hquantifier => ?_, ?_⟩
  · have hunit := (hmem u (by rw [hsplit]; simp)).label_mem_quantifiers.mpr hquantifier
    exact Label.not_mem_units_of_mem_quantifiers _ hunit hs
  · obtain ⟨later, -, -, htiles⟩ := tiles_root source
    have hcovers := htiles.covers_of_mem n hn (by simp [Node.isBranch, hkind])
    rw [hsplit, List.append_assoc] at hcovers
    exact Node.stop_eq_start_of_coversTo hcovers

/-- Every term of a pattern, at any depth, is attached to the longest quantifier that stands behind
its element, if one does, and stray elements carry none. In the tree every quantifier is a child of
an alternative and stands directly behind a node that is no quantifier. -/
theorem Regex.quantifiers_attached (source : String) :
    (∀ t ∈ (parse source).terms, t.IsAttached source) ∧
      ∀ n ∈ (Tree.parse source).root.preorder, ∀ before q after,
        n.children = before ++ q :: after → q.kind ∈ NodeKind.quantifiers →
          n.kind = .pattern ∧ ∃ u, before.getLast? = some u ∧ u.kind ∉ NodeKind.quantifiers ∧
            u.span.stop = q.span.start := by
  constructor
  · intro t ht
    exact isAttached_of_mem_terms ht
  · intro n hn before q after hsplit hq
    exact Tree.exists_before_quantifier hn hsplit hq

/-- A lazy count behind a group, and a plus behind it that is left over. -/
theorem Regex.quantifiers_attached_lazy :
    let count : Quantifier := ⟨.count ⟨⟨2, ⟨4, 5⟩⟩, some ⟨⟨5, 6⟩, none⟩⟩, ⟨3, 7⟩, some ⟨7, 8⟩⟩
    let body : Disjunction := ⟨⟨⟨1, 2⟩, [⟨.atom (.literal ⟨1, 2⟩ 'x'), none⟩]⟩, []⟩
    let t : Term := ⟨.group ⟨⟨0, 3⟩, ⟨⟨0, 1⟩, .anonymous⟩, body, some ⟨2, 3⟩⟩, some count⟩
    t ∈ (parse "(x){2,}?+").terms ∧ count.span.start = 3 ∧
      IsLongestQuantifier (count.span.textIn "(x){2,}?+").toList
        (t.element.textBehind "(x){2,}?+") := by
  intro count body t
  have ht : t ∈ (parse "(x){2,}?+").terms := by decide +kernel
  exact ⟨ht, rfl, (((quantifiers_attached "(x){2,}?+").1 t ht).attached count rfl).2⟩

end RegexTree
