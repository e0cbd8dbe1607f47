import RegexTree.Proofs.Brackets.Leaves
import RegexTree.Proofs.Prefix.Cut

/-! # Balance of brackets
Every group and every class has one opening delimiter, and one closing delimiter or what stands in
for it. The main statement, `Derives.excess_eq`, counts them up to an offset: the opening delimiters
are as many as the closing ones, the stand-ins, and the groups and classes that the offset cuts. -/

namespace RegexTree

/-- What is read has a width. -/
theorem Cursor.Reads.isEmpty_spanTo {x : Char} {w : List Char} {c later : Cursor}
    (h : c.Reads (x :: w) later) : (c.spanTo later).isEmpty = false := by
  have hpos := byteLength_pos (List.cons_ne_nil x w)
  have hlater := h.2
  refine beq_eq_false_iff_ne.mpr fun heq => ?_
  have hsame : c.pos = later.pos := heq
  omega

/-! ## Nodes that have nothing to do with brackets -/

namespace NodeKind

/-- The kinds of opening delimiters. -/
def isBegin (kind : NodeKind) : Bool := kind == .groupBegin || kind == .setBegin

/-- The kinds of closing delimiters. -/
def isEnd (kind : NodeKind) : Bool := kind == .groupEnd || kind == .setEnd

/-- The kinds of nodes that neither have delimiters nor are delimiters or invalid. -/
def isPlain (kind : NodeKind) : Bool :=
  !(kind.isBegin || kind.isEnd || kind.isBracketed || kind == .invalid)

end NodeKind

namespace Node

/-- The node neither has delimiters nor is a delimiter or stands in for one. -/
def isPlain (n : Node) : Bool := n.kind.isPlain || n.kind == .invalid && !n.span.isEmpty

/-- All nodes of some trees are plain. -/
def plainAll (ns : List Node) : Bool := (preorderOfAll ns).all (·.isPlain)

/-- No trees have only plain nodes. -/
@[simp] theorem plainAll_nil : plainAll [] = true := by
  rw [plainAll, preorderOfAll]
  rfl

/-- The nodes of two lists of trees are plain (`plainAll`) if those of either are. -/
@[simp] theorem plainAll_append (ms ns : List Node) :
    plainAll (ms ++ ns) = (plainAll ms && plainAll ns) := by
  rw [plainAll, preorderOfAll_append, List.all_append]
  rfl

/-- The nodes of some trees are plain if those of the first and of the others are. -/
theorem plainAll_cons (n : Node) (ns : List Node) :
    plainAll (n :: ns) = (plainAll [n] && plainAll ns) :=
  plainAll_append [n] ns

/-- A node of a plain kind has plain nodes if its children have. -/
@[simp] theorem plainAll_branch {kind : NodeKind} (hkind : kind.isPlain = true) (span : Span)
    (children ns : List Node) :
    plainAll (branch kind span children :: ns) = (plainAll children && plainAll ns) := by
  have hplain : (branch kind span children).isPlain = true := by
    rw [isPlain, show (branch kind span children).kind = kind from rfl, hkind, Bool.true_or]
  rw [plainAll, preorderOfAll_cons, List.all_cons, List.all_append, hplain, Bool.true_and]
  rfl

/-- A leaf of a plain kind is plain. -/
@[simp] theorem plainAll_leaf {kind : NodeKind} (hkind : kind.isPlain = true) (span : Span)
    (ns : List Node) : plainAll (leaf kind span :: ns) = plainAll ns := by
  have hleaf : leaf kind span = branch kind span [] := rfl
  rw [hleaf, plainAll_branch hkind, plainAll_nil, Bool.true_and]

/-- A `punctuation` is plain. -/
@[simp] theorem plainAll_punctuation (start stop : Nat) (ns : List Node) :
    plainAll (punctuation start stop :: ns) = plainAll ns := by
  rw [punctuation, plainAll_leaf (by decide)]

/-- An invalid leaf is plain if it has a width. -/
theorem plainAll_ofInvalid {x : Char} {w : List Char} {c later : Cursor}
    (h : c.Reads (x :: w) later) (reason : Reason) :
    plainAll [ofInvalid ⟨c.spanTo later, reason⟩] = true := by
  have hplain : (ofInvalid ⟨c.spanTo later, reason⟩).isPlain = true := by
    rw [isPlain, show (ofInvalid ⟨c.spanTo later, reason⟩).span = c.spanTo later from rfl,
      h.isEmpty_spanTo]
    rfl
  rw [plainAll, preorderOfAll_cons, preorderOfAll_children rfl, List.nil_append, List.all_cons,
    hplain, preorderOfAll]
  rfl

/-! ## Parts that have nothing to do with brackets -/

section Parts

variable {c later : Cursor}

/-- An escaped character is plain. -/
theorem plainAll_ofEscape (e : Escape) : plainAll [ofEscape e] = true := by
  obtain ⟨span, kind⟩ := e
  cases kind with
  | unicode p => obtain ⟨value, _ | _⟩ := p <;> simp (disch := decide) [ofEscape, ofCode]
  | _ => simp (disch := decide) [ofEscape, ofCode]

/-- An escaped set of characters is plain. -/
theorem plainAll_ofClassEscape (e : ClassEscape) : plainAll [ofClassEscape e] = true := by
  obtain ⟨span, kind⟩ := e
  cases kind with
  | predefined letter => simp (disch := decide) [ofClassEscape]
  | property p =>
    obtain ⟨negated, _ | name, value⟩ := p <;>
      simp (disch := decide) [ofClassEscape, ofPropertyName]

/-- An `Escaped` is plain. -/
theorem plainAll_ofEscaped {inClass : Bool} {e : Escaped} (h : Escaped.Takes inClass c later e) :
    plainAll [ofEscaped e] = true := by
  cases e with
  | character e => exact plainAll_ofEscape e
  | set e => exact plainAll_ofClassEscape e
  | invalid i =>
    cases h with
    | lone hread => exact plainAll_ofInvalid hread _
    | bad hw hread => exact plainAll_ofInvalid hread _

/-- An atom of a class is plain. -/
theorem plainAll_ofClassAtom {a : ClassAtom} (h : ClassAtom.Takes c later a) :
    plainAll [ofClassAtom a] = true := by
  cases h with
  | literal => simp (disch := decide) [ofClassAtom]
  | escaped he =>
    rw [ofClassAtom_ofEscaped]
    exact plainAll_ofEscaped he

/-- The `Members` of a class are plain. -/
theorem plainAll_map_ofClassMember {ms : List ClassMember}
    (h : CharacterClass.Members c ms later) : plainAll (ms.map ofClassMember) = true := by
  induction h with
  | nil => exact plainAll_nil
  | cons hm hms ih =>
    rw [List.map_cons, plainAll_cons, ih, Bool.and_true]
    cases hm with
    | atom ha => exact plainAll_ofClassAtom ha
    | range hlow hdash hhigh =>
      rw [ofClassMember, plainAll_branch (by decide), plainAll_cons, plainAll_ofClassAtom hlow,
        plainAll_leaf (by decide), plainAll_ofClassAtom hhigh, plainAll_nil]
      rfl

/-- A reference by name, or what is left of one, is plain. -/
theorem plainAll_ofReference {r : Except Invalid Backreference}
    (h : Backreference.Takes c later r) :
    plainAll [ofAtom (Atom.ofReference r)] = true := by
  cases h with
  | named => simp (disch := decide) [Atom.ofReference, ofAtom, ofBackreference, ofName]
  | bare hread => exact plainAll_ofInvalid hread _
  | malformed hopen hw hread => exact plainAll_ofInvalid (hopen.trans hread) _

/-- A quantifier that may follow is plain. -/
theorem plainAll_quantifier (q : Option Quantifier) :
    plainAll (q.map ofQuantifier).toList = true := by
  cases q with
  | none => exact plainAll_nil
  | some q =>
    have hmark : plainAll (q.lazyMark.map (leaf .lazyMark)).toList = true := by
      cases q.lazyMark <;> simp (disch := decide)
    obtain ⟨kind, operator, mark⟩ := q
    cases kind with
    | count count =>
      obtain ⟨min, _ | ⟨delimiter, _ | max⟩⟩ := count <;>
        simp (disch := decide) [ofQuantifier, ofOperator, ofUpperPart, hmark]
    | _ => simp (disch := decide) [ofQuantifier, ofOperator, hmark]

/-- A `GroupKind` is plain. -/
theorem plainAll_ofGroupKind {kind : GroupKind} (h : GroupKind.Takes c later kind) :
    plainAll (ofGroupKind kind).2.toList = true := by
  cases h with
  | plain hword =>
    rcases GroupKind.eq_of_mem_identifiers hword with
      ⟨-, rfl⟩ | ⟨-, rfl⟩ | ⟨-, rfl⟩ | ⟨-, rfl⟩ | ⟨-, rfl⟩ <;>
      simp (disch := decide) [ofGroupKind]
  | named => simp (disch := decide) [ofGroupKind, ofName]
  | badName hopen hw hread => exact plainAll_ofInvalid (hopen.trans hread) _
  | unknown hread => exact plainAll_ofInvalid hread _

end Parts

/-! ## Balance -/

/-- The leaf is an opening delimiter that ends by the offset. -/
def isBeginBy (offset : Nat) (n : Node) : Bool := n.kind.isBegin && n.span.stop ≤ offset

/-- The leaf is a closing delimiter that ends by the offset. -/
def isEndBy (offset : Nat) (n : Node) : Bool := n.kind.isEnd && n.span.stop ≤ offset

/-- The node stands in, up to the offset, for a missing closing delimiter. -/
def isStandInBy (offset : Nat) (n : Node) : Bool := n.isStandIn && n.span.stop ≤ offset

/-- The node is a group or a class that the offset cuts. -/
def isBracketedAt (offset : Nat) (n : Node) : Bool := n.kind.isBracketed && n.span.isCutAt offset

/-- By how much the opening delimiters up to the offset (`isBeginBy`) outnumber the closing ones
(`isEndBy`), the stand-ins (`isStandInBy`), and the groups and classes that are cut
(`isBracketedAt`), taken together. -/
def excess (offset : Nat) (ns : List Node) : Int :=
  (leavesOfAll ns).countP (isBeginBy offset) - (leavesOfAll ns).countP (isEndBy offset) -
    (preorderOfAll ns).countP (isStandInBy offset) -
      (preorderOfAll ns).countP (isBracketedAt offset)

section Excess

variable {offset start stop : Nat} {ns : List Node}

/-- The `excess` of two parts adds up. -/
@[simp] theorem excess_append (ms ns : List Node) :
    excess offset (ms ++ ns) = excess offset ms + excess offset ns := by
  simp only [excess, leavesOfAll_append, preorderOfAll_append, List.countP_append]
  omega

/-- The `excess` of the first tree and of the others adds up. -/
theorem excess_cons (n : Node) (ns : List Node) :
    excess offset (n :: ns) = excess offset [n] + excess offset ns := excess_append [n] ns

/-- Where all nodes are plain, there is nothing to count. -/
theorem excess_of_plainAll (h : plainAll ns = true) : excess offset ns = 0 := by
  have hplain : ∀ n ∈ preorderOfAll ns, n.kind.isBegin = false ∧ n.kind.isEnd = false ∧
      n.isStandIn = false ∧ n.kind.isBracketed = false := by
    intro n hn
    have hn := List.all_eq_true.mp h n hn
    rcases Bool.or_eq_true_iff.mp hn with hkind | hinvalid
    · simp only [NodeKind.isPlain, Bool.not_eq_true', Bool.or_eq_false_iff] at hkind
      obtain ⟨⟨⟨hbegin, hend⟩, hbracketed⟩, hinvalid⟩ := hkind
      exact ⟨hbegin, hend, by rw [isStandIn, hinvalid, Bool.false_and], hbracketed⟩
    · obtain ⟨hkind, hwidth⟩ := Bool.and_eq_true_iff.mp hinvalid
      have hwidth : n.span.isEmpty = false := by simpa using hwidth
      rw [eq_of_beq hkind, isStandIn, hwidth, Bool.and_false]
      exact ⟨rfl, rfl, rfl, rfl⟩
  have hleaf : ∀ n ∈ leavesOfAll ns, n ∈ preorderOfAll ns := fun n hn => (List.mem_filter.mp hn).1
  have hbegins : (leavesOfAll ns).countP (isBeginBy offset) = 0 := List.countP_eq_zero.mpr
    fun n hn => by simp [isBeginBy, hplain n (hleaf n hn)]
  have hends : (leavesOfAll ns).countP (isEndBy offset) = 0 := List.countP_eq_zero.mpr
    fun n hn => by simp [isEndBy, hplain n (hleaf n hn)]
  have hstandIns : (preorderOfAll ns).countP (isStandInBy offset) = 0 := List.countP_eq_zero.mpr
    fun n hn => by simp [isStandInBy, hplain n hn]
  have hbracketed : (preorderOfAll ns).countP (isBracketedAt offset) = 0 := List.countP_eq_zero.mpr
    fun n hn => by simp [isBracketedAt, hplain n hn]
  rw [excess, hbegins, hends, hstandIns, hbracketed]
  rfl

/-- Of a leaf the leaf itself is counted. -/
theorem excess_leaf {n : Node} (h : n.isLeaf = true) :
    excess offset [n] = (isBeginBy offset n).toNat - (isEndBy offset n).toNat -
      (isStandInBy offset n).toNat - (isBracketedAt offset n).toNat := by
  have hnodes : preorderOfAll [n] = [n] := by
    rw [preorderOfAll_cons, preorderOfAll_children h, preorderOfAll]
    rfl
  have hcount : ∀ p : Node → Bool, [n].countP p = (p n).toNat := by
    intro p
    rw [List.countP_singleton]
    cases p n <;> rfl
  rw [excess, leavesOfAll_singleton h, hnodes, hcount, hcount, hcount, hcount]

/-- An opening delimiter is in excess. -/
theorem excess_of_isBegin {kind : NodeKind} (hkind : kind.isBegin = true) (span : Span) :
    excess offset [leaf kind span] = if span.stop ≤ offset then 1 else 0 := by
  obtain ⟨hend, hbracketed, hinvalid⟩ :
      kind.isEnd = false ∧ kind.isBracketed = false ∧ (kind == .invalid) = false := by
    cases kind <;> first | exact ⟨rfl, rfl, rfl⟩ | cases hkind
  rw [excess_leaf rfl]
  by_cases hstop : span.stop ≤ offset <;>
    simp [isBeginBy, isEndBy, isStandInBy, isBracketedAt, isStandIn, leaf, hkind, hend, hbracketed,
      hinvalid, hstop]

/-- A closing delimiter, or what stands in for it, makes up for an opening one. -/
theorem excess_ofClosing {kind : NodeKind} (hkind : kind.isEnd = true) (reason : Reason)
    {span : Option Span} (hspan : ∀ s, span = some s → s.stop = stop) :
    excess offset [ofClosing kind reason stop span] = if stop ≤ offset then -1 else 0 := by
  obtain ⟨hbegin, hbracketed, hinvalid⟩ :
      kind.isBegin = false ∧ kind.isBracketed = false ∧ (kind == .invalid) = false := by
    cases kind <;> first | exact ⟨rfl, rfl, rfl⟩ | cases hkind
  cases span with
  | none =>
    have hinvalidKind : NodeKind.invalid.isBegin = false ∧ NodeKind.invalid.isEnd = false ∧
        NodeKind.invalid.isBracketed = false := ⟨rfl, rfl, rfl⟩
    rw [ofClosing, excess_leaf rfl]
    by_cases hstop : stop ≤ offset <;>
      simp [isBeginBy, isEndBy, isStandInBy, isBracketedAt, isStandIn, ofInvalid, Span.emptyAt,
        Span.isEmpty, hinvalidKind, hstop]
  | some s =>
    rw [ofClosing, excess_leaf rfl]
    have hs := hspan s rfl
    by_cases hstop : stop ≤ offset <;>
      simp [isBeginBy, isEndBy, isStandInBy, isBracketedAt, isStandIn, leaf, hkind, hbegin,
        hbracketed, hinvalid, hs, hstop]

/-- A group or a class that is cut makes up for its opening delimiter. -/
theorem excess_branch {kind : NodeKind} (hinvalid : (kind == .invalid) = false) (span : Span)
    (n : Node) (ns : List Node) :
    excess offset [branch kind span (n :: ns)] =
      excess offset (n :: ns) - (kind.isBracketed && span.isCutAt offset).toNat := by
  have hnodes : preorderOfAll [branch kind span (n :: ns)] =
      branch kind span (n :: ns) :: preorderOfAll (n :: ns) := by
    rw [preorderOfAll, List.append_nil]
    rfl
  have hstandIn : ¬ isStandInBy offset (branch kind span (n :: ns)) = true := by
    simp [isStandInBy, isStandIn, branch, hinvalid]
  have hcut : isBracketedAt offset (branch kind span (n :: ns)) =
      (kind.isBracketed && span.isCutAt offset) := rfl
  rw [excess, excess, leavesOfAll_branch, hnodes, List.countP_cons_of_neg hstandIn,
    List.countP_cons, hcut]
  cases kind.isBracketed && span.isCutAt offset
  · simp
  · simp only [if_true, Bool.toNat_true]
    omega

/-- A group or a class has nothing in excess if there is nothing between its delimiters. -/
theorem excess_bracketed {kind opening closing : NodeKind} (hkind : kind.isBracketed = true)
    (hopening : opening.isBegin = true) (hclosing : closing.isEnd = true)
    (hle : start + 1 ≤ stop) {span : Option Span} (hspan : ∀ s, span = some s → s.stop = stop)
    (reason : Reason) (h : excess offset ns = 0) :
    excess offset [branch kind ⟨start, stop⟩ (leaf opening ⟨start, start + 1⟩ ::
      (ns ++ [ofClosing closing reason stop span]))] = 0 := by
  have hinvalid : (kind == .invalid) = false := by
    cases kind <;> first | rfl | cases hkind
  rw [excess_branch hinvalid, excess_cons, excess_append, excess_of_isBegin hopening,
    excess_ofClosing hclosing reason hspan, h, hkind, Span.isCutAt]
  -- the offset lies behind the opening delimiter or not, and behind the node or not
  by_cases hstart : start + 1 ≤ offset
  · have hlt : start < offset := hstart
    rcases Nat.lt_or_ge offset stop with hstop | hstop
    · simp [hstart, hlt, hstop, Nat.not_le_of_lt hstop]
    · simp [hstart, hlt, hstop, Nat.not_lt_of_le hstop]
  · have hstop : ¬ stop ≤ offset := by omega
    have hlt : ¬ start < offset := hstart
    simp [hstart, hlt, hstop]

end Excess

/-! ## Atoms and terms -/

section Terms

variable {offset : Nat} {c later : Cursor}

/-- What closes a class or a group ends where the class or the group does. -/
theorem stop_of_skips {x : Char} {span : Option Span} (h : Cursor.Skips x c later span) :
    ∀ s, span = some s → s.stop = later.pos := by
  intro s hs
  cases h with
  | absent => cases hs
  | present hread =>
    cases hs
    rfl

/-- A `CharacterClass` has nothing in excess. -/
theorem excess_ofCharacterClass {s : CharacterClass} (h : CharacterClass.Takes c later s) :
    excess offset [ofCharacterClass s] = 0 := by
  obtain @⟨negation, closing, members, inside, start, stop, hopen, hnegation, hmembers, hclosing,
    -⟩ := h
  have hinner : excess offset
      ((negation.map (leaf .setNegation)).toList ++ members.map ofClassMember) = 0 := by
    refine excess_of_plainAll ?_
    rw [plainAll_append, plainAll_map_ofClassMember hmembers]
    cases negation <;> simp (disch := decide)
  have hinside : inside.pos = c.pos + 1 := hopen.2
  have hle : c.pos + 1 ≤ later.pos := by
    rw [← hinside]
    exact ((hnegation.reaches.trans hmembers.reaches).trans hclosing.reaches).pos_le
  simp only [ofCharacterClass, List.cons_append, Cursor.spanTo, hinside]
  exact excess_bracketed rfl rfl rfl hle (stop_of_skips hclosing) _ hinner

/-- An `Atom` has nothing in excess. -/
theorem excess_ofAtom {a : Atom} (h : Atom.Takes c later a) : excess offset [ofAtom a] = 0 := by
  cases h with
  | characterClass hs => exact excess_ofCharacterClass hs
  | reference hr => exact excess_of_plainAll (plainAll_ofReference hr)
  | escaped he =>
    rw [ofAtom_ofEscaped]
    exact excess_of_plainAll (plainAll_ofEscaped he)
  | stray hx hread => exact excess_of_plainAll (plainAll_ofInvalid hread _)
  | @boundary x hx hread =>
    refine excess_of_plainAll ?_
    by_cases hb : x = 'b' <;> simp (disch := decide) [ofAtom, kindOfAssertion, hb]
  | _ =>
    refine excess_of_plainAll ?_
    simp (disch := decide) [ofAtom, ofBackreference, kindOfAssertion]

/-- A `Term` without a group has nothing in excess. -/
theorem excess_ofTerm {nested first : Bool} {t : Term} (h : Term.Takes nested first c later t) :
    excess offset (ofTerm t) = 0 := by
  have hterm : ∀ (a : Atom) (q : Option Quantifier), excess offset [ofAtom a] = 0 →
      excess offset (ofTerm ⟨.atom a, q⟩) = 0 := by
    intro a q ha
    rw [ofTerm, excess_cons, ofElement, ha, excess_of_plainAll (plainAll_quantifier q)]
    rfl
  cases h with
  | atom ha hq => exact hterm _ _ (excess_ofAtom ha)
  | strayClosing houtside hread hq =>
    exact hterm _ _ (excess_of_plainAll (plainAll_ofInvalid hread _))
  | strayQuantifier hq =>
    obtain ⟨x, w, -, hread⟩ := hq.reads
    exact hterm _ _ (excess_of_plainAll (plainAll_ofInvalid hread _))
  | malformedCount hw hread =>
    rcases hread with hread | hread
    · exact hterm _ _ (excess_of_plainAll (plainAll_ofInvalid hread _))
    · exact hterm _ _ (excess_of_plainAll (plainAll_ofInvalid hread _))
  | brace hread => exact hterm _ _ (excess_of_plainAll (plainAll_ofInvalid hread _))

/-- An alternative has nothing in excess if its terms have not. -/
theorem excess_ofAlternative {span : Span} {terms : List Term}
    (h : excess offset (ofTerms terms) = 0) :
    excess offset [ofAlternative ⟨span, terms⟩] = 0 := by
  cases terms with
  | nil =>
    refine excess_of_plainAll ?_
    simp (disch := decide) [ofAlternative, ofTerms]
  | cons t terms =>
    rw [ofTerms_cons, ofTerm, List.cons_append] at h
    rw [ofAlternative, ofTerms_cons, ofTerm, List.cons_append, excess_branch rfl, h]
    rfl

/-- A group has nothing in excess if its body has not. -/
theorem excess_ofGroup {inside bodyEnd close : Cursor} {o : GroupOpening} {body : Disjunction}
    {closing : Option Span} {q : Option Quantifier} (ho : GroupOpening.Takes c inside o)
    (hbody : inside.Reaches bodyEnd) (hclose : Closes bodyEnd close closing later q)
    (h : excess offset [ofDisjunction body] = 0) :
    excess offset [ofGroup ⟨c.spanTo close, o, body, closing⟩] = 0 := by
  obtain ⟨start, hopen, hparenthesis, hidentifier⟩ := tiles_identifier ho
  have hstart : start.pos = c.pos + 1 := hopen.2
  have hle : c.pos + 1 ≤ close.pos := by
    rw [← hstart]
    exact ((hidentifier.reaches.trans hbody).trans hclose.reaches_close).pos_le
  have hkind : (ofGroupKind o.kind).1.isBracketed = true := by cases o.kind <;> rfl
  have hstop : ∀ s, closing = some s → s.stop = close.pos := by
    intro s hs
    cases hclose with
    | closed => cases hs; rfl
    | missing => cases hs
  have hinner : excess offset ((ofGroupKind o.kind).2.toList ++ [ofDisjunction body]) = 0 := by
    have hplain : plainAll (ofGroupKind o.kind).2.toList = true := by
      cases ho with
      | anonymous => exact plainAll_nil
      | identified hread htakes => exact plainAll_ofGroupKind htakes
    rw [excess_append, excess_of_plainAll hplain, h]
    rfl
  have hnodes : ∀ (n m : Node) (ns : List Node), ns ++ [n, m] = ns ++ [n] ++ [m] := by
    intro n m ns
    rw [List.append_assoc]
    rfl
  simp only [ofGroup, List.cons_append, hnodes, hparenthesis, Cursor.spanTo, hstart]
  exact excess_bracketed hkind rfl rfl hle hstop _ hinner

end Terms

end Node

/-- What is derived has nothing in excess. -/
theorem Derives.excess_eq {nested first : Bool} {c mid later : Cursor} {terms : List Term}
    {others : List Branch} (h : Derives nested first c terms mid others later) (offset : Nat) :
    Node.excess offset (Node.ofTerms terms) = 0 ∧
      Node.excess offset (Node.ofBranches others) = 0 := by
  have hnil : Node.excess offset [] = 0 := Node.excess_of_plainAll Node.plainAll_nil
  induction h with
  | stop hend => exact ⟨hnil, hnil⟩
  | bar hbar hread hrest ih =>
    refine ⟨hnil, ?_⟩
    have hplain : ∀ span, Node.plainAll [Node.leaf .disjunctionDelimiter span] = true := by
      simp (disch := decide)
    rw [Node.ofBranches, Node.excess_cons, Node.excess_of_plainAll (hplain _), Node.excess_cons,
      Node.excess_ofAlternative ih.1, ih.2]
    rfl
  | term hread hterm hrest ih =>
    refine ⟨?_, ih.2⟩
    rw [Node.ofTerms_cons, Node.excess_append, Node.excess_ofTerm (hread.takes_term hterm), ih.1]
    rfl
  | @group _ _ c inside innerMid bodyEnd close next mid later o innerTerms terms innerOthers others
      closing q ho hread hbody hclose hrest ihbody ih =>
    refine ⟨?_, ih.2⟩
    have hdisjunction : Node.excess offset
        [Node.ofDisjunction ⟨⟨inside.spanTo innerMid, innerTerms⟩, innerOthers⟩] = 0 := by
      rw [Node.ofDisjunction, Node.excess_branch rfl, Node.excess_cons,
        Node.excess_ofAlternative ihbody.1, ihbody.2]
      rfl
    rw [Node.ofTerms_cons, Node.excess_append, Node.ofTerm, Node.excess_cons, Node.ofElement,
      Node.excess_ofGroup ho hbody.reaches_later hclose hdisjunction,
      Node.excess_of_plainAll (Node.plainAll_quantifier q), ih.1]
    rfl

end RegexTree
