import RegexTree.Proofs.Partition
import RegexTree.Proofs.Prefix.Balance
import RegexTree.Proofs.Prefix.Derivation

/-! # Beginnings of patterns
The main statement, `Tree.parse_prefix`, compares the tree of a pattern that makes sense with that
of its beginning up to any boundary between characters, as it is while the pattern is typed: the
finished part is there already, nothing in it makes no sense, and the closing delimiters that are
missing are those of the groups and classes that are cut. -/

namespace RegexTree

/-! ## Brackets of beginnings -/

namespace Delimiter

/-- The opening delimiters. -/
def isBegin (d : Delimiter) : Bool := d == .groupBegin || d == .setBegin

/-- The closing delimiters that close something. -/
def isEnd (d : Delimiter) : Bool := d == .groupEnd || d == .setEnd

end Delimiter

section Counts

/- A choice among the delimiters, and the same choice among the kinds of leaves, which stray
delimiters have no part in. -/
variable {source : String} {text more : List Char} {p : NodeKind → Bool} {q : Delimiter → Bool}
  (hkind : ∀ kind : NodeKind, (kind.delimiter?.map q).getD false = p kind)
  (hparenthesis : q .strayParenthesis = false) (hbracket : q .strayBracket = false)

include hkind hparenthesis hbracket

/-- Whether a leaf is one of the chosen delimiters is decided by its kind
(`NodeKind.delimiter?`). -/
theorem Node.getD_delimiter? (source : String) (stop : Nat) (n : Node) :
    ((n.delimiter? source).map fun d => q d.1 && d.2.stop ≤ stop).getD false =
      (p n.kind && n.span.stop ≤ stop) := by
  rw [← hkind, delimiter?]
  cases n.kind.delimiter? with
  | some d => rfl
  | none =>
    -- stray delimiters are invalid leaves, which are not chosen
    simp only [Option.map_none, Option.getD_none, Bool.false_and]
    split_ifs <;> simp [hparenthesis, hbracket]

/-- Leaves of chosen delimiters in a beginning of a pattern are counted by `Scanner.scan`. -/
theorem Tree.countP_leaves (hsource : source.toList = text ++ more) :
    (parse source).root.leaves.countP (fun n => p n.kind && n.span.stop ≤ byteLength text) =
      ((⟨0, false⟩ : Scanner).scan 0 text).countP (q ·.1) := by
  obtain ⟨terms, mid, others, later, hd, hend, -⟩ := Regex.exists_derives source
  have hscan := hd.scanFrom_eq (.refl _) 0 rfl
  rw [Scanner.scanFrom_of_end hend, List.append_nil] at hscan
  -- the leaves of the tree that are delimiters are those that the scanner reports
  have hleaves : (parse source).root.leaves.filterMap (Node.delimiter? source) =
      (⟨0, false⟩ : Scanner).scan 0 (text ++ more) := by
    have hall : (parse source).root.leaves.filterMap (Node.delimiter? source) =
        Node.delimitersOfAll source _ := congrArg (List.filterMap _) hd.leaves_eq
    rw [hall, Node.ofAlternative, Node.delimitersOfAll_branch (by decide) rfl, ← hscan, ← hsource]
    rfl
  have hbefore := Scanner.filter_scan_append ⟨0, false⟩ 0 text more
  rw [Nat.zero_add] at hbefore
  simp only [← Node.getD_delimiter? hkind hparenthesis hbracket source]
  rw [← hbefore, List.countP_filter, ← hleaves, List.countP_filterMap]

/-- A beginning of a pattern has the chosen delimiters that the pattern has up to there. -/
theorem Tree.countP_leaves_append (before after : String) :
    (parse before).root.leaves.countP
        (fun n => p n.kind && n.span.stop ≤ before.utf8ByteSize) =
      (parse (before ++ after)).root.leaves.countP
        fun n => p n.kind && n.span.stop ≤ before.utf8ByteSize := by
  rw [← byteLength_toList, countP_leaves hkind hparenthesis hbracket String.toList_append,
    countP_leaves hkind hparenthesis hbracket (List.append_nil _).symm]

end Counts

namespace Tree

/-- The opening delimiters up to an offset are as many as the closing ones, the missing ones, and
the groups and classes that the offset cuts. -/
theorem countP_isBeginBy (source : String) (offset : Nat) :
    (parse source).root.leaves.countP (Node.isBeginBy offset) =
      (parse source).root.leaves.countP (Node.isEndBy offset) +
        (parse source).root.preorder.countP (Node.isStandInBy offset) +
          (parse source).root.preorder.countP (Node.isBracketedAt offset) := by
  obtain ⟨terms, mid, others, later, hd, -, -⟩ := Regex.exists_derives source
  obtain ⟨hterms, hothers⟩ := hd.excess_eq offset
  have hroot : Node.excess offset [(parse source).root] = 0 := by
    rw [hd.root_eq, Node.excess_branch rfl, Node.ofDisjunction, Node.excess_branch rfl,
      Node.excess_cons, Node.excess_ofAlternative hterms, hothers]
    rfl
  rw [Node.excess] at hroot
  rw [Node.leaves, Node.preorder, ← Node.leavesOfAll]
  omega

/-- No node of the tree of a pattern that makes sense is invalid. -/
theorem kind_ne_of_mem {source : String} (hvalid : (parse source).hasInvalid = false) {n : Node}
    (hn : n ∈ (parse source).root.preorder) : n.kind ≠ .invalid := by
  intro hkind
  have hempty : (parse source).root.invalids = [] := by simpa [hasInvalid] using hvalid
  exact List.filter_eq_nil_iff.mp hempty n hn (beq_iff_eq.mpr hkind)

/-! ## The tree of a beginning -/

/-- The tree of a pattern that makes sense is resumed (`Node.Resumes`) by the tree of its
beginning. -/
theorem exists_resumes {before after : String}
    (hvalid : (parse (before ++ after)).hasInvalid = false) :
    ∃ e, Node.Resumes before.utf8ByteSize e [(parse (before ++ after)).root]
      [(parse before).root] := by
  obtain ⟨terms, mid, others, later, hd, -, hend⟩ := Regex.exists_derives (before ++ after)
  have hnone : Term.invalidsOfAll terms ++ Branch.invalidsOfAll others = [] := by
    rw [← hd.invalids_eq, diagnostics_parse]
    exact (hasInvalid_parse _).mp hvalid
  have hsource : (Cursor.ofString (before ++ after)).rest = before.toList ++ after.toList :=
    String.toList_append
  obtain ⟨cut, hread, hrest⟩ := Cursor.exists_reads hsource
  have hcut : cut.pos = before.utf8ByteSize := by
    rw [hread.2, byteLength_toList]
    exact Nat.zero_add _
  have halike : Cursor.Alike 0 0 cut.rest [] (.ofString (before ++ after)) (.ofString before) :=
    ⟨rfl, before.toList, hread.1, (List.append_nil _).symm⟩
  have hlater : cut.Reaches later := by
    refine hread.reaches.of_pos_le hd.reaches_later ?_
    rw [hcut, hend, String.utf8ByteSize_append]
    exact Nat.le_add_right _ _
  obtain ⟨e, terms', mid', others', later', hd', -, hresumes⟩ :=
    hd.resumable hnone halike hread.reaches hlater
  rw [hcut] at hresumes
  refine ⟨e, ?_⟩
  rw [hd.root_eq, hd'.root_eq]
  exact (hresumes.ofAlternative hd.isEmpty_of_nil _).ofDisjunction.branch .regex (by decide) _ _

/-- The closing delimiters that a beginning of a pattern lacks are those of the groups and classes
that are cut where it ends. -/
theorem countP_isStandIn {before after : String}
    (hvalid : (parse (before ++ after)).hasInvalid = false) :
    (parse before).root.preorder.countP (·.isStandIn) =
      (parse (before ++ after)).root.preorder.countP
        (Node.isBracketedAt before.utf8ByteSize) := by
  have hbegins : (parse before).root.leaves.countP (Node.isBeginBy before.utf8ByteSize) =
      (parse (before ++ after)).root.leaves.countP (Node.isBeginBy before.utf8ByteSize) :=
    countP_leaves_append (q := Delimiter.isBegin) (fun kind => by cases kind <;> rfl) rfl rfl
      before after
  have hends : (parse before).root.leaves.countP (Node.isEndBy before.utf8ByteSize) =
      (parse (before ++ after)).root.leaves.countP (Node.isEndBy before.utf8ByteSize) :=
    countP_leaves_append (q := Delimiter.isEnd) (fun kind => by cases kind <;> rfl) rfl rfl
      before after
  -- nothing of the beginning stands behind its end, and the whole pattern lacks nothing
  have hstandIns : (parse before).root.preorder.countP (Node.isStandInBy before.utf8ByteSize) =
      (parse before).root.preorder.countP (·.isStandIn) := by
    refine List.countP_congr fun n hn => ?_
    rw [Node.isStandInBy, decide_eq_true (stop_le_of_mem hn), Bool.and_true]
  have hcut : (parse before).root.preorder.countP
      (Node.isBracketedAt before.utf8ByteSize) = 0 := by
    refine List.countP_eq_zero.mpr fun n hn => ?_
    have hle := stop_le_of_mem hn
    simp [Node.isBracketedAt, Span.isCutAt, Nat.not_lt_of_le hle]
  have hnone : (parse (before ++ after)).root.preorder.countP
      (Node.isStandInBy before.utf8ByteSize) = 0 := by
    refine List.countP_eq_zero.mpr fun n hn => ?_
    simp [Node.isStandInBy, Node.isStandIn, kind_ne_of_mem hvalid hn]
  have hbefore := countP_isBeginBy before before.utf8ByteSize
  have hwhole := countP_isBeginBy (before ++ after) before.utf8ByteSize
  omega

/-- While a pattern that makes sense is typed, its finished part is there already: up to where the
unfinished part begins the leaves are those of the whole pattern, and nothing makes no sense. The
closing delimiters that are missing are those of the groups and classes that are cut. -/
theorem parse_prefix (before after : String)
    (hvalid : (parse (before ++ after)).hasInvalid = false) :
    (∀ n ∈ (parse (before ++ after)).root.leaves, n.span.isEmpty = false →
        n.span.stop ≤ (parse (before ++ after)).cutStart before.utf8ByteSize →
        n ∈ (parse before).root.leaves) ∧
      (∀ n ∈ (parse before).root.invalids,
        (parse (before ++ after)).cutStart before.utf8ByteSize ≤ n.span.start) ∧
      (parse before).root.preorder.countP (·.isStandIn) =
        (parse (before ++ after)).root.preorder.countP fun n =>
          n.kind.isBracketed && n.span.isCutAt before.utf8ByteSize := by
  obtain ⟨e, hresumes⟩ := exists_resumes hvalid
  have hstart := cutStart_le hresumes.start
  refine ⟨?_, ?_, countP_isStandIn hvalid⟩
  · intro n hn hwidth hstop
    exact hresumes.keeps n hn hwidth (Nat.le_trans hstop hstart)
  · intro n hn
    exact Nat.le_trans hstart (hresumes.le_invalids n hn)

/-- A range is cut in a class in a group, so the unfinished part begins with the range. -/
theorem parse_prefix_range :
    (parse ("(é|[b-" ++ "d]{2})")).hasInvalid = false ∧
      (∀ n ∈ (parse ("(é|[b-" ++ "d]{2})")).root.leaves, n.span.isEmpty = false →
        n.span.stop ≤ 5 → n ∈ (parse "(é|[b-").root.leaves) ∧
      (∀ n ∈ (parse "(é|[b-").root.invalids, 5 ≤ n.span.start) ∧
      (parse "(é|[b-").root.preorder.countP (·.isStandIn) = 2 := by
  have hvalid : (parse ("(é|[b-" ++ "d]{2})")).hasInvalid = false := by decide +kernel
  have hstart : (parse ("(é|[b-" ++ "d]{2})")).cutStart "(é|[b-".utf8ByteSize = 5 := by
    decide +kernel
  have hcut : ((parse ("(é|[b-" ++ "d]{2})")).root.preorder.countP fun n =>
      n.kind.isBracketed && n.span.isCutAt "(é|[b-".utf8ByteSize) = 2 := by decide +kernel
  obtain ⟨hleaves, hinvalids, hcount⟩ := parse_prefix "(é|[b-" "d]{2})" hvalid
  rw [hstart] at hleaves hinvalids
  exact ⟨hvalid, hleaves, hinvalids, hcount.trans hcut⟩

end Tree

end RegexTree
