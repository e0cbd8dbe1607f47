import RegexTree.Outline
import RegexTree.Proofs.Partition
import RegexTree.Proofs.Quotation
import RegexTree.Proofs.Words

/-! # Reading outlines
An outline is read line by line. The indentation of a line says how deep its node lies, so that the
lines below it that are deeper are what it consists of, and the unquoted texts of the leaves, put
together, are the pattern. The main statement is that reading the outline of a pattern gives back
the pattern and its tree. -/

namespace RegexTree

/-! ## Spans -/

namespace Span

/-- Two numbers with two dots between them, read as a span. -/
def read? (text : List Char) : Option Span :=
  match text.dropWhile Char.isDigit with
  | '.' :: '.' :: stop =>
    some ⟨Nat.ofDigitChars 10 (text.takeWhile Char.isDigit) 0, Nat.ofDigitChars 10 stop 0⟩
  | _ => none

/-- The text of a span (`Span.display`) is the digits of its ends with two dots between them. -/
theorem toList_display (s : Span) :
    s.display.toList = Nat.toDigits 10 s.start ++ '.' :: '.' :: Nat.toDigits 10 s.stop := by
  simp [display, Nat.repr]

/-- The text of a span is read as the span. -/
theorem read?_display (s : Span) : read? s.display.toList = some s := by
  have hdigits : ∀ c ∈ Nat.toDigits 10 s.start, c.isDigit = true := fun c hc =>
    Nat.isDigit_of_mem_toDigits (by decide) (by decide) hc
  have hdot : ∀ y ∈ ('.' :: '.' :: Nat.toDigits 10 s.stop).head?, y.isDigit = false := by
    rintro _ ⟨⟩
    rfl
  obtain ⟨htake, hdrop⟩ := takeWhile_dropWhile_append hdigits hdot
  rw [toList_display, read?, htake, hdrop, Nat.ofDigitChars_ten_toDigits]
  show some (⟨s.start, Nat.ofDigitChars 10 (Nat.toDigits 10 s.stop) 0⟩ : Span) = some s
  rw [Nat.ofDigitChars_ten_toDigits]

/-- The text of a span has only digits and dots. -/
theorem not_mem_display (s : Span) {c : Char} (hdigit : c.isDigit = false) (hdot : c ≠ '.') :
    c ∉ s.display.toList := by
  have hdigits : ∀ n, c ∉ Nat.toDigits 10 n := by
    intro n hmem
    have hc := Nat.isDigit_of_mem_toDigits (by decide) (by decide) hmem
    rw [hdigit] at hc
    cases hc
  simp [toList_display, hdigits, hdot]

end Span

/-! ## Lines -/

/-- Texts without a line end in them, each with one behind it, are split where they end. -/
theorem Text.splitOn_lines {α : Type} (chars : α → List Char) {items : List α}
    (h : ∀ item ∈ items, '\n' ∉ chars item) :
    (items.flatMap fun item => chars item ++ ['\n']).splitOn '\n' = items.map chars ++ [[]] := by
  induction items with
  | nil => rfl
  | cons item items ih =>
    obtain ⟨hitem, hitems⟩ := List.forall_mem_cons.mp h
    rw [List.flatMap_cons, List.append_assoc, List.singleton_append,
      List.splitOn_append_cons_self_of_not_mem hitem, ih hitems]
    rfl

namespace OutlineLine

/-- A quoted text, if there is one. -/
def quotedText (text : Option String) : Option (List Char) := text.map (Text.quoted · |>.toList)

/-- What stands behind the span: the tag of the reason and the quoted text, as far as there are. -/
def notes : Option Reason → Option String → Option (List Char)
  | none, text => quotedText text
  | some r, text => some (Text.joinWord r.tag.toList (quotedText text))

/-- A line without the indentation and without its end. -/
def body (l : OutlineLine) : List Char :=
  Text.joinWord l.kind.name.toList
    (some (Text.joinWord l.span.display.toList (notes l.reason l.text)))

/-- A line without its end. -/
def chars (l : OutlineLine) : List Char := List.replicate (2 * l.level) ' ' ++ l.body

/-- The text of a line has its end behind it. -/
theorem toList_render (l : OutlineLine) : l.render.toList = l.chars ++ ['\n'] := by
  obtain ⟨level, kind, span, reason, text⟩ := l
  cases reason <;> cases text <;>
    simp [render, chars, body, notes, quotedText, Text.joinWord]

/-- A quoted text has no line end. -/
theorem newline_not_mem_quotedText (text : Option String) :
    ∀ chars ∈ quotedText text, '\n' ∉ chars := by
  intro chars hchars
  obtain ⟨t, -, rfl⟩ := Option.map_eq_some_iff.mp hchars
  exact Text.newline_not_mem_quoted t

/-- A line has no other end than the one behind it. -/
theorem newline_not_mem_chars (l : OutlineLine) : '\n' ∉ l.chars := by
  have hspace : '\n' ≠ ' ' := by decide
  have hnotes : ∀ chars ∈ notes l.reason l.text, '\n' ∉ chars := by
    cases l.reason with
    | none => exact newline_not_mem_quotedText l.text
    | some r =>
      rintro _ ⟨⟩
      apply Text.not_mem_joinWord hspace
      · exact not_mem_of_isWordChar r.tag_isWord rfl
      · exact newline_not_mem_quotedText l.text
  have hbody : '\n' ∉ l.body := by
    apply Text.not_mem_joinWord hspace
    · exact not_mem_of_isWordChar l.kind.name_isWord rfl
    · rintro _ ⟨⟩
      apply Text.not_mem_joinWord hspace
      · exact l.span.not_mem_display rfl (by decide)
      · exact hnotes
  simp [chars, hbody]

/-- The text that a quoted text was made of, if there is one. -/
def readText? : Option (List Char) → Option (Option String)
  | none => some none
  | some text => (Text.unquote? (String.ofList text)).map some

/-- The reason and the text that stand behind a span. -/
def readNotes? : Option (List Char) → Option (Option Reason × Option String)
  | some (c :: text) =>
    if c = '"' then (readText? (some (c :: text))).map (none, ·)
    else
      (Reason.ofTag? (String.ofList (Text.cutWord (c :: text)).1)).bind fun r =>
        (readText? (Text.cutWord (c :: text)).2).map (some r, ·)
  | _ => some (none, none)

/-- A line without its end, read as what it says of a node. -/
def read? (line : List Char) : Option OutlineLine :=
  let (name, behindName) := Text.cutWord (line.dropWhile (· == ' '))
  let (span, behindSpan) := Text.cutWord (behindName.getD [])
  (NodeKind.ofName? (String.ofList name)).bind fun kind =>
    (Span.read? span).bind fun span =>
      (readNotes? behindSpan).map fun (reason, text) =>
        ⟨(line.takeWhile (· == ' ')).length / 2, kind, span, reason, text⟩

/-- A quoted text (`quotedText`) is read as the text that was quoted. -/
theorem readText?_quotedText (text : Option String) :
    readText? (quotedText text) = some text := by
  cases text with
  | none => rfl
  | some text =>
    rw [quotedText, Option.map_some, readText?, String.ofList_toList, Text.unquote?_quoted]
    rfl

/-- What stands behind a span (`notes`) is read as the reason and the text that are written
there. -/
theorem readNotes?_notes (reason : Option Reason) (text : Option String) :
    readNotes? (notes reason text) = some (reason, text) := by
  cases reason with
  | none =>
    cases text with
    | none => rfl
    | some text =>
      -- a quoted text begins with a quote
      have hread := readText?_quotedText (some text)
      rw [quotedText, Option.map_some, Text.toList_quoted] at hread
      rw [notes, quotedText, Option.map_some, Text.toList_quoted, readNotes?, if_pos rfl, hread]
      rfl
  | some r =>
    -- a tag does not
    obtain ⟨c, tag, htag⟩ := List.exists_cons_of_ne_nil r.tag_ne_nil
    have hquote : c ≠ '"' := ne_of_isWordChar (r.tag_isWord c (htag ▸ List.mem_cons_self)) rfl
    have hcut := Text.cutWord_joinWord (not_mem_of_isWordChar r.tag_isWord rfl) (quotedText text)
    have hcons : Text.joinWord r.tag.toList (quotedText text) =
        c :: Text.joinWord tag (quotedText text) := by
      rw [htag, Text.joinWord, List.cons_append, ← Text.joinWord]
    rw [notes, hcons, readNotes?, if_neg hquote, ← hcons, hcut, String.ofList_toList,
      Reason.ofTag?_tag, Option.bind_some, readText?_quotedText]
    rfl

/-- The indentation of a line ends where its name begins. -/
theorem span_chars (l : OutlineLine) :
    l.chars.takeWhile (· == ' ') = List.replicate (2 * l.level) ' ' ∧
      l.chars.dropWhile (· == ' ') = l.body := by
  have hspaces : ∀ c ∈ List.replicate (2 * l.level) ' ', (c == ' ') = true := by
    intro c hc
    rw [List.eq_of_mem_replicate hc]
    rfl
  obtain ⟨c, name, hname⟩ := List.exists_cons_of_ne_nil l.kind.name_ne_nil
  have hbody : ∀ y ∈ l.body.head?, (y == ' ') = false := by
    rw [body, Text.joinWord, hname, List.cons_append]
    rintro _ ⟨⟩
    exact beq_false_of_ne (ne_of_isWordChar (l.kind.name_isWord c (hname ▸ List.mem_cons_self)) rfl)
  exact takeWhile_dropWhile_append hspaces hbody

/-- A line is read by `read?` as what it says. -/
theorem read?_chars (l : OutlineLine) : read? l.chars = some l := by
  obtain ⟨hspaces, hbody⟩ := l.span_chars
  have hname := Text.cutWord_joinWord (not_mem_of_isWordChar l.kind.name_isWord rfl)
    (some (Text.joinWord l.span.display.toList (notes l.reason l.text)))
  have hspan := Text.cutWord_joinWord (l.span.not_mem_display rfl (by decide))
    (notes l.reason l.text)
  have hlevel : (List.replicate (2 * l.level) ' ').length / 2 = l.level := by
    rw [List.length_replicate]
    omega
  rw [read?, hspaces, hbody, body, hname]
  simp only [Option.getD_some, hspan, hlevel, String.ofList_toList, NodeKind.ofName?_name,
    Option.bind_some, Span.read?_display, readNotes?_notes, Option.map_some]

end OutlineLine

namespace Tree

/-- The lines of an outline, each of which has an end. -/
def readLines? (text : String) : Option (List OutlineLine) :=
  (text.toList.splitOn '\n').dropLast.mapM OutlineLine.read?

/-- Lines that are written one after the other are split where they end. -/
theorem splitOn_render (lines : List OutlineLine) :
    (lines.flatMap fun l => l.render.toList).splitOn '\n' =
      lines.map OutlineLine.chars ++ [[]] := by
  simp only [OutlineLine.toList_render]
  exact Text.splitOn_lines OutlineLine.chars fun l _ => l.newline_not_mem_chars

/-- Lines that are written one after the other are read by `readLines?` as these lines. -/
theorem readLines?_render (lines : List OutlineLine) :
    readLines? (lines.foldl (fun out line => out ++ line.render) "") = some lines := by
  rw [readLines?, Text.toList_foldl_append, String.toList_empty, List.nil_append, splitOn_render,
    List.dropLast_concat]
  induction lines with
  | nil => rfl
  | cons l lines ih =>
    rw [List.map_cons, List.mapM_cons, OutlineLine.read?_chars, ih]
    rfl

end Tree

/-! ## Trees -/

namespace OutlineLine

/-- The trees that a line makes of those of the lines below it: the first of these, as long as they
are deeper, are what the node of the line consists of. -/
def above (l : OutlineLine) (below : List (Node × Nat)) : List (Node × Nat) :=
  (⟨l.kind, l.span, l.reason, (below.takeWhile (l.level < ·.2)).map Prod.fst⟩, l.level) ::
    below.dropWhile (l.level < ·.2)

/-- Trees that are deeper than a line stop where one follows that is not. -/
theorem above_append (l : OutlineLine) {deeper others : List (Node × Nat)}
    (hdeeper : ∀ p ∈ deeper, l.level < p.2) (hothers : ∀ p ∈ others, p.2 ≤ l.level) :
    l.above (deeper ++ others) =
      (⟨l.kind, l.span, l.reason, deeper.map Prod.fst⟩, l.level) :: others := by
  have hdeeper : ∀ p ∈ deeper, decide (l.level < p.2) = true := fun p hp =>
    decide_eq_true (hdeeper p hp)
  have hothers : ∀ p ∈ others.head?, decide (l.level < p.2) = false := fun p hp =>
    decide_eq_false (Nat.not_lt.mpr (hothers p (List.mem_of_mem_head? hp)))
  obtain ⟨htake, hdrop⟩ := takeWhile_dropWhile_append hdeeper hothers
  rw [above, htake, hdrop]

end OutlineLine

namespace Node

/-- A node is made of what it has. -/
theorem eta (n : Node) : ⟨n.kind, n.span, n.reason, n.children⟩ = n := by
  cases n
  rfl

/-- The children of a node (`childrenBelow`) are one level below it. -/
theorem snd_of_mem_childrenBelow {n : Node} {level : Nat} {p : Node × Nat}
    (hp : p ∈ n.childrenBelow level) : p.2 = level + 1 := by
  obtain ⟨child, -, rfl⟩ := List.mem_map.mp hp
  rfl

/-- Where nothing that is to be visited is deeper than what comes before it, this stays so when the
children of the first node take its place. -/
theorem pairwise_childrenBelow {n : Node} {level : Nat} {pending : List (Node × Nat)}
    (h : ((n, level) :: pending).Pairwise fun p q => q.2 ≤ p.2) :
    (n.childrenBelow level ++ pending).Pairwise fun p q => q.2 ≤ p.2 := by
  obtain ⟨hpending, hrest⟩ := List.pairwise_cons.mp h
  refine List.pairwise_append.mpr ⟨?_, hrest, ?_⟩
  · refine List.pairwise_of_forall_mem_list fun p hp q hq => ?_
    exact Nat.le_of_eq ((snd_of_mem_childrenBelow hq).trans (snd_of_mem_childrenBelow hp).symm)
  · intro p hp q hq
    have hle : q.2 ≤ level := hpending q hq
    rw [snd_of_mem_childrenBelow hp]
    omega

end Node

namespace Tree

/-- The trees of some lines, with their levels. -/
def treesOf (lines : List OutlineLine) : List (Node × Nat) := lines.foldr OutlineLine.above []

/-- The lines of some trees, none of which is deeper than one before it, are read by `treesOf` as
these trees. -/
theorem treesOf_levelsOfAll (t : Tree) (ns : List (Node × Nat))
    (hns : ns.Pairwise fun p q => q.2 ≤ p.2) :
    treesOf ((Node.levelsOfAll ns).map fun (n, level) => t.outlineLine n level) = ns := by
  fun_induction Node.levelsOfAll ns with
  | case1 => rfl
  | case2 n level pending ih =>
    have hbelow := ih (Node.pairwise_childrenBelow hns)
    have hdeeper : ∀ p ∈ n.childrenBelow level, level < p.2 := by
      intro p hp
      rw [Node.snd_of_mem_childrenBelow hp]
      exact Nat.lt_succ_self level
    calc treesOf (t.outlineLine n level ::
          (Node.levelsOfAll (n.childrenBelow level ++ pending)).map
            fun (n, level) => t.outlineLine n level)
        = (t.outlineLine n level).above (n.childrenBelow level ++ pending) := by
          rw [treesOf, List.foldr_cons, ← treesOf, hbelow]
      _ = (⟨n.kind, n.span, n.reason, (n.childrenBelow level).map Prod.fst⟩, level) :: pending :=
          (t.outlineLine n level).above_append hdeeper (List.pairwise_cons.mp hns).1
      _ = (n, level) :: pending := by rw [Node.map_fst_childrenBelow, Node.eta]

/-- The pattern and the tree that an outline describes. -/
def ofOutline? (text : String) : Option Tree :=
  (readLines? text).bind fun lines =>
    match treesOf lines with
    | [(root, 0)] => some ⟨String.join (lines.filterMap (·.text)), root⟩
    | _ => none

/-- The lines of some nodes have the texts of the leaves among them. -/
theorem filterMap_text_outlineLine (t : Tree) (ps : List (Node × Nat)) :
    (ps.map fun (n, level) => t.outlineLine n level).filterMap (·.text) =
      ((ps.map Prod.fst).filter (·.isLeaf)).map t.text := by
  induction ps with
  | nil => rfl
  | cons p ps ih =>
    obtain ⟨n, level⟩ := p
    by_cases hn : n.isLeaf = true
    · have hline : (t.outlineLine n level).text = some (t.text n) := if_pos hn
      rw [List.map_cons, List.filterMap_cons_some hline, ih, List.map_cons,
        List.filter_cons_of_pos hn, List.map_cons]
    · have hline : (t.outlineLine n level).text = none := if_neg hn
      rw [List.map_cons, List.filterMap_cons_none hline, ih, List.map_cons,
        List.filter_cons_of_neg hn]

/-- The texts of the lines of a tree, put together, are those of its leaves. -/
theorem join_outlineLines (t : Tree) :
    String.join (t.outlineLines.filterMap (·.text)) = t.leafText := by
  rw [outlineLines, filterMap_text_outlineLine, Node.levels, Node.map_fst_levelsOfAll, String.join,
    List.foldl_map]
  rfl

/-- The outline of a tree is read by `ofOutline?` as its root and the text of its leaves. -/
theorem ofOutline?_outline (t : Tree) : ofOutline? t.outline = some ⟨t.leafText, t.root⟩ := by
  have htrees : treesOf t.outlineLines = [(t.root, 0)] :=
    treesOf_levelsOfAll t _ (List.pairwise_singleton _ _)
  rw [ofOutline?, outline, readLines?_render, Option.bind_some, htrees, join_outlineLines]
  rfl

/-- The outline loses nothing. From the outline of a pattern its tree, and the pattern itself, can
be read back, so that patterns that have the same outline are equal and have equal trees. -/
theorem outline_lossless :
    (∀ source : String, ofOutline? (parse source).outline = some (parse source)) ∧
      ∀ a b : String, (parse a).outline = (parse b).outline →
        a = b ∧ (parse a).root = (parse b).root := by
  have hread : ∀ source : String, ofOutline? (parse source).outline = some (parse source) := by
    intro source
    rw [ofOutline?_outline, leafText_parse]
    rfl
  refine ⟨hread, fun a b h => ?_⟩
  have htree : parse a = parse b := Option.some.inj ((hread a).symm.trans (h ▸ hread b))
  exact ⟨congrArg Tree.source htree, congrArg Tree.root htree⟩

/-- A class that is not closed, with a quote, a backslash before a line end, and a control character
in it: this text is its outline, and that of no other pattern. -/
theorem outline_lossless_class :
    let pattern := "[\"\\\n\x01"
    let text := "regex 0..5
  disjunction 0..5
    pattern 0..5
      character_class 0..5
        set_begin 0..1 \"[\"
        class_character 1..2 \"\\\"\"
        invalid 2..4 bad-escape \"\\\\\\n\"
        class_character 4..5 \"\\u\x7b1\x7d\"
        invalid 5..5 unterminated-class \"\"
"
    (parse pattern).outline = text ∧ ofOutline? text = some (parse pattern) ∧
      ∀ a : String, (parse a).outline = text → a = pattern := by
  intro pattern text
  obtain ⟨hread, hequal⟩ := outline_lossless
  have htext : (parse pattern).outline = text := by decide +kernel
  exact ⟨htext, htext ▸ hread pattern, fun a h => (hequal a pattern (h.trans htext.symm)).1⟩

end Tree

end RegexTree
