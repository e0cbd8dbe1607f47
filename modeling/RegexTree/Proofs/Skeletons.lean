import RegexTree.Node.Sexp
import RegexTree.Proofs.Schema.Derivation
import RegexTree.Proofs.Words

/-! # Skeletons
The skeleton of a tree has its kinds and reasons, without spans and without fixed tokens. An
S-expression writes a skeleton down and nothing else. The main statements are that a reader accepts
exactly the texts that are written for skeletons and gives the skeleton back
(`Skeleton.read?_eq_some_iff`), and that parentheses are balanced in all these texts. -/

namespace RegexTree

/-- A tree of kinds and reasons. -/
structure Skeleton where
  /-- What the node is. -/
  kind : NodeKind
  /-- Why it makes no sense, on invalid nodes. -/
  reason : Option Reason
  /-- The skeletons of the nodes that it consists of. -/
  children : List Skeleton

namespace Node

mutual

/-- The skeleton of a tree. -/
def skeleton : Node → Skeleton
  | ⟨kind, _, reason, children⟩ => ⟨kind, reason, skeletons children⟩

/-- The skeletons of some trees. A fixed token is left out, and what it consists of takes its
place. -/
def skeletons : List Node → List Skeleton
  | [] => []
  | ⟨kind, span, reason, children⟩ :: ns =>
    if kind = .punctuation then skeletons children ++ skeletons ns
    else skeleton ⟨kind, span, reason, children⟩ :: skeletons ns

end

end Node

namespace Skeleton

/-! ## Writing -/

/-- The words behind an opening parenthesis. -/
def headText (kind : NodeKind) (reason : Option Reason) : List Char :=
  Text.joinWord kind.name.toList (reason.map (·.tag.toList))

mutual

/-- The text of a skeleton. -/
def write : Skeleton → List Char
  | ⟨kind, reason, children⟩ => '(' :: (headText kind reason ++ writeAll children ++ [')'])

/-- The texts of some skeletons, with a space before each. -/
def writeAll : List Skeleton → List Char
  | [] => []
  | k :: ks => ' ' :: (k.write ++ writeAll ks)

end

/-- The texts of two lists of skeletons (`writeAll`) are those of the one and those of the other. -/
theorem writeAll_append (ks ls : List Skeleton) :
    writeAll (ks ++ ls) = writeAll ks ++ writeAll ls := by
  induction ks with
  | nil => rfl
  | cons k ks ih => simp [writeAll, ih]

/-! ## Reading -/

/-- The kind and the reason that the words behind an opening parenthesis name. -/
def readHead? (head : List Char) : Option (NodeKind × Option Reason) :=
  (NodeKind.ofName? (String.ofList (Text.cutWord head).1)).bind fun kind =>
    match (Text.cutWord head).2 with
    | none => some (kind, none)
    | some tag => (Reason.ofTag? (String.ofList tag)).map fun r => (kind, some r)

/-- What has been read behind an opening parenthesis that is not closed yet. -/
structure Frame where
  /-- The words. -/
  head : List Char
  /-- The trees behind the words. -/
  trees : List Skeleton

/-- The frame of a parenthesis that has just been opened. -/
def Frame.opened : Frame := ⟨[], []⟩

/-- A frame with one tree more. -/
def Frame.add (f : Frame) (k : Skeleton) : Frame := ⟨f.head, f.trees ++ [k]⟩

/-- The tree of a frame whose parenthesis is closed. -/
def Frame.close? (f : Frame) : Option Skeleton :=
  (readHead? f.head).map fun (kind, reason) => ⟨kind, reason, f.trees⟩

/-- Read on inside some open parentheses, the innermost first. -/
def readFrom? : List Frame → List Char → Option Skeleton
  | _, [] => none
  | frames, ' ' :: '(' :: text => readFrom? (.opened :: frames) text
  | [], _ :: _ => none
  | [f], [')'] => f.close?
  | [_], ')' :: _ :: _ => none
  | f :: outer :: frames, ')' :: text =>
    f.close?.bind fun tree => readFrom? (outer.add tree :: frames) text
  -- words stand before all trees
  | ⟨head, []⟩ :: frames, c :: text => readFrom? (⟨head ++ [c], []⟩ :: frames) text
  | ⟨_, _ :: _⟩ :: _, _ :: _ => none

/-- Read a text as one skeleton. -/
def read? (text : String) : Option Skeleton := readFrom? [] (' ' :: text.toList)

/-! ## Reading accepts what is written -/

/-- The words behind an opening parenthesis (`headText`) name their kind and their reason. -/
theorem readHead?_headText (kind : NodeKind) (reason : Option Reason) :
    readHead? (headText kind reason) = some (kind, reason) := by
  have hname : ' ' ∉ kind.name.toList := not_mem_of_isWordChar kind.name_isWord rfl
  rw [readHead?, headText, Text.cutWord_joinWord hname]
  cases reason with
  | none => simp [NodeKind.ofName?_name]
  | some r => simp [NodeKind.ofName?_name, Reason.ofTag?_tag]

/-- A character that neither closes a parenthesis nor leads to one is added to the words. -/
theorem readFrom?_char {head : List Char} {c : Char} {frames : List Frame} {text : List Char}
    (hclose : c ≠ ')') (hopen : c = ' ' → ∀ rest, text ≠ '(' :: rest) :
    readFrom? (⟨head, []⟩ :: frames) (c :: text) =
      readFrom? (⟨head ++ [c], []⟩ :: frames) text := by
  rw [readFrom?]
  · exact fun rest hspace htext => hopen hspace rest htext
  · exact fun _ hc _ => hclose hc
  · exact fun _ _ _ hc _ => hclose hc
  · exact fun _ _ _ hc => hclose hc

/-- A word is read up to its end. -/
theorem readFrom?_word {head word : List Char} {frames : List Frame} {text : List Char}
    (hword : ∀ c ∈ word, isWordChar c = true) :
    readFrom? (⟨head, []⟩ :: frames) (word ++ text) =
      readFrom? (⟨head ++ word, []⟩ :: frames) text := by
  induction word generalizing head with
  | nil => rw [List.nil_append, List.append_nil]
  | cons c word ih =>
    obtain ⟨hc, hrest⟩ := List.forall_mem_cons.mp hword
    rw [List.cons_append, readFrom?_char (ne_of_isWordChar hc rfl)
        (fun hspace => absurd hspace (ne_of_isWordChar hc rfl)), ih hrest, List.append_assoc,
      List.singleton_append]

/-- The words behind an opening parenthesis are read up to their end. -/
theorem readFrom?_headText (kind : NodeKind) (reason : Option Reason) (frames : List Frame)
    (text : List Char) :
    readFrom? (.opened :: frames) (headText kind reason ++ text) =
      readFrom? (⟨headText kind reason, []⟩ :: frames) text := by
  cases reason with
  | none =>
    rw [headText, Option.map_none, Text.joinWord, Option.map_none, Option.getD_none,
      List.append_nil, Frame.opened, readFrom?_word kind.name_isWord, List.nil_append]
  | some r =>
    -- the space before the tag does not lead to a tree
    have hspace : ∀ rest, r.tag.toList ++ text ≠ '(' :: rest := by
      intro rest h
      obtain ⟨c, tag, hcons⟩ := List.exists_cons_of_ne_nil r.tag_ne_nil
      rw [hcons, List.cons_append] at h
      exact ne_of_isWordChar (r.tag_isWord c (hcons ▸ List.mem_cons_self)) rfl (List.cons.inj h).1
    rw [headText, Option.map_some, Text.joinWord, Option.map_some, Option.getD_some, Frame.opened,
      List.append_assoc, readFrom?_word kind.name_isWord, List.cons_append,
      readFrom?_char (by decide) (fun _ => hspace), readFrom?_word r.tag_isWord]
    simp only [List.nil_append, List.append_assoc, List.singleton_append]

/-- The `Frame` of words and trees is closed as the tree of these. -/
theorem close?_headText (kind : NodeKind) (reason : Option Reason) (ks : List Skeleton) :
    (⟨headText kind reason, ks⟩ : Frame).close? = some ⟨kind, reason, ks⟩ := by
  rw [Frame.close?, readHead?_headText]
  rfl

mutual

/-- The text of a skeleton is read as one tree more. -/
theorem readFrom?_write (f : Frame) (frames : List Frame) (text : List Char) : (k : Skeleton) →
    readFrom? (f :: frames) (' ' :: (k.write ++ text)) = readFrom? (f.add k :: frames) text
  | ⟨kind, reason, children⟩ => by
    rw [write]
    simp only [List.cons_append, List.append_assoc, List.nil_append]
    rw [readFrom?, readFrom?_headText, readFrom?_writeAll, List.nil_append, readFrom?,
      close?_headText, Option.bind_some]

/-- The texts of some skeletons are read as so many trees more. -/
theorem readFrom?_writeAll (f : Frame) (frames : List Frame) (text : List Char) :
    (ks : List Skeleton) →
      readFrom? (f :: frames) (writeAll ks ++ text) =
        readFrom? (⟨f.head, f.trees ++ ks⟩ :: frames) text
  | [] => by rw [writeAll, List.nil_append, List.append_nil]
  | k :: ks => by
    rw [writeAll, List.cons_append, List.append_assoc, readFrom?_write, readFrom?_writeAll,
      Frame.add, List.append_assoc, List.singleton_append]

end

/-- The text of a skeleton is read by `read?` as this skeleton. -/
theorem read?_write (k : Skeleton) : read? (String.ofList k.write) = some k := by
  obtain ⟨kind, reason, children⟩ := k
  rw [read?, String.toList_ofList, write, List.append_assoc, readFrom?, readFrom?_headText,
    readFrom?_writeAll, List.nil_append, readFrom?, close?_headText]

/-! ## What is read was written -/

/-- Words that name a kind and a reason are those that are written for them. -/
theorem eq_headText_of_readHead? {head : List Char} {kind : NodeKind} {reason : Option Reason}
    (h : readHead? head = some (kind, reason)) : head = headText kind reason := by
  rw [readHead?] at h
  obtain ⟨k, hk, hreason⟩ := Option.bind_eq_some_iff.mp h
  have hname : (Text.cutWord head).1 = k.name.toList := by
    rw [NodeKind.name_of_ofName? hk, String.toList_ofList]
  have hjoin := Text.joinWord_cutWord head
  cases htag : (Text.cutWord head).2 with
  | none =>
    rw [htag] at hreason hjoin
    cases hreason
    rw [← hjoin, hname, headText, Option.map_none]
  | some tag =>
    rw [htag] at hreason hjoin
    obtain ⟨r, hr, heq⟩ := Option.map_eq_some_iff.mp hreason
    cases heq
    rw [← hjoin, hname, headText, Option.map_some, Reason.tag_of_ofTag? hr, String.toList_ofList]

/-- The text that a frame was read from. -/
def Frame.written (f : Frame) : List Char := ' ' :: '(' :: (f.head ++ writeAll f.trees)

/-- The text that some frames were read from, the innermost last. -/
def writtenAll (frames : List Frame) : List Char := frames.reverse.flatMap Frame.written

/-- The innermost frame was read from the end of the text. -/
theorem writtenAll_cons (f : Frame) (frames : List Frame) :
    writtenAll (f :: frames) = writtenAll frames ++ f.written := by
  simp [writtenAll]

/-- A `Frame` with one tree more was read from a text with the text of this tree behind. -/
theorem Frame.written_add (f : Frame) (k : Skeleton) :
    (f.add k).written = f.written ++ ' ' :: k.write := by
  simp [written, add, writeAll_append, writeAll]

/-- A frame that is closed was read from the text of its tree. -/
theorem Frame.written_of_close? {f : Frame} {k : Skeleton} (h : f.close? = some k) :
    f.written ++ [')'] = ' ' :: k.write := by
  obtain ⟨⟨kind, reason⟩, hhead, rfl⟩ := Option.map_eq_some_iff.mp h
  simp [written, write, eq_headText_of_readHead? hhead]

/-- Where `readFrom?` gives a skeleton, its text is what has been read and what is left. -/
theorem written_of_readFrom? {frames : List Frame} {text : List Char} {k : Skeleton}
    (h : readFrom? frames text = some k) : writtenAll frames ++ text = ' ' :: k.write := by
  fun_induction readFrom? frames text with
  | case1 | case3 | case5 | case8 => cases h
  | case2 frames text ih =>
    have hread := ih h
    rw [writtenAll_cons] at hread
    simpa [Frame.written, Frame.opened, writeAll] using hread
  | case4 f =>
    rw [writtenAll_cons]
    exact Frame.written_of_close? h
  | case6 f outer frames text ih =>
    obtain ⟨tree, htree, hrest⟩ := Option.bind_eq_some_iff.mp h
    have hread := ih tree hrest
    rw [writtenAll_cons, Frame.written_add, ← Frame.written_of_close? htree] at hread
    simpa [writtenAll_cons] using hread
  | case7 head frames c text _ _ _ _ ih =>
    have hread := ih h
    rw [writtenAll_cons] at hread
    simpa [writtenAll_cons, Frame.written, writeAll] using hread

/-- The texts that are read as a skeleton are the one that is written for it. -/
theorem read?_eq_some_iff {text : String} {k : Skeleton} :
    read? text = some k ↔ text = String.ofList k.write := by
  constructor
  · intro h
    have hwritten := written_of_readFrom? h
    rw [← (List.cons.inj hwritten).2, String.ofList_toList]
  · rintro rfl
    exact read?_write k

/-! ## Balanced parentheses -/

/-- The number of parentheses that are open behind a text, given how many are open before it; there
is none if one is closed that is not open. -/
def openBehind? : Nat → List Char → Option Nat
  | depth, [] => some depth
  | depth, '(' :: text => openBehind? (depth + 1) text
  | 0, ')' :: _ => none
  | depth + 1, ')' :: text => openBehind? depth text
  | depth, _ :: text => openBehind? depth text

/-- Every parenthesis of a text is closed behind where it is opened. -/
def IsBalanced (text : List Char) : Prop := openBehind? 0 text = some 0

/-- Behind two texts are open the parentheses that the second leaves open behind the first. -/
theorem openBehind?_append (depth : Nat) (s t : List Char) :
    openBehind? depth (s ++ t) = (openBehind? depth s).bind (openBehind? · t) := by
  fun_induction openBehind? depth s <;> simp_all [openBehind?]

/-- A word opens and closes no parentheses. -/
theorem openBehind?_word (depth : Nat) {word : List Char}
    (hword : ∀ c ∈ word, isWordChar c = true) : openBehind? depth word = some depth := by
  induction word with
  | nil => rfl
  | cons c word ih =>
    obtain ⟨hc, hrest⟩ := List.forall_mem_cons.mp hword
    have hclose : c ≠ ')' := ne_of_isWordChar hc rfl
    rw [openBehind?, ih hrest]
    · exact ne_of_isWordChar hc rfl
    · exact fun _ => hclose
    · exact fun _ _ => hclose

/-- The words behind an opening parenthesis open and close no parentheses. -/
theorem openBehind?_headText (depth : Nat) (kind : NodeKind) (reason : Option Reason) :
    openBehind? depth (headText kind reason) = some depth := by
  rw [headText, Text.joinWord, openBehind?_append, openBehind?_word depth kind.name_isWord,
    Option.bind_some]
  cases reason with
  | none => rfl
  | some r =>
    rw [Option.map_some, Option.map_some, Option.getD_some, openBehind?,
      openBehind?_word depth r.tag_isWord] <;> simp

mutual

/-- The text of a skeleton leaves as many parentheses open as there were before. -/
theorem openBehind?_write (depth : Nat) : (k : Skeleton) →
    openBehind? depth k.write = some depth
  | ⟨kind, reason, children⟩ => by
    rw [write, openBehind?, openBehind?_append, openBehind?_append, openBehind?_headText,
      Option.bind_some, openBehind?_writeAll, Option.bind_some, openBehind?, openBehind?]

/-- The texts of some skeletons leave as many parentheses open as there were before. -/
theorem openBehind?_writeAll (depth : Nat) : (ks : List Skeleton) →
    openBehind? depth (writeAll ks) = some depth
  | [] => rfl
  | k :: ks => by
    rw [writeAll, openBehind?, openBehind?_append, openBehind?_write, Option.bind_some,
      openBehind?_writeAll] <;> simp

end

end Skeleton

/-! ## S-expressions of trees -/

namespace Node

/-- The fixed tokens among some trees consist of nothing. -/
def TokensAreLeaves (ns : List Node) : Prop :=
  ∀ n ∈ preorderOfAll ns, n.kind = .punctuation → n.children = []

/-- This is so of some trees if it is of what the first consists of, and of the others, and the
first is no fixed token that consists of something. -/
theorem tokensAreLeaves_cons {n : Node} {ns : List Node} :
    TokensAreLeaves (n :: ns) ↔
      (n.kind = .punctuation → n.children = []) ∧ TokensAreLeaves n.children ∧
        TokensAreLeaves ns := by
  simp only [TokensAreLeaves, preorderOfAll_cons, List.forall_mem_cons, List.forall_mem_append]

/-- An opening parenthesis and the words behind it are those of the skeleton. -/
theorem sexpHead_eq (kind : NodeKind) (reason : Option Reason) :
    sexpHead kind reason = String.ofList ('(' :: Skeleton.headText kind reason) := by
  cases reason <;>
    simp [sexpHead, Skeleton.headText, Text.joinWord, String.ofList_append, String.ofList_cons,
      String.append_assoc]

mutual

/-- The S-expression of a tree is the text of its `skeleton`. -/
theorem appendSexp_eq_write (out : String) : (n : Node) → TokensAreLeaves n.children →
    appendSexp out n = out ++ String.ofList n.skeleton.write
  | ⟨kind, span, reason, children⟩, h => by
    rw [appendSexp, appendSexps_eq_write _ children h, sexpHead_eq, skeleton, Skeleton.write]
    simp [String.append_assoc, String.ofList_append, String.ofList_cons]

/-- The S-expressions of some trees are the texts of their skeletons. -/
theorem appendSexps_eq_write (out : String) : (ns : List Node) → TokensAreLeaves ns →
    appendSexps out ns = out ++ String.ofList (Skeleton.writeAll (skeletons ns))
  | [], _ => by simp [appendSexps, skeletons, Skeleton.writeAll]
  | ⟨kind, span, reason, children⟩ :: ns, h => by
    obtain ⟨htoken, hchildren, hrest⟩ := tokensAreLeaves_cons.mp h
    rw [appendSexps, appendSexps_eq_write _ ns hrest, skeletons]
    by_cases hkind : kind = .punctuation
    · -- a fixed token consists of nothing that could be written
      obtain rfl : children = [] := htoken hkind
      rw [if_pos hkind, skeletons, List.nil_append, hkind]
      rfl
    · have hnamed : kind.isNamed = true := bne_iff_ne.mpr hkind
      rw [if_pos hnamed, appendSexp_eq_write _ ⟨kind, span, reason, children⟩ hchildren,
        if_neg hkind, Skeleton.writeAll]
      simp [String.append_assoc, String.ofList_append, String.ofList_cons]

end

end Node

namespace Tree

/-- Fixed tokens are leaves in the tree of a pattern (`TokensAreLeaves`). -/
theorem tokensAreLeaves (source : String) :
    Node.TokensAreLeaves (parse source).root.children := by
  have hroot : Node.TokensAreLeaves [(parse source).root] := by
    intro n hn hkind
    -- the schema gives fixed tokens no children
    have hchildren := (conforms_of_mem hn).children
    rw [hkind] at hchildren
    exact List.map_eq_nil_iff.mp hchildren
  exact (Node.tokensAreLeaves_cons.mp hroot).2.1

/-- The S-expression of a pattern's tree is the text of its skeleton. -/
theorem sexp_parse (source : String) :
    (parse source).root.sexp = String.ofList (parse source).root.skeleton.write := by
  rw [Node.sexp, Node.appendSexp_eq_write "" _ (tokensAreLeaves source), String.empty_append]

/-- S-expressions are unambiguous. Those of two patterns are equal exactly if the skeletons of the
trees are; the reader of S-expressions gives the skeleton back; and it accepts no other texts than
those that are written for some skeleton, in all of which the parentheses are balanced. -/
theorem sexp_unambiguous :
    (∀ a b : String, (parse a).root.sexp = (parse b).root.sexp ↔
        (parse a).root.skeleton = (parse b).root.skeleton) ∧
      (∀ source : String,
        Skeleton.read? (parse source).root.sexp = some (parse source).root.skeleton) ∧
      ∀ text k, Skeleton.read? text = some k →
        text = String.ofList k.write ∧ Skeleton.IsBalanced text.toList := by
  have hread : ∀ source : String,
      Skeleton.read? (parse source).root.sexp = some (parse source).root.skeleton := by
    intro source
    rw [sexp_parse, Skeleton.read?_write]
  refine ⟨fun a b => ⟨fun h => ?_, fun h => ?_⟩, hread, fun text k h => ?_⟩
  · exact Option.some.inj ((hread a).symm.trans (h ▸ hread b))
  · rw [sexp_parse, sexp_parse, h]
  · have htext := Skeleton.read?_eq_some_iff.mp h
    refine ⟨htext, ?_⟩
    rw [htext, String.toList_ofList]
    exact Skeleton.openBehind?_write 0 k

/-- A count, which has fixed tokens in it, and a group that is cut off behind a bad escape. -/
theorem sexp_unambiguous_count :
    let text := (parse "a{2,}?(\\q").root.sexp
    Skeleton.read? text = some (parse "a{2,}?(\\q").root.skeleton ∧
      text = String.ofList (parse "a{2,}?(\\q").root.skeleton.write ∧
      Skeleton.IsBalanced text.toList := by
  obtain ⟨-, hread, hwritten⟩ := sexp_unambiguous
  exact ⟨hread "a{2,}?(\\q", hwritten _ _ (hread "a{2,}?(\\q")⟩

/-- Texts with a space too many or a kind that does not exist are not read. -/
example : (Skeleton.read? "(regex  (pattern))").isNone ∧ (Skeleton.read? "(token)").isNone := by
  decide +kernel

end Tree

end RegexTree
