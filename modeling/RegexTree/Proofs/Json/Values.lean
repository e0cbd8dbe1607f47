import RegexTree.Proofs.Json.Tokens

/-! # Reading JSON
A value has its tokens, whatever blanks are between them. Reading goes through the tokens with a
stack of the arrays and objects that are open (`readFrom?`). The main statements are that a text is
read as a value exactly if it spells the tokens of the value (`read?_eq_some_iff`), so that no text
is read as two values, and that the indented text of a value is read as this value. -/

namespace RegexTree.Json

/-! ## Tokens of values -/

/-- The first part, and the others each with the separator before it. -/
theorem intercalate_cons_eq {α : Type} (sep : α) (x : List α) (xs : List (List α)) :
    [sep].intercalate (x :: xs) = x ++ xs.flatMap (sep :: ·) := by
  induction xs generalizing x with
  | nil => simp
  | cons y ys ih =>
    rw [List.intercalate_cons_cons, ih, List.flatMap_cons, List.append_assoc,
      List.singleton_append, List.cons_append]

/-- Parts that each have the separator behind them, and the last part. -/
theorem intercalate_concat {α : Type} (sep : α) (x : List α) (xs : List (List α)) :
    [sep].intercalate (xs ++ [x]) = xs.flatMap (· ++ [sep]) ++ x := by
  induction xs with
  | nil => simp
  | cons y ys ih =>
    rw [List.cons_append, List.flatMap_cons, List.append_assoc, List.append_assoc, ← ih]
    cases ys with
    | nil => simp
    | cons z zs => rw [List.cons_append, List.intercalate_cons_cons, List.append_assoc]

mutual

/-- The tokens of a value. -/
def tokens : Json → List Token
  | string text => [.string text]
  | number value => [.number value]
  | array items => .beginArray :: ([.comma].intercalate (tokensOfItems items) ++ [.endArray])
  | object members =>
    .beginObject :: ([.comma].intercalate (tokensOfMembers members) ++ [.endObject])

/-- The tokens of each item of an array. -/
def tokensOfItems : List Json → List (List Token)
  | [] => []
  | item :: items => item.tokens :: tokensOfItems items

/-- The tokens of each member of an object. -/
def tokensOfMembers : List (String × Json) → List (List Token)
  | [] => []
  | (key, value) :: members => (.string key :: .colon :: value.tokens) :: tokensOfMembers members

end

/-- The `tokensOfItems` of two lists are those of the one and those of the other. -/
theorem tokensOfItems_append (items more : List Json) :
    tokensOfItems (items ++ more) = tokensOfItems items ++ tokensOfItems more := by
  induction items with
  | nil => rfl
  | cons item items ih => rw [List.cons_append, tokensOfItems, ih, tokensOfItems, List.cons_append]

/-- The `tokensOfMembers` of two lists are those of the one and those of the other. -/
theorem tokensOfMembers_append (members more : List (String × Json)) :
    tokensOfMembers (members ++ more) = tokensOfMembers members ++ tokensOfMembers more := by
  induction members with
  | nil => rfl
  | cons m members ih =>
    rw [List.cons_append, tokensOfMembers, ih, tokensOfMembers, List.cons_append]

/-! ## Reading tokens -/

/-- An array or an object that is not closed yet. -/
inductive Frame where
  /-- An array with its items so far. -/
  | array (items : List Json)
  /-- An object with its members so far, and the key of the next one. -/
  | object (members : List (String × Json)) (key : String)

/-- Read on inside the frames that are open, the innermost first, behind a value or where one is
expected. -/
def readFrom? : Option Json → List Frame → List Token → Option Json
  | none, frames, .string text :: ts => readFrom? (some (string text)) frames ts
  | none, frames, .number value :: ts => readFrom? (some (number value)) frames ts
  | none, frames, .beginArray :: .endArray :: ts => readFrom? (some (array [])) frames ts
  | none, frames, .beginArray :: ts => readFrom? none (.array [] :: frames) ts
  | none, frames, .beginObject :: .endObject :: ts => readFrom? (some (object [])) frames ts
  | none, frames, .beginObject :: .string key :: .colon :: ts =>
    readFrom? none (.object [] key :: frames) ts
  | some v, .array items :: frames, .comma :: ts =>
    readFrom? none (.array (items ++ [v]) :: frames) ts
  | some v, .array items :: frames, .endArray :: ts =>
    readFrom? (some (array (items ++ [v]))) frames ts
  | some v, .object members key :: frames, .comma :: .string next :: .colon :: ts =>
    readFrom? none (.object (members ++ [(key, v)]) next :: frames) ts
  | some v, .object members key :: frames, .endObject :: ts =>
    readFrom? (some (object (members ++ [(key, v)]))) frames ts
  | some v, [], [] => some v
  | _, _, _ => none

/-- Read a text as one value. -/
def read? (text : String) : Option Json := (tokens? text.toList).bind (readFrom? none [])

/-! ## What is read was spelled -/

/-- The tokens that a frame was read from. -/
def Frame.written : Frame → List Token
  | array items => .beginArray :: (tokensOfItems items).flatMap (· ++ [.comma])
  | object members key =>
    .beginObject :: ((tokensOfMembers members).flatMap (· ++ [.comma]) ++ [.string key, .colon])

/-- The tokens that some frames were read from, the innermost last. -/
def writtenAll (frames : List Frame) : List Token := frames.reverse.flatMap Frame.written

/-- The innermost frame was read from the end of the tokens. -/
theorem writtenAll_cons (f : Frame) (frames : List Frame) :
    writtenAll (f :: frames) = writtenAll frames ++ f.written := by
  simp [writtenAll]

/-- An array that is closed was read from the tokens of its `Frame` and of its last item. -/
theorem tokens_array_concat (items : List Json) (v : Json) :
    (array (items ++ [v])).tokens =
      (Frame.array items).written ++ (v.tokens ++ [.endArray]) := by
  rw [tokens, tokensOfItems_append, tokensOfItems, tokensOfItems, intercalate_concat, Frame.written,
    List.cons_append, List.append_assoc]

/-- A frame with one item more was read from these tokens and a comma. -/
theorem written_array_concat (items : List Json) (v : Json) :
    (Frame.array (items ++ [v])).written =
      (Frame.array items).written ++ (v.tokens ++ [.comma]) := by
  simp [Frame.written, tokensOfItems_append, tokensOfItems]

/-- An object that is closed was read from the tokens of its `Frame` and of its last value. -/
theorem tokens_object_concat (members : List (String × Json)) (key : String) (v : Json) :
    (object (members ++ [(key, v)])).tokens =
      (Frame.object members key).written ++ (v.tokens ++ [.endObject]) := by
  rw [tokens, tokensOfMembers_append, tokensOfMembers, tokensOfMembers, intercalate_concat,
    Frame.written]
  simp

/-- A frame with one member more was read from these tokens, a comma and the next key. -/
theorem written_object_concat (members : List (String × Json)) (key next : String) (v : Json) :
    (Frame.object (members ++ [(key, v)]) next).written =
      (Frame.object members key).written ++ (v.tokens ++ [.comma, .string next, .colon]) := by
  simp [Frame.written, tokensOfMembers_append, tokensOfMembers]

/-- Where `readFrom?` gives a value, its tokens are what has been read and what is left. -/
theorem written_of_readFrom? {state : Option Json} {frames : List Frame} {ts : List Token}
    {v : Json} (h : readFrom? state frames ts = some v) :
    writtenAll frames ++ ((state.map tokens).getD [] ++ ts) = v.tokens := by
  fun_induction readFrom? state frames ts with
  | case1 frames text ts ih => simpa [tokens] using ih h
  | case2 frames value ts ih => simpa [tokens] using ih h
  | case3 frames ts ih => simpa [tokens, tokensOfItems] using ih h
  | case4 frames ts _ ih => simpa [writtenAll_cons, Frame.written, tokensOfItems] using ih h
  | case5 frames ts ih => simpa [tokens, tokensOfMembers] using ih h
  | case6 frames key ts ih => simpa [writtenAll_cons, Frame.written, tokensOfMembers] using ih h
  | case7 u items frames ts ih => simpa [writtenAll_cons, written_array_concat] using ih h
  | case8 u items frames ts ih => simpa [writtenAll_cons, tokens_array_concat] using ih h
  | case9 u members key frames next ts ih =>
    simpa [writtenAll_cons, written_object_concat] using ih h
  | case10 u members key frames ts ih =>
    simpa [writtenAll_cons, tokens_object_concat _ key] using ih h
  | case11 u =>
    cases h
    simp [writtenAll]
  | case12 => cases h

/-! ## What is spelled is read -/

/-- The tokens of a value do not begin with a closing bracket. -/
theorem exists_cons_tokens (v : Json) : ∃ t ts, v.tokens = t :: ts ∧ t ≠ .endArray := by
  cases v with
  | string text => exact ⟨.string text, _, by rw [tokens], nofun⟩
  | number value => exact ⟨.number value, _, by rw [tokens], nofun⟩
  | array items => exact ⟨.beginArray, _, by rw [tokens], nofun⟩
  | object members => exact ⟨.beginObject, _, by rw [tokens], nofun⟩

mutual

/-- The tokens of a value are read by `readFrom?` as the value. -/
theorem readFrom?_tokens (frames : List Frame) (ts : List Token) : (v : Json) →
    readFrom? none frames (v.tokens ++ ts) = readFrom? (some v) frames ts
  | string text => by rw [tokens, List.singleton_append, readFrom?]
  | number value => by rw [tokens, List.singleton_append, readFrom?]
  | array [] => by
    rw [tokens, tokensOfItems, List.intercalate_nil, List.nil_append, List.cons_append,
      List.singleton_append, readFrom?]
  | array (item :: items) => by
    obtain ⟨t, us, hus, ht⟩ := item.exists_cons_tokens
    have hopen : ∀ later, readFrom? none frames (.beginArray :: (item.tokens ++ later)) =
        readFrom? none (.array [] :: frames) (item.tokens ++ later) := by
      intro later
      rw [hus, List.cons_append, readFrom?]
      exact fun _ h => ht (List.cons.inj h).1
    rw [tokens, tokensOfItems, intercalate_cons_eq, List.cons_append, List.append_assoc,
      List.append_assoc, hopen, readFrom?_tokens _ _ item, List.singleton_append,
      readFrom?_items [] item frames ts items, List.nil_append]
  | object [] => by
    rw [tokens, tokensOfMembers, List.intercalate_nil, List.nil_append, List.cons_append,
      List.singleton_append, readFrom?]
  | object ((key, value) :: members) => by
    rw [tokens, tokensOfMembers, intercalate_cons_eq]
    simp only [List.cons_append, List.append_assoc, List.nil_append]
    rw [readFrom?, readFrom?_tokens _ _ value, readFrom?_members [] key value frames ts members,
      List.nil_append]

/-- The tokens of the items behind one are read as these items. -/
theorem readFrom?_items (before : List Json) (v : Json) (frames : List Frame) (ts : List Token) :
    (items : List Json) →
      readFrom? (some v) (.array before :: frames)
          ((tokensOfItems items).flatMap (.comma :: ·) ++ .endArray :: ts) =
        readFrom? (some (array (before ++ v :: items))) frames ts
  | [] => by rw [tokensOfItems, List.flatMap_nil, List.nil_append, readFrom?]
  | item :: items => by
    rw [tokensOfItems, List.flatMap_cons, List.cons_append, List.cons_append, List.append_assoc,
      readFrom?, readFrom?_tokens _ _ item, readFrom?_items _ item frames ts items,
      List.append_assoc, List.singleton_append]

/-- The tokens of the members behind one are read as these members. -/
theorem readFrom?_members (before : List (String × Json)) (key : String) (v : Json)
    (frames : List Frame) (ts : List Token) : (members : List (String × Json)) →
      readFrom? (some v) (.object before key :: frames)
          ((tokensOfMembers members).flatMap (.comma :: ·) ++ .endObject :: ts) =
        readFrom? (some (object (before ++ (key, v) :: members))) frames ts
  | [] => by rw [tokensOfMembers, List.flatMap_nil, List.nil_append, readFrom?]
  | (next, value) :: members => by
    rw [tokensOfMembers, List.flatMap_cons]
    simp only [List.cons_append, List.append_assoc]
    rw [readFrom?, readFrom?_tokens _ _ value,
      readFrom?_members _ next value frames ts members, List.append_assoc, List.singleton_append]

end

/-- The text spells the tokens of the value. -/
def IsText (v : Json) (text : String) : Prop := Spells v.tokens text.toList

/-- A text is read as a value exactly if it spells the tokens of the value (`IsText`). -/
theorem read?_eq_some_iff {text : String} {v : Json} : read? text = some v ↔ v.IsText text := by
  rw [read?, Option.bind_eq_some_iff, IsText, ← tokens?_eq_some_iff]
  constructor
  · rintro ⟨ts, hts, h⟩
    have hwritten := written_of_readFrom? h
    rw [hts, ← hwritten]
    rfl
  · intro h
    refine ⟨v.tokens, h, ?_⟩
    have hread := readFrom?_tokens [] [] v
    rw [List.append_nil, readFrom?] at hread
    exact hread

/-! ## Writing -/

/-- The text spells the tokens in front of whatever tokens follow. -/
def Precedes (ts : List Token) (out : String) : Prop :=
  ∀ us rest, Spells us rest → Spells (ts ++ us) (out.toList ++ rest)

/-- The text spells the tokens in front of whatever tokens follow, if no digit does: its last token
may be a number. -/
def PrecedesEnd (ts : List Token) (out : String) : Prop :=
  ∀ us rest, EndsNumber rest → Spells us rest → Spells (ts ++ us) (out.toList ++ rest)

section

variable {ts us : List Token} {out more : String}

/-- Texts that precede whatever follows do so together. -/
theorem Precedes.append (h : Precedes ts out) (hmore : Precedes us more) :
    Precedes (ts ++ us) (out ++ more) := by
  intro vs rest hrest
  rw [String.toList_append, List.append_assoc, List.append_assoc]
  exact h _ _ (hmore vs rest hrest)

/-- A number may stand at the end of the second text. -/
theorem Precedes.append_end (h : Precedes ts out) (hmore : PrecedesEnd us more) :
    PrecedesEnd (ts ++ us) (out ++ more) := by
  intro vs rest hend hrest
  rw [String.toList_append, List.append_assoc, List.append_assoc]
  exact h _ _ (hmore vs rest hend hrest)

/-- A number ends in front of a text that begins with no digit. -/
theorem PrecedesEnd.append (h : PrecedesEnd ts out) (hmore : Precedes us more)
    (hend : ∃ c later, more.toList = c :: later ∧ c.isDigit = false) :
    Precedes (ts ++ us) (out ++ more) := by
  obtain ⟨c, later, hc, hdigit⟩ := hend
  intro vs rest hrest
  have hends : EndsNumber (more.toList ++ rest) := by
    rw [hc]
    rintro _ ⟨⟩
    exact hdigit
  rw [String.toList_append, List.append_assoc, List.append_assoc]
  exact h _ _ hends (hmore vs rest hrest)

/-- What `Precedes` anything precedes what begins with no digit. -/
theorem Precedes.toEnd (h : Precedes ts out) : PrecedesEnd ts out :=
  fun us rest _ hrest => h us rest hrest

/-- A token of one character, one of the `marks`, is spelled by it. -/
theorem precedes_mark (s : String) (t : Token) (h : ∃ p ∈ marks, s.toList = [p.1] ∧ p.2 = t) :
    Precedes [t] s := by
  obtain ⟨⟨c, t⟩, ht, hs, rfl⟩ := h
  have hnumber : ∀ n, t ≠ .number n := by
    rintro n rfl
    simp [marks] at ht
  intro us rest hrest
  rw [hs]
  exact .token (.mark ht) (fun n hn => absurd hn (hnumber n)) hrest

/-- The colon behind a key has a blank behind it. -/
theorem precedes_colon : Precedes [.colon] ": " := by
  intro us rest hrest
  exact precedes_mark ":" .colon (by decide) us (' ' :: rest) (.blank rfl hrest)

/-- The end of a line and the indentation of the next one. -/
theorem toList_lineBreak (level : Nat) :
    (lineBreak level).toList = '\n' :: List.replicate (2 * level) ' ' := by
  simp [lineBreak]

/-- The end of a line and the indentation of the next one are blanks. -/
theorem precedes_lineBreak (level : Nat) : Precedes [] (lineBreak level) := by
  intro us rest hrest
  have hspaces : ∀ n, Spells us (List.replicate n ' ' ++ rest) := by
    intro n
    induction n with
    | zero => exact hrest
    | succ n ih => exact .blank rfl ih
  rw [toList_lineBreak]
  exact .blank rfl (hspaces (2 * level))

/-- A text between quotes is spelled by its forms. -/
theorem precedes_quoted (text : String) : Precedes [.string text] (quoted text) := by
  obtain ⟨body, hbody, hquoted⟩ := exists_toList_quoted text
  intro us rest hrest
  have hform := Token.Form.string hbody
  rw [String.ofList_toList] at hform
  rw [hquoted]
  exact .token hform nofun hrest

/-- A key is spelled by its text and a colon. -/
theorem Precedes.key (h : Precedes ts out) (key : String) :
    Precedes (ts ++ [.string key] ++ [.colon]) (out ++ quoted key ++ ": ") :=
  (h.append (precedes_quoted key)).append precedes_colon

/-- Behind a value, a comma and the next line are spelled by a comma. -/
theorem PrecedesEnd.comma (h : PrecedesEnd ts out) (level : Nat) :
    Precedes (ts ++ [.comma]) (out ++ "," ++ lineBreak level) := by
  have hcomma := h.append (precedes_mark "," .comma (by decide)) ⟨_, _, rfl, rfl⟩
  have hbreak := hcomma.append (precedes_lineBreak level)
  rwa [List.append_nil] at hbreak

/-- A number is spelled by its digits, if no digit follows (`PrecedesEnd`). -/
theorem precedesEnd_number (n : Nat) : PrecedesEnd [.number n] (toString n) := by
  intro us rest hend hrest
  rw [Nat.toString_eq_repr, Nat.toList_repr]
  exact .token (.number n) (fun _ _ => hend) hrest

end

mutual

/-- A value is written by `write` in its tokens. -/
theorem precedesEnd_write {ts : List Token} {out : String} (level : Nat) (h : Precedes ts out) :
    (v : Json) → PrecedesEnd (ts ++ v.tokens) (v.write level out)
  | string text => by
    rw [tokens, write]
    exact (h.append (precedes_quoted text)).toEnd
  | number value => by
    rw [tokens, write]
    exact h.append_end (precedesEnd_number value)
  | array [] => by
    have hclosed : Precedes [.beginArray, .endArray] "[]" :=
      (precedes_mark "[" .beginArray (by decide)).append (precedes_mark "]" .endArray (by decide))
    rw [tokens, tokensOfItems, write]
    exact (h.append hclosed).toEnd
  | array (item :: items) => by
    have hopen := (h.append (precedes_mark "[" .beginArray (by decide))).append
      (precedes_lineBreak (level + 1))
    have hitems :=
      precedesEnd_writeItems (level + 1) (precedesEnd_write (level + 1) hopen item) items
    have hclosed := (hitems.append (precedes_lineBreak level)
      ⟨_, _, toList_lineBreak level, rfl⟩).append (precedes_mark "]" .endArray (by decide))
    rw [tokens, tokensOfItems, intercalate_cons_eq, write]
    simpa using hclosed.toEnd
  | object [] => by
    have hclosed : Precedes [.beginObject, .endObject] "\x7b\x7d" :=
      (precedes_mark "\x7b" .beginObject (by decide)).append
        (precedes_mark "\x7d" .endObject (by decide))
    rw [tokens, tokensOfMembers, write]
    exact (h.append hclosed).toEnd
  | object ((key, value) :: members) => by
    have hopen := (h.append (precedes_mark "\x7b" .beginObject (by decide))).append
      (precedes_lineBreak (level + 1))
    have hmembers := precedesEnd_writeMembers (level + 1)
      (precedesEnd_write (level + 1) (hopen.key key) value) members
    have hclosed := (hmembers.append (precedes_lineBreak level)
      ⟨_, _, toList_lineBreak level, rfl⟩).append (precedes_mark "\x7d" .endObject (by decide))
    rw [tokens, tokensOfMembers, intercalate_cons_eq, write]
    simpa using hclosed.toEnd

/-- Items are written in their tokens, with a comma before each. -/
theorem precedesEnd_writeItems {ts : List Token} {out : String} (level : Nat)
    (h : PrecedesEnd ts out) : (items : List Json) →
      PrecedesEnd (ts ++ (tokensOfItems items).flatMap (.comma :: ·)) (writeItems level out items)
  | [] => by
    rw [tokensOfItems, List.flatMap_nil, List.append_nil, writeItems]
    exact h
  | item :: items => by
    have hitems := precedesEnd_writeItems level (precedesEnd_write level (h.comma level) item) items
    rw [tokensOfItems, writeItems]
    simpa using hitems

/-- Members are written in their tokens, with a comma before each. -/
theorem precedesEnd_writeMembers {ts : List Token} {out : String} (level : Nat)
    (h : PrecedesEnd ts out) : (members : List (String × Json)) →
      PrecedesEnd (ts ++ (tokensOfMembers members).flatMap (.comma :: ·))
        (writeMembers level out members)
  | [] => by
    rw [tokensOfMembers, List.flatMap_nil, List.append_nil, writeMembers]
    exact h
  | (key, value) :: members => by
    have hkey := (h.comma level).key key
    have hmembers := precedesEnd_writeMembers level (precedesEnd_write level hkey value) members
    rw [tokensOfMembers, writeMembers]
    simpa using hmembers

end

/-- The indented text of a value, with blanks behind it, is a text of the value. -/
theorem isText_pretty (v : Json) {behind : List Char} (h : ∀ c ∈ behind, isBlank c = true) :
    v.IsText (v.pretty ++ String.ofList behind) := by
  have hempty : Precedes [] "" := fun us rest hrest => hrest
  have hbehind : Spells [] behind := by
    induction behind with
    | nil => exact .nil
    | cons c behind ih =>
      obtain ⟨hc, hrest⟩ := List.forall_mem_cons.mp h
      exact .blank hc (ih hrest)
  have hend : EndsNumber behind := fun c hc =>
    not_isDigit_of_isBlank (h c (List.mem_of_mem_head? hc))
  have hspells := precedesEnd_write 0 hempty v [] behind hend hbehind
  rw [List.nil_append, List.append_nil] at hspells
  rw [IsText, String.toList_append, String.toList_ofList]
  exact hspells

end RegexTree.Json
