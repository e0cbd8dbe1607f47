/-! # Bytes of texts
Offsets into a text count the bytes of its UTF-8 form. The main statement, `Text.slice_part`, says
that cutting a text at the offsets where a part of it begins and ends gives this part. -/

namespace RegexTree

/-- The number of bytes of a text in UTF-8. -/
def byteLength : List Char → Nat
  | [] => 0
  | x :: text => x.utf8Size + byteLength text

/-- No characters have no bytes. -/
@[simp] theorem byteLength_nil : byteLength [] = 0 := rfl

/-- The bytes of a text are those of its first character and those of the others. -/
@[simp] theorem byteLength_cons (x : Char) (text : List Char) :
    byteLength (x :: text) = x.utf8Size + byteLength text := rfl

/-- The `byteLength` of two texts is the sum of theirs. -/
@[simp] theorem byteLength_append (a b : List Char) :
    byteLength (a ++ b) = byteLength a + byteLength b := by
  induction a with
  | nil => simp
  | cons x a ih => rw [List.cons_append, byteLength_cons, ih, byteLength_cons, Nat.add_assoc]

/-- A text that is not empty has bytes. -/
theorem byteLength_pos {text : List Char} (h : text ≠ []) : 0 < byteLength text := by
  obtain _ | ⟨x, rest⟩ := text
  · exact absurd rfl h
  · have hx := Char.utf8Size_pos x
    rw [byteLength_cons]
    omega

/-! ## Bytes of strings -/

/-- The size of a string in UTF-8 is the `byteLength` of its characters. -/
theorem utf8ByteSize_ofList (text : List Char) :
    (String.ofList text).utf8ByteSize = byteLength text := by
  induction text with
  | nil => rfl
  | cons x text ih =>
    rw [String.ofList_cons, String.utf8ByteSize_append, String.utf8ByteSize_singleton, ih,
      byteLength_cons]

/-- The characters of a string have the bytes of the string. -/
theorem byteLength_toList (source : String) : byteLength source.toList = source.utf8ByteSize := by
  rw [← utf8ByteSize_ofList, String.ofList_toList]

namespace Text

/-- The part of a source from one byte offset to another. -/
def slice (source : String) (start stop : Nat) : String :=
  String.Pos.Raw.extract source ⟨start⟩ ⟨stop⟩

/-! ## Cutting gives the part -/

/-- Offsets that differ are different positions. -/
theorem pos_ne {m n : Nat} (h : m ≠ n) : (⟨m⟩ : String.Pos.Raw) ≠ ⟨n⟩ :=
  fun e => h (congrArg String.Pos.Raw.byteIdx e)

/-- From where a part begins, the second loop of `String.Pos.Raw.extract` takes the part and leaves
what follows. -/
theorem extract_part (part after : List Char) (start : Nat) :
    String.Pos.Raw.extract.go₂ (part ++ after) ⟨start⟩ ⟨start + byteLength part⟩ = part := by
  induction part generalizing start with
  | nil =>
    cases after with
    | nil => rfl
    | cons y after => exact if_pos rfl
  | cons x part ih =>
    have hx := Char.utf8Size_pos x
    have hne : start ≠ start + byteLength (x :: part) := by
      rw [byteLength_cons]
      omega
    refine (if_neg (pos_ne hne)).trans ?_
    rw [byteLength_cons, ← Nat.add_assoc]
    exact congrArg (x :: ·) (ih (start + x.utf8Size))

/-- The first loop of `String.Pos.Raw.extract` skips what precedes the part. -/
theorem extract_after (before part after : List Char) (start : Nat) :
    String.Pos.Raw.extract.go₁ (before ++ (part ++ after)) ⟨start⟩ ⟨start + byteLength before⟩
      ⟨start + byteLength before + byteLength part⟩ =
    String.Pos.Raw.extract.go₂ (part ++ after) ⟨start + byteLength before⟩
      ⟨start + byteLength before + byteLength part⟩ := by
  induction before generalizing start with
  | nil =>
    cases part ++ after with
    | nil => rfl
    | cons y text => exact if_pos rfl
  | cons x before ih =>
    have hx := Char.utf8Size_pos x
    have hne : start ≠ start + byteLength (x :: before) := by
      rw [byteLength_cons]
      omega
    refine (if_neg (pos_ne hne)).trans ?_
    rw [byteLength_cons, ← Nat.add_assoc]
    exact ih (start + x.utf8Size)

/-- Cutting with `slice` where a part of a text begins and ends gives this part. -/
theorem slice_part (before part after : List Char) :
    slice (String.ofList (before ++ (part ++ after))) (byteLength before)
      (byteLength before + byteLength part) = String.ofList part := by
  have hcut := (extract_after before part after 0).trans (extract_part part after _)
  rw [Nat.zero_add] at hcut
  by_cases hp : part = []
  · subst hp
    exact if_pos (Nat.le_refl _)
  · have hpos := byteLength_pos hp
    have hlt : ¬ byteLength before ≥ byteLength before + byteLength part := by omega
    refine (if_neg hlt).trans ?_
    rw [String.toList_ofList]
    exact congrArg String.ofList hcut

end Text

end RegexTree
