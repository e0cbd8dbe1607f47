import Mathlib.Data.List.Induction
import RegexTree.Proofs.Concatenation.Seam
import RegexTree.Proofs.Spelling.Basic
import RegexTree.Proofs.Totality

/-! # What group names say
A name is written as pieces, each of which is a name character or an escaped number, and its pieces
say the characters of the name. Two escaped numbers in a row can be the halves of a surrogate pair
and say one character between them. The main statement says that the reader of names takes exactly
the texts that are written like this before a closing bracket and finds what their pieces say, so
that every spelling of a name gives that name to a group and to a reference. -/

namespace RegexTree

namespace GroupName

/-! ## Surrogates -/

/-- A half of a surrogate pair. -/
def IsSurrogate (n : Nat) : Prop := isLeadSurrogate n = true ∨ isTrailSurrogate n = true

/-- The first half of the pair for a character from number 0x10000 on. -/
def leadOf (x : Char) : Nat := 0xD800 + (x.toNat - 0x10000) / 0x400

/-- The second half of the pair for a character from number 0x10000 on. -/
def trailOf (x : Char) : Nat := 0xDC00 + (x.toNat - 0x10000) % 0x400

/-- The range of the first halves. -/
theorem isLeadSurrogate_iff {n : Nat} : isLeadSurrogate n = true ↔ 0xD800 ≤ n ∧ n ≤ 0xDBFF := by
  rw [isLeadSurrogate, Bool.and_eq_true, decide_eq_true_eq, decide_eq_true_eq]

/-- The range of the second halves. -/
theorem isTrailSurrogate_iff {n : Nat} : isTrailSurrogate n = true ↔ 0xDC00 ≤ n ∧ n ≤ 0xDFFF := by
  rw [isTrailSurrogate, Bool.and_eq_true, decide_eq_true_eq, decide_eq_true_eq]

/-- The surrogates are a gap in the numbers of characters. -/
theorem isSurrogate_iff {n : Nat} : IsSurrogate n ↔ 0xD800 ≤ n ∧ n ≤ 0xDFFF := by
  rw [IsSurrogate, isLeadSurrogate_iff, isTrailSurrogate_iff]
  omega

/-- No character has the number of a surrogate (`IsSurrogate`). -/
theorem not_isSurrogate_toNat (x : Char) : ¬ IsSurrogate x.toNat := by
  have hvalid : x.toNat < 0xD800 ∨ (0xDFFF < x.toNat ∧ x.toNat < 0x110000) := x.valid
  rw [isSurrogate_iff]
  omega

/-- Every other number up to the last code point is the number of a character. -/
theorem exists_toNat {n : Nat} (hle : n ≤ CodePoint.last) (h : ¬ IsSurrogate n) :
    ∃ x : Char, x.toNat = n := by
  rw [isSurrogate_iff] at h
  have hvalid : n.isValidChar := by
    simp only [Nat.isValidChar]
    simp only [CodePoint.last] at hle
    omega
  exact ⟨Char.ofNatAux n hvalid, rfl⟩

/-- The number of a character is decoded as the character, by `decode`. -/
theorem decode_toNat (x : Char) : decode x.toNat = x := by
  rw [decode, CodePoint.toChar?_toNat, Option.getD_some]

/-- A surrogate by itself is decoded as the replacement character. -/
theorem decode_of_isSurrogate {n : Nat} (h : IsSurrogate n) : decode n = '\ufffd' := by
  rw [isSurrogate_iff] at h
  have hvalid : ¬ n.isValidChar := by
    simp only [Nat.isValidChar]
    omega
  rw [decode, CodePoint.toChar?, dif_neg hvalid, Option.getD_none]

/-- The halves of a character's pair (`leadOf` and `trailOf`) are surrogates, and together they give
its number. -/
theorem combineSurrogates_leadOf {x : Char} (hx : 0x10000 ≤ x.toNat) :
    isLeadSurrogate (leadOf x) = true ∧ isTrailSurrogate (trailOf x) = true ∧
      combineSurrogates (leadOf x) (trailOf x) = x.toNat := by
  have hvalid : x.toNat < 0xD800 ∨ (0xDFFF < x.toNat ∧ x.toNat < 0x110000) := x.valid
  rw [isLeadSurrogate_iff, isTrailSurrogate_iff]
  unfold leadOf trailOf combineSurrogates
  generalize x.toNat = n at hx hvalid ⊢
  omega

/-- Two halves are the pair of one character. -/
theorem exists_pair {lead trail : Nat} (hlead : isLeadSurrogate lead = true)
    (htrail : isTrailSurrogate trail = true) :
    ∃ x : Char, 0x10000 ≤ x.toNat ∧ leadOf x = lead ∧ trailOf x = trail ∧
      combineSurrogates lead trail = x.toNat := by
  obtain ⟨-, -, hle, -⟩ := isValidChar_combineSurrogates hlead htrail
  rw [isLeadSurrogate_iff] at hlead
  rw [isTrailSurrogate_iff] at htrail
  have hrange : 0x10000 ≤ combineSurrogates lead trail := by
    unfold combineSurrogates
    omega
  have hgap : ¬ IsSurrogate (combineSurrogates lead trail) := by
    rw [isSurrogate_iff]
    omega
  obtain ⟨x, hx⟩ := exists_toNat hle hgap
  refine ⟨x, ?_, ?_, ?_, hx.symm⟩
  · rw [hx]
    exact hrange
  · unfold leadOf
    rw [hx]
    unfold combineSurrogates
    omega
  · unfold trailOf
    rw [hx]
    unfold combineSurrogates
    omega

/-! ## Pieces of a name -/

/-- A piece of a name as it is written. -/
inductive Piece where
  /-- A character that stands for itself. -/
  | char (x : Char)
  /-- An escaped number. -/
  | code (n : Nat)
  deriving DecidableEq, Repr

/-- The text is written as these pieces, at the beginning of a name or later. -/
inductive Writes : Bool → List Piece → List Char → Prop where
  /-- No pieces. -/
  | nil {first : Bool} : Writes first [] []
  /-- A character that may stand there. -/
  | char {first : Bool} {x : Char} {es : List Piece} {w : List Char}
      (hx : allows first x = true) (hw : Writes false es w) :
      Writes first (.char x :: es) (x :: w)
  /-- The escape of a code point. -/
  | escape {first : Bool} {p : CodePoint} {es : List Piece} {u w : List Char}
      (hp : CodePoint.Form p u) (hw : Writes false es w) :
      Writes first (.code p.value :: es) ('\\' :: u ++ w)

/-- The pieces say these characters. -/
inductive Says : List Piece → List Char → Prop where
  /-- No pieces say nothing. -/
  | nil : Says [] []
  /-- A character says itself. -/
  | char {x : Char} {es : List Piece} {xs : List Char} (h : Says es xs) :
      Says (.char x :: es) (x :: xs)
  /-- The number of a character says the character. -/
  | scalar {x : Char} {es : List Piece} {xs : List Char} (h : Says es xs) :
      Says (.code x.toNat :: es) (x :: xs)
  /-- The two halves of a pair say one character. -/
  | pair {x : Char} {es : List Piece} {xs : List Char} (hx : 0x10000 ≤ x.toNat)
      (h : Says es xs) : Says (.code (leadOf x) :: .code (trailOf x) :: es) (x :: xs)
  /-- Any other surrogate says the replacement character. -/
  | lone {n : Nat} {es : List Piece} {xs : List Char} (hn : IsSurrogate n)
      (hnext : isLeadSurrogate n = true →
        ∀ m, es.head? = some (.code m) → isTrailSurrogate m = false)
      (h : Says es xs) : Says (.code n :: es) ('\ufffd' :: xs)

/-- Pieces are written in a `GroupName.Form`. -/
theorem Writes.form {first : Bool} {es : List Piece} {w : List Char} (h : Writes first es w) :
    Form first w := by
  induction h with
  | nil => exact .nil
  | char hx hw ih => exact .char hx ih
  | escape hp hw ih => exact .escape hp ih

/-- There is no text without pieces, and there are no pieces without a text. -/
theorem Writes.eq_nil_iff {first : Bool} {es : List Piece} {w : List Char}
    (h : Writes first es w) : w = [] ↔ es = [] := by
  cases h with
  | nil => simp
  | char => simp
  | escape => simp

/-- A number is written as the escape of a `CodePoint` with this value. -/
theorem Writes.of_code {first : Bool} {n : Nat} {es : List Piece} {w : List Char}
    (h : Writes first (.code n :: es) w) :
    ∃ p u v, CodePoint.Form p u ∧ p.value = n ∧ w = '\\' :: u ++ v ∧ Writes false es v := by
  generalize hs : Piece.code n :: es = s at h
  cases h with
  | nil => cases hs
  | char => cases hs
  | @escape _ p es u v hp hv =>
    obtain ⟨hcode, rfl⟩ := List.cons.inj hs
    exact ⟨p, u, v, hp, (Piece.code.inj hcode).symm, rfl, hv⟩

/-- No pieces say nothing, and any others say something. -/
theorem Says.eq_nil_iff {es : List Piece} {xs : List Char} (h : Says es xs) :
    xs = [] ↔ es = [] := by
  cases h with
  | nil => simp
  | _ => simp

/-! ## Readers of escapes -/

variable {first : Bool} {es : List Piece} {w xs : List Char} {c middle later : Cursor}

/-- Behind an escape the second half of a pair is found exactly where the next piece is one. -/
theorem readTrail?_of_writes (hw : Writes false es w) (hread : middle.Reads w later)
    (hclose : later.rest.head? = some '>') :
    readTrail? middle = none ↔ ∀ m, es.head? = some (.code m) → isTrailSurrogate m = false := by
  cases hw with
  | nil =>
    obtain rfl := (Cursor.Reads.refl middle).unique hread
    have hcode : readCode? middle = none := readCode?_eq_none (by rw [hclose]; decide)
    simp [readTrail?, hcode]
  | char hx hw =>
    have hcode : readCode? middle = none := by
      refine readCode?_eq_none ?_
      rw [hread.1]
      simpa using ne_backslash_of_allows hx
    simp [readTrail?, hcode]
  | escape hp hw =>
    obtain ⟨after, hread, -⟩ := Cursor.reads_append_iff.mp hread
    simp [readTrail?, readCode?_of_form hp hread]

/-- The second half of a pair is written as an escape with its value. -/
theorem reads_of_readTrail? {n : Nat} (h : readTrail? middle = some (n, later)) :
    ∃ q v, CodePoint.Form q v ∧ middle.Reads ('\\' :: v) later ∧ q.value = n ∧
      isTrailSurrogate n = true := by
  simp only [readTrail?, Option.bind_eq_bind, Option.bind_eq_some_iff, Prod.exists] at h
  obtain ⟨m, after, hcode, h⟩ := h
  obtain ⟨q, v, hq, hread, hvalue⟩ := reads_of_readCode? hcode
  split_ifs at h with htrail
  cases h
  exact ⟨q, v, hq, hread, hvalue, htrail⟩

/-- The second half of a pair is found where its escape stands. -/
theorem readTrail?_of_readCode? {n : Nat} (hcode : readCode? middle = some (n, later))
    (hn : isTrailSurrogate n = true) : readTrail? middle = some (n, later) := by
  simp [readTrail?, hcode, hn]

/-- The first half of a pair is read together with the second, by `readEscaped?`. -/
theorem readEscaped?_of_pair {lead trail : Nat} (hcode : readCode? c = some (lead, middle))
    (hlead : isLeadSurrogate lead = true) (htrail : readTrail? middle = some (trail, later)) :
    readEscaped? c = some (decode (combineSurrogates lead trail), later) := by
  simp [readEscaped?, hcode, hlead, htrail]

/-- A number is read by itself unless it is the first half of a pair. -/
theorem readEscaped?_of_lone {n : Nat} (hcode : readCode? c = some (n, middle))
    (hnext : isLeadSurrogate n = true → readTrail? middle = none) :
    readEscaped? c = some (decode n, middle) := by
  cases hlead : isLeadSurrogate n with
  | true => simp [readEscaped?, hcode, hlead, hnext hlead]
  | false => simp [readEscaped?, hcode, hlead]

/-! ## The reader finds what is said -/

/-- An escaped character that is read before the rest of a name is said by one `Piece` or two. -/
theorem writes_of_readEscaped? {x : Char} (h : readEscaped? c = some (x, middle))
    (hw : Writes false es w) (hsaid : Says es xs) (hread : middle.Reads w later)
    (hclose : later.rest.head? = some '>') :
    ∃ es' w', Writes first es' w' ∧ Says es' (x :: xs) ∧ c.Reads w' later := by
  obtain ⟨⟨n, after⟩, hcode, -⟩ := Option.bind_eq_some_iff.mp h
  obtain ⟨p, u, hp, hreadFirst, rfl⟩ := reads_of_readCode? hcode
  by_cases hpair : isLeadSurrogate p.value = true ∧ (readTrail? after).isSome = true
  · obtain ⟨hlead, hsome⟩ := hpair
    obtain ⟨⟨trail, stop⟩, htrail⟩ := Option.isSome_iff_exists.mp hsome
    rw [readEscaped?_of_pair hcode hlead htrail] at h
    obtain ⟨hvalue, rfl⟩ := Prod.mk.inj (Option.some.inj h)
    obtain ⟨q, v, hq, hreadSecond, rfl, hisTrail⟩ := reads_of_readTrail? htrail
    obtain ⟨y, hy, hl, ht, hcombine⟩ := exists_pair hlead hisTrail
    rw [hcombine, decode_toNat] at hvalue
    subst hvalue
    refine ⟨_, _, .escape hp (.escape hq hw), ?_, hreadFirst.trans (hreadSecond.trans hread)⟩
    rw [← hl, ← ht]
    exact .pair hy hsaid
  · have hnone : isLeadSurrogate p.value = true → readTrail? after = none := fun hlead =>
      Option.not_isSome_iff_eq_none.mp fun hsome => hpair ⟨hlead, hsome⟩
    rw [readEscaped?_of_lone hcode hnone] at h
    obtain ⟨rfl, rfl⟩ := Prod.mk.inj (Option.some.inj h)
    refine ⟨_, _, .escape hp hw, ?_, hreadFirst.trans hread⟩
    by_cases hsurrogate : IsSurrogate p.value
    · rw [decode_of_isSurrogate hsurrogate]
      refine .lone hsurrogate (fun hlead => ?_) hsaid
      exact (readTrail?_of_writes hw hread hclose).mp (hnone hlead)
    · obtain ⟨x, hx⟩ := exists_toNat hp.value_le hsurrogate
      rw [← hx, decode_toNat]
      exact .scalar hsaid

/-- The characters of `readElements?` are said by the pieces that stand there. -/
theorem writes_of_readElements? (h : readElements? first c = some (xs, later)) :
    ∃ es w, Writes first es w ∧ Says es xs ∧ c.Reads w later := by
  have hclose := head_of_readElements? h
  fun_induction readElements? first c generalizing xs with
  | case1 first c hhead =>
    cases h
    exact ⟨[], [], .nil, .nil, .refl _⟩
  | case2 => cases h
  | case3 first c hhead x next hx ih =>
    obtain ⟨⟨ys, stop⟩, hys, heq⟩ := Option.map_eq_some_iff.mp h
    cases heq
    obtain ⟨es, w, hw, hsaid, hread⟩ := ih hys
    unfold readElement? at hx
    split at hx
    · cases hx
    · rename_i y t hrest
      split_ifs at hx with hbackslash hallowed
      · exact writes_of_readEscaped? hx hw hsaid hread hclose
      · cases hx
        exact ⟨_, _, .char hallowed hw, .char hsaid, (Cursor.reads_next hrest).trans hread⟩

/-- The number of a character is read as the character. -/
theorem readEscaped?_of_scalar {x : Char} (hcode : readCode? c = some (x.toNat, middle)) :
    readEscaped? c = some (x, middle) := by
  have hlone := readEscaped?_of_lone hcode fun hlead =>
    absurd (.inl hlead) (not_isSurrogate_toNat x)
  rwa [decode_toNat] at hlone

/-- The two halves of a character's pair are read as the character. -/
theorem readEscaped?_of_halves {x : Char} (hx : 0x10000 ≤ x.toNat)
    (hlead : readCode? c = some (leadOf x, middle))
    (htrail : readCode? middle = some (trailOf x, later)) :
    readEscaped? c = some (x, later) := by
  obtain ⟨hisLead, hisTrail, hcombine⟩ := combineSurrogates_leadOf hx
  rw [readEscaped?_of_pair hlead hisLead (readTrail?_of_readCode? htrail hisTrail), hcombine,
    decode_toNat]

/-- An element that begins with a backslash begins the name. -/
theorem readElements?_of_escaped {x : Char} {t : List Char} (hrest : c.rest = '\\' :: t)
    (hx : readEscaped? c = some (x, middle))
    (hxs : readElements? false middle = some (xs, later)) :
    readElements? first c = some (x :: xs, later) := by
  have hne : c.rest.head? ≠ some '>' := by
    rw [hrest]
    simp
  rw [readElements?_of_element hne ((readElement?_of_backslash hrest).trans hx), hxs]
  rfl

/-- What the pieces of a text say is read up to the closing bracket. -/
theorem readElements?_of_writes (hsaid : Says es xs) (hw : Writes first es w)
    (hread : c.Reads w later) (hclose : later.rest.head? = some '>') :
    readElements? first c = some (xs, later) := by
  induction hsaid generalizing first w c with
  | nil =>
    cases hw
    obtain rfl := hread.unique (.refl c)
    rw [readElements?, if_pos hclose]
  | char hsaid ih =>
    cases hw with
    | char hx hw =>
      obtain ⟨next, hfirst, hread⟩ := Cursor.reads_cons_iff.mp hread
      obtain rfl := hfirst.eq_next
      have hne : c.rest.head? ≠ some '>' := by
        rw [hfirst.1]
        simpa using ne_close_of_allows hx
      rw [readElements?_of_element hne (readElement?_of_allows hfirst.1 hx), ih hw hread]
      rfl
  | scalar hsaid ih =>
    obtain ⟨p, u, v, hp, hvalue, rfl, hv⟩ := hw.of_code
    obtain ⟨next, hfirst, hread⟩ := Cursor.reads_append_iff.mp hread
    have hcode := hvalue ▸ readCode?_of_form hp hfirst
    exact readElements?_of_escaped hfirst.1 (readEscaped?_of_scalar hcode) (ih hv hread)
  | pair hx hsaid ih =>
    obtain ⟨p, u, v, hp, hlead, rfl, hv⟩ := hw.of_code
    obtain ⟨q, u', v', hq, htrail, rfl, hv'⟩ := hv.of_code
    obtain ⟨next, hfirst, hread⟩ := Cursor.reads_append_iff.mp hread
    obtain ⟨stop, hsecond, hread⟩ := Cursor.reads_append_iff.mp hread
    have hcodeLead := hlead ▸ readCode?_of_form hp hfirst
    have hcodeTrail := htrail ▸ readCode?_of_form hq hsecond
    exact readElements?_of_escaped hfirst.1 (readEscaped?_of_halves hx hcodeLead hcodeTrail)
      (ih hv' hread)
  | lone hn hnext hsaid ih =>
    obtain ⟨p, u, v, hp, hvalue, rfl, hv⟩ := hw.of_code
    obtain ⟨next, hfirst, hread⟩ := Cursor.reads_append_iff.mp hread
    have hlone := readEscaped?_of_lone (hvalue ▸ readCode?_of_form hp hfirst) fun hlead =>
      (readTrail?_of_writes hv hread hclose).mpr (hnext hlead)
    rw [decode_of_isSurrogate hn] at hlone
    exact readElements?_of_escaped hfirst.1 hlone (ih hv hread)

/-- A name is read exactly where pieces that say it are written before a closing bracket. -/
theorem read?_eq_some_iff {name : GroupName} :
    read? c = some (name, later) ↔
      ∃ es w, es ≠ [] ∧ Writes true es w ∧ Says es name.name.toList ∧ c.Reads w later ∧
        later.rest.head? = some '>' ∧ name.span = c.spanTo later := by
  constructor
  · intro h
    simp only [read?, Option.bind_eq_bind, Option.bind_eq_some_iff, Prod.exists] at h
    obtain ⟨chars, stop, hchars, h⟩ := h
    split_ifs at h with hempty
    cases h
    obtain ⟨es, w, hw, hsaid, hread⟩ := writes_of_readElements? hchars
    refine ⟨es, w, mt hsaid.eq_nil_iff.mpr hempty, hw, ?_, hread, head_of_readElements? hchars, rfl⟩
    rwa [String.toList_ofList]
  · rintro ⟨es, w, hne, hw, hsaid, hread, hclose, hspan⟩
    have hname : (⟨String.ofList name.name.toList, c.spanTo later⟩ : GroupName) = name := by
      rw [String.ofList_toList, ← hspan]
    simp only [read?, readElements?_of_writes hsaid hw hread hclose, Option.bind_eq_bind,
      Option.bind_some, if_neg (mt hsaid.eq_nil_iff.mp hne), hname]

/-- A name is read exactly where pieces are written (`Writes`) before a closing bracket. -/
theorem isSome_read?_iff :
    (read? c).isSome = true ↔
      ∃ es w t, es ≠ [] ∧ Writes true es w ∧ c.rest = w ++ '>' :: t := by
  rw [Option.isSome_iff_exists]
  constructor
  · rintro ⟨⟨name, later⟩, h⟩
    obtain ⟨es, w, hne, hw, -, hread, hclose, -⟩ := read?_eq_some_iff.mp h
    obtain ⟨t, ht⟩ := List.head?_eq_some_iff.mp hclose
    exact ⟨es, w, t, hne, hw, ht ▸ hread.1⟩
  · rintro ⟨es, w, t, hne, hw, hrest⟩
    obtain ⟨later, hread, hlater⟩ := Cursor.exists_reads hrest
    have hclose : later.rest.head? = some '>' := by rw [hlater]; rfl
    obtain ⟨name, hname⟩ := read?_of_form (mt hw.eq_nil_iff.mp hne) hw.form hread hclose
    exact ⟨_, hname⟩

/-! ## Spellings of names -/

/-- The text spells the characters, at the beginning of a name or later. -/
inductive Spells : Bool → List Char → List Char → Prop where
  /-- No characters. -/
  | nil {first : Bool} : Spells first [] []
  /-- A character that may stand there, as itself. -/
  | char {first : Bool} {x : Char} {xs w : List Char} (hx : allows first x = true)
      (h : Spells false xs w) : Spells first (x :: xs) (x :: w)
  /-- The escape of the character's number. -/
  | escape {first : Bool} {x : Char} {p : CodePoint} {xs u w : List Char}
      (hp : CodePoint.Form p u) (hx : p.value = x.toNat) (h : Spells false xs w) :
      Spells first (x :: xs) ('\\' :: u ++ w)
  /-- The escapes of the two halves of the character's pair. -/
  | pair {first : Bool} {x : Char} {p q : CodePoint} {xs u v w : List Char}
      (hx : 0x10000 ≤ x.toNat) (hp : CodePoint.Form p u) (hlead : p.value = leadOf x)
      (hq : CodePoint.Form q v) (htrail : q.value = trailOf x) (h : Spells false xs w) :
      Spells first (x :: xs) ('\\' :: u ++ ('\\' :: v ++ w))

/-- A spelling is written as pieces that say the characters (`Says`). -/
theorem Spells.exists_writes (h : Spells first xs w) : ∃ es, Writes first es w ∧ Says es xs := by
  induction h with
  | nil => exact ⟨[], .nil, .nil⟩
  | char hx h ih =>
    obtain ⟨es, hw, hsaid⟩ := ih
    exact ⟨_, .char hx hw, .char hsaid⟩
  | escape hp hx h ih =>
    obtain ⟨es, hw, hsaid⟩ := ih
    refine ⟨_, .escape hp hw, ?_⟩
    rw [hx]
    exact .scalar hsaid
  | pair hx hp hlead hq htrail h ih =>
    obtain ⟨es, hw, hsaid⟩ := ih
    refine ⟨_, .escape hp (.escape hq hw), ?_⟩
    rw [hlead, htrail]
    exact .pair hx hsaid

/-- All characters have a spelling (`Spells`): braces hold every number. -/
theorem exists_spells (xs : List Char) : ∃ w, Spells first xs w := by
  induction xs generalizing first with
  | nil => exact ⟨[], .nil⟩
  | cons x xs ih =>
    obtain ⟨w, hw⟩ : ∃ w, Spells false xs w := ih
    obtain ⟨hdigits, hvalue⟩ := Numeral.hexadecimal_toDigits x.toNat
    have hle := Nat.le_trans (Nat.le_of_eq hvalue) (Spelling.toNat_le_last x)
    exact ⟨_, .escape (.braced Nat.toDigits_ne_nil hdigits hle) hvalue hw⟩

variable {name : String}

/-- A spelling of a name before a closing bracket is read as the name. -/
theorem Spells.read?_eq {text r : List Char} (hname : name ≠ "")
    (h : Spells true name.toList text) (pos : Nat) :
    read? ⟨pos, text ++ '>' :: r⟩ =
      some (⟨name, ⟨pos, pos + byteLength text⟩⟩, ⟨pos + byteLength text, '>' :: r⟩) := by
  obtain ⟨es, hw, hsaid⟩ := h.exists_writes
  have hne : es ≠ [] := fun hes => hname (String.toList_eq_nil_iff.mp (hsaid.eq_nil_iff.mpr hes))
  exact read?_eq_some_iff.mpr ⟨es, text, hne, hw, hsaid, ⟨rfl, rfl⟩, rfl, rfl⟩

/-- A spelling of a name is a text in a form of names and not empty. -/
theorem Spells.form {text : List Char} (hname : name ≠ "") (h : Spells true name.toList text) :
    text ≠ [] ∧ Form true text := by
  obtain ⟨es, hw, hsaid⟩ := h.exists_writes
  refine ⟨fun htext => hname ?_, hw.form⟩
  rw [hw.eq_nil_iff, ← hsaid.eq_nil_iff] at htext
  exact String.toList_eq_nil_iff.mp htext

end GroupName

/-! ## The readers at a name -/

variable {c inside stop : Cursor} {name : GroupName}

/-- A `Backreference` by a name is read with the name and its closing bracket. -/
theorem Atom.read_of_name (hopen : c.Reads ['\\', 'k', '<'] inside)
    (hname : GroupName.read? inside = some (name, stop)) :
    Atom.read '\\' c = (.backreference (.named (c.spanTo stop.next) name), stop.next) := by
  obtain ⟨body, hletter, hbracket⟩ :=
    (Cursor.reads_append_iff (s := ['\\', 'k']) (t := ['<'])).mp hopen
  obtain rfl := hbracket.eq_next
  have hreference : Backreference.readNamed c body =
      (.ok (.named (c.spanTo stop.next) name), stop.next) := by
    simp only [Backreference.readNamed, Cursor.accept?_of_head hbracket.1, hname]
  rw [read_eq_readNamed hletter, hreference]
  rfl

/-- A `GroupOpening` with a name is read with the name and its closing bracket. -/
theorem GroupOpening.read_of_name (hopen : c.next.Reads ['?', '<'] inside)
    (hname : GroupName.read? inside = some (name, stop)) :
    GroupOpening.read c =
      (⟨c.spanTo c.next, .named (c.next.spanTo stop.next) name⟩, stop.next) := by
  obtain ⟨w, hne, hw, hread, -, -⟩ := GroupName.form_of_read? hname
  have hidentifier : c.next.rest = '?' :: '<' :: (w ++ stop.rest) := by rw [hopen.1, hread.1]; rfl
  have hplain : GroupKind.readPlain? c.next = none :=
    GroupKind.readPlain?_of_name hne hw hidentifier
  have hmark : c.next.rest.head? = some '?' := by rw [hidentifier]; rfl
  rw [read_of_mark hmark, GroupKind.readIdentifier_eq_readNamed hopen hplain]
  simp only [GroupKind.readNamed, hname]

/-! ## Patterns with a name -/

namespace Regex

/-- A reference by a name whose spelling has a number of bytes, and nothing else. -/
def namedReference (name : String) (size : Nat) : Disjunction :=
  let stop := 3 + size + 1
  ⟨⟨⟨0, stop⟩, [⟨.atom (.backreference (.named ⟨0, stop⟩ ⟨name, ⟨3, 3 + size⟩⟩)), none⟩]⟩, []⟩

/-- An empty group with a name whose spelling has a number of bytes, and nothing else. -/
def namedGroup (name : String) (size : Nat) : Disjunction :=
  let inside := 3 + size + 1
  ⟨⟨⟨0, inside + 1⟩,
    [⟨.group ⟨⟨0, inside + 1⟩, ⟨⟨0, 1⟩, .named ⟨1, inside⟩ ⟨name, ⟨3, 3 + size⟩⟩⟩,
      ⟨⟨⟨inside, inside⟩, []⟩, []⟩, some ⟨inside, inside + 1⟩⟩, none⟩]⟩, []⟩

variable {name text : String}

/-- Every spelling of a name gives the name to a reference (`namedReference`). -/
theorem parse_namedReference (hname : name ≠ "")
    (h : GroupName.Spells true name.toList text.toList) :
    (parse ("\\k<" ++ text ++ ">")).body = namedReference name text.utf8ByteSize := by
  have hwhole : Cursor.ofString ("\\k<" ++ text ++ ">") =
      ⟨0, '\\' :: 'k' :: '<' :: (text.toList ++ ['>'])⟩ := by
    simp [Cursor.ofString, String.toList_append]
  have hopen : Cursor.Reads ⟨0, '\\' :: 'k' :: '<' :: (text.toList ++ ['>'])⟩ ['\\', 'k', '<']
      ⟨3, text.toList ++ ['>']⟩ := ⟨rfl, rfl⟩
  have hatom := Atom.read_of_name hopen (h.read?_eq hname 3)
  have hlexeme := Lexeme.readAt_atom rfl (by decide) hatom NoQuantifier.nil.follows
  rw [← hwhole] at hlexeme
  rw [(Derives.term hlexeme rfl (.stop (.inl rfl))).body_eq, hwhole, byteLength_toList]
  rfl

/-- Every spelling of a name gives the name to a group (`namedGroup`). -/
theorem parse_namedGroup (hname : name ≠ "")
    (h : GroupName.Spells true name.toList text.toList) :
    (parse ("(?<" ++ text ++ ">)")).body = namedGroup name text.utf8ByteSize := by
  let inside := 3 + text.utf8ByteSize + 1
  have hwhole : Cursor.ofString ("(?<" ++ text ++ ">)") =
      ⟨0, '(' :: '?' :: '<' :: (text.toList ++ ['>', ')'])⟩ := by
    simp [Cursor.ofString, String.toList_append]
  have hopen : (Cursor.next ⟨0, '(' :: '?' :: '<' :: (text.toList ++ ['>', ')'])⟩).Reads ['?', '<']
      ⟨3, text.toList ++ ['>', ')']⟩ := ⟨rfl, rfl⟩
  have hopening := GroupOpening.read_of_name hopen (h.read?_eq hname 3)
  rw [byteLength_toList] at hopening
  have hrest : (Cursor.mk 0 ('(' :: '?' :: '<' :: (text.toList ++ ['>', ')']))).rest = _ := rfl
  have ho := GroupOpening.takes_read hrest
  have hlexeme := Lexeme.read_open hrest
  rw [hopening] at ho hlexeme
  have hclose : Closes ⟨inside, [')']⟩ _ _ ⟨inside + 1, []⟩ none :=
    .of_follows ⟨rfl, rfl⟩ NoQuantifier.nil.follows
  have hd : Derives false true _ _ _ _ _ :=
    .group ho ⟨_, _, rfl, hlexeme⟩ (.stop (.inr ⟨rfl, rfl⟩)) hclose (.stop (.inl rfl))
  rw [← hwhole] at hd
  rw [hd.body_eq, hwhole]
  rfl

end Regex

namespace GroupName

/-- Where there is no name, both readers of names skip from where the name would have begun. -/
theorem skips_of_read?_eq_none {c : Cursor} (h : read? c = none) (d : Cursor) :
    GroupKind.readNamed d c =
        (.malformed ⟨d.spanTo (recover c), .badGroupName⟩, recover c) ∧
      ∀ body, body.accept? '<' = some c →
        Backreference.readNamed d body =
          (.error ⟨d.spanTo (recover c), .badBackreference⟩, recover c) := by
  refine ⟨by simp only [GroupKind.readNamed, h], fun body hbody => ?_⟩
  simp only [Backreference.readNamed, hbody, h]

/-- A name is read exactly where pieces are written before a closing bracket, and it is what the
pieces say; elsewhere nothing is taken. So every name has spellings, and each of them gives the name
to a group and to a reference. -/
theorem read?_exact :
    (∀ c : Cursor,
      ((read? c).isSome = true ↔
        ∃ es w t, es ≠ [] ∧ Writes true es w ∧ c.rest = w ++ '>' :: t) ∧
      (∀ name later, read? c = some (name, later) ↔
        ∃ es w, es ≠ [] ∧ Writes true es w ∧ Says es name.name.toList ∧ c.Reads w later ∧
          later.rest.head? = some '>' ∧ name.span = c.spanTo later) ∧
      (read? c = none → ∀ d,
        GroupKind.readNamed d c =
            (.malformed ⟨d.spanTo (recover c), .badGroupName⟩, recover c) ∧
          ∀ body, body.accept? '<' = some c →
            Backreference.readNamed d body =
              (.error ⟨d.spanTo (recover c), .badBackreference⟩, recover c))) ∧
    ∀ name : String, name ≠ "" →
      (∃ text : String, Spells true name.toList text.toList) ∧
      ∀ text : String, Spells true name.toList text.toList →
        (Regex.parse ("(?<" ++ text ++ ">)")).body = Regex.namedGroup name text.utf8ByteSize ∧
        (Regex.parse ("\\k<" ++ text ++ ">")).body =
          Regex.namedReference name text.utf8ByteSize := by
  constructor
  · intro c
    exact ⟨isSome_read?_iff, fun name later => read?_eq_some_iff, skips_of_read?_eq_none⟩
  · intro name hname
    constructor
    · obtain ⟨w, hw⟩ : ∃ w, Spells true name.toList w := exists_spells _
      refine ⟨String.ofList w, ?_⟩
      rwa [String.toList_ofList]
    · intro text h
      exact ⟨Regex.parse_namedGroup hname h, Regex.parse_namedReference hname h⟩

/-- A letter as itself, a character as a surrogate pair and another letter in braces. -/
theorem read?_exact_mixed :
    let name := "x😀y"
    let text := "x\\uD83D\\uDE00\\u{79}"
    name ≠ "" ∧ Spells true name.toList text.toList ∧
      (Regex.parse ("(?<" ++ text ++ ">)")).body = Regex.namedGroup name text.utf8ByteSize ∧
      (Regex.parse ("\\k<" ++ text ++ ">")).body =
        Regex.namedReference name text.utf8ByteSize := by
  intro name text
  have hne : name ≠ "" := by decide
  have hlead : CodePoint.Form _ ('u' :: ['D', '8', '3', 'D']) :=
    .plain rfl (forall_mem_of_all (by decide))
  have htrail : CodePoint.Form _ ('u' :: ['D', 'E', '0', '0']) :=
    .plain rfl (forall_mem_of_all (by decide))
  have hletter : CodePoint.Form _ ('u' :: '{' :: ['7', '9'] ++ ['}']) :=
    .braced (by decide) (forall_mem_of_all (by decide)) (by decide)
  have hname : name.toList = ['x', '😀', 'y'] := by decide
  have htext : text.toList =
      'x' :: ('\\' :: 'u' :: ['D', '8', '3', 'D'] ++ ('\\' :: 'u' :: ['D', 'E', '0', '0'] ++
        ('\\' :: ('u' :: '{' :: ['7', '9'] ++ ['}']) ++ []))) := by decide
  have hspells : Spells true name.toList text.toList := by
    rw [hname, htext]
    exact .char (by decide) (.pair (by decide) hlead (by decide) htrail (by decide)
      (.escape hletter (by decide) .nil))
  have hparse := (read?_exact.2 name hne).2 text hspells
  exact ⟨hne, hspells, hparse⟩

end GroupName

end RegexTree
