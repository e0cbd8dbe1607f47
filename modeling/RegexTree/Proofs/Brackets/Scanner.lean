import RegexTree.Proofs.Forms.Lexeme

/-! # A scanner for brackets and bars
The scanner goes over a pattern once and knows nothing of its syntax but brackets, bars and
backslashes: it counts open groups, knows whether it is inside a class, and skips the character
after a backslash. It is `Scanner.scan`, or `Scanner.scanFrom` with a cursor. This module says what
it does with a single character and which texts it passes over without a report. -/

namespace RegexTree

/-- What the scanner reports. -/
inductive Delimiter where
  /-- A parenthesis that opens a group. -/
  | groupBegin
  /-- A parenthesis that closes a group. -/
  | groupEnd
  /-- A bar. -/
  | bar
  /-- A bracket that opens a class. -/
  | setBegin
  /-- A bracket that closes a class. -/
  | setEnd
  /-- A closing parenthesis with no group open. -/
  | strayParenthesis
  /-- A closing bracket outside of classes. -/
  | strayBracket
  deriving DecidableEq, Repr

/-- The state of the scanner. -/
structure Scanner where
  /-- The number of open groups. -/
  depth : Nat
  /-- The scanner is inside a class. -/
  inClass : Bool
  deriving DecidableEq, Repr

namespace Scanner

/-- What one character other than a backslash reports, and the state after it. -/
def step (s : Scanner) (x : Char) : Option Delimiter × Scanner :=
  if s.inClass then
    if x = ']' then (some .setEnd, ⟨s.depth, false⟩) else (none, s)
  else if x = '[' then (some .setBegin, ⟨s.depth, true⟩)
  else if x = '(' then (some .groupBegin, ⟨s.depth + 1, false⟩)
  else if x = ')' then
    if s.depth = 0 then (some .strayParenthesis, s) else (some .groupEnd, ⟨s.depth - 1, false⟩)
  else if x = '|' then (some .bar, s)
  else if x = ']' then (some .strayBracket, s)
  else (none, s)

/-- What is reported for a text that begins at an offset, with the places. -/
def scan (s : Scanner) (pos : Nat) : List Char → List (Delimiter × Span)
  | [] => []
  | x :: text =>
    if x = '\\' then
      match text with
      | [] => []
      -- the escaped character has no meaning of its own, inside a class or not
      | y :: text => s.scan (pos + x.utf8Size + y.utf8Size) text
    else
      ((s.step x).1.map (·, ⟨pos, pos + x.utf8Size⟩)).toList ++
        (s.step x).2.scan (pos + x.utf8Size) text

/-- What is reported from a place to the end. -/
def scanFrom (s : Scanner) (c : Cursor) : List (Delimiter × Span) := s.scan c.pos c.rest

/-! ## Single characters -/

/-- A backslash is passed over together with the character after it. -/
theorem scan_backslash (s : Scanner) (pos : Nat) (x : Char) (text : List Char) :
    s.scan pos ('\\' :: x :: text) = s.scan (pos + '\\'.utf8Size + x.utf8Size) text := by
  rw [scan.eq_def]
  exact if_pos rfl

/-- Any other character takes one `step`. -/
theorem scan_cons (s : Scanner) (pos : Nat) {x : Char} (hx : x ≠ '\\') (text : List Char) :
    s.scan pos (x :: text) = ((s.step x).1.map (·, ⟨pos, pos + x.utf8Size⟩)).toList ++
      (s.step x).2.scan (pos + x.utf8Size) text := by
  rw [scan.eq_def]
  exact if_neg hx

variable {s : Scanner} {c later : Cursor}

/-- At the end nothing is reported. -/
theorem scanFrom_of_end (h : c.rest = []) : s.scanFrom c = [] := by
  rw [scanFrom, h, scan]

/-- A character other than a backslash takes one step. -/
theorem scanFrom_of_reads {x : Char} (h : c.Reads [x] later) (hx : x ≠ '\\') :
    s.scanFrom c =
      ((s.step x).1.map (·, c.spanTo later)).toList ++ (s.step x).2.scanFrom later := by
  have hpos : later.pos = c.pos + x.utf8Size := h.2
  rw [scanFrom, h.1, List.cons_append, scan_cons s c.pos hx, scanFrom, Cursor.spanTo, hpos]
  rfl

/-- A backslash and the character after it are passed over. -/
theorem scanFrom_of_escape {x : Char} (h : c.Reads ['\\', x] later) :
    s.scanFrom c = s.scanFrom later := by
  have hpos : later.pos = c.pos + '\\'.utf8Size + x.utf8Size := by
    rw [h.2, Nat.add_assoc]
    rfl
  rw [scanFrom, h.1, List.cons_append, List.cons_append, scan_backslash, scanFrom, hpos]
  rfl

/-- A backslash at the end is passed over. -/
theorem scanFrom_of_lone (h : c.Reads ['\\'] later) (hend : later.rest = []) :
    s.scanFrom c = s.scanFrom later := by
  rw [scanFrom_of_end hend, scanFrom, h.1, hend]
  rfl

/-! ## Beginnings of texts -/

/-- What is reported ends behind the place where scanning begins. -/
theorem lt_stop_of_mem_scan {s : Scanner} {pos : Nat} {text : List Char} :
    ∀ d ∈ s.scan pos text, pos < d.2.stop := by
  fun_induction scan s pos text with
  | case1 => exact List.forall_mem_nil _
  | case2 => exact List.forall_mem_nil _
  | case3 s pos y text ih =>
    intro d hd
    have hlt := ih d hd
    omega
  | case4 s pos x text hx ih =>
    intro d hd
    have hwidth := x.utf8Size_pos
    rcases List.mem_append.mp hd with hd | hd
    · obtain ⟨d', -, rfl⟩ := Option.map_eq_some_iff.mp (Option.mem_toList.mp hd)
      exact Nat.lt_add_of_pos_right hwidth
    · have hlt := ih d hd
      omega

/-- Nothing that ends by the place where scanning begins is reported. -/
theorem filter_scan_eq_nil (s : Scanner) {pos stop : Nat} (h : stop ≤ pos) (text : List Char) :
    (s.scan pos text).filter (·.2.stop ≤ stop) = [] := by
  refine List.filter_eq_nil_iff.mpr fun d hd => ?_
  have hlt := lt_stop_of_mem_scan d hd
  simp only [decide_eq_true_eq]
  omega

/-- What is reported up to the end of a text does not depend on what follows the text. -/
theorem filter_scan_append (s : Scanner) (pos : Nat) (text more : List Char) :
    (s.scan pos (text ++ more)).filter (·.2.stop ≤ pos + byteLength text) = s.scan pos text := by
  fun_induction scan s pos text with
  | case1 s pos => exact filter_scan_eq_nil s (Nat.le_refl pos) more
  | case2 s pos =>
    cases more with
    | nil => rfl
    | cons y more =>
      rw [List.cons_append, List.nil_append, scan_backslash]
      exact filter_scan_eq_nil s (Nat.le_add_right _ _) more
  | case3 s pos y text ih =>
    rw [List.cons_append, List.cons_append, scan_backslash, byteLength_cons, byteLength_cons,
      ← Nat.add_assoc, ← Nat.add_assoc]
    exact ih
  | case4 s pos x text hx ih =>
    rw [List.cons_append, scan_cons s pos hx, List.filter_append, byteLength_cons, ← Nat.add_assoc,
      ih]
    congr 1
    refine List.filter_eq_self.mpr fun d hd => ?_
    obtain ⟨d', -, rfl⟩ := Option.map_eq_some_iff.mp (Option.mem_toList.mp hd)
    exact decide_eq_true (Nat.le_add_right _ _)

/-! ## Texts that are passed over -/

/-- The characters that the scanner reacts to. -/
def reactive : List Char := ['\\', '[', ']', '(', ')', '|']

/-- The scanner does not react to the character. -/
def isInert (x : Char) : Bool := !reactive.contains x

/-- None of the `reactive` characters is inert. -/
theorem ne_of_isInert {x y : Char} (hx : isInert x = true) (hy : y ∈ reactive) : x ≠ y := by
  rintro rfl
  simp [isInert, hy] at hx

/-- An inert character changes nothing. -/
theorem step_of_isInert {x : Char} (hx : isInert x = true) : s.step x = (none, s) := by
  have hne : ∀ y ∈ reactive, x ≠ y := fun y hy => ne_of_isInert hx hy
  simp only [reactive, List.mem_cons, List.not_mem_nil, or_false, forall_eq_or_imp,
    forall_eq] at hne
  obtain ⟨-, h1, h2, h3, h4, h5⟩ := hne
  simp [step, h1, h2, h3, h4, h5]

/-- An inert text is passed over. -/
theorem scanFrom_of_isInert {w : List Char} (h : c.Reads w later)
    (hw : ∀ x ∈ w, isInert x = true) : s.scanFrom c = s.scanFrom later := by
  induction w generalizing c with
  | nil => rw [h.unique (.refl c)]
  | cons x w ih =>
    obtain ⟨next, hx, hread⟩ := Cursor.reads_cons_iff.mp h
    have hinert := hw x List.mem_cons_self
    rw [scanFrom_of_reads hx (ne_of_isInert hinert (by decide)), step_of_isInert hinert]
    exact ih hread fun y hy => hw y (List.mem_cons_of_mem x hy)

/-- An inert text behind an opening brace. -/
theorem isInert_opened {w : List Char} (hw : ∀ y ∈ w, isInert y = true) :
    ∀ y ∈ '{' :: w, isInert y = true :=
  List.forall_mem_cons.mpr ⟨by decide, hw⟩

/-- An inert text in braces. -/
theorem isInert_braced {w : List Char} (hw : ∀ y ∈ w, isInert y = true) :
    ∀ y ∈ '{' :: w ++ ['}'], isInert y = true :=
  List.forall_mem_append.mpr ⟨isInert_opened hw, forall_mem_of_all (by decide)⟩

/-- An escape whose text is inert behind the escaped character is passed over. -/
theorem scanFrom_of_escaped {x : Char} {w : List Char} (h : c.Reads ('\\' :: x :: w) later)
    (hw : ∀ y ∈ w, isInert y = true) : s.scanFrom c = s.scanFrom later := by
  obtain ⟨middle, hescape, hread⟩ := (Cursor.reads_append_iff (s := ['\\', x])).mp h
  rw [scanFrom_of_escape hescape, scanFrom_of_isInert hread hw]

/-- A text of inert characters and backslashes is passed over up to an inert character behind it,
which the last backslash may escape. -/
theorem scanFrom_of_closed {v : List Char} {close : Char} (h : c.Reads (v ++ [close]) later)
    (hclose : isInert close = true) (hv : ∀ y ∈ v, y = '\\' ∨ isInert y = true) :
    s.scanFrom c = s.scanFrom later := by
  -- a backslash takes two characters at once, so the induction is on the length
  induction hn : v.length using Nat.strongRecOn generalizing v c with
  | ind n ih =>
    subst hn
    obtain _ | ⟨x, v⟩ := v
    · exact scanFrom_of_isInert h (by simpa using hclose)
    · rcases hv x List.mem_cons_self with rfl | hx
      · obtain _ | ⟨y, v⟩ := v
        · exact scanFrom_of_escape h
        · obtain ⟨next, hescape, hread⟩ := (Cursor.reads_append_iff (s := ['\\', y])).mp h
          rw [scanFrom_of_escape hescape]
          have hlt : v.length < ('\\' :: y :: v).length := by
            rw [List.length_cons, List.length_cons]
            omega
          exact ih v.length hlt hread (fun z hz => hv z (by simp [hz])) rfl
      · obtain ⟨next, hfirst, hread⟩ := Cursor.reads_cons_iff.mp h
        rw [scanFrom_of_isInert hfirst (by simpa using hx)]
        exact ih v.length (by simp) hread (fun z hz => hv z (by simp [hz])) rfl

/-! ## Kinds of inert characters -/

/-- A kind of characters to which the scanner does not react. -/
theorem isInert_of {p : Char → Bool} (hp : reactive.all (!p ·) = true) {x : Char}
    (hx : p x = true) : isInert x = true := by
  by_cases hmem : x ∈ reactive
  · have hno := List.all_eq_true.mp hp x hmem
    simp [hx] at hno
  · simp [isInert, hmem]

/-- Characters that stand for themselves (`isPatternChar`) are inert. -/
theorem isInert_of_isPatternChar {x : Char} (hx : isPatternChar x = true) : isInert x = true :=
  isInert_of (by decide) hx

/-- Hexadecimal digits are inert. -/
theorem isInert_of_isHexDigit {x : Char} (hx : isHexDigit x = true) : isInert x = true :=
  isInert_of (by decide) hx

/-- Decimal digits are inert. -/
theorem isInert_of_isDecimalDigit {x : Char} (hx : isDecimalDigit x = true) : isInert x = true :=
  isInert_of (by decide) hx

/-- What may stand between the braces of a property (`UnicodeProperty.allows`) is inert. -/
theorem isInert_of_propertyAllows {x : Char} (hx : UnicodeProperty.allows x = true) :
    isInert x = true :=
  isInert_of (by decide) hx

/-- Name characters are inert. -/
theorem isInert_of_isGroupNameContinue {x : Char} (hx : isGroupNameContinue x = true) :
    isInert x = true :=
  isInert_of (by decide) hx

/-- What may stand between the braces of a count (`Count.allows`) is inert. -/
theorem isInert_of_countAllows {x : Char} (hx : Count.allows x = true) : isInert x = true :=
  isInert_of (by decide) hx

/-- Control letters are inert. -/
theorem isInert_of_isControlLetter {x : Char} (hx : isControlLetter x = true) :
    isInert x = true :=
  isInert_of (by decide) hx

/-- What a malformed property runs over (`Cursor.isSkippable`) is inert. -/
theorem isInert_of_isSkippable_brace {x : Char} (hx : Cursor.isSkippable '}' false x = true) :
    isInert x = true :=
  isInert_of (by decide) hx

/-- What a malformed name runs over is inert, but for backslashes. -/
theorem isInert_of_isSkippable_bracket {x : Char} (hx : Cursor.isSkippable '>' true x = true) :
    x = '\\' ∨ isInert x = true := by
  by_cases hback : x = '\\'
  · exact .inl hback
  · refine .inr (isInert_of_isPatternChar ?_)
    simp only [Cursor.isSkippable, Bool.and_eq_true, Bool.or_eq_true, beq_iff_eq] at hx
    grind

end Scanner

end RegexTree
