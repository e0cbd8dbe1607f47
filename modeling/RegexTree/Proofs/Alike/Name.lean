import RegexTree.Proofs.Alike.Escape
import RegexTree.Proofs.Forms.Name

/-! # Names and openings at places that look alike
The readers of group names, of references by name and of the openings of groups find the same at two
places that look alike, moved from the one to the other. A name is read up to its closing bracket,
so whether there is one is settled by the common text. The main statements are
`Backreference.alike_readNamed` and `GroupOpening.alike_read`. -/

namespace RegexTree

open Cursor (Alike)

variable {m n : Nat} {s t : List Char} {a b : Cursor}

/-- A text without a character that stands in the common text ends before the common text does. -/
theorem Cursor.Alike.stays_of_reads_before {z : Char} {w : List Char} {later b₂ : Cursor}
    (h : Alike m n s t a b) (hlater : a.Reaches later) (hz : later.rest.head? = some z)
    (hs : s <:+ later.next.rest) (hr : b.Reads w b₂) (hw : z ∉ w) : t <:+ b₂.rest := by
  obtain ⟨v, hv⟩ := hlater
  obtain ⟨r, hrest⟩ := List.head?_eq_some_iff.mp hz
  obtain ⟨stop, hread, halike⟩ := h.of_reads (hv.trans (Cursor.reads_next hrest)) hs
  have happend : w ++ b₂.rest = v ++ (z :: stop.rest) := by
    rw [← hr.1, hread.1, List.append_assoc]
    rfl
  have hcons : t <:+ z :: stop.rest := halike.stays.2.trans (List.suffix_cons z stop.rest)
  rcases List.append_eq_append_iff.mp happend with ⟨x, -, hx⟩ | ⟨x, hx, hrest'⟩
  · rw [hx]
    exact hcons.trans (List.suffix_append x _)
  · cases x with
    | nil => rwa [List.nil_append, ← hrest'] at *
    | cons y x =>
      obtain rfl : z = y := (List.cons.inj hrest').1
      exact absurd (by rw [hx]; simp) hw

/-! ## Names -/

/-- The texts of code points have no closers and no closing angle bracket. -/
theorem CodePoint.Form.not_mem {p : CodePoint} {w : List Char} (h : Form p w) :
    ∀ x ∈ '\\' :: w, x ∉ '>' :: closers := by
  have hdigit : ∀ {digits : List Char}, (∀ d ∈ digits, isHexDigit d = true) →
      ∀ d ∈ digits, d ∉ '>' :: closers := by
    intro digits hdigits d hd hmem
    have hno : ∀ x ∈ '>' :: closers, isHexDigit x = false := forall_mem_of_all (by decide)
    have hyes := hdigits d hd
    rw [hno d hmem] at hyes
    cases hyes
  cases h with
  | plain hlength hdigits =>
    refine List.forall_mem_cons.mpr ⟨by decide, List.forall_mem_cons.mpr ⟨by decide, ?_⟩⟩
    exact hdigit hdigits
  | braced hne hdigits hle =>
    have hopen : ∀ x ∈ ['\\', 'u', '{'], x ∉ '>' :: closers := forall_mem_of_all (by decide)
    have hclose : ∀ x ∈ ['}'], x ∉ '>' :: closers := forall_mem_of_all (by decide)
    exact List.forall_mem_append.mpr
      ⟨List.forall_mem_append.mpr ⟨hopen, hdigit hdigits⟩, hclose⟩

namespace GroupName

/-- The texts of names (`GroupName.Form`) have no `closers`. -/
theorem Form.not_mem_closers {first : Bool} {w : List Char} (h : Form first w) :
    ∀ x ∈ w, x ∉ closers := by
  induction h with
  | nil => exact List.forall_mem_nil _
  | char hx hw ih =>
    have hno := RegexTree.not_mem_closers (by decide) (isGroupNameContinue_of_allows hx)
    exact List.forall_mem_cons.mpr ⟨hno, ih⟩
  | escape hp hw ih =>
    refine List.forall_mem_append.mpr ⟨fun x hx hmem => ?_, ih⟩
    exact hp.not_mem x hx (List.mem_cons_of_mem _ hmem)

variable {first : Bool} {a₂ later : Cursor}

/-- The escape of a code point is read at the other place as well. -/
theorem alike_of_readCode? {code : Nat} (h : Alike m n s t a b)
    (ha : readCode? a = some (code, a₂)) (hs : s <:+ a₂.rest) :
    ∃ b₂, readCode? b = some (code, b₂) ∧ Alike m n s t a₂ b₂ := by
  obtain ⟨p, u, hp, hread, rfl⟩ := reads_of_readCode? ha
  obtain ⟨b₂, hread', halike⟩ := h.of_reads hread hs
  exact ⟨b₂, readCode?_of_form hp hread', halike⟩

/-- The second half of a pair of surrogates is read at the other place as well. -/
theorem alike_of_readTrail? {code : Nat} (h : Alike m n s t a b)
    (ha : readTrail? a = some (code, a₂)) (hs : s <:+ a₂.rest) :
    ∃ b₂, readTrail? b = some (code, b₂) ∧ Alike m n s t a₂ b₂ := by
  simp only [readTrail?, Option.bind_eq_bind, Option.bind_eq_some_iff, Prod.exists] at ha ⊢
  obtain ⟨trail, after, hcode, ha⟩ := ha
  split_ifs at ha with htrail
  cases ha
  obtain ⟨b₂, hcode', halike⟩ := alike_of_readCode? h hcode hs
  exact ⟨b₂, ⟨_, b₂, hcode', if_pos htrail⟩, halike⟩

/-- Before a closing bracket, where no second half of a pair is read, none is read at the other
place either. -/
theorem readTrail?_eq_none (h : Alike m n s t a b) (hlater : a.Reaches later)
    (hclose : later.rest.head? = some '>') (hs : s <:+ later.next.rest)
    (ha : readTrail? a = none) : readTrail? b = none := by
  cases hb : readTrail? b with
  | none => rfl
  | some result =>
    obtain ⟨code, b₂⟩ := result
    have hcode : ∃ trail, readCode? b = some (trail, b₂) := by
      simp only [readTrail?, Option.bind_eq_bind, Option.bind_eq_some_iff, Prod.exists] at hb
      obtain ⟨trail, after, hcode, hb⟩ := hb
      split_ifs at hb
      cases hb
      exact ⟨_, hcode⟩
    -- the escape has no closing bracket in it, so it stands at the first place too
    obtain ⟨trail, hcode⟩ := hcode
    obtain ⟨p, u, hp, hread, -⟩ := reads_of_readCode? hcode
    have hno : '>' ∉ '\\' :: u := fun hmem => hp.not_mem '>' hmem (by decide)
    have hstay := h.stays_of_reads_before hlater hclose hs hread hno
    obtain ⟨a₂, ha₂, -⟩ := alike_of_readTrail? h.symm hb hstay
    rw [ha] at ha₂
    cases ha₂

/-- An escaped character is read at the other place as well. -/
theorem alike_of_readEscaped? {x : Char} (h : Alike m n s t a b)
    (ha : readEscaped? a = some (x, a₂)) (hlater : a₂.Reaches later)
    (hclose : later.rest.head? = some '>') (hs : s <:+ later.next.rest) :
    ∃ b₂, readEscaped? b = some (x, b₂) ∧ Alike m n s t a₂ b₂ := by
  have hstay : s <:+ a₂.rest := (hlater.trans later.reaches_next).stays hs
  simp only [readEscaped?, Option.bind_eq_bind, Option.bind_eq_some_iff, Prod.exists] at ha ⊢
  obtain ⟨code, middle, hcode, ha⟩ := ha
  cases htrail : if isLeadSurrogate code then readTrail? middle else none with
  | none =>
    rw [htrail] at ha
    cases ha
    obtain ⟨b₂, hcode', halike⟩ := alike_of_readCode? h hcode hstay
    refine ⟨b₂, ⟨code, b₂, hcode', ?_⟩, halike⟩
    have htrail' : (if isLeadSurrogate code then readTrail? b₂ else none) = none := by
      by_cases hlead : isLeadSurrogate code = true
      · rw [if_pos hlead] at htrail ⊢
        exact readTrail?_eq_none halike hlater hclose hs htrail
      · exact if_neg hlead
    rw [htrail']
  | some result =>
    obtain ⟨trail, after⟩ := result
    rw [htrail] at ha
    obtain ⟨rfl, rfl⟩ := Prod.mk.inj (Option.some.inj ha)
    have hlead : isLeadSurrogate code = true := by
      refine Decidable.byContradiction fun hno => ?_
      rw [if_neg hno] at htrail
      cases htrail
    rw [if_pos hlead] at htrail
    obtain ⟨middle', hcode', hmiddle⟩ :=
      alike_of_readCode? h hcode ((reaches_of_readTrail? htrail).stays hstay)
    obtain ⟨b₂, htrail', halike⟩ := alike_of_readTrail? hmiddle htrail hstay
    refine ⟨b₂, ⟨code, middle', hcode', ?_⟩, halike⟩
    rw [if_pos hlead, htrail']

/-- One character of a name is read at the other place as well. -/
theorem alike_of_readElement? {x : Char} (h : Alike m n s t a b)
    (ha : readElement? first a = some (x, a₂)) (hlater : a₂.Reaches later)
    (hclose : later.rest.head? = some '>') (hs : s <:+ later.next.rest) :
    ∃ b₂, readElement? first b = some (x, b₂) ∧ Alike m n s t a₂ b₂ := by
  have hstay : s <:+ a₂.rest := (hlater.trans later.reaches_next).stays hs
  have hnextStay := (reaches_of_readElement? ha).stays hstay
  cases hrest : a.rest with
  | nil => simp [readElement?, hrest] at ha
  | cons y r =>
    obtain ⟨⟨r', hrest'⟩, hnext⟩ := h.next hrest hnextStay
    by_cases hy : y = '\\'
    · subst hy
      rw [readElement?_of_backslash hrest] at ha
      rw [readElement?_of_backslash hrest']
      exact alike_of_readEscaped? h ha hlater hclose hs
    · have hread : readElement? first a = if allows first y then some (y, a.next) else none := by
        unfold readElement?
        split
        · simp_all
        · simp_all
      rw [hread] at ha
      split_ifs at ha with hallows
      cases ha
      exact ⟨b.next, readElement?_of_allows hrest' hallows, hnext⟩

/-- The characters of a name are read at the other place as well. -/
theorem alike_of_readElements? {name : List Char} (h : Alike m n s t a b)
    (ha : readElements? first a = some (name, later)) (hs : s <:+ later.next.rest) :
    ∃ later', readElements? first b = some (name, later') ∧ Alike m n s t later later' := by
  have hclose := head_of_readElements? ha
  -- characters are read up to the closing bracket, each at a place that looks alike
  fun_induction readElements? first a generalizing name b with
  | case1 first a hhead =>
    cases ha
    obtain ⟨r, hrest⟩ := List.head?_eq_some_iff.mp hhead
    obtain ⟨⟨r', hrest'⟩, -⟩ := h.next hrest hs
    refine ⟨b, ?_, h⟩
    rw [readElements?, hrest']
    exact if_pos rfl
  | case2 => cases ha
  | case3 first a hhead x next hx ih =>
    obtain ⟨⟨xs, stop⟩, hxs, heq⟩ := Option.map_eq_some_iff.mp ha
    cases heq
    have hreach := reaches_of_readElements? hxs
    obtain ⟨next', hx', hnext⟩ := alike_of_readElement? h hx hreach hclose hs
    obtain ⟨later', hxs', hlater⟩ := ih hnext hxs
    refine ⟨later', ?_, hlater⟩
    -- the first character is no closing bracket, since an element begins with it
    have hhead' : b.rest.head? ≠ some '>' := by
      intro hb
      obtain ⟨r, hrest⟩ := List.head?_eq_some_iff.mp hb
      have hnone : readElement? first b = none := by
        unfold readElement?
        split
        · rfl
        · rename_i y u hy
          obtain rfl : '>' = y := by simp_all
          rw [if_neg (by decide), if_neg fun hallows => ne_close_of_allows hallows rfl]
      rw [hnone] at hx'
      cases hx'
    rw [readElements?_of_element hhead' hx', hxs']
    rfl

/-- A `GroupName` that is read at one place is read at the other as well. -/
theorem alike_of_read? {name : GroupName} (h : Alike m n s t a b)
    (ha : read? a = some (name, later)) (hs : s <:+ later.next.rest) :
    ∃ name' later', read? b = some (name', later') ∧ name.shift m = name'.shift n ∧
      Alike m n s t later later' ∧ Alike m n s t later.next later'.next := by
  obtain ⟨-, -, -, -, hclose, -⟩ := form_of_read? ha
  obtain ⟨r, hrest⟩ := List.head?_eq_some_iff.mp hclose
  simp only [read?, Option.bind_eq_bind, Option.bind_eq_some_iff, Prod.exists] at ha
  obtain ⟨chars, stop, hchars, ha⟩ := ha
  split_ifs at ha with hempty
  cases ha
  obtain ⟨later', hchars', hlater⟩ := alike_of_readElements? h hchars hs
  refine ⟨⟨String.ofList chars, b.spanTo later'⟩, later', ?_, ?_, hlater, (hlater.next hrest hs).2⟩
  · rw [read?, hchars']
    exact if_neg hempty
  · rw [GroupName.shift, GroupName.shift, h.shift_spanTo hlater]

/-- Where no name is read, none is read at the other place either. -/
theorem read?_eq_none (h : Alike m n s t a b) (ht : Delimits t) (ha : read? a = none) :
    read? b = none := by
  cases hb : read? b with
  | none => rfl
  | some result =>
    -- a name at the other place has no closers, so it stands at the first place too
    obtain ⟨name, stop⟩ := result
    obtain ⟨w, -, hw, hread, hclose, -⟩ := form_of_read? hb
    obtain ⟨r, hrest⟩ := List.head?_eq_some_iff.mp hclose
    have hno : ∀ x ∈ w ++ ['>'], x ∉ closers :=
      List.forall_mem_append.mpr ⟨hw.not_mem_closers, forall_mem_of_all (by decide)⟩
    have hstay := h.stays_of_reads ht (hread.trans (Cursor.reads_next hrest)) hno
    obtain ⟨name', stop', ha', -⟩ := alike_of_read? h.symm hb hstay
    rw [ha] at ha'
    cases ha'

/-- A malformed name is left by `recover` at the same place. -/
theorem alike_recover (h : Alike m n s t a b) (ht : Delimits t) (hs : s <:+ (recover a).rest) :
    Alike m n s t (recover a) (recover b) :=
  Cursor.Alike.recover h ht (by decide) (by decide) hs

end GroupName

/-! ## References by name -/

/-- A reference that was read, or what makes no sense of it, is moved. -/
def Backreference.shiftRead (n : Nat) (r : Except Invalid Backreference) :
    Except Invalid Backreference :=
  match r with
  | .ok reference => .ok (reference.shift n)
  | .error i => .error (i.shift n)

/-- As an atom, a reference is moved as on its own, by `Backreference.shiftRead`. -/
theorem Atom.shift_ofReference (n : Nat) (r : Except Invalid Backreference) :
    (ofReference r).shift n = ofReference (Backreference.shiftRead n r) := by
  cases r <;> rfl

/-- A reference by name is the same at both places. -/
theorem Backreference.alike_readNamed {body body' : Cursor} (h : Alike m n s t a b)
    (hbody : Alike m n s t body body') (ht : Delimits t) (hs : s <:+ (readNamed a body).2.rest) :
    shiftRead m (readNamed a body).1 = shiftRead n (readNamed b body').1 ∧
      Alike m n s t (readNamed a body).2 (readNamed b body').2 := by
  unfold readNamed at hs ⊢
  cases hopen : body.accept? '<' with
  | none =>
    rw [hbody.accept?_eq_none ht (by decide) hopen]
    refine ⟨?_, hbody⟩
    simp only [shiftRead, Invalid.shift, h.shift_spanTo hbody]
  | some inside =>
    rw [hopen] at hs
    dsimp only at hs ⊢
    cases hread : GroupName.read? inside with
    | none =>
      rw [hread] at hs
      obtain ⟨inside', hopen', hinside⟩ :=
        hbody.of_accept? hopen ((GroupName.reaches_recover inside).stays hs)
      have hrecover := GroupName.alike_recover hinside ht hs
      rw [hopen']
      dsimp only
      rw [GroupName.read?_eq_none hinside ht hread]
      refine ⟨?_, hrecover⟩
      simp only [shiftRead, Invalid.shift, h.shift_spanTo hrecover]
    | some result =>
      obtain ⟨name, later⟩ := result
      rw [hread] at hs
      have hreach := (GroupName.reaches_of_read? hread).trans later.reaches_next
      obtain ⟨inside', hopen', hinside⟩ := hbody.of_accept? hopen (hreach.stays hs)
      obtain ⟨name', later', hread', hname, -, hlater⟩ := GroupName.alike_of_read? hinside hread hs
      rw [hopen']
      dsimp only
      rw [hread']
      refine ⟨?_, hlater⟩
      simp only [shiftRead, Backreference.shift, h.shift_spanTo hlater, hname]

/-! ## Openings of groups -/

namespace GroupKind

/-- The fixed `identifiers` have no `closers`. -/
theorem not_mem_closers_of_mem_identifiers {word : List Char} {kind : Span → GroupKind}
    (h : (word, kind) ∈ identifiers) : ∀ x ∈ word, x ∉ closers := by
  rcases eq_of_mem_identifiers h with ⟨rfl, -⟩ | ⟨rfl, -⟩ | ⟨rfl, -⟩ | ⟨rfl, -⟩ | ⟨rfl, -⟩ <;>
    exact forall_mem_of_all (by decide)

/-- The fixed identifiers are moved with their spans. -/
theorem shift_of_mem_identifiers {word : List Char} {kind : Span → GroupKind}
    (h : (word, kind) ∈ identifiers) (n : Nat) (span : Span) :
    (kind span).shift n = kind (span.shift n) := by
  rcases eq_of_mem_identifiers h with ⟨-, rfl⟩ | ⟨-, rfl⟩ | ⟨-, rfl⟩ | ⟨-, rfl⟩ | ⟨-, rfl⟩ <;> rfl

/-- A word that stands at neither place or at both is accepted at neither or at both. -/
theorem alike_acceptAll? {word : List Char} (h : Alike m n s t a b) (ht : Delimits t)
    (hword : ∀ x ∈ word, x ∉ closers)
    (hs : ∀ later, a.acceptAll? word = some later → s <:+ later.rest) :
    (a.acceptAll? word = none ∧ b.acceptAll? word = none) ∨
      ∃ later later', a.acceptAll? word = some later ∧ b.acceptAll? word = some later' ∧
        Alike m n s t later later' := by
  have haccept : ∀ {c later : Cursor}, c.Reads word later → c.acceptAll? word = some later := by
    intro c later hread
    have hprefix : word <+: c.rest := ⟨later.rest, hread.1.symm⟩
    rw [Cursor.acceptAll?, if_pos (List.isPrefixOf_iff_prefix.mpr hprefix),
      (Cursor.reads_past hprefix).unique hread]
  cases ha : a.acceptAll? word with
  | some later =>
    obtain ⟨later', hread, halike⟩ := h.of_reads (Cursor.reads_of_acceptAll? ha) (hs later ha)
    exact .inr ⟨later, later', rfl, haccept hread, halike⟩
  | none =>
    refine .inl ⟨rfl, ?_⟩
    cases hb : b.acceptAll? word with
    | none => rfl
    | some later =>
      have hread := Cursor.reads_of_acceptAll? hb
      obtain ⟨a₂, hread', -⟩ := h.symm.of_reads hread (h.stays_of_reads ht hread hword)
      rw [haccept hread'] at ha
      cases ha

/-- One of the fixed `identifiers` is read at neither place or at both, moved. -/
theorem alike_readPlain? (h : Alike m n s t a b) (ht : Delimits t)
    (hs : ∀ kind later, readPlain? a = some (kind, later) → s <:+ later.rest) :
    (readPlain? a = none ∧ readPlain? b = none) ∨
      ∃ kind kind' later later', readPlain? a = some (kind, later) ∧
        readPlain? b = some (kind', later') ∧ kind.shift m = kind'.shift n ∧
          Alike m n s t later later' := by
  unfold readPlain? at hs ⊢
  have hmem : ∀ p ∈ identifiers, p ∈ identifiers := fun _ hp => hp
  -- the identifiers are tried one after the other, the same ones at both places
  generalize hl : identifiers = l at hs ⊢
  replace hmem : ∀ p ∈ l, p ∈ identifiers := hl ▸ hmem
  clear hl
  induction l with
  | nil => exact .inl ⟨rfl, rfl⟩
  | cons p l ih =>
    obtain ⟨word, build⟩ := p
    have hword := hmem _ List.mem_cons_self
    simp only [List.findSome?_cons] at hs ⊢
    have hstay : ∀ later, a.acceptAll? word = some later → s <:+ later.rest := by
      intro later ha
      refine hs (build (a.spanTo later)) later ?_
      rw [ha]
      rfl
    rcases alike_acceptAll? h ht (not_mem_closers_of_mem_identifiers hword) hstay with
      ⟨ha, hb⟩ | ⟨later, later', ha, hb, halike⟩
    · rw [ha] at hs ⊢
      rw [hb]
      exact ih hs fun q hq => hmem q (List.mem_cons_of_mem _ hq)
    · rw [ha, hb]
      refine .inr ⟨_, _, _, _, rfl, rfl, ?_, halike⟩
      rw [shift_of_mem_identifiers hword, shift_of_mem_identifiers hword, h.shift_spanTo halike]

/-- An identifier with a name is the same at both places. -/
theorem alike_readNamed {inside inside' : Cursor} (h : Alike m n s t a b)
    (hinside : Alike m n s t inside inside') (ht : Delimits t)
    (hs : s <:+ (readNamed a inside).2.rest) :
    (readNamed a inside).1.shift m = (readNamed b inside').1.shift n ∧
      Alike m n s t (readNamed a inside).2 (readNamed b inside').2 := by
  unfold readNamed at hs ⊢
  cases hread : GroupName.read? inside with
  | none =>
    rw [hread] at hs
    have hrecover := GroupName.alike_recover hinside ht hs
    rw [GroupName.read?_eq_none hinside ht hread]
    refine ⟨?_, hrecover⟩
    simp only [shift, Invalid.shift, h.shift_spanTo hrecover]
  | some result =>
    obtain ⟨name, later⟩ := result
    rw [hread] at hs
    obtain ⟨name', later', hread', hname, -, hlater⟩ := GroupName.alike_of_read? hinside hread hs
    rw [hread']
    refine ⟨?_, hlater⟩
    simp only [shift, h.shift_spanTo hlater, hname]

/-- A `GroupKind` is read the same at both places. -/
theorem alike_readIdentifier {r : List Char} (h : Alike m n s t a b) (ht : Delimits t)
    (ha : a.rest = '?' :: r) (hs : s <:+ (readIdentifier a).2.rest) :
    (readIdentifier a).1.shift m = (readIdentifier b).1.shift n ∧
      Alike m n s t (readIdentifier a).2 (readIdentifier b).2 := by
  have hplain : ∀ kind later, readPlain? a = some (kind, later) → s <:+ later.rest := by
    intro kind later hread
    rw [readIdentifier, hread] at hs
    exact hs
  unfold readIdentifier at hs ⊢
  rcases alike_readPlain? h ht hplain with
    ⟨hreadA, hreadB⟩ | ⟨kind, kind', later, later', hreadA, hreadB, hkind, halike⟩
  · rw [hreadA] at hs ⊢
    rw [hreadB]
    dsimp only at hs ⊢
    have hnamed : ∀ inside, a.acceptAll? ['?', '<'] = some inside → s <:+ inside.rest := by
      intro inside hinside
      rw [hinside] at hs
      exact (reaches_readNamed a inside).stays hs
    rcases alike_acceptAll? h ht (forall_mem_of_all (by decide)) hnamed with
      ⟨hopenA, hopenB⟩ | ⟨inside, inside', hopenA, hopenB, hinside⟩
    · rw [hopenA] at hs ⊢
      rw [hopenB]
      obtain ⟨-, hnext⟩ := h.next ha hs
      refine ⟨?_, hnext⟩
      simp only [shift, Invalid.shift, h.shift_spanTo hnext]
    · rw [hopenA] at hs ⊢
      rw [hopenB]
      exact alike_readNamed h hinside ht hs
  · rw [hreadA, hreadB]
    exact ⟨hkind, halike⟩

end GroupKind

/-- A `GroupOpening` is the same at both places. -/
theorem GroupOpening.alike_read {r : List Char} (h : Alike m n s t a b) (ht : Delimits t)
    (ha : a.rest = '(' :: r) (hs : s <:+ (read a).2.rest) :
    (read a).1.shift m = (read b).1.shift n ∧ Alike m n s t (read a).2 (read b).2 := by
  obtain ⟨-, hnext⟩ := h.next ha ((reaches_read a).stays hs)
  by_cases hmark : a.next.rest.head? = some '?'
  · have hread : ∀ c : Cursor, c.next.rest.head? = some '?' →
        read c = (⟨c.spanTo c.next, (GroupKind.readIdentifier c.next).1⟩,
          (GroupKind.readIdentifier c.next).2) := by
      intro c hc
      rw [read]
      exact if_pos hc
    rw [hread a hmark] at hs ⊢
    -- the identifier takes the question mark, which therefore stands at both places
    obtain ⟨u, hu⟩ := List.head?_eq_some_iff.mp hmark
    obtain ⟨w, hw⟩ := (GroupKind.takes_readIdentifier hu).reads
    obtain ⟨stop, hfirst, hrest⟩ := Cursor.reads_cons_iff.mp hw
    have hstay := (hfirst.eq_next ▸ hrest.reaches).stays hs
    obtain ⟨⟨u', hu'⟩, -⟩ := hnext.next hu hstay
    rw [hread b (by rw [hu']; rfl)]
    obtain ⟨hkind, halike⟩ := GroupKind.alike_readIdentifier hnext ht hu hs
    refine ⟨?_, halike⟩
    simp only [shift, h.shift_spanTo hnext, hkind]
  · have hread : ∀ c : Cursor, c.next.rest.head? ≠ some '?' →
        read c = (⟨c.spanTo c.next, .anonymous⟩, c.next) := by
      intro c hc
      rw [read]
      exact if_neg hc
    have hmark' : b.next.rest.head? ≠ some '?' := by
      intro hb
      have hclosers : ∀ x ∈ closers, x ≠ '?' := forall_mem_of_all (by decide)
      refine hnext.forall_head (ht.forall_head hclosers) ?_ _ hb rfl
      rintro x hx rfl
      exact hmark hx
    rw [hread a hmark, hread b hmark']
    refine ⟨?_, hnext⟩
    simp only [shift, GroupKind.shift, h.shift_spanTo hnext]

end RegexTree
