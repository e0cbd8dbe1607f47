import RegexTree.Proofs.Alike.Basic
import RegexTree.Proofs.Diagnostics
import RegexTree.Proofs.Forms.Escape
import RegexTree.Proofs.Shift
import Mathlib.Tactic.SplitIfs

/-! # Escapes at places that look alike
The reader of backslash sequences finds the same sequence at two places that look alike, moved from
the one to the other. The main statement is `Escaped.alike_read`. The exception is a lone backslash
at the end of input, which is no longer alone where something follows, so it asks that the sequence
be `Uncut`. -/

namespace RegexTree

open Cursor (Alike)

variable {m n : Nat} {s t : List Char} {a b : Cursor}

/-! ## What the end of input cuts off -/

/-- The span would not be invalid, or not in this way, if the input did not end with it. -/
def Invalid.IsCutOff (i : Invalid) : Prop :=
  i.reason = .unterminatedGroup ∨ i.reason = .unterminatedClass ∨
    i.reason = .badEscape ∧ i.span.length = 1

instance (i : Invalid) : Decidable i.IsCutOff := inferInstanceAs (Decidable (_ ∨ _ ∨ _ ∧ _))

/-- Where the input ends at the first place and goes on at the second, nothing is cut off
(`Invalid.IsCutOff`). -/
def Uncut (s t : List Char) (invalids : List Invalid) : Prop :=
  s = [] → t ≠ [] → ∀ i ∈ invalids, ¬ i.IsCutOff

/-- Where the input ends at the second place as well, all may be cut off. -/
theorem Uncut.nil (s : List Char) (invalids : List Invalid) : Uncut s [] invalids := by
  intro _ hne
  exact absurd rfl hne

/-- What is `Uncut` is so in each part. -/
theorem Uncut.of_subset {is js : List Invalid} (h : Uncut s t is) (hsub : js ⊆ is) :
    Uncut s t js := by
  intro hs ht i hi
  exact h hs ht i (hsub hi)

/-! ## Code points -/

namespace CodePoint

/-- A code point in braces is the same at both places. -/
theorem alike_readBraced (h : Alike m n s t a b) (ht : Delimits t)
    (hs : s <:+ (readBraced a).2.rest) :
    (readBraced a).1 = (readBraced b).1 ∧ Alike m n s t (readBraced a).2 (readBraced b).2 := by
  unfold readBraced at hs ⊢
  dsimp only at hs ⊢
  cases hclose : (a.past (a.run isHexDigit)).accept? '}' with
  | none =>
    rw [hclose] at hs
    obtain ⟨hrun, hpast⟩ := h.run ht (by decide) hs
    rw [hpast.accept?_eq_none ht (by decide) hclose]
    exact ⟨rfl, hpast⟩
  | some later =>
    rw [hclose] at hs
    obtain ⟨hrun, hpast⟩ := h.run ht (by decide) ((Cursor.reaches_of_accept? hclose).stays hs)
    obtain ⟨later', hclose', halike⟩ := hpast.of_accept? hclose hs
    rw [hclose', hrun]
    exact ⟨rfl, halike⟩

/-- A code point of four digits is the same at both places. -/
theorem alike_readPlain (h : Alike m n s t a b) (ht : Delimits t)
    (hs : s <:+ (readPlain a).2.rest) :
    (readPlain a).1 = (readPlain b).1 ∧ Alike m n s t (readPlain a).2 (readPlain b).2 := by
  obtain ⟨hrun, hpast⟩ := h.runUpTo 4 ht (by decide) hs
  refine ⟨?_, hpast⟩
  rw [readPlain, readPlain, hrun]

/-- A `CodePoint` is the same at both places. -/
theorem alike_read {r : List Char} (h : Alike m n s t a b) (ht : Delimits t)
    (ha : a.rest = 'u' :: r) (hs : s <:+ (read a).2.rest) :
    (read a).1 = (read b).1 ∧ Alike m n s t (read a).2 (read b).2 := by
  obtain ⟨-, hnext⟩ := h.next ha ((reaches_read a).stays hs)
  unfold read at hs ⊢
  cases hopen : a.next.accept? '{' with
  | none =>
    rw [hopen] at hs
    rw [hnext.accept?_eq_none ht (by decide) hopen]
    exact alike_readPlain hnext ht hs
  | some inside =>
    rw [hopen] at hs
    obtain ⟨inside', hopen', hinside⟩ :=
      hnext.of_accept? hopen ((reaches_readBraced inside).stays hs)
    rw [hopen']
    exact alike_readBraced hinside ht hs

end CodePoint

/-! ## Properties -/

namespace UnicodeProperty

variable {negated : Bool} {close later : Cursor} {p : UnicodeProperty}

/-- The text of a `UnicodeProperty` has words and an equals sign only. -/
theorem Form.exists_reads (h : Form negated a close p) :
    ∃ w, a.Reads w close ∧ ∀ x ∈ w, allows x = true := by
  have hallows : ∀ {word : List Char}, PropertyToken.IsWord word → ∀ x ∈ word, allows x = true :=
    fun hword x hx => by rw [allows, hword.2 x hx, Bool.true_or]
  cases h with
  | value hword hread => exact ⟨_, hread, hallows hword⟩
  | named hname hreadName hoperator hword hread =>
    refine ⟨_, (hreadName.trans hoperator).trans hread, ?_⟩
    have hequals : ∀ x ∈ ['='], allows x = true := forall_mem_of_all (by decide)
    exact List.forall_mem_append.mpr
      ⟨List.forall_mem_append.mpr ⟨hallows hname, hequals⟩, hallows hword⟩

/-- A `UnicodeProperty` that stands at one place stands at the other as well. -/
theorem Form.alike (hp : Form negated a close p) (h : Alike m n s t a b) (hs : s <:+ close.rest) :
    ∃ q close', Form negated b close' q ∧ p.shift m = q.shift n ∧ Alike m n s t close close' := by
  cases hp with
  | value hword hread =>
    obtain ⟨close', hread', hclose⟩ := h.of_reads hread hs
    refine ⟨_, close', .value hword hread', ?_, hclose⟩
    simp only [UnicodeProperty.shift, PropertyToken.shift, h.shift_spanTo hclose, Option.map_none]
  | named hname hreadName hoperator hword hread =>
    have hsOperator := hread.reaches.stays hs
    obtain ⟨afterName', hreadName', hafterName⟩ :=
      h.of_reads hreadName (hoperator.reaches.stays hsOperator)
    obtain ⟨afterOperator', hoperator', hafterOperator⟩ := hafterName.of_reads hoperator hsOperator
    obtain ⟨close', hread', hclose⟩ := hafterOperator.of_reads hread hs
    refine ⟨_, close', .named hname hreadName' hoperator' hword hread', ?_, hclose⟩
    simp only [UnicodeProperty.shift, PropertyToken.shift, PropertyName.shift, Option.map_some,
      h.shift_spanTo hafterName, hafterName.shift_spanTo hafterOperator,
      hafterOperator.shift_spanTo hclose]

/-- A property that is read is read at the other place as well. -/
theorem alike_of_read? (h : Alike m n s t a b) (ha : read? negated a = some (p, later))
    (hs : s <:+ later.rest) :
    ∃ q later', read? negated b = some (q, later') ∧ p.shift m = q.shift n ∧
      Alike m n s t later later' := by
  obtain ⟨close, hp, hclose⟩ := form_of_read? ha
  obtain ⟨q, close', hq, hshift, halike⟩ := hp.alike h (hclose.reaches.stays hs)
  obtain ⟨later', hclose', hlater⟩ := halike.of_reads hclose hs
  exact ⟨q, later', read?_of_form hq hclose', hshift, hlater⟩

/-- Where no property is read, none is read at the other place either. -/
theorem read?_eq_none (h : Alike m n s t a b) (ht : Delimits t) (ha : read? negated a = none) :
    read? negated b = none := by
  cases hb : read? negated b with
  | none => rfl
  | some result =>
    -- a property at the other place has no closers, so it stands at the first place too
    obtain ⟨q, later⟩ := result
    obtain ⟨close, hq, hclose⟩ := form_of_read? hb
    obtain ⟨w, hread, hw⟩ := hq.exists_reads
    have hno : ∀ x ∈ w ++ ['}'], x ∉ closers :=
      List.forall_mem_append.mpr
        ⟨fun x hx => not_mem_closers (by decide) (hw x hx), forall_mem_of_all (by decide)⟩
    obtain ⟨p, later', ha', -⟩ :=
      alike_of_read? h.symm hb (h.stays_of_reads ht (hread.trans hclose) hno)
    rw [ha] at ha'
    cases ha'

end UnicodeProperty

/-! ## Escapes -/

namespace Escaped

variable {inClass : Bool} {body body' later later' : Cursor}

/-- What `named` makes is the same at both places. -/
theorem alike_named (h : Alike m n s t a b) (hl : Alike m n s t later later')
    (kind : EscapeKind) :
    (named a later kind).1.shift m = (named b later' kind).1.shift n ∧
      Alike m n s t (named a later kind).2 (named b later' kind).2 := by
  refine ⟨?_, hl⟩
  rw [named, named, shift, shift, Escape.shift, Escape.shift, h.shift_spanTo hl]

/-- What `bad` makes is the same at both places. -/
theorem alike_bad (h : Alike m n s t a b) (hl : Alike m n s t later later') :
    (bad a later).1.shift m = (bad b later').1.shift n ∧
      Alike m n s t (bad a later).2 (bad b later').2 := by
  refine ⟨?_, hl⟩
  rw [bad, bad, shift, shift, Invalid.shift, Invalid.shift, h.shift_spanTo hl]

/-- A control escape is the same at both places. -/
theorem alike_readControl (h : Alike m n s t a b) (hbody : Alike m n s t body body')
    (ht : Delimits t) (hs : s <:+ (readControl a body).2.rest) :
    (readControl a body).1.shift m = (readControl b body').1.shift n ∧
      Alike m n s t (readControl a body).2 (readControl b body').2 := by
  by_cases hletter : ∃ x r, body.rest = x :: r ∧ isControlLetter x = true
  · obtain ⟨x, r, hrest, hx⟩ := hletter
    have hread : ∀ (c body : Cursor) (r : List Char), body.rest = x :: r →
        readControl c body = named c body.next (.controlLetter x (x.toNat % 32)) := by
      intro c body r hr
      rw [readControl, hr]
      exact if_pos hx
    rw [hread a body r hrest] at hs ⊢
    obtain ⟨⟨r', hrest'⟩, hnext⟩ := hbody.next hrest hs
    rw [hread b body' r' hrest']
    exact alike_named h hnext _
  · -- no letter stands at either place, since closers are none
    have hbad : ∀ c body : Cursor, (∀ x, body.rest.head? = some x → isControlLetter x = false) →
        readControl c body = bad c body := by
      intro c body hno
      unfold readControl
      split
      · rfl
      · rename_i x r hr
        exact if_neg (by simp [hno x (by rw [hr]; rfl)])
    have hno : ∀ x, body.rest.head? = some x → isControlLetter x = false := by
      intro x hx
      obtain ⟨r, hr⟩ := List.head?_eq_some_iff.mp hx
      exact Bool.eq_false_iff.mpr fun hletterx => hletter ⟨x, r, hr, hletterx⟩
    have hno' := hbody.forall_head (ht.forall_head (forall_mem_of_all (by decide))) hno
    rw [hbad a body hno, hbad b body' hno']
    exact alike_bad h hbody

/-- A hexadecimal escape is the same at both places. -/
theorem alike_readHexadecimal (h : Alike m n s t a b) (hbody : Alike m n s t body body')
    (ht : Delimits t) (hs : s <:+ (readHexadecimal a body).2.rest) :
    (readHexadecimal a body).1.shift m = (readHexadecimal b body').1.shift n ∧
      Alike m n s t (readHexadecimal a body).2 (readHexadecimal b body').2 := by
  have hstay : s <:+ (body.past (body.runUpTo 2 isHexDigit)).rest := by
    unfold readHexadecimal at hs
    dsimp only at hs
    split_ifs at hs
    · exact hs
    · exact hs
  obtain ⟨hrun, hpast⟩ := hbody.runUpTo 2 ht (by decide) hstay
  rw [hrun] at hpast
  unfold readHexadecimal
  dsimp only
  rw [hrun]
  split_ifs
  · exact alike_named h hpast _
  · exact alike_bad h hpast

/-- A Unicode escape is the same at both places. -/
theorem alike_readUnicode {r : List Char} (h : Alike m n s t a b)
    (hbody : Alike m n s t body body') (ht : Delimits t) (hu : body.rest = 'u' :: r)
    (hs : s <:+ (readUnicode a body).2.rest) :
    (readUnicode a body).1.shift m = (readUnicode b body').1.shift n ∧
      Alike m n s t (readUnicode a body).2 (readUnicode b body').2 := by
  have hlater : ∀ c body : Cursor, (readUnicode c body).2 = (CodePoint.read body).2 := by
    intro c body
    unfold readUnicode
    split <;> rename_i hread <;> rw [hread] <;> rfl
  rw [hlater] at hs
  obtain ⟨hpoint, halike⟩ := CodePoint.alike_read hbody ht hu hs
  unfold readUnicode
  rcases hreadA : CodePoint.read body with ⟨point, later⟩
  rcases hreadB : CodePoint.read body' with ⟨point', later'⟩
  rw [hreadA, hreadB] at hpoint halike
  obtain rfl : point = point' := hpoint
  cases point with
  | none => exact alike_bad h halike
  | some p => exact alike_named h halike _

/-- A null escape is the same at both places. -/
theorem alike_readNull (h : Alike m n s t a b) (hbody : Alike m n s t body body')
    (ht : Delimits t) (hs : s <:+ (readNull a body).2.rest) :
    (readNull a body).1.shift m = (readNull b body').1.shift n ∧
      Alike m n s t (readNull a body).2 (readNull b body').2 := by
  have hstay : s <:+ (body.past (body.run isDecimalDigit)).rest := by
    unfold readNull at hs
    dsimp only at hs
    split_ifs at hs with hdigits
    · rw [hdigits, Cursor.past_nil]
      exact hs
    · exact hs
  obtain ⟨hrun, hpast⟩ := hbody.run ht (by decide) hstay
  rw [hrun] at hpast
  unfold readNull
  dsimp only
  rw [hrun]
  split_ifs with hdigits
  · exact alike_named h hbody _
  · exact alike_bad h hpast

/-- A property escape is the same at both places. -/
theorem alike_readProperty {negated : Bool} (h : Alike m n s t a b)
    (hbody : Alike m n s t body body') (ht : Delimits t)
    (hs : s <:+ (readProperty negated a body).2.rest) :
    (readProperty negated a body).1.shift m = (readProperty negated b body').1.shift n ∧
      Alike m n s t (readProperty negated a body).2 (readProperty negated b body').2 := by
  unfold readProperty at hs ⊢
  cases hopen : body.accept? '{' with
  | none =>
    rw [hbody.accept?_eq_none ht (by decide) hopen]
    exact alike_bad h hbody
  | some inside =>
    rw [hopen] at hs
    dsimp only at hs ⊢
    cases hread : UnicodeProperty.read? negated inside with
    | none =>
      rw [hread] at hs
      obtain ⟨inside', hopen', hinside⟩ :=
        hbody.of_accept? hopen ((Cursor.reaches_recover _ _ _ inside).stays hs)
      rw [hopen']
      dsimp only
      rw [UnicodeProperty.read?_eq_none hinside ht hread]
      exact alike_bad h (hinside.recover ht (by decide) (by decide) hs)
    | some result =>
      obtain ⟨p, later⟩ := result
      rw [hread] at hs
      obtain ⟨inside', hopen', hinside⟩ :=
        hbody.of_accept? hopen ((UnicodeProperty.reaches_of_read? hread).stays hs)
      obtain ⟨q, later', hread', hshift, halike⟩ := UnicodeProperty.alike_of_read? hinside hread hs
      rw [hopen']
      dsimp only
      rw [hread']
      refine ⟨?_, halike⟩
      simp only [shift, ClassEscape.shift, ClassEscapeKind.shift, h.shift_spanTo halike, hshift]

/-- A backslash sequence takes the character behind the backslash. -/
theorem next_reaches_readBody {x : Char} (c body : Cursor) :
    body.next.Reaches (readBody inClass x c body).2 := by
  unfold readBody
  repeat' split
  · exact .refl _
  · exact reaches_readControl c body.next
  · exact reaches_readHexadecimal c body.next
  · have hread := CodePoint.reaches_read body
    unfold readUnicode
    split <;> rename_i heq <;> rw [heq] at hread <;> exact hread
  · exact reaches_readNull c body.next
  · exact .refl _
  · exact reaches_readProperty _ c body.next
  · exact .refl _
  · exact .refl _

/-- What follows a backslash is the same at both places. -/
theorem alike_readBody {x : Char} {r : List Char} (h : Alike m n s t a b)
    (hbody : Alike m n s t body body') (ht : Delimits t) (hx : body.rest = x :: r)
    (hs : s <:+ (readBody inClass x a body).2.rest) :
    (readBody inClass x a body).1.shift m = (readBody inClass x b body').1.shift n ∧
      Alike m n s t (readBody inClass x a body).2 (readBody inClass x b body').2 := by
  obtain ⟨-, hnext⟩ := hbody.next hx ((next_reaches_readBody a body).stays hs)
  unfold readBody at hs ⊢
  by_cases hspecial : (isSpecialEscape x || (inClass && x == 'b')) = true
  · rw [if_pos hspecial] at hs
    rw [if_pos hspecial, if_pos hspecial]
    exact alike_named h hnext _
  rw [if_neg hspecial] at hs
  rw [if_neg hspecial, if_neg hspecial]
  by_cases hc : x = 'c'
  · rw [if_pos hc] at hs
    rw [if_pos hc, if_pos hc]
    exact alike_readControl h hnext ht hs
  rw [if_neg hc] at hs
  rw [if_neg hc, if_neg hc]
  by_cases hhex : x = 'x'
  · rw [if_pos hhex] at hs
    rw [if_pos hhex, if_pos hhex]
    exact alike_readHexadecimal h hnext ht hs
  rw [if_neg hhex] at hs
  rw [if_neg hhex, if_neg hhex]
  by_cases hu : x = 'u'
  · rw [if_pos hu] at hs
    rw [if_pos hu, if_pos hu]
    exact alike_readUnicode h hbody ht (hu ▸ hx) hs
  rw [if_neg hu] at hs
  rw [if_neg hu, if_neg hu]
  by_cases hzero : x = '0'
  · rw [if_pos hzero] at hs
    rw [if_pos hzero, if_pos hzero]
    exact alike_readNull h hnext ht hs
  rw [if_neg hzero] at hs
  rw [if_neg hzero, if_neg hzero]
  by_cases hset : isClassEscape x = true
  · rw [if_pos hset] at hs
    rw [if_pos hset, if_pos hset]
    refine ⟨?_, hnext⟩
    simp only [shift, ClassEscape.shift, ClassEscapeKind.shift, h.shift_spanTo hnext]
  rw [if_neg hset] at hs
  rw [if_neg hset, if_neg hset]
  by_cases hp : (x = 'p' || x = 'P') = true
  · rw [if_pos hp] at hs
    rw [if_pos hp, if_pos hp]
    exact alike_readProperty h hnext ht hs
  rw [if_neg hp] at hs
  rw [if_neg hp, if_neg hp]
  by_cases hidentity : (isIdentityEscape x || (inClass && isClassIdentityEscape x)) = true
  · rw [if_pos hidentity] at hs
    rw [if_pos hidentity, if_pos hidentity]
    exact alike_named h hnext _
  rw [if_neg hidentity] at hs
  rw [if_neg hidentity, if_neg hidentity]
  exact alike_bad h hnext

/-- A lone backslash at the end of input is cut off, in the sense of `Invalid.IsCutOff`. -/
theorem isCutOff_of_lone {r : List Char} (ha : a.rest = '\\' :: r) (hend : a.next.rest = []) :
    ∃ i ∈ (read inClass a).1.invalids, i.IsCutOff := by
  have hread : read inClass a = bad a a.next := by
    unfold read
    split
    · rfl
    · rename_i x u hx
      rw [hx] at hend
      cases hend
  rw [hread]
  have hpos : a.next.pos = a.pos + 1 := (Cursor.reads_next ha).2
  refine ⟨_, List.mem_singleton.mpr rfl, .inr (.inr ⟨rfl, ?_⟩)⟩
  show a.next.pos - a.pos = 1
  omega

/-- An `Escaped` is the same at both places. -/
theorem alike_read {r : List Char} (h : Alike m n s t a b) (ht : Delimits t)
    (ha : a.rest = '\\' :: r) (hs : s <:+ (read inClass a).2.rest)
    (hu : Uncut s t (read inClass a).1.invalids) :
    (read inClass a).1.shift m = (read inClass b).1.shift n ∧
      Alike m n s t (read inClass a).2 (read inClass b).2 := by
  obtain ⟨-, hnext⟩ := h.next ha ((reaches_read inClass a).stays hs)
  cases hend : a.next.rest with
  | nil =>
    -- nothing follows the backslash, so nothing may follow it at the other place
    have hsnil : s = [] := List.suffix_nil.mp (hend ▸ hnext.stays.1)
    have htnil : t = [] := by
      refine Decidable.byContradiction fun hne => ?_
      obtain ⟨i, hi, hcut⟩ : ∃ i ∈ (read inClass a).1.invalids, i.IsCutOff :=
        isCutOff_of_lone ha hend
      exact hu hsnil hne i hi hcut
    have hend' : b.next.rest = [] := (hnext.rest_of_rest_eq (hend.trans hsnil.symm)).trans htnil
    have hbad : ∀ c : Cursor, c.next.rest = [] → read inClass c = bad c c.next := by
      intro c hc
      unfold read
      split
      · rfl
      · rename_i x u hx
        rw [hx] at hc
        cases hc
    rw [hbad a hend, hbad b hend']
    exact alike_bad h hnext
  | cons x u =>
    have hbody : ∀ (c : Cursor) (u : List Char), c.next.rest = x :: u →
        read inClass c = readBody inClass x c c.next := by
      intro c u hc
      unfold read
      split
      · rename_i hnil
        rw [hnil] at hc
        cases hc
      · rename_i y v hy
        rw [(List.cons.inj (hy.symm.trans hc)).1]
    rw [hbody a u hend] at hs ⊢
    have hstay : s <:+ a.next.next.rest := (next_reaches_readBody a a.next).stays hs
    obtain ⟨⟨u', hend'⟩, -⟩ := hnext.next hend hstay
    rw [hbody b u' hend']
    exact alike_readBody h hnext ht hend hs

end Escaped

end RegexTree
