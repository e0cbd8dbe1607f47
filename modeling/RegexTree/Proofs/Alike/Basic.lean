import RegexTree.Proofs.Places

/-! # Places that look alike
Two places look alike as far as a common text stands at both; what follows this text may differ, and
so may the offsets. A reader that stays within the common text at the one place does the same at the
other, if what follows there delimits what is before it. The relation is `Cursor.Alike`, and the
other text must be one that `Delimits`. The main statements say this of the steps that all readers
are made of, from `Cursor.Alike.next` to `Cursor.Alike.recover`. -/

namespace RegexTree

/-! ## Texts that delimit what is before them -/

/-- The characters that end whatever stands before them, outside of classes. -/
def closers : List Char := [')', ']', '|']

/-- The text is empty or begins with one of the `closers`. -/
def Delimits (t : List Char) : Prop := ∀ x, t.head? = some x → x ∈ closers

/-- The empty text delimits. -/
theorem Delimits.nil : Delimits [] := by
  intro x hx
  cases hx

/-- A text delimits if its first character does. -/
theorem Delimits.cons {x : Char} (hx : x ∈ closers) (t : List Char) : Delimits (x :: t) := by
  intro y hy
  exact Option.some.inj hy ▸ hx

/-- What holds of all `closers` holds of the first character of a text that delimits. -/
theorem Delimits.forall_head {P : Char → Prop} {t : List Char} (h : Delimits t)
    (hP : ∀ x ∈ closers, P x) : ∀ x, t.head? = some x → P x := by
  intro x hx
  exact hP x (h x hx)

/-- A character of a kind to which no closer belongs is no closer. -/
theorem not_mem_closers {p : Char → Bool} (hp : closers.all (!p ·) = true) {x : Char}
    (hx : p x = true) : x ∉ closers := by
  intro hmem
  have hno := List.all_eq_true.mp hp x hmem
  simp [hx] at hno

namespace Cursor

/-! ## Staying within a text -/

/-- Whoever stays before a text at a later place has stayed before it at an earlier one. -/
theorem Reaches.stays {a b : Cursor} {s : List Char} (h : a.Reaches b) (hs : s <:+ b.rest) :
    s <:+ a.rest :=
  hs.trans h.suffix

/-! ## What a malformed construct runs over -/

/-- No closer is skipped in a malformed construct (`Cursor.isSkippable`). -/
theorem not_isSkippable (closer : Char) (escapes : Bool) :
    closers.all (!isSkippable closer escapes ·) = true := by
  have hreserved : ∀ x ∈ closers, isPatternChar x = false ∧ x ≠ '\\' :=
    forall_mem_of_all (by decide)
  refine List.all_eq_true.mpr fun x hx => ?_
  simp [isSkippable, hreserved x hx]

/-- Up to the closing character that `pastCloser?` finds everything can be skipped. -/
theorem reads_of_pastCloser? {closer : Char} {escapes : Bool} {a b : Cursor}
    (h : a.pastCloser? closer escapes = some b) :
    ∃ w, (∀ x ∈ w, isSkippable closer escapes x = true) ∧ a.Reads (w ++ [closer]) b :=
  ⟨_, fun _ hx => of_mem_run hx, (reads_run _ a).trans (reads_of_accept? h)⟩

/-- Where everything up to a closing character can be skipped, the place after it is found. -/
theorem pastCloser?_of_reads {closer : Char} {escapes : Bool} {w : List Char} {a b : Cursor}
    (hw : ∀ x ∈ w, isSkippable closer escapes x = true) (h : a.Reads (w ++ [closer]) b) :
    a.pastCloser? closer escapes = some b := by
  obtain ⟨close, hread, hclose⟩ := reads_append_iff.mp h
  have hrun : a.run (isSkippable closer escapes) = w :=
    run_of_rest hread.1 hw (hclose.forall_head (by simp [isSkippable]))
  have hpast : a.past w = close := (reads_past ⟨close.rest, hread.1.symm⟩).unique hread
  rw [pastCloser?, hrun, hpast, accept?_of_head hclose.1, hclose.eq_next]

/-! ## Places that look alike -/

/-- The same text stands at both places, before the one text at the first and before the other text
at the second, and the offsets differ as the two numbers do. -/
structure Alike (m n : Nat) (s t : List Char) (a b : Cursor) : Prop where
  /-- The offsets become equal when each is moved by its number. -/
  pos_eq : a.pos + m = b.pos + n
  /-- The same text stands at both. -/
  rest_eq : ∃ u, a.rest = u ++ s ∧ b.rest = u ++ t

namespace Alike

variable {m n : Nat} {s t : List Char} {a b a₂ b₂ : Cursor}

/-- Looking alike does not depend on the order. -/
protected theorem symm (h : Alike m n s t a b) : Alike n m t s b a := by
  obtain ⟨hpos, u, ha, hb⟩ := h
  exact ⟨hpos.symm, u, hb, ha⟩

/-- Places that look alike have the texts ahead that follow the common one. -/
theorem stays (h : Alike m n s t a b) : s <:+ a.rest ∧ t <:+ b.rest := by
  obtain ⟨-, u, ha, hb⟩ := h
  exact ⟨⟨u, ha.symm⟩, ⟨u, hb.symm⟩⟩

/-- The spans between places that look alike are the same span, moved. -/
theorem shift_spanTo (h : Alike m n s t a b) (h₂ : Alike m n s t a₂ b₂) :
    (a.spanTo a₂).shift m = (b.spanTo b₂).shift n := by
  rw [spanTo, spanTo, Span.shift, Span.shift, h.pos_eq, h₂.pos_eq]

/-- At the end of the common text the other place is there as well. -/
theorem rest_of_rest_eq (h : Alike m n s t a b) (ha : a.rest = s) : b.rest = t := by
  obtain ⟨-, u, hu, hb⟩ := h
  have hnil : u = [] := List.append_left_eq_self.mp (hu.symm.trans ha)
  rw [hb, hnil, List.nil_append]

/-- A text that is read within the common one is read at the other place as well. -/
theorem of_reads {w : List Char} (h : Alike m n s t a b) (hr : a.Reads w a₂) (hs : s <:+ a₂.rest) :
    ∃ b₂, b.Reads w b₂ ∧ Alike m n s t a₂ b₂ := by
  obtain ⟨hpos, u, ha, hb⟩ := h
  obtain ⟨v, hv⟩ := hs
  have hu : u = w ++ v := by
    refine (List.append_left_inj s).mp ?_
    rw [← ha, hr.1, ← hv, List.append_assoc]
  refine ⟨⟨b.pos + byteLength w, v ++ t⟩, ⟨?_, rfl⟩, ?_, v, hv.symm, rfl⟩
  · rw [hb, hu, List.append_assoc]
  · rw [hr.2]
    show a.pos + byteLength w + m = b.pos + byteLength w + n
    omega

/-- A text that is read at the other place is the same text, and ends where the places look
alike. -/
theorem of_reads_both {w : List Char} (h : Alike m n s t a b) (ha : a.Reads w a₂)
    (hb : b.Reads w b₂) (hs : s <:+ a₂.rest) : Alike m n s t a₂ b₂ := by
  obtain ⟨b₃, hb₃, halike⟩ := h.of_reads ha hs
  rw [hb.unique hb₃]
  exact halike

/-- What holds of the next character and of the first one behind the common text holds of the next
character at the other place. -/
theorem forall_head {P : Char → Prop} (h : Alike m n s t a b) (ht : ∀ x, t.head? = some x → P x)
    (ha : ∀ x, a.rest.head? = some x → P x) :
    ∀ x, b.rest.head? = some x → P x := by
  obtain ⟨-, u, hu, hv⟩ := h
  intro x hx
  rw [hv] at hx
  cases u with
  | nil => exact ht x hx
  | cons y u => exact ha x (by rw [hu]; exact hx)

/-- A text without `closers` cannot end beyond the common text. -/
theorem stays_of_reads {w : List Char} (h : Alike m n s t a b) (ht : Delimits t)
    (hr : b.Reads w b₂) (hw : ∀ x ∈ w, x ∉ closers) : t <:+ b₂.rest := by
  obtain ⟨-, u, -, hv⟩ := h
  have happend : w ++ b₂.rest = u ++ t := hr.1.symm.trans hv
  rcases List.append_eq_append_iff.mp happend with ⟨v, -, hrest⟩ | ⟨v, hwv, hrest⟩
  · exact ⟨v, hrest.symm⟩
  · -- the text would go on with the first character behind the common text
    cases v with
    | nil => exact ⟨[], hrest⟩
    | cons x v =>
      have hx : x ∈ closers := ht x (by rw [hrest]; rfl)
      exact absurd hx (hw x (by rw [hwv]; simp))

/-- The common text may be taken to end at any place within it. -/
theorem narrow (h : Alike m n s t a b) (hr : a.Reaches a₂) (hs : s <:+ a₂.rest) :
    ∃ v, a₂.rest = v ++ s ∧ Alike m n (v ++ s) (v ++ t) a b := by
  obtain ⟨w, hw⟩ := hr
  obtain ⟨b₂, hb, halike⟩ := h.of_reads hw hs
  obtain ⟨-, v, hv, hv'⟩ := halike
  refine ⟨v, hv, h.pos_eq, w, ?_, ?_⟩
  · rw [hw.1, hv]
  · rw [hb.1, hv']

/-- The common text may be taken to go on as long as what follows is the same. -/
theorem widen {v : List Char} (h : Alike m n (v ++ s) (v ++ t) a b) : Alike m n s t a b := by
  obtain ⟨hpos, u, ha, hb⟩ := h
  exact ⟨hpos, u ++ v, by rw [ha, List.append_assoc], by rw [hb, List.append_assoc]⟩

/-! ## Steps -/

/-- A character that is taken within the common text is taken at the other place as well. -/
theorem next {x : Char} {r : List Char} (h : Alike m n s t a b) (ha : a.rest = x :: r)
    (hs : s <:+ a.next.rest) : (∃ r', b.rest = x :: r') ∧ Alike m n s t a.next b.next := by
  obtain ⟨b₂, hb, halike⟩ := h.of_reads (reads_next ha) hs
  rw [hb.eq_next] at halike
  exact ⟨⟨_, hb.1⟩, halike⟩

/-- An expected character is accepted at the other place as well. -/
theorem of_accept? {x : Char} (h : Alike m n s t a b) (ha : a.accept? x = some a₂)
    (hs : s <:+ a₂.rest) : ∃ b₂, b.accept? x = some b₂ ∧ Alike m n s t a₂ b₂ := by
  obtain ⟨b₂, hb, halike⟩ := h.of_reads (reads_of_accept? ha) hs
  refine ⟨b₂, ?_, halike⟩
  rw [hb.eq_next]
  exact accept?_of_head hb.1

/-- A character that is not accepted is not accepted at the other place either. -/
theorem accept?_eq_none {x : Char} (h : Alike m n s t a b) (ht : Delimits t) (hx : x ∉ closers)
    (ha : a.accept? x = none) : b.accept? x = none := by
  refine Cursor.accept?_eq_none fun hb => ?_
  have hne : ∀ y, b.rest.head? = some y → y ≠ x := by
    refine h.forall_head (ht.forall_head fun y hy => ?_) fun y hy => ?_
    · rintro rfl
      exact hx hy
    · rintro rfl
      exact head_ne_of_accept? ha hy
  exact hne x hb rfl

/-- An optional character is skipped at both places or at neither. -/
theorem skipOptional {x : Char} (h : Alike m n s t a b) (ht : Delimits t) (hx : x ∉ closers)
    (hs : s <:+ (a.skipOptional x).2.rest) :
    (a.skipOptional x).1.map (·.shift m) = (b.skipOptional x).1.map (·.shift n) ∧
      Alike m n s t (a.skipOptional x).2 (b.skipOptional x).2 := by
  unfold Cursor.skipOptional at hs ⊢
  cases ha : a.accept? x with
  | none =>
    rw [h.accept?_eq_none ht hx ha]
    exact ⟨rfl, h⟩
  | some later =>
    rw [ha] at hs
    obtain ⟨b₂, hb, halike⟩ := h.of_accept? ha hs
    rw [hb]
    exact ⟨congrArg some (h.shift_spanTo halike), halike⟩

/-! ## Runs -/

/-- A run of characters that are no closers is the same at the other place. -/
theorem run {p : Char → Bool} (h : Alike m n s t a b) (ht : Delimits t)
    (hp : closers.all (!p ·) = true) (hs : s <:+ (a.past (a.run p)).rest) :
    b.run p = a.run p ∧ Alike m n s t (a.past (a.run p)) (b.past (b.run p)) := by
  obtain ⟨b₂, hb, halike⟩ := h.of_reads (reads_run p a) hs
  have hclosers : ∀ x ∈ closers, p x = false := fun x hx => by
    simpa using List.all_eq_true.mp hp x hx
  have hend : ∀ x, b₂.rest.head? = some x → p x = false :=
    halike.forall_head (ht.forall_head hclosers) fun x hx => head_past_run hx
  have hrun : b.run p = a.run p := run_of_rest hb.1 (fun x hx => of_mem_run hx) hend
  have hpast : b.past (b.run p) = b₂ := by
    rw [hrun]
    exact (reads_past ⟨b₂.rest, hb.1.symm⟩).unique hb
  rw [hpast]
  exact ⟨hrun, halike⟩

/-- A run of limited length is the same at the other place. -/
theorem runUpTo {p : Char → Bool} (limit : Nat) (h : Alike m n s t a b) (ht : Delimits t)
    (hp : closers.all (!p ·) = true) (hs : s <:+ (a.past (a.runUpTo limit p)).rest) :
    b.runUpTo limit p = a.runUpTo limit p ∧
      Alike m n s t (a.past (a.runUpTo limit p)) (b.past (b.runUpTo limit p)) := by
  obtain ⟨b₂, hb, halike⟩ := h.of_reads (reads_runUpTo limit p a) hs
  have hall : ∀ x ∈ a.runUpTo limit p, p x = true := fun x hx => of_mem_runUpTo hx
  -- a run of limited length is the beginning of the whole run
  have htake : ∀ c : Cursor, c.runUpTo limit p = (c.run p).take limit := fun c =>
    (List.take_takeWhile ..).symm
  have hrun : b.runUpTo limit p = a.runUpTo limit p := by
    by_cases hlength : (a.runUpTo limit p).length = limit
    · exact runUpTo_of_rest hb.1 hlength hall
    · have hle := length_runUpTo_le limit p a
      have hwhole : a.runUpTo limit p = a.run p := by
        rw [htake] at hle hlength ⊢
        refine List.take_of_length_le ?_
        rw [List.length_take] at hle hlength
        omega
      rw [hwhole] at hs ⊢
      rw [htake, (h.run ht hp hs).1, ← hwhole]
      exact List.take_of_length_le hle
  have hpast : b.past (b.runUpTo limit p) = b₂ := by
    rw [hrun]
    exact (reads_past ⟨b₂.rest, hb.1.symm⟩).unique hb
  rw [hpast]
  exact ⟨hrun, halike⟩

/-! ## Recovery -/

/-- Where `pastCloser?` finds a closing character, it finds it at the other place as well. -/
theorem of_pastCloser? {closer : Char} {escapes : Bool} (h : Alike m n s t a b)
    (ha : a.pastCloser? closer escapes = some a₂) (hs : s <:+ a₂.rest) :
    ∃ b₂, b.pastCloser? closer escapes = some b₂ ∧ Alike m n s t a₂ b₂ := by
  obtain ⟨w, hw, hr⟩ := reads_of_pastCloser? ha
  obtain ⟨b₂, hb, halike⟩ := h.of_reads hr hs
  exact ⟨b₂, pastCloser?_of_reads hw hb, halike⟩

/-- What `recover` makes of a malformed construct ends at places that look alike. -/
theorem recover {closer : Char} {escapes : Bool} {belongs : Char → Bool} (h : Alike m n s t a b)
    (ht : Delimits t) (hcloser : closer ∉ closers) (hbelongs : closers.all (!belongs ·) = true)
    (hs : s <:+ (a.recover closer escapes belongs).rest) :
    Alike m n s t (a.recover closer escapes belongs) (b.recover closer escapes belongs) := by
  unfold Cursor.recover at hs ⊢
  cases ha : a.pastCloser? closer escapes with
  | some later =>
    rw [ha] at hs
    obtain ⟨b₂, hb, halike⟩ := h.of_pastCloser? ha hs
    rw [hb]
    exact halike
  | none =>
    rw [ha] at hs
    cases hb : b.pastCloser? closer escapes with
    | none => exact (h.run ht hbelongs hs).2
    | some later =>
      -- what is skipped at the other place has no closers, so it stands at the first place too
      obtain ⟨w, hw, hr⟩ := reads_of_pastCloser? hb
      have hno : ∀ x ∈ w ++ [closer], x ∉ closers := by
        refine List.forall_mem_append.mpr ⟨fun x hx => ?_, by simpa using hcloser⟩
        exact not_mem_closers (not_isSkippable closer escapes) (hw x hx)
      obtain ⟨a₂, ha₂, -⟩ := h.symm.of_pastCloser? hb (h.stays_of_reads ht hr hno)
      rw [ha] at ha₂
      cases ha₂

end Alike

end Cursor

end RegexTree
