import RegexTree.Proofs.Alternation
import RegexTree.Proofs.Findings

/-! # Positions
A pattern may be read from any place where a character begins. The main statement says that what
stands before this place counts only by its number of bytes: the body, the events and their wordings
are those of the text behind the place, with every offset moved by this number. -/

namespace RegexTree

/-! ## Cutting behind a text -/

namespace Text

/-- Where the offsets are moved, cutting gives the same part. -/
theorem extract_go₂_add (text : List Char) (n start stop : Nat) :
    String.Pos.Raw.extract.go₂ text ⟨start + n⟩ ⟨stop + n⟩ =
      String.Pos.Raw.extract.go₂ text ⟨start⟩ ⟨stop⟩ := by
  induction text generalizing start with
  | nil => rfl
  | cons x text ih =>
    by_cases h : start = stop
    · subst h
      exact (if_pos rfl).trans (if_pos rfl).symm
    · have hmoved : start + n ≠ stop + n := by omega
      have hnext := ih (start + x.utf8Size)
      rw [Nat.add_right_comm] at hnext
      refine (if_neg (pos_ne hmoved)).trans (Eq.trans ?_ (if_neg (pos_ne h)).symm)
      exact congrArg (x :: ·) hnext

/-- Where the offsets are moved, cutting begins at the same place. -/
theorem extract_go₁_add (text : List Char) (n pos start stop : Nat) :
    String.Pos.Raw.extract.go₁ text ⟨pos + n⟩ ⟨start + n⟩ ⟨stop + n⟩ =
      String.Pos.Raw.extract.go₁ text ⟨pos⟩ ⟨start⟩ ⟨stop⟩ := by
  induction text generalizing pos with
  | nil => rfl
  | cons x text ih =>
    by_cases h : pos = start
    · subst h
      exact (if_pos rfl).trans ((extract_go₂_add _ n pos stop).trans (if_pos rfl).symm)
    · have hmoved : pos + n ≠ start + n := by omega
      have hnext := ih (pos + x.utf8Size)
      rw [Nat.add_right_comm] at hnext
      exact (if_neg (pos_ne hmoved)).trans (hnext.trans (if_neg (pos_ne h)).symm)

/-- What precedes the offsets is passed over. -/
theorem extract_go₁_append (before text : List Char) (pos start stop : Nat) :
    String.Pos.Raw.extract.go₁ (before ++ text) ⟨pos⟩ ⟨start + (pos + byteLength before)⟩
        ⟨stop + (pos + byteLength before)⟩ =
      String.Pos.Raw.extract.go₁ text ⟨0⟩ ⟨start⟩ ⟨stop⟩ := by
  induction before generalizing pos with
  | nil =>
    have h := extract_go₁_add text pos 0 start stop
    rw [Nat.zero_add] at h
    exact h
  | cons x before ih =>
    have hx := Char.utf8Size_pos x
    have hne : pos ≠ start + (pos + byteLength (x :: before)) := by
      rw [byteLength_cons]
      omega
    have hnext := ih (pos + x.utf8Size)
    rw [Nat.add_assoc pos, ← byteLength_cons] at hnext
    exact (if_neg (pos_ne hne)).trans hnext

/-- The `slice` between two offsets is the one between the offsets that are moved behind a text. -/
theorem slice_append (before text : String) (start stop : Nat) :
    slice (before ++ text) (start + before.utf8ByteSize) (stop + before.utf8ByteSize) =
      slice text start stop := by
  have hcut := extract_go₁_append before.toList text.toList 0 start stop
  rw [Nat.zero_add, byteLength_toList] at hcut
  by_cases h : start ≥ stop
  · exact (if_pos (Nat.add_le_add_right h _)).trans (if_pos h).symm
  · have hmoved : ¬ start + before.utf8ByteSize ≥ stop + before.utf8ByteSize := by omega
    refine (if_neg hmoved).trans (Eq.trans ?_ (if_neg h).symm)
    rw [String.toList_append]
    exact congrArg String.ofList hcut

end Text

/-- A moved span marks the same part behind a text. -/
theorem Span.textIn_shift (before text : String) (s : Span) :
    (s.shift before.utf8ByteSize).textIn (before ++ text) = s.textIn text :=
  Text.slice_append before text s.start s.stop

/-! ## Events and findings that are moved -/

/-- The same event with more bytes in front. -/
def Event.shift (n : Nat) : Event → Event
  | invalid i => invalid (i.shift n)
  | unterminatedClass opening => unterminatedClass (opening.shift n)
  | unterminatedGroup opening => unterminatedGroup (opening.shift n)

/-- The wording of an event in the reading of a source, if its offsets count a number of bytes in
front of the source. -/
def Event.messageBehind (n : Nat) (source : String) : Event → String
  | invalid i =>
    "invalid " ++ i.reason.tag ++ " at " ++ (i.span.shift n).display ++ ": " ++
      Text.quoted (i.span.textIn source)
  | unterminatedClass opening => "unterminated class opened at " ++ (opening.shift n).display
  | unterminatedGroup opening => "unterminated group opened at " ++ (opening.shift n).display

/-- The wording of a moved event quotes the text behind what it is moved by
(`Event.messageBehind`). -/
theorem Event.message_shift (before text : String) (e : Event) :
    (e.shift before.utf8ByteSize).message (before ++ text) =
      e.messageBehind before.utf8ByteSize text := by
  cases e with
  | invalid i =>
    -- only the quoted part refers to the source
    exact congrArg
      (fun part => "invalid " ++ i.reason.tag ++ " at " ++
        (i.span.shift before.utf8ByteSize).display ++ ": " ++ Text.quoted part)
      (Span.textIn_shift before text i.span)
  | unterminatedClass opening => rfl
  | unterminatedGroup opening => rfl

/-- The same finding with more bytes in front. -/
def Finding.shift (n : Nat) : Finding → Finding
  | invalid i => invalid (i.shift n)
  | openClass c => openClass (c.shift n)
  | openGroup g => openGroup (g.shift n)

/-- The event of a moved `Finding` is moved. -/
theorem Finding.event_shift (n : Nat) (f : Finding) : (f.shift n).event = f.event.shift n := by
  cases f with
  | openGroup g =>
    obtain ⟨span, opening, body, closing⟩ := g
    rfl
  | _ => rfl

/-- What makes no sense in a moved `ClassAtom` is moved. -/
theorem ClassAtom.invalids_shift (n : Nat) (a : ClassAtom) :
    (a.shift n).invalids = a.invalids.map (·.shift n) := by
  cases a <;> rfl

/-- What makes no sense in a moved member is moved. -/
theorem ClassMember.invalids_shift (n : Nat) (m : ClassMember) :
    (m.shift n).invalids = m.invalids.map (·.shift n) := by
  cases m with
  | atom a => exact a.invalids_shift n
  | range r => simp [shift, ClassRange.shift, invalids, ClassAtom.invalids_shift]

/-- What makes no sense in a moved `GroupKind` is moved. -/
theorem GroupKind.invalids_shift (n : Nat) (kind : GroupKind) :
    (kind.shift n).invalids = kind.invalids.map (·.shift n) := by
  cases kind <;> rfl

/-- The spans that are found are moved. -/
theorem Finding.map_invalid_shift (n : Nat) (is : List Invalid) :
    (is.map (·.shift n)).map invalid = (is.map invalid).map (·.shift n) := by
  rw [List.map_map, List.map_map]
  rfl

/-- The findings in a moved `CharacterClass` are moved. -/
theorem CharacterClass.findings_shift (n : Nat) (c : CharacterClass) :
    (c.shift n).findings = c.findings.map (·.shift n) := by
  have hmembers : (c.members.map (·.shift n)).flatMap (·.invalids) =
      (c.members.flatMap (·.invalids)).map (·.shift n) := by
    rw [List.flatMap_map, List.map_flatMap]
    exact congrArg (c.members.flatMap ·) (funext fun m => m.invalids_shift n)
  have hclosed : (c.shift n).isClosed = c.isClosed := by simp [isClosed, shift]
  rw [findings, findings, hclosed, List.map_append, ← Finding.map_invalid_shift, ← hmembers]
  cases c.isClosed <;> rfl

/-- The findings in a moved `Atom` are moved. -/
theorem Atom.findings_shift (n : Nat) (a : Atom) :
    (a.shift n).findings = a.findings.map (·.shift n) := by
  cases a with
  | characterClass c => exact c.findings_shift n
  | _ => rfl

mutual

/-- The findings in a moved `Disjunction` are moved. -/
theorem Disjunction.findings_shift (n : Nat) :
    (d : Disjunction) → (d.shift n).findings = d.findings.map (·.shift n)
  | ⟨first, others⟩ => by
    rw [Disjunction.shift, Disjunction.findings, Disjunction.findings, List.map_append,
      Alternative.findings_shift n first, Branch.findingsOfAll_shift n others]

/-- The findings behind moved bars are moved. -/
theorem Branch.findingsOfAll_shift (n : Nat) : (others : List Branch) →
    Branch.findingsOfAll (Branch.shiftAll n others) =
      (Branch.findingsOfAll others).map (·.shift n)
  | [] => rfl
  | ⟨bar, alternative⟩ :: others => by
    rw [Branch.shiftAll, Branch.findingsOfAll, Branch.findingsOfAll, List.map_append,
      Alternative.findings_shift n alternative, Branch.findingsOfAll_shift n others]

/-- The findings in a moved alternative are moved. -/
theorem Alternative.findings_shift (n : Nat) :
    (a : Alternative) → (a.shift n).findings = a.findings.map (·.shift n)
  | ⟨span, terms⟩ => by
    rw [Alternative.shift, Alternative.findings, Alternative.findings,
      Term.findingsOfAll_shift n terms]

/-- The findings in moved terms are moved. -/
theorem Term.findingsOfAll_shift (n : Nat) : (terms : List Term) →
    Term.findingsOfAll (Term.shiftAll n terms) = (Term.findingsOfAll terms).map (·.shift n)
  | [] => rfl
  | ⟨element, q⟩ :: terms => by
    rw [Term.shiftAll, Term.findingsOfAll, Term.findingsOfAll, List.map_append,
      Element.findings_shift n element, Term.findingsOfAll_shift n terms]

/-- The findings in a moved element are moved. -/
theorem Element.findings_shift (n : Nat) :
    (e : Element) → (e.shift n).findings = e.findings.map (·.shift n)
  | .atom a => by rw [Element.shift, Element.findings, Element.findings, Atom.findings_shift]
  | .group g => by rw [Element.shift, Element.findings, Element.findings, Group.findings_shift n g]

/-- The findings in a moved group are moved. -/
theorem Group.findings_shift (n : Nat) :
    (g : Group) → (g.shift n).findings = g.findings.map (·.shift n)
  | ⟨span, opening, body, closing⟩ => by
    rw [Group.shift, Group.findings, Group.findings, List.map_append, List.map_append,
      GroupOpening.shift, GroupKind.invalids_shift, Finding.map_invalid_shift,
      Disjunction.findings_shift n body]
    cases closing <;> rfl

end

/-- The invalid span of a moved finding is moved. -/
theorem Finding.diagnostic_shift (n : Nat) (f : Finding) :
    (f.shift n).diagnostic = f.diagnostic.shift n := by
  cases f with
  | openGroup g =>
    obtain ⟨span, opening, body, closing⟩ := g
    rfl
  | _ => rfl

/-- What makes no sense in a moved `Disjunction` is moved. -/
theorem Disjunction.invalids_shift (n : Nat) (d : Disjunction) :
    (d.shift n).invalids = d.invalids.map (·.shift n) := by
  rw [← map_findings, ← map_findings, findings_shift, List.map_map, List.map_map]
  exact List.map_congr_left fun f _ => f.diagnostic_shift n

/-! ## Reading from a place -/

/-- What `ofCursor` reads from a place is the text behind it, moved to this place. -/
theorem Reading.ofCursor_eq (source : String) {text : String} {c : Cursor}
    (hrest : c.rest = text.toList) :
    ofCursor source c =
      ⟨⟨⟨0, source.utf8ByteSize⟩, (Regex.parse text).body.shift c.pos⟩,
        (Regex.events text).map (·.shift c.pos)⟩ := by
  obtain ⟨terms, mid, others, later, h, hshift⟩ := Regex.exists_derives_shift hrest
  have hregex : (ofCursor source c).regex =
      ⟨⟨0, source.utf8ByteSize⟩, (Regex.parse text).body.shift c.pos⟩ := by
    rw [← hshift, ← Assembly.outcome_startingAt h]
    rfl
  have hevents : (ofCursor source c).events = (Regex.events text).map (·.shift c.pos) := by
    rw [events_ofCursor, hregex, Regex.events, ofPattern, events_ofCursor, Regex.findings,
      Disjunction.findings_shift, List.map_map, List.map_map]
    exact List.map_congr_left fun f _ => f.event_shift c.pos
  rw [← hregex, ← hevents]

/-- What is read from an offset where a character begins, or at the end, is what the text behind the
offset is read as: the body and the events are moved by the offset, the root spans the whole source,
and the messages differ from those of the text in their offsets only. -/
theorem Reading.ofOffset?_eq (source : String) (offset : Nat)
    (hvalid : (⟨offset⟩ : String.Pos.Raw).IsValid source) :
    let text := Span.textIn source ⟨offset, source.utf8ByteSize⟩
    ofOffset? source offset =
        some ⟨⟨⟨0, source.utf8ByteSize⟩, (Regex.parse text).body.shift offset⟩,
          (Regex.events text).map (·.shift offset)⟩ ∧
      ((Regex.events text).map (·.shift offset)).map (·.message source) =
        (Regex.events text).map (·.messageBehind offset text) := by
  obtain ⟨before, text, rfl, hoffset⟩ := String.Pos.Raw.isValid_iff_exists_append.mp hvalid
  obtain rfl : offset = before.utf8ByteSize := congrArg String.Pos.Raw.byteIdx hoffset
  have htext :
      Span.textIn (before ++ text) ⟨before.utf8ByteSize, (before ++ text).utf8ByteSize⟩ = text := by
    have hpart := Text.slice_part before.toList text.toList []
    simpa [Span.textIn, String.ofList_append, byteLength_toList] using hpart
  dsimp only
  rw [htext]
  constructor
  · rw [ofOffset?, Cursor.ofString?, String.toList_append, ← byteLength_toList before,
      Cursor.dropBytes?_append, Option.map_some, Option.map_some, ofCursor_eq _ rfl,
      byteLength_toList]
  · rw [List.map_map]
    exact List.map_congr_left fun e _ => e.message_shift before text

/-- Behind a character of two bytes stand a group that is cut off and a bad escape. -/
theorem Reading.ofOffset?_eq_group :
    (⟨2⟩ : String.Pos.Raw).IsValid "é(\\q" ∧
      ofOffset? "é(\\q" 2 =
          some ⟨⟨⟨0, 5⟩, (Regex.parse "(\\q").body.shift 2⟩,
            (Regex.events "(\\q").map (·.shift 2)⟩ ∧
        ((Regex.events "(\\q").map (·.shift 2)).map (·.message "é(\\q") =
          (Regex.events "(\\q").map (·.messageBehind 2 "(\\q") := by
  have hvalid : (⟨2⟩ : String.Pos.Raw).IsValid "é(\\q" :=
    String.Pos.Raw.isValid_iff_exists_append.mpr ⟨"é", "(\\q", by decide, by decide⟩
  have htext : Span.textIn "é(\\q" ⟨2, "é(\\q".utf8ByteSize⟩ = "(\\q" := by decide +kernel
  have h := ofOffset?_eq "é(\\q" 2 hvalid
  dsimp only at h
  rw [htext] at h
  exact ⟨hvalid, h⟩

end RegexTree
