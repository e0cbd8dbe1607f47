import RegexTree.Proofs.Prefix.Cut
import RegexTree.Proofs.Repair.Derivation

/-! # Terms that are cut
Where a pattern is cut inside of a term, the reader finds another term, or another beginning of one,
in its place. The main statements, `CharacterClass.exists_resumes`, `Resumable.of_atom` and
`Resumable.of_quantifier`, say where the unfinished part begins, and that what is finished before it
is read again. -/

namespace RegexTree

open Cursor (Alike)

variable {a c cut later : Cursor}

/-! ## Kinds of nodes that do not stay what they are -/

namespace Node

/-- An escaped character is no container (`NodeKind.isContainer`). -/
theorem isContainer_ofEscape (e : Escape) : (ofEscape e).kind.isContainer = false := by
  obtain ⟨span, kind⟩ := e
  cases kind with
  | unicode p => obtain ⟨value, _ | _⟩ := p <;> rfl
  | _ => rfl

/-- An escaped set of characters is no container. -/
theorem isContainer_ofClassEscape (e : ClassEscape) :
    (ofClassEscape e).kind.isContainer = false := by
  obtain ⟨span, kind⟩ := e
  cases kind <;> rfl

/-- A member of a class is no container. -/
theorem isContainer_ofClassMember (m : ClassMember) :
    (ofClassMember m).kind.isContainer = false := by
  cases m with
  | range r => rfl
  | atom a =>
    cases a with
    | escape e => exact isContainer_ofEscape e
    | classEscape e => exact isContainer_ofClassEscape e
    | _ => rfl

/-- Of the nodes of atoms only classes are containers. -/
theorem isContainer_ofAtom {a : Atom} (h : ∀ s, a ≠ .characterClass s) :
    (ofAtom a).kind.isContainer = false := by
  cases a with
  | characterClass s => exact absurd rfl (h s)
  | assertion span kind => cases kind <;> rfl
  | escape e => exact isContainer_ofEscape e
  | classEscape e => exact isContainer_ofClassEscape e
  | backreference b => cases b <;> rfl
  | _ => rfl

/-- A quantifier is no container. -/
theorem isContainer_ofQuantifier (q : Quantifier) :
    (ofQuantifier q).kind.isContainer = false := by
  obtain ⟨kind, operator, mark⟩ := q
  cases kind <;> rfl

end Node

/-! ## Classes -/

namespace CharacterClass

/-- The nodes of `readMembers` tile what it reads. -/
theorem tiles_readMembers (c : Cursor) :
    Node.Tiles c ((readMembers c).1.map Node.ofClassMember) (readMembers c).2 :=
  Node.tiles_map_ofClassMember (members_of_readMembers c).1

/-- Members that are cut are resumed. -/
theorem resumes_readMembers (h : Alike 0 0 cut.rest [] a c) (ha : a.Reaches cut)
    (hcut : cut.Reaches (readMembers a).2)
    (hvalid : (readMembers a).1.flatMap (·.invalids) = []) :
    ∃ e, e ≤ (readMembers c).2.pos ∧
      Node.Resumes cut.pos e ((readMembers a).1.map Node.ofClassMember)
        ((readMembers c).1.map Node.ofClassMember) := by
  fun_induction readMembers a generalizing c with
  | case1 a hrest =>
    exact Node.Resumes.exists_of_cut .nil (tiles_readMembers c) h ha hcut.pos_le
  | case2 a text hrest =>
    exact Node.Resumes.exists_of_cut .nil (tiles_readMembers c) h ha hcut.pos_le
  | case3 a x text hrest hx members later hread ih =>
    have hmember := Node.tiles_ofClassMember (ClassMember.takes_read hrest hx)
    have hmembers := tiles_readMembers (ClassMember.read x a).2
    rw [hread] at hmembers ih
    have hreach : a.Reaches (ClassMember.read x a).2 := hmember.reaches
    rw [List.flatMap_cons, List.append_eq_nil_iff] at hvalid
    by_cases hnext : (ClassMember.read x a).2.pos ≤ cut.pos
    · -- the first member is read again, and the others are cut
      have hcutReach := hreach.of_pos_le ha hnext
      obtain ⟨hshift, halike⟩ := ClassMember.alike_read h .nil hrest hcutReach.suffix
        (by rw [hvalid.1]; exact Uncut.nil _ _)
      rw [ClassMember.shift_zero, ClassMember.shift_zero] at hshift
      obtain ⟨e, he, hresumes⟩ := ih halike hcutReach hcut hvalid.2
      obtain ⟨⟨text', hrest'⟩, -⟩ :=
        h.next hrest ((ClassMember.reaches_read x a).trans hcutReach).suffix
      rw [readMembers_of_rest hrest' hx, ← hshift]
      have hnone : Node.invalidsOfAll [Node.ofClassMember (ClassMember.read x a).1] = [] := by
        have hmap := Node.invalidsOfAll_map_ofClassMember [(ClassMember.read x a).1]
        rwa [List.flatMap_singleton, hvalid.1] at hmap
      exact ⟨e, he, hresumes.prepend hnone⟩
    · exact Node.Resumes.exists_of_node hmember (Node.isContainer_ofClassMember _) hmembers
        (tiles_readMembers c) h ha (Nat.lt_of_not_le hnext)

/-- The nodes of a class behind its opening bracket. -/
def behindOpening (s : CharacterClass) : List Node :=
  (s.negation.map (Node.leaf .setNegation)).toList ++ (s.members.map Node.ofClassMember ++
    [Node.ofClosing .setEnd .unterminatedClass s.span.stop s.closing])

/-- The node of a class has a leaf for its opening bracket and the nodes behind it
(`behindOpening`). -/
theorem ofCharacterClass_eq (s : CharacterClass) : Node.ofCharacterClass s =
    .branch .characterClass s.span (.leaf .setBegin s.opening :: s.behindOpening) := by
  rw [Node.ofCharacterClass, List.cons_append, List.cons_append, List.append_assoc]
  rfl

/-- The nodes of a negation that is read tile it. -/
theorem tiles_negation (c : Cursor) :
    Node.Tiles c ((c.skipOptional '^').1.map (Node.leaf .setNegation)).toList
      (c.skipOptional '^').2 :=
  Node.tiles_optional rfl (Cursor.skips_skipOptional '^' c)

/-- The node of a closing bracket that is read tiles it, and so does what stands in for it. -/
theorem tiles_closing (c : Cursor) :
    Node.Tiles (afterMembers c)
      [Node.ofClosing .setEnd .unterminatedClass (read c).2.pos (read c).1.closing] (read c).2 :=
  Node.tiles_ofClosing rfl (Cursor.skips_skipOptional ']' (afterMembers c))

/-- The nodes behind an opening bracket tile what is read behind it. -/
theorem tiles_behindOpening (c : Cursor) :
    Node.Tiles c.next (read c).1.behindOpening (read c).2 :=
  (tiles_negation c.next).append ((tiles_readMembers _).append (tiles_closing c))

/-- A class that is cut behind its opening bracket is resumed with the members before the cut
(`Node.Resumes`). -/
theorem resumes_behindOpening (h : Alike 0 0 cut.rest [] a.next c.next) (ha : a.next.Reaches cut)
    (hvalid : (read a).1.members.flatMap (·.invalids) = []) (hlt : cut.pos < (read a).2.pos) :
    ∃ e, e ≤ (read c).2.pos ∧
      Node.Resumes cut.pos e (read a).1.behindOpening (read c).1.behindOpening := by
  by_cases hle : cut.pos ≤ a.next.pos
  · exact Node.Resumes.exists_of_cut (tiles_behindOpening a) (tiles_behindOpening c) h ha hle
  have hstart : (a.next.skipOptional '^').2.Reaches cut :=
    (Cursor.skips_skipOptional '^' a.next).reaches_of_pos_lt ha (Nat.lt_of_not_le hle)
  have hstop : cut.pos ≤ (afterMembers a).pos := by
    -- behind the members there is at most the closing bracket
    refine Nat.le_of_not_lt fun hbehind => ?_
    have hreach := (next_reaches_afterMembers a).of_pos_le ha (Nat.le_of_lt hbehind)
    have hclosing := Cursor.skips_skipOptional ']' (afterMembers a)
    exact Nat.not_le_of_lt hlt (hclosing.reaches_of_pos_lt hreach hbehind).pos_le
  obtain ⟨hnegation, hmembersAlike⟩ := h.skipOptional .nil (by decide) hstart.suffix
  have hcut := ha.of_pos_le (next_reaches_afterMembers a) hstop
  obtain ⟨e, he, hmembers⟩ := resumes_readMembers hmembersAlike hstart hcut hvalid
  have hrest := hmembers.append (tiles_closing a)
    (Nat.le_trans hmembers.start.le_offset hstop) (tiles_closing c) he
  have hvalidNegation : Node.invalidsOfAll
      ((a.next.skipOptional '^').1.map (Node.leaf .setNegation)).toList = [] := by
    cases (a.next.skipOptional '^').1 <;> simp
  simp only [Span.shift_zero, Option.map_id'] at hnegation
  refine ⟨e, Nat.le_trans he (Cursor.reaches_skipOptional ']' _).pos_le, ?_⟩
  show Node.Resumes cut.pos e (((a.next.skipOptional '^').1.map _).toList ++ _)
    (((c.next.skipOptional '^').1.map _).toList ++ _)
  rw [← hnegation]
  exact hrest.prepend hvalidNegation

/-- A class that is cut is resumed with the members before the cut. -/
theorem exists_resumes {r : List Char} (h : Alike 0 0 cut.rest [] a c) (hrest : a.rest = '[' :: r)
    (hvalid : (read a).1.members.flatMap (·.invalids) = []) (ha : a.Reaches cut)
    (hstart : a.pos < cut.pos) (hlt : cut.pos < (read a).2.pos) :
    ∃ e, e ≤ (read c).2.pos ∧
      Node.Resumes cut.pos e [Node.ofCharacterClass (read a).1]
        [Node.ofCharacterClass (read c).1] := by
  have hinside := (Cursor.reads_next hrest).reaches_of_pos_lt ha hstart
  obtain ⟨-, hnext⟩ := h.next hrest hinside.suffix
  obtain ⟨e, he, hresumes⟩ := resumes_behindOpening hnext hinside hvalid hlt
  have hopening : (read a).1.opening = (read c).1.opening := h.shift_spanTo hnext
  have hbegin : Node.invalidsOfAll [Node.leaf .setBegin (read c).1.opening] = [] := by simp
  refine ⟨e, he, ?_⟩
  rw [ofCharacterClass_eq, ofCharacterClass_eq, hopening]
  exact (hresumes.prepend hbegin).branch _ (by decide) _ _

end CharacterClass

/-! ## What is derived in place of what is cut -/

/-- Where the pattern is cut, what is derived from a place stands in for some trees. -/
def Resumable (nested first : Bool) (c : Cursor) (offset : Nat) (ns : List Node) : Prop :=
  ∃ e terms mid others later, Derives nested first c terms mid others later ∧ e ≤ later.pos ∧
    Node.Resumes offset e ns (Node.ofTerms terms ++ Node.ofBranches others)

/-- The nodes of what is derived tile it. -/
theorem Derives.tiles_append {nested first : Bool} {mid : Cursor} {terms : List Term}
    {others : List Branch} (h : Derives nested first c terms mid others later) :
    Node.Tiles c (Node.ofTerms terms ++ Node.ofBranches others) later :=
  h.tiles.1.append h.tiles.2

namespace Resumable

variable {nested first : Bool} {middle next : Cursor} {s t : List Char} {ns : List Node}

/-- Where the pattern is cut, anything may be derived. -/
theorem of_cut (h : Node.Tiles a ns later) (halike : Alike 0 0 s t a c) (ha : a.Reaches cut)
    (hle : cut.pos ≤ a.pos) : Resumable nested first c cut.pos ns := by
  obtain ⟨terms, mid, others, later', hd⟩ := exists_derives nested first c
  obtain ⟨e, he, hresumes⟩ := Node.Resumes.exists_of_cut h hd.tiles_append halike ha hle
  exact ⟨e, terms, mid, others, later', hd, he, hresumes⟩

/-- What is resumed in a term is resumed with anything behind the term. -/
theorem of_term {u u' : Term} {e : Nat} {next' : Cursor}
    (hu : Node.Resumes cut.pos e (Node.ofTerm u) (Node.ofTerm u'))
    (hns : Node.Tiles next ns later) (he : e ≤ next.pos)
    (hstands : u'.StandsAt nested first c next') (he' : e ≤ next'.pos) :
    Resumable nested first c cut.pos (Node.ofTerm u ++ ns) := by
  obtain ⟨terms, mid, others, later', hd⟩ := exists_derives nested false next'
  refine ⟨e, u' :: terms, mid, others, later', hstands.derives hd,
    Nat.le_trans he' hd.reaches_later.pos_le, ?_⟩
  rw [Node.ofTerms_cons, List.append_assoc]
  exact hu.append hns he hd.tiles_append he'

/-- A term whose quantifier is cut is resumed with its element. -/
theorem of_quantifier {el : Element} {q q' : Option Quantifier} {middle' next' : Cursor}
    (hvalid : el.invalids = []) (hq : Quantifier.Follows middle next q)
    (hns : Node.Tiles next ns later) (hcut : middle.Reaches cut) (hlt : cut.pos < next.pos)
    (halike : Alike 0 0 s t middle middle') (hq' : Quantifier.Follows middle' next' q')
    (hstands : Term.StandsAt nested first c next' ⟨el, q'⟩) :
    Resumable nested first c cut.pos (Node.ofTerm ⟨el, q⟩ ++ ns) := by
  have hnone : Node.invalidsOfAll [Node.ofElement el] = [] := by
    rw [Node.invalidsOfAll_ofElement, hvalid]
    rfl
  have htiles := Node.tiles_quantifier hq
  have htiles' := Node.tiles_quantifier hq'
  cases q with
  | none =>
    cases hq with
    | absent => exact absurd hcut.pos_le (Nat.not_le_of_lt hlt)
  | some q =>
    obtain ⟨e, he', hresumes⟩ := Node.Resumes.exists_of_node htiles
      (Node.isContainer_ofQuantifier q) .nil htiles' halike hcut hlt
    exact of_term (hresumes.prepend hnone) hns
      (Nat.le_trans hresumes.start.le_offset (Nat.le_of_lt hlt)) hstands he'

/-- An `Atom` that is cut is resumed: as nothing, or with its finished members if it is a class. -/
theorem of_atom {A : Atom} {q : Option Quantifier} (hread : Lexeme.ReadAt a next (.atom A q))
    (hvalid : A.invalids = []) (hns : Node.Tiles next ns later) (h : Alike 0 0 cut.rest [] a c)
    (ha : a.Reaches cut) (hstart : a.pos < cut.pos) (hlt : cut.pos < next.pos) :
    Resumable nested first c cut.pos (Node.ofTerm ⟨.atom A, q⟩ ++ ns) := by
  obtain ⟨x, r, hrest, hx, rfl, rfl, rfl⟩ := hread.eq_read_atom
  have hinside := (Cursor.reads_next hrest).reaches_of_pos_lt ha hstart
  obtain ⟨⟨r', hrest'⟩, -⟩ := h.next hrest hinside.suffix
  have hmiddle : a.Reaches (Atom.read x a).2 := a.reaches_next.trans (Atom.reaches_read x a)
  have hfollows := Quantifier.follows_readOptional (Atom.read x a).2
  have hfollows' := Quantifier.follows_readOptional (Atom.read x c).2
  have hread' : Lexeme.ReadAt c _ _ := ⟨x, r', hrest', Lexeme.read_atom hrest' hx⟩
  have hatom := Node.tiles_ofAtom (Atom.takes_read hrest hx)
  by_cases hle : (Atom.read x a).2.pos ≤ cut.pos
  · have hcut := hmiddle.of_pos_le ha hle
    obtain ⟨hshift, halike⟩ := Atom.alike_read h .nil hrest hcut.suffix
      (by rw [hvalid]; exact Uncut.nil _ _)
    rw [Atom.shift_zero, Atom.shift_zero] at hshift
    refine of_quantifier (by rw [Element.invalids, hvalid]) hfollows hns hcut hlt halike hfollows'
      (.lexeme hread' ?_)
    rw [Lexeme.term?, hshift]
  · have hltAtom := Nat.lt_of_not_le hle
    by_cases hclass : x = '['
    · subst hclass
      have hmembers := (List.append_eq_nil_iff.mp hvalid).1
      obtain ⟨e, he, hresumes⟩ :=
        CharacterClass.exists_resumes h hrest hmembers ha hstart hltAtom
      have heStop := Nat.le_trans hresumes.start.le_offset (Nat.le_of_lt hltAtom)
      have hterm := hresumes.append (Node.tiles_quantifier hfollows) heStop
        (Node.tiles_quantifier hfollows') he
      exact of_term hterm hns (Nat.le_trans heStop hfollows.reaches.pos_le) (.lexeme hread' rfl)
        (Nat.le_trans he hfollows'.reaches.pos_le)
    · have hother : ∀ s, (Atom.read x a).1 ≠ .characterClass s := by
        intro s hs
        obtain ⟨w, hw⟩ := ((Atom.takes_read hrest hx).of_class hs).reads
        exact hclass (List.cons.inj (hrest.symm.trans hw.1)).1
      obtain ⟨terms, mid, others, later', hd⟩ := exists_derives nested first c
      obtain ⟨e, he, hresumes⟩ := Node.Resumes.exists_of_node hatom (Node.isContainer_ofAtom hother)
        ((Node.tiles_quantifier hfollows).append hns) hd.tiles_append h ha hltAtom
      exact ⟨e, terms, mid, others, later', hd, he, hresumes⟩

end Resumable

end RegexTree
