import RegexTree.Proofs.Derivation

/-! # Disjunctions at every depth
The disjunctions of a typed tree are its body and the bodies of its groups, at any depth. The main
statement, `Reading.derivedAt_of_mem_disjunctions`, says that each of them is derived somewhere
between the two ends of the outermost one, so that what holds of a derivation holds at every
depth. -/

namespace RegexTree

/-! ## The disjunctions of a typed tree -/

mutual

/-- A disjunction and the bodies of the groups in it, at any depth. -/
def Disjunction.nested : Disjunction → List Disjunction
  | ⟨first, others⟩ => ⟨first, others⟩ :: (Alternative.nested first ++ Branch.nestedOfAll others)

/-- The bodies of the groups behind bars, at any depth. -/
def Branch.nestedOfAll : List Branch → List Disjunction
  | [] => []
  | ⟨_, alternative⟩ :: others => Alternative.nested alternative ++ Branch.nestedOfAll others

/-- The bodies of the groups in an alternative, at any depth. -/
def Alternative.nested : Alternative → List Disjunction
  | ⟨_, terms⟩ => Term.nestedOfAll terms

/-- The bodies of the groups in terms, at any depth. -/
def Term.nestedOfAll : List Term → List Disjunction
  | [] => []
  | ⟨element, _⟩ :: terms => Element.nested element ++ Term.nestedOfAll terms

/-- The bodies of the groups in an element, at any depth. -/
def Element.nested : Element → List Disjunction
  | .atom _ => []
  | .group g => Group.nested g

/-- The body of a group and the bodies of the groups in it, at any depth. -/
def Group.nested : Group → List Disjunction
  | ⟨_, _, body, _⟩ => Disjunction.nested body

end

/-- The body of a pattern and the bodies of its groups, at any depth. -/
def Regex.disjunctions (r : Regex) : List Disjunction := r.body.nested

/-- The terms of a pattern, at any depth: those of all its `disjunctions`. -/
def Regex.terms (r : Regex) : List Term :=
  r.disjunctions.flatMap fun d => d.alternatives.flatMap (·.terms)

/-! ## All of them are derived -/

/-- A disjunction is derived between two places: `Derives` says so of its parts. -/
def Disjunction.DerivedAt (d : Disjunction) (nested : Bool) (c later : Cursor) : Prop :=
  ∃ mid, Derives nested true c d.first.terms mid d.others later ∧ d.first.span = c.spanTo mid

namespace Derives

variable {nested first : Bool} {c mid later : Cursor} {terms : List Term} {others : List Branch}

/-- A term without a group holds no disjunctions. -/
theorem nestedOfAll_of_takes {t : Term} (h : Term.Takes nested first c later t) (ts : List Term) :
    Term.nestedOfAll (t :: ts) = Term.nestedOfAll ts := by
  cases h <;> rfl

/-- The bodies of groups in what is derived are `DerivedAt` places between the same ends. -/
theorem derivedAt_of_mem (h : Derives nested first c terms mid others later) :
    ∀ d ∈ Term.nestedOfAll terms ++ Branch.nestedOfAll others,
      ∃ a b, c.Reaches a ∧ b.Reaches later ∧ d.DerivedAt true a b := by
  induction h with
  | stop hend => simp [Term.nestedOfAll, Branch.nestedOfAll]
  | bar hbar hread hrest ih =>
    intro d hd
    obtain ⟨a, b, ha, hb, hab⟩ := ih d hd
    exact ⟨a, b, hbar.reaches.trans ha, hb, hab⟩
  | term hread hterm hrest ih =>
    intro d hd
    rw [nestedOfAll_of_takes (hread.takes_term hterm)] at hd
    obtain ⟨a, b, ha, hb, hab⟩ := ih d hd
    exact ⟨a, b, hread.reaches.trans ha, hb, hab⟩
  | @group _ _ c inside innerMid bodyEnd close next mid later o innerTerms terms innerOthers others
      closing q ho hread hbody hclose hrest ihbody ih =>
    have hlater := hclose.reaches.trans hrest.reaches_later
    have hnext := hread.reaches.trans (hbody.reaches_later.trans hclose.reaches)
    intro d hd
    -- the body itself, what is nested in it, and what is nested in the terms after the group
    simp only [Term.nestedOfAll, Element.nested, Group.nested, Disjunction.nested,
      Alternative.nested, List.cons_append, List.append_assoc, List.mem_cons,
      List.mem_append] at hd
    rcases hd with rfl | hd | hd | hd
    · exact ⟨inside, bodyEnd, hread.reaches, hlater, innerMid, hbody, rfl⟩
    · obtain ⟨a, b, ha, hb, hab⟩ := ihbody d (List.mem_append.mpr (.inl hd))
      exact ⟨a, b, hread.reaches.trans ha, hb.trans hlater, hab⟩
    · obtain ⟨a, b, ha, hb, hab⟩ := ihbody d (List.mem_append.mpr (.inr hd))
      exact ⟨a, b, hread.reaches.trans ha, hb.trans hlater, hab⟩
    · obtain ⟨a, b, ha, hb, hab⟩ := ih d (List.mem_append.mpr hd)
      exact ⟨a, b, hnext.trans ha, hb, hab⟩

end Derives

/-- Every disjunction of a pattern is derived between two places after the one where reading
begins. -/
theorem Reading.derivedAt_of_mem_disjunctions {pattern : String} {c : Cursor} {d : Disjunction}
    (h : d ∈ (ofCursor pattern c).regex.disjunctions) :
    ∃ nested a b, c.Reaches a ∧ d.DerivedAt nested a b := by
  obtain ⟨terms, mid, others, later, hderives, -, hregex⟩ := derives_ofCursor pattern c
  rw [hregex, Regex.disjunctions, Disjunction.nested] at h
  rcases List.mem_cons.mp h with rfl | h
  · exact ⟨false, c, later, .refl c, mid, hderives, rfl⟩
  · obtain ⟨a, b, ha, -, hab⟩ := hderives.derivedAt_of_mem d h
    exact ⟨true, a, b, ha, hab⟩

end RegexTree
