import RegexTree.Proofs.Paths

/-! # Queries by position
The query for a range, `Node.enclosing`, goes into the first child that contains the range, as long
as there is one, and the query for a byte, `Node.leafWith?`, is the query for the range of this
byte, kept if it ends at a leaf. For ranges with a byte the first child is the only one, so the
nodes that contain the range are those on the way down, and the two queries agree. For an empty
range the descent commits to what stands before it: the query for a place between two bytes is the
query for the byte before, and it misses deeper nodes that begin at the place. -/

namespace RegexTree

namespace Node

/-! ## The descent -/

/-- Below some nodes the query for a range goes on from the first that contains it. -/
theorem enclosingAmong_eq (target : Span) (ns : List Node) :
    enclosingAmong target ns = (ns.find? (·.span.contains target)).map (·.enclosing target) := by
  induction ns with
  | nil => rfl
  | cons n ns ih =>
    rw [enclosingAmong, List.find?_cons]
    by_cases h : n.span.contains target = true
    · simp [h]
    · simp [h, ih]

/-- The first of some nodes that contains a range is one of them and contains it. -/
theorem of_find?_contains {target : Span} {ns : List Node} {n : Node}
    (h : ns.find? (·.span.contains target) = some n) : n ∈ ns ∧ n.span.contains target = true := by
  refine ⟨List.mem_of_find?_eq_some h, ?_⟩
  simpa using List.find?_some h

/-- The query for a range goes on from the first child that contains it, if there is one. -/
theorem enclosing_eq (target : Span) (n : Node) :
    n.enclosing target =
      ((n.children.find? (·.span.contains target)).map (·.enclosing target)).getD n := by
  obtain ⟨kind, span, reason, children⟩ := n
  rw [enclosing, enclosingAmong_eq]

/-- The query for a range goes on from the first child that contains it. -/
theorem enclosing_of_find? {target : Span} {n child : Node}
    (h : n.children.find? (·.span.contains target) = some child) :
    n.enclosing target = child.enclosing target := by
  rw [enclosing_eq, h, Option.map_some, Option.getD_some]

/-- Below some nodes the query for a byte goes on from the first that has it. -/
theorem leafAmong?_eq (offset : Nat) (ns : List Node) :
    leafAmong? offset ns = (ns.find? (·.span.containsByte offset)).map (·.leafWith? offset) := by
  induction ns with
  | nil => rfl
  | cons n ns ih =>
    rw [leafAmong?, List.find?_cons]
    by_cases h : n.span.containsByte offset = true
    · simp [h]
    · simp [h, ih]

/-- What the query for a byte finds is what the query for the range of the byte finds, if this is a
leaf with the byte. -/
theorem leafWith?_eq (offset : Nat) (n : Node) :
    n.leafWith? offset = (some (n.enclosing ⟨offset, offset + 1⟩)).filter fun leaf =>
      leaf.isLeaf && leaf.span.containsByte offset := by
  induction n using induction_children with
  | node n ih =>
    have hquery : n.leafWith? offset =
        (leafAmong? offset n.children).getD
          (if n.isLeaf && n.span.containsByte offset then some n else none) := by
      obtain ⟨kind, span, reason, children⟩ := n
      rw [leafWith?]
      cases leafAmong? offset children <;> rfl
    rw [hquery, leafAmong?_eq, enclosing_eq]
    simp only [Span.containsByte_eq]
    cases hfind : n.children.find? (·.span.contains ⟨offset, offset + 1⟩) with
    | none => rfl
    | some child => exact ih child (of_find?_contains hfind).1

/-- What `enclosing` finds is a node of the tree. -/
theorem exists_at?_enclosing (target : Span) (n : Node) :
    ∃ path, n.at? path = some (n.enclosing target) := by
  induction n using induction_children with
  | node n ih =>
    rw [enclosing_eq]
    cases hfind : n.children.find? (·.span.contains target) with
    | none => exact ⟨[], rfl⟩
    | some child =>
      obtain ⟨hmem, -⟩ := of_find?_contains hfind
      obtain ⟨i, hi⟩ := List.mem_iff_getElem?.mp hmem
      obtain ⟨path, hpath⟩ := ih child hmem
      exact ⟨i :: path, at?_cons_eq_some_iff.mpr ⟨child, hi, hpath⟩⟩

/-- What `enclosing` finds contains the range, if the tree does. -/
theorem contains_enclosing {target : Span} {n : Node} (h : n.span.contains target = true) :
    (n.enclosing target).span.contains target = true := by
  induction n using induction_children with
  | node n ih =>
    cases hfind : n.children.find? (·.span.contains target) with
    | none =>
      rw [enclosing_eq, hfind]
      exact h
    | some child =>
      obtain ⟨hmem, hcontains⟩ := of_find?_contains hfind
      rw [enclosing_of_find? hfind]
      exact ih child hmem hcontains

/-! ## Ranges with a byte -/

/-- At the end of a path stands a leaf with the byte at an offset. -/
structure IsLeafWith (root : Node) (offset : Nat) (path : List Nat) (leaf : Node) : Prop where
  /-- The path leads to the node. -/
  at? : root.at? path = some leaf
  /-- The node is a leaf. -/
  isLeaf : leaf.isLeaf = true
  /-- The node has the byte. -/
  containsByte : leaf.span.containsByte offset = true

namespace IsTiled

variable {n : Node} {target : Span}

/-- The query for a range with a byte ends at a path, and the nodes that contain the range are those
on this path. -/
theorem exists_path_enclosing (h : n.IsTiled) (htarget : target.start < target.stop)
    (hn : n.span.contains target = true) :
    ∃ path, n.at? path = some (n.enclosing target) ∧ ∀ q m, n.at? q = some m →
      (m.span.contains target = true ↔ q <+: path) := by
  induction n using induction_children with
  | node n ih =>
    rw [enclosing_eq]
    cases hfind : n.children.find? (·.span.contains target) with
    | none =>
      refine ⟨[], rfl, fun q m hm => ?_⟩
      rw [List.prefix_nil]
      refine ⟨fun hcontains => ?_, ?_⟩
      · cases q with
        | nil => rfl
        | cons i q =>
          -- a node further down would lie in a child, which would contain the range as well
          obtain ⟨child, hchild, hm⟩ := at?_cons_eq_some_iff.mp hm
          have hmem := List.mem_of_getElem? hchild
          have hbelow := Span.contains_trans ((h.child hmem).contains_at? hm) hcontains
          exact absurd hbelow (List.find?_eq_none.mp hfind child hmem)
      · rintro rfl
        cases hm
        exact hn
    | some child =>
      obtain ⟨hmem, hcontains⟩ := of_find?_contains hfind
      obtain ⟨i, hi⟩ := List.mem_iff_getElem?.mp hmem
      obtain ⟨path, hpath, hiff⟩ := ih child hmem (h.child hmem) hcontains
      refine ⟨i :: path, at?_cons_eq_some_iff.mpr ⟨child, hi, hpath⟩, fun q m hm => ?_⟩
      cases q with
      | nil =>
        cases hm
        simp [hn]
      | cons j q =>
        obtain ⟨other, hj, hm⟩ := at?_cons_eq_some_iff.mp hm
        rw [List.cons_prefix_cons]
        constructor
        · intro hmt
          have hother := (h.child (List.mem_of_getElem? hj)).contains_at? hm
          obtain rfl := h.child_unique htarget hi hj hcontains (Span.contains_trans hother hmt)
          obtain rfl : child = other := Option.some.inj (hi.symm.trans hj)
          exact ⟨rfl, (hiff q m hm).mp hmt⟩
        · rintro ⟨rfl, hq⟩
          obtain rfl : child = other := Option.some.inj (hi.symm.trans hj)
          exact (hiff q m hm).mpr hq

/-- The query for a byte of the tree finds a leaf with the byte (`IsLeafWith`), and the nodes with
the byte are those on the way to it. -/
theorem exists_leafWith {offset : Nat} (h : n.IsTiled)
    (hoffset : n.span.containsByte offset = true) :
    n.leafWith? offset = some (n.enclosing ⟨offset, offset + 1⟩) ∧
      ∃ path, n.IsLeafWith offset path (n.enclosing ⟨offset, offset + 1⟩) ∧
        ∀ q m, n.at? q = some m → (m.span.containsByte offset = true ↔ q <+: path) := by
  have hlt : (⟨offset, offset + 1⟩ : Span).start < (⟨offset, offset + 1⟩ : Span).stop :=
    Nat.lt_succ_self offset
  obtain ⟨path, hpath, hiff⟩ := h.exists_path_enclosing hlt hoffset
  have hbyte := (hiff path _ hpath).mpr (List.prefix_refl path)
  rw [← Span.containsByte_eq] at hbyte
  have hleaf : (n.enclosing ⟨offset, offset + 1⟩).isLeaf = true := by
    by_contra hbranch
    -- a child with the byte would stand on the way, behind its end
    obtain ⟨child, hchild, hchildByte⟩ :=
      (h.at? hpath).exists_child (Bool.eq_false_iff.mpr hbranch) hbyte
    obtain ⟨i, hi⟩ := List.mem_iff_getElem?.mp hchild
    have hnext : n.at? (path ++ [i]) = some child := by
      rw [at?_append, hpath, Option.bind_some]
      exact at?_cons_eq_some_iff.mpr ⟨child, hi, rfl⟩
    have hlength := ((hiff _ _ hnext).mp hchildByte).length_le
    rw [List.length_append, List.length_singleton] at hlength
    omega
  refine ⟨?_, path, ⟨hpath, hleaf, hbyte⟩, hiff⟩
  rw [leafWith?_eq, Option.filter_some, hleaf, hbyte]
  rfl

/-- All paths to a leaf with a byte are the same. -/
theorem eq_of_isLeafWith {offset : Nat} {p q : List Nat} {a b : Node} (h : n.IsTiled)
    (ha : n.IsLeafWith offset p a) (hb : n.IsLeafWith offset q b) : p = q ∧ a = b := by
  have hroot : n.span.containsByte offset = true := by
    have hbyte := ha.containsByte
    rw [Span.containsByte_eq] at hbyte ⊢
    exact Span.contains_trans (h.contains_at? ha.at?) hbyte
  obtain ⟨-, path, hpath, hiff⟩ := h.exists_leafWith hroot
  -- the path to such a leaf is a beginning of the one that the query takes, and cannot go on
  have hall : ∀ {r : List Nat} {m : Node}, n.IsLeafWith offset r m → r = path := by
    intro r m hm
    obtain ⟨more, rfl⟩ := (hiff r m hm.at?).mp hm.containsByte
    have hmore := hpath.at?
    rw [at?_append, hm.at?, Option.bind_some] at hmore
    rw [eq_nil_of_isLeaf hm.isLeaf hmore, List.append_nil]
  obtain rfl := hall ha
  obtain rfl := hall hb
  exact ⟨rfl, Option.some.inj (ha.at?.symm.trans hb.at?)⟩

end IsTiled

end Node

namespace Tree

/-- What the queries say of a range, given the path to the node that contains the range and those to
the leaves with its first byte and its last byte. -/
structure RangeQuery (t : Tree) (start stop : Nat) (path first last : List Nat) : Prop where
  /-- The query for the range finds the node. -/
  enclosing : t.root.at? path = some (t.enclosing start stop)
  /-- The query for the first byte finds the leaf with it. -/
  leafWith_first : ∃ leaf, t.leafWith? start = some leaf ∧ t.root.IsLeafWith start first leaf
  /-- The query for the last byte finds the leaf with it. -/
  leafWith_last : ∃ leaf, t.leafWith? (stop - 1) = some leaf ∧
    t.root.IsLeafWith (stop - 1) last leaf
  /-- The node is an ancestor of both leaves, or one of them. -/
  ancestor : path <+: first ∧ path <+: last
  /-- Every other common ancestor stands on the way to the node. -/
  deepest_ancestor : ∀ q, q <+: first → q <+: last → q <+: path
  /-- The node contains the range. -/
  contains : (t.enclosing start stop).span.contains ⟨start, stop⟩ = true
  /-- Every other node that contains the range stands on the way to the node. -/
  deepest : ∀ q m, t.root.at? q = some m → m.span.contains ⟨start, stop⟩ = true → q <+: path
  /-- No node that contains the range is shorter. -/
  shortest : ∀ q m, t.root.at? q = some m → m.span.contains ⟨start, stop⟩ = true →
    (t.enclosing start stop).span.length ≤ m.span.length

variable {source : String}

/-- The root of a pattern has every byte of the pattern. -/
theorem containsByte_root {offset : Nat} (h : offset < source.utf8ByteSize) :
    (parse source).root.span.containsByte offset = true := by
  rw [Span.containsByte_iff]
  exact ⟨Nat.zero_le offset, h⟩

/-- Outside a pattern `leafWith?` finds no leaf. -/
theorem leafWith?_eq_none {offset : Nat} (h : source.utf8ByteSize ≤ offset) :
    (parse source).leafWith? offset = none := by
  rw [leafWith?, Node.leafWith?_eq, Option.filter_some]
  refine if_neg fun hleaf => ?_
  obtain ⟨path, hpath⟩ :=
    Node.exists_at?_enclosing ⟨offset, offset + 1⟩ (parse source).root
  have hstop := stop_le_of_mem (Node.mem_preorder_of_at? hpath)
  rw [Bool.and_eq_true, Span.containsByte_iff] at hleaf
  omega

/-- The queries for a range of a pattern and for its first and last bytes agree (`RangeQuery`). -/
theorem exists_rangeQuery {start stop : Nat} (hlt : start < stop)
    (hstop : stop ≤ source.utf8ByteSize) :
    ∃ path first last, (parse source).RangeQuery start stop path first last := by
  have htiled := isTiled_root source
  have henclosing : (parse source).enclosing start stop =
      (parse source).root.enclosing ⟨start, stop⟩ := by
    rw [Tree.enclosing, Nat.max_eq_right (Nat.le_of_lt hlt)]
  have hroot : (parse source).root.span.contains ⟨start, stop⟩ = true := by
    rw [Span.contains_range_iff]
    exact ⟨Nat.zero_le start, hstop⟩
  obtain ⟨path, hpath, hiff⟩ := htiled.exists_path_enclosing hlt hroot
  obtain ⟨hfound, first, hfirst, hfirstIff⟩ :=
    htiled.exists_leafWith (containsByte_root (by omega : start < source.utf8ByteSize))
  obtain ⟨hfoundLast, last, hlast, hlastIff⟩ :=
    htiled.exists_leafWith (containsByte_root (by omega : stop - 1 < source.utf8ByteSize))
  -- a node contains a range exactly if it has its first byte and its last byte
  have hends : ∀ m : Node, m.span.contains ⟨start, stop⟩ = true ↔
      m.span.containsByte start = true ∧ m.span.containsByte (stop - 1) = true := by
    intro m
    rw [Span.contains_range_iff, Span.containsByte_iff, Span.containsByte_iff]
    omega
  have hcontains := (hiff path _ hpath).mpr (List.prefix_refl path)
  refine ⟨path, first, last, ?_⟩
  constructor
  case enclosing => rw [henclosing, hpath]
  case leafWith_first => exact ⟨_, hfound, hfirst⟩
  case leafWith_last => exact ⟨_, hfoundLast, hlast⟩
  case ancestor =>
    obtain ⟨hstartByte, hstopByte⟩ := (hends _).mp hcontains
    exact ⟨(hfirstIff path _ hpath).mp hstartByte, (hlastIff path _ hpath).mp hstopByte⟩
  case deepest_ancestor =>
    intro q hqFirst hqLast
    obtain ⟨more, hmore⟩ := hqFirst
    obtain ⟨m, hm, -⟩ := Option.bind_eq_some_iff.mp
      ((Node.at?_append _ q more).symm.trans (hmore ▸ hfirst.at?))
    refine (hiff q m hm).mp ((hends m).mpr ⟨?_, ?_⟩)
    · exact (hfirstIff q m hm).mpr ⟨more, hmore⟩
    · exact (hlastIff q m hm).mpr hqLast
  case contains => rw [henclosing, hcontains]
  case deepest =>
    intro q m hm hmt
    exact (hiff q m hm).mp hmt
  case shortest =>
    intro q m hm hmt
    have hbelow := htiled.contains_of_prefix ((hiff q m hm).mp hmt) hpath hm
    rw [Span.contains_iff] at hbelow
    rw [henclosing, Span.length, Span.length]
    omega

/-- The two queries by position agree. For every byte of a pattern there is exactly one leaf with
it, which the query for the byte finds; behind the pattern it finds nothing. For every range with a
byte the query for the range finds the deepest common ancestor of the leaves with its first and its
last byte, which is the deepest and a shortest node that contains the range. -/
theorem queries_agree (source : String) :
    (∀ offset, offset < source.utf8ByteSize → ∃ path leaf,
        (parse source).leafWith? offset = some leaf ∧
          (parse source).root.IsLeafWith offset path leaf ∧
          ∀ q m, (parse source).root.IsLeafWith offset q m → q = path ∧ m = leaf) ∧
      (∀ offset, source.utf8ByteSize ≤ offset → (parse source).leafWith? offset = none) ∧
      ∀ start stop, start < stop → stop ≤ source.utf8ByteSize →
        ∃ path first last, (parse source).RangeQuery start stop path first last := by
  refine ⟨fun offset hoffset => ?_, fun offset hoffset => leafWith?_eq_none hoffset,
    fun start stop hlt hstop => exists_rangeQuery hlt hstop⟩
  have htiled := isTiled_root source
  obtain ⟨hfound, path, hpath, -⟩ := htiled.exists_leafWith (containsByte_root hoffset)
  refine ⟨path, _, hfound, hpath, ?_⟩
  intro q m hm
  exact htiled.eq_of_isLeafWith hm hpath

/-- The range of an escape in a group, and a byte of its digits. -/
theorem queries_agree_escape :
    4 < "a(\\x41)".utf8ByteSize ∧
      (∃ path leaf, (parse "a(\\x41)").leafWith? 4 = some leaf ∧ leaf.kind = .hexadecimalCode ∧
        (parse "a(\\x41)").root.IsLeafWith 4 path leaf) ∧
      2 < 6 ∧ 6 ≤ "a(\\x41)".utf8ByteSize ∧
      ((parse "a(\\x41)").enclosing 2 6).kind = .hexadecimalEscape ∧
      ∃ path first last, (parse "a(\\x41)").RangeQuery 2 6 path first last := by
  obtain ⟨hbyte, -, hrange⟩ := queries_agree "a(\\x41)"
  have hsize : "a(\\x41)".utf8ByteSize = 7 := by decide +kernel
  have hkind : ((parse "a(\\x41)").leafWith? 4).map (·.kind) = some .hexadecimalCode := by
    decide +kernel
  obtain ⟨path, leaf, hleaf, hpath, -⟩ := hbyte 4 (by omega)
  refine ⟨by omega, ⟨path, leaf, hleaf, ?_, hpath⟩, by omega, by omega, by decide +kernel,
    hrange 2 6 (by omega) (by omega)⟩
  rw [hleaf] at hkind
  exact Option.some.inj hkind

end Tree

/-! ## Empty ranges -/

namespace Node

/-- Of the nodes that cover a span, the first that contains an empty range behind a byte is the
first with this byte. -/
theorem find?_contains_empty {start stop offset : Nat} {ns : List Node}
    (h : coversTo stop start ns = true) (hlt : start < offset) :
    ns.find? (·.span.contains ⟨offset, offset⟩) =
      ns.find? (·.span.contains ⟨offset - 1, offset⟩) := by
  induction ns generalizing start with
  | nil => rfl
  | cons n ns ih =>
    simp only [coversTo, Bool.and_eq_true, beq_iff_eq] at h
    -- a range that does not begin before the node lies in it if it ends there
    have hiff : ∀ low, start ≤ low →
        (n.span.contains ⟨low, offset⟩ = true ↔ offset ≤ n.span.stop) := by
      intro low hlow
      rw [Span.contains_range_iff]
      omega
    have hempty := hiff offset (by omega)
    have hbyte := hiff (offset - 1) (by omega)
    rw [List.find?_cons, List.find?_cons]
    by_cases hn : offset ≤ n.span.stop
    · rw [hempty.mpr hn, hbyte.mpr hn]
    · rw [Bool.eq_false_iff.mpr (mt hempty.mp hn), Bool.eq_false_iff.mpr (mt hbyte.mp hn)]
      exact ih h.2 (by omega)

/-- No node that contains a range lies below the level of a path. -/
def IsDeepestAt (root : Node) (target : Span) (path : List Nat) : Prop :=
  ∀ q m, root.at? q = some m → m.span.contains target = true → q.length ≤ path.length

namespace IsTiled

variable {n : Node}

/-- What `enclosing` finds for an empty range behind a byte is what it finds for this byte. -/
theorem enclosing_empty {offset : Nat} (h : n.IsTiled) (hstart : n.span.start < offset) :
    n.enclosing ⟨offset, offset⟩ = n.enclosing ⟨offset - 1, offset⟩ := by
  induction n using induction_children with
  | node n ih =>
    have hfind : n.children.find? (·.span.contains ⟨offset, offset⟩) =
        n.children.find? (·.span.contains ⟨offset - 1, offset⟩) := by
      cases hchildren : n.children with
      | nil => rfl
      | cons m ms =>
        have hcovers := h.coversTo (hchildren ▸ List.mem_cons_self)
        exact find?_contains_empty (hchildren ▸ hcovers) hstart
    rw [enclosing_eq, enclosing_eq, hfind]
    cases hchild : n.children.find? (·.span.contains ⟨offset - 1, offset⟩) with
    | none => rfl
    | some child =>
      obtain ⟨hmem, hcontains⟩ := of_find?_contains hchild
      have hbounds := Span.contains_range_iff.mp hcontains
      exact ih child hmem (h.child hmem) (by omega)

/-- For the empty range at the beginning of a tree `enclosing` finds the first leaf. -/
theorem head?_leaves (h : n.IsTiled) :
    n.leaves.head? = some (n.enclosing ⟨n.span.start, n.span.start⟩) := by
  have hleaves : ∀ m : Node, m.leaves = leavesOfAll [m] := fun _ => rfl
  induction n using induction_children with
  | node n ih =>
    cases hchildren : n.children with
    | nil =>
      rw [enclosing_eq_self (by simp [hchildren]), hleaves,
        leavesOfAll_cons_of_isLeaf (List.isEmpty_iff.mpr hchildren)]
      rfl
    | cons m ms =>
      have hmem : m ∈ n.children := hchildren ▸ List.mem_cons_self
      have hstart := h.start_of_children hchildren
      have hcontains : m.span.contains ⟨n.span.start, n.span.start⟩ = true := by
        have hle := (h.child hmem).root_le
        rw [Span.contains_range_iff]
        omega
      have hfind : n.children.find? (·.span.contains ⟨n.span.start, n.span.start⟩) = some m := by
        rw [hchildren]
        simp [hcontains]
      have hn : n.isLeaf = false := List.isEmpty_eq_false_iff.mpr (List.ne_nil_of_mem hmem)
      have hhead := ih m hmem (h.child hmem)
      rw [hstart, hleaves] at hhead
      rw [enclosing_of_find? hfind, hleaves, leavesOfAll_cons_of_not_isLeaf hn, leavesOfAll_nil,
        List.append_nil, hchildren, leavesOfAll_cons, List.head?_append, hhead]
      rfl

/-- If no node around a place that begins before it is deeper than a path, then no node around the
place is (`IsDeepestAt`), exactly if no leaf that begins at the place is. -/
theorem isDeepestAt_iff {offset : Nat} {path : List Nat} (h : n.IsTiled)
    (hbefore : ∀ q m, n.at? q = some m → m.span.contains ⟨offset, offset⟩ = true →
      m.span.start < offset → q.length ≤ path.length) :
    n.IsDeepestAt ⟨offset, offset⟩ path ↔ ∀ q leaf, n.at? q = some leaf → leaf.isLeaf = true →
      leaf.span.start = offset → q.length ≤ path.length := by
  constructor
  · intro hdeepest q leaf hleaf _ hstart
    refine hdeepest q leaf hleaf ?_
    have hle := (h.at? hleaf).root_le
    rw [Span.contains_range_iff]
    omega
  · intro hleaves q m hm hcontains
    rcases Nat.lt_or_ge m.span.start offset with hlt | hge
    · exact hbefore q m hm hcontains hlt
    · -- a leaf begins where the node begins, and it is at least as deep
      obtain ⟨more, leaf, hleaf, hisLeaf, hstart⟩ := (h.at? hm).exists_leaf_at_start
      have hle := (Span.contains_range_iff.mp hcontains).1
      have hpath : n.at? (q ++ more) = some leaf := by
        rw [at?_append, hm, Option.bind_some, hleaf]
      have hlength := hleaves _ _ hpath hisLeaf (by omega)
      rw [List.length_append] at hlength
      omega

end IsTiled

end Node

namespace Tree

variable {source : String}

/-- The query for the place between two bytes of a pattern is the query for the range of the byte
before. -/
theorem enclosing_place {offset : Nat} (hpos : 0 < offset) :
    (parse source).enclosing offset offset =
      (parse source).root.enclosing ⟨offset - 1, offset - 1 + 1⟩ := by
  rw [enclosing, Nat.max_self, (isTiled_root source).enclosing_empty hpos, Nat.sub_add_cancel hpos]

/-- What the query for the empty range at a place says of the leaf that it finds and of the path to
this leaf. -/
structure PlaceQuery (t : Tree) (offset : Nat) (path : List Nat) (leaf : Node) : Prop where
  /-- The query finds the node at the end of the path. -/
  enclosing : t.enclosing offset offset = leaf ∧ t.root.at? path = some leaf
  /-- The node is a leaf. -/
  isLeaf : leaf.isLeaf = true
  /-- The leaf contains the empty range. -/
  contains : leaf.span.contains ⟨offset, offset⟩ = true
  /-- Behind a byte the leaf is the one with this byte. -/
  before : 0 < offset → t.leafWith? (offset - 1) = some leaf
  /-- At the beginning the leaf is the first one. -/
  first : offset = 0 → t.root.leaves.head? = some leaf
  /-- No node that contains the range is deeper, exactly if no leaf that begins at the place is. -/
  deepest_iff : t.root.IsDeepestAt ⟨offset, offset⟩ path ↔ ∀ q m, t.root.at? q = some m →
    m.isLeaf = true → m.span.start = offset → q.length ≤ path.length

/-- The query for the empty range at a place in a pattern, or at its end, finds a leaf that contains
this range: the leaf with the byte before the place, or the first one at the beginning. It is the
deepest node that contains the range exactly if no leaf that begins at the place is deeper. -/
theorem exists_placeQuery (source : String) (offset : Nat) (h : offset ≤ source.utf8ByteSize) :
    ∃ path leaf, (parse source).PlaceQuery offset path leaf := by
  have htiled := isTiled_root source
  rcases Nat.eq_zero_or_pos offset with rfl | hpos
  · obtain ⟨path, hpath⟩ := Node.exists_at?_enclosing ⟨0, 0⟩ (parse source).root
    have hhead : (parse source).root.leaves.head? =
        some ((parse source).root.enclosing ⟨0, 0⟩) := htiled.head?_leaves
    refine ⟨path, (parse source).root.enclosing ⟨0, 0⟩, ?_⟩
    constructor
    case enclosing => exact ⟨rfl, hpath⟩
    case isLeaf => exact (List.mem_filter.mp (List.mem_of_head? hhead)).2
    case contains => exact Node.contains_enclosing (Span.contains_range_iff.mpr ⟨Nat.le_refl 0, h⟩)
    case before => exact fun hlt => absurd hlt (Nat.lt_irrefl 0)
    case first => exact fun _ => hhead
    case deepest_iff =>
      exact htiled.isDeepestAt_iff fun _ m _ _ hlt => absurd hlt (Nat.not_lt_zero m.span.start)
  · obtain ⟨hfound, path, hleaf, hiff⟩ :=
      htiled.exists_leafWith (containsByte_root (by omega : offset - 1 < source.utf8ByteSize))
    have hplace : (parse source).enclosing offset offset =
        (parse source).root.enclosing ⟨offset - 1, offset - 1 + 1⟩ := enclosing_place hpos
    refine ⟨path, (parse source).root.enclosing ⟨offset - 1, offset - 1 + 1⟩, ?_⟩
    constructor
    case enclosing => exact ⟨hplace, hleaf.at?⟩
    case isLeaf => exact hleaf.isLeaf
    case contains =>
      have hbyte := hleaf.containsByte
      rw [Span.containsByte_iff] at hbyte
      rw [Span.contains_range_iff]
      omega
    case before => exact fun _ => hfound
    case first => exact fun hzero => absurd hzero (Nat.ne_of_gt hpos)
    case deepest_iff =>
      refine htiled.isDeepestAt_iff fun q m hm hcontains hlt => ?_
      -- what begins before the place and reaches it has the byte before it
      have hbyte : m.span.containsByte (offset - 1) = true := by
        rw [Span.contains_range_iff] at hcontains
        rw [Span.containsByte_iff]
        omega
      exact ((hiff q m hm).mp hbyte).length_le

/-- Behind the last character of a group the query finds this character. -/
theorem exists_placeQuery_group :
    3 ≤ "a(b)".utf8ByteSize ∧
      ((parse "a(b)").enclosing 3 3).kind = .patternCharacter ∧
      ∃ path leaf, (parse "a(b)").PlaceQuery 3 path leaf := by
  have hsize : 3 ≤ "a(b)".utf8ByteSize := by decide +kernel
  exact ⟨hsize, by decide +kernel, exists_placeQuery "a(b)" 3 hsize⟩

/-- Before a group the query finds the character before, although the parenthesis behind is
deeper. -/
theorem exists_not_isDeepestAt :
    1 ≤ "a(b)".utf8ByteSize ∧
      ∀ path, (parse "a(b)").root.at? path = some ((parse "a(b)").enclosing 1 1) →
        ¬ (parse "a(b)").root.IsDeepestAt ⟨1, 1⟩ path := by
  refine ⟨by decide +kernel, fun path hpath hdeepest => ?_⟩
  have hcharacter : (parse "a(b)").enclosing 1 1 = Node.leaf .patternCharacter ⟨0, 1⟩ := by
    decide +kernel
  have hshort : (parse "a(b)").root.at? [0, 0, 0] = some (Node.leaf .patternCharacter ⟨0, 1⟩) := by
    decide +kernel
  have hdeep : (parse "a(b)").root.at? [0, 0, 1, 0] = some (Node.leaf .groupBegin ⟨1, 2⟩) := by
    decide +kernel
  rw [hcharacter] at hpath
  have hfound : (parse "a(b)").root.IsLeafWith 0 path (Node.leaf .patternCharacter ⟨0, 1⟩) :=
    ⟨hpath, rfl, rfl⟩
  obtain ⟨rfl, -⟩ := (isTiled_root "a(b)").eq_of_isLeafWith hfound ⟨hshort, rfl, rfl⟩
  have hlength := hdeepest _ _ hdeep rfl
  simp at hlength

end Tree

end RegexTree
