import RegexTree.Proofs.Tiling.Parts
import RegexTree.Tree

/-! # Trees partition their patterns
The root of the tree of a pattern spans the whole pattern, children cover their parents at every
depth, every node begins and ends at a boundary between characters, and the leaves give the pattern
back. All of this is read off one tiling of the pattern by the root (`Tree.tiles_root`). -/

namespace RegexTree

namespace Tree

/-- The root of a pattern's tree tiles the pattern from its beginning to its end. -/
theorem tiles_root (source : String) : ∃ later, later.rest = [] ∧
    later.pos = source.utf8ByteSize ∧
      Node.Tiles (.ofString source) [(parse source).root] later := by
  obtain ⟨terms, mid, others, later, h, hend, hpos⟩ := Regex.exists_derives source
  refine ⟨later, hend, hpos, ?_⟩
  -- the root takes its stop from the length of the source, which is where reading ends
  rw [h.root_eq, ← hpos]
  exact Node.tiles_branch .regex h.tiles_ofDisjunction

/-- No node of the tree of a pattern ends behind the pattern. -/
theorem stop_le_of_mem {source : String} {n : Node} (hn : n ∈ (parse source).root.preorder) :
    n.span.stop ≤ source.utf8ByteSize := by
  obtain ⟨later, -, hpos, htiles⟩ := tiles_root source
  obtain ⟨a, b, -, -, hb, hspan⟩ := htiles.between n hn
  rw [hspan, ← hpos]
  exact hb.pos_le

/-- A node of a pattern does not begin behind its end. -/
theorem start_le_stop {source : String} {n : Node} (hn : n ∈ (parse source).root.preorder) :
    n.span.start ≤ n.span.stop := by
  obtain ⟨later, -, -, htiles⟩ := tiles_root source
  obtain ⟨a, b, -, hab, -, hspan⟩ := htiles.between n hn
  rw [hspan]
  exact hab.pos_le

/-- The `leafText` of a tree is the source that the tree was built from. -/
theorem leafText_parse (source : String) : (parse source).leafText = source := by
  obtain ⟨later, hend, -, htiles⟩ := tiles_root source
  -- nothing is left behind the last place, so the text up to it is the source
  have htext : (Cursor.ofString source).Reads source.toList later := by
    obtain ⟨text, hrest, hpos⟩ := htiles.reaches
    rw [hend, List.append_nil] at hrest
    refine ⟨by rw [hend, List.append_nil]; rfl, ?_⟩
    rw [hpos, ← hrest]
    rfl
  have hfold := htiles.foldl_textIn (.refl _) htext ""
  rw [String.empty_append, String.ofList_toList] at hfold
  exact hfold

/-- The tree of a pattern partitions it: the root spans the pattern, every node with children and
every alternative is covered by its children exactly, all nodes begin and end at boundaries between
characters, and the leaves, put together, are the pattern. -/
theorem parse_partitions (source : String) :
    (parse source).root.span = ⟨0, source.utf8ByteSize⟩ ∧
      (∀ n ∈ (parse source).root.preorder, n.isBranch = true →
        Node.covers n.span n.children = true) ∧
      (∀ n ∈ (parse source).root.preorder, n.span.IsPartOf source) ∧
      (parse source).leafText = source := by
  obtain ⟨later, -, -, htiles⟩ := tiles_root source
  refine ⟨rfl, htiles.covers_of_mem, ?_, leafText_parse source⟩
  intro n hn
  exact (htiles.between n hn).isPartOf (.refl _)

/-- A character of two bytes, a bar, and a group that is cut off after a lone backslash. -/
example : (parse "é|(\\").root.leaves.map (·.span) =
    [⟨0, 2⟩, ⟨2, 3⟩, ⟨3, 4⟩, ⟨4, 5⟩, ⟨5, 5⟩] := by
  decide +kernel

end Tree

end RegexTree
