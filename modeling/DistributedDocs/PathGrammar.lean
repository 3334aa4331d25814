import DistributedDocs.DelimitedText
import DistributedDocs.NamespaceTree

namespace DistributedDocs

/-!
# The grammar of paths

A path is segments between separators.  `ns_validate_logical_path` looks for
misplaced separators and hands what `strtok_r` leaves to its segment test;
`ns_split_parent_child` cuts behind the last separator.
-/

/-- The segments of a path. -/
def segmentsOf (path : CString) : List CString :=
  path.splitOnP fun c => c = pathSeparator

/-- A segment a path may have. -/
def NamesEntry (segment : CString) : Prop :=
  segment ≠ [] ∧ segment ≠ str "." ∧ segment ≠ str ".."

/-- The paths there may be. -/
structure PathGrammar (path : CString) : Prop where
  long : 1 ≤ path.length
  short : path.length ≤ maxFilenameLength - 1
  legal : ∀ c ∈ path, c ∉ str "<>:\"|?*"
  segments : ∀ segment ∈ segmentsOf path, NamesEntry segment

/-- A path made of a folder, unless that is the root, and an entry in it. -/
def joinPath (parent child : CString) : CString :=
  if parent = [] then child else parent ++ pathSeparator :: child

theorem segmentsOf_separated (parent child : CString) :
    segmentsOf (parent ++ pathSeparator :: child) =
      segmentsOf parent ++ segmentsOf child :=
  List.splitOnP_append_cons parent child (decide_eq_true rfl)

/-! ## What is accepted -/

theorem validateFilename_iff (path : CString) :
    validateFilename path = true ↔
      path ≠ [] ∧ path.length < maxFilenameLength ∧
        ∀ c ∈ path, c ∉ str "<>:\"|?*" := by
  simp [validateFilename, isInvalidChar, and_assoc]

/-- The separators of a path are placed well if no segment is empty. -/
theorem separators_iff
    {path : CString}
    (nonempty : path ≠ []) :
    (path.head? ≠ some pathSeparator ∧ path.getLast? ≠ some pathSeparator) ∧
        ¬str "//" <:+: path ↔
      ∀ segment ∈ segmentsOf path, segment ≠ [] := by
  have twice : str "//" = [pathSeparator, pathSeparator] :=
    rfl
  rw [List.forall_mem_ne', segmentsOf, nil_mem_splitOnP_iff, twice]
  simp only [nonempty, false_or, not_or, and_assoc, ne_eq]

/-- `strtok_r` leaves the segments that are not empty. -/
theorem forall_strtok_iff
    {path : CString}
    {property : CString → Prop} :
    (∀ segment ∈ strtok '/' path, property segment) ↔
      ∀ segment ∈ segmentsOf path, segment ≠ [] → property segment := by
  simp only [strtok, List.mem_filter, decide_eq_true_eq, and_imp]
  exact Iff.rfl

theorem nsValidateLogicalPath_iff (path : CString) :
    nsValidateLogicalPath path = true ↔ PathGrammar path := by
  simp only [nsValidateLogicalPath, Bool.and_eq_true, Bool.not_eq_true',
    decide_eq_false_iff_not, decide_eq_true_eq, List.all_eq_true,
    validateFilename_iff]
  constructor
  · rintro ⟨⟨⟨nonempty, short, legal⟩, ends⟩, notTwice, named⟩
    have filled := (separators_iff nonempty).mp ⟨ends, notTwice⟩
    rw [safeStrcpy_of_short short, forall_strtok_iff] at named
    exact
      { long := List.length_pos_iff.mpr nonempty
        short := Nat.le_sub_one_of_lt short
        legal := legal
        segments := fun segment listed =>
          ⟨filled segment listed,
            named segment listed (filled segment listed)⟩ }
  · intro grammar
    have nonempty := List.length_pos_iff.mp grammar.long
    have short : path.length < maxFilenameLength :=
      Nat.lt_of_le_pred (by decide) grammar.short
    have filled :=
      (separators_iff nonempty).mpr fun segment listed =>
        (grammar.segments segment listed).1
    refine ⟨⟨⟨nonempty, short, grammar.legal⟩, filled.1⟩, filled.2, ?_⟩
    rw [safeStrcpy_of_short short, forall_strtok_iff]
    exact fun segment listed _ => (grammar.segments segment listed).2

/-! ## Where a path is cut -/

theorem ne_separator_of_mem_reverse
    {child : CString}
    (free : pathSeparator ∉ child) :
    ∀ c ∈ child.reverse, decide (c ≠ pathSeparator) = true := by
  intro c listed
  rw [decide_eq_true_eq]
  rintro rfl
  exact free (List.mem_reverse.mp listed)

/-- A path of one segment is an entry of the root. -/
theorem nsSplitParentChild_of_not_mem
    {path : CString}
    (short : path.length < maxFilenameLength)
    (free : pathSeparator ∉ path) :
    nsSplitParentChild path = some ([], path) := by
  have nothingBefore :
      path.reverse.dropWhile (fun c => c ≠ pathSeparator) = [] :=
    List.dropWhile_eq_nil_iff.mpr (ne_separator_of_mem_reverse free)
  rw [pathSeparator] at nothingBefore
  simp only [nsSplitParentChild, List.span_eq_takeWhile_dropWhile,
    nothingBefore, safeStrcpy_of_short short]

/-- Any other path is cut at its last separator. -/
theorem nsSplitParentChild_separated
    {parent child : CString}
    (short : (parent ++ pathSeparator :: child).length < maxFilenameLength)
    (free : pathSeparator ∉ child) :
    nsSplitParentChild (parent ++ pathSeparator :: child) =
      some (parent, child) := by
  have solid := ne_separator_of_mem_reverse free
  have turned :
      (parent ++ pathSeparator :: child).reverse =
        child.reverse ++ pathSeparator :: parent.reverse := by
    simp
  have front :
      (parent ++ pathSeparator :: child).reverse.takeWhile
          (fun c => c ≠ pathSeparator) = child.reverse := by
    rw [turned, List.takeWhile_append_of_pos solid,
      List.takeWhile_cons_of_neg (by simp), List.append_nil]
  have back :
      (parent ++ pathSeparator :: child).reverse.dropWhile
          (fun c => c ≠ pathSeparator) =
        pathSeparator :: parent.reverse := by
    rw [turned, List.dropWhile_append_of_pos solid,
      List.dropWhile_cons_of_neg (by simp)]
  rw [List.length_append, List.length_cons] at short
  have childShort : child.length < maxFilenameLength := by
    omega
  have parentShort : ¬parent.reverse.length + 1 > maxFilenameLength := by
    rw [List.length_reverse]
    omega
  unfold pathSeparator at *
  simp only [nsSplitParentChild, List.span_eq_takeWhile_dropWhile, front,
    back, if_neg parentShort, List.reverse_reverse,
    safeStrcpy_of_short childShort]

/-! ## Folders and entries -/

/-- The segments of a path are those of its folder and of its entry. -/
theorem pathGrammar_separated_iff
    (parent child : CString) :
    PathGrammar (parent ++ pathSeparator :: child) ↔
      PathGrammar parent ∧ PathGrammar child ∧
        (parent ++ pathSeparator :: child).length ≤
          maxFilenameLength - 1 := by
  have sizes :
      (parent ++ pathSeparator :: child).length =
        parent.length + child.length + 1 := by
    rw [List.length_append, List.length_cons]
    omega
  have segmentLong :
      ∀ path : CString,
        (∀ segment ∈ segmentsOf path, NamesEntry segment) →
          1 ≤ path.length := by
    intro path named
    apply List.length_pos_iff.mpr
    rintro rfl
    exact (named [] (List.mem_singleton.mpr rfl)).1 rfl
  have separatorLegal : pathSeparator ∉ str "<>:\"|?*" := by
    decide
  constructor
  · rintro ⟨-, short, legal, segments⟩
    rw [segmentsOf_separated, List.forall_mem_append] at segments
    rw [List.forall_mem_append, List.forall_mem_cons] at legal
    exact
      ⟨⟨segmentLong parent segments.1, by omega, legal.1, segments.1⟩,
        ⟨segmentLong child segments.2, by omega, legal.2.2, segments.2⟩,
        short⟩
  · rintro ⟨parentGrammar, childGrammar, short⟩
    refine ⟨by omega, short, ?_, ?_⟩
    · rw [List.forall_mem_append, List.forall_mem_cons]
      exact ⟨parentGrammar.legal, separatorLegal, childGrammar.legal⟩
    · rw [segmentsOf_separated, List.forall_mem_append]
      exact ⟨parentGrammar.segments, childGrammar.segments⟩

/--
`ns_validate_logical_path` accepts the grammar, and the folder and the entry
`ns_split_parent_child` takes a path apart into are paths again.
-/
theorem nsValidateLogicalPath_grammar (path : CString) :
    (nsValidateLogicalPath path = true ↔ PathGrammar path) ∧
      (nsValidateLogicalPath path = true →
        ∃ parent child,
          nsSplitParentChild path = some (parent, child) ∧
            (parent = [] ∨ nsValidateLogicalPath parent = true) ∧
            nsValidateLogicalPath child = true ∧
            pathSeparator ∉ child ∧
            joinPath parent child = path) := by
  refine ⟨nsValidateLogicalPath_iff path, ?_⟩
  intro valid
  have short := length_lt_of_nsValidateLogicalPath valid
  by_cases separated : pathSeparator ∈ path
  · obtain ⟨child, free, split⟩ := exists_child separated
    generalize parentPath pathSeparator path = parent at split
    subst split
    have grammar :=
      (pathGrammar_separated_iff parent child).mp
        ((nsValidateLogicalPath_iff _).mp valid)
    have named : parent ≠ [] := List.length_pos_iff.mp grammar.1.long
    refine ⟨parent, child, nsSplitParentChild_separated short free,
      .inr ?_, ?_, free, ?_⟩
    · exact (nsValidateLogicalPath_iff parent).mpr grammar.1
    · exact (nsValidateLogicalPath_iff child).mpr grammar.2.1
    · rw [joinPath, if_neg named]
  · exact ⟨[], path, nsSplitParentChild_of_not_mem short separated, .inl rfl,
      valid, separated, rfl⟩

end DistributedDocs
