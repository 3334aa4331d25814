import Mathlib.Data.Set.Basic
import Mathlib.Data.List.TakeWhile
import Mathlib.Logic.Relation

namespace DistributedDocs

/-!
# Trees of paths

A path is a list in which a separator ends the name of a folder.  A set of
paths, some of them folders, is a tree if the folder of every path is in it.
Entering a path, taking a subtree out and giving it a new root keep a tree.
-/

section Paths

variable
  {α : Type*}
  [DecidableEq α]
  (separator : α)

/-- What stands before the last separator; nothing if there is none. -/
def parentPath (path : List α) : List α :=
  ((path.reverse.dropWhile fun c => c ≠ separator).drop 1).reverse

/-- A path is the source, or below it if that is a folder. -/
def Along (source : List α) (isFolder : Bool) (path : List α) : Prop :=
  path = source ∨
    isFolder = true ∧ ∃ rest, path = source ++ separator :: rest

/-- The folder of every entry is an entry. -/
def PathTree (entries : Set (List α × Bool)) : Prop :=
  ∀ entry ∈ entries,
    parentPath separator entry.1 = [] ∨
      (parentPath separator entry.1, true) ∈ entries

/-- No path is entered both as a folder and as none. -/
def OneKindEach (entries : Set (List α × Bool)) : Prop :=
  ∀ path first second,
    (path, first) ∈ entries → (path, second) ∈ entries → first = second

variable {separator}

theorem parentPath_of_not_mem
    {path : List α}
    (free : separator ∉ path) :
    parentPath separator path = [] := by
  have none :
      path.reverse.dropWhile (fun c => decide (c ≠ separator)) = [] := by
    rw [List.dropWhile_eq_nil_iff]
    intro c member
    rw [List.mem_reverse] at member
    exact decide_eq_true fun same => free (same ▸ member)
  rw [parentPath, none]
  rfl

@[simp] theorem parentPath_append_cons
    (parent : List α)
    {child : List α}
    (free : separator ∉ child) :
    parentPath separator (parent ++ separator :: child) = parent := by
  have passed :
      ∀ c ∈ child.reverse, decide (c ≠ separator) = true := by
    intro c member
    rw [List.mem_reverse] at member
    exact decide_eq_true fun same => free (same ▸ member)
  have split :
      (parent ++ separator :: child).reverse =
        child.reverse ++ (separator :: parent.reverse) := by
    simp
  rw [parentPath, split, List.dropWhile_append_of_pos passed,
    List.dropWhile_cons_of_neg (by simp), List.drop_one, List.tail_cons,
    List.reverse_reverse]

/-- A path with a separator is its parent and a name. -/
theorem exists_child
    {path : List α}
    (member : separator ∈ path) :
    ∃ child, separator ∉ child ∧
      path = parentPath separator path ++ separator :: child := by
  have parts :=
    List.takeWhile_append_dropWhile
      (p := fun c => decide (c ≠ separator)) (l := path.reverse)
  cases rest : path.reverse.dropWhile fun c => decide (c ≠ separator) with
  | nil =>
      have free := List.dropWhile_eq_nil_iff.mp rest separator
        (List.mem_reverse.mpr member)
      simp at free
  | cons c front =>
      have stopped :=
        List.head?_dropWhile_not (fun c => decide (c ≠ separator))
          path.reverse
      rw [rest] at stopped parts
      have isSeparator : c = separator := by simpa using stopped
      subst isSeparator
      refine ⟨(path.reverse.takeWhile fun d => decide (d ≠ c)).reverse, ?_,
        ?_⟩
      · intro inChild
        rw [List.mem_reverse] at inChild
        simpa using List.mem_takeWhile_imp inChild
      · rw [parentPath, rest, List.drop_one, List.tail_cons]
        have back := congrArg List.reverse parts
        simpa using back.symm

theorem mem_of_parentPath
    {path : List α}
    (hasParent : parentPath separator path ≠ []) :
    separator ∈ path := by
  by_contra free
  exact hasParent (parentPath_of_not_mem free)

/-- Below a folder, the parent depends on the folder in the same way. -/
theorem exists_parentPath_below (rest : List α) :
    ∃ tail : List α,
      (tail = [] ∨ ∃ inner, tail = separator :: inner) ∧
        ∀ folder : List α,
          parentPath separator (folder ++ separator :: rest) =
            folder ++ tail := by
  by_cases member : separator ∈ rest
  · obtain ⟨child, free, split⟩ := exists_child member
    refine ⟨separator :: parentPath separator rest, .inr ⟨_, rfl⟩,
      fun folder => ?_⟩
    have regrouped :
        folder ++ separator :: rest =
          (folder ++ separator :: parentPath separator rest) ++
            separator :: child := by
      conv_lhs => rw [split]
      simp
    rw [regrouped, parentPath_append_cons _ free]
  · exact ⟨[], .inl rfl, fun folder => by simp [member]⟩

theorem length_parentPath_le (path : List α) :
    (parentPath separator path).length ≤ path.length := by
  have shorter :=
    (List.dropWhile_suffix (l := path.reverse)
      fun c => decide (c ≠ separator)).length_le
  rw [List.length_reverse] at shorter
  rw [parentPath, List.length_reverse, List.length_drop]
  omega

/-! ### Folders and what is below them -/

/-- What is below a folder leads to it by parents. -/
theorem transGen_of_below
    (folder rest : List α) :
    Relation.TransGen
      (fun path parent => parentPath separator path = parent)
      (folder ++ separator :: rest) folder := by
  by_cases member : separator ∈ rest
  · obtain ⟨child, free, split⟩ := exists_child member
    have shorter : (parentPath separator rest).length < rest.length := by
      have lengths := congrArg List.length split
      rw [List.length_append, List.length_cons] at lengths
      omega
    have regrouped :
        folder ++ separator :: rest =
          (folder ++ separator :: parentPath separator rest) ++
            separator :: child := by
      conv_lhs => rw [split]
      simp
    apply Relation.TransGen.head _
      (transGen_of_below folder (parentPath separator rest))
    rw [regrouped, parentPath_append_cons _ free]
  · exact .single (parentPath_append_cons folder member)
termination_by rest.length

/-- What leads to a folder by parents is below it. -/
theorem below_of_transGen
    {folder path : List α}
    (named : folder ≠ [])
    (reached :
      Relation.TransGen
        (fun path parent => parentPath separator path = parent)
        path folder) :
    ∃ rest, path = folder ++ separator :: rest := by
  induction reached using Relation.TransGen.head_induction_on with
  | single isParent =>
      subst isParent
      obtain ⟨child, -, split⟩ := exists_child (mem_of_parentPath named)
      exact ⟨child, split⟩
  | head isParent _ inductionHypothesis =>
      obtain ⟨rest, below⟩ := inductionHypothesis
      subst isParent
      obtain ⟨child, -, split⟩ :=
        exists_child (mem_of_parentPath (by rw [below]; simp))
      refine ⟨rest ++ separator :: child, ?_⟩
      calc
        _ = parentPath separator _ ++ separator :: child := split
        _ = folder ++ separator :: (rest ++ separator :: child) := by
          rw [below]
          simp

omit [DecidableEq α] in
theorem Along.refl
    (folder : List α)
    (isFolder : Bool) :
    Along separator folder isFolder folder :=
  .inl rfl

omit [DecidableEq α] in
theorem Along.trans
    {top folder path : List α}
    (inside : Along separator folder true path)
    (outer : Along separator top true folder) :
    Along separator top true path := by
  rcases inside with rfl | ⟨-, rest, rfl⟩
  · exact outer
  · rcases outer with rfl | ⟨-, between, rfl⟩
    · exact .inr ⟨rfl, rest, rfl⟩
    · exact .inr ⟨rfl, between ++ separator :: rest, by simp⟩

omit [DecidableEq α] in
theorem Along.antisymm
    {first second : List α}
    (below : Along separator first true second)
    (above : Along separator second true first) :
    first = second := by
  rcases below with rfl | ⟨-, rest, isSecond⟩
  · rfl
  · rcases above with same | ⟨-, between, isFirst⟩
    · exact same
    · have longer := congrArg List.length isSecond
      have shorter := congrArg List.length isFirst
      rw [List.length_append, List.length_cons] at longer shorter
      omega

end Paths

/-! ## Operations on trees -/

section Trees

variable
  {α : Type*}
  [DecidableEq α]
  {separator : α}
  {entries : Set (List α × Bool)}
  {source : List α}
  {isFolder : Bool}

/-- If the folder of an entry goes along, so does the entry. -/
theorem along_of_parent
    (oneKind : OneKindEach entries)
    (present : (source, isFolder) ∈ entries)
    {path : List α}
    (hasParent : parentPath separator path ≠ [])
    (folder : (parentPath separator path, true) ∈ entries)
    (along : Along separator source isFolder (parentPath separator path)) :
    Along separator source isFolder path := by
  obtain ⟨child, -, split⟩ := exists_child (mem_of_parentPath hasParent)
  rcases along with isSource | ⟨sourceFolder, rest, below⟩
  · rw [isSource] at folder split
    exact .inr ⟨oneKind source isFolder true present folder, child, split⟩
  · rw [below] at split
    exact .inr ⟨sourceFolder, rest ++ separator :: child, by simpa using split⟩

namespace PathTree

theorem empty : PathTree separator (∅ : Set (List α × Bool)) :=
  fun _ member => member.elim

/-- A path whose folder there is may be entered. -/
theorem insert
    (tree : PathTree separator entries)
    {path : List α}
    {flag : Bool}
    (placed :
      parentPath separator path = [] ∨
        (parentPath separator path, true) ∈ entries) :
    PathTree separator (Insert.insert (path, flag) entries) := by
  rintro entry (rfl | old)
  · exact placed.imp_right .inr
  · exact (tree entry old).imp_right .inr

/-- A path and what is below it may be taken out. -/
theorem remove
    (tree : PathTree separator entries)
    (oneKind : OneKindEach entries)
    (present : (source, isFolder) ∈ entries) :
    PathTree separator
      {entry ∈ entries | ¬Along separator source isFolder entry.1} := by
  rintro entry ⟨member, stays⟩
  by_cases top : parentPath separator entry.1 = []
  · exact .inl top
  · have folder := (tree entry member).resolve_left top
    exact .inr
      ⟨folder, fun along =>
        stays (along_of_parent oneKind present top folder along)⟩

/--
A path and what is below it may be given a new root, in a folder that does
not go along.
-/
theorem rebase
    (tree : PathTree separator entries)
    (oneKind : OneKindEach entries)
    (present : (source, isFolder) ∈ entries)
    (named : source ≠ [])
    {root : List α}
    (placed :
      parentPath separator root = [] ∨
        (parentPath separator root, true) ∈ entries ∧
          ¬Along separator source isFolder (parentPath separator root))
    {rename : List α → List α}
    (moves :
      ∀ rest, Along separator source isFolder (source ++ rest) →
        rename (source ++ rest) = root ++ rest)
    (stays :
      ∀ path, ¬Along separator source isFolder path → rename path = path) :
    PathTree separator
      ((fun entry => (rename entry.1, entry.2)) '' entries) := by
  have held :
      ∀ path flag, (path, flag) ∈ entries →
        (rename path, flag) ∈
          (fun entry : List α × Bool => (rename entry.1, entry.2)) ''
            entries :=
    fun path flag member => ⟨(path, flag), member, rfl⟩
  rintro _ ⟨⟨path, flag⟩, member, rfl⟩
  by_cases along : Along separator source isFolder path
  · rcases along with rfl | ⟨sourceFolder, rest, rfl⟩
    · have isRoot := moves [] (.inl (List.append_nil path))
      rw [List.append_nil, List.append_nil] at isRoot
      change
        parentPath separator (rename path) = [] ∨
          (parentPath separator (rename path), true) ∈ _
      rw [isRoot]
      refine placed.imp_right fun ⟨folder, outside⟩ => ?_
      have unmoved := held _ true folder
      rw [stays _ outside] at unmoved
      exact unmoved
    · obtain ⟨tail, tailForm, parents⟩ :=
        @exists_parentPath_below _ _ separator rest
      have isBelow : Along separator source isFolder (source ++ tail) := by
        rcases tailForm with rfl | ⟨inner, rfl⟩
        · exact .inl (List.append_nil source)
        · exact .inr ⟨sourceFolder, inner, rfl⟩
      have moved := moves (separator :: rest) (.inr ⟨sourceFolder, rest, rfl⟩)
      change
        parentPath separator (rename (source ++ separator :: rest)) = [] ∨
          (parentPath separator (rename (source ++ separator :: rest)),
            true) ∈ _
      rw [moved, parents]
      have folder :=
        (tree _ member).resolve_left (by rw [parents]; simp [named])
      rw [parents] at folder
      have entered := held _ true folder
      rw [moves tail isBelow] at entered
      exact .inr entered
  · change
      parentPath separator (rename path) = [] ∨
        (parentPath separator (rename path), true) ∈ _
    rw [stays path along]
    by_cases top : parentPath separator path = []
    · exact .inl top
    · have folder := (tree _ member).resolve_left top
      have unmoved := held _ true folder
      rw [stays _ fun goes =>
        along (along_of_parent oneKind present top folder goes)] at unmoved
      exact .inr unmoved

end PathTree

end Trees

end DistributedDocs
