import Mathlib.Data.List.Nodup
import Mathlib.Data.List.FinRange

namespace DistributedDocs

/-!
# Hash tables with chaining

Each bucket holds a chain of nodes.  A table is well formed when every node
hangs in the bucket of its key and no chain holds a key twice; it then is a
partial map from keys to values, and insertion and removal act on that map.
-/

variable {Key Value : Type*} {buckets : Nat}

/-- A node of a chain. -/
structure ChainNode (Key Value : Type*) where
  key : Key
  value : Value
  deriving DecidableEq

/-- The chains of all buckets. -/
abbrev ChainedIndex (Key Value : Type*) (buckets : Nat) :=
  Fin buckets → List (ChainNode Key Value)

namespace ChainedIndex

/-- Replace one chain. -/
def setChain
    (bucket : Fin buckets)
    (chain : List (ChainNode Key Value))
    (table : ChainedIndex Key Value buckets) :
    ChainedIndex Key Value buckets :=
  fun other => if other = bucket then chain else table other

/-- All nodes of the table. -/
def nodes (table : ChainedIndex Key Value buckets) :
    List (ChainNode Key Value) :=
  (List.finRange buckets).flatMap table

variable [DecidableEq Key] (hash : Key → Fin buckets)

/-- The first node of the key's chain that holds the key. -/
def find (key : Key) (table : ChainedIndex Key Value buckets) :
    Option Value :=
  ((table (hash key)).find? fun node => node.key = key).map ChainNode.value

/-- Give a new value to the first node of a chain that holds the key. -/
def assign (key : Key) (value : Value) :
    List (ChainNode Key Value) → List (ChainNode Key Value)
  | [] =>
      []
  | node :: rest =>
      if node.key = key then
        { node with value := value } :: rest
      else
        node :: assign key value rest

/--
Assign to the node that holds the key, or put a new node with the key as it is
`stored` in front of the chain.
-/
def insert
    (key stored : Key)
    (value : Value)
    (table : ChainedIndex Key Value buckets) :
    ChainedIndex Key Value buckets :=
  let chain := table (hash key)
  setChain (hash key)
    (if chain.any fun node => node.key = key then
      assign key value chain
    else
      ⟨stored, value⟩ :: chain)
    table

/-- Unlink the first node that holds the key. -/
def remove (key : Key) (table : ChainedIndex Key Value buckets) :
    ChainedIndex Key Value buckets :=
  setChain (hash key)
    ((table (hash key)).eraseP fun node => node.key = key) table

/-- Assign to the node that holds the key, if there is one. -/
def update
    (key : Key)
    (value : Value)
    (table : ChainedIndex Key Value buckets) :
    ChainedIndex Key Value buckets :=
  setChain (hash key) (assign key value (table (hash key))) table

/-- Every node hangs where its key belongs, and no key is held twice. -/
structure WellFormed (table : ChainedIndex Key Value buckets) : Prop where
  hashed : ∀ bucket, ∀ node ∈ table bucket, hash node.key = bucket
  keys_nodup : ∀ bucket, ((table bucket).map ChainNode.key).Nodup

/-! ## Chains -/

section Chains

variable
  {key other : Key}
  {value : Value}
  {chain : List (ChainNode Key Value)}

@[simp] theorem keys_assign :
    (assign key value chain).map ChainNode.key =
      chain.map ChainNode.key := by
  induction chain with
  | nil =>
      rfl
  | cons node rest inductionHypothesis =>
      simp only [assign]
      split
      · rfl
      · simp [inductionHypothesis]

theorem find_assign_of_ne (different : other ≠ key) :
    (assign key value chain).find? (fun node => node.key = other) =
      chain.find? fun node => node.key = other := by
  induction chain with
  | nil =>
      rfl
  | cons node rest inductionHypothesis =>
      simp only [assign]
      split
      · next same =>
        simp [same, different.symm]
      · simp [List.find?_cons, inductionHypothesis]

theorem find_assign_same :
    ((assign key value chain).find? fun node => node.key = key).map
        ChainNode.value =
      if chain.any (fun node => node.key = key) then some value
      else none := by
  induction chain with
  | nil =>
      rfl
  | cons node rest inductionHypothesis =>
      simp only [assign]
      split
      · next same =>
        simp [same]
      · next different =>
        simpa [List.find?_cons, different] using inductionHypothesis

theorem find_eraseP_of_ne (different : other ≠ key) :
    (chain.eraseP fun node => node.key = key).find?
        (fun node => node.key = other) =
      chain.find? fun node => node.key = other := by
  induction chain with
  | nil =>
      rfl
  | cons node rest inductionHypothesis =>
      by_cases same : node.key = key
      · simp [same, different.symm]
      · simp [List.find?_cons, same, inductionHypothesis]

theorem find_eraseP_same
    (keysNodup : (chain.map ChainNode.key).Nodup) :
    (chain.eraseP fun node => node.key = key).find?
        (fun node => node.key = key) =
      none := by
  induction chain with
  | nil =>
      rfl
  | cons node rest inductionHypothesis =>
      simp only [List.map_cons, List.nodup_cons] at keysNodup
      by_cases same : node.key = key
      · rw [List.eraseP_cons_of_pos (by simpa using same), List.find?_eq_none]
        intro later member sameLater
        apply keysNodup.1
        rw [same, ← of_decide_eq_true sameLater]
        exact List.mem_map_of_mem member
      · simp [same, inductionHypothesis keysNodup.2]

end Chains

/-! ## The map a table is -/

section Laws

variable
  {hash}
  {table : ChainedIndex Key Value buckets}

theorem find_setChain
    (bucket : Fin buckets)
    (chain : List (ChainNode Key Value))
    (key : Key) :
    find hash key (setChain bucket chain table) =
      if hash key = bucket then
        (chain.find? fun node => node.key = key).map ChainNode.value
      else
        find hash key table := by
  unfold find setChain
  split <;> rfl

theorem find_insert (key other : Key) (value : Value) :
    find hash other (insert hash key key value table) =
      if other = key then some value else find hash other table := by
  rw [insert, find_setChain]
  by_cases same : other = key
  · subst same
    simp only [↓reduceIte]
    split
    · next held =>
      rw [find_assign_same, if_pos held]
    · simp
  · simp only [same, ↓reduceIte]
    split
    · next sameBucket =>
      split
      · rw [find_assign_of_ne same, find, sameBucket]
      · simp [Ne.symm same, find, sameBucket]
    · rfl

theorem find_remove
    (wellFormed : WellFormed hash table)
    (key other : Key) :
    find hash other (remove hash key table) =
      if other = key then none else find hash other table := by
  rw [remove, find_setChain]
  by_cases same : other = key
  · subst same
    simp [find_eraseP_same (wellFormed.keys_nodup _)]
  · simp only [same, ↓reduceIte]
    split
    · next sameBucket =>
      rw [find_eraseP_of_ne same, find, sameBucket]
    · rfl

theorem isSome_find_iff (key : Key) :
    (find hash key table).isSome =
      (table (hash key)).any fun node => node.key = key := by
  rw [find, Option.isSome_map, Bool.eq_iff_iff, List.find?_isSome,
    List.any_eq_true]

theorem find_update (key other : Key) (value : Value) :
    find hash other (update hash key value table) =
      if other = key ∧ (find hash key table).isSome = true then
        some value
      else
        find hash other table := by
  rw [update, find_setChain]
  by_cases same : other = key
  · subst same
    simp only [↓reduceIte, find_assign_same, isSome_find_iff, true_and]
    split
    · rfl
    · next absent =>
      rw [Bool.not_eq_true, ← isSome_find_iff, Option.isSome_eq_false_iff,
        Option.isNone_iff_eq_none] at absent
      exact absent.symm
  · simp only [same, ↓reduceIte, false_and]
    split
    · next sameBucket =>
      rw [find_assign_of_ne same, find, sameBucket]
    · rfl

omit [DecidableEq Key] in
theorem WellFormed.setChain
    (wellFormed : WellFormed hash table)
    {bucket : Fin buckets}
    {chain : List (ChainNode Key Value)}
    (hashed : ∀ node ∈ chain, hash node.key = bucket)
    (keysNodup : (chain.map ChainNode.key).Nodup) :
    WellFormed hash (ChainedIndex.setChain bucket chain table) := by
  constructor
  · intro other node member
    simp only [ChainedIndex.setChain] at member
    split at member
    · next same =>
      exact (hashed node member).trans same.symm
    · exact wellFormed.hashed other node member
  · intro other
    simp only [ChainedIndex.setChain]
    split
    · exact keysNodup
    · exact wellFormed.keys_nodup other

theorem WellFormed.assign
    (wellFormed : WellFormed hash table)
    (key : Key)
    (value : Value) :
    (∀ node ∈ ChainedIndex.assign key value (table (hash key)),
        hash node.key = hash key) ∧
      ((ChainedIndex.assign key value (table (hash key))).map
        ChainNode.key).Nodup := by
  rw [keys_assign]
  refine ⟨?_, wellFormed.keys_nodup _⟩
  intro node member
  have keyMember := List.mem_map_of_mem (f := ChainNode.key) member
  rw [keys_assign] at keyMember
  obtain ⟨held, heldMember, sameKey⟩ := List.mem_map.mp keyMember
  rw [← sameKey]
  exact wellFormed.hashed _ held heldMember

theorem WellFormed.update
    (wellFormed : WellFormed hash table)
    (key : Key)
    (value : Value) :
    WellFormed hash (ChainedIndex.update hash key value table) :=
  have assigned := wellFormed.assign key value
  wellFormed.setChain assigned.1 assigned.2

theorem WellFormed.insert
    (wellFormed : WellFormed hash table)
    (key : Key)
    (value : Value) :
    WellFormed hash (ChainedIndex.insert hash key key value table) := by
  simp only [ChainedIndex.insert]
  split
  · exact wellFormed.update key value
  · next absent =>
    refine wellFormed.setChain ?_ ?_
    · intro node member
      rcases List.mem_cons.mp member with rfl | held
      · rfl
      · exact wellFormed.hashed _ node held
    · rw [List.map_cons, List.nodup_cons]
      refine ⟨?_, wellFormed.keys_nodup _⟩
      intro member
      obtain ⟨node, held, sameKey⟩ := List.mem_map.mp member
      exact absent (List.any_eq_true.mpr ⟨node, held, by simpa using sameKey⟩)

theorem WellFormed.remove
    (wellFormed : WellFormed hash table)
    (key : Key) :
    WellFormed hash (ChainedIndex.remove hash key table) :=
  wellFormed.setChain
    (fun node member =>
      wellFormed.hashed _ node (List.mem_of_mem_eraseP member))
    ((List.eraseP_sublist.map _).nodup (wellFormed.keys_nodup _))

omit [DecidableEq Key] in
theorem wellFormed_empty :
    WellFormed hash (fun _ => [] : ChainedIndex Key Value buckets) := by
  constructor <;> simp

/-- In a chain without repetitions a key has one node or none. -/
theorem filter_key_of_nodup
    {chain : List (ChainNode Key Value)}
    (keysNodup : (chain.map ChainNode.key).Nodup)
    (key : Key) :
    chain.filter (fun node => node.key = key) =
      (chain.find? fun node => node.key = key).toList := by
  induction chain with
  | nil =>
      rfl
  | cons node rest inductionHypothesis =>
      simp only [List.map_cons, List.nodup_cons] at keysNodup
      have recursive := inductionHypothesis keysNodup.2
      by_cases same : node.key = key
      · have noLater : rest.find? (fun later => later.key = key) = none := by
          rw [List.find?_eq_none]
          intro later member sameLater
          apply keysNodup.1
          rw [same, ← of_decide_eq_true sameLater]
          exact List.mem_map_of_mem member
        rw [noLater] at recursive
        simp [same, recursive]
      · simp [same, recursive]

/-- A well-formed table has exactly one node for each key it maps. -/
theorem WellFormed.filter_nodes
    (wellFormed : WellFormed hash table)
    (key : Key) :
    table.nodes.filter (fun node => node.key = key) =
      ((find hash key table).map fun value => ⟨key, value⟩).toList := by
  have elsewhere :
      ∀ bucket, bucket ≠ hash key →
        (table bucket).filter (fun node => node.key = key) = [] := by
    intro bucket different
    rw [List.filter_eq_nil_iff]
    intro node member same
    apply different
    rw [← wellFormed.hashed bucket node member, of_decide_eq_true same]
  have concentrated :
      table.nodes.filter (fun node => node.key = key) =
        (table (hash key)).filter fun node => node.key = key := by
    have listed : hash key ∈ List.finRange buckets := List.mem_finRange _
    obtain ⟨before, after, split⟩ := List.append_of_mem listed
    have once := List.nodup_finRange buckets
    rw [split, List.nodup_middle, List.nodup_cons] at once
    have empties :
        ∀ part : List (Fin buckets), (∀ bucket ∈ part, bucket ≠ hash key) →
          (part.flatMap table).filter (fun node => node.key = key) = [] := by
      intro part apart
      rw [List.filter_flatMap, List.flatMap_eq_nil_iff]
      exact fun bucket member => elsewhere bucket (apart bucket member)
    rw [nodes, split, List.flatMap_append, List.flatMap_cons,
      List.filter_append, List.filter_append,
      empties before fun bucket member same =>
        once.1 (List.mem_append_left _ (same ▸ member)),
      empties after fun bucket member same =>
        once.1 (List.mem_append_right _ (same ▸ member)),
      List.nil_append, List.append_nil]
  rw [concentrated, filter_key_of_nodup (wellFormed.keys_nodup _), find]
  cases held : (table (hash key)).find? fun node => node.key = key with
  | none =>
      rfl
  | some node =>
      have sameKey : node.key = key := by
        simpa using List.find?_some held
      simp [← sameKey]

end Laws

end ChainedIndex

end DistributedDocs
