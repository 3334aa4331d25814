import Mathlib.Data.List.Nodup

namespace DistributedDocs

/-!
# Stores under renaming

Servers hold documents under names.  A renaming gives the document of one name
to another that is free; it can be taken back.  Renamings whose names are all
apart can be made in any order, and each moves exactly its own document.
-/

variable {Server Name Document : Type*}

/-- What each server holds under each name. -/
abbrev NamedStore (Server Name Document : Type*) :=
  Server → Name → Option Document

/-- A new name for what a server holds. -/
structure Renaming (Server Name : Type*) where
  server : Server
  old : Name
  new : Name

namespace Renaming

/-- The renaming that takes this one back. -/
def inverse (change : Renaming Server Name) : Renaming Server Name :=
  ⟨change.server, change.new, change.old⟩

variable [DecidableEq Server] [DecidableEq Name]

/-- The store after a renaming. -/
def apply
    (change : Renaming Server Name)
    (store : NamedStore Server Name Document) :
    NamedStore Server Name Document :=
  fun server name =>
    if server = change.server then
      if name = change.new then store change.server change.old
      else if name = change.old then none
      else store server name
    else
      store server name

/-- There is something to rename, and its new name is free. -/
structure Possible
    (store : NamedStore Server Name Document)
    (change : Renaming Server Name) : Prop where
  held : (store change.server change.old).isSome = true
  free : store change.server change.new = none

omit [DecidableEq Server] [DecidableEq Name] in
theorem Possible.old_ne_new
    {store : NamedStore Server Name Document}
    {change : Renaming Server Name}
    (possible : Possible store change) :
    change.old ≠ change.new := by
  intro same
  have held := possible.held
  rw [same, possible.free] at held
  cases held

theorem Possible.inverse
    {store : NamedStore Server Name Document}
    {change : Renaming Server Name}
    (possible : Possible store change) :
    Possible (change.apply store) change.inverse where
  held := by
    simpa [Renaming.inverse, apply] using possible.held
  free := by
    simp [Renaming.inverse, apply, possible.old_ne_new]

/-- A renaming that was possible can be taken back. -/
theorem Possible.apply_inverse
    {store : NamedStore Server Name Document}
    {change : Renaming Server Name}
    (possible : Possible store change) :
    change.inverse.apply (change.apply store) = store := by
  funext server name
  simp only [Renaming.inverse, apply]
  by_cases here : server = change.server
  · subst here
    by_cases isOld : name = change.old
    · simp [isOld]
    · by_cases isNew : name = change.new
      · simp [isNew, possible.old_ne_new.symm, possible.free]
      · simp [isOld, isNew]
  · simp [here]

/-- The renamings made one after the other. -/
def applyAll
    (renamings : List (Renaming Server Name))
    (store : NamedStore Server Name Document) :
    NamedStore Server Name Document :=
  renamings.foldl (fun store change => change.apply store) store

/-- Renamings that do not meet: of held names to free ones, all apart. -/
structure Apart
    (store : NamedStore Server Name Document)
    (renamings : List (Renaming Server Name)) : Prop where
  held :
    ∀ change ∈ renamings,
      (store change.server change.old).isSome = true
  free : ∀ change ∈ renamings, store change.server change.new = none
  olds_nodup : (renamings.map Renaming.old).Nodup
  news_nodup : (renamings.map Renaming.new).Nodup
  new_ne_old :
    ∀ change ∈ renamings, ∀ other ∈ renamings,
      change.new ≠ other.old

section Apart

variable
  {store : NamedStore Server Name Document}
  {change : Renaming Server Name}
  {rest : List (Renaming Server Name)}

omit [DecidableEq Server] [DecidableEq Name] in
theorem Apart.possible
    (apart : Apart store (change :: rest)) :
    Possible store change :=
  ⟨apart.held change (by simp), apart.free change (by simp)⟩

theorem apply_of_ne
    {server : Server}
    {name : Name}
    (notMentioned :
      server = change.server → name ≠ change.new ∧ name ≠ change.old) :
    change.apply store server name = store server name := by
  unfold apply
  split
  · next here =>
    obtain ⟨notNew, notOld⟩ := notMentioned here
    rw [if_neg notNew, if_neg notOld]
  · rfl

/-- After the first, the others still do not meet. -/
theorem Apart.tail
    (apart : Apart store (change :: rest)) :
    Apart (change.apply store) rest := by
  have oldsNodup := apart.olds_nodup
  have newsNodup := apart.news_nodup
  rw [List.map_cons, List.nodup_cons] at oldsNodup newsNodup
  have oldApart :
      ∀ other ∈ rest, other.old ≠ change.new ∧
        other.old ≠ change.old := by
    intro other member
    refine ⟨fun same => ?_, fun same => ?_⟩
    · exact apart.new_ne_old change (by simp) other (by simp [member])
        same.symm
    · exact oldsNodup.1 (same ▸ List.mem_map_of_mem member)
  have newApart :
      ∀ other ∈ rest, other.new ≠ change.new ∧
        other.new ≠ change.old := by
    intro other member
    refine ⟨fun same => ?_, fun same => ?_⟩
    · exact newsNodup.1 (same ▸ List.mem_map_of_mem member)
    · exact apart.new_ne_old other (by simp [member]) change (by simp) same
  exact
    { held := fun other member => by
        rw [apply_of_ne fun _ => oldApart other member]
        exact apart.held other (by simp [member])
      free := fun other member => by
        rw [apply_of_ne fun _ => newApart other member]
        exact apart.free other (by simp [member])
      olds_nodup := oldsNodup.2
      news_nodup := newsNodup.2
      new_ne_old := fun first firstHeld second secondHeld =>
        apart.new_ne_old first (by simp [firstHeld]) second
          (by simp [secondHeld]) }

/-- A name no renaming mentions keeps what it holds. -/
theorem applyAll_of_not_mem
    {renamings : List (Renaming Server Name)}
    {store : NamedStore Server Name Document}
    {server : Server}
    {name : Name}
    (notMentioned :
      ∀ change ∈ renamings,
        server = change.server →
          name ≠ change.new ∧ name ≠ change.old) :
    applyAll renamings store server name = store server name := by
  induction renamings generalizing store with
  | nil =>
      rfl
  | cons change rest inductionHypothesis =>
      refine (inductionHypothesis fun other member =>
        notMentioned other (by simp [member])).trans ?_
      exact apply_of_ne (notMentioned change (by simp))

/-- The renamings together move each document from its old name to its new. -/
theorem Apart.applyAll
    {renamings : List (Renaming Server Name)}
    {store : NamedStore Server Name Document}
    (apart : Apart store renamings)
    {change : Renaming Server Name}
    (member : change ∈ renamings) :
    Renaming.applyAll renamings store change.server change.new =
        store change.server change.old ∧
      Renaming.applyAll renamings store change.server change.old =
        none := by
  induction renamings generalizing store with
  | nil =>
      cases member
  | cons first rest inductionHypothesis =>
      have newsNodup := apart.news_nodup
      have oldsNodup := apart.olds_nodup
      rw [List.map_cons, List.nodup_cons] at newsNodup oldsNodup
      rcases List.mem_cons.mp member with rfl | later
      · have newStays :
            ∀ other ∈ rest,
              change.new ≠ other.new ∧ change.new ≠ other.old :=
          fun other held =>
            ⟨fun same => newsNodup.1 (same ▸ List.mem_map_of_mem held),
              apart.new_ne_old change (by simp) other (by simp [held])⟩
        have oldStays :
            ∀ other ∈ rest,
              change.old ≠ other.new ∧ change.old ≠ other.old :=
          fun other held =>
            ⟨fun same => apart.new_ne_old other (by simp [held]) change
              (by simp) same.symm,
              fun same => oldsNodup.1 (same ▸ List.mem_map_of_mem held)⟩
        have different := apart.possible.old_ne_new
        exact
          ⟨(applyAll_of_not_mem fun other held _ => newStays other
            held).trans (by simp [apply]),
            (applyAll_of_not_mem fun other held _ => oldStays other
              held).trans (by simp [apply, different])⟩
      · obtain ⟨moved, emptied⟩ := inductionHypothesis apart.tail later
        refine ⟨moved.trans (apply_of_ne fun _ => ⟨?_, ?_⟩), emptied⟩
        · intro same
          exact apart.new_ne_old first (by simp) change member same.symm
        · intro same
          exact oldsNodup.1 (same ▸ List.mem_map_of_mem later)

end Apart

end Renaming

end DistributedDocs
