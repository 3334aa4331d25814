import DistributedDocs.CommandOrder

namespace DistributedDocs

/-!
# A store of versioned documents

A document has a content, at most one earlier content to go back to, and
snapshots under tags, of which only the latest are kept.
-/

/-- A document; the snapshots are in the order they were taken in. -/
@[ext]
structure VersionedDocument (Tag Text : Type) where
  content : Text
  previous : Option Text
  snapshots : List (Tag × Text)

/-- Documents by name. -/
abbrev VersionedStore (Name Tag Text : Type) :=
  Name → Option (VersionedDocument Tag Text)

/-- What is done to the documents. -/
inductive StoreCommand (Name Tag Text Edit : Type) where
  | create (name : Name)
  | remove (name : Name)
  | move (old new : Name)
  | edit (name : Name) (change : Edit)
  | replace (name : Name) (text : Text)
  | copy (source destination : Name)
  | undo (name : Name)
  | checkpoint (name : Name) (tag : Tag)
  | revert (name : Name) (tag : Tag)
  deriving DecidableEq

/-- How a text is edited, which text is empty, and how many snapshots stay. -/
structure StoreRules (Text Edit : Type) where
  perform : Edit → Text → Text
  empty : Text
  limit : Nat

variable {Name Tag Text Edit : Type}

namespace VersionedDocument

/-- The document with a new content, from which there is a way back. -/
def edited (doc : VersionedDocument Tag Text) (text : Text) :
    VersionedDocument Tag Text :=
  { doc with
    content := text
    previous := some doc.content }

/-- The document with another content; the way back stays what it was. -/
def replaced (doc : VersionedDocument Tag Text) (text : Text) :
    VersionedDocument Tag Text :=
  { doc with content := text }

/-- Back to the earlier content, if there is one. -/
def undone (doc : VersionedDocument Tag Text) :
    Option (VersionedDocument Tag Text) :=
  doc.previous.map fun text =>
    { doc with
      content := text
      previous := none }

variable [DecidableEq Tag]

/-- The snapshot with a tag. -/
def snapshotAt (tag : Tag) (doc : VersionedDocument Tag Text) : Option Text :=
  (doc.snapshots.find? fun snapshot => snapshot.1 = tag).map Prod.snd

/-- A snapshot under a tag that is not in use; a full list loses the oldest. -/
def checkpointed
    (limit : Nat)
    (tag : Tag)
    (doc : VersionedDocument Tag Text) :
    Option (VersionedDocument Tag Text) :=
  if (doc.snapshotAt tag).isSome then
    none
  else
    some
      { doc with
        snapshots :=
          (if limit ≤ doc.snapshots.length then doc.snapshots.tail
            else doc.snapshots) ++ [(tag, doc.content)] }

/-- The content of a snapshot becomes the content. -/
def reverted (tag : Tag) (doc : VersionedDocument Tag Text) :
    Option (VersionedDocument Tag Text) :=
  (doc.snapshotAt tag).map doc.edited

end VersionedDocument

namespace StoreCommand

/-- The documents a command is about. -/
def footprint : StoreCommand Name Tag Text Edit → List Name
  | create name => [name]
  | remove name => [name]
  | move old new => [old, new]
  | edit name _ => [name]
  | replace name _ => [name]
  | copy source destination => [source, destination]
  | undo name => [name]
  | checkpoint name _ => [name]
  | revert name _ => [name]

variable [DecidableEq Name] [DecidableEq Tag]

/-- What a command writes, if it can be applied. -/
def effect
    (rules : StoreRules Text Edit) :
    StoreCommand Name Tag Text Edit → VersionedStore Name Tag Text →
      Option (List (Name × Option (VersionedDocument Tag Text)))
  | create name, store =>
      if (store name).isSome then none
      else some [(name, some ⟨rules.empty, none, []⟩)]
  | remove name, store =>
      (store name).map fun _ => [(name, none)]
  | move old new, store =>
      if new ≠ old ∧ (store new).isSome then none
      else (store old).map fun doc => [(old, none), (new, some doc)]
  | edit name change, store =>
      (store name).map fun doc =>
        [(name, some (doc.edited (rules.perform change doc.content)))]
  | replace name text, store =>
      (store name).map fun doc => [(name, some (doc.replaced text))]
  | copy source destination, store =>
      (store source).bind fun original =>
        (store destination).map fun doc =>
          [(destination, some (doc.replaced original.content))]
  | undo name, store =>
      (store name).bind fun doc =>
        doc.undone.map fun after => [(name, some after)]
  | checkpoint name tag, store =>
      (store name).bind fun doc =>
        (doc.checkpointed rules.limit tag).map fun after => [(name, some after)]
  | revert name tag, store =>
      (store name).bind fun doc =>
        (doc.reverted tag).map fun after => [(name, some after)]

/-- Apply a command. -/
def apply
    (rules : StoreRules Text Edit) :
    StoreCommand Name Tag Text Edit → VersionedStore Name Tag Text →
      Option (VersionedStore Name Tag Text) :=
  applyEffect (effect rules)

/-- A command reads and writes the documents it is about. -/
theorem isLocal (rules : StoreRules Text Edit) :
    IsLocal (@effect Name Tag Text Edit _ _ rules) footprint where
  reads command store other same := by
    cases command <;>
      simp only [footprint, List.mem_cons, List.not_mem_nil, or_false,
        forall_eq_or_imp, forall_eq] at same <;>
      simp only [effect, same]
  writes command store updates done name written := by
    have writtenHere : ∀ {place : Name} {doc},
        updates = [(place, doc)] → name = place := by
      rintro place doc rfl
      simpa using written
    cases command with
    | create made =>
        simp only [effect, Option.ite_none_left_eq_some,
          Option.some.injEq] at done
        simpa [footprint] using writtenHere done.2.symm
    | remove given =>
        simp only [effect, Option.map_eq_some_iff] at done
        obtain ⟨doc, _, rfl⟩ := done
        simpa [footprint] using writtenHere rfl
    | move old new =>
        simp only [effect, Option.ite_none_left_eq_some,
          Option.map_eq_some_iff] at done
        obtain ⟨_, doc, _, rfl⟩ := done
        simpa [footprint] using written
    | edit given change =>
        simp only [effect, Option.map_eq_some_iff] at done
        obtain ⟨doc, _, rfl⟩ := done
        simpa [footprint] using writtenHere rfl
    | replace given text =>
        simp only [effect, Option.map_eq_some_iff] at done
        obtain ⟨doc, _, rfl⟩ := done
        simpa [footprint] using writtenHere rfl
    | copy source destination =>
        simp only [effect, Option.bind_eq_some_iff,
          Option.map_eq_some_iff] at done
        obtain ⟨original, _, doc, _, rfl⟩ := done
        simpa [footprint] using Or.inr (writtenHere rfl)
    | undo given =>
        simp only [effect, Option.bind_eq_some_iff,
          Option.map_eq_some_iff] at done
        obtain ⟨doc, _, after, _, rfl⟩ := done
        simpa [footprint] using writtenHere rfl
    | checkpoint given tag =>
        simp only [effect, Option.bind_eq_some_iff,
          Option.map_eq_some_iff] at done
        obtain ⟨doc, _, after, _, rfl⟩ := done
        simpa [footprint] using writtenHere rfl
    | revert given tag =>
        simp only [effect, Option.bind_eq_some_iff,
          Option.map_eq_some_iff] at done
        obtain ⟨doc, _, after, _, rfl⟩ := done
        simpa [footprint] using writtenHere rfl

/-- The document whose content a command may change, if it stays a document. -/
def rewrites : StoreCommand Name Tag Text Edit → Option Name
  | edit name _ | replace name _ | undo name | revert name _ => some name
  | copy _ destination => some destination
  | create _ | remove _ | move _ _ | checkpoint _ _ => none

/-- Every other document that stays has the content it had. -/
theorem content_eq_of_not_rewritten
    {rules : StoreRules Text Edit}
    {command : StoreCommand Name Tag Text Edit}
    {store next : VersionedStore Name Tag Text}
    (applied : command.apply rules store = some next)
    {name : Name}
    {doc after : VersionedDocument Tag Text}
    (before : store name = some doc)
    (stays : next name = some after)
    (notRewritten : command.rewrites ≠ some name) :
    after.content = doc.content := by
  simp only [apply, applyEffect, Option.map_eq_some_iff] at applied
  obtain ⟨updates, written, rfl⟩ := applied
  have untouched :
      name ∉ updates.map Prod.fst → after.content = doc.content := by
    intro absent
    rw [writeAt_of_not_mem absent, before] at stays
    rw [Option.some.inj stays]
  have single :
      ∀ {place : Name} {left : Option (VersionedDocument Tag Text)},
        updates = [(place, left)] → some place ≠ some name →
          after.content = doc.content := by
    rintro place left rfl other
    refine untouched fun here => other ?_
    rw [List.mem_singleton.mp here]
  cases command with
  | create made =>
      simp only [effect, Option.ite_none_left_eq_some,
        Option.some.injEq] at written
      refine single written.2.symm ?_
      rintro isMade
      rw [Option.some.inj isMade, before] at written
      exact written.1 rfl
  | remove given =>
      simp only [effect, Option.map_eq_some_iff] at written
      obtain ⟨_, _, rfl⟩ := written
      refine single rfl ?_
      rintro isGiven
      rw [Option.some.inj isGiven] at stays
      simp at stays
  | move old new =>
      simp only [effect, Option.ite_none_left_eq_some,
        Option.map_eq_some_iff] at written
      obtain ⟨free, moved, found, rfl⟩ := written
      by_cases isNew : name = new
      · subst isNew
        by_cases same : name = old
        · subst same
          rw [before] at found
          simp only [writeAt_cons, writeAt_nil, Function.update_self] at stays
          rw [← Option.some.inj stays, ← Option.some.inj found]
        · exact absurd ⟨same, by rw [before]; rfl⟩ free
      · by_cases isOld : name = old
        · subst isOld
          simp [isNew] at stays
        · exact untouched (by simp [isNew, isOld])
  | edit given change =>
      simp only [effect, Option.map_eq_some_iff] at written
      obtain ⟨_, _, rfl⟩ := written
      exact single rfl notRewritten
  | replace given text =>
      simp only [effect, Option.map_eq_some_iff] at written
      obtain ⟨_, _, rfl⟩ := written
      exact single rfl notRewritten
  | copy source destination =>
      simp only [effect, Option.bind_eq_some_iff,
        Option.map_eq_some_iff] at written
      obtain ⟨_, _, _, _, rfl⟩ := written
      exact single rfl notRewritten
  | undo given =>
      simp only [effect, Option.bind_eq_some_iff,
        Option.map_eq_some_iff] at written
      obtain ⟨_, _, _, _, rfl⟩ := written
      exact single rfl notRewritten
  | checkpoint given tag =>
      simp only [effect, Option.bind_eq_some_iff,
        Option.map_eq_some_iff] at written
      obtain ⟨found, isFound, taken, isTaken, rfl⟩ := written
      by_cases isGiven : given = name
      · subst isGiven
        rw [before] at isFound
        simp only [VersionedDocument.checkpointed,
          Option.ite_none_left_eq_some, Option.some.injEq] at isTaken
        simp only [writeAt_cons, writeAt_nil, Function.update_self] at stays
        rw [← Option.some.inj stays, ← isTaken.2, ← Option.some.inj isFound]
      · exact single rfl (by simpa using isGiven)
  | revert given tag =>
      simp only [effect, Option.bind_eq_some_iff,
        Option.map_eq_some_iff] at written
      obtain ⟨_, _, _, _, rfl⟩ := written
      exact single rfl notRewritten

end StoreCommand

end DistributedDocs
