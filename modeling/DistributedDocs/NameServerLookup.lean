import DistributedDocs.NameServerCommands

namespace DistributedDocs

/-!
# The index and the cache agree with a plain scan

The registry is coherent when names are unique and the hash index and the
cache say of a name what a scan of the file table says.  The lookups, the new
entries, the removals and the renames of the registry keep it so.
-/

/-- The position a scan of the file table finds a name at. -/
def plainScan (files : List FileMetadata) (filename : CString) : Option Nat :=
  files.findIdx? fun file => file.filename = filename

/-- Names are unique; the index and the cache agree with the scan. -/
structure Coherent (ns : NameServer) : Prop where
  names_nodup : (ns.files.map FileMetadata.filename).Nodup
  index_wellFormed : ChainedIndex.WellFormed bucketOf ns.fileIndex
  index_agrees :
    ∀ filename, fileIndexFind filename ns = plainScan ns.files filename
  cache_sound : LookupCache.Sound (plainScan ns.files) ns.fileCache

/-! ## Scanning -/

section Scan

variable
  {files : List FileMetadata}
  {filename : CString}
  {index : Nat}

theorem eq_of_filename
    (namesNodup : (files.map FileMetadata.filename).Nodup)
    {first second : FileMetadata}
    (firstPresent : first ∈ files)
    (secondPresent : second ∈ files)
    (same : first.filename = second.filename) :
    first = second :=
  List.inj_on_of_nodup_map namesNodup firstPresent secondPresent same

theorem plainScan_some
    (found : plainScan files filename = some index) :
    ∃ file, files[index]? = some file ∧ file.filename = filename := by
  obtain ⟨bound, named, _⟩ := List.findIdx?_eq_some_iff_getElem.mp found
  exact ⟨files[index], List.getElem?_eq_getElem bound, by simpa using named⟩

theorem lt_of_plainScan
    (found : plainScan files filename = some index) :
    index < files.length := by
  obtain ⟨_, held, _⟩ := plainScan_some found
  exact (List.getElem?_eq_some_iff.mp held).1

theorem short_of_plainScan
    (found : plainScan files filename = some index) :
    filename.length < maxFilenameLength := by
  obtain ⟨file, _, rfl⟩ := plainScan_some found
  exact file.filename_short

theorem plainScan_eq_some_iff
    (namesNodup : (files.map FileMetadata.filename).Nodup) :
    plainScan files filename = some index ↔
      ∃ file, files[index]? = some file ∧ file.filename = filename := by
  refine ⟨plainScan_some, ?_⟩
  rintro ⟨file, held, rfl⟩
  have present := List.mem_of_getElem? held
  obtain ⟨first, found⟩ :
      ∃ first, plainScan files file.filename = some first := by
    rw [← Option.isSome_iff_exists, plainScan, List.findIdx?_isSome,
      List.any_eq_true]
    exact ⟨file, present, by simp⟩
  obtain ⟨other, otherHeld, sameName⟩ := plainScan_some found
  obtain ⟨indexBound, atIndex⟩ := List.getElem?_eq_some_iff.mp held
  obtain ⟨firstBound, atFirst⟩ := List.getElem?_eq_some_iff.mp otherHeld
  have samePosition : first = index := by
    have firstInNames : first < (files.map FileMetadata.filename).length := by
      simpa using firstBound
    have indexInNames : index < (files.map FileMetadata.filename).length := by
      simpa using indexBound
    apply (@List.Nodup.getElem_inj_iff _ _ namesNodup _ firstInNames _
      indexInNames).mp
    simp [atFirst, atIndex, sameName]
  rw [found, samePosition]

theorem plainScan_eq_none_iff :
    plainScan files filename = none ↔
      ∀ file ∈ files, file.filename ≠ filename := by
  simp [plainScan, List.findIdx?_eq_none_iff]

/-- A scan looks at names only. -/
theorem plainScan_congr
    {others : List FileMetadata}
    (same :
      files.map FileMetadata.filename = others.map FileMetadata.filename) :
    plainScan files filename = plainScan others filename := by
  have byNames :
      ∀ list : List FileMetadata,
        plainScan list filename =
          (list.map FileMetadata.filename).findIdx? fun name =>
            name = filename := by
    intro list
    rw [plainScan, List.findIdx?_map]
    rfl
  rw [byNames, byNames, same]

theorem names_modify
    {change : FileMetadata → FileMetadata}
    (sameName : ∀ file, (change file).filename = file.filename)
    (index : Nat) :
    (files.modify index change).map FileMetadata.filename =
      files.map FileMetadata.filename := by
  apply List.ext_getElem?
  intro position
  rw [List.getElem?_map, List.getElem?_map, List.getElem?_modify]
  cases files[position]? with
  | none =>
      rfl
  | some file =>
      by_cases here : index = position <;> simp [here, sameName]

end Scan

/-- What a new name at the end of the table changes for the scan. -/
theorem plainScan_append
    {files : List FileMetadata}
    {file : FileMetadata}
    (fresh : plainScan files file.filename = none)
    (filename : CString) :
    plainScan (files ++ [file]) filename =
      if filename = file.filename then some files.length
      else plainScan files filename := by
  rw [plainScan, List.findIdx?_append]
  by_cases same : filename = file.filename
  · subst same
    rw [plainScan] at fresh
    simp [fresh]
  · rw [if_neg same]
    have different : file.filename ≠ filename := Ne.symm same
    simp [plainScan, different]

/-! ## Lookups -/

namespace Coherent

variable
  {ns : NameServer}
  (coherent : Coherent ns)

include coherent

/-- Another cache for the same table, index and rest. -/
theorem withCache
    {entries : List (CacheEntry CString Nat)}
    (sound : LookupCache.Sound (plainScan ns.files) entries)
    (tick : UInt64) :
    Coherent { ns with fileCache := entries, cacheTick := tick } where
  names_nodup := coherent.names_nodup
  index_wellFormed := coherent.index_wellFormed
  index_agrees := coherent.index_agrees
  cache_sound := sound

theorem fileCacheLookup (filename : CString) :
    Coherent (DistributedDocs.fileCacheLookup filename ns).2 :=
  coherent.withCache
    (coherent.cache_sound.lookup filename _ (ns.cacheTick + 1)) _

theorem fileCacheStore
    {filename : CString}
    {index : Nat}
    (short : filename.length < maxFilenameLength)
    (found : plainScan ns.files filename = some index) :
    Coherent (DistributedDocs.fileCacheStore filename index ns) := by
  unfold DistributedDocs.fileCacheStore
  split
  · exact coherent
  · split
    · exact coherent
    · next slot chosen =>
      rw [safeStrcpy_of_short short]
      exact coherent.withCache
        (coherent.cache_sound.fill chosen found (ns.cacheTick + 1)) _

/-- `file_lookup_locked` finds what the scan finds. -/
theorem fileLookupLocked_eq (filename : CString) :
    (DistributedDocs.fileLookupLocked filename ns).1 =
      plainScan ns.files filename := by
  unfold DistributedDocs.fileLookupLocked
  cases looked : DistributedDocs.fileCacheLookup filename ns with
  | mk found after =>
      have filesKept : after.files = ns.files := by
        have kept := congrArg (fun pair => pair.2.files) looked
        exact kept.symm
      have indexKept :
          fileIndexFind filename after = plainScan ns.files filename := by
        have kept := congrArg (fun pair => pair.2.fileIndex) looked
        rw [← coherent.index_agrees, fileIndexFind, fileIndexFind]
        exact congrArg _ kept.symm
      cases found with
      | some index =>
          have hit := congrArg Prod.fst looked
          exact (coherent.cache_sound.lookup_hit hit).1.symm
      | none =>
          simp only [indexKept]
          cases scanned : plainScan ns.files filename with
          | none =>
              rfl
          | some index =>
              have inRange := lt_of_plainScan scanned
              simp [filesKept, inRange]

theorem fileLookupLocked (filename : CString) :
    Coherent (DistributedDocs.fileLookupLocked filename ns).2 := by
  have looked := coherent.fileCacheLookup filename
  unfold DistributedDocs.fileLookupLocked
  generalize DistributedDocs.fileCacheLookup filename ns = pair at looked
  obtain ⟨found, after⟩ := pair
  cases found with
  | some index =>
      exact looked
  | none =>
      simp only
      split
      · next index found =>
        split
        · have scanned := (looked.index_agrees filename).symm.trans found
          exact looked.fileCacheStore (short_of_plainScan scanned) scanned
        · exact looked
      · exact looked

end Coherent

/-- The state with another cache. -/
def OnlyCacheChanged (before after : NameServer) : Prop :=
  after =
    { before with
      fileCache := after.fileCache
      cacheTick := after.cacheTick }

theorem onlyCacheChanged_fileCacheStore
    (filename : CString)
    (index : Nat)
    (ns : NameServer) :
    OnlyCacheChanged ns (fileCacheStore filename index ns) := by
  unfold fileCacheStore
  split
  · rfl
  · split <;> rfl

/-- A lookup changes the cache only. -/
theorem onlyCacheChanged_fileLookupLocked
    (filename : CString)
    (ns : NameServer) :
    OnlyCacheChanged ns (fileLookupLocked filename ns).2 := by
  unfold fileLookupLocked
  cases looked : fileCacheLookup filename ns with
  | mk found after =>
      have first : OnlyCacheChanged ns after := by
        have same : after = (fileCacheLookup filename ns).2 := by
          rw [looked]
        rw [same]
        rfl
      cases found with
      | some index =>
          exact first
      | none =>
          simp only
          split
          · next index found =>
            split
            · have second :=
                onlyCacheChanged_fileCacheStore filename index after
              unfold OnlyCacheChanged at first second ⊢
              rw [second, first]
            · exact first
          · exact first

/-! ## Entries that change, and new ones -/

/-- A change that keeps the names keeps the registry coherent. -/
theorem Coherent.changeFile
    {ns : NameServer}
    (coherent : Coherent ns)
    {change : FileMetadata → FileMetadata}
    (sameName : ∀ file, (change file).filename = file.filename)
    (index : Nat) :
    Coherent (DistributedDocs.changeFile index change ns) := by
  have scanned :
      ∀ filename,
        plainScan (ns.files.modify index change) filename =
          plainScan ns.files filename :=
    fun _ => plainScan_congr (names_modify sameName index)
  exact
    { names_nodup := by
        rw [DistributedDocs.changeFile, names_modify sameName]
        exact coherent.names_nodup
      index_wellFormed := coherent.index_wellFormed
      index_agrees := fun filename =>
        (coherent.index_agrees filename).trans (scanned filename).symm
      cache_sound :=
        coherent.cache_sound.mono fun key value found =>
          (scanned key).trans found }

/-- What of the registry coherence does not look at may change. -/
theorem Coherent.of_same
    {ns after : NameServer}
    (coherent : Coherent ns)
    (sameFiles : after.files = ns.files)
    (sameIndex : after.fileIndex = ns.fileIndex)
    (sameCache : after.fileCache = ns.fileCache) :
    Coherent after where
  names_nodup := sameFiles ▸ coherent.names_nodup
  index_wellFormed := sameIndex ▸ coherent.index_wellFormed
  index_agrees filename := by
    rw [fileIndexFind, sameIndex, sameFiles]
    exact coherent.index_agrees filename
  cache_sound := by
    rw [sameFiles, sameCache]
    exact coherent.cache_sound

/-- Registering a new name keeps the registry coherent. -/
theorem Coherent.registerFile
    {ns : NameServer}
    (coherent : Coherent ns)
    {filename : CString}
    {file : FileMetadata}
    (named : file.filename = filename)
    (fresh : plainScan ns.files filename = none) :
    Coherent (DistributedDocs.registerFile filename file ns) := by
  subst named
  have short := file.filename_short
  have scanned :
      ∀ name,
        plainScan
            (ns.files ++ [{ file with document := ns.nextDocument }]) name =
          if name = file.filename then some ns.files.length
          else plainScan ns.files name :=
    @plainScan_append ns.files { file with document := ns.nextDocument } fresh
  have registered :
      Coherent
        { fileIndexInsert file.filename ns.files.length ns with
          files := ns.files ++ [{ file with document := ns.nextDocument }]
          nextDocument := ns.nextDocument + 1 } :=
    { names_nodup := by
        rw [List.map_append, List.map_cons, List.map_nil,
          ← List.concat_eq_append, List.nodup_concat]
        refine ⟨?_, coherent.names_nodup⟩
        intro member
        obtain ⟨other, present, same⟩ := List.mem_map.mp member
        exact plainScan_eq_none_iff.mp fresh other present same
      index_wellFormed := by
        simp only [fileIndexInsert, safeStrcpy_of_short short]
        exact coherent.index_wellFormed.insert _ _
      index_agrees := by
        intro filename
        simp only [fileIndexFind, fileIndexInsert, safeStrcpy_of_short short,
          ChainedIndex.find_insert, scanned]
        split
        · rfl
        · exact coherent.index_agrees filename
      cache_sound := by
        refine coherent.cache_sound.mono fun key value found => ?_
        rw [scanned, if_neg]
        · exact found
        · rintro rfl
          rw [fresh] at found
          cases found }
  exact registered.fileCacheStore short (by rw [scanned, if_pos rfl])

/-! ## Removal -/

section Removal

variable
  {files : List FileMetadata}
  {last : FileMetadata}

/-- The table after the last entry has been moved into the hole. -/
def filledHole
    (files : List FileMetadata)
    (hole : Nat)
    (last : FileMetadata) : List FileMetadata :=
  (files.set hole last).dropLast

theorem getElem?_filledHole
    {hole position : Nat}
    {file : FileMetadata}
    (inRange : hole < files.length) :
    (filledHole files hole last)[position]? = some file ↔
      position < files.length - 1 ∧
        (position = hole ∧ last = file ∨
          position ≠ hole ∧ files[position]? = some file) := by
  rw [filledHole, List.getElem?_dropLast, List.length_set]
  by_cases kept : position < files.length - 1
  · rw [if_pos kept, List.getElem?_set]
    by_cases here : hole = position
    · subst here
      simp [kept, inRange]
    · simp [here, Ne.symm here, kept]
  · simp [kept]

/-- Moving the last item into the hole keeps the others, in some order. -/
theorem dropLast_set_perm
    {α : Type*}
    {items : List α}
    {last : α}
    (isLast : items.getLast? = some last)
    {hole : Nat}
    (inRange : hole < items.length) :
    ((items.set hole last).dropLast).Perm (items.eraseIdx hole) := by
  obtain ⟨front, rfl⟩ := List.getLast?_eq_some_iff.mp isLast
  by_cases atEnd : hole = front.length
  · subst atEnd
    simp [List.eraseIdx_append_of_length_le]
  · have inFront : hole < front.length := by
      simp at inRange
      omega
    rw [List.set_append_left _ _ inFront, List.dropLast_concat,
      List.eraseIdx_append_of_lt_length inFront]
    rw [List.set_eq_take_append_cons_drop, if_pos inFront,
      List.eraseIdx_eq_take_drop_succ, List.append_assoc]
    refine List.Perm.append_left _ ?_
    exact (List.perm_append_singleton last _).symm

theorem filledHole_perm
    (isLast : files.getLast? = some last)
    {hole : Nat}
    (inRange : hole < files.length) :
    (filledHole files hole last).Perm (files.eraseIdx hole) :=
  dropLast_set_perm isLast inRange

/-- What filling the hole of a removed name changes for the scan. -/
theorem plainScan_filledHole
    (namesNodup : (files.map FileMetadata.filename).Nodup)
    (isLast : files.getLast? = some last)
    {hole : Nat}
    {filename : CString}
    (found : plainScan files filename = some hole)
    (other : CString) :
    plainScan (filledHole files hole last) other =
      if other = filename then none
      else if other = last.filename then some hole
      else plainScan files other := by
  have inRange := lt_of_plainScan found
  obtain ⟨removed, removedHeld, removedName⟩ := plainScan_some found
  have lastHeld : files[files.length - 1]? = some last := by
    rw [← List.getLast?_eq_getElem?]
    exact isLast
  have stillNodup :
      ((filledHole files hole last).map FileMetadata.filename).Nodup :=
    ((filledHole_perm isLast inRange).map _).nodup_iff.mpr
      (namesNodup.sublist ((List.eraseIdx_sublist files hole).map _))
  have samePosition :
      ∀ {first second : Nat} {file other : FileMetadata},
        files[first]? = some file → files[second]? = some other →
          file.filename = other.filename → first = second := by
    intro first second file other firstHeld secondHeld same
    have firstFound := (plainScan_eq_some_iff namesNodup).mpr
      ⟨file, firstHeld, same⟩
    have secondFound := (plainScan_eq_some_iff namesNodup).mpr
      ⟨other, secondHeld, rfl⟩
    exact Option.some.inj (firstFound.symm.trans secondFound)
  apply Option.ext
  intro position
  rw [plainScan_eq_some_iff stillNodup]
  simp only [getElem?_filledHole inRange]
  by_cases isRemoved : other = filename
  · rw [if_pos isRemoved]
    simp only [reduceCtorEq, iff_false, not_exists, not_and]
    rintro file ⟨kept, ⟨rfl, rfl⟩ | ⟨elsewhere, held⟩⟩ same
    · have atEnd := samePosition lastHeld removedHeld
        (same.trans (isRemoved.trans removedName.symm))
      omega
    · exact elsewhere (samePosition held removedHeld
        (same.trans (isRemoved.trans removedName.symm)))
  · rw [if_neg isRemoved]
    by_cases isLastName : other = last.filename
    · rw [if_pos isLastName]
      constructor
      · rintro ⟨file, ⟨kept, ⟨rfl, rfl⟩ | ⟨elsewhere, held⟩⟩, same⟩
        · rfl
        · have atEnd := samePosition held lastHeld (same.trans isLastName)
          omega
      · intro here
        obtain rfl := Option.some.inj here
        have notAtEnd : hole ≠ files.length - 1 := by
          rintro rfl
          rw [removedHeld] at lastHeld
          obtain rfl := Option.some.inj lastHeld
          exact isRemoved (isLastName.trans removedName)
        exact ⟨last, ⟨by omega, Or.inl ⟨rfl, rfl⟩⟩, isLastName.symm⟩
    · rw [if_neg isLastName, plainScan_eq_some_iff namesNodup]
      constructor
      · rintro ⟨file, ⟨kept, ⟨rfl, rfl⟩ | ⟨elsewhere, held⟩⟩, same⟩
        · exact absurd same.symm isLastName
        · exact ⟨file, held, same⟩
      · rintro ⟨file, held, same⟩
        have bound := (List.getElem?_eq_some_iff.mp held).1
        have notLast : position ≠ files.length - 1 := by
          rintro rfl
          rw [lastHeld] at held
          obtain rfl := Option.some.inj held
          exact isLastName same.symm
        have elsewhere : position ≠ hole := by
          rintro rfl
          rw [removedHeld] at held
          obtain rfl := Option.some.inj held
          exact isRemoved (same.symm.trans removedName)
        exact ⟨file, ⟨by omega, Or.inr ⟨elsewhere, held⟩⟩, same⟩

end Removal

/-- The registry after the entry at a position has been removed. -/
def removedAt
    (filename : CString)
    (hole : Nat)
    (last : FileMetadata)
    (ns : NameServer) : NameServer :=
  let unlinked := ChainedIndex.remove bucketOf filename ns.fileIndex
  let moved := hole ≠ ns.files.length - 1 ∧ last.filename ≠ []
  { ns with
    files := filledHole ns.files hole last
    fileIndex :=
      if moved then
        ChainedIndex.update bucketOf last.filename hole unlinked
      else
        unlinked
    fileCache :=
      ns.fileCache.map
        (repairSlot filename
          (if moved then some (last.filename, hole) else none)
          (ns.files.length - 1)) }

/-- `remove_file_metadata_locked` removes the entry the scan finds. -/
theorem Coherent.removeFileMetadataLocked_eq
    {ns : NameServer}
    (coherent : Coherent ns)
    (filename : CString) :
    DistributedDocs.removeFileMetadataLocked filename ns =
      match plainScan ns.files filename, ns.files.getLast? with
      | some hole, some last => (true, removedAt filename hole last ns)
      | _, _ => (false, ns) := by
  unfold DistributedDocs.removeFileMetadataLocked
  rw [coherent.index_agrees]
  cases found : plainScan ns.files filename with
  | none =>
      rfl
  | some hole =>
      have inRange := lt_of_plainScan found
      cases isLast : ns.files.getLast? with
      | none =>
          rw [List.getLast?_eq_none_iff] at isLast
          simp [isLast] at inRange
      | some last =>
          simp only [if_pos inRange]
          rfl

/-- What a slot was that is still valid after the repair. -/
theorem repairSlot_valid
    {removed : CString}
    {moved : Option (CString × Nat)}
    {fileCount : Nat}
    {entry : CacheEntry CString Nat}
    (valid : (repairSlot removed moved fileCount entry).valid = true) :
    entry.valid = true ∧ entry.key ≠ removed ∧
      (repairSlot removed moved fileCount entry).value =
        moved.elim entry.value fun relocated =>
          if entry.key = relocated.1 then relocated.2 else entry.value := by
  unfold repairSlot at valid ⊢
  by_cases wasValid : entry.valid = true
  · by_cases isRemoved : entry.key = removed
    · simp [wasValid, isRemoved] at valid
    · refine ⟨wasValid, isRemoved, ?_⟩
      simp only [wasValid, isRemoved]
      cases moved <;> rfl
  · simp [wasValid] at valid

section Removed

variable
  {ns : NameServer}
  {filename : CString}
  {hole : Nat}
  {last : FileMetadata}

/-- The last entry is the one that is removed. -/
theorem name_of_atEnd
    (found : plainScan ns.files filename = some hole)
    (isLast : ns.files.getLast? = some last)
    (atEnd : hole = ns.files.length - 1) :
    last.filename = filename := by
  obtain ⟨removed, removedHeld, removedName⟩ := plainScan_some found
  rw [atEnd, ← List.getLast?_eq_getElem?, isLast] at removedHeld
  obtain rfl := Option.some.inj removedHeld
  exact removedName

/-- The index after a removal, for a name that is not the removed one. -/
theorem Coherent.find_removedAt
    (coherent : Coherent ns)
    (namesNonempty : ∀ file ∈ ns.files, file.filename ≠ [])
    (found : plainScan ns.files filename = some hole)
    (isLast : ns.files.getLast? = some last)
    (other : CString) :
    fileIndexFind other (removedAt filename hole last ns) =
      plainScan (filledHole ns.files hole last) other := by
  have lastPresent := List.mem_of_getLast? isLast
  have lastHeld : ns.files[ns.files.length - 1]? = some last := by
    rw [← List.getLast?_eq_getElem?]
    exact isLast
  have lastFound :
      plainScan ns.files last.filename = some (ns.files.length - 1) :=
    (plainScan_eq_some_iff coherent.names_nodup).mpr ⟨last, lastHeld, rfl⟩
  have unlinked :
      ∀ name,
        ChainedIndex.find bucketOf name
            (ChainedIndex.remove bucketOf filename ns.fileIndex) =
          if name = filename then none else plainScan ns.files name := by
    intro name
    rw [ChainedIndex.find_remove coherent.index_wellFormed,
      ← coherent.index_agrees]
    rfl
  rw [plainScan_filledHole coherent.names_nodup isLast found]
  by_cases atEnd : hole = ns.files.length - 1
  · have isRemoved := name_of_atEnd found isLast atEnd
    simp only [fileIndexFind, removedAt, atEnd, ne_eq, not_true_eq_false,
      false_and, ↓reduceIte, unlinked, isRemoved]
    by_cases same : other = filename <;> simp [same]
  · have notRemoved : last.filename ≠ filename := by
      intro same
      rw [same, found] at lastFound
      exact atEnd (Option.some.inj lastFound)
    simp only [fileIndexFind, removedAt, ne_eq, atEnd, not_false_eq_true,
      namesNonempty last lastPresent, and_self, ↓reduceIte,
      ChainedIndex.find_update, unlinked, notRemoved, lastFound,
      Option.isSome_some, and_true]
    by_cases isRemoved : other = filename
    · simp [isRemoved, Ne.symm notRemoved]
    · simp [isRemoved]

/-- Removing an entry keeps the registry coherent. -/
theorem Coherent.removedAt
    (coherent : Coherent ns)
    (namesNonempty : ∀ file ∈ ns.files, file.filename ≠ [])
    (found : plainScan ns.files filename = some hole)
    (isLast : ns.files.getLast? = some last) :
    Coherent (DistributedDocs.removedAt filename hole last ns) where
  names_nodup := by
    have remaining := filledHole_perm isLast (lt_of_plainScan found)
    exact (remaining.map _).nodup_iff.mpr
      (coherent.names_nodup.sublist
        ((List.eraseIdx_sublist ns.files hole).map _))
  index_wellFormed := by
    have unlinked := coherent.index_wellFormed.remove filename
    unfold DistributedDocs.removedAt
    simp only
    split
    · exact unlinked.update _ _
    · exact unlinked
  index_agrees := coherent.find_removedAt namesNonempty found isLast
  cache_sound := by
    have scanned := plainScan_filledHole coherent.names_nodup isLast found
    refine coherent.cache_sound.revalue ?_ ?_
    · intro entry
      unfold repairSlot
      split
      · rfl
      · split <;> rfl
    · intro entry stillValid
      obtain ⟨wasValid, kept, revalued⟩ := repairSlot_valid stillValid
      refine ⟨wasValid, fun right => ?_⟩
      refine (scanned entry.key).trans ?_
      rw [if_neg kept, revalued]
      by_cases isLastName : entry.key = last.filename
      · have notAtEnd : hole ≠ ns.files.length - 1 := by
          rintro atEnd
          apply kept
          rw [isLastName]
          exact name_of_atEnd found isLast atEnd
        have lastNonempty :=
          namesNonempty last (List.mem_of_getLast? isLast)
        simp [isLastName, notAtEnd, lastNonempty]
      · rw [if_neg isLastName, right]
        split <;> simp [isLastName]

theorem Coherent.removeFileMetadataLocked
    (coherent : Coherent ns)
    (namesNonempty : ∀ file ∈ ns.files, file.filename ≠ [])
    (filename : CString) :
    Coherent (DistributedDocs.removeFileMetadataLocked filename ns).2 := by
  rw [coherent.removeFileMetadataLocked_eq]
  split
  · next hole last found isLast =>
    exact coherent.removedAt namesNonempty found isLast
  · exact coherent

end Removed

/-! ## Renaming -/

section Renaming

variable
  {files : List FileMetadata}
  {old new : CString}
  {index : Nat}

/-- Changing the entry at the position of a name changes it wherever it is. -/
theorem modify_eq_map
    (namesNodup : (files.map FileMetadata.filename).Nodup)
    (found : plainScan files old = some index)
    (change : FileMetadata → FileMetadata) :
    files.modify index change =
      files.map fun file =>
        if file.filename = old then change file else file := by
  apply List.ext_getElem?
  intro position
  rw [List.getElem?_modify, List.getElem?_map]
  cases held : files[position]? with
  | none =>
      rfl
  | some file =>
      have atPosition : index = position ↔ file.filename = old := by
        constructor
        · rintro rfl
          obtain ⟨other, otherHeld, otherName⟩ := plainScan_some found
          rw [held] at otherHeld
          obtain rfl := Option.some.inj otherHeld
          exact otherName
        · intro named
          have foundHere := (plainScan_eq_some_iff namesNodup).mpr
            ⟨file, held, named⟩
          exact Option.some.inj (found.symm.trans foundHere)
      by_cases here : index = position
      · simp [here, atPosition.mp here]
      · simp [here, mt atPosition.mpr here]

/-- The names after one of them has been replaced. -/
theorem names_rename
    {change : FileMetadata → FileMetadata}
    (renamed : ∀ file, (change file).filename = new) :
    ((files.map fun file =>
        if file.filename = old then change file else file).map
          FileMetadata.filename) =
      (files.map FileMetadata.filename).map fun name =>
        if name = old then new else name := by
  rw [List.map_map, List.map_map]
  apply List.map_congr_left
  intro file member
  by_cases isOld : file.filename = old
  · simp [isOld, renamed]
  · simp [isOld]

theorem findIdx?_congr
    {α : Type*}
    {items : List α}
    {first second : α → Bool}
    (same : ∀ item ∈ items, first item = second item) :
    items.findIdx? first = items.findIdx? second := by
  induction items with
  | nil =>
      rfl
  | cons item rest inductionHypothesis =>
      rw [List.findIdx?_cons, List.findIdx?_cons, same item (by simp),
        inductionHypothesis fun later member =>
          same later (List.mem_cons_of_mem _ member)]

theorem nodup_rename
    {names : List CString}
    (namesNodup : names.Nodup)
    (notTaken : new ∉ names) :
    (names.map fun name => if name = old then new else name).Nodup := by
  refine namesNodup.map_on fun first firstHeld second secondHeld same => ?_
  by_cases firstOld : first = old <;> by_cases secondOld : second = old
  · rw [firstOld, secondOld]
  · simp only [firstOld, secondOld, ↓reduceIte] at same
    exact absurd (same ▸ secondHeld) notTaken
  · simp only [firstOld, secondOld, ↓reduceIte] at same
    exact absurd (same ▸ firstHeld) notTaken
  · simpa [firstOld, secondOld] using same

/-- What renaming to a name that is not taken changes for the scan. -/
theorem plainScan_rename
    (old : CString)
    {change : FileMetadata → FileMetadata}
    (renamed : ∀ file, (change file).filename = new)
    (fresh : plainScan files new = none)
    (other : CString) :
    plainScan
        (files.map fun file =>
          if file.filename = old then change file else file) other =
      if other = new then plainScan files old
      else if other = old then none
      else plainScan files other := by
  rw [plainScan_eq_none_iff] at fresh
  simp only [plainScan, List.findIdx?_map]
  by_cases isNew : other = new
  · rw [if_pos isNew]
    refine findIdx?_congr fun file present => ?_
    by_cases isOld : file.filename = old
    · simp [isOld, renamed, isNew]
    · simp [isOld, isNew, fresh file present]
  · rw [if_neg isNew]
    by_cases wasOld : other = old
    · rw [if_pos wasOld, List.findIdx?_eq_none_iff]
      intro file _
      by_cases isOld : file.filename = old
      · simp [isOld, renamed, Ne.symm isNew]
      · simp [isOld, wasOld]
    · rw [if_neg wasOld]
      refine findIdx?_congr fun file _ => ?_
      by_cases isOld : file.filename = old
      · simp [isOld, renamed, Ne.symm isNew, Ne.symm wasOld]
      · simp [isOld]

end Renaming

/-- The registry after the entry at a position has been renamed. -/
def renamedAt
    (now : Int)
    (username old new : CString)
    (index : Nat)
    (ns : NameServer) : NameServer :=
  fileCacheRename old new index
    (fileIndexInsert (safeStrcpy new maxFilenameLength) index
      (changeFile index (renamedMetadata now username new)
        (fileIndexRemoveEntry old ns)))

/-- Renaming to a name that is not taken keeps the registry coherent. -/
theorem Coherent.renamedAt
    {ns : NameServer}
    (coherent : Coherent ns)
    {now : Int}
    {username old new : CString}
    {index : Nat}
    (found : plainScan ns.files old = some index)
    (fresh : plainScan ns.files new = none)
    (short : new.length < maxFilenameLength) :
    Coherent (DistributedDocs.renamedAt now username old new index ns) := by
  have renamed :
      ∀ file, (renamedMetadata now username new file).filename = new :=
    fun _ => safeStrcpy_of_short short
  have changed :=
    modify_eq_map coherent.names_nodup found
      (renamedMetadata now username new)
  have scanned := plainScan_rename old renamed fresh
  rw [← changed, found] at scanned
  have notTaken : new ∉ ns.files.map FileMetadata.filename := by
    intro member
    obtain ⟨file, present, named⟩ := List.mem_map.mp member
    exact plainScan_eq_none_iff.mp fresh file present named
  have linked :
      ∀ name,
        ChainedIndex.find bucketOf name
            (ChainedIndex.insert bucketOf new new index
              (ChainedIndex.remove bucketOf old ns.fileIndex)) =
          if name = new then some index
          else if name = old then none
          else plainScan ns.files name := by
    intro name
    rw [ChainedIndex.find_insert,
      ChainedIndex.find_remove coherent.index_wellFormed,
      ← coherent.index_agrees]
    rfl
  exact
    { names_nodup := by
        have names :
            (DistributedDocs.renamedAt now username old new index ns).files =
              ns.files.modify index (renamedMetadata now username new) :=
          rfl
        rw [names, changed, names_rename renamed]
        exact nodup_rename coherent.names_nodup notTaken
      index_wellFormed := by
        have unlinked := coherent.index_wellFormed.remove old
        have linked := unlinked.insert new index
        simp only [DistributedDocs.renamedAt, fileIndexInsert,
          safeStrcpy_of_short short]
        exact linked
      index_agrees := by
        intro filename
        refine Eq.trans ?_ (scanned filename).symm
        rw [← linked]
        simp only [DistributedDocs.renamedAt, fileIndexFind, fileIndexInsert,
          safeStrcpy_of_short short]
        rfl
      cache_sound := by
        simp only [DistributedDocs.renamedAt, fileCacheRename,
          safeStrcpy_of_short short]
        refine coherent.cache_sound.rename fresh ?_ ?_ _
        · exact (scanned new).trans (if_pos rfl)
        · intro name notOld notNew
          exact (scanned name).trans (by rw [if_neg notNew, if_neg notOld]) }

end DistributedDocs
