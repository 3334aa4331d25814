import DistributedDocs.ChainedIndex
import DistributedDocs.FileRecord
import DistributedDocs.LookupCache

namespace DistributedDocs

/-!
# The name server

The registry of `name_server.c`: the file table with the hash index and the
lookup cache in front of it, the access lists, the pending access requests and
the connected storage servers.
-/

/-- `NS_MAX_STORAGE_SERVERS` -/
def nsMaxStorageServers : Nat :=
  100

/-- `NS_MAX_CLIENTS` -/
def nsMaxClients : Nat :=
  1000

/-- `NS_MAX_FILES` -/
def nsMaxFiles : Nat :=
  10000

/-- `NS_MAX_ACCESS_REQUESTS` -/
def nsMaxAccessRequests : Nat :=
  1024

/-- `FILE_INDEX_SIZE` -/
def fileIndexSize : Nat :=
  1024

/-- `FILE_CACHE_SIZE` -/
def fileCacheSize : Nat :=
  64

/-- `MAX_IP_LENGTH` -/
def maxIpLength : Nat :=
  64

/-- `MAX_FIELD_SIZE` -/
def maxFieldSize : Nat :=
  4096

/--
`FileMetadata`; a list of users stands for an array and its count.  `document`
is read by no code: it says which document the entry is about, is given at
creation and stays with the entry.
-/
@[ext]
structure FileMetadata where
  filename : CString
  filename_short : filename.length < maxFilenameLength
  owner : CString
  ssIp : CString
  ssPort : Int
  size : Int
  wordCount : Int
  charCount : Int
  isDirectory : Bool
  created : Int
  modified : Int
  lastAccess : Int
  lastAccessUser : CString
  lastModifiedUser : CString
  readAccessUsers : List CString
  writeAccessUsers : List CString
  document : Nat

instance : DecidableEq FileMetadata :=
  fun _ _ => decidable_of_decidable_of_iff FileMetadata.ext_iff.symm

/--
`StorageServerInfo`, less what one connection's request and reply use.
`address` stands for the address of the structure.
-/
structure StorageServerInfo where
  address : Nat
  clientIp : CString
  clientIp_short : clientIp.length < maxIpLength
  clientPort : Int
  sockfd : Int
  isAlive : Bool
  totalBytes : Int
  totalFiles : Int
  deriving DecidableEq

/-- `AccessRequest`; `document` is that of the entry the request is about. -/
structure AccessRequest where
  id : Int
  filename : CString
  fromUser : CString
  toUser : CString
  grantRead : Bool
  grantWrite : Bool
  isPending : Bool
  document : Nat
  deriving DecidableEq

/-- `NameServer`; a list stands for an array and its count. -/
structure NameServer where
  storageServers : List StorageServerInfo
  ssRoundRobinIndex : Nat
  files : List FileMetadata
  accessRequests : List AccessRequest
  nextRequestId : Int
  fileIndex : ChainedIndex CString Nat fileIndexSize
  fileCache : List (CacheEntry CString Nat)
  cacheTick : UInt64
  nextDocument : Nat

/-- A free slot of the cache. -/
def freeCacheEntry : CacheEntry CString Nat :=
  ⟨[], 0, false, 0⟩

/-- `ns_init`, without a metadata store to load. -/
def nsInit : NameServer where
  storageServers := []
  ssRoundRobinIndex := 0
  files := []
  accessRequests := []
  nextRequestId := 1
  fileIndex := fun _ => []
  fileCache := List.replicate fileCacheSize freeCacheEntry
  cacheTick := 0
  nextDocument := 0

/-! ## The index and the cache -/

/-- A `char` as `hash_filename` adds it: it is signed. -/
def signedChar (c : CChar) : UInt64 :=
  if c.val < 128 then c.val.toUInt64 else c.val.toUInt64 - 256

/-- `hash_filename` -/
def hashFilename (text : CString) : UInt64 :=
  text.foldl (fun hash c => (hash <<< 5) + hash + signedChar c) 5381

/-- The bucket of a name. -/
def bucketOf (filename : CString) : Fin fileIndexSize :=
  ⟨(hashFilename filename).toNat % fileIndexSize,
    Nat.mod_lt _ (by decide)⟩

/-- `file_index_find` -/
def fileIndexFind (filename : CString) (ns : NameServer) : Option Nat :=
  ChainedIndex.find bucketOf filename ns.fileIndex

/-- `file_index_insert`, with memory for the node. -/
def fileIndexInsert
    (filename : CString)
    (arrayIndex : Nat)
    (ns : NameServer) : NameServer :=
  { ns with
    fileIndex :=
      ChainedIndex.insert bucketOf filename
        (safeStrcpy filename maxFilenameLength) arrayIndex ns.fileIndex }

/-- `file_index_remove_entry` -/
def fileIndexRemoveEntry (filename : CString) (ns : NameServer) : NameServer :=
  { ns with
    fileIndex := ChainedIndex.remove bucketOf filename ns.fileIndex }

/-- `file_cache_lookup` -/
def fileCacheLookup (filename : CString) (ns : NameServer) :
    Option Nat × NameServer :=
  let (found, entries) :=
    LookupCache.lookup filename (fun index => index < ns.files.length)
      (ns.cacheTick + 1) ns.fileCache
  (found,
    { ns with
      fileCache := entries
      cacheTick := if found.isSome then ns.cacheTick + 1 else ns.cacheTick })

/-- `file_cache_store` -/
def fileCacheStore
    (filename : CString)
    (arrayIndex : Nat)
    (ns : NameServer) : NameServer :=
  if ns.files.length ≤ arrayIndex then
    ns
  else
    match LookupCache.slotFor filename ns.fileCache with
    | none => ns
    | some slot =>
        { ns with
          fileCache :=
            LookupCache.fill slot (safeStrcpy filename maxFilenameLength)
              arrayIndex (ns.cacheTick + 1) ns.fileCache
          cacheTick := ns.cacheTick + 1 }

/-- `file_cache_rename` -/
def fileCacheRename
    (oldName newName : CString)
    (arrayIndex : Nat)
    (ns : NameServer) : NameServer :=
  let (entries, tick) :=
    LookupCache.rename oldName (safeStrcpy newName maxFilenameLength)
      arrayIndex ns.cacheTick ns.fileCache
  { ns with fileCache := entries, cacheTick := tick }

/-- `file_lookup_locked`: the position in `files[]`, if there is one. -/
def fileLookupLocked (filename : CString) (ns : NameServer) :
    Option Nat × NameServer :=
  match fileCacheLookup filename ns with
  | (some index, looked) => (some index, looked)
  | (none, looked) =>
      match fileIndexFind filename looked with
      | some index =>
          if index < looked.files.length then
            (some index, fileCacheStore filename index looked)
          else
            (none, looked)
      | none => (none, looked)

/--
What the loop at the end of `remove_file_metadata_locked` does to a slot;
`moved` is the name of the entry moved into the hole, and the hole.
-/
def repairSlot
    (removed : CString)
    (moved : Option (CString × Nat))
    (fileCount : Nat)
    (entry : CacheEntry CString Nat) : CacheEntry CString Nat :=
  if !entry.valid then
    entry
  else if entry.key = removed then
    { entry with valid := false }
  else
    let index :=
      match moved with
      | some (name, hole) => if entry.key = name then hole else entry.value
      | none => entry.value
    { entry with value := index, valid := index < fileCount }

/-- `remove_file_metadata_locked`; false where it returns 0. -/
def removeFileMetadataLocked (filename : CString) (ns : NameServer) :
    Bool × NameServer :=
  match fileIndexFind filename ns with
  | none => (false, ns)
  | some index =>
      let unlinked := ChainedIndex.remove bucketOf filename ns.fileIndex
      match ns.files.getLast? with
      | none =>
          (true,
            { ns with
              fileIndex := unlinked
              fileCache := ns.fileCache.map (repairSlot filename none 0) })
      | some last =>
          let lastIndex := ns.files.length - 1
          let hole := if index < ns.files.length then index else lastIndex
          let moved := hole ≠ lastIndex ∧ last.filename ≠ []
          (true,
            { ns with
              files := (ns.files.set hole last).dropLast
              fileIndex :=
                if moved then
                  ChainedIndex.update bucketOf last.filename hole unlinked
                else
                  unlinked
              fileCache :=
                ns.fileCache.map
                  (repairSlot filename
                    (if moved then some (last.filename, hole) else none)
                    lastIndex) })

/-! ## Access lists -/

/-- `file_acl_contains` -/
def fileAclContains (entries : List CString) (username : CString) : Bool :=
  entries.any fun entry => strncmpEq entry username maxUsernameLength

/-- `file_acl_add`; none where it returns -1. -/
def fileAclAdd (entries : List CString) (username : CString) :
    Option (List CString) :=
  if fileAclContains entries username then some entries
  else if nsMaxClients ≤ entries.length then none
  else some (entries ++ [safeStrcpy username maxUsernameLength])

/-- `file_acl_remove`: the last entry fills the gap. -/
def fileAclRemove (entries : List CString) (username : CString) :
    Bool × List CString :=
  match
    entries.findIdx? fun entry =>
      strncmpEq entry username maxUsernameLength with
  | none => (false, entries)
  | some gap => (true, (entries.set gap (entries.getLastD [])).dropLast)

/-- `file_add_access`; false where it returns -1. -/
def fileAddAccess
    (file : FileMetadata)
    (username : CString)
    (grantRead grantWrite : Bool) : Bool × FileMetadata :=
  let (readDone, reading) :=
    if grantRead || grantWrite then
      match fileAclAdd file.readAccessUsers username with
      | some users => (true, { file with readAccessUsers := users })
      | none => (false, file)
    else
      (true, file)
  if readDone && grantWrite then
    match fileAclAdd reading.writeAccessUsers username with
    | some users => (true, { reading with writeAccessUsers := users })
    | none => (false, reading)
  else
    (readDone, reading)

/-- `file_remove_access`; false where it returns 0. -/
def fileRemoveAccess (file : FileMetadata) (username : CString) :
    Bool × FileMetadata :=
  let (wasReader, readers) := fileAclRemove file.readAccessUsers username
  let (wasWriter, writers) := fileAclRemove file.writeAccessUsers username
  (wasReader || wasWriter,
    { file with readAccessUsers := readers, writeAccessUsers := writers })

/-- `file_has_read_access` -/
def fileHasReadAccess (file : FileMetadata) (username : CString) : Bool :=
  strncmpEq file.owner username maxUsernameLength ||
    fileAclContains file.readAccessUsers username ||
    fileAclContains file.writeAccessUsers username

/-- `file_has_write_access` -/
def fileHasWriteAccess (file : FileMetadata) (username : CString) : Bool :=
  strncmpEq file.owner username maxUsernameLength ||
    fileAclContains file.writeAccessUsers username

/-- `tolower` in the C locale. -/
def tolower (c : CChar) : CChar :=
  if upper : 65 ≤ c.val ∧ c.val ≤ 90 then
    ⟨c.val + 32, by
      obtain ⟨byte, nonzero⟩ := c
      obtain ⟨low, high⟩ := upper
      simp only [ne_eq, ← UInt8.toNat_inj, UInt8.toNat_add, UInt8.le_iff_toNat_le]
        at low high ⊢
      simp at low high ⊢
      omega⟩
  else
    c

/-- `strcasecmp(first, second) == 0` -/
def strcasecmpEq (first second : CString) : Bool :=
  first.map tolower == second.map tolower

/-- `parse_permission_flags`: whether reading and writing are granted. -/
def parsePermissionFlags (perm : CString) : Option (Bool × Bool) :=
  let isOneOf (names : List String) : Bool :=
    names.any fun name => strcasecmpEq perm (str name)
  if isOneOf ["R", "READ"] then some (true, false)
  else if isOneOf ["W", "WRITE"] then some (false, true)
  else if isOneOf ["RW", "WR", "READWRITE", "WRITEREAD"] then
    some (true, true)
  else none

/-- The tokens `strtok` gives for one separator. -/
def strtok (separator : Char) (text : CString) : List CString :=
  (text.splitOnP fun c => c = CChar.ofChar separator).filter fun token =>
    token ≠ []

/-- The loop of `file_acl_parse_csv` over the tokens. -/
def addTokens (entries : List CString) : List CString → List CString
  | [] =>
      entries
  | token :: rest =>
      let name := trimString token
      if name ≠ [] && validateUsername name then
        match fileAclAdd entries name with
        | some added => addTokens added rest
        | none => entries
      else
        addTokens entries rest

/-- `file_acl_parse_csv` -/
def fileAclParseCsv (csv : CString) : List CString :=
  addTokens [] (strtok ',' (safeStrcpy csv maxFieldSize))

end DistributedDocs
