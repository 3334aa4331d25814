import DistributedDocs.CacheRecency
import DistributedDocs.GuardedRun
import DistributedDocs.NameServerCommands

namespace DistributedDocs

/-!
# The lookup cache under load

`file_cache_lookup` and `file_cache_store` in any order, on an empty cache:
what is cached are the names used last.
-/

open LookupCache (inUse HoldsMostRecent)

/-- A call of `file_cache_lookup` or of `file_cache_store`. -/
inductive CacheCall where
  | lookup (filename : CString)
  | store (filename : CString) (arrayIndex : Nat)
  deriving DecidableEq

/-- A name is stored with the place the registry has it at. -/
def CacheCall.Registered (ns : NameServer) : CacheCall → Prop
  | .lookup _ =>
      True
  | .store filename arrayIndex =>
      ∃ file, ns.files[arrayIndex]? = some file ∧ file.filename = filename

/-- A name server, the names its cache has used and those it has stored. -/
structure CacheTrace where
  ns : NameServer
  uses : List CString
  stored : List CString

/-- A name is used when it is stored, and when a lookup hits it. -/
def cacheStep (trace : CacheTrace) : CacheCall → CacheTrace
  | .lookup filename =>
      let (found, after) := fileCacheLookup filename trace.ns
      { trace with
        ns := after
        uses :=
          if found.isSome then filename :: trace.uses else trace.uses }
  | .store filename arrayIndex =>
      { ns := fileCacheStore filename arrayIndex trace.ns
        uses := filename :: trace.uses
        stored := filename :: trace.stored }

/-- The calls on an empty cache, all uses forgotten. -/
def cacheRun (ns : NameServer) (calls : List CacheCall) : CacheTrace :=
  runFrom cacheStep ⟨ns, [], []⟩ calls

/-- The tick has not wrapped since the start. -/
def TickFits (start : NameServer) (trace : CacheTrace) : Prop :=
  start.cacheTick.toNat + trace.uses.length < 2 ^ 64

/-- The cache holds the names used last, with usable indices. -/
structure KeepsRecency (start : NameServer) (trace : CacheTrace) : Prop where
  files : trace.ns.files = start.files
  size : trace.ns.fileCache.length = fileCacheSize
  tick :
    trace.ns.cacheTick.toNat = start.cacheTick.toNat + trace.uses.length
  usable :
    ∀ entry ∈ inUse trace.ns.fileCache, entry.value < start.files.length
  recency :
    HoldsMostRecent trace.ns.cacheTick (mostRecent trace.uses)
      trace.ns.fileCache
  stored : ∀ filename, filename ∈ trace.uses ↔ filename ∈ trace.stored

theorem toNat_tick_add_one
    (tick : UInt64)
    (fits : tick.toNat + 1 < 2 ^ 64) :
    (tick + 1).toNat = tick.toNat + 1 := by
  rw [UInt64.toNat_add]
  exact Nat.mod_eq_of_lt fits

section Step

variable
  {start : NameServer}
  {trace : CacheTrace}
  (keeps : KeepsRecency start trace)

include keeps

/-- The next tick is later than the ones before. -/
theorem KeepsRecency.tick_lt
    (fits : start.cacheTick.toNat + (trace.uses.length + 1) < 2 ^ 64) :
    trace.ns.cacheTick < trace.ns.cacheTick + 1 ∧
      (trace.ns.cacheTick + 1).toNat =
        start.cacheTick.toNat + (trace.uses.length + 1) := by
  have isTick := keeps.tick
  have next := toNat_tick_add_one trace.ns.cacheTick (by omega)
  constructor
  · rw [UInt64.lt_iff_toNat_lt, next]
    exact Nat.lt_succ_self _
  · rw [next, isTick, Nat.add_assoc]

theorem KeepsRecency.store
    {filename : CString}
    {arrayIndex : Nat}
    (registered : (CacheCall.store filename arrayIndex).Registered start)
    (fits : TickFits start (cacheStep trace (.store filename arrayIndex))) :
    KeepsRecency start (cacheStep trace (.store filename arrayIndex)) := by
  obtain ⟨file, present, rfl⟩ := registered
  have inBounds : arrayIndex < start.files.length :=
    (List.getElem?_eq_some_iff.mp present).1
  obtain ⟨later, nextTick⟩ := keeps.tick_lt fits
  have someSlot : trace.ns.fileCache ≠ [] := by
    intro none
    have size := keeps.size
    rw [none] at size
    cases size
  obtain ⟨slot, chosen, holds⟩ :=
    keeps.recency.store (nodup_mostRecent _) someSlot later file.filename
      arrayIndex
  have stored :
      fileCacheStore file.filename arrayIndex trace.ns =
        { trace.ns with
          fileCache :=
            LookupCache.fill slot file.filename arrayIndex
              (trace.ns.cacheTick + 1) trace.ns.fileCache
          cacheTick := trace.ns.cacheTick + 1 } := by
    rw [fileCacheStore, if_neg (by rw [keeps.files]; omega), chosen,
      safeStrcpy_of_short file.filename_short]
  simp only [cacheStep, stored]
  exact
    { files := keeps.files
      size := by
        rw [LookupCache.fill, List.length_set]
        exact keeps.size
      tick := nextTick
      usable := by
        intro entry listed
        obtain ⟨member, valid⟩ := LookupCache.mem_inUse_iff.mp listed
        rcases List.mem_or_eq_of_mem_set member with before | rfl
        · exact keeps.usable entry
            (LookupCache.mem_inUse_iff.mpr ⟨before, valid⟩)
        · exact inBounds
      recency := holds
      stored := by
        intro filename
        rw [List.mem_cons, List.mem_cons, keeps.stored] }

theorem KeepsRecency.lookup
    {filename : CString}
    (fits : TickFits start (cacheStep trace (.lookup filename))) :
    KeepsRecency start (cacheStep trace (.lookup filename)) := by
  have allUsable :
      ∀ entry ∈ inUse trace.ns.fileCache,
        decide (entry.value < trace.ns.files.length) = true := by
    intro entry listed
    rw [decide_eq_true_eq, keeps.files]
    exact keeps.usable entry listed
  rcases LookupCache.lookup_spec filename (trace.ns.cacheTick + 1)
      (fun index => index < trace.ns.files.length) allUsable with
    ⟨missed, _⟩ | ⟨slot, entry, held, valid, rfl, hit⟩
  · have unchanged :
        cacheStep trace (.lookup filename) = trace := by
      simp [cacheStep, fileCacheLookup, missed]
    rw [unchanged]
    exact keeps
  · have used :
        cacheStep trace (.lookup entry.key) =
          { trace with
            ns :=
              { trace.ns with
                fileCache :=
                  trace.ns.fileCache.set slot
                    { entry with lastUsed := trace.ns.cacheTick + 1 }
                cacheTick := trace.ns.cacheTick + 1 }
            uses := entry.key :: trace.uses } := by
      simp [cacheStep, fileCacheLookup, hit]
    rw [used] at fits ⊢
    obtain ⟨later, nextTick⟩ := keeps.tick_lt fits
    have known : entry.key ∈ trace.uses := by
      rw [← mem_mostRecent_iff]
      apply List.mem_of_mem_take
      apply keeps.recency.mem_take_iff.mp
      exact ⟨entry, LookupCache.mem_inUse_iff.mpr
        ⟨List.mem_of_getElem? held, valid⟩, rfl⟩
    exact
      { files := keeps.files
        size := by
          rw [List.length_set]
          exact keeps.size
        tick := nextTick
        usable := by
          intro other listed
          obtain ⟨member, otherValid⟩ := LookupCache.mem_inUse_iff.mp listed
          rcases List.mem_or_eq_of_mem_set member with before | rfl
          · exact keeps.usable other
              (LookupCache.mem_inUse_iff.mpr ⟨before, otherValid⟩)
          · exact keeps.usable entry
              (LookupCache.mem_inUse_iff.mpr
                ⟨List.mem_of_getElem? held, valid⟩)
        recency :=
          keeps.recency.reused
            { entry with lastUsed := trace.ns.cacheTick + 1 }
            (nodup_mostRecent _) held valid valid rfl later
        stored := by
          intro filename
          rw [List.mem_cons, ← keeps.stored]
          constructor
          · rintro (rfl | before)
            · exact known
            · exact before
          · exact .inr }

end Step

/-! ## Runs -/

/-- Uses are never forgotten. -/
theorem length_uses_le (trace : CacheTrace) (call : CacheCall) :
    trace.uses.length ≤ (cacheStep trace call).uses.length := by
  cases call with
  | lookup filename =>
      simp only [cacheStep]
      split
      · exact Nat.le_succ _
      · exact Nat.le_refl _
  | store filename arrayIndex =>
      exact Nat.le_succ _

theorem keepsRecency_cacheRun
    {ns : NameServer}
    {calls : List CacheCall}
    (slots : ns.fileCache.length = fileCacheSize)
    (empty : ∀ entry ∈ ns.fileCache, entry.valid = false)
    (registered : ∀ call ∈ calls, call.Registered ns)
    (fits : TickFits ns (cacheRun ns calls)) :
    KeepsRecency ns (cacheRun ns calls) := by
  have initially : KeepsRecency ns ⟨ns, [], []⟩ :=
    { files := rfl
      size := slots
      tick := rfl
      usable := by
        intro entry listed
        obtain ⟨member, valid⟩ := LookupCache.mem_inUse_iff.mp listed
        rw [empty entry member] at valid
        cases valid
      recency := LookupCache.holdsMostRecent_of_free empty _
      stored := fun _ => Iff.rfl }
  have preserved :
      ∀ (trace : CacheTrace) (call : CacheCall),
        (TickFits ns trace → KeepsRecency ns trace) → call.Registered ns →
          TickFits ns (cacheStep trace call) →
            KeepsRecency ns (cacheStep trace call) := by
    intro trace call keeps known fitsAfter
    have grows := length_uses_le trace call
    have fitsBefore : TickFits ns trace := by
      rw [TickFits] at fitsAfter ⊢
      omega
    cases call with
    | lookup filename =>
        exact (keeps fitsBefore).lookup fitsAfter
    | store filename arrayIndex =>
        exact (keeps fitsBefore).store known fitsAfter
  have guarded :
      GuardedRun cacheStep (fun _ call => call.Registered ns) ⟨ns, [], []⟩
        calls :=
    GuardedRun.of_forall_mem registered
  exact GuardedRun.invariant preserved (fun _ => initially) guarded fits

/--
Whatever has been looked up and stored, the slots in use have names and ticks
of their own, and the cached names are those that were used last.
-/
theorem cacheRun_leastRecentlyUsed
    {ns : NameServer}
    {calls : List CacheCall}
    (slots : ns.fileCache.length = fileCacheSize)
    (empty : ∀ entry ∈ ns.fileCache, entry.valid = false)
    (registered : ∀ call ∈ calls, call.Registered ns)
    (fits : TickFits ns (cacheRun ns calls)) :
    (inUse (cacheRun ns calls).ns.fileCache).Pairwise
        (fun entry other =>
          entry.key ≠ other.key ∧ entry.lastUsed ≠ other.lastUsed) ∧
      ∀ filename,
        (∃ entry ∈ inUse (cacheRun ns calls).ns.fileCache,
            entry.key = filename) ↔
          filename ∈
            (mostRecent (cacheRun ns calls).uses).take
              (min fileCacheSize
                (cacheRun ns calls).stored.dedup.length) := by
  have keeps := keepsRecency_cacheRun slots empty registered fits
  refine ⟨keeps.recency.pairwise (nodup_mostRecent _), ?_⟩
  intro filename
  rw [keeps.recency.mem_take_iff, keeps.size,
    ← length_mostRecent keeps.stored, ← List.take_eq_take_min]

/-- A registry of two names. -/
def twoNames : NameServer :=
  { nsInit with
    files :=
      [blankMetadata (str "a") (str "u"), blankMetadata (str "b") (str "u")] }

/-- Both are stored, and the first one is looked up again. -/
def twoNameCalls : List CacheCall :=
  [.store (str "a") 0, .store (str "b") 1, .lookup (str "a")]

theorem cacheRun_twoNames :
    (inUse (cacheRun twoNames twoNameCalls).ns.fileCache).Pairwise
        (fun entry other =>
          entry.key ≠ other.key ∧ entry.lastUsed ≠ other.lastUsed) ∧
      ∀ filename,
        (∃ entry ∈ inUse (cacheRun twoNames twoNameCalls).ns.fileCache,
            entry.key = filename) ↔
          filename ∈
            (mostRecent (cacheRun twoNames twoNameCalls).uses).take
              (min fileCacheSize
                (cacheRun twoNames twoNameCalls).stored.dedup.length) := by
  have registered :
      ∀ call ∈ twoNameCalls, call.Registered twoNames := by
    simp only [twoNameCalls, List.forall_mem_cons]
    exact ⟨⟨_, rfl, rfl⟩, ⟨_, rfl, rfl⟩, trivial, nofun⟩
  exact cacheRun_leastRecentlyUsed (by decide) (by decide) registered
    (by unfold TickFits; decide +kernel)

end DistributedDocs
