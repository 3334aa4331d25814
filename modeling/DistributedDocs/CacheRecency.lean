import DistributedDocs.LookupCache
import Mathlib.Data.List.Nodup
import Mathlib.Data.List.Perm.Basic
import Mathlib.Data.List.Dedup

namespace DistributedDocs

/-!
# Caches in the order of use

Keys in the order of their last use, the last one first, are what a cache of
least recently used keys holds the front part of.  Its slots are in no order,
so a cache is compared with the keys by way of its slots sorted by their tick.
-/

/-! ## Keys in the order of use -/

section Recency

variable
  {Key : Type*}
  [DecidableEq Key]

/-- Use a key. -/
def touch (key : Key) (recent : List Key) : List Key :=
  key :: recent.erase key

/-- The keys that were used, the last used first, from all uses. -/
def mostRecent : List Key → List Key
  | [] =>
      []
  | key :: earlier =>
      touch key (mostRecent earlier)

theorem mem_mostRecent_iff
    {uses : List Key}
    {key : Key} :
    key ∈ mostRecent uses ↔ key ∈ uses := by
  induction uses with
  | nil =>
      rfl
  | cons used earlier inductionHypothesis =>
      rw [mostRecent, touch, List.mem_cons, List.mem_cons]
      by_cases same : key = used
      · simp only [same, true_or]
      · rw [List.mem_erase_of_ne same, inductionHypothesis]

theorem nodup_mostRecent (uses : List Key) : (mostRecent uses).Nodup := by
  induction uses with
  | nil =>
      exact List.nodup_nil
  | cons used earlier inductionHypothesis =>
      rw [mostRecent, touch, List.nodup_cons]
      exact ⟨inductionHypothesis.not_mem_erase,
        inductionHypothesis.erase used⟩

/-- There are as many keys as were used. -/
theorem length_mostRecent
    {uses keys : List Key}
    (same : ∀ key, key ∈ uses ↔ key ∈ keys) :
    (mostRecent uses).length = keys.dedup.length := by
  have permuted : (mostRecent uses).Perm keys.dedup := by
    rw [List.perm_ext_iff_of_nodup (nodup_mostRecent uses)
      (List.nodup_dedup keys)]
    intro key
    rw [mem_mostRecent_iff, List.mem_dedup, same]
  exact permuted.length_eq

section Front

variable
  {capacity : Nat}
  {key : Key}
  {recent : List Key}

/-- A key of the front part comes to the front of it. -/
theorem take_touch_of_mem
    (held : key ∈ recent.take capacity) :
    (touch key recent).take capacity =
      key :: (recent.take capacity).erase key := by
  obtain ⟨front, rest, notInFront, split, erased⟩ :=
    List.exists_erase_eq (List.mem_of_mem_take held)
  have early : front.length < capacity := by
    by_contra late
    rw [split, List.take_append_of_le_length (Nat.not_lt.mp late)] at held
    exact notInFront (List.mem_of_mem_take held)
  obtain ⟨more, rfl⟩ := Nat.exists_eq_add_of_lt early
  have frontPart :
      (front ++ key :: rest).take (front.length + more + 1) =
        front ++ key :: rest.take more := by
    rw [Nat.add_assoc, List.take_length_add_append, List.take_succ_cons]
  rw [touch, erased, split, frontPart, List.take_succ_cons,
    List.take_length_add_append, List.erase_append_right _ notInFront,
    List.erase_cons_head]

/-- Any other key drives the last one out if there is no more room. -/
theorem take_touch_of_not_mem
    (positive : 0 < capacity)
    (notHeld : key ∉ recent.take capacity) :
    (touch key recent).take capacity =
      key :: recent.take (capacity - 1) := by
  obtain ⟨fewer, rfl⟩ : ∃ fewer, capacity = fewer + 1 :=
    ⟨capacity - 1, by omega⟩
  rw [touch, List.take_succ_cons, Nat.add_sub_cancel]
  by_cases known : key ∈ recent
  · obtain ⟨front, rest, _, split, erased⟩ := List.exists_erase_eq known
    have late : fewer + 1 ≤ front.length := by
      by_contra early
      obtain ⟨more, isMore⟩ := Nat.exists_eq_add_of_lt (Nat.not_le.mp early)
      apply notHeld
      rw [split, isMore, Nat.add_assoc, List.take_length_add_append,
        List.take_succ_cons]
      exact List.mem_append_right _ List.mem_cons_self
    rw [erased, split, List.take_append_of_le_length (by omega),
      List.take_append_of_le_length (by omega)]
  · rw [List.erase_of_not_mem known]

end Front

end Recency

namespace LookupCache

/-! ## Slots in the order of their ticks -/

section Slots

variable {Key Value : Type*}

/-- The slots that are in use. -/
def inUse (entries : List (CacheEntry Key Value)) :
    List (CacheEntry Key Value) :=
  entries.filter CacheEntry.valid

/--
Sorted by their ticks, none of them later than `tick`, the slots in use hold
the keys used last, as many as there are slots.
-/
def HoldsMostRecent
    (tick : UInt64)
    (recent : List Key)
    (entries : List (CacheEntry Key Value)) : Prop :=
  ∃ sorted : List (CacheEntry Key Value),
    sorted.Perm (inUse entries) ∧
      sorted.map CacheEntry.key = recent.take entries.length ∧
      sorted.Pairwise (fun newer older => older.lastUsed < newer.lastUsed) ∧
      ∀ entry ∈ sorted, entry.lastUsed ≤ tick

variable
  {entries : List (CacheEntry Key Value)}
  {slot : Nat}
  {old new : CacheEntry Key Value}

theorem HoldsMostRecent.lastUsed_le
    {tick : UInt64}
    {recent : List Key}
    (holds : HoldsMostRecent tick recent entries)
    {entry : CacheEntry Key Value}
    (listed : entry ∈ inUse entries) :
    entry.lastUsed ≤ tick := by
  obtain ⟨sorted, permuted, _, _, past⟩ := holds
  exact past entry (permuted.mem_iff.mpr listed)

theorem mem_inUse_iff
    {entry : CacheEntry Key Value} :
    entry ∈ inUse entries ↔ entry ∈ entries ∧ entry.valid = true :=
  List.mem_filter

/-- The slots in front of a slot, the slot, and the slots behind it. -/
theorem exists_set_eq
    (held : entries[slot]? = some old) :
    ∃ front back,
      entries = front ++ old :: back ∧
        ∀ entry, entries.set slot entry = front ++ entry :: back := by
  obtain ⟨bound, isOld⟩ := List.getElem?_eq_some_iff.mp held
  refine ⟨entries.take slot, entries.drop (slot + 1), ?_, ?_⟩
  · rw [← isOld, ← List.drop_eq_getElem_cons bound, List.take_append_drop]
  · intro entry
    rw [List.set_eq_take_append_cons_drop, if_pos bound]

/-- A free slot that is filled is one more in use. -/
theorem inUse_set_of_free
    (held : entries[slot]? = some old)
    (free : old.valid = false)
    (filled : new.valid = true) :
    (inUse (entries.set slot new)).Perm (new :: inUse entries) := by
  obtain ⟨front, back, split, replaced⟩ := exists_set_eq held
  rw [replaced, split, inUse, inUse, List.filter_append, List.filter_append,
    List.filter_cons_of_pos filled, List.filter_cons_of_neg (by simp [free])]
  exact List.perm_middle

/-- A slot in use that is filled again takes its own place. -/
theorem exists_inUse_set
    (held : entries[slot]? = some old)
    (valid : old.valid = true)
    (filled : new.valid = true)
    {sorted : List (CacheEntry Key Value)}
    (permuted : sorted.Perm (inUse entries)) :
    ∃ newer older,
      sorted = newer ++ old :: older ∧
        (inUse (entries.set slot new)).Perm (new :: (newer ++ older)) := by
  obtain ⟨front, back, split, replaced⟩ := exists_set_eq held
  have listed : old ∈ sorted := by
    rw [permuted.mem_iff, mem_inUse_iff]
    exact ⟨List.mem_of_getElem? held, valid⟩
  obtain ⟨newer, older, rfl⟩ := List.append_of_mem listed
  refine ⟨newer, older, rfl, ?_⟩
  rw [split, inUse, List.filter_append, List.filter_cons_of_pos valid]
    at permuted
  have others :
      (newer ++ older).Perm
        (front.filter CacheEntry.valid ++ back.filter CacheEntry.valid) :=
    (List.perm_middle.symm.trans (permuted.trans List.perm_middle)).cons_inv
  rw [replaced, inUse, List.filter_append, List.filter_cons_of_pos filled]
  exact List.perm_middle.trans (others.symm.cons new)

end Slots

section Uses

variable
  {Key Value : Type*}
  [DecidableEq Key]
  {entries : List (CacheEntry Key Value)}
  {recent : List Key}
  {tick : UInt64}
  {slot : Nat}
  {old : CacheEntry Key Value}
  (new : CacheEntry Key Value)

/-- Whatever is used next comes to the front of the slots that are kept. -/
theorem holdsMostRecent_cons
    {kept after : List (CacheEntry Key Value)}
    (permuted : (inUse after).Perm (new :: kept))
    (keys :
      (touch new.key recent).take after.length =
        new.key :: kept.map CacheEntry.key)
    (ordered :
      kept.Pairwise fun newer older => older.lastUsed < newer.lastUsed)
    (past : ∀ entry ∈ kept, entry.lastUsed ≤ tick)
    (later : tick < new.lastUsed) :
    HoldsMostRecent new.lastUsed (touch new.key recent) after := by
  have earlier : ∀ entry ∈ kept, entry.lastUsed < new.lastUsed :=
    fun entry listed => UInt64.lt_of_le_of_lt (past entry listed) later
  refine ⟨new :: kept, permuted.symm, keys.symm, ?_, ?_⟩
  · exact List.pairwise_cons.mpr ⟨earlier, ordered⟩
  · intro entry listed
    rcases List.mem_cons.mp listed with rfl | inKept
    · exact UInt64.le_refl _
    · exact UInt64.le_of_lt (earlier entry inKept)

/-- A slot that is used gets the latest tick, and its key comes to the front. -/
theorem HoldsMostRecent.reused
    (holds : HoldsMostRecent tick recent entries)
    (apart : recent.Nodup)
    (held : entries[slot]? = some old)
    (valid : old.valid = true)
    (filled : new.valid = true)
    (sameKey : new.key = old.key)
    (later : tick < new.lastUsed) :
    HoldsMostRecent new.lastUsed (touch new.key recent)
      (entries.set slot new) := by
  obtain ⟨sorted, permuted, keys, ordered, past⟩ := holds
  obtain ⟨newer, older, rfl, permutedAfter⟩ :=
    exists_inUse_set held valid filled permuted
  have kept : (newer ++ older).Sublist (newer ++ old :: older) :=
    List.Sublist.append_left (List.sublist_cons_self _ _) newer
  have keysApart : (recent.take entries.length).Nodup :=
    apart.sublist (List.take_sublist _ _)
  have inFront : new.key ∈ recent.take entries.length := by
    rw [← keys, sameKey]
    exact List.mem_map_of_mem (List.mem_append_right _ List.mem_cons_self)
  have notNewer : old.key ∉ newer.map CacheEntry.key := by
    intro listed
    rw [← keys, List.map_append] at keysApart
    exact (List.nodup_append.mp keysApart).2.2 _ listed _
      List.mem_cons_self rfl
  apply holdsMostRecent_cons new permutedAfter _ (ordered.sublist kept) _ later
  · rw [List.length_set, take_touch_of_mem inFront, ← keys, sameKey,
      List.map_append, List.map_cons, List.erase_append_right _ notNewer,
      List.erase_cons_head, List.map_append]
  · exact fun entry listed => past entry (kept.subset listed)

variable
  (absent : ∀ entry ∈ inUse entries, entry.key ≠ new.key)

include absent

omit [DecidableEq Key] in
theorem not_mem_of_absent
    {sorted : List (CacheEntry Key Value)}
    (permuted : sorted.Perm (inUse entries)) :
    new.key ∉ sorted.map CacheEntry.key := by
  intro listed
  obtain ⟨entry, inSorted, same⟩ := List.mem_map.mp listed
  exact absent entry (permuted.mem_iff.mp inSorted) same

/-- While a slot is free nothing is driven out. -/
theorem HoldsMostRecent.filled
    (holds : HoldsMostRecent tick recent entries)
    (held : entries[slot]? = some old)
    (free : old.valid = false)
    (filled : new.valid = true)
    (later : tick < new.lastUsed) :
    HoldsMostRecent new.lastUsed (touch new.key recent)
      (entries.set slot new) := by
  obtain ⟨sorted, permuted, keys, ordered, past⟩ := holds
  have fewer : sorted.length < entries.length := by
    rw [permuted.length_eq, inUse, List.length_filter_lt_length_iff_exists]
    exact ⟨old, List.mem_of_getElem? held, by simp [free]⟩
  have size := congrArg List.length keys
  rw [List.length_map, List.length_take] at size
  have whole : ∀ bound, entries.length - 1 ≤ bound →
      recent.take bound = recent :=
    fun bound large => List.take_of_length_le (by omega)
  have permutedAfter :=
    (inUse_set_of_free held free filled).trans (permuted.symm.cons new)
  apply holdsMostRecent_cons new permutedAfter _ ordered past later
  have notHeld := not_mem_of_absent new absent permuted
  rw [keys] at notHeld
  rw [List.length_set, take_touch_of_not_mem (by omega) notHeld, keys,
    whole _ (Nat.le_refl _), whole _ (Nat.sub_le _ _)]

/-- If no slot is free, the key used longest ago is driven out. -/
theorem HoldsMostRecent.evicted
    (holds : HoldsMostRecent tick recent entries)
    (held : entries[slot]? = some old)
    (full : ∀ entry ∈ entries, entry.valid = true)
    (oldest : ∀ entry ∈ entries, old.lastUsed ≤ entry.lastUsed)
    (filled : new.valid = true)
    (later : tick < new.lastUsed) :
    HoldsMostRecent new.lastUsed (touch new.key recent)
      (entries.set slot new) := by
  obtain ⟨sorted, permuted, keys, ordered, past⟩ := holds
  have notHeld := not_mem_of_absent new absent permuted
  have allInUse : inUse entries = entries :=
    List.filter_eq_self.mpr full
  obtain ⟨newer, older, rfl, permutedAfter⟩ :=
    exists_inUse_set held (full old (List.mem_of_getElem? held)) filled
      permuted
  rw [allInUse] at permuted
  have isLast : older = [] := by
    apply List.eq_nil_iff_forall_not_mem.mpr
    intro entry listed
    have behind :=
      (List.pairwise_cons.mp (List.pairwise_append.mp ordered).2.1).1 entry
        listed
    have inEntries : entry ∈ entries :=
      permuted.mem_iff.mp
        (List.mem_append_right _ (List.mem_cons_of_mem _ listed))
    exact UInt64.not_lt.mpr (oldest entry inEntries) behind
  subst isLast
  rw [List.append_nil] at permutedAfter
  have kept : newer.Sublist (newer ++ [old]) :=
    List.sublist_append_left _ _
  apply holdsMostRecent_cons new permutedAfter _ (ordered.sublist kept) _ later
  · have size := permuted.length_eq
    rw [List.length_append, List.length_singleton] at size
    have front :
        recent.take (entries.length - 1) = newer.map CacheEntry.key := by
      have shorter := congrArg (List.take (entries.length - 1)) keys
      rw [List.take_take, Nat.min_eq_left (Nat.sub_le _ _), List.map_append,
        List.take_append_of_le_length (by rw [List.length_map]; omega),
        List.take_of_length_le (by rw [List.length_map]; omega)] at shorter
      exact shorter.symm
    rw [keys] at notHeld
    rw [List.length_set, take_touch_of_not_mem (by omega) notHeld, front]
  · exact fun entry listed => past entry (kept.subset listed)

end Uses

/-! ## The slots that are chosen -/

section Choices

variable
  {Key Value : Type*}
  {entries : List (CacheEntry Key Value)}

/-- The scan stops with the slot used longest ago, if that was before `oldest`. -/
theorem oldestSlot_spec
    (position : Nat)
    (oldest : UInt64)
    (slot : Option Nat)
    (entries : List (CacheEntry Key Value)) :
    (oldestSlot position oldest slot entries = slot ∧
        ∀ entry ∈ entries, oldest ≤ entry.lastUsed) ∨
      ∃ index entry,
        oldestSlot position oldest slot entries = some (position + index) ∧
          entries[index]? = some entry ∧ entry.lastUsed < oldest ∧
          ∀ other ∈ entries, entry.lastUsed ≤ other.lastUsed := by
  induction entries generalizing position oldest slot with
  | nil =>
      exact .inl ⟨rfl, nofun⟩
  | cons first rest inductionHypothesis =>
      rw [oldestSlot]
      split
      · next earlier =>
        rcases inductionHypothesis (position + 1) first.lastUsed
            (some position) with
          ⟨stays, none⟩ | ⟨index, entry, found, held, before, least⟩
        · refine .inr ⟨0, first, stays, rfl, earlier, ?_⟩
          exact List.forall_mem_cons.mpr ⟨UInt64.le_refl _, none⟩
        · refine .inr ⟨index + 1, entry, ?_, held,
            UInt64.lt_trans before earlier, ?_⟩
          · rw [found, Nat.add_assoc, Nat.add_comm 1]
          · exact List.forall_mem_cons.mpr ⟨UInt64.le_of_lt before, least⟩
      · next notEarlier =>
        have notBefore : oldest ≤ first.lastUsed :=
          UInt64.not_lt.mp notEarlier
        rcases inductionHypothesis (position + 1) oldest slot with
          ⟨stays, none⟩ | ⟨index, entry, found, held, before, least⟩
        · exact .inl ⟨stays, List.forall_mem_cons.mpr ⟨notBefore, none⟩⟩
        · refine .inr ⟨index + 1, entry, ?_, held, before, ?_⟩
          · rw [found, Nat.add_assoc, Nat.add_comm 1]
          · exact List.forall_mem_cons.mpr
              ⟨UInt64.le_of_lt (UInt64.lt_of_lt_of_le before notBefore),
                least⟩

variable
  [DecidableEq Key]
  {recent : List Key}
  {tick later : UInt64}
  {key : Key}

theorem absent_iff :
    entries.findIdx? (answersFor key) = none ↔
      ∀ entry ∈ inUse entries, entry.key ≠ key := by
  rw [List.findIdx?_eq_none_iff]
  constructor
  · intro refused entry listed same
    obtain ⟨member, valid⟩ := mem_inUse_iff.mp listed
    have answers := refused entry member
    simp [answersFor, valid, same] at answers
  · intro absent entry member
    cases valid : entry.valid with
    | false =>
        simp [answersFor, valid]
    | true =>
        have other := absent entry (mem_inUse_iff.mpr ⟨member, valid⟩)
        simp [answersFor, other]

/-- A stored key is the most recent one, and takes the slot it has to. -/
theorem HoldsMostRecent.store
    (holds : HoldsMostRecent tick recent entries)
    (apart : recent.Nodup)
    (someSlot : entries ≠ [])
    (after : tick < later)
    (key : Key)
    (value : Value) :
    ∃ slot,
      slotFor key entries = some slot ∧
        HoldsMostRecent later (touch key recent)
          (fill slot key value later entries) := by
  unfold slotFor
  cases own : entries.findIdx? (answersFor key) with
  | some slot =>
      obtain ⟨bound, answers, _⟩ :=
        List.findIdx?_eq_some_iff_getElem.mp own
      simp only [answersFor, Bool.and_eq_true, decide_eq_true_eq] at answers
      refine ⟨slot, rfl, ?_⟩
      exact holds.reused ⟨key, value, true, later⟩ apart
        (List.getElem?_eq_getElem bound) answers.1 rfl answers.2.symm after
  | none =>
      have absent := absent_iff.mp own
      cases unused : entries.findIdx? fun entry => !entry.valid with
      | some slot =>
          obtain ⟨bound, free, _⟩ :=
            List.findIdx?_eq_some_iff_getElem.mp unused
          refine ⟨slot, rfl, ?_⟩
          exact HoldsMostRecent.filled ⟨key, value, true, later⟩ absent holds
            (List.getElem?_eq_getElem bound) (by simpa using free) rfl after
      | none =>
          have full : ∀ entry ∈ entries, entry.valid = true := by
            simpa using List.findIdx?_eq_none_iff.mp unused
          rcases oldestSlot_spec 0 (UInt64.ofNat (2 ^ 64 - 1)) none entries
            with ⟨_, late⟩ | ⟨slot, old, found, held, _, least⟩
          · obtain ⟨entry, member⟩ := List.exists_mem_of_ne_nil entries someSlot
            have notAfter :=
              holds.lastUsed_le (mem_inUse_iff.mpr ⟨member, full entry member⟩)
            have never := UInt64.le_trans (late entry member) notAfter
            have maximal : (UInt64.ofNat (2 ^ 64 - 1)).toNat = 2 ^ 64 - 1 :=
              rfl
            rw [UInt64.le_iff_toNat_le, maximal] at never
            have before := UInt64.lt_iff_toNat_lt.mp after
            have bounded := later.toNat_lt
            omega
          · refine ⟨slot, by simpa using found, ?_⟩
            exact HoldsMostRecent.evicted ⟨key, value, true, later⟩ absent
              holds held full least rfl after

/-- A lookup hits the slot that holds the key, if there is one. -/
theorem lookup_spec
    (key : Key)
    (later : UInt64)
    (usable : Value → Bool)
    (allUsable : ∀ entry ∈ inUse entries, usable entry.value = true) :
    (lookup key usable later entries = (none, entries) ∧
        ∀ entry ∈ inUse entries, entry.key ≠ key) ∨
      ∃ slot entry,
        entries[slot]? = some entry ∧ entry.valid = true ∧
          entry.key = key ∧
          lookup key usable later entries =
            (some entry.value,
              entries.set slot { entry with lastUsed := later }) := by
  induction entries with
  | nil =>
      exact .inl ⟨rfl, nofun⟩
  | cons first rest inductionHypothesis =>
      rw [lookup]
      split
      · next answers =>
        simp only [answersFor, Bool.and_eq_true, decide_eq_true_eq] at answers
        have firstUsable :=
          allUsable first (mem_inUse_iff.mpr ⟨List.mem_cons_self, answers.1⟩)
        rw [if_pos firstUsable]
        exact .inr ⟨0, first, rfl, answers.1, answers.2, rfl⟩
      · next refused =>
        have restUsable : ∀ entry ∈ inUse rest, usable entry.value = true := by
          intro entry listed
          obtain ⟨member, valid⟩ := mem_inUse_iff.mp listed
          exact allUsable entry
            (mem_inUse_iff.mpr ⟨List.mem_cons_of_mem _ member, valid⟩)
        rcases inductionHypothesis restUsable with
          ⟨missed, absent⟩ | ⟨slot, entry, held, valid, same, hit⟩
        · refine .inl ⟨by rw [missed], ?_⟩
          intro entry listed same
          obtain ⟨member, valid⟩ := mem_inUse_iff.mp listed
          rcases List.mem_cons.mp member with rfl | inRest
          · exact refused (by simp [answersFor, valid, same])
          · exact absent entry (mem_inUse_iff.mpr ⟨inRest, valid⟩) same
        · exact .inr ⟨slot + 1, entry, held, valid, same, by rw [hit]; rfl⟩

omit [DecidableEq Key] in
/-- A cache in which no slot is in use. -/
theorem holdsMostRecent_of_free
    (free : ∀ entry ∈ entries, entry.valid = false)
    (tick : UInt64) :
    HoldsMostRecent tick ([] : List Key) entries := by
  have noneInUse : inUse entries = [] := by
    rw [inUse, List.filter_eq_nil_iff]
    intro entry member
    simp [free entry member]
  exact ⟨[], by rw [noneInUse], by simp, .nil, nofun⟩

omit [DecidableEq Key] in
theorem HoldsMostRecent.mem_take_iff
    (holds : HoldsMostRecent tick recent entries) :
    (∃ entry ∈ inUse entries, entry.key = key) ↔
      key ∈ recent.take entries.length := by
  obtain ⟨sorted, permuted, keys, _⟩ := holds
  rw [← keys, List.mem_map]
  simp only [permuted.mem_iff]

omit [DecidableEq Key] in
/-- Slots in use differ in their keys and in their ticks. -/
theorem HoldsMostRecent.pairwise
    (holds : HoldsMostRecent tick recent entries)
    (apart : recent.Nodup) :
    (inUse entries).Pairwise fun entry other =>
      entry.key ≠ other.key ∧ entry.lastUsed ≠ other.lastUsed := by
  obtain ⟨sorted, permuted, keys, ordered, _⟩ := holds
  have keysApart : (sorted.map CacheEntry.key).Nodup := by
    rw [keys]
    exact apart.sublist (List.take_sublist _ _)
  have ticksApart :
      sorted.Pairwise fun entry other => entry.lastUsed ≠ other.lastUsed :=
    ordered.imp fun earlier => (UInt64.ne_of_lt earlier).symm
  have both := (List.pairwise_map.mp keysApart).and ticksApart
  exact (permuted.pairwise_iff fun differ =>
    ⟨differ.1.symm, differ.2.symm⟩).mp both

end Choices

end LookupCache

end DistributedDocs
