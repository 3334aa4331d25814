import DistributedDocs.NameServerCoherence
import DistributedDocs.RoundRobin
import Mathlib.Data.Prod.Lex

namespace DistributedDocs

/-!
# The placement of new files

`ns_select_storage_server_balanced` chooses a connected storage server with
the least load, and goes round among those that share it.
-/

/-- The load that is compared: the bytes first, and no negative number. -/
def countedLoad (ss : StorageServerInfo) : Int ×ₗ Int :=
  toLex (max 0 ss.totalBytes, max 0 ss.totalFiles)

/-- The server is connected, and no connected server has a smaller load. -/
def LeastLoaded
    (servers : List StorageServerInfo)
    (ss : StorageServerInfo) : Prop :=
  ss.isAlive = true ∧
    ∀ other ∈ servers, other.isAlive = true →
      countedLoad ss ≤ countedLoad other

instance
    (servers : List StorageServerInfo)
    (ss : StorageServerInfo) :
    Decidable (LeastLoaded servers ss) :=
  inferInstanceAs (Decidable (_ ∧ _))

/-- The servers that share the least load. -/
def leastLoadedServers (servers : List StorageServerInfo) :
    List StorageServerInfo :=
  servers.filter fun ss => LeastLoaded servers ss

/-- What a number of consecutive calls return. -/
def selections : Nat → NameServer → List (Option StorageServerInfo)
  | 0, _ =>
      []
  | calls + 1, ns =>
      (nsSelectStorageServerBalanced ns).1 ::
        selections calls (nsSelectStorageServerBalanced ns).2

/-- All sums of a stored position and an offset are values of `int`. -/
def SumsFit (ns : NameServer) : Prop :=
  max ns.ssRoundRobinIndex ns.storageServers.length +
      ns.storageServers.length ≤
    2147483648

instance (ns : NameServer) : Decidable (SumsFit ns) :=
  inferInstanceAs (Decidable (_ ≤ _))

/-- The choice is of the least load, and goes round. -/
structure PlacedInTurn (ns : NameServer) : Prop where
  none_iff :
    (nsSelectStorageServerBalanced ns).1 = none ↔
      ∀ ss ∈ ns.storageServers, ss.isAlive = false
  least :
    ∀ chosen,
      (nsSelectStorageServerBalanced ns).1 = some chosen →
        ∃ ss ∈ ns.storageServers,
          chosen = clampLoads ss ∧ LeastLoaded ns.storageServers ss
  first :
    (nsSelectStorageServerBalanced ns).1 =
      ((ns.storageServers.rotate ns.ssRoundRobinIndex).find? fun ss =>
        LeastLoaded ns.storageServers ss).map clampLoads
  inTurn :
    (selections (leastLoadedServers ns.storageServers).length ns).Perm
      ((leastLoadedServers ns.storageServers).map fun ss =>
        some (clampLoads ss))
  once :
    ∀ ss ∈ leastLoadedServers ns.storageServers,
      ((selections (leastLoadedServers ns.storageServers).length ns).countP
        fun chosen => chosen.map StorageServerInfo.address = some ss.address) =
        1

/-! ## One choice -/

@[simp] theorem isAlive_clampLoads (ss : StorageServerInfo) :
    (clampLoads ss).isAlive = ss.isAlive := by
  unfold clampLoads
  split <;> rfl

@[simp] theorem address_clampLoads (ss : StorageServerInfo) :
    (clampLoads ss).address = ss.address := by
  unfold clampLoads
  split <;> rfl

@[simp] theorem countedLoad_clampLoads (ss : StorageServerInfo) :
    countedLoad (clampLoads ss) = countedLoad ss := by
  unfold countedLoad clampLoads
  split
  · simp
  · rfl

@[simp] theorem clampLoads_clampLoads (ss : StorageServerInfo) :
    clampLoads (clampLoads ss) = clampLoads ss := by
  cases alive : ss.isAlive with
  | true => simp [clampLoads, alive]
  | false => simp [clampLoads, alive]

/-- Between connected servers the code compares the counted loads. -/
theorem lighterThan_clampLoads
    {candidate best : StorageServerInfo}
    (candidateAlive : candidate.isAlive = true)
    (bestAlive : best.isAlive = true) :
    lighterThan (clampLoads candidate) (clampLoads best) =
      decide (countedLoad candidate < countedLoad best) := by
  rw [Bool.eq_iff_iff, decide_eq_true_eq, countedLoad, countedLoad,
    Prod.Lex.toLex_lt_toLex]
  simp [lighterThan, clampLoads, candidateAlive, bestAlive]

/-- A position and the server there, as the loop keeps them. -/
def keptBest (entry : StorageServerInfo × Nat) : Nat × StorageServerInfo :=
  (entry.2, clampLoads entry.1)

/-- The loop keeps the first connected server of the least load. -/
theorem lightestOf_eq_foldl
    {servers : List StorageServerInfo}
    {entries : List (StorageServerInfo × Nat)}
    (held : ∀ entry ∈ entries, servers[entry.2]? = some entry.1)
    {best : Option (StorageServerInfo × Nat)}
    (bestAlive : ∀ kept, best = some kept → kept.1.isAlive = true) :
    lightestOf (servers.map clampLoads) (best.map keptBest)
        (entries.map Prod.snd) =
      ((entries.filter fun entry => entry.1.isAlive).foldl
        (List.argAux fun entry kept =>
          countedLoad entry.1 < countedLoad kept.1)
        best).map keptBest := by
  induction entries generalizing best with
  | nil =>
      rfl
  | cons entry rest inductionHypothesis =>
      have heldRest :
          ∀ other ∈ rest, servers[other.2]? = some other.1 :=
        fun other member => held other (List.mem_cons_of_mem entry member)
      have here :
          (servers.map clampLoads)[entry.2]? = some (clampLoads entry.1) := by
        rw [List.getElem?_map, held entry List.mem_cons_self, Option.map_some]
      rw [List.map_cons, lightestOf, here]
      simp only [isAlive_clampLoads]
      cases alive : entry.1.isAlive with
      | false =>
          rw [List.filter_cons_of_neg (by simp [alive])]
          simpa using inductionHypothesis heldRest bestAlive
      | true =>
          rw [List.filter_cons_of_pos (by simp [alive]), List.foldl_cons]
          have entryAlive :
              ∀ kept, some entry = some kept → kept.1.isAlive = true := by
            rintro _ ⟨⟩
            exact alive
          cases best with
          | none =>
              exact inductionHypothesis heldRest entryAlive
          | some kept =>
              have compared :=
                lighterThan_clampLoads alive (bestAlive kept rfl)
              simp only [Bool.true_and, Option.map_some, Option.all_some,
                keptBest, compared, decide_eq_true_eq]
              by_cases lighter : countedLoad entry.1 < countedLoad kept.1
              · rw [if_pos lighter]
                have replaced := inductionHypothesis heldRest entryAlive
                simpa [List.argAux, lighter, keptBest] using replaced
              · rw [if_neg lighter]
                have kept := inductionHypothesis heldRest bestAlive
                simpa [List.argAux, lighter, keptBest] using kept

/-- The code chooses the next server of the least load. -/
theorem lightestOf_eq_nextDue
    (servers : List StorageServerInfo)
    (start : Nat) :
    lightestOf (servers.map clampLoads) none
        ((List.range servers.length).map fun offset =>
          (start + offset) % servers.length) =
      (nextDue (fun ss => LeastLoaded servers ss) servers start).map
        keptBest := by
  have scanned :=
    @lightestOf_eq_foldl servers (servers.zipIdx.rotate start)
      (fun entry member => getElem?_of_mem_zipIdx_rotate member) none
      (fun _ impossible => by cases impossible)
  rw [map_snd_zipIdx_rotate, Option.map_none] at scanned
  rw [scanned]
  congr 1
  change
    ((servers.zipIdx.rotate start).filter fun entry =>
      entry.1.isAlive).argmin (fun entry => countedLoad entry.1) = _
  rw [argmin_eq_find?, List.find?_filter, nextDue]
  refine List.find?_congr fun entry _ => ?_
  rw [decide_eq_decide, decide_eq_true_eq, LeastLoaded]
  simp only [List.mem_filter, List.mem_rotate]
  refine and_congr_right fun _ => ⟨fun least other member alive => ?_,
    fun least other member => ?_⟩
  · obtain ⟨position, held⟩ := List.getElem?_of_mem member
    exact least (other, position)
      ⟨List.mem_zipIdx_iff_getElem?.mpr held, alive⟩
  · have held := List.mem_zipIdx_iff_getElem?.mp member.1
    exact least other.1 (List.mem_of_getElem? held) member.2

/-- Where the sum is an `int`, the place is that of the remainder. -/
theorem roundRobinPlace_of_fits
    {index count offset : Nat}
    (fits : index + offset ≤ 2147483647) :
    roundRobinPlace index count offset = some ((index + offset) % count) := by
  have sum : toInt ((index : Int) + offset) = ((index + offset : Nat) : Int) :=
    toInt_of_fits ⟨by omega, by omega⟩
  have place :
      ((index + offset : Nat) : Int).tmod count =
        ((index + offset) % count : Nat) :=
    rfl
  rw [roundRobinPlace, sum]
  simp only [place, if_neg (Int.not_lt.mpr (Int.natCast_nonneg _)),
    Int.toNat_natCast]

/-- The places the loop looks at. -/
theorem filterMap_roundRobinPlace
    {index count : Nat}
    (fits : index + count ≤ 2147483648) :
    (List.range count).filterMap (roundRobinPlace index count) =
      (List.range count).map fun offset => (index + offset) % count := by
  rw [← List.filterMap_eq_map]
  refine List.filterMap_congr fun offset inRange => ?_
  have bound := List.mem_range.mp inRange
  exact roundRobinPlace_of_fits (by omega)

section Choices

variable
  {ns : NameServer}
  (fits : SumsFit ns)

include fits

/-- One call, in terms of the next server of the least load. -/
theorem nsSelectStorageServerBalanced_eq :
    nsSelectStorageServerBalanced ns =
      match
        nextDue (fun ss => LeastLoaded ns.storageServers ss)
          ns.storageServers ns.ssRoundRobinIndex with
      | some (best, position) =>
          (some (clampLoads best),
            { ns with
              storageServers := ns.storageServers.map clampLoads
              ssRoundRobinIndex := (position + 1) % ns.storageServers.length })
      | none =>
          (none,
            { ns with storageServers := ns.storageServers.map clampLoads }) := by
  have sums : ns.ssRoundRobinIndex + ns.storageServers.length ≤ 2147483648 := by
    unfold SumsFit at fits
    omega
  unfold nsSelectStorageServerBalanced
  simp only [filterMap_roundRobinPlace sums, lightestOf_eq_nextDue]
  cases
    nextDue (fun ss => LeastLoaded ns.storageServers ss) ns.storageServers
      ns.ssRoundRobinIndex with
  | none => rfl
  | some chosen => rfl

theorem select_eq_find? :
    (nsSelectStorageServerBalanced ns).1 =
      ((ns.storageServers.rotate ns.ssRoundRobinIndex).find? fun ss =>
        LeastLoaded ns.storageServers ss).map clampLoads := by
  rw [← nextDue_fst, nsSelectStorageServerBalanced_eq fits]
  cases
    nextDue (fun ss => LeastLoaded ns.storageServers ss) ns.storageServers
      ns.ssRoundRobinIndex with
  | none => rfl
  | some chosen => rfl

omit fits in
/-- Some connected server has the least load. -/
theorem exists_leastLoaded
    {servers : List StorageServerInfo}
    {ss : StorageServerInfo}
    (member : ss ∈ servers)
    (alive : ss.isAlive = true) :
    ∃ best ∈ servers, LeastLoaded servers best := by
  have inAlive := List.mem_filter.mpr ⟨member, alive⟩
  cases found :
      (servers.filter StorageServerInfo.isAlive).argmin countedLoad with
  | none =>
      rw [List.argmin_eq_none.mp found] at inAlive
      cases inAlive
  | some best =>
      obtain ⟨held, bestAlive⟩ := List.mem_filter.mp (List.argmin_mem found)
      refine ⟨best, held, bestAlive, fun other otherMember otherAlive => ?_⟩
      exact List.le_of_mem_argmin
        (List.mem_filter.mpr ⟨otherMember, otherAlive⟩) found

theorem select_eq_none_iff :
    (nsSelectStorageServerBalanced ns).1 = none ↔
      ∀ ss ∈ ns.storageServers, ss.isAlive = false := by
  rw [select_eq_find? fits, Option.map_eq_none_iff, List.find?_eq_none]
  simp only [List.mem_rotate, decide_eq_true_eq]
  constructor
  · intro noneLeast ss member
    by_contra alive
    obtain ⟨best, held, least⟩ :=
      exists_leastLoaded member (eq_true_of_ne_false alive)
    exact noneLeast best held least
  · intro noneAlive ss member least
    exact absurd least.1 (by rw [noneAlive ss member]; decide)

end Choices

/-! ## Consecutive choices -/

/-- Counting negative loads as 0 changes no comparison. -/
theorem leastLoaded_map_clampLoads
    {servers : List StorageServerInfo}
    {ss : StorageServerInfo} :
    LeastLoaded (servers.map clampLoads) (clampLoads ss) ↔
      LeastLoaded servers ss := by
  simp [LeastLoaded]

theorem leastLoadedServers_map_clampLoads (servers : List StorageServerInfo) :
    leastLoadedServers (servers.map clampLoads) =
      (leastLoadedServers servers).map clampLoads := by
  rw [leastLoadedServers, leastLoadedServers, List.filter_map]
  congr 1
  refine List.filter_congr fun ss _ => ?_
  rw [Function.comp_apply, decide_eq_decide]
  exact leastLoaded_map_clampLoads

/-- The servers with their negative loads counted as 0. -/
def counted (ns : NameServer) : NameServer :=
  { ns with storageServers := ns.storageServers.map clampLoads }

theorem select_counted (ns : NameServer) :
    nsSelectStorageServerBalanced (counted ns) =
      nsSelectStorageServerBalanced ns := by
  have again :
      (ns.storageServers.map clampLoads).map clampLoads =
        ns.storageServers.map clampLoads := by
    rw [List.map_map]
    exact List.map_congr_left fun ss _ => clampLoads_clampLoads ss
  simp only [nsSelectStorageServerBalanced, counted, again, List.length_map]

theorem selections_counted
    (calls : Nat)
    (ns : NameServer) :
    selections calls (counted ns) = selections calls ns := by
  cases calls with
  | zero =>
      rfl
  | succ calls =>
      rw [selections, selections, select_counted]

theorem sumsFit_counted
    {ns : NameServer}
    (fits : SumsFit ns) :
    SumsFit (counted ns) := by
  simpa [SumsFit, counted] using fits

/-- Once the loads are counted, a call moves the position only. -/
theorem select_of_counted
    {ns : NameServer}
    (fits : SumsFit ns)
    (settled : counted ns = ns) :
    nsSelectStorageServerBalanced ns =
      match
        nextDue (fun ss => LeastLoaded ns.storageServers ss)
          ns.storageServers ns.ssRoundRobinIndex with
      | some (best, position) =>
          (some best,
            { ns with
              ssRoundRobinIndex := (position + 1) % ns.storageServers.length })
      | none => (none, ns) := by
  have same : ns.storageServers.map clampLoads = ns.storageServers :=
    congrArg NameServer.storageServers settled
  rw [nsSelectStorageServerBalanced_eq fits]
  split
  · next best position chosen =>
    have member : best ∈ ns.storageServers :=
      List.mem_of_getElem?
        (getElem?_of_mem_zipIdx_rotate (List.mem_of_find?_eq_some chosen))
    obtain ⟨ss, _, isBest⟩ := List.mem_map.mp (same.symm ▸ member)
    rw [same, ← isBest, clampLoads_clampLoads]
  · rw [same]

/-- Consecutive calls return the servers of the least load in turn. -/
theorem selections_eq_turns
    {calls : Nat}
    {ns : NameServer}
    (fits : SumsFit ns)
    (settled : counted ns = ns)
    (enough : calls ≤ (leastLoadedServers ns.storageServers).length) :
    selections calls ns =
      (turns (fun ss => LeastLoaded ns.storageServers ss) ns.storageServers
        calls ns.ssRoundRobinIndex).map some := by
  induction calls generalizing ns with
  | zero =>
      rfl
  | succ calls inductionHypothesis =>
      rw [selections, turns, select_of_counted fits settled]
      cases chosen :
          nextDue (fun ss => LeastLoaded ns.storageServers ss)
            ns.storageServers ns.ssRoundRobinIndex with
      | some best =>
          obtain ⟨best, position⟩ := best
          simp only [List.map_cons]
          rw [← turns_mod]
          congr 1
          refine @inductionHypothesis
            { ns with
              ssRoundRobinIndex := (position + 1) % ns.storageServers.length }
            ?_ ?_ (Nat.le_of_succ_le enough)
          · have member : best ∈ ns.storageServers :=
              List.mem_of_getElem?
                (getElem?_of_mem_zipIdx_rotate
                  (List.mem_of_find?_eq_some chosen))
            have next :=
              Nat.mod_lt (position + 1) (List.length_pos_of_mem member)
            unfold SumsFit at fits ⊢
            simp only
            omega
          exact congrArg
            (fun settledNs : NameServer =>
              { settledNs with
                ssRoundRobinIndex := (position + 1) % ns.storageServers.length })
            settled
      | none =>
          have noneDue := nextDue_eq_none_iff.mp chosen
          have empty : leastLoadedServers ns.storageServers = [] := by
            rw [leastLoadedServers, List.filter_eq_nil_iff]
            intro ss member
            rw [noneDue ss member]
            exact Bool.false_ne_true
          rw [empty, List.length_nil] at enough
          omega

/-- As many calls as servers share the least load return each of them. -/
theorem selections_perm
    {ns : NameServer}
    (fits : SumsFit ns) :
    (selections (leastLoadedServers ns.storageServers).length ns).Perm
      ((leastLoadedServers ns.storageServers).map fun ss =>
        some (clampLoads ss)) := by
  have servers :
      leastLoadedServers (counted ns).storageServers =
        (leastLoadedServers ns.storageServers).map clampLoads :=
    leastLoadedServers_map_clampLoads ns.storageServers
  have length := congrArg List.length servers
  rw [List.length_map] at length
  have settled : counted (counted ns) = counted ns := by
    simp [counted]
  rw [← selections_counted, ← length,
    selections_eq_turns (sumsFit_counted fits) settled le_rfl]
  have perm :=
    turns_perm (fun ss => LeastLoaded (counted ns).storageServers ss)
      (counted ns).storageServers (counted ns).ssRoundRobinIndex
  refine (perm.map some).trans ?_
  change ((leastLoadedServers (counted ns).storageServers).map some).Perm _
  rw [servers, List.map_map]
  exact .refl _

/-- Each of them is returned once, if they are distinct. -/
theorem selections_once
    {ns : NameServer}
    (fits : SumsFit ns)
    (distinct : (ns.storageServers.map StorageServerInfo.address).Nodup)
    {ss : StorageServerInfo}
    (member : ss ∈ leastLoadedServers ns.storageServers) :
    ((selections (leastLoadedServers ns.storageServers).length ns).countP
      fun chosen => chosen.map StorageServerInfo.address = some ss.address) =
      1 := by
  have nodup :
      ((leastLoadedServers ns.storageServers).map
        StorageServerInfo.address).Nodup :=
    distinct.sublist (List.filter_sublist.map _)
  have held := List.mem_map_of_mem (f := StorageServerInfo.address) member
  rw [(selections_perm fits).countP_eq, List.countP_map,
    ← List.count_eq_one_of_mem nodup held, List.count, List.countP_map]
  refine List.countP_congr fun other _ => ?_
  simp

/--
Placement returns nothing only if no server is connected, else the first
server of the least load in cyclic order, and consecutive calls return each
server that shares it once.
-/
theorem placedInTurn
    {ns : NameServer}
    (fits : SumsFit ns)
    (distinct : (ns.storageServers.map StorageServerInfo.address).Nodup) :
    PlacedInTurn ns where
  none_iff := select_eq_none_iff fits
  least := by
    intro chosen selected
    rw [select_eq_find? fits, Option.map_eq_some_iff] at selected
    obtain ⟨ss, found, rfl⟩ := selected
    have isLeast := List.find?_some found
    rw [decide_eq_true_eq] at isLeast
    exact ⟨ss, List.mem_rotate.mp (List.mem_of_find?_eq_some found), rfl,
      isLeast⟩
  first := select_eq_find? fits
  inTurn := selections_perm fits
  once := fun _ member => selections_once fits distinct member

/-- Two servers share the least load. -/
def sharedLoad (index : Nat) : NameServer :=
  { nsInit with
    storageServers :=
      [{ someStorageServer with totalBytes := -5, totalFiles := 2 },
        { someStorageServer with address := 1, isAlive := false },
        { someStorageServer with address := 2, totalBytes := 7 },
        { someStorageServer with address := 3, totalFiles := 2 },
        { someStorageServer with address := 4, totalFiles := 9 }]
    ssRoundRobinIndex := index }

/-- From a stored position past the end, too, the two are chosen in turn. -/
theorem placedInTurn_sharedLoad :
    PlacedInTurn (sharedLoad 9) ∧
      (leastLoadedServers (sharedLoad 9).storageServers).map
          StorageServerInfo.address = [0, 3] ∧
      (selections 3 (sharedLoad 9)).map
          (Option.map StorageServerInfo.address) =
        [some 0, some 3, some 0] :=
  ⟨placedInTurn (by decide +kernel) (by decide +kernel), by decide +kernel,
    by decide +kernel⟩

/-- At `INT_MAX` the sums leave `int`, and the server that is due is missed. -/
theorem not_placedInTurn_lastIndex :
    ¬∀ ns : NameServer,
      (ns.storageServers.map StorageServerInfo.address).Nodup →
        PlacedInTurn ns := by
  intro always
  have first := (always (sharedLoad 2147483647) (by decide +kernel)).first
  have missed :
      (nsSelectStorageServerBalanced (sharedLoad 2147483647)).1.map
          StorageServerInfo.address ≠
        some 3 := by
    decide +kernel
  rw [first] at missed
  exact missed (by decide +kernel)

end DistributedDocs
