import DistributedDocs.GuardedRun
import Mathlib.Algebra.BigOperators.Ring.Finset
import Mathlib.Algebra.Order.BigOperators.Group.Finset

namespace DistributedDocs

/-!
# Reference counts

Threads find entries in a table under its lock, and go on with them after they
have given the lock up.  An entry that is taken out of the table is freed once
its reference count is zero.  Threads that hold a reference to whatever they
use, and give each of them back, never use a freed entry.
-/

namespace References

/--
What a thread still does with the entries of a table.  `ask` waits for an
answer of the entry, and `choose` depends on what the thread finds there.
-/
inductive Program (Entry Answer : Type) where
  | done
  | acquire (entry : Entry) (rest : Program Entry Answer)
  | release (entry : Entry) (rest : Program Entry Answer)
  | use (entry : Entry) (rest : Program Entry Answer)
  | ask (entry : Entry) (next : Answer → Program Entry Answer)
  | choose (next : Bool → Program Entry Answer)
  | lock (rest : Program Entry Answer)
  | unlock (rest : Program Entry Answer)

/--
The table, the entries that wait to be freed, and the threads; `holder` is the
thread that has the lock of the table.
-/
structure State (Entry Answer : Type) where
  counts : Entry → Int
  table : List Entry
  leaving : List Entry
  freed : List Entry
  holder : Option Nat
  threads : List (Program Entry Answer)

/-- Nothing is in the table. -/
def State.empty {Entry Answer : Type} : State Entry Answer :=
  ⟨fun _ => 0, [], [], [], none, []⟩

/-- A thread begins under the lock or goes on, or the table changes. -/
inductive Event (Entry Answer : Type) where
  | begin (program : Program Entry Answer)
  | advance (thread : Nat) (answer : Answer) (choice : Bool)
  | join (entry : Entry)
  | leave (entry : Entry)
  | free (entry : Entry)

section Steps

variable {Entry Answer : Type} [DecidableEq Entry]

/-- The thread goes on with another program. -/
def State.goesOn
    (thread : Nat)
    (program : Program Entry Answer)
    (state : State Entry Answer) : State Entry Answer :=
  { state with threads := state.threads.set thread program }

/-- Change the reference count of an entry. -/
def State.count
    (entry : Entry)
    (count : Int)
    (state : State Entry Answer) : State Entry Answer :=
  { state with counts := Function.update state.counts entry count }

/-- One step of a thread. -/
def State.advance
    (thread : Nat)
    (answer : Answer)
    (choice : Bool)
    (state : State Entry Answer) : State Entry Answer :=
  match state.threads[thread]? with
  | none | some .done =>
      state
  | some (.acquire entry rest) =>
      (state.count entry (state.counts entry + 1)).goesOn thread rest
  | some (.release entry rest) =>
      let count := state.counts entry
      (state.count entry (if count > 0 then count - 1 else count)).goesOn
        thread rest
  | some (.use _ rest) =>
      state.goesOn thread rest
  | some (.ask _ next) =>
      state.goesOn thread (next answer)
  | some (.choose next) =>
      state.goesOn thread (next choice)
  | some (.lock rest) =>
      if state.holder = none then
        { state.goesOn thread rest with holder := some thread }
      else
        state
  | some (.unlock rest) =>
      { state.goesOn thread rest with holder := none }

/-- One step. -/
def step (state : State Entry Answer) : Event Entry Answer → State Entry Answer
  | .begin program =>
      if state.holder = none then
        { state with
          holder := some state.threads.length
          threads := state.threads ++ [program] }
      else
        state
  | .advance thread answer choice =>
      state.advance thread answer choice
  | .join entry =>
      if state.holder = none ∧
          entry ∉ state.table ++ state.leaving ++ state.freed then
        { state.count entry 0 with table := state.table ++ [entry] }
      else
        state
  | .leave entry =>
      if state.holder = none ∧ entry ∈ state.table then
        { state with
          table := state.table.filter (· ≠ entry)
          leaving := entry :: state.leaving }
      else
        state
  | .free entry =>
      if entry ∈ state.leaving ∧ state.counts entry ≤ 0 then
        { state with
          leaving := state.leaving.filter (· ≠ entry)
          freed := entry :: state.freed }
      else
        state

/-- A thread does not change the table. -/
@[simp] theorem table_advance
    (state : State Entry Answer)
    (thread : Nat)
    (answer : Answer)
    (choice : Bool) :
    (step state (.advance thread answer choice)).table = state.table := by
  unfold step State.advance
  simp only
  split
  · rfl
  · rfl
  · rfl
  · rfl
  · rfl
  · rfl
  · rfl
  · split <;> rfl
  · rfl

@[simp] theorem table_begin
    (state : State Entry Answer)
    (program : Program Entry Answer) :
    (step state (.begin program)).table = state.table := by
  unfold step
  simp only
  split <;> rfl

@[simp] theorem table_free
    (state : State Entry Answer)
    (entry : Entry) :
    (step state (.free entry)).table = state.table := by
  unfold step
  simp only
  split <;> rfl

/-- An entry that joins the table is added to it. -/
theorem mem_table_join
    {state : State Entry Answer}
    {entry other : Entry}
    (present : other ∈ state.table) :
    other ∈ (step state (.join entry)).table := by
  unfold step
  simp only
  split
  · exact List.mem_append_left _ present
  · exact present

/-- An entry that leaves the table is the only one to do so. -/
theorem mem_table_leave
    {state : State Entry Answer}
    {entry other : Entry}
    (present : other ∈ state.table)
    (different : other ≠ entry) :
    other ∈ (step state (.leave entry)).table := by
  unfold step
  simp only
  split
  · exact List.mem_filter.mpr ⟨present, by simpa using different⟩
  · exact present

end Steps

/-! ## What is required of programs -/

namespace Program

variable {Entry Answer : Type}

/-- The thread will still touch the entry in some run. -/
def WillUse (entry : Entry) : Program Entry Answer → Prop
  | done => False
  | acquire other rest | release other rest | use other rest =>
      other = entry ∨ rest.WillUse entry
  | ask other next => other = entry ∨ ∃ answer, (next answer).WillUse entry
  | choose next => ∃ choice, (next choice).WillUse entry
  | lock rest | unlock rest => rest.WillUse entry

/-- The entry the next step touches. -/
def next? : Program Entry Answer → Option Entry
  | done | choose _ | lock _ | unlock _ => none
  | acquire entry _ | release entry _ | use entry _ | ask entry _ => some entry

theorem willUse_of_next?
    {program : Program Entry Answer}
    {entry : Entry}
    (isNext : program.next? = some entry) :
    program.WillUse entry := by
  cases program with
  | done | choose _ | lock _ | unlock _ => cases isNext
  | acquire other rest | release other rest | use other rest | ask other next =>
      exact .inl (Option.some.inj isNext)

/-- The thread will give a reference to the entry back in every run. -/
def WillRelease (entry : Entry) : Program Entry Answer → Prop
  | done => False
  | release other rest => other = entry ∨ rest.WillRelease entry
  | acquire _ rest | use _ rest | lock rest | unlock rest =>
      rest.WillRelease entry
  | ask _ next => ∀ answer, (next answer).WillRelease entry
  | choose next => ∀ choice, (next choice).WillRelease entry

/--
The thread acquires entries of the table in its first section only, uses what
it holds, and holds nothing at the end.
-/
def Disciplined [DecidableEq Entry] :
    List Entry → List Entry → Bool → Program Entry Answer → Prop
  | _, held, locked, done =>
      held = [] ∧ locked = false
  | table, held, locked, acquire entry rest =>
      entry ∈ table ∧ rest.Disciplined table (entry :: held) locked
  | table, held, locked, release entry rest =>
      entry ∈ held ∧ rest.Disciplined table (held.erase entry) locked
  | table, held, locked, use entry rest =>
      entry ∈ held ∧ rest.Disciplined table held locked
  | table, held, locked, ask entry next =>
      entry ∈ held ∧ ∀ answer, (next answer).Disciplined table held locked
  | table, held, locked, choose next =>
      ∀ choice, (next choice).Disciplined table held locked
  | _, held, locked, lock rest =>
      locked = false ∧ rest.Disciplined [] held true
  | _, held, locked, unlock rest =>
      locked = true ∧ rest.Disciplined [] held false

/-- One reference after the other is acquired. -/
def acquireAll
    (entries : List Entry)
    (rest : Program Entry Answer) : Program Entry Answer :=
  entries.foldr acquire rest

/-- One reference after the other is released. -/
def releaseAll
    (entries : List Entry)
    (rest : Program Entry Answer) : Program Entry Answer :=
  entries.foldr release rest

end Program

/-- The reference counts do what they are for. -/
structure CountsProtect
    {Entry Answer : Type}
    (state : State Entry Answer) : Prop where
  nonneg : ∀ entry, 0 ≤ state.counts entry
  idle :
    (∀ program ∈ state.threads, program = .done) →
      ∀ entry, state.counts entry = 0
  positive :
    ∀ thread program, state.threads[thread]? = some program →
      state.holder ≠ some thread →
        ∀ entry, program.WillUse entry → 0 < state.counts entry
  unfreed :
    ∀ program ∈ state.threads, ∀ entry, program.WillUse entry →
      entry ∉ state.freed
  released :
    ∀ entry, 0 < state.counts entry →
      ∃ program ∈ state.threads, program.WillRelease entry

/-! ## Disciplined programs -/

namespace Program.Disciplined

variable {Entry Answer : Type} [DecidableEq Entry]

/-- What is found in a table is found in a larger one. -/
theorem mono
    {table larger held : List Entry}
    {locked : Bool}
    {program : Program Entry Answer}
    (found : ∀ entry ∈ table, entry ∈ larger)
    (disciplined : program.Disciplined table held locked) :
    program.Disciplined larger held locked := by
  induction program generalizing table larger held locked with
  | done => exact disciplined
  | acquire entry rest inductionHypothesis =>
      exact ⟨found entry disciplined.1,
        inductionHypothesis found disciplined.2⟩
  | release entry rest inductionHypothesis =>
      exact ⟨disciplined.1, inductionHypothesis found disciplined.2⟩
  | use entry rest inductionHypothesis =>
      exact ⟨disciplined.1, inductionHypothesis found disciplined.2⟩
  | ask entry next inductionHypothesis =>
      exact ⟨disciplined.1,
        fun answer => inductionHypothesis answer found (disciplined.2 answer)⟩
  | choose next inductionHypothesis =>
      exact fun choice => inductionHypothesis choice found (disciplined choice)
  | lock rest inductionHypothesis => exact disciplined
  | unlock rest inductionHypothesis => exact disciplined

/-- A disciplined thread uses what it holds, or finds it in the table. -/
theorem mem_of_willUse
    {table held : List Entry}
    {locked : Bool}
    {program : Program Entry Answer}
    (disciplined : program.Disciplined table held locked)
    {entry : Entry}
    (willUse : program.WillUse entry) :
    entry ∈ held ∨ entry ∈ table := by
  induction program generalizing table held locked with
  | done => exact willUse.elim
  | acquire other rest inductionHypothesis =>
      rcases willUse with rfl | later
      · exact .inr disciplined.1
      · rcases inductionHypothesis disciplined.2 later with isHeld | inTable
        · rcases List.mem_cons.mp isHeld with rfl | earlier
          · exact .inr disciplined.1
          · exact .inl earlier
        · exact .inr inTable
  | release other rest inductionHypothesis =>
      rcases willUse with rfl | later
      · exact .inl disciplined.1
      · exact (inductionHypothesis disciplined.2 later).imp_left
          List.mem_of_mem_erase
  | use other rest inductionHypothesis =>
      rcases willUse with rfl | later
      · exact .inl disciplined.1
      · exact inductionHypothesis disciplined.2 later
  | ask other next inductionHypothesis =>
      rcases willUse with rfl | ⟨answer, later⟩
      · exact .inl disciplined.1
      · exact inductionHypothesis answer (disciplined.2 answer) later
  | choose next inductionHypothesis =>
      obtain ⟨choice, later⟩ := willUse
      exact inductionHypothesis choice (disciplined choice) later
  | lock rest inductionHypothesis =>
      exact (inductionHypothesis disciplined.2 willUse).imp_right
        List.not_mem_nil.elim
  | unlock rest inductionHypothesis =>
      exact (inductionHypothesis disciplined.2 willUse).imp_right
        List.not_mem_nil.elim

/-- A disciplined thread gives back what it holds. -/
theorem willRelease_of_mem
    {table held : List Entry}
    {locked : Bool}
    {program : Program Entry Answer}
    (disciplined : program.Disciplined table held locked)
    {entry : Entry}
    (isHeld : entry ∈ held) :
    program.WillRelease entry := by
  induction program generalizing table held locked with
  | done =>
      rw [disciplined.1] at isHeld
      exact List.not_mem_nil.elim isHeld
  | acquire other rest inductionHypothesis =>
      exact inductionHypothesis disciplined.2 (List.mem_cons_of_mem other isHeld)
  | release other rest inductionHypothesis =>
      by_cases same : other = entry
      · exact .inl same
      · exact .inr (inductionHypothesis disciplined.2
          ((List.mem_erase_of_ne (Ne.symm same)).mpr isHeld))
  | use other rest inductionHypothesis =>
      exact inductionHypothesis disciplined.2 isHeld
  | ask other next inductionHypothesis =>
      exact fun answer =>
        inductionHypothesis answer (disciplined.2 answer) isHeld
  | choose next inductionHypothesis =>
      exact fun choice => inductionHypothesis choice (disciplined choice) isHeld
  | lock rest inductionHypothesis =>
      exact inductionHypothesis disciplined.2 isHeld
  | unlock rest inductionHypothesis =>
      exact inductionHypothesis disciplined.2 isHeld

/-- The order in which references were acquired does not matter. -/
theorem perm
    {table held other : List Entry}
    {locked : Bool}
    {program : Program Entry Answer}
    (same : held.Perm other)
    (disciplined : program.Disciplined table held locked) :
    program.Disciplined table other locked := by
  induction program generalizing table held other locked with
  | done =>
      obtain ⟨rfl, unlocked⟩ := disciplined
      exact ⟨List.nil_perm.mp same, unlocked⟩
  | acquire entry rest inductionHypothesis =>
      exact ⟨disciplined.1,
        inductionHypothesis (same.cons entry) disciplined.2⟩
  | release entry rest inductionHypothesis =>
      exact ⟨same.mem_iff.mp disciplined.1,
        inductionHypothesis (same.erase entry) disciplined.2⟩
  | use entry rest inductionHypothesis =>
      exact ⟨same.mem_iff.mp disciplined.1,
        inductionHypothesis same disciplined.2⟩
  | ask entry next inductionHypothesis =>
      exact ⟨same.mem_iff.mp disciplined.1,
        fun answer => inductionHypothesis answer same (disciplined.2 answer)⟩
  | choose next inductionHypothesis =>
      exact fun choice => inductionHypothesis choice same (disciplined choice)
  | lock rest inductionHypothesis =>
      exact ⟨disciplined.1, inductionHypothesis same disciplined.2⟩
  | unlock rest inductionHypothesis =>
      exact ⟨disciplined.1, inductionHypothesis same disciplined.2⟩

theorem acquireAll
    {table held : List Entry}
    {locked : Bool}
    {entries : List Entry}
    {rest : Program Entry Answer}
    (found : ∀ entry ∈ entries, entry ∈ table)
    (disciplined : rest.Disciplined table (entries ++ held) locked) :
    (rest.acquireAll entries).Disciplined table held locked := by
  induction entries generalizing held with
  | nil => exact disciplined
  | cons entry later inductionHypothesis =>
      refine ⟨found entry (by simp), inductionHypothesis ?_ ?_⟩
      · exact fun other member => found other (List.mem_cons_of_mem entry member)
      · exact disciplined.perm List.perm_middle.symm

theorem releaseAll
    {table held : List Entry}
    {locked : Bool}
    {entries : List Entry}
    {rest : Program Entry Answer}
    (disciplined : rest.Disciplined table held locked) :
    (rest.releaseAll entries).Disciplined table (entries ++ held) locked := by
  induction entries with
  | nil => exact disciplined
  | cons entry later inductionHypothesis =>
      refine ⟨by simp, ?_⟩
      rw [List.cons_append, List.erase_cons_head]
      exact inductionHypothesis

end Program.Disciplined

/-! ## The invariant -/

section Invariant

variable {Entry Answer : Type} [DecidableEq Entry]

/-- What the thread finds under the lock. -/
def State.known (state : State Entry Answer) (thread : Nat) : List Entry :=
  if state.holder = some thread then state.table else []

omit [DecidableEq Entry] in
theorem mem_table_of_known
    {state : State Entry Answer}
    {thread : Nat}
    {entry : Entry}
    (known : entry ∈ state.known thread) :
    entry ∈ state.table := by
  rw [State.known] at known
  split at known
  · exact known
  · exact List.not_mem_nil.elim known

/-- The counts are those of the references the threads hold. -/
structure Sound
    (held : Nat → List Entry)
    (state : State Entry Answer) : Prop where
  counted :
    ∀ entry,
      state.counts entry =
        ∑ thread ∈ Finset.range state.threads.length,
          ((held thread).count entry : Int)
  disciplined :
    ∀ thread (program : Program Entry Answer),
      state.threads[thread]? = some program →
        program.Disciplined (state.known thread) (held thread)
          (decide (state.holder = some thread))
  placed :
    ∀ thread < state.threads.length, ∀ entry ∈ held thread,
      entry ∈ state.table ∨ entry ∈ state.leaving
  left : ∀ entry ∈ state.leaving, entry ∉ state.table
  apart :
    ∀ entry ∈ state.freed, entry ∉ state.table ∧ entry ∉ state.leaving

namespace Sound

variable
  {held : Nat → List Entry}
  {state : State Entry Answer}

theorem count_le
    (sound : Sound held state)
    {thread : Nat}
    (bound : thread < state.threads.length)
    (entry : Entry) :
    ((held thread).count entry : Int) ≤ state.counts entry := by
  rw [sound.counted]
  exact Finset.single_le_sum
    (f := fun thread => ((held thread).count entry : Int))
    (fun _ _ => Int.natCast_nonneg _) (Finset.mem_range.mpr bound)

theorem positive_of_mem
    (sound : Sound held state)
    {thread : Nat}
    (bound : thread < state.threads.length)
    {entry : Entry}
    (isHeld : entry ∈ held thread) :
    0 < state.counts entry := by
  have least := sound.count_le bound entry
  have some := List.count_pos_iff.mpr isHeld
  omega

theorem countsProtect (sound : Sound held state) : CountsProtect state where
  nonneg entry := by
    rw [sound.counted]
    exact Finset.sum_nonneg fun _ _ => Int.natCast_nonneg _
  idle allDone entry := by
    rw [sound.counted]
    refine Finset.sum_eq_zero fun thread member => ?_
    have bound := Finset.mem_range.mp member
    have held := sound.disciplined thread _ (List.getElem?_eq_getElem bound)
    rw [allDone _ (List.getElem_mem bound)] at held
    rw [held.1]
    rfl
  positive thread program running unlocked entry willUse := by
    obtain ⟨bound, _⟩ := List.getElem?_eq_some_iff.mp running
    rcases (sound.disciplined thread program running).mem_of_willUse willUse
      with isHeld | inTable
    · exact sound.positive_of_mem bound isHeld
    · rw [State.known, if_neg unlocked] at inTable
      exact List.not_mem_nil.elim inTable
  unfreed program member entry willUse isFreed := by
    obtain ⟨thread, running⟩ := List.getElem?_of_mem member
    obtain ⟨bound, _⟩ := List.getElem?_eq_some_iff.mp running
    obtain ⟨notInTable, notLeaving⟩ := sound.apart entry isFreed
    rcases (sound.disciplined thread program running).mem_of_willUse willUse
      with isHeld | inTable
    · rcases sound.placed thread bound entry isHeld with here | there
      · exact notInTable here
      · exact notLeaving there
    · exact notInTable (mem_table_of_known inTable)
  released entry positive := by
    rw [sound.counted] at positive
    obtain ⟨thread, member, count⟩ := Finset.exists_lt_of_sum_lt
      (f := fun _ => (0 : Int)) (by simpa using positive)
    have bound := Finset.mem_range.mp member
    have isHeld : entry ∈ held thread :=
      List.count_pos_iff.mp (by omega)
    exact ⟨_, List.getElem_mem bound,
      (sound.disciplined thread _
        (List.getElem?_eq_getElem bound)).willRelease_of_mem isHeld⟩

/-- A thread goes on, and the other threads keep what they hold. -/
theorem threadStep
    (sound : Sound held state)
    {thread : Nat}
    {program next : Program Entry Answer}
    (running : state.threads[thread]? = some program)
    (nowHeld : List Entry)
    {counts : Entry → Int}
    {holder : Option Nat}
    (counted :
      ∀ entry,
        counts entry + (held thread).count entry =
          state.counts entry + nowHeld.count entry)
    (others :
      ∀ other, other ≠ thread →
        (holder = some other ↔ state.holder = some other))
    (disciplined :
      next.Disciplined (if holder = some thread then state.table else [])
        nowHeld (decide (holder = some thread)))
    (placed :
      ∀ entry ∈ nowHeld, entry ∈ state.table ∨ entry ∈ state.leaving) :
    Sound (Function.update held thread nowHeld)
      { state with
        counts := counts
        holder := holder
        threads := state.threads.set thread next } := by
  obtain ⟨bound, _⟩ := List.getElem?_eq_some_iff.mp running
  have member := Finset.mem_range.mpr bound
  constructor
  · intro entry
    have before := sound.counted entry
    have now := counted entry
    have whole :
        (∑ other ∈ Finset.range state.threads.length,
          ((Function.update held thread nowHeld other).count entry : Int)) =
          nowHeld.count entry +
            ∑ other ∈ (Finset.range state.threads.length).erase thread,
              ((held other).count entry : Int) := by
      rw [← Finset.add_sum_erase _ _ member, Function.update_self]
      congr 1
      refine Finset.sum_congr rfl fun other isOther => ?_
      rw [Function.update_of_ne (Finset.ne_of_mem_erase isOther)]
    rw [← Finset.add_sum_erase _ _ member] at before
    simp only [List.length_set]
    rw [whole]
    omega
  · intro other otherProgram otherRunning
    simp only [List.getElem?_set] at otherRunning
    by_cases same : thread = other
    · subst same
      rw [if_pos rfl, if_pos bound] at otherRunning
      obtain rfl := Option.some.inj otherRunning
      rw [Function.update_self]
      exact disciplined
    · rw [if_neg same] at otherRunning
      have earlier := sound.disciplined other otherProgram otherRunning
      rw [Function.update_of_ne (Ne.symm same)]
      have sameHolder := others other (Ne.symm same)
      simp only [State.known, sameHolder] at earlier ⊢
      exact earlier
  · intro other otherBound entry isHeld
    by_cases same : other = thread
    · subst same
      rw [Function.update_self] at isHeld
      exact placed entry isHeld
    · rw [Function.update_of_ne same] at isHeld
      rw [List.length_set] at otherBound
      exact sound.placed other otherBound entry isHeld
  · exact sound.left
  · exact sound.apart

theorem advance
    (sound : Sound held state)
    (thread : Nat)
    (answer : Answer)
    (choice : Bool) :
    ∃ later, Sound later (state.advance thread answer choice) := by
  unfold State.advance
  cases running : state.threads[thread]? with
  | none =>
      exact ⟨held, sound⟩
  | some program =>
      obtain ⟨bound, _⟩ := List.getElem?_eq_some_iff.mp running
      have disciplined := sound.disciplined thread program running
      have placed := sound.placed thread bound
      cases program with
      | done =>
          exact ⟨held, sound⟩
      | acquire entry rest =>
          obtain ⟨inTable, later⟩ := disciplined
          refine ⟨_, sound.threadStep running (entry :: held thread) ?_
            (fun _ _ => Iff.rfl) later ?_⟩
          · intro other
            simp only [State.count]
            by_cases same : other = entry
            · subst same
              rw [Function.update_self, List.count_cons_self]
              omega
            · rw [Function.update_of_ne same, List.count_cons_of_ne (Ne.symm same)]
          · intro other isHeld
            rcases List.mem_cons.mp isHeld with rfl | earlier
            · exact .inl (mem_table_of_known inTable)
            · exact placed other earlier
      | release entry rest =>
          obtain ⟨isHeld, later⟩ := disciplined
          refine ⟨_, sound.threadStep running ((held thread).erase entry) ?_
            (fun _ _ => Iff.rfl) later
            fun other remains => placed other (List.mem_of_mem_erase remains)⟩
          intro other
          simp only [State.count]
          by_cases same : other = entry
          · subst same
            have some := List.count_pos_iff.mpr isHeld
            rw [Function.update_self, if_pos (sound.positive_of_mem bound isHeld),
              List.count_erase_self]
            omega
          · rw [Function.update_of_ne same, List.count_erase_of_ne same]
      | use entry rest =>
          exact ⟨_, sound.threadStep running (held thread) (fun _ => rfl)
            (fun _ _ => Iff.rfl) disciplined.2 placed⟩
      | ask entry next =>
          exact ⟨_, sound.threadStep running (held thread) (fun _ => rfl)
            (fun _ _ => Iff.rfl) (disciplined.2 answer) placed⟩
      | choose next =>
          exact ⟨_, sound.threadStep running (held thread) (fun _ => rfl)
            (fun _ _ => Iff.rfl) (disciplined choice) placed⟩
      | lock rest =>
          simp only
          split
          · next isFree =>
            refine ⟨_, sound.threadStep running (held thread) (fun _ => rfl)
              (fun other apart => ?_) ?_ placed⟩
            · simp [isFree, Ne.symm apart]
            · rw [if_pos rfl, decide_eq_true rfl]
              exact disciplined.2.mono fun _ none => List.not_mem_nil.elim none
          · exact ⟨held, sound⟩
      | unlock rest =>
          have isHolder : state.holder = some thread := by
            simpa using disciplined.1
          refine ⟨_, sound.threadStep running (held thread) (fun _ => rfl)
            (fun other apart => ?_) ?_ placed⟩
          · simp [isHolder, Ne.symm apart]
          · rw [if_neg (by simp), decide_eq_false (by simp)]
            exact disciplined.2

/-- A thread begins and holds nothing yet. -/
theorem begin
    (sound : Sound held state)
    {program : Program Entry Answer}
    (disciplined : program.Disciplined state.table [] true) :
    ∃ later, Sound later (step state (.begin program)) := by
  unfold step
  simp only
  split
  · next isFree =>
    refine ⟨Function.update held state.threads.length [], ?_, ?_, ?_,
      sound.left, sound.apart⟩
    · intro entry
      rw [List.length_append, List.length_singleton, Finset.sum_range_succ,
        Function.update_self, List.count_nil]
      simp only [Nat.cast_zero, add_zero]
      rw [sound.counted]
      refine Finset.sum_congr rfl fun thread member => ?_
      rw [Function.update_of_ne (Finset.mem_range.mp member).ne]
    · intro thread running isRunning
      rcases Nat.lt_trichotomy thread state.threads.length with
        earlier | rfl | beyond
      · rw [List.getElem?_append_left earlier] at isRunning
        have before := sound.disciplined thread running isRunning
        rw [Function.update_of_ne earlier.ne]
        simpa [State.known, isFree, earlier.ne'] using before
      · rw [List.getElem?_concat_length] at isRunning
        obtain rfl := Option.some.inj isRunning
        rw [Function.update_self]
        simpa [State.known] using disciplined
      · rw [List.getElem?_eq_none (by simp; omega)] at isRunning
        cases isRunning
    · intro thread bound entry isHeld
      by_cases fresh : thread = state.threads.length
      · subst fresh
        rw [Function.update_self] at isHeld
        exact List.not_mem_nil.elim isHeld
      · rw [Function.update_of_ne fresh] at isHeld
        rw [List.length_append, List.length_singleton] at bound
        exact sound.placed thread (by omega) entry isHeld
  · exact ⟨held, sound⟩

theorem join
    (sound : Sound held state)
    (entry : Entry) :
    Sound held (step state (.join entry)) := by
  unfold step
  simp only
  split
  · next fresh =>
    obtain ⟨isFree, absent⟩ := fresh
    simp only [List.mem_append, not_or] at absent
    have unheld :
        ∀ thread ∈ Finset.range state.threads.length,
          ((held thread).count entry : Int) = 0 := by
      intro thread member
      rw [Int.natCast_eq_zero, List.count_eq_zero]
      intro isHeld
      rcases sound.placed thread (Finset.mem_range.mp member) entry isHeld with
        inTable | leaving
      · exact absent.1.1 inTable
      · exact absent.1.2 leaving
    constructor
    · intro other
      simp only [State.count]
      by_cases same : other = entry
      · subst same
        rw [Function.update_self, Finset.sum_eq_zero unheld]
      · rw [Function.update_of_ne same]
        exact sound.counted other
    · intro thread program running
      have before := sound.disciplined thread program running
      simpa [State.known, isFree, State.count] using before
    · intro thread bound other isHeld
      exact (sound.placed thread bound other isHeld).imp_left
        (List.mem_append_left _)
    · intro other leaving
      rw [List.mem_append, List.mem_singleton, not_or]
      refine ⟨sound.left other leaving, ?_⟩
      rintro rfl
      exact absent.1.2 leaving
    · intro other isFreed
      obtain ⟨notInTable, notLeaving⟩ := sound.apart other isFreed
      refine ⟨?_, notLeaving⟩
      rw [List.mem_append, List.mem_singleton, not_or]
      refine ⟨notInTable, ?_⟩
      rintro rfl
      exact absent.2 isFreed
  · exact sound

theorem leave
    (sound : Sound held state)
    (entry : Entry) :
    Sound held (step state (.leave entry)) := by
  unfold step
  simp only
  split
  · next present =>
    obtain ⟨isFree, inTable⟩ := present
    constructor
    · exact sound.counted
    · intro thread program running
      have before := sound.disciplined thread program running
      simpa [State.known, isFree] using before
    · intro thread bound other isHeld
      by_cases same : other = entry
      · exact .inr (List.mem_cons.mpr (.inl same))
      · rcases sound.placed thread bound other isHeld with here | there
        · exact .inl (List.mem_filter.mpr ⟨here, by simpa using same⟩)
        · exact .inr (List.mem_cons_of_mem entry there)
    · intro other leaving kept
      obtain ⟨stays, different⟩ := List.mem_filter.mp kept
      rcases List.mem_cons.mp leaving with rfl | earlier
      · simp at different
      · exact sound.left other earlier stays
    · intro other isFreed
      obtain ⟨notInTable, notLeaving⟩ := sound.apart other isFreed
      refine ⟨fun kept => notInTable (List.mem_of_mem_filter kept), ?_⟩
      rw [List.mem_cons, not_or]
      refine ⟨?_, notLeaving⟩
      rintro rfl
      exact notInTable inTable
  · exact sound

/-- What is freed is held by nobody. -/
theorem free
    (sound : Sound held state)
    (entry : Entry) :
    Sound held (step state (.free entry)) := by
  unfold step
  simp only
  split
  · next unused =>
    obtain ⟨leaving, count⟩ := unused
    constructor
    · exact sound.counted
    · exact sound.disciplined
    · intro thread bound other isHeld
      refine (sound.placed thread bound other isHeld).imp_right fun there => ?_
      refine List.mem_filter.mpr ⟨there, ?_⟩
      have positive := sound.positive_of_mem bound isHeld
      simp only [ne_eq, decide_not, Bool.not_eq_true', decide_eq_false_iff_not]
      rintro rfl
      exact absurd positive (not_lt.mpr count)
    · exact fun other kept => sound.left other (List.mem_of_mem_filter kept)
    · intro other isFreed
      rcases List.mem_cons.mp isFreed with rfl | earlier
      · exact ⟨sound.left other leaving, by simp⟩
      · obtain ⟨notInTable, notLeaving⟩ := sound.apart other earlier
        exact ⟨notInTable, fun kept => notLeaving (List.mem_of_mem_filter kept)⟩
  · exact sound

end Sound

theorem sound_empty :
    Sound (fun _ => []) (State.empty : State Entry Answer) where
  counted _ := rfl
  disciplined _ _ running := by cases running
  placed _ bound := absurd bound (Nat.not_lt_zero _)
  left _ member := by cases member
  apart _ member := by cases member

end Invariant

end References

end DistributedDocs
