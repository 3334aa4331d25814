import Mathlib.Data.List.Basic
import Mathlib.Logic.Function.Basic
import Mathlib.Logic.Relation
import Mathlib.Order.Basic

namespace DistributedDocs

/-!
# Ordered locks and requests between sites

Threads run at sites, each site with locks of its own.  A thread may also send
a request to another site and wait for the reply of the thread that serves it.
Threads that take the locks of their site in increasing order never wait for
each other in a circle, as long as the unanswered requests do not lead from a
site back to itself.
-/

namespace Locks

/--
What a thread still does with the locks of its site.  `ask` depends on what the
thread finds, `send` starts `handler` at another site, `await` waits until that
thread has replied, and `close` no longer expects its reply.
-/
inductive Program (Site Lock Answer : Type) where
  | done
  | lock (taken : Lock) (rest : Program Site Lock Answer)
  | unlock (given : Lock) (rest : Program Site Lock Answer)
  | ask (next : Answer → Program Site Lock Answer)
  | send (site : Site) (handler rest : Program Site Lock Answer)
  | await (rest : Program Site Lock Answer)
  | close (rest : Program Site Lock Answer)
  | reply (rest : Program Site Lock Answer)

/-- A thread, and the thread it has a request with that is not answered yet. -/
structure Thread (Site Lock Answer : Type) where
  site : Site
  unanswered : Option Nat
  program : Program Site Lock Answer

/-- The thread that has each lock, and the threads in the order they began. -/
structure State (Site Lock Answer : Type) where
  owner : Site × Lock → Option Nat
  threads : List (Thread Site Lock Answer)

/-- No thread has begun. -/
def State.empty {Site Lock Answer : Type} : State Site Lock Answer :=
  ⟨fun _ => none, []⟩

/-- A thread begins or goes on. -/
inductive Event (Site Lock Answer : Type) where
  | begin (site : Site) (program : Program Site Lock Answer)
  | advance (thread : Nat) (answer : Answer)

variable {Site Lock Answer : Type}

/-- The thread at a place of the list is replaced. -/
def State.goesOn
    (thread : Nat)
    (after : Thread Site Lock Answer)
    (state : State Site Lock Answer) : State Site Lock Answer :=
  { state with threads := state.threads.set thread after }

/-- A new thread begins. -/
def State.begins
    (started : Thread Site Lock Answer)
    (state : State Site Lock Answer) : State Site Lock Answer :=
  { state with threads := state.threads ++ [started] }

/-- Whoever waits for this thread has its reply. -/
def State.answered
    (thread : Nat)
    (state : State Site Lock Answer) : State Site Lock Answer :=
  { state with
    threads :=
      state.threads.map fun other =>
        if other.unanswered = some thread then
          { other with unanswered := none }
        else
          other }

section Steps

variable [DecidableEq Site] [DecidableEq Lock]

/-- A lock changes hands. -/
def State.own
    (site : Site)
    (lock : Lock)
    (owner : Option Nat)
    (state : State Site Lock Answer) : State Site Lock Answer :=
  { state with owner := Function.update state.owner (site, lock) owner }

/-- One step of a thread; a thread that has to wait does nothing. -/
def State.advance
    (thread : Nat)
    (answer : Answer)
    (state : State Site Lock Answer) : State Site Lock Answer :=
  match state.threads[thread]? with
  | none => state
  | some current =>
      match current.program with
      | .done => state
      | .lock taken rest =>
          if state.owner (current.site, taken) = none then
            (state.own current.site taken (some thread)).goesOn thread
              { current with program := rest }
          else
            state
      | .unlock given rest =>
          (state.own current.site given none).goesOn thread
            { current with program := rest }
      | .ask next =>
          state.goesOn thread { current with program := next answer }
      | .send site handler rest =>
          (state.goesOn thread
            { current with
              unanswered := some state.threads.length
              program := rest }).begins ⟨site, none, handler⟩
      | .await rest =>
          if current.unanswered = none then
            state.goesOn thread { current with program := rest }
          else
            state
      | .close rest =>
          state.goesOn thread
            { current with unanswered := none, program := rest }
      | .reply rest =>
          (state.goesOn thread { current with program := rest }).answered thread

/-- One step. -/
def step
    (state : State Site Lock Answer) :
    Event Site Lock Answer → State Site Lock Answer
  | .begin site program => state.begins ⟨site, none, program⟩
  | .advance thread answer => state.advance thread answer

end Steps

/-! ## Waiting -/

/-- The thread that has to act before this one can. -/
def State.waitsFor
    (state : State Site Lock Answer)
    (thread : Nat) : Option Nat :=
  match state.threads[thread]? with
  | none => none
  | some current =>
      match current.program with
      | .lock taken _ => state.owner (current.site, taken)
      | .await _ => current.unanswered
      | _ => none

/-- Each thread of a circle waits for the next one. -/
def Deadlocked (state : State Site Lock Answer) : Prop :=
  ∃ thread,
    Relation.TransGen
      (fun first second => state.waitsFor first = some second) thread thread

/-- A thread waits for the owner of a lock of its site, or for a reply. -/
theorem waitsFor_cases
    {state : State Site Lock Answer}
    {first second : Nat}
    (waits : state.waitsFor first = some second) :
    ∃ current, state.threads[first]? = some current ∧
      ((∃ taken rest, current.program = .lock taken rest ∧
          state.owner (current.site, taken) = some second) ∨
        current.unanswered = some second) := by
  unfold State.waitsFor at waits
  split at waits
  · cases waits
  · next current found =>
      refine ⟨current, found, ?_⟩
      split at waits
      · next taken rest isLock => exact .inl ⟨taken, rest, isLock, waits⟩
      · exact .inr waits
      · cases waits

/-- Where a thread runs. -/
def State.siteOf
    (state : State Site Lock Answer)
    (thread : Nat) : Option Site :=
  state.threads[thread]?.map Thread.site

/-- A thread of one site has an unanswered request with one of another. -/
def State.Unanswered
    (state : State Site Lock Answer)
    (first second : Site) : Prop :=
  ∃ (thread callee : Nat) (current : Thread Site Lock Answer),
    state.threads[thread]? = some current ∧ current.site = first ∧
      current.unanswered = some callee ∧ state.siteOf callee = some second

/--
A thread about to send a request does not send it to a site from which
unanswered requests lead back.
-/
def SendsForward
    (state : State Site Lock Answer) : Event Site Lock Answer → Prop
  | .begin _ _ => True
  | .advance thread _ =>
      ∀ current site handler rest,
        state.threads[thread]? = some current →
          current.program = .send site handler rest →
            ¬Relation.ReflTransGen state.Unanswered site current.site

/--
The thread takes a lock only while it holds smaller ones, gives back what it
holds, and so do the threads that serve its requests.
-/
def Program.Ordered [Preorder Lock] [DecidableEq Lock] :
    List Lock → Program Site Lock Answer → Prop
  | held, .done => held = []
  | held, .lock taken rest =>
      (∀ lock ∈ held, lock < taken) ∧ rest.Ordered (taken :: held)
  | held, .unlock given rest =>
      given ∈ held ∧ rest.Ordered (held.filter (· ≠ given))
  | held, .ask next =>
      ∀ answer, (next answer).Ordered held
  | held, .send _ handler rest =>
      handler.Ordered [] ∧ rest.Ordered held
  | held, .await rest | held, .close rest | held, .reply rest =>
      rest.Ordered held

/-! ## Requests between sites -/

/-- A path that may use one more edge uses it or not. -/
theorem transGen_or_edge
    {relation : Site → Site → Prop}
    {start finish first last : Site}
    (path :
      Relation.TransGen
        (fun x y => relation x y ∨ x = start ∧ y = finish) first last) :
    Relation.TransGen relation first last ∨
      Relation.ReflTransGen relation first start ∧
        Relation.ReflTransGen relation finish last := by
  induction path with
  | single edge =>
      rcases edge with old | ⟨rfl, rfl⟩
      · exact .inl (.single old)
      · exact .inr ⟨.refl, .refl⟩
  | tail _ edge inductionHypothesis =>
      rcases inductionHypothesis with sofar | ⟨before, after⟩
      · rcases edge with old | ⟨rfl, rfl⟩
        · exact .inl (sofar.tail old)
        · exact .inr ⟨sofar.to_reflTransGen, .refl⟩
      · rcases edge with old | ⟨rfl, rfl⟩
        · exact .inr ⟨before, after.tail old⟩
        · exact .inr ⟨before, .refl⟩

/-- An edge from which nothing leads back closes no circle. -/
theorem not_transGen_or_edge
    {relation : Site → Site → Prop}
    (forward : ∀ site, ¬Relation.TransGen relation site site)
    {start finish : Site}
    (apart : ¬Relation.ReflTransGen relation finish start)
    (site : Site) :
    ¬Relation.TransGen
      (fun x y => relation x y ∨ x = start ∧ y = finish) site site := by
  intro circle
  rcases transGen_or_edge circle with old | ⟨before, after⟩
  · exact forward site old
  · exact apart (after.trans before)

section Lookups

variable
  {state : State Site Lock Answer}
  {thread : Nat}
  {current after : Thread Site Lock Answer}

/-- After a step of a thread the others are where they were. -/
theorem lookup_goesOn
    {other : Nat}
    {new : Thread Site Lock Answer}
    (isNew : (state.goesOn thread after).threads[other]? = some new) :
    other = thread ∧ new = after ∨
      other ≠ thread ∧ state.threads[other]? = some new := by
  by_cases same : other = thread
  · subst same
    have bound : other < (state.goesOn other after).threads.length :=
      (List.getElem?_eq_some_iff.mp isNew).1
    have here : (state.goesOn other after).threads[other]? = some after :=
      List.getElem?_set_self (by simpa [State.goesOn] using bound)
    exact .inl ⟨rfl, Option.some.inj (isNew.symm.trans here)⟩
  · exact .inr ⟨same,
      (List.getElem?_set_ne (Ne.symm same)).symm.trans isNew⟩

/-- A thread that goes on stays where it runs. -/
theorem siteOf_goesOn
    (found : state.threads[thread]? = some current)
    (site : after.site = current.site)
    (other : Nat) :
    (state.goesOn thread after).siteOf other = state.siteOf other := by
  have inRange : thread < state.threads.length :=
    (List.getElem?_eq_some_iff.mp found).1
  by_cases same : thread = other
  · subst same
    rw [State.siteOf, State.siteOf, found]
    simp [State.goesOn, inRange, site]
  · simp [State.siteOf, State.goesOn, List.getElem?_set_ne same]

/-- The requests after a step are those before it and that of the thread. -/
theorem unanswered_goesOn
    (found : state.threads[thread]? = some current)
    (site : after.site = current.site)
    {first second : Site}
    (request : (state.goesOn thread after).Unanswered first second) :
    state.Unanswered first second ∨
      first = current.site ∧
        ∃ callee, after.unanswered = some callee ∧
          state.siteOf callee = some second := by
  obtain ⟨other, callee, new, isNew, rfl, unanswered, atSite⟩ := request
  rw [siteOf_goesOn found site] at atSite
  rcases lookup_goesOn isNew with ⟨rfl, rfl⟩ | ⟨_, isOld⟩
  · exact .inr ⟨site, callee, unanswered, atSite⟩
  · exact .inl ⟨other, callee, new, isOld, rfl, unanswered, atSite⟩

/-- A thread that has just begun is the last one. -/
theorem lookup_begins
    {started : Thread Site Lock Answer}
    (found : (state.begins started).threads[thread]? = some current) :
    thread = state.threads.length ∧ current = started ∨
      state.threads[thread]? = some current := by
  by_cases old : thread < state.threads.length
  · exact .inr ((List.getElem?_append_left old).symm.trans found)
  · have bound : thread < (state.begins started).threads.length :=
      (List.getElem?_eq_some_iff.mp found).1
    have last : thread = state.threads.length := by
      simp only [State.begins, List.length_append, List.length_singleton] at bound
      omega
    subst last
    simp only [State.begins, List.getElem?_concat_length,
      Option.some.injEq] at found
    exact .inl ⟨rfl, found.symm⟩

theorem siteOf_begins
    {started : Thread Site Lock Answer}
    {site : Site}
    (atSite : state.siteOf thread = some site) :
    (state.begins started).siteOf thread = some site := by
  obtain ⟨current, found, rfl⟩ := Option.map_eq_some_iff.mp atSite
  have old : thread < state.threads.length :=
    (List.getElem?_eq_some_iff.mp found).1
  simp [State.siteOf, State.begins, List.getElem?_append_left old, found]

/-- A reply leaves every thread its site and program. -/
theorem lookup_answered
    {other : Nat}
    {new : Thread Site Lock Answer}
    (isNew : (state.answered thread).threads[other]? = some new) :
    ∃ old, state.threads[other]? = some old ∧ old.site = new.site ∧
      old.program = new.program ∧
        ∀ callee, new.unanswered = some callee →
          old.unanswered = some callee := by
  simp only [State.answered, List.getElem?_map, Option.map_eq_some_iff] at isNew
  obtain ⟨old, isOld, rfl⟩ := isNew
  refine ⟨old, isOld, ?_⟩
  split
  · exact ⟨rfl, rfl, fun _ unanswered => nomatch unanswered⟩
  · exact ⟨rfl, rfl, fun _ unanswered => unanswered⟩

theorem siteOf_answered
    (state : State Site Lock Answer)
    (thread other : Nat) :
    (state.answered thread).siteOf other = state.siteOf other := by
  simp only [State.siteOf, State.answered, List.getElem?_map, Option.map_map]
  congr 1
  funext old
  simp only [Function.comp_apply]
  split <;> rfl

theorem unanswered_answered
    {first second : Site}
    (request : (state.answered thread).Unanswered first second) :
    state.Unanswered first second := by
  obtain ⟨other, callee, new, isNew, rfl, unanswered, atSite⟩ := request
  obtain ⟨old, isOld, site, _, fewer⟩ := lookup_answered isNew
  rw [siteOf_answered] at atSite
  exact ⟨other, callee, old, isOld, site, fewer callee unanswered, atSite⟩

end Lookups

/-! ## What every run keeps -/

section Soundness

variable [Preorder Lock] [DecidableEq Lock]

/--
Every thread is ordered from the locks it has on, every lock and every request
is with a thread that has begun, and the requests do not lead back.
-/
structure Sound (state : State Site Lock Answer) : Prop where
  ordered :
    ∀ thread current, state.threads[thread]? = some current →
      ∃ held,
        (∀ lock,
          lock ∈ held ↔ state.owner (current.site, lock) = some thread) ∧
          current.program.Ordered held
  owned :
    ∀ site lock thread, state.owner (site, lock) = some thread →
      state.siteOf thread = some site
  requested :
    ∀ (thread callee : Nat) (current : Thread Site Lock Answer),
      state.threads[thread]? = some current →
        current.unanswered = some callee →
          ∃ site, state.siteOf callee = some site
  forward : ∀ site, ¬Relation.TransGen state.Unanswered site site

theorem sound_empty : Sound (State.empty : State Site Lock Answer) where
  ordered := by simp [State.empty]
  owned := by simp [State.empty]
  requested := by simp [State.empty]
  forward := by
    intro site circle
    obtain ⟨next, ⟨thread, callee, current, found, _⟩, _⟩ :=
      Relation.TransGen.head'_iff.mp circle
    simp [State.empty] at found

namespace Sound

variable {state : State Site Lock Answer}

/-- What a thread has is smaller than what it takes. -/
theorem lt_of_takes
    (sound : Sound state)
    {thread : Nat}
    {current : Thread Site Lock Answer}
    (found : state.threads[thread]? = some current)
    {taken owned : Lock}
    {rest : Program Site Lock Answer}
    (takes : current.program = .lock taken rest)
    (owns : state.owner (current.site, owned) = some thread) :
    owned < taken := by
  obtain ⟨held, isHeld, ordered⟩ := sound.ordered thread current found
  rw [takes] at ordered
  exact ordered.1 owned ((isHeld owned).mpr owns)

/--
Waiting for a lock stays at the site, and waiting for a reply follows a
request.
-/
theorem waits
    (sound : Sound state)
    {first second : Nat}
    (waits : state.waitsFor first = some second) :
    ∃ source site, state.threads[first]? = some source ∧
      state.siteOf second = some site ∧
        (state.Unanswered source.site site ∨
          source.site = site ∧
            ∃ taken rest, source.program = .lock taken rest ∧
              state.owner (site, taken) = some second) := by
  obtain ⟨source, found, ⟨taken, rest, isLock, owns⟩ | unanswered⟩ :=
    waitsFor_cases waits
  · exact ⟨source, source.site, found, sound.owned _ taken second owns,
      .inr ⟨rfl, taken, rest, isLock, owns⟩⟩
  · obtain ⟨site, atSite⟩ :=
      sound.requested first second source found unanswered
    exact ⟨source, site, found, atSite,
      .inl ⟨first, second, source, found, rfl, unanswered, atSite⟩⟩

/--
Along a chain of waiting threads either requests lead from the first site to
the last, or the site stays and the locks increase.
-/
theorem chain
    (sound : Sound state)
    {first last : Nat}
    (chain :
      Relation.TransGen
        (fun first second => state.waitsFor first = some second) first last) :
    ∃ source site, state.threads[first]? = some source ∧
      state.siteOf last = some site ∧
        (Relation.TransGen state.Unanswered source.site site ∨
          source.site = site ∧
            ∃ taken rest owned, source.program = .lock taken rest ∧
              state.owner (site, owned) = some last ∧ taken ≤ owned) := by
  induction chain with
  | single waits =>
      obtain ⟨source, site, found, atSite,
        request | ⟨same, taken, rest, takes, owns⟩⟩ := sound.waits waits
      · exact ⟨source, site, found, atSite, .inl (.single request)⟩
      · exact ⟨source, site, found, atSite,
          .inr ⟨same, taken, rest, taken, takes, owns, le_refl taken⟩⟩
  | tail _ waits inductionHypothesis =>
      obtain ⟨source, middle, found, atMiddle, sofar⟩ := inductionHypothesis
      obtain ⟨between, site, isBetween, atSite, further⟩ := sound.waits waits
      obtain rfl : between.site = middle := by
        simpa [State.siteOf, isBetween] using atMiddle
      refine ⟨source, site, found, atSite, ?_⟩
      rcases sofar with requests | ⟨same, taken, rest, owned, takes, owns, le⟩
      · rcases further with request | ⟨rfl, _⟩
        · exact .inl (requests.tail request)
        · exact .inl requests
      · rcases further with request | ⟨rfl, later, _, takesLater, ownsLater⟩
        · exact .inl (.single (same ▸ request))
        · have increases : owned < later :=
            sound.lt_of_takes isBetween takesLater owns
          exact .inr ⟨same, taken, rest, later, takes, ownsLater,
            le.trans increases.le⟩

/-- No circle of threads waits. -/
theorem not_deadlocked
    (sound : Sound state) :
    ¬Deadlocked state := by
  rintro ⟨thread, circle⟩
  obtain ⟨source, site, found, atSite, outcome⟩ := sound.chain circle
  obtain rfl : source.site = site := by
    simpa [State.siteOf, found] using atSite
  rcases outcome with requests | ⟨_, taken, rest, owned, takes, owns, le⟩
  · exact sound.forward source.site requests
  · exact (sound.lt_of_takes found takes owns).not_ge le

/--
A thread goes on and may have a new request, to a site from which none leads
back.
-/
theorem forward_goesOn
    (sound : Sound state)
    {thread : Nat}
    {current after : Thread Site Lock Answer}
    (found : state.threads[thread]? = some current)
    (site : after.site = current.site)
    (requests :
      ∀ callee target, after.unanswered = some callee →
        state.siteOf callee = some target →
          state.Unanswered current.site target ∨
            ¬Relation.ReflTransGen state.Unanswered target current.site)
    (place : Site) :
    ¬Relation.TransGen (state.goesOn thread after).Unanswered place place := by
  by_cases isNew :
      ∃ callee target, after.unanswered = some callee ∧
        state.siteOf callee = some target ∧
          ¬Relation.ReflTransGen state.Unanswered target current.site
  · obtain ⟨callee, target, unanswered, atTarget, apart⟩ := isNew
    refine fun circle => not_transGen_or_edge sound.forward apart place
      (Relation.TransGen.mono (fun x y request => ?_) _ _ circle)
    refine (unanswered_goesOn found site request).imp_right ?_
    rintro ⟨rfl, other, isOther, atOther⟩
    obtain rfl : callee = other := Option.some.inj (unanswered.symm.trans isOther)
    exact ⟨rfl, Option.some.inj (atOther.symm.trans atTarget)⟩
  · refine fun circle => sound.forward place
      (Relation.TransGen.mono (fun x y request => ?_) _ _ circle)
    rcases unanswered_goesOn found site request with
      old | ⟨rfl, callee, unanswered, atTarget⟩
    · exact old
    · exact (requests callee y unanswered atTarget).resolve_right fun apart =>
        isNew ⟨callee, y, unanswered, atTarget, apart⟩

/-- The request a thread has leads to a site. -/
theorem keepsRequest
    (sound : Sound state)
    {thread : Nat}
    {current : Thread Site Lock Answer}
    (found : state.threads[thread]? = some current)
    (callee : Nat)
    (unanswered : current.unanswered = some callee) :
    ∃ target, state.siteOf callee = some target ∧
      (state.Unanswered current.site target ∨
        ¬Relation.ReflTransGen state.Unanswered target current.site) := by
  obtain ⟨target, atTarget⟩ :=
    sound.requested thread callee current found unanswered
  exact ⟨target, atTarget,
    .inl ⟨thread, callee, current, found, rfl, unanswered, atTarget⟩⟩

/-- The locks of a thread are locks of its site. -/
theorem site_of_owns
    (sound : Sound state)
    {thread : Nat}
    {current : Thread Site Lock Answer}
    (found : state.threads[thread]? = some current)
    {place : Site × Lock}
    (owns : state.owner place = some thread) :
    place.1 = current.site := by
  have atSite := sound.owned place.1 place.2 thread owns
  rw [State.siteOf, found] at atSite
  exact (Option.some.inj atSite).symm

/-- A thread goes on, and may take a lock, give one back or have a request. -/
theorem goesOn
    (sound : Sound state)
    {thread : Nat}
    {current : Thread Site Lock Answer}
    (found : state.threads[thread]? = some current)
    (after : Thread Site Lock Answer)
    (site : after.site = current.site)
    (requests :
      ∀ callee, after.unanswered = some callee →
        ∃ target, state.siteOf callee = some target ∧
          (state.Unanswered current.site target ∨
            ¬Relation.ReflTransGen state.Unanswered target current.site))
    (owner : Site × Lock → Option Nat)
    (others :
      ∀ place other, other ≠ thread →
        (owner place = some other ↔ state.owner place = some other))
    (ours : ∀ place, owner place = some thread → place.1 = current.site)
    (held : List Lock)
    (isHeld :
      ∀ lock, lock ∈ held ↔ owner (current.site, lock) = some thread)
    (ordered : after.program.Ordered held) :
    Sound { state.goesOn thread after with owner := owner } where
  ordered := by
    intro other new isNew
    rcases lookup_goesOn isNew with ⟨rfl, rfl⟩ | ⟨different, isOld⟩
    · exact ⟨held, fun lock => site ▸ isHeld lock, ordered⟩
    · obtain ⟨heldThere, isHeldThere, orderedThere⟩ :=
        sound.ordered other new isOld
      exact ⟨heldThere,
        fun lock => (isHeldThere lock).trans (others _ other different).symm,
        orderedThere⟩
  owned := by
    intro place lock other owns
    refine (siteOf_goesOn found site other).trans ?_
    by_cases same : other = thread
    · subst same
      have here : place = current.site := ours _ owns
      rw [State.siteOf, found, Option.map_some, here]
    · exact sound.owned place lock other ((others _ other same).mp owns)
  requested := by
    intro other callee new isNew unanswered
    have atSite := siteOf_goesOn found site callee
    rcases lookup_goesOn isNew with ⟨rfl, rfl⟩ | ⟨_, isOld⟩
    · exact (requests callee unanswered).imp fun _ isTarget =>
        atSite.trans isTarget.1
    · exact (sound.requested other callee new isOld unanswered).imp
        fun _ isTarget => atSite.trans isTarget
  forward := by
    refine sound.forward_goesOn found site fun callee target unanswered atTarget => ?_
    obtain ⟨again, isAgain, known⟩ := requests callee unanswered
    obtain rfl : target = again := Option.some.inj (atTarget.symm.trans isAgain)
    exact known

/-- A thread that begins has no request. -/
theorem unanswered_begins
    (sound : Sound state)
    {site : Site}
    {program : Program Site Lock Answer}
    {first second : Site}
    (request :
      (state.begins ⟨site, none, program⟩).Unanswered first second) :
    state.Unanswered first second := by
  obtain ⟨thread, callee, current, found, rfl, unanswered, atSite⟩ := request
  rcases lookup_begins found with ⟨rfl, rfl⟩ | isOld
  · cases unanswered
  · obtain ⟨target, atTarget⟩ :=
      sound.requested thread callee current isOld unanswered
    obtain rfl : target = second :=
      Option.some.inj ((siteOf_begins atTarget).symm.trans atSite)
    exact ⟨thread, callee, current, isOld, rfl, unanswered, atTarget⟩

/-- An ordered program begins without locks. -/
theorem begins
    (sound : Sound state)
    {site : Site}
    {program : Program Site Lock Answer}
    (ordered : program.Ordered []) :
    Sound (state.begins ⟨site, none, program⟩) where
  ordered := by
    intro thread current found
    rcases lookup_begins found with ⟨rfl, rfl⟩ | isOld
    · refine ⟨[], fun lock => ⟨(nomatch ·), fun owns => ?_⟩, ordered⟩
      have atSite := sound.owned _ lock _ owns
      simp [State.siteOf] at atSite
    · exact sound.ordered thread current isOld
  owned := fun place lock thread owns =>
    siteOf_begins (sound.owned place lock thread owns)
  requested := by
    intro thread callee current found unanswered
    rcases lookup_begins found with ⟨rfl, rfl⟩ | isOld
    · cases unanswered
    · exact (sound.requested thread callee current isOld unanswered).imp
        fun _ => siteOf_begins
  forward := fun place circle =>
    sound.forward place
      (Relation.TransGen.mono (fun _ _ => sound.unanswered_begins) _ _ circle)

/-- A reply ends requests and changes nothing else. -/
theorem answered
    (sound : Sound state)
    (thread : Nat) :
    Sound (state.answered thread) where
  ordered := by
    intro other new isNew
    obtain ⟨old, isOld, site, program, _⟩ := lookup_answered isNew
    obtain ⟨held, isHeld, ordered⟩ := sound.ordered other old isOld
    exact ⟨held, site ▸ isHeld, program ▸ ordered⟩
  owned := fun place lock other owns =>
    (siteOf_answered state thread other).trans
      (sound.owned place lock other owns)
  requested := by
    intro other callee new isNew unanswered
    obtain ⟨old, isOld, _, _, fewer⟩ := lookup_answered isNew
    rw [siteOf_answered]
    exact sound.requested other callee old isOld (fewer callee unanswered)
  forward := fun place circle =>
    sound.forward place
      (Relation.TransGen.mono (fun _ _ => unanswered_answered) _ _ circle)

/-- A thread that keeps its locks and requests goes on. -/
theorem goesOnWith
    (sound : Sound state)
    {thread : Nat}
    {current : Thread Site Lock Answer}
    (found : state.threads[thread]? = some current)
    {held : List Lock}
    (isHeld :
      ∀ lock, lock ∈ held ↔ state.owner (current.site, lock) = some thread)
    {rest : Program Site Lock Answer}
    (ordered : rest.Ordered held) :
    Sound (state.goesOn thread { current with program := rest }) := by
  exact sound.goesOn found { current with program := rest } rfl
    (fun callee => sound.keepsRequest found callee) state.owner (fun _ _ _ => .rfl)
    (fun _ => sound.site_of_owns found) held isHeld ordered

end Sound

section Locking

variable [DecidableEq Site] {state : State Site Lock Answer}

/-- A thread takes a free lock or gives back one of its own. -/
theorem Sound.owns
    (sound : Sound state)
    {thread : Nat}
    {current : Thread Site Lock Answer}
    (found : state.threads[thread]? = some current)
    {lock : Lock}
    {owner : Option Nat}
    (free :
      ∀ other, other ≠ thread →
        state.owner (current.site, lock) ≠ some other ∧ owner ≠ some other)
    {held : List Lock}
    (isHeld :
      ∀ other, other ∈ held ↔
        if other = lock then owner = some thread
        else state.owner (current.site, other) = some thread)
    {rest : Program Site Lock Answer}
    (ordered : rest.Ordered held) :
    Sound
      ((state.own current.site lock owner).goesOn thread
        { current with program := rest }) := by
  have owners :
      ∀ place other,
        (state.own current.site lock owner).owner place = some other ↔
          if place = (current.site, lock) then owner = some other
          else state.owner place = some other := by
    intro place other
    simp only [State.own, Function.update_apply]
    split <;> rfl
  refine sound.goesOn found { current with program := rest } rfl
    (fun callee => sound.keepsRequest found callee) _ ?_ ?_ held ?_ ordered
  · intro place other different
    rw [owners]
    split
    · next here => simp [here, free other different]
    · rfl
  · intro place owns
    rw [owners] at owns
    split at owns
    · next here => exact congrArg Prod.fst here
    · exact sound.site_of_owns found owns
  · intro other
    rw [isHeld, owners]
    simp [Prod.ext_iff]

omit [DecidableEq Site] in
/-- A thread sends a request to a site from which none leads back. -/
theorem Sound.sends
    (sound : Sound state)
    {thread : Nat}
    {current : Thread Site Lock Answer}
    (found : state.threads[thread]? = some current)
    {site : Site}
    {handler rest : Program Site Lock Answer}
    (apart : ¬Relation.ReflTransGen state.Unanswered site current.site)
    {held : List Lock}
    (isHeld :
      ∀ lock, lock ∈ held ↔ state.owner (current.site, lock) = some thread)
    (served : handler.Ordered [])
    (ordered : rest.Ordered held) :
    Sound
      ((state.goesOn thread
        { current with
          unanswered := some state.threads.length
          program := rest }).begins ⟨site, none, handler⟩) := by
  have inRange : thread < state.threads.length :=
    (List.getElem?_eq_some_iff.mp found).1
  have begun : Sound (state.begins ⟨site, none, handler⟩) :=
    sound.begins served
  have foundThere :
      (state.begins ⟨site, none, handler⟩).threads[thread]? = some current :=
    (List.getElem?_append_left inRange).trans found
  have goes := begun.goesOn foundThere
    { current with unanswered := some state.threads.length, program := rest }
    rfl ?_ state.owner (fun _ _ _ => .rfl) (fun _ => sound.site_of_owns found)
    held isHeld ordered
  · simpa [State.begins, State.goesOn, List.set_append_left _ _ inRange]
      using goes
  · rintro callee ⟨⟩
    refine ⟨site, by simp [State.siteOf, State.begins], .inr fun back => ?_⟩
    exact apart
      (Relation.ReflTransGen.mono (fun _ _ => sound.unanswered_begins) _ _ back)

/-- One step of a thread keeps the invariant. -/
theorem Sound.advance
    (sound : Sound state)
    {thread : Nat}
    {answer : Answer}
    (sends : SendsForward state (.advance thread answer)) :
    Sound (state.advance thread answer) := by
  unfold State.advance
  split
  · exact sound
  next current found =>
  obtain ⟨held, isHeld, ordered⟩ := sound.ordered thread current found
  split
  · exact sound
  · next taken rest isProgram =>
      rw [isProgram] at ordered
      split
      · next free =>
          refine sound.owns found (fun other different => ?_) (fun other => ?_)
            ordered.2
          · simp [free, Ne.symm different]
          · rw [List.mem_cons, isHeld]
            split <;> simp [*]
      · exact sound
  · next given rest isProgram =>
      rw [isProgram] at ordered
      have owned := (isHeld given).mp ordered.1
      refine sound.owns found (fun other different => ?_) (fun other => ?_)
        ordered.2
      · simp [owned, Ne.symm different]
      · rw [List.mem_filter, isHeld]
        split <;> simp [*]
  · next next isProgram =>
      rw [isProgram] at ordered
      exact sound.goesOnWith found isHeld (ordered answer)
  · next site handler rest isProgram =>
      rw [isProgram] at ordered
      exact sound.sends found
        (sends current site handler rest found isProgram) isHeld
        ordered.1 ordered.2
  · next rest isProgram =>
      rw [isProgram] at ordered
      split
      · exact sound.goesOnWith found isHeld ordered
      · exact sound
  · next rest isProgram =>
      rw [isProgram] at ordered
      exact sound.goesOn found
        { current with unanswered := none, program := rest } rfl
        (fun _ unanswered => nomatch unanswered) state.owner
        (fun _ _ _ => .rfl) (fun _ => sound.site_of_owns found) held isHeld
        ordered
  · next rest isProgram =>
      rw [isProgram] at ordered
      have later : rest.Ordered held := ordered
      exact (sound.goesOnWith found isHeld later).answered thread

/-- One step keeps the invariant. -/
theorem Sound.step
    (sound : Sound state)
    {event : Event Site Lock Answer}
    (sends : SendsForward state event)
    (begins :
      ∀ site program, event = .begin site program → program.Ordered []) :
    Sound (Locks.step state event) := by
  cases event with
  | begin site program => exact sound.begins (begins site program rfl)
  | advance thread answer => exact sound.advance sends

end Locking

end Soundness

end Locks

end DistributedDocs
