/-
How old an answer of the API can be.

A query's answer is stamped with the time at which it comes, and the requests of `Cache`
are watched as they run: what is given, and when.  Time does not go back, and a
computation that has the result it awaits goes on before anything else happens, within
`delay` milliseconds.

A result that is stored when it is `a` old is given for the time its entry lives, so it is
at most `a` and that time old when it is given, and a computation that extends it starts
from there.  The times to live add up along what a computation extends.
-/
import OmnipairIndexer.Api.Cache

namespace OmnipairIndexer

open Transition

namespace DataController

/-! ## Ages -/

/-- The longest that a result of the computation can be given after its query answered. -/
def Computation.maxAge (delay : Int) (c : Computation) : Int :=
  c.ttl + c.extends?.elim 0 fun inner => inner.ttl + delay

section Ages

variable {α : Type}

namespace Data

def source {σ : Type} : Data σ → Computation
  | queried source _ => source
  | extended source _ => source

/-- When the query answered. -/
def time : Data (α × Int) → Int
  | queried _ answer => answer.2
  | extended _ data => data.time

/-- How old the data can be when it is stored. -/
def storedAge {σ : Type} (delay : Int) : Data σ → Int
  | queried _ _ => 0
  | extended _ data => data.storedAge delay + data.source.ttl + delay

/-- How old the data can be when it is given. -/
def maxAge {σ : Type} (delay : Int) (data : Data σ) : Int := data.storedAge delay + data.source.ttl

theorem maxAge_of_isOf {σ : Type} {data : Data σ} {c : Computation} (h : data.IsOf c) (delay : Int) :
    data.maxAge delay = c.maxAge delay := by
  cases data with
  | queried source answer =>
    obtain ⟨rfl, hquery⟩ := h
    rw [Computation.maxAge, hquery]
    show (0 : Int) + source.ttl = source.ttl + 0
    omega
  | extended source data =>
    obtain ⟨rfl, inner, hextends, hdata⟩ := h
    rw [Computation.maxAge, hextends]
    cases data with
    | queried inner' answer =>
      obtain ⟨rfl, -⟩ := hdata
      show (0 : Int) + inner'.ttl + delay + source.ttl = source.ttl + (inner'.ttl + delay)
      omega
    | extended inner' data =>
      obtain ⟨rfl, inner'', hextends', -⟩ := hdata
      rw [Computation.extends?_of_extends? hextends] at hextends'
      cases hextends'

end Data

theorem Computation.ttl_nonneg (c : Computation) : 0 ≤ c.ttl := by
  cases c
  all_goals
    simp only [ttl]
    omega

end Ages

/-! ## Watching the requests -/

def Job.extended? {σ : Type} : Job σ → Option (Data σ)
  | querying _ _ => none
  | extending _ data => some data

namespace Requests

/-- What the computations that have the result they await will extend. -/
def State.extending {σ : Type} (s : State σ) : List (Data σ) := s.jobs.filterMap Job.extended?

/-- An action without the time it is taken at. -/
inductive Event (α : Type) where
  | call (c : Computation)
  | queryAnswers (job : Nat) (answer : α)
  | queryFails (job : Nat)
  | extend (job : Nat)
  | cleanup

section Watching

variable {α : Type}

/-- The event as an action, with the answer of a query stamped. -/
def Event.at (now : Int) : Event α → Action (α × Int)
  | call c => .call c now
  | queryAnswers job answer => .queryAnswers job (answer, now) now
  | queryFails job => .queryFails job
  | extend job => .extend job now
  | cleanup => .cleanup now

def Event.isExtend : Event α → Bool
  | extend _ => true
  | _ => false

/-- The requests, the time of the last event, and what was given when. -/
structure Watched (α : Type) where
  state : State (α × Int)
  now : Int
  given : List (Int × Computation × Data (α × Int))

def Watched.start (now : Int) : Watched α := ⟨Requests.start, now, []⟩

/-- Time goes on, and a computation with its result goes on first, within the delay. -/
def InTime (delay : Int) (u : Watched α) (e : Int × Event α) : Prop :=
  u.now ≤ e.1 ∧ (u.state.extending ≠ [] → e.2.isExtend = true ∧ e.1 ≤ u.now + delay)

instance (delay : Int) (u : Watched α) (e : Int × Event α) : Decidable (InTime delay u e) :=
  decidable_of_iff (u.now ≤ e.1 ∧
    (¬ u.state.extending.isEmpty = true → e.2.isExtend = true ∧ e.1 ≤ u.now + delay))
    (by rw [InTime, List.isEmpty_iff])

def watch (requests : List Request) (delay : Int) (u : Watched α) (e : Int × Event α) :
    Option (Watched α) :=
  if InTime delay u e then
    (step requests u.state (e.2.at e.1)).map fun t =>
      ⟨t, e.1, u.given ++ (t.answers.drop u.state.answers.length).map fun a => (e.1, a)⟩
  else none

end Watching

/-! ## What the watched requests keep -/

/-- An entry of the cache, stored within its age and for the time of its computation. -/
structure Fresh (delay now : Int) {α : Type} (entry : CacheEntry (Data (α × Int))) : Prop where
  timestamp : entry.timestamp ≤ now
  ttl : entry.ttl = Millis.whole entry.data.source.ttl
  stored : entry.timestamp ≤ entry.data.time + entry.data.storedAge delay

section Invariant

variable {α : Type} {delay now : Int} {s t : State (α × Int)} {c : Computation}
  {caller : Option Computation} {data : Data (α × Int)}

/-- Every entry is fresh. -/
def FreshCache (delay now : Int) (s : State (α × Int)) : Prop :=
  ∀ key, ∀ entry ∈ s.cache.cache key, Fresh delay now entry

/-- The data is no older than it can be when it is given. -/
def Young (delay now : Int) (data : Data (α × Int)) : Prop :=
  now ≤ data.time + data.maxAge delay

theorem FreshCache.mono {now' : Int} (h : FreshCache delay now s) (hnow : now ≤ now') :
    FreshCache delay now' s := by
  intro key entry hentry
  have hfresh := h key entry hentry
  exact ⟨Int.le_trans hfresh.timestamp hnow, hfresh.ttl, hfresh.stored⟩

theorem FreshCache.young (h : FreshCache delay now s) {key : String}
    (hget : (s.cache.get key now).1 = some data) : Young delay now data := by
  unfold SimpleCache.get at hget
  split at hget
  · cases hget
  · rename_i entry hentry
    split at hget
    · cases hget
    · rename_i hexpired
      cases hget
      have hfresh := h key entry hentry
      have hle : now - entry.timestamp ≤ entry.data.source.ttl := by
        rw [Bool.not_eq_true, CacheEntry.expired, decide_eq_false_iff_not, not_lt, hfresh.ttl,
          Millis.whole_le_whole] at hexpired
        exact hexpired
      have hstored := hfresh.stored
      unfold Young Data.maxAge
      omega

/-- Entries that are deleted are of no account. -/
theorem FreshCache.of_le {cache : SimpleCache (Data (α × Int))} (h : FreshCache delay now s)
    (hle : ∀ key, ∀ entry ∈ cache.cache key, entry ∈ s.cache.cache key) :
    FreshCache delay now { s with cache := cache } :=
  fun key entry hentry => h key entry (hle key entry hentry)

theorem FreshCache.get (h : FreshCache delay now s) (key : String) (now' : Int) :
    FreshCache delay now { s with cache := (s.cache.get key now').2 } := by
  apply h.of_le
  intro key' entry hentry
  unfold SimpleCache.get at hentry
  split at hentry
  · exact hentry
  · split at hentry
    · change entry ∈ Function.update s.cache.cache key none key' at hentry
      by_cases hk : key' = key
      · rw [hk, Function.update_self] at hentry
        cases hentry
      · rwa [Function.update_of_ne hk] at hentry
    · exact hentry

theorem FreshCache.cleanup (h : FreshCache delay now s) (now' : Int) :
    FreshCache delay now { s with cache := s.cache.cleanup now' } := by
  apply h.of_le
  intro key entry hentry
  exact Option.eq_some_of_filter_eq_some hentry

theorem FreshCache.store (h : FreshCache delay now s) (hsource : data.source = c)
    (hstored : now ≤ data.time + data.storedAge delay) :
    FreshCache delay now (s.store c data now) := by
  intro key entry hentry
  change entry ∈ Function.update s.cache.cache c.cacheKey (some ⟨data, now, c.ttl⟩) key at hentry
  by_cases hk : key = c.cacheKey
  · rw [hk, Function.update_self] at hentry
    obtain rfl := Option.some.inj hentry
    exact ⟨Int.le_refl now, by rw [hsource], hstored⟩
  · rw [Function.update_of_ne hk] at hentry
    exact h key entry hentry

/-! ### Computations that have what they await -/

theorem extending_answer (s : State (α × Int)) (c : Computation) (caller : Option Computation)
    (data : Data (α × Int)) :
    (s.answer c caller data).extending = s.extending ++ (caller.map fun _ => data).toList := by
  rw [State.extending, State.answer, List.filterMap_append]
  cases caller <;> rfl

theorem extending_query (s : State (α × Int)) (c : Computation) (caller : Option Computation) :
    (s.query c caller).extending = s.extending := by
  rw [State.extending, State.query, List.filterMap_append]
  exact List.append_nil _

theorem extending_finish {job : Nat} {j : Job (α × Int)} (hjob : s.jobs[job]? = some j) :
    ∃ before after, s.extending = before ++ j.extended?.toList ++ after ∧
      (s.finish job).extending = before ++ after := by
  obtain ⟨hlt, rfl⟩ := List.getElem?_eq_some_iff.mp hjob
  refine ⟨(s.jobs.take job).filterMap Job.extended?,
    (s.jobs.drop (job + 1)).filterMap Job.extended?, ?_, ?_⟩
  · rw [State.extending, List.append_assoc]
    conv_lhs => rw [← List.take_append_drop job s.jobs, List.drop_eq_getElem_cons hlt]
    rw [List.filterMap_append, List.filterMap_cons]
    cases s.jobs[job].extended? <;> rfl
  · rw [State.extending, State.finish, List.eraseIdx_eq_take_drop_succ, List.filterMap_append]

/-- What the watched requests keep: fresh entries, and one computation at most that can go
on, with data that was young when it came. -/
structure Watches (delay now : Int) (s : State (α × Int)) : Prop where
  cache : FreshCache delay now s
  extending : s.extending = [] ∨ ∃ data, s.extending = [data] ∧ Young delay now data

/-- The answers of `t` after those of `s` are young. -/
def GivesYoung (delay now : Int) (s t : State (α × Int)) : Prop :=
  ∃ more, t.answers = s.answers ++ more ∧ ∀ a ∈ more, Young delay now a.2

theorem GivesYoung.nothing (h : t.answers = s.answers) : GivesYoung delay now s t :=
  ⟨[], by rw [h, List.append_nil], fun _ ha => absurd ha List.not_mem_nil⟩

theorem GivesYoung.answer (h : t.answers = s.answers) (hdata : Young delay now data) :
    GivesYoung delay now s (t.answer c caller data) := by
  refine ⟨[(c, data)], by rw [State.answer, h], ?_⟩
  intro a ha
  rw [List.mem_singleton.mp ha]
  exact hdata

theorem Watches.answer (hcache : FreshCache delay now s) (hidle : s.extending = [])
    (hdata : Young delay now data) : Watches delay now (s.answer c caller data) where
  cache := hcache
  extending := by
    rw [extending_answer, hidle]
    cases caller with
    | none => exact Or.inl rfl
    | some outer => exact Or.inr ⟨data, rfl, hdata⟩

theorem Watches.query (hcache : FreshCache delay now s) (hidle : s.extending = []) :
    Watches delay now (s.query c caller) where
  cache := hcache
  extending := Or.inl ((extending_query s c caller).trans hidle)

/-- A computation is answered from the cache, or goes on without an answer. -/
theorem watches_lookup (hcache : FreshCache delay now s) (hidle : s.extending = [])
    {miss : State (α × Int) → State (α × Int)}
    (hmiss : ∀ u, FreshCache delay now u → u.extending = [] →
      Watches delay now (miss u) ∧ GivesYoung delay now u (miss u)) :
    Watches delay now (s.lookup c caller now miss) ∧
      GivesYoung delay now s (s.lookup c caller now miss) := by
  have hget := hcache.get c.cacheKey now
  unfold State.lookup
  split
  · rename_i data cache hfound
    rw [hfound] at hget
    have hyoung := hcache.young (congrArg Prod.fst hfound)
    exact ⟨.answer hget hidle hyoung, .answer rfl hyoung⟩
  · rename_i cache hfound
    rw [hfound] at hget
    exact hmiss _ hget hidle

theorem young_of_stored (h : now ≤ data.time + data.storedAge delay) : Young delay now data := by
  have httl := data.source.ttl_nonneg
  unfold Young Data.maxAge
  omega

/-- A result is stored and given. -/
theorem watches_complete (hcache : FreshCache delay now s) (hidle : s.extending = [])
    (hsource : data.source = c) (hstored : now ≤ data.time + data.storedAge delay) :
    Watches delay now ((s.store c data now).answer c caller data) ∧
      GivesYoung delay now s ((s.store c data now).answer c caller data) :=
  ⟨.answer (hcache.store hsource hstored) hidle (young_of_stored hstored),
    .answer rfl (young_of_stored hstored)⟩

theorem extending_finish_querying {job : Nat} (hidle : s.extending = [])
    (hjob : s.jobs[job]? = some (.querying c caller)) : (s.finish job).extending = [] := by
  obtain ⟨before, after, hbefore, hafter⟩ := extending_finish hjob
  rw [hafter, ← hidle, hbefore]
  show _ = before ++ [] ++ after
  rw [List.append_nil]

theorem watches_step {requests : List Request} {last : Int} {e : Event α}
    (h : Watches delay last s) (hlast : last ≤ now)
    (htime : s.extending ≠ [] → e.isExtend = true ∧ now ≤ last + delay)
    (hstep : step requests s (e.at now) = some t) :
    Watches delay now t ∧ GivesYoung delay now s t := by
  have hcache : FreshCache delay now s := h.cache.mono hlast
  have hidle : e.isExtend = false → s.extending = [] := by
    intro hother
    by_contra hextending
    rw [(htime hextending).1] at hother
    cases hother
  cases e with
  | call c =>
    simp only [Event.at, step, Option.ite_none_right_eq_some, Option.some.injEq] at hstep
    obtain ⟨-, rfl⟩ := hstep
    apply watches_lookup hcache (hidle rfl)
    intro u hu huidle
    split
    · exact ⟨.query hu huidle, .nothing rfl⟩
    · apply watches_lookup hu huidle
      intro v hv hvidle
      exact ⟨.query hv hvidle, .nothing rfl⟩
  | queryAnswers job answer =>
    simp only [Event.at, step] at hstep
    split at hstep
    · rename_i c caller hjob
      obtain rfl := Option.some.inj hstep
      have hfinish := extending_finish_querying (hidle rfl) hjob
      have hstored : now ≤ now + 0 := by omega
      exact @watches_complete α delay now (s.finish job) c caller (.queried c (answer, now)) hcache
        hfinish rfl hstored
    · cases hstep
  | queryFails job =>
    simp only [Event.at, step] at hstep
    split at hstep
    · rename_i hjob
      obtain rfl := Option.some.inj hstep
      exact ⟨⟨hcache, Or.inl (extending_finish_querying (hidle rfl) hjob)⟩, .nothing rfl⟩
    · cases hstep
  | extend job =>
    simp only [Event.at, step] at hstep
    split at hstep
    · rename_i c data hjob
      obtain rfl := Option.some.inj hstep
      obtain ⟨before, after, hbefore, hafter⟩ := extending_finish hjob
      have hone : ∃ data', before ++ [data] ++ after = [data'] ∧ Young delay last data' := by
        obtain hnone | ⟨data', hdata', hyoung⟩ := h.extending
        · rw [hbefore] at hnone
          simp [Job.extended?] at hnone
        · exact ⟨data', hbefore ▸ hdata', hyoung⟩
      obtain ⟨data', hdata', hyoung⟩ := hone
      have hsame : before = [] ∧ after = [] ∧ data = data' := by
        cases before with
        | nil => simpa [and_comm] using hdata'
        | cons b before => simp at hdata'
      obtain ⟨rfl, rfl, rfl⟩ := hsame
      have hlate : now ≤ last + delay := (htime (by rw [hbefore]; exact List.cons_ne_nil _ _)).2
      have hstored : now ≤ data.time + (data.storedAge delay + data.source.ttl + delay) := by
        unfold Young Data.maxAge at hyoung
        omega
      exact @watches_complete α delay now (s.finish job) c none (.extended c data) hcache hafter rfl
        hstored
    · cases hstep
  | cleanup =>
    obtain rfl := Option.some.inj hstep
    exact ⟨⟨hcache.cleanup now, Or.inl (hidle rfl)⟩, .nothing rfl⟩

end Invariant

/-! ## Runs -/

section Runs

variable {α : Type} {requests : List Request} {delay : Int} {u v : Watched α}

theorem watch_eq_some {e : Int × Event α} (h : watch requests delay u e = some v) :
    InTime delay u e ∧ step requests u.state (e.2.at e.1) = some v.state ∧ v.now = e.1 ∧
      v.given =
        u.given ++ (v.state.answers.drop u.state.answers.length).map fun a => (e.1, a) := by
  simp only [watch, Option.ite_none_right_eq_some, Option.map_eq_some_iff] at h
  obtain ⟨htime, t, ht, rfl⟩ := h
  exact ⟨htime, ht, rfl, rfl⟩

structure Watched.Sound (delay : Int) (u : Watched α) : Prop where
  watches : Watches delay u.now u.state
  young : ∀ g ∈ u.given, Young delay g.1 g.2.2
  answers : u.given.map Prod.snd = u.state.answers

theorem Watched.start_sound (now : Int) : (Watched.start now : Watched α).Sound delay where
  watches := ⟨nofun, Or.inl rfl⟩
  young := nofun
  answers := rfl

theorem Watched.Sound.step {e : Int × Event α} (h : u.Sound delay)
    (hwatch : watch requests delay u e = some v) : v.Sound delay := by
  obtain ⟨now, event⟩ := e
  obtain ⟨⟨hnow, htime⟩, hstep, hclock, hgiven⟩ := watch_eq_some hwatch
  obtain rfl : now = v.now := hclock.symm
  obtain ⟨hwatches, more, hmore, hyoung⟩ := watches_step h.watches hnow htime hstep
  have hnew : v.state.answers.drop u.state.answers.length = more := by
    rw [hmore, List.drop_left]
  rw [hnew] at hgiven
  refine ⟨hwatches, ?_, ?_⟩
  · intro g hg
    rw [hgiven] at hg
    obtain hold | hnew := List.mem_append.mp hg
    · exact h.young g hold
    · obtain ⟨a, ha, rfl⟩ := List.mem_map.mp hnew
      exact hyoung a ha
  · rw [hgiven, List.map_append, h.answers, hmore, List.map_map]
    exact congrArg _ (List.map_id more)

/-- The requests run as they do without being watched. -/
theorem run_of_watch {events : List (Int × Event α)} (hrun : run (watch requests delay) u events =
    some v) :
    run (step requests) u.state (events.map fun e => e.2.at e.1) = some v.state := by
  induction events generalizing u with
  | nil =>
    cases hrun
    rfl
  | cons e events ih =>
    obtain ⟨t, ht, hrest⟩ := run_cons_eq_some.mp hrun
    exact run_cons_eq_some.mpr ⟨t.state, (watch_eq_some ht).2.1, ih hrest⟩

end Runs

end Requests

open Requests

/-- The fees of a day, asked again when the total is about to expire and once more when the
answer made of it is. -/
def staleFees : List (Int × Event Nat) :=
  [(0, .call (.getFeePaid "8hHk" .day)), (0, .queryAnswers 0 7), (0, .extend 0),
    (60000, .call (.getFeePaid "8hHk" .day)), (60000, .extend 0),
    (75000, .call (.getFeePaid "8hHk" .day))]

theorem staleFees_run :
    ∃ u : Watched Nat,
      run (watch [.getFeePaid "8hHk" (some .day)] 0) (.start 0) staleFees = some u ∧
        ∃ g ∈ u.given, g.1 = g.2.2.time + 75000 := by
  have h : (run (watch [.getFeePaid "8hHk" (some .day)] 0) (.start 0) staleFees).any (fun u =>
      u.given.any fun g => decide (g.1 = g.2.2.time + 75000)) := by
    decide +kernel
  obtain ⟨u, hu, h⟩ := (Option.any_eq_true ..).mp h
  obtain ⟨g, hg, h⟩ := List.any_eq_true.mp h
  exact ⟨u, hu, g, hg, of_decide_eq_true h⟩

/-- Whenever an answer is given, its query answered no longer ago than the times to live of
what it was made of and the delay of each computation that goes on.  With keys of their own
the computations are given results of their own, and the bound is that of the computation. -/
theorem answers_young {α : Type} (requests : List Request) (delay now : Int)
    (events : List (Int × Event α)) (u : Watched α)
    (hrun : run (watch requests delay) (.start now) events = some u) :
    u.given.map Prod.snd = u.state.answers ∧
      (∀ g ∈ u.given, g.1 ≤ g.2.2.time + g.2.2.maxAge delay) ∧
      (Separate requests → ∀ g ∈ u.given,
        g.2.2.IsOf g.2.1 ∧ g.1 ≤ g.2.2.time + g.2.1.maxAge delay) := by
  have hsound : u.Sound delay :=
    run_preserves (fun _ _ _ h hstep => h.step hstep) (Watched.start_sound now) hrun
  refine ⟨hsound.answers, hsound.young, ?_⟩
  intro hseparate g hg
  have hinv := Inv.run (keysDistinct_iff.mpr hseparate) (run_of_watch hrun)
  have hown : g.2.2.IsOf g.2.1 := by
    apply hinv.answers g.2
    rw [← hsound.answers]
    exact List.mem_map_of_mem hg
  refine ⟨hown, ?_⟩
  rw [← Data.maxAge_of_isOf hown delay]
  exact hsound.young g hg

/-- The fees are 75 seconds old when they are given for the last time. -/
theorem answers_young_staleFees :
    ∃ u : Watched Nat,
      run (watch [.getFeePaid "8hHk" (some .day)] 0) (.start 0) staleFees = some u ∧
        (∀ g ∈ u.given, g.1 ≤ g.2.2.time + g.2.2.maxAge 0) ∧
        ∃ g ∈ u.given, g.1 = g.2.2.time + 75000 := by
  obtain ⟨u, hrun, hstale⟩ := staleFees_run
  exact ⟨u, hrun, (answers_young _ 0 0 staleFees u hrun).2.1, hstale⟩

end DataController

end OmnipairIndexer
