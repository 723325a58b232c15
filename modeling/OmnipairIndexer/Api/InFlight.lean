/-
`pairSimulation`: the requests that are in flight.

Concurrent calls for one key share a request: the promise of the first one is kept in a
map, and the body of the request deletes the entry of its key when it settles.  Between
two waits the code runs to completion, so a step is one call up to its return, or one
settled wait of a request up to the next wait or the end.

The entry is set after the body has run up to its first wait, and it is deleted by key.
A body that throws before it waits deletes first and is entered afterwards, and a clear
takes the entries of requests that go on.  `sound_iff` says that nothing else puts the
map out of step with the requests.
-/
import Mathlib.Data.List.Nodup
import Mathlib.Logic.Function.Basic
import OmnipairIndexer.Library.Transition
import OmnipairIndexer.Api.PairSimulation

namespace OmnipairIndexer

open Transition

namespace PairSimulation

/-! ## Calls -/

inductive Simulator where
  | pairGetter
  | userPositionGetter
  deriving DecidableEq

/-- The arguments a key is made of.  `args` is the JSON text of the optional arguments. -/
inductive SimulationCall where
  | pairGetter (pairPda : String) (getter : GetterType) (args : Option String)
  | userPositionGetter (pairPda userPositionPda : String) (getter : UserPositionGetterType)
  deriving DecidableEq

namespace SimulationCall

def simulator : SimulationCall → Simulator
  | pairGetter .. => .pairGetter
  | userPositionGetter .. => .userPositionGetter

def getterKey : SimulationCall → String
  | pairGetter _ getter _ => getter.key
  | userPositionGetter _ _ getter => getter.key

def requestKey : SimulationCall → String
  | pairGetter pairPda getter args =>
    "pair:" ++ pairPda ++ ":" ++ getter.key ++ ":" ++ args.getD "default"
  | userPositionGetter pairPda userPositionPda getter =>
    "userPosition:" ++ pairPda ++ ":" ++ userPositionPda ++ ":" ++ getter.key

/-- Each simulator has a map of its own. -/
def key (call : SimulationCall) : Simulator × String := (call.simulator, call.requestKey)

end SimulationCall

/-! ## State -/

structure SimulationResult where
  label : String
  values : Values

structure CacheEntry where
  result : SimulationResult
  timestamp : Int

/-- What the body of a request waits for. -/
inductive Await where
  | pairAccount
  | instruction
  | simulation

structure Request where
  /-- The promise of the request. -/
  id : Nat
  call : SimulationCall
  awaiting : Await

structure State where
  simulateCache : String → Option CacheEntry
  /-- `inFlightRequests` and `userPositionInFlightRequests`. -/
  inFlight : Simulator × String → Option Nat
  /-- The requests that have not settled. -/
  pending : List Request
  nextId : Nat

def start : State := ⟨fun _ => none, fun _ => none, [], 0⟩

def SIMULATE_CACHE_DURATION : Int := 5000

/-- How the wait of a request ends.  The code between two waits may throw as well, which
is the end of the request as a rejection is. -/
inductive Resumption where
  | rejected
  | fulfilled
  | simulated (logs : List String) (now : Int)

inductive Action where
  /-- `throws` says whether the body throws before its first wait, if it is run. -/
  | call (call : SimulationCall) (now : Int) (throws : Bool)
  | resume (id : Nat) (resumption : Resumption)
  | clearSimulationCache

/-! ## Steps -/

def SimulationCall.firstAwait : SimulationCall → Await
  | pairGetter .. => .instruction
  | userPositionGetter .. => .pairAccount

/-- The result of a pair getter that is still in the cache. -/
def State.cached (s : State) (call : SimulationCall) (now : Int) : Option SimulationResult :=
  match call with
  | .pairGetter .. => ((s.simulateCache call.requestKey).filter fun entry =>
      now - entry.timestamp < SIMULATE_CACHE_DURATION).map CacheEntry.result
  | .userPositionGetter .. => none

/-- The `finally` block. -/
def State.delete (s : State) (call : SimulationCall) : State :=
  { s with inFlight := Function.update s.inFlight call.key none }

def State.request (s : State) (call : SimulationCall) (throws : Bool) : State :=
  let s' := if throws then s.delete call
    else { s with pending := s.pending ++ [⟨s.nextId, call, call.firstAwait⟩] }
  { s' with
    inFlight := Function.update s'.inFlight call.key (some s.nextId)
    nextId := s.nextId + 1 }

def State.settle (s : State) (request : Request) : State :=
  { s.delete request.call with pending := s.pending.filter fun r => r.id ≠ request.id }

def State.advance (s : State) (request : Request) (awaiting : Await) : State :=
  { s with pending := s.pending.map fun r =>
      if r.id = request.id then { r with awaiting := awaiting } else r }

def State.cache (s : State) (call : SimulationCall) (values : Values) (now : Int) : State :=
  match call with
  | .pairGetter .. =>
    let entry : CacheEntry := ⟨⟨call.getterKey, values⟩, now⟩
    { s with simulateCache := Function.update s.simulateCache call.requestKey (some entry) }
  | .userPositionGetter .. => s

def State.resume (s : State) (request : Request) : Resumption → Option State
  | .rejected => some (s.settle request)
  | .fulfilled =>
    match request.awaiting with
    | .pairAccount => some (s.advance request .instruction)
    | .instruction => some (s.advance request .simulation)
    | .simulation => none
  | .simulated logs now =>
    match request.awaiting with
    | .simulation =>
      match parseSimulationLogs logs request.call.getterKey with
      | .ok values => some ((s.cache request.call values now).settle request)
      | .error _ => some (s.settle request)
    | _ => none

def step (s : State) : Action → Option State
  | .call call now throws =>
    if (s.cached call now).isSome || (s.inFlight call.key).isSome then some s
    else some (s.request call throws)
  | .resume id resumption =>
    (s.pending.find? fun r => r.id = id).bind fun request => s.resume request resumption
  | .clearSimulationCache =>
    some { s with simulateCache := fun _ => none, inFlight := fun _ => none }

/-! ## The map and the requests -/

def State.outstanding (s : State) : List (Nat × (Simulator × String)) :=
  s.pending.map fun r => (r.id, r.call.key)

/-- A key has an entry exactly as long as the request that made it has not settled, and
there are never two requests for one key. -/
structure Sound (s : State) : Prop where
  entry : ∀ key id, s.inFlight key = some id ↔ (id, key) ∈ s.outstanding
  single : (s.outstanding.map Prod.snd).Nodup

/-- A request does not throw before it waits, and nothing is cleared while a request is
outstanding. -/
def Undisturbed (s : State) : Action → Prop
  | .call call now throws =>
    s.cached call now = none → s.inFlight call.key = none → throws = false
  | .resume _ _ => True
  | .clearSimulationCache => s.pending = []

instance (s : State) : (action : Action) → Decidable (Undisturbed s action)
  | .call call now throws => decidable_of_iff
      ((s.cached call now).isNone → (s.inFlight call.key).isNone → throws = false)
      (by simp only [Undisturbed, Option.isNone_iff_eq_none])
  | .resume _ _ => .isTrue trivial
  | .clearSimulationCache => decidable_of_iff s.pending.isEmpty List.isEmpty_iff

/-- Promises are told apart. -/
structure Fresh (s : State) : Prop where
  pending : ∀ p ∈ s.outstanding, p.1 < s.nextId
  inFlight : ∀ key, ∀ id ∈ s.inFlight key, id < s.nextId
  distinct : (s.outstanding.map Prod.fst).Nodup

variable {s t : State} {action : Action}

theorem outstanding_request (s : State) (call : SimulationCall) (throws : Bool) :
    (s.request call throws).outstanding =
      s.outstanding ++ if throws then [] else [(s.nextId, call.key)] := by
  cases throws <;> simp [State.request, State.delete, State.outstanding]

theorem inFlight_request (s : State) (call : SimulationCall) (throws : Bool) :
    (s.request call throws).inFlight = Function.update s.inFlight call.key (some s.nextId) := by
  cases throws
  · rfl
  · exact Function.update_idem _ _ _

theorem outstanding_settle (s : State) (request : Request) :
    (s.settle request).outstanding = s.outstanding.filter fun p => p.1 ≠ request.id := by
  simp [State.settle, State.delete, State.outstanding, List.filter_map, Function.comp_def]

/-- What a step does to the map and the requests. -/
inductive Outcome (s t : State) : Action → Prop where
  /-- A call is answered from the cache or joins a request, or a request goes on. -/
  | same {action : Action} (houtstanding : t.outstanding = s.outstanding)
      (hinFlight : t.inFlight = s.inFlight) (hnext : t.nextId = s.nextId)
      (haction : Undisturbed s action) : Outcome s t action
  | requested {call : SimulationCall} {now : Int} {throws : Bool}
      (hcached : s.cached call now = none) (hfree : s.inFlight call.key = none)
      (ht : t = s.request call throws) : Outcome s t (.call call now throws)
  | settled {id : Nat} {resumption : Resumption} {request : Request} (hmem : request ∈ s.pending)
      (houtstanding : t.outstanding = s.outstanding.filter fun p => p.1 ≠ request.id)
      (hinFlight : t.inFlight = Function.update s.inFlight request.call.key none)
      (hnext : t.nextId = s.nextId) : Outcome s t (.resume id resumption)
  | cleared (ht : t = { s with simulateCache := fun _ => none, inFlight := fun _ => none }) :
      Outcome s t .clearSimulationCache

theorem outcome_settle {id : Nat} {resumption : Resumption} {request : Request}
    (hmem : request ∈ s.pending) : Outcome s (s.settle request) (.resume id resumption) :=
  .settled hmem (outstanding_settle s request) rfl rfl

theorem outcome_advance {id : Nat} {resumption : Resumption} (request : Request)
    (awaiting : Await) : Outcome s (s.advance request awaiting) (.resume id resumption) := by
  refine .same ?_ rfl rfl trivial
  rw [State.outstanding, State.advance, List.map_map]
  refine List.map_congr_left fun r _ => ?_
  by_cases h : r.id = request.id
  · simp only [Function.comp_apply, if_pos h]
  · simp only [Function.comp_apply, if_neg h]

theorem outcome_of_step (h : step s action = some t) : Outcome s t action := by
  cases action with
  | call call now throws =>
    simp only [step] at h
    split at h
    · rename_i hfound
      obtain rfl := Option.some.inj h
      refine .same rfl rfl rfl fun hcached hfree => ?_
      simp [hcached, hfree] at hfound
    · rename_i hnone
      simp only [Bool.or_eq_true, Option.isSome_iff_ne_none, not_or, not_not] at hnone
      exact .requested hnone.1 hnone.2 (Option.some.inj h).symm
  | resume id resumption =>
    obtain ⟨request, hfind, h⟩ := Option.bind_eq_some_iff.mp h
    have hmem := List.mem_of_find?_eq_some hfind
    cases resumption with
    | rejected => exact Option.some.inj h ▸ outcome_settle hmem
    | fulfilled =>
      simp only [State.resume] at h
      split at h
      · exact Option.some.inj h ▸ outcome_advance request .instruction
      · exact Option.some.inj h ▸ outcome_advance request .simulation
      · cases h
    | simulated logs now =>
      simp only [State.resume] at h
      split at h
      · split at h
        · rename_i values _
          obtain rfl := Option.some.inj h
          have hcache : (s.cache request.call values now).outstanding = s.outstanding ∧
              (s.cache request.call values now).inFlight = s.inFlight ∧
                (s.cache request.call values now).nextId = s.nextId := by
            unfold State.cache
            split <;> exact ⟨rfl, rfl, rfl⟩
          refine .settled hmem ?_ ?_ hcache.2.2
          · rw [outstanding_settle, hcache.1]
          · rw [← hcache.2.1]
            rfl
        · exact Option.some.inj h ▸ outcome_settle hmem
      · cases h
  | clearSimulationCache => exact .cleared (Option.some.inj h).symm

theorem fresh_start : Fresh start :=
  ⟨fun _ h => absurd h List.not_mem_nil, fun _ id h => absurd h (Option.not_mem_none id),
    List.nodup_nil⟩

theorem sound_start : Sound start :=
  ⟨fun _ _ => iff_of_false (Option.some_ne_none _).symm List.not_mem_nil, List.nodup_nil⟩

theorem Fresh.request (h : Fresh s) (call : SimulationCall) (throws : Bool) :
    Fresh (s.request call throws) := by
  have hnext : (s.request call throws).nextId = s.nextId + 1 := rfl
  have hnew : s.nextId ∉ s.outstanding.map Prod.fst := fun hmem => by
    obtain ⟨p, hp, hid⟩ := List.mem_map.mp hmem
    exact absurd (h.pending p hp) (by omega)
  constructor
  · intro p hp
    rw [outstanding_request] at hp
    rw [hnext]
    rcases List.mem_append.mp hp with hp | hp
    · exact Nat.lt_succ_of_lt (h.pending p hp)
    · cases throws
      · exact (List.mem_singleton.mp hp) ▸ Nat.lt_succ_self _
      · exact absurd hp List.not_mem_nil
  · intro key id hid
    rw [inFlight_request] at hid
    rw [hnext]
    by_cases hkey : key = call.key
    · rw [hkey, Function.update_self] at hid
      exact Option.some.inj hid ▸ Nat.lt_succ_self _
    · rw [Function.update_of_ne hkey] at hid
      exact Nat.lt_succ_of_lt (h.inFlight key id hid)
  · rw [outstanding_request]
    cases throws
    · rw [List.map_append]
      exact h.distinct.append (List.nodup_singleton _) (List.disjoint_singleton.mpr hnew)
    · exact (List.append_nil s.outstanding).symm ▸ h.distinct

/-- Fewer requests and fewer entries are as fresh. -/
theorem Fresh.mono (h : Fresh s) (houtstanding : t.outstanding.Sublist s.outstanding)
    (hinFlight : ∀ key, ∀ id ∈ t.inFlight key, id ∈ s.inFlight key) (hnext : t.nextId = s.nextId) :
    Fresh t where
  pending p hp := hnext ▸ h.pending p (houtstanding.subset hp)
  inFlight key id hid := hnext ▸ h.inFlight key id (hinFlight key id hid)
  distinct := h.distinct.sublist (houtstanding.map _)

theorem Fresh.step (h : Fresh s) (hstep : step s action = some t) : Fresh t := by
  cases outcome_of_step hstep with
  | same houtstanding hinFlight hnext _ =>
    exact h.mono (houtstanding ▸ List.Sublist.refl _) (fun _ _ hid => hinFlight ▸ hid) hnext
  | requested _ _ ht => exact ht ▸ h.request _ _
  | @settled id resumption request _ houtstanding hinFlight hnext =>
    refine h.mono (houtstanding ▸ List.filter_sublist) (fun key id hid => ?_) hnext
    rw [hinFlight] at hid
    by_cases hkey : key = request.call.key
    · rw [hkey, Function.update_self] at hid
      exact absurd hid (Option.not_mem_none id)
    · rwa [Function.update_of_ne hkey] at hid
  | cleared ht =>
    subst ht
    exact h.mono (List.Sublist.refl _) (fun _ id hid => absurd hid (Option.not_mem_none id)) rfl

/-! ## What puts the map out of step -/

theorem Sound.request {call : SimulationCall} {throws : Bool} (hfresh : Fresh s) (h : Sound s)
    (hfree : s.inFlight call.key = none) :
    Sound (s.request call throws) ↔ throws = false := by
  have hnew : ∀ key, (s.nextId, key) ∉ s.outstanding := fun key hmem =>
    absurd (hfresh.pending _ hmem) (Nat.lt_irrefl _)
  constructor
  · intro ht
    have hentry := (ht.entry call.key s.nextId).mp (by rw [inFlight_request, Function.update_self])
    rw [outstanding_request] at hentry
    cases throws with
    | false => rfl
    | true =>
      rw [if_pos rfl, List.append_nil] at hentry
      exact absurd hentry (hnew _)
  · rintro rfl
    have hkey : call.key ∉ s.outstanding.map Prod.snd := by
      intro hmem
      obtain ⟨⟨id, key⟩, hp, rfl⟩ := List.mem_map.mp hmem
      exact Option.some_ne_none id (((h.entry _ _).mpr hp).symm.trans hfree)
    constructor
    · intro key id
      rw [inFlight_request, outstanding_request, if_neg Bool.false_ne_true, List.mem_append,
        List.mem_singleton, Prod.mk.injEq]
      by_cases hsame : key = call.key
      · have hnone : (id, call.key) ∉ s.outstanding := fun hp =>
          hkey (List.mem_map_of_mem (f := Prod.snd) hp)
        simp [hsame, hnone, eq_comm]
      · rw [Function.update_of_ne hsame, h.entry]
        simp [hsame]
    · rw [outstanding_request, if_neg Bool.false_ne_true, List.map_append]
      exact h.single.append (List.nodup_singleton _) (List.disjoint_singleton.mpr hkey)

theorem Sound.settle {request : Request} (h : Sound s) (hfresh : Fresh s)
    (hmem : request ∈ s.pending)
    (houtstanding : t.outstanding = s.outstanding.filter fun p => p.1 ≠ request.id)
    (hinFlight : t.inFlight = Function.update s.inFlight request.call.key none) : Sound t := by
  have hp : (request.id, request.call.key) ∈ s.outstanding :=
    List.mem_map_of_mem (f := fun r : Request => (r.id, r.call.key)) hmem
  constructor
  · intro key id
    rw [houtstanding, hinFlight, List.mem_filter, decide_eq_true_eq]
    by_cases hkey : key = request.call.key
    · subst hkey
      rw [Function.update_self]
      refine iff_of_false (Option.some_ne_none _).symm ?_
      rintro ⟨hid, hne⟩
      exact hne (Option.some.inj (((h.entry _ _).mpr hid).symm.trans ((h.entry _ _).mpr hp)))
    · rw [Function.update_of_ne hkey, h.entry]
      refine ⟨fun hid => ⟨hid, ?_⟩, And.left⟩
      rintro rfl
      exact hkey (congrArg Prod.snd (List.inj_on_of_nodup_map hfresh.distinct hid hp rfl))
  · rw [houtstanding]
    exact h.single.sublist (List.filter_sublist.map _)

theorem Sound.clear_iff (h : Sound s) :
    Sound { s with simulateCache := fun _ => none, inFlight := fun _ => none } ↔
      s.pending = [] := by
  constructor
  · intro ht
    refine List.eq_nil_iff_forall_not_mem.mpr fun r hr => ?_
    have hp : (r.id, r.call.key) ∈ s.outstanding :=
      List.mem_map_of_mem (f := fun r : Request => (r.id, r.call.key)) hr
    exact Option.some_ne_none _ ((ht.entry _ _).mpr hp).symm
  · intro hnil
    have houtstanding : s.outstanding = [] := by rw [State.outstanding, hnil, List.map_nil]
    refine ⟨fun key id => iff_of_false (Option.some_ne_none _).symm ?_, h.single⟩
    change (id, key) ∉ s.outstanding
    rw [houtstanding]
    exact List.not_mem_nil

theorem Sound.step_iff (hfresh : Fresh s) (h : Sound s) (hstep : step s action = some t) :
    Sound t ↔ Undisturbed s action := by
  cases outcome_of_step hstep with
  | same houtstanding hinFlight _ haction =>
    refine iff_of_true ⟨?_, ?_⟩ haction
    · rw [houtstanding, hinFlight]
      exact h.entry
    · rw [houtstanding]
      exact h.single
  | requested hcached hfree ht =>
    rw [ht, Sound.request hfresh h hfree, Undisturbed]
    exact ⟨fun hthrows _ _ => hthrows, fun hthrows => hthrows hcached hfree⟩
  | settled hmem houtstanding hinFlight _ =>
    exact iff_of_true (h.settle hfresh hmem houtstanding hinFlight) trivial
  | cleared ht => rw [ht, h.clear_iff, Undisturbed]

/-- For every interleaving of calls, settled waits and clears: the map is in step with the
requests all the time exactly if no request throws before its first wait and nothing is
cleared while a request is outstanding. -/
theorem sound_iff (actions : List Action) (s : State) (hrun : run step start actions = some s) :
    Always step Sound start actions ↔ Along step Undisturbed start actions :=
  always_iff_along (I := Fresh) (fun _ _ _ => Fresh.step) (fun _ _ _ => Sound.step_iff)
    fresh_start sound_start hrun

/-- Two calls share a request that fails, and the next call makes a new one. -/
def shared : List Action :=
  let call : SimulationCall := .userPositionGetter "pair" "position" .userLiquidationPrice
  [.call call 0 false, .call call 1 false, .resume 0 .fulfilled, .resume 0 .rejected,
    .call call 2 false]

theorem sound_iff_shared :
    (∃ s, run step start shared = some s) ∧ Along step Undisturbed start shared ∧
      Always step Sound start shared := by
  have hruns : ∃ s, run step start shared = some s :=
    Option.isSome_iff_exists.mp (by decide +kernel)
  have halong : Along step Undisturbed start shared := by decide +kernel
  obtain ⟨s, hs⟩ := hruns
  exact ⟨⟨s, hs⟩, halong, (sound_iff shared s hs).mpr halong⟩

/-! ## Requests that are not shared -/

def reservesCall : SimulationCall := .pairGetter "pair" .reserves none

/-- A request that throws at once, and a later call. -/
def thrown : List Action := [.call reservesCall 0 true, .call reservesCall 1 false]

/-- Two calls with a clear in between. -/
def cleared : List Action :=
  [.call reservesCall 0 false, .clearSimulationCache, .call reservesCall 1 false]

/-- The later call gets the promise of the failed request, and no request is made for it;
after the clear two requests for one key are outstanding. -/
theorem failed_request_blocks :
    (∃ s, run step start thrown = some s ∧ s.inFlight reservesCall.key = some 0 ∧
        s.outstanding = []) ∧
      (∃ s, run step start cleared = some s ∧
        s.outstanding = [(0, reservesCall.key), (1, reservesCall.key)]) ∧
      ¬ Always step Sound start thrown ∧ ¬ Always step Sound start cleared := by
  obtain ⟨s, hs⟩ := Option.isSome_iff_exists.mp
    (show (run step start thrown).isSome by decide +kernel)
  obtain ⟨t, ht⟩ := Option.isSome_iff_exists.mp
    (show (run step start cleared).isSome by decide +kernel)
  have hthrown : (run step start thrown).map (fun s =>
      (s.inFlight reservesCall.key, s.outstanding)) = some (some 0, []) := by decide +kernel
  have hcleared : (run step start cleared).map State.outstanding =
      some [(0, reservesCall.key), (1, reservesCall.key)] := by decide +kernel
  rw [hs, Option.map_some, Option.some.injEq, Prod.mk.injEq] at hthrown
  rw [ht, Option.map_some, Option.some.injEq] at hcleared
  refine ⟨⟨s, hs, hthrown⟩, ⟨t, ht, hcleared⟩, fun h => ?_, fun h => ?_⟩
  · have hentry := ((h.last hs).entry _ _).mp hthrown.1
    rw [hthrown.2] at hentry
    exact absurd hentry List.not_mem_nil
  · have hsingle := (h.last ht).single
    rw [hcleared] at hsingle
    exact absurd hsingle (by decide +kernel)

end PairSimulation

end OmnipairIndexer
