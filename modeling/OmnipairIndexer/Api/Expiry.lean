/-
What a `SimpleCache` answers in a sequence of calls.

Entries that have expired are deleted on three paths: by a `get` that meets one, by
`cleanup` and by a `set` of the same key.  The cache is compared with a ledger that makes
the same calls and deletes no expired entry.  The two agree up to entries that have
expired, and time only goes forward, so an entry that the cache is without never comes to
be answered by the ledger either.

`get_of_lastSet` says what the ledger, and so the cache, answers, in terms of the calls
alone.
-/
import Mathlib.Data.List.Induction
import OmnipairIndexer.Api.Cache

namespace OmnipairIndexer

theorem CacheEntry.expired_mono {δ : Type} {entry : CacheEntry δ} {now now' : Int}
    (hnow : now ≤ now') (h : entry.expired now = true) : entry.expired now' = true := by
  refine decide_eq_true ((of_decide_eq_true h).trans_le (Millis.whole_le_whole.mpr ?_))
  omega

namespace SimpleCache

variable {δ : Type}

/-! ## Calls -/

inductive Method (δ : Type) where
  | set (key : String) (data : δ) (ttlMs : Option Millis)
  | get (key : String)
  | delete (key : String)
  | clear
  | cleanup

/-- A call, at what `Date.now()` is in it. -/
structure Call (δ : Type) where
  now : Int
  method : Method δ

def clear (_ : SimpleCache δ) : SimpleCache δ := empty

/-- The `ttlMs` of a `set` that is called without one. -/
def defaultTtl : Int := 60000

def Method.ttl (ttlMs : Option Millis) : Millis := ttlMs.getD defaultTtl

/-- What a call returns, and the cache after it. -/
def call (s : SimpleCache δ) (c : Call δ) : Option δ × SimpleCache δ :=
  match c.method with
  | .set key data ttlMs => (none, s.set key data (Method.ttl ttlMs) c.now)
  | .get key => s.get key c.now
  | .delete key => (none, s.delete key)
  | .clear => (none, s.clear)
  | .cleanup => (none, s.cleanup c.now)

/-- The calls with what they return, when `f` makes them. -/
def transcript (f : SimpleCache δ → Call δ → Option δ × SimpleCache δ) :
    SimpleCache δ → List (Call δ) → List (Call δ × Option δ)
  | _, [] => []
  | s, c :: calls => (c, (f s c).1) :: transcript f (f s c).2 calls

/-- A `get` that leaves an expired entry where it is. -/
def callKeeping (s : SimpleCache δ) (c : Call δ) : Option δ × SimpleCache δ :=
  match c.method with
  | .get key => ((s.get key c.now).1, s)
  | _ => s.call c

/-- No call comes at an earlier time than the one before it. -/
def InOrder (calls : List (Call δ)) : Prop := calls.Pairwise fun c c' => c.now ≤ c'.now

def Method.isCleanup : Method δ → Bool
  | .cleanup => true
  | _ => false

/-- The calls that take an entry of the key away or put another in its place. -/
def Method.ends (key : String) : Method δ → Prop
  | .set key' _ _ => key' = key
  | .delete key' => key' = key
  | .clear => True
  | _ => False

/-- The last `set` of the key, with no `delete` of it and no `clear` after it. -/
def LastSet (past : List (Call δ)) (key : String) (data : δ) (timestamp : Int) (ttl : Millis) :
    Prop :=
  ∃ before ttlMs later, past = before ++ ⟨timestamp, .set key data ttlMs⟩ :: later ∧
    Method.ttl ttlMs = ttl ∧ ∀ c ∈ later, ¬ c.method.ends key

/-! ## The ledger -/

/-- The same calls where nothing is deleted because it has expired. -/
def record (s : SimpleCache δ) (c : Call δ) : SimpleCache δ :=
  match c.method with
  | .set key data ttlMs => s.set key data (Method.ttl ttlMs) c.now
  | .get _ => s
  | .delete key => s.delete key
  | .clear => s.clear
  | .cleanup => s

def callRecord (s : SimpleCache δ) (c : Call δ) : Option δ × SimpleCache δ :=
  ((s.call c).1, s.record c)

/-- The key has the same entry, or none where the ledger has an expired one. -/
def AgreeAt (now : Int) : Option (CacheEntry δ) → Option (CacheEntry δ) → Prop :=
  fun found recorded =>
    found = recorded ∨ found = none ∧ ∃ entry, recorded = some entry ∧ entry.expired now = true

def Agree (now : Int) (s ledger : SimpleCache δ) : Prop :=
  ∀ key, AgreeAt now (s.cache key) (ledger.cache key)

theorem get_fst (s : SimpleCache δ) (key : String) (now : Int) :
    (s.get key now).1 =
      ((s.cache key).filter fun entry => !entry.expired now).map CacheEntry.data := by
  unfold get
  cases s.cache key with
  | none => rfl
  | some entry => cases hexpired : entry.expired now <;> simp [hexpired]

theorem get_snd (s : SimpleCache δ) (key : String) (now : Int) :
    (s.get key now).2 = s ∨ ∃ entry, s.cache key = some entry ∧ entry.expired now = true ∧
      (s.get key now).2 = s.delete key := by
  unfold get
  cases s.cache key with
  | none => exact Or.inl rfl
  | some entry =>
    cases hexpired : entry.expired now with
    | false => exact Or.inl (by simp [hexpired])
    | true => exact Or.inr ⟨entry, rfl, hexpired, by simp [hexpired]⟩

theorem cache_cleanup (s : SimpleCache δ) (key : String) (now : Int) :
    (s.cleanup now).cache key = (s.cache key).filter fun entry => !entry.expired now := rfl

section Agree

variable {s ledger : SimpleCache δ} {now now' : Int}

theorem agree_refl (now : Int) (s : SimpleCache δ) : Agree now s s := fun _ => Or.inl rfl

theorem Agree.mono (h : Agree now s ledger) (hnow : now ≤ now') : Agree now' s ledger := by
  intro key
  rcases h key with hsame | ⟨hnone, entry, hentry, hexpired⟩
  · exact Or.inl hsame
  · exact Or.inr ⟨hnone, entry, hentry, CacheEntry.expired_mono hnow hexpired⟩

/-- Both caches take the same value for a key. -/
theorem Agree.update (h : Agree now s ledger) (key : String) (value : Option (CacheEntry δ)) :
    Agree now ⟨Function.update s.cache key value⟩ ⟨Function.update ledger.cache key value⟩ := by
  intro key'
  by_cases hk : key' = key
  · subst hk
    exact Or.inl (by simp only [Function.update_self])
  · simp only [Function.update_of_ne hk]
    exact h key'

/-- An expired entry is deleted on one side only. -/
theorem Agree.drop (h : Agree now s ledger) {key : String} {entry : CacheEntry δ}
    (hentry : s.cache key = some entry) (hexpired : entry.expired now = true) :
    Agree now (s.delete key) ledger := by
  intro key'
  by_cases hk : key' = key
  · subst hk
    rcases h key' with hsame | ⟨hnone, -⟩
    · exact Or.inr ⟨Function.update_self _ _ _, entry, hsame ▸ hentry, hexpired⟩
    · rw [hnone] at hentry
      cases hentry
  · rcases h key' with hsame | hgone
    · exact Or.inl ((Function.update_of_ne hk _ _).trans hsame)
    · exact Or.inr ⟨(Function.update_of_ne hk _ _).trans hgone.1, hgone.2⟩

theorem Agree.cleanup (h : Agree now s ledger) : Agree now (s.cleanup now) ledger := by
  intro key
  rw [cache_cleanup]
  rcases h key with hsame | ⟨hnone, hgone⟩
  · cases hentry : s.cache key with
    | none => exact Or.inl (by rw [← hsame, hentry]; rfl)
    | some entry =>
      have hledger : ledger.cache key = some entry := hsame ▸ hentry
      cases hexpired : entry.expired now with
      | false => exact Or.inl (by rw [hledger]; simp only [Option.filter_some, hexpired]; rfl)
      | true =>
        exact Or.inr ⟨by simp only [Option.filter_some, hexpired]; rfl, entry, hledger, hexpired⟩
  · exact Or.inr ⟨by rw [hnone]; rfl, hgone⟩

theorem Agree.get_eq (h : Agree now s ledger) (key : String) :
    (s.get key now).1 = (ledger.get key now).1 := by
  rw [get_fst, get_fst]
  rcases h key with hsame | ⟨hnone, entry, hentry, hexpired⟩
  · rw [hsame]
  · rw [hnone, hentry]
    simp only [Option.filter_some, hexpired]
    rfl

theorem Agree.get (h : Agree now s ledger) (key : String) :
    Agree now (s.get key now).2 ledger := by
  rcases get_snd s key now with hsame | ⟨entry, hentry, hexpired, hdelete⟩
  · rw [hsame]
    exact h
  · rw [hdelete]
    exact h.drop hentry hexpired

end Agree

/-! ## Transcripts -/

/-- `f` answers as the cache does, and keeps as much as the ledger up to expired entries. -/
structure Purges (f : SimpleCache δ → Call δ → Option δ × SimpleCache δ) : Prop where
  answer : ∀ s c, (f s c).1 = (s.call c).1
  agree : ∀ {s ledger c}, Agree c.now s ledger → Agree c.now (f s c).2 (ledger.record c)

theorem purges_call : Purges (call (δ := δ)) where
  answer _ _ := rfl
  agree {s ledger c} h := by
    obtain ⟨now, method⟩ := c
    cases method with
    | set key data ttlMs => exact h.update key _
    | get key => exact h.get key
    | delete key => exact h.update key none
    | clear => exact agree_refl now empty
    | cleanup => exact h.cleanup

theorem purges_callKeeping : Purges (callKeeping (δ := δ)) where
  answer s c := by
    obtain ⟨now, method⟩ := c
    cases method <;> rfl
  agree {s ledger c} h := by
    obtain ⟨now, method⟩ := c
    cases method with
    | get key => exact h
    | set | delete | clear | cleanup => exact purges_call.agree h

theorem call_answer_eq {s ledger : SimpleCache δ} {c : Call δ} (h : Agree c.now s ledger) :
    (s.call c).1 = (ledger.call c).1 := by
  obtain ⟨now, method⟩ := c
  cases method with
  | get key => exact h.get_eq key
  | set | delete | clear | cleanup => rfl

theorem Purges.transcript_eq {f : SimpleCache δ → Call δ → Option δ × SimpleCache δ}
    (hf : Purges f) {calls : List (Call δ)} :
    ∀ {s ledger : SimpleCache δ} {now : Int}, Agree now s ledger → InOrder calls →
      (∀ c ∈ calls, now ≤ c.now) →
      transcript f s calls = transcript callRecord ledger calls := by
  induction calls with
  | nil => exact fun _ _ _ => rfl
  | cons c calls ih =>
    intro s ledger now h hclock hnow
    obtain ⟨hlater, hrest⟩ := List.pairwise_cons.mp hclock
    have hc : Agree c.now s ledger := h.mono (hnow c List.mem_cons_self)
    rw [transcript, transcript, hf.answer s c, call_answer_eq hc,
      ih (hf.agree hc) hrest hlater]
    rfl

/-- A cache that purges answers as the ledger does. -/
theorem Purges.transcript_empty {f : SimpleCache δ → Call δ → Option δ × SimpleCache δ}
    (hf : Purges f) {calls : List (Call δ)} (hclock : InOrder calls) :
    transcript f empty calls = transcript callRecord empty calls := by
  cases calls with
  | nil => rfl
  | cons c calls =>
    refine hf.transcript_eq (agree_refl c.now empty) hclock fun c' hc' => ?_
    rcases List.mem_cons.mp hc' with rfl | hmem
    · exact le_rfl
    · exact (List.pairwise_cons.mp hclock).1 c' hmem

def notCleanup (c : Call δ) : Bool := !c.method.isCleanup

theorem transcript_record_filter (calls : List (Call δ)) :
    ∀ ledger : SimpleCache δ, (transcript callRecord ledger calls).filter (notCleanup ·.1) =
      transcript callRecord ledger (calls.filter notCleanup) := by
  induction calls with
  | nil => exact fun _ => rfl
  | cons c calls ih =>
    intro ledger
    obtain ⟨now, method⟩ := c
    cases method with
    | cleanup => exact ih ledger
    | set | get | delete | clear => exact congrArg _ (ih _)

theorem transcript_record_append (past calls : List (Call δ)) :
    ∀ ledger : SimpleCache δ, transcript callRecord ledger (past ++ calls) =
      transcript callRecord ledger past ++
        transcript callRecord (past.foldl record ledger) calls := by
  induction past with
  | nil => exact fun _ => rfl
  | cons c past ih => exact fun ledger => congrArg (List.cons _) (ih _)

theorem length_transcript (f : SimpleCache δ → Call δ → Option δ × SimpleCache δ)
    (calls : List (Call δ)) : ∀ s, (transcript f s calls).length = calls.length := by
  induction calls with
  | nil => exact fun _ => rfl
  | cons c calls ih => exact fun s => congrArg Nat.succ (ih _)

/-! ## What the ledger has -/

/-- A call that does not end the entry of a key leaves it there. -/
theorem record_of_not_ends {key : String} {c : Call δ} (ledger : SimpleCache δ)
    (h : ¬ c.method.ends key) : (ledger.record c).cache key = ledger.cache key := by
  obtain ⟨now, method⟩ := c
  cases method with
  | set key' data ttlMs => exact Function.update_of_ne (Ne.symm h) _ _
  | delete key' => exact Function.update_of_ne (Ne.symm h) _ _
  | get | cleanup => rfl
  | clear => exact absurd trivial h

theorem foldl_record_of_not_ends {key : String} {later : List (Call δ)} :
    ∀ {ledger : SimpleCache δ}, (∀ c ∈ later, ¬ c.method.ends key) →
      (later.foldl record ledger).cache key = ledger.cache key := by
  induction later with
  | nil => exact fun _ => rfl
  | cons c later ih =>
    intro ledger h
    obtain ⟨hc, hlater⟩ := List.forall_mem_cons.mp h
    exact (ih hlater).trans (record_of_not_ends ledger hc)

theorem LastSet.recorded {past : List (Call δ)} {key : String} {data : δ} {timestamp : Int}
    {ttl : Millis} (h : LastSet past key data timestamp ttl) :
    (past.foldl record empty).cache key = some ⟨data, timestamp, ttl⟩ := by
  obtain ⟨before, ttlMs, later, rfl, rfl, hlater⟩ := h
  rw [List.foldl_append, List.foldl_cons, foldl_record_of_not_ends hlater]
  exact Function.update_self _ _ _

theorem LastSet.snoc {past : List (Call δ)} {key : String} {data : δ} {timestamp : Int}
    {ttl : Millis} {c : Call δ} (h : LastSet past key data timestamp ttl)
    (hc : ¬ c.method.ends key) : LastSet (past ++ [c]) key data timestamp ttl := by
  obtain ⟨before, ttlMs, later, rfl, httl, hlater⟩ := h
  refine ⟨before, ttlMs, later ++ [c], by rw [List.append_assoc, List.cons_append], httl, ?_⟩
  intro c' hc'
  rcases List.mem_append.mp hc' with hmem | hmem
  · exact hlater c' hmem
  · rw [List.mem_singleton.mp hmem]
    exact hc

theorem lastSet_of_recorded {key : String} {entry : CacheEntry δ} {past : List (Call δ)}
    (h : (past.foldl record empty).cache key = some entry) :
    LastSet past key entry.data entry.timestamp entry.ttl := by
  induction past using List.reverseRecOn with
  | nil => cases h
  | append_singleton past c ih =>
    rw [List.foldl_append, List.foldl_cons, List.foldl_nil] at h
    by_cases hends : c.method.ends key
    · obtain ⟨now, method⟩ := c
      cases method with
      | set key' data ttlMs =>
        -- the call itself is the last `set` of the key
        obtain rfl : key' = key := hends
        change Function.update (past.foldl record empty).cache key'
          (some ⟨data, now, Method.ttl ttlMs⟩) key' = some entry at h
        rw [Function.update_self] at h
        cases h
        exact ⟨past, ttlMs, [], rfl, rfl, fun _ hc => absurd hc List.not_mem_nil⟩
      | delete key' =>
        obtain rfl : key' = key := hends
        change Function.update (past.foldl record empty).cache key' none key' = some entry at h
        rw [Function.update_self] at h
        cases h
      | clear => cases h
      | get | cleanup => exact absurd hends not_false
    · rw [record_of_not_ends _ hends] at h
      exact (ih h).snoc hends

theorem get_recorded_iff {past : List (Call δ)} {key : String} {now : Int} {data : δ} :
    ((past.foldl record empty).get key now).1 = some data ↔
      ∃ timestamp ttl, LastSet past key data timestamp ttl ∧
        Millis.whole (now - timestamp) ≤ ttl := by
  rw [get_fst, Option.map_eq_some_iff]
  constructor
  · rintro ⟨entry, hentry, rfl⟩
    obtain ⟨hrecorded, hfresh⟩ := Option.filter_eq_some_iff.mp hentry
    refine ⟨entry.timestamp, entry.ttl, lastSet_of_recorded hrecorded, ?_⟩
    rw [Bool.not_eq_true', CacheEntry.expired, decide_eq_false_iff_not] at hfresh
    exact not_lt.mp hfresh
  · rintro ⟨timestamp, ttl, hlast, hfresh⟩
    refine ⟨⟨data, timestamp, ttl⟩, Option.filter_eq_some_iff.mpr ⟨hlast.recorded, ?_⟩, rfl⟩
    rw [Bool.not_eq_true', CacheEntry.expired, decide_eq_false_iff_not]
    exact not_lt.mpr hfresh

/-- In a sequence of calls each `get` answers with the last `set` of its key, if it is not
older than its time to live, and with nothing otherwise.  Neither `cleanup` calls nor the
deletions that a `get` makes change what another call returns. -/
theorem get_of_lastSet (calls : List (Call δ)) (hclock : InOrder calls) :
    (∀ past now key later, calls = past ++ ⟨now, .get key⟩ :: later →
      ∃ found, (transcript call empty calls)[past.length]? = some (⟨now, .get key⟩, found) ∧
        ∀ data, found = some data ↔ ∃ timestamp ttl, LastSet past key data timestamp ttl ∧
          Millis.whole (now - timestamp) ≤ ttl) ∧
    (∀ calls', InOrder calls' → calls'.filter notCleanup = calls.filter notCleanup →
      (transcript call empty calls').filter (notCleanup ·.1) =
        (transcript call empty calls).filter (notCleanup ·.1)) ∧
    transcript callKeeping empty calls = transcript call empty calls := by
  refine ⟨?_, ?_, ?_⟩
  · rintro past now key later rfl
    refine ⟨((past.foldl record empty).get key now).1, ?_, fun _ => get_recorded_iff⟩
    rw [purges_call.transcript_empty hclock, transcript_record_append,
      List.getElem?_append_right (length_transcript _ _ _).le, length_transcript, Nat.sub_self]
    rfl
  · intro calls' hclock' hsame
    rw [purges_call.transcript_empty hclock, purges_call.transcript_empty hclock',
      transcript_record_filter, transcript_record_filter, hsame]
  · rw [purges_callKeeping.transcript_empty hclock, purges_call.transcript_empty hclock]

/-- An entry that is met again on the last millisecond of its time, cleaned up and then
missed. -/
def metTwice : List (Call Nat) :=
  [⟨0, .set "pair_state_8hHk" 7 (some (5000 : Int))⟩, ⟨5000, .get "pair_state_8hHk"⟩,
    ⟨5001, .cleanup⟩, ⟨5001, .get "pair_state_8hHk"⟩]

theorem get_of_lastSet_metTwice :
    InOrder metTwice ∧
      ∃ found, (transcript call empty metTwice)[1]? =
        some (⟨5000, .get "pair_state_8hHk"⟩, found) ∧
        ∀ data, found = some data ↔ ∃ timestamp ttl,
          LastSet (metTwice.take 1) "pair_state_8hHk" data timestamp ttl ∧
            Millis.whole (5000 - timestamp) ≤ ttl := by
  have hclock : InOrder metTwice := by
    simp only [InOrder, metTwice, List.pairwise_cons, List.mem_cons, List.not_mem_nil]
    grind
  exact ⟨hclock, (get_of_lastSet metTwice hclock).1 (metTwice.take 1) 5000 _ _ rfl⟩

end SimpleCache

end OmnipairIndexer
