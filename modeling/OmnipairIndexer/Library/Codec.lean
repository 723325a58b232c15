/-
Readers of little-endian binary data, and what they accept.

A `Reader` consumes a prefix of a byte string and returns the rest with the
value it read, or fails.  It keeps no other state, so what a reader accepts can
be said without its values: a `Shape` lists the fixed-width fields, flags and
options it walks over, and `Follows` states that the reader succeeds exactly on
the byte strings of that shape.  `Follows.bind` composes the statement along
`do` notation.

`firstMatch` is the usual dispatch over discriminator tags: the candidates are
tried in order and the first one that accepts decides.
-/
import Mathlib.Data.List.Basic

namespace Codec

/-- A reader consumes bytes from the front. -/
abbrev Reader := StateT (List UInt8) Option

def littleEndian : List UInt8 → Nat
  | [] => 0
  | b :: bs => b.toNat + 256 * littleEndian bs

def bytes (n : Nat) : Reader { bs : List UInt8 // bs.length = n } := fun input =>
  if h : n ≤ input.length then
    some (⟨input.take n, by simp [h]⟩, input.drop n)
  else
    none

def unsigned (n : Nat) : Reader Nat := do
  let bs ← bytes n
  return littleEndian bs.val

def u8 : Reader UInt8 := return UInt8.ofNat (← unsigned 1)

def u16 : Reader UInt16 := return UInt16.ofNat (← unsigned 2)

def u32 : Reader UInt32 := return UInt32.ofNat (← unsigned 4)

def u64 : Reader UInt64 := return UInt64.ofNat (← unsigned 8)

def u128 : Reader (BitVec 128) := return BitVec.ofNat 128 (← unsigned 16)

def i64 : Reader Int64 := return (UInt64.ofNat (← unsigned 8)).toInt64

/-- A Boolean is one byte, `0` or `1`; any other byte is an error. -/
def bool : Reader Bool
  | 0 :: rest => some (false, rest)
  | 1 :: rest => some (true, rest)
  | _ => none

/-- An option is a Boolean tag and, after a `1`, the value. -/
def option {α : Type} (r : Reader α) : Reader (Option α) := do
  if ← bool then
    return some (← r)
  else
    return none

/-- A byte vector is its length, a `u32`, and its bytes. -/
def byteVec : Reader (List UInt8) := do
  let len ← u32
  let bs ← bytes len.toNat
  return bs.val

/-- A string is a byte vector that has to be valid UTF-8. -/
def string : Reader String := do
  let bs ← byteVec
  match String.fromUTF8? ⟨bs.toArray⟩ with
  | some s => return s
  | none => failure

/-! ## Shapes -/

/-- A field of a record, as far as acceptance is concerned. -/
inductive Shape where
  | bytes (n : Nat)
  | flag
  | optional (n : Nat)
  deriving DecidableEq, Repr

/-- What remains after fields of the given shapes, if the input has them. -/
def strip : List Shape → List UInt8 → Option (List UInt8)
  | [], input => some input
  | .bytes n :: shapes, input =>
    if n ≤ input.length then strip shapes (input.drop n) else none
  | .flag :: shapes, b :: rest => if b = 0 ∨ b = 1 then strip shapes rest else none
  | .flag :: _, [] => none
  | .optional n :: shapes, b :: rest =>
    if b = 0 then strip shapes rest
    else if b = 1 ∧ n ≤ rest.length then strip shapes (rest.drop n) else none
  | .optional _ :: _, [] => none

/-- A byte string starts with fields of the given shapes. -/
def WellFormed (shapes : List Shape) (input : List UInt8) : Prop := (strip shapes input).isSome

instance (shapes : List Shape) (input : List UInt8) : Decidable (WellFormed shapes input) :=
  inferInstanceAs (Decidable (_ = true))

/-- The reader consumes fields of these shapes and fails on anything else. -/
def Follows {α : Type} (r : Reader α) (shapes : List Shape) : Prop :=
  ∀ input, (r input).map Prod.snd = strip shapes input

theorem strip_append (as bs : List Shape) (input : List UInt8) :
    strip (as ++ bs) input = (strip as input).bind (strip bs) := by
  fun_induction strip as input with
  | case3 n shapes input h => simp [strip, h]
  | case9 n shapes b rest h0 h1 => simp [strip, h0, h1]
  | _ => simp_all [strip]

section Follows

variable {α β : Type}

theorem Follows.isSome_iff {r : Reader α} {shapes : List Shape} (h : Follows r shapes)
    (input : List UInt8) : (r input).isSome ↔ WellFormed shapes input := by
  rw [WellFormed, ← h input, Option.isSome_map]

theorem Follows.pure (a : α) : Follows (Pure.pure a : Reader α) [] := fun _ => rfl

theorem Follows.bind {r : Reader α} {k : α → Reader β} {as bs : List Shape}
    (hr : Follows r as) (hk : ∀ a, Follows (k a) bs) : Follows (r >>= k) (as ++ bs) := by
  intro input
  have hin := hr input
  rw [strip_append, ← hin]
  change ((r input).bind fun p => k p.1 p.2).map Prod.snd = _
  cases r input with
  | none => rfl
  | some p => exact hk p.1 p.2

theorem Follows.cons {r : Reader α} {k : α → Reader β} {s : Shape} {shapes : List Shape}
    (hr : Follows r [s]) (hk : ∀ a, Follows (k a) shapes) : Follows (r >>= k) (s :: shapes) :=
  hr.bind hk

theorem Follows.map {r : Reader α} {as : List Shape} (hr : Follows r as) (f : α → β) :
    Follows (r >>= fun a => Pure.pure (f a)) as := by
  have h := hr.bind fun a => Follows.pure (f a)
  rwa [List.append_nil] at h

theorem follows_bytes (n : Nat) : Follows (bytes n) [.bytes n] := by
  intro input
  unfold bytes
  by_cases h : n ≤ input.length <;> simp [h, strip]

theorem follows_unsigned (n : Nat) : Follows (unsigned n) [.bytes n] :=
  (follows_bytes n).map _

theorem follows_u8 : Follows u8 [.bytes 1] := (follows_unsigned 1).map _

theorem follows_u16 : Follows u16 [.bytes 2] := (follows_unsigned 2).map _

theorem follows_u64 : Follows u64 [.bytes 8] := (follows_unsigned 8).map _

theorem follows_u128 : Follows u128 [.bytes 16] := (follows_unsigned 16).map _

theorem follows_i64 : Follows i64 [.bytes 8] := (follows_unsigned 8).map _

theorem follows_bool : Follows bool [.flag] := by
  intro input
  unfold bool
  split
  · rfl
  · rfl
  · cases input with
    | nil => rfl
    | cons b rest => simp_all [strip]

theorem follows_option {r : Reader α} {n : Nat} (hr : Follows r [.bytes n]) :
    Follows (option r) [.optional n] := by
  intro input
  cases input with
  | nil => rfl
  | cons b rest =>
    by_cases h0 : b = 0
    · subst h0
      rfl
    by_cases h1 : b = 1
    · subst h1
      have hrest := hr rest
      have hrun : option r (1 :: rest) = (r rest).map fun p => (some p.1, p.2) := by
        change ((r rest).bind fun p => _) = _
        cases r rest <;> rfl
      rw [hrun, Option.map_map]
      change (r rest).map Prod.snd = _
      rw [hrest]
      simp [strip]
    · have hb : bool (b :: rest) = none := by
        unfold bool
        split <;> simp_all
      have hrun : option r (b :: rest) = none := by
        change ((bool (b :: rest)).bind fun p => _) = _
        rw [hb]
        rfl
      rw [hrun]
      simp [strip, h0, h1]

end Follows

/-! ## What a reader can return -/

section Yields

variable {α β : Type}

def Yields (Q : α → Prop) (r : Reader α) : Prop := ∀ input p, r input = some p → Q p.1

theorem Yields.pure {Q : α → Prop} {a : α} (h : Q a) : Yields Q (Pure.pure a : Reader α) := by
  rintro input p hp
  cases hp
  exact h

theorem Yields.bind {Q : β → Prop} {r : Reader α} {k : α → Reader β}
    (hk : ∀ a, Yields Q (k a)) : Yields Q (r >>= k) := by
  intro input p hp
  change (r input).bind (fun q => k q.1 q.2) = some p at hp
  obtain ⟨q, -, hq⟩ := Option.bind_eq_some_iff.mp hp
  exact hk q.1 q.2 p hq

end Yields

/-! ## Tagged alternatives -/

theorem exists_partner {α β : Type*} {R : α → β → Prop} {as : List α} {bs : List β}
    (h : List.Forall₂ R as bs) : ∀ a ∈ as, ∃ b ∈ bs, R a b := by
  induction h with
  | nil => simp
  | cons hab _ ih =>
    rintro a (_ | ⟨_, ha⟩)
    · exact ⟨_, List.mem_cons_self, hab⟩
    · obtain ⟨b, hb, hr⟩ := ih a ha
      exact ⟨b, List.mem_cons_of_mem _ hb, hr⟩

/-- One alternative of a tagged union: its tag and the reader of its payload. -/
structure Candidate (α : Type) where
  tag : List UInt8
  reader : Reader α

namespace Candidate

variable {α β : Type}

/-- Read what follows the tag; bytes left over at the end are ignored. -/
def decode (c : Candidate α) (data : List UInt8) : Option α :=
  if c.tag <+: data then (c.reader (data.drop c.tag.length)).map Prod.fst else none

/-- The first alternative that accepts the data decides. -/
def firstMatch (cs : List (Candidate α)) (data : List UInt8) : Option α :=
  cs.findSome? fun c => c.decode data

/-- Neither tag starts with the other, so no data carries both. -/
def Apart (c d : Candidate α) : Prop := ¬ c.tag <+: d.tag ∧ ¬ d.tag <+: c.tag

instance (c d : Candidate α) : Decidable (Apart c d) :=
  inferInstanceAs (Decidable (¬ _ ∧ ¬ _))

theorem prefix_of_decode {c : Candidate α} {data : List UInt8} {a : α}
    (h : c.decode data = some a) : c.tag <+: data := by
  unfold decode at h
  split at h
  · assumption
  · cases h

/-- An alternative accepts its tag followed by a payload of its shape. -/
theorem decode_isSome_iff {c : Candidate α} {shapes : List Shape} (hc : Follows c.reader shapes)
    (data : List UInt8) :
    (c.decode data).isSome ↔ ∃ payload, data = c.tag ++ payload ∧ WellFormed shapes payload := by
  unfold decode
  constructor
  · intro h
    split at h
    · rename_i hpre
      obtain ⟨payload, rfl⟩ := hpre
      refine ⟨payload, rfl, (hc.isSome_iff payload).mp ?_⟩
      simpa using h
    · cases h
  · rintro ⟨payload, rfl, hwf⟩
    rw [if_pos (List.prefix_append c.tag payload)]
    simpa using (hc.isSome_iff payload).mpr hwf

theorem decode_yields {Q : α → Prop} {c : Candidate α} (h : Yields Q c.reader)
    {data : List UInt8} {a : α} (ha : c.decode data = some a) : Q a := by
  unfold decode at ha
  split at ha
  · obtain ⟨p, hp, rfl⟩ := Option.map_eq_some_iff.mp ha
    exact h _ p hp
  · cases ha

theorem Apart.not_both {c d : Candidate α} (h : Apart c d) {data : List UInt8}
    (hc : c.tag <+: data) (hd : d.tag <+: data) : False :=
  (List.prefix_or_prefix_of_prefix hc hd).elim h.1 h.2

/-- With tags that exclude each other the order of the alternatives does not
matter: the data decodes to what any of them decodes it to. -/
theorem firstMatch_eq_some_iff {cs : List (Candidate α)} (hcs : cs.Pairwise Apart)
    (data : List UInt8) (a : α) :
    firstMatch cs data = some a ↔ ∃ c ∈ cs, c.decode data = some a := by
  unfold firstMatch
  constructor
  · exact List.exists_of_findSome?_eq_some
  · rintro ⟨c, hc, hdec⟩
    induction cs with
    | nil => cases hc
    | cons d ds ih =>
      rw [List.pairwise_cons] at hcs
      rw [List.findSome?_cons]
      rcases List.mem_cons.mp hc with rfl | hc
      · rw [hdec]
      · cases hd : d.decode data with
        | none => exact ih hcs.2 hc
        | some b =>
          exact ((hcs.1 c hc).not_both (prefix_of_decode hd) (prefix_of_decode hdec)).elim

end Candidate

end Codec
