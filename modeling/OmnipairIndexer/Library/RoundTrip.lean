/-
Writers for the readers of `Codec`, and readers that invert them.

`Inverts P r w` states both halves of a round trip in one equivalence: `r` reads
`a` exactly from the inputs that start with `w a`, for the values `a` with `P`,
and it reads nothing else.  So the values a reader can return are the values
that can be written, and what it consumes is what would be written for them.
`P` holds the bounds that the types do not carry: a vector has to be short
enough for its length field.

A record is read field by field.  The simp lemmas about sequencing turn its
reader into a conjunction of the fields' equations, which is the writer's
equation after the fields that are determined are eliminated.
-/
import Mathlib.Algebra.Group.Nat.Defs
import Mathlib.Data.List.Forall2
import OmnipairIndexer.Library.Codec

namespace Codec

/-- `r` reads the values with `P` from what `w` writes for them, and nothing else. -/
abbrev Inverts {α : Type} (P : α → Prop) (r : Reader α) (w : α → List UInt8) : Prop :=
  ∀ input a rest, r input = some (a, rest) ↔ P a ∧ input = w a ++ rest

/-- Any value of the type can be written. -/
abbrev Any {α : Type} : α → Prop := fun _ => True

/-! ## Sequencing -/

section Sequencing

variable {α β : Type}

@[simp] theorem bind_eq_some {r : Reader α} {k : α → Reader β} {input rest : List UInt8} {b : β} :
    (r >>= k) input = some (b, rest) ↔
      ∃ a mid, r input = some (a, mid) ∧ k a mid = some (b, rest) := by
  change (r input).bind (fun p => k p.1 p.2) = _ ↔ _
  rw [Option.bind_eq_some_iff]
  exact Prod.exists

@[simp] theorem map_eq_some {r : Reader α} {f : α → β} {input rest : List UInt8} {b : β} :
    (f <$> r) input = some (b, rest) ↔ ∃ a, r input = some (a, rest) ∧ f a = b := by
  change (r input).bind (fun p => some (f p.1, p.2)) = _ ↔ _
  rw [Option.bind_eq_some_iff]
  constructor
  · rintro ⟨⟨a, mid⟩, ha, heq⟩
    simp only [Option.some.injEq, Prod.mk.injEq] at heq
    exact ⟨a, heq.2 ▸ ha, heq.1⟩
  · rintro ⟨a, ha, rfl⟩
    exact ⟨(a, rest), ha, rfl⟩

@[simp] theorem pure_eq_some {a b : α} {input rest : List UInt8} :
    (pure a : Reader α) input = some (b, rest) ↔ a = b ∧ input = rest := by
  change some (a, input) = _ ↔ _
  rw [Option.some.injEq, Prod.mk.injEq]

/-- A value read under another name: `f` renames it and `g` takes it back. -/
theorem Inverts.rename {P : α → Prop} {Q : β → Prop} {r : Reader α} {w : α → List UInt8}
    (h : Inverts P r w) (f : α → β) (g : β → α) (hf : ∀ a, P a → Q (f a) ∧ g (f a) = a)
    (hg : ∀ b, Q b → P (g b) ∧ f (g b) = b) :
    Inverts Q (r >>= fun a => pure (f a)) fun b => w (g b) := by
  intro input b rest
  simp only [bind_eq_some, pure_eq_some, h input]
  constructor
  · rintro ⟨a, mid, ⟨ha, rfl⟩, rfl, rfl⟩
    obtain ⟨hq, hback⟩ := hf a ha
    exact ⟨hq, by rw [hback]⟩
  · rintro ⟨hb, rfl⟩
    obtain ⟨hp, hback⟩ := hg b hb
    exact ⟨g b, rest, ⟨hp, rfl⟩, hback, rfl⟩

end Sequencing

/-! ## Fixed-width integers -/

/-- The `n` low bytes of a number, least significant first. -/
def leBytes : (n value : Nat) → List UInt8
  | 0, _ => []
  | n + 1, value => UInt8.ofNat value :: leBytes n (value / 256)

@[simp] theorem length_leBytes (n value : Nat) : (leBytes n value).length = n := by
  induction n generalizing value with
  | zero => rfl
  | succ n ih => simp [leBytes, ih]

theorem littleEndian_leBytes (n : Nat) {value : Nat} (h : value < 256 ^ n) :
    littleEndian (leBytes n value) = value := by
  induction n generalizing value with
  | zero =>
    rw [Nat.pow_zero, Nat.lt_one_iff] at h
    rw [h]
    rfl
  | succ n ih =>
    have hquot : value / 256 < 256 ^ n := by
      rw [Nat.div_lt_iff_lt_mul (by decide)]
      rwa [Nat.pow_succ] at h
    rw [leBytes, littleEndian, ih hquot, UInt8.toNat_ofNat']
    omega

theorem littleEndian_lt (bs : List UInt8) : littleEndian bs < 256 ^ bs.length := by
  induction bs with
  | nil => simp [littleEndian]
  | cons b bs ih =>
    have hb := b.toNat_lt
    rw [littleEndian, List.length_cons, Nat.pow_succ]
    omega

theorem leBytes_littleEndian (bs : List UInt8) : leBytes bs.length (littleEndian bs) = bs := by
  induction bs with
  | nil => rfl
  | cons b bs ih =>
    have hb := b.toNat_lt
    have hlow : UInt8.ofNat (b.toNat + 256 * littleEndian bs) = b := by
      rw [← UInt8.toNat_inj, UInt8.toNat_ofNat']
      omega
    have hquot : (b.toNat + 256 * littleEndian bs) / 256 = littleEndian bs := by omega
    rw [List.length_cons, littleEndian, leBytes, hlow, hquot, ih]

theorem bytes_eq_some {n : Nat} {input rest : List UInt8}
    {bs : { bs : List UInt8 // bs.length = n }} :
    bytes n input = some (bs, rest) ↔ input = bs.val ++ rest := by
  obtain ⟨bs, rfl⟩ := bs
  unfold bytes
  constructor
  · intro h
    split at h
    · simp only [Option.some.injEq, Prod.mk.injEq, Subtype.mk.injEq] at h
      rw [← h.1, ← h.2, List.take_append_drop]
    · cases h
  · rintro rfl
    simp

theorem inverts_unsigned (n : Nat) : Inverts (· < 256 ^ n) (unsigned n) (leBytes n) := by
  intro input value rest
  simp only [unsigned, bind_eq_some, pure_eq_some, bytes_eq_some]
  constructor
  · rintro ⟨bs, mid, rfl, rfl, rfl⟩
    have hlt := littleEndian_lt bs.val
    have hback := leBytes_littleEndian bs.val
    rw [bs.property] at hlt hback
    rw [hback]
    exact ⟨hlt, rfl⟩
  · rintro ⟨h, rfl⟩
    exact ⟨⟨leBytes n value, length_leBytes n value⟩, rest, rfl, littleEndian_leBytes n h, rfl⟩

def u8Bytes (x : UInt8) : List UInt8 := leBytes 1 x.toNat

def u16Bytes (x : UInt16) : List UInt8 := leBytes 2 x.toNat

def u32Bytes (x : UInt32) : List UInt8 := leBytes 4 x.toNat

def u64Bytes (x : UInt64) : List UInt8 := leBytes 8 x.toNat

def u128Bytes (x : BitVec 128) : List UInt8 := leBytes 16 x.toNat

def i64Bytes (x : Int64) : List UInt8 := leBytes 8 x.toUInt64.toNat

@[simp] theorem inverts_u8 : Inverts Any u8 u8Bytes :=
  (inverts_unsigned 1).rename UInt8.ofNat UInt8.toNat
    (fun _ h => ⟨trivial, UInt8.toNat_ofNat_of_lt' h⟩)
    fun x _ => ⟨x.toNat_lt, UInt8.ofNat_toNat⟩

@[simp] theorem inverts_u16 : Inverts Any u16 u16Bytes :=
  (inverts_unsigned 2).rename UInt16.ofNat UInt16.toNat
    (fun _ h => ⟨trivial, UInt16.toNat_ofNat_of_lt' h⟩)
    fun x _ => ⟨x.toNat_lt, UInt16.ofNat_toNat⟩

@[simp] theorem inverts_u32 : Inverts Any u32 u32Bytes :=
  (inverts_unsigned 4).rename UInt32.ofNat UInt32.toNat
    (fun _ h => ⟨trivial, UInt32.toNat_ofNat_of_lt' h⟩)
    fun x _ => ⟨x.toNat_lt, UInt32.ofNat_toNat⟩

@[simp] theorem inverts_u64 : Inverts Any u64 u64Bytes :=
  (inverts_unsigned 8).rename UInt64.ofNat UInt64.toNat
    (fun _ h => ⟨trivial, UInt64.toNat_ofNat_of_lt' h⟩)
    fun x _ => ⟨x.toNat_lt, UInt64.ofNat_toNat⟩

@[simp] theorem inverts_u128 : Inverts Any u128 u128Bytes :=
  (inverts_unsigned 16).rename (BitVec.ofNat 128) BitVec.toNat
    (fun value h => ⟨trivial, by simpa using Nat.mod_eq_of_lt h⟩)
    fun x _ => ⟨x.isLt, by simp⟩

@[simp] theorem inverts_i64 : Inverts Any i64 i64Bytes :=
  (inverts_unsigned 8).rename (fun value => (UInt64.ofNat value).toInt64)
    (fun x => x.toUInt64.toNat)
    (fun _ h => ⟨trivial, by simpa using UInt64.toNat_ofNat_of_lt' h⟩)
    fun x _ => ⟨x.toUInt64.toNat_lt, by simp⟩

/-! ## Flags, options and vectors -/

def boolBytes (b : Bool) : List UInt8 := [if b then 1 else 0]

@[simp] theorem inverts_bool : Inverts Any bool boolBytes := by
  intro input b rest
  unfold bool boolBytes
  split
  · cases b <;> simp
  · cases b <;> simp
  · cases b <;> simp_all

/-- What `option` reads: the tag and, behind a `1`, the value. -/
def optionBytes {α : Type} (w : α → List UInt8) : Option α → List UInt8
  | none => [0]
  | some a => 1 :: w a

/-- An absent value can always be written. -/
def OnSome {α : Type} (P : α → Prop) : Option α → Prop
  | none => True
  | some a => P a

@[simp] theorem onSome_any {α : Type} (a : Option α) : OnSome Any a := by
  cases a <;> trivial

theorem Inverts.option {α : Type} {P : α → Prop} {r : Reader α} {w : α → List UInt8}
    (h : Inverts P r w) : Inverts (OnSome P) (option r) (optionBytes w) := by
  intro input a rest
  simp only [Codec.option, bind_eq_some, inverts_bool input]
  constructor
  · rintro ⟨tag, mid, ⟨-, rfl⟩, hread⟩
    cases tag with
    | false =>
      obtain ⟨rfl, rfl⟩ := pure_eq_some.mp hread
      exact ⟨trivial, rfl⟩
    | true =>
      obtain ⟨v, mid', hv, hpure⟩ := bind_eq_some.mp hread
      obtain ⟨rfl, rfl⟩ := pure_eq_some.mp hpure
      obtain ⟨hp, rfl⟩ := (h _ _ _).mp hv
      exact ⟨hp, rfl⟩
  · rintro ⟨hp, rfl⟩
    cases a with
    | none => exact ⟨false, rest, ⟨trivial, rfl⟩, rfl⟩
    | some v =>
      refine ⟨true, w v ++ rest, ⟨trivial, rfl⟩, ?_⟩
      exact bind_eq_some.mpr ⟨v, rest, (h _ _ _).mpr ⟨hp, rfl⟩, rfl⟩

def byteVecBytes (bs : List UInt8) : List UInt8 := u32Bytes (UInt32.ofNat bs.length) ++ bs

@[simp] theorem inverts_byteVec : Inverts (·.length < 2 ^ 32) byteVec byteVecBytes := by
  intro input bs rest
  simp only [byteVec, bind_eq_some, pure_eq_some, bytes_eq_some, inverts_u32 input]
  constructor
  · rintro ⟨len, mid, ⟨-, rfl⟩, payload, mid', rfl, rfl, rfl⟩
    rw [byteVecBytes, payload.property, UInt32.ofNat_toNat, List.append_assoc]
    exact ⟨len.toNat_lt, rfl⟩
  · rintro ⟨h, rfl⟩
    have hlen : (UInt32.ofNat bs.length).toNat = bs.length := UInt32.toNat_ofNat_of_lt' h
    refine ⟨UInt32.ofNat bs.length, bs ++ rest, ⟨trivial, ?_⟩, ⟨bs, hlen.symm⟩, rest, rfl, rfl, rfl⟩
    rw [byteVecBytes, List.append_assoc]

/-- The length of the string fits its length field. -/
def Short (s : String) : Prop := s.toByteArray.data.toList.length < 2 ^ 32

def stringBytes (s : String) : List UInt8 := byteVecBytes s.toByteArray.data.toList

theorem fromUTF8?_eq_some {bs : ByteArray} {s : String} :
    String.fromUTF8? bs = some s ↔ bs = s.toByteArray := by
  unfold String.fromUTF8?
  constructor
  · intro h
    split at h
    · cases h
      rfl
    · cases h
  · rintro rfl
    exact dif_pos s.isValidUTF8

@[simp] theorem inverts_string : Inverts Short string stringBytes := by
  intro input s rest
  simp only [string, bind_eq_some, inverts_byteVec input]
  constructor
  · rintro ⟨bs, mid, ⟨hlen, rfl⟩, hread⟩
    cases ht : String.fromUTF8? ⟨bs.toArray⟩ with
    | none =>
      rw [ht] at hread
      cases hread
    | some t =>
      rw [ht] at hread
      obtain ⟨rfl, rfl⟩ := pure_eq_some.mp hread
      have hbs : t.toByteArray.data.toList = bs := by
        rw [← fromUTF8?_eq_some.mp ht]
      rw [Short, stringBytes, hbs]
      exact ⟨hlen, rfl⟩
  · rintro ⟨hlen, rfl⟩
    refine ⟨s.toByteArray.data.toList, rest, ⟨hlen, rfl⟩, ?_⟩
    have hback : String.fromUTF8? ⟨s.toByteArray.data.toList.toArray⟩ = some s :=
      fromUTF8?_eq_some.mpr rfl
    rw [hback]
    rfl

/-! ## Tagged alternatives -/

/-- The values of one alternative among those of the union: `w'` writes a value
`f a` the way `w` writes `a`. -/
theorem Inverts.variant {α β : Type} {P : α → Prop} {r : Reader α} {w : α → List UInt8}
    (h : Inverts P r w) (f : α → β) {w' : β → List UInt8} (hw : ∀ a, w' (f a) = w a) :
    Inverts (fun b => ∃ a, P a ∧ f a = b) (r >>= fun a => pure (f a)) w' := by
  intro input b rest
  simp only [bind_eq_some, pure_eq_some, h input]
  constructor
  · rintro ⟨a, mid, ⟨ha, rfl⟩, rfl, rfl⟩
    exact ⟨⟨a, ha, rfl⟩, by rw [hw]⟩
  · rintro ⟨⟨a, ha, rfl⟩, rfl⟩
    exact ⟨a, rest, ⟨ha, by rw [hw]⟩, rfl, rfl⟩

/-- An alternative without a payload. -/
theorem inverts_pure {β : Type} (b : β) {w : β → List UInt8} (hw : w b = []) :
    Inverts (· = b) (pure b) w := by
  intro input b' rest
  rw [pure_eq_some]
  constructor
  · rintro ⟨rfl, rfl⟩
    exact ⟨rfl, by rw [hw, List.nil_append]⟩
  · rintro ⟨rfl, rfl⟩
    exact ⟨rfl, by rw [hw, List.nil_append]⟩

namespace Candidate

variable {α : Type}

/-- An alternative decodes the data that starts with its tag and an encoding. -/
theorem decode_eq_some_iff {c : Candidate α} {P : α → Prop} {w : α → List UInt8}
    (h : Inverts P c.reader w) (data : List UInt8) (a : α) :
    c.decode data = some a ↔ P a ∧ c.tag ++ w a <+: data := by
  unfold decode
  constructor
  · intro hdec
    split at hdec
    · rename_i hpre
      obtain ⟨payload, rfl⟩ := hpre
      obtain ⟨⟨b, rest⟩, hread, rfl⟩ := Option.map_eq_some_iff.mp hdec
      rw [List.drop_left] at hread
      obtain ⟨hp, rfl⟩ := (h _ _ _).mp hread
      exact ⟨hp, rest, List.append_assoc _ _ _⟩
    · cases hdec
  · rintro ⟨hp, rest, rfl⟩
    have hread : c.reader (w a ++ rest) = some (a, rest) := (h _ _ _).mpr ⟨hp, rfl⟩
    rw [List.append_assoc, if_pos (List.prefix_append _ _), List.drop_left, hread]
    rfl

/-- The alternative reads the values with `Q`, which `w` writes behind its tag. -/
structure Serves (tagOf w : α → List UInt8) (c : Candidate α) (Q : α → Prop) : Prop where
  inverts : Inverts Q c.reader w
  tag : ∀ a, Q a → tagOf a = c.tag

/-- The values of one variant of the union: its payloads that can be written. -/
def family {β : Type} (P : β → Prop) (variant : β → α) (a : α) : Prop :=
  ∃ payload, P payload ∧ variant payload = a

theorem serves_variant {β : Type} {P : β → Prop} {r : Reader β} {w' : β → List UInt8}
    (h : Inverts P r w') {tagOf w : α → List UInt8} {tag : List UInt8} (variant : β → α)
    (hw : ∀ b, w (variant b) = w' b) (htag : ∀ b, tagOf (variant b) = tag) :
    Serves tagOf w ⟨tag, return variant (← r)⟩ (family P variant) where
  inverts := h.variant variant hw
  tag := by
    rintro _ ⟨b, -, rfl⟩
    exact htag b

/-- A tagged union whose alternatives are inverted one by one is inverted as a
whole: it decodes the data that starts with the tag and the payload of a value. -/
theorem firstMatch_eq_some_iff_prefix {tagOf w : α → List UInt8} {cs : List (Candidate α)}
    {Qs : List (α → Prop)} (hcs : cs.Pairwise Apart) (h : List.Forall₂ (Serves tagOf w) cs Qs)
    (data : List UInt8) (a : α) :
    firstMatch cs data = some a ↔ (∃ Q ∈ Qs, Q a) ∧ tagOf a ++ w a <+: data := by
  rw [firstMatch_eq_some_iff hcs]
  constructor
  · rintro ⟨c, hc, hdec⟩
    obtain ⟨Q, hQ, hserves⟩ := exists_partner h c hc
    obtain ⟨ha, hpre⟩ := (decode_eq_some_iff hserves.inverts data a).mp hdec
    rw [hserves.tag a ha]
    exact ⟨⟨Q, hQ, ha⟩, hpre⟩
  · rintro ⟨⟨Q, hQ, ha⟩, hpre⟩
    obtain ⟨c, hc, hserves⟩ := exists_partner h.flip Q hQ
    rw [hserves.tag a ha] at hpre
    exact ⟨c, hc, (decode_eq_some_iff hserves.inverts data a).mpr ⟨ha, hpre⟩⟩

end Candidate

end Codec
