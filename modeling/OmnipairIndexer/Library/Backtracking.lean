/-
Regular expressions, matched by backtracking.

`ways` lists how a pattern matches at the beginning of a text, in the order in which
a backtracking matcher tries: the first branch of an alternative before the second,
and a longer repetition before a shorter one.  A way is what the groups capture and
the text that is left.  The match at a position is the first way there, and `search`
takes the first position that has one.

A matcher that is greedy can still give back what it took.  It does not have to where
what follows a repetition cannot begin with one of the repeated characters, and then
`ways_star_seq` walks over the whole repetition in one step.
-/
import Mathlib.Data.List.Basic
import Mathlib.Data.List.Forall2
import Mathlib.Data.List.Infix

namespace Backtracking

/-- Patterns whose repetitions are of one class of characters. -/
inductive Pattern where
  | empty
  | char (p : Char → Bool)
  | star (p : Char → Bool)
  | seq (r r' : Pattern)
  | alt (r r' : Pattern)
  /-- The group with number `i`. -/
  | group (i : Nat) (r : Pattern)

structure Way where
  captures : List (Nat × List Char)
  rest : List Char

def readChar (p : Char → Bool) : List Char → List Way
  | [] => []
  | c :: cs => if p c then [⟨[], cs⟩] else []

/-- What is left after each repetition of a class, the longest first. -/
def repeats (p : Char → Bool) : List Char → List (List Char)
  | [] => [[]]
  | c :: cs => if p c then repeats p cs ++ [c :: cs] else [c :: cs]

/-- A way that comes after what has been captured. -/
def Way.after (captures : List (Nat × List Char)) (w : Way) : Way :=
  { w with captures := captures ++ w.captures }

def ways : Pattern → List Char → List Way
  | .empty, cs => [⟨[], cs⟩]
  | .char p, cs => readChar p cs
  | .star p, cs => (repeats p cs).map fun rest => ⟨[], rest⟩
  | .seq r r', cs => (ways r cs).flatMap fun w => (ways r' w.rest).map (.after w.captures)
  | .alt r r', cs => ways r cs ++ ways r' cs
  | .group i r, cs =>
    (ways r cs).map fun w => ⟨(i, cs.take (cs.length - w.rest.length)) :: w.captures, w.rest⟩

/-- The match at the first position that has one. -/
def search (r : Pattern) (cs : List Char) : Option Way :=
  cs.tails.findSome? fun tail => (ways r tail).head?

def Way.group? (w : Way) (i : Nat) : Option (List Char) := w.captures.lookup i

namespace Pattern

def plus (p : Char → Bool) : Pattern := seq (char p) (star p)

/-- One character after the other, each the `same` as the given one. -/
def word (same : Char → Char → Bool) (cs : List Char) : Pattern :=
  cs.foldr (fun c r => seq (char (same c)) r) empty

/-- Nothing that begins with a character of the class matches. -/
def Rejects (p : Char → Bool) (r : Pattern) : Prop := ∀ c cs, p c → ways r (c :: cs) = []

end Pattern

open Pattern

/-! ## Sequences -/

section Sequences

variable {p q : Char → Bool} {r r' r'' : Pattern} {c : Char} {cs rest : List Char}

@[simp] theorem after_nil (w : Way) : w.after [] = w := rfl

theorem after_after (a b : List (Nat × List Char)) (w : Way) :
    (w.after b).after a = w.after (a ++ b) := by
  simp only [Way.after, List.append_assoc]

theorem ways_seq (r r' : Pattern) (cs : List Char) :
    ways (seq r r') cs = (ways r cs).flatMap fun w => (ways r' w.rest).map (.after w.captures) :=
  rfl

theorem ways_seq_of_nil (h : ways r cs = []) : ways (seq r r') cs = [] := by
  rw [ways_seq, h, List.flatMap_nil]

/-- If the pattern goes on after the first way only, that way is taken. -/
theorem ways_seq_of_first {w : Way} {others : List Way} (h : ways r cs = w :: others)
    (hothers : ∀ w' ∈ others, ways r' w'.rest = []) :
    ways (seq r r') cs = (ways r' w.rest).map (.after w.captures) := by
  rw [ways_seq, h, List.flatMap_cons, List.flatMap_eq_nil_iff.mpr, List.append_nil]
  intro w' hw'
  rw [hothers w' hw', List.map_nil]

theorem ways_seq_of_single {w : Way} (h : ways r cs = [w]) :
    ways (seq r r') cs = (ways r' w.rest).map (.after w.captures) :=
  ways_seq_of_first h fun _ hw => absurd hw List.not_mem_nil

theorem ways_seq_assoc (r r' r'' : Pattern) (cs : List Char) :
    ways (seq (seq r r') r'') cs = ways (seq r (seq r' r'')) cs := by
  simp only [ways_seq, List.flatMap_assoc, List.flatMap_map, List.map_flatMap, List.map_map]
  refine congrArg (List.flatMap · (ways r cs)) (funext fun w => ?_)
  refine congrArg (List.flatMap · (ways r' w.rest)) (funext fun w' => ?_)
  refine congrArg (List.map · (ways r'' w'.rest)) (funext fun w'' => ?_)
  exact (after_after _ _ _).symm

theorem ways_empty_seq (r : Pattern) (cs : List Char) : ways (seq empty r) cs = ways r cs := by
  rw [ways_seq_of_single (w := ⟨[], cs⟩) rfl]
  exact List.map_id _

theorem ways_char_seq (hc : p c) : ways (seq (char p) r) (c :: cs) = ways r cs := by
  have hchar : ways (char p) (c :: cs) = [⟨[], cs⟩] := if_pos hc
  rw [ways_seq_of_single hchar]
  exact List.map_id _

theorem ways_char_seq_of_not (hc : ¬ p c) : ways (seq (char p) r) (c :: cs) = [] :=
  ways_seq_of_nil (if_neg hc)

theorem ways_char_seq_nil : ways (seq (char p) r) [] = [] := ways_seq_of_nil rfl

/-- A group captures what its first way reads, if the pattern only goes on after that. -/
theorem ways_group_seq {i : Nat} {text : List Char} {others : List Way}
    (h : ways r (text ++ rest) = ⟨[], rest⟩ :: others)
    (hothers : ∀ w' ∈ others, ways r' w'.rest = []) :
    ways (seq (group i r) r') (text ++ rest) = (ways r' rest).map (.after [(i, text)]) := by
  have htake : (text ++ rest).take ((text ++ rest).length - rest.length) = text := by
    rw [List.length_append, Nat.add_sub_cancel, List.take_left]
  refine ways_seq_of_first (w := ⟨[(i, text)], rest⟩) (by rw [ways, h, List.map_cons, htake]) ?_
  intro w' hw'
  obtain ⟨w, hw, rfl⟩ := List.mem_map.mp hw'
  exact hothers w hw

theorem ways_group_seq_of_nil {i : Nat} (h : ways r cs = []) :
    ways (seq (group i r) r') cs = [] :=
  ways_seq_of_nil (by rw [ways, h, List.map_nil])

end Sequences

/-! ## Repetitions -/

section Repetitions

variable {p q : Char → Bool} {r : Pattern} {c : Char} {cs rest : List Char}

theorem rejects_char_seq (h : ∀ c, p c → ¬ q c) : Rejects p (seq (char q) r) :=
  fun c _ hc => ways_char_seq_of_not (h c hc)

theorem rejects_char (h : ∀ c, p c → ¬ q c) : Rejects p (char q) :=
  fun c _ hc => if_neg (h c hc)

theorem repeats_of_head (hrest : ∀ c ∈ rest.head?, ¬ p c) : repeats p rest = [rest] := by
  cases rest with
  | nil => rfl
  | cons c rest => exact if_neg (hrest c rfl)

/-- The longest repetition comes first, and every other one gives a character back. -/
theorem repeats_append (hcs : ∀ c ∈ cs, p c) (hrest : ∀ c ∈ rest.head?, ¬ p c) :
    ∃ shorter, repeats p (cs ++ rest) = rest :: shorter ∧
      ∀ tail ∈ shorter, ∃ c tail', tail = c :: tail' ∧ p c := by
  induction cs with
  | nil => exact ⟨[], repeats_of_head hrest, fun tail h => absurd h List.not_mem_nil⟩
  | cons c cs ih =>
    rw [List.forall_mem_cons] at hcs
    obtain ⟨shorter, hrepeats, hshorter⟩ := ih hcs.2
    refine ⟨shorter ++ [c :: (cs ++ rest)], ?_, ?_⟩
    · rw [List.cons_append, repeats, if_pos hcs.1, hrepeats, List.cons_append]
    · intro tail htail
      rcases List.mem_append.mp htail with htail | htail
      · exact hshorter tail htail
      · exact ⟨c, cs ++ rest, List.mem_singleton.mp htail, hcs.1⟩

/-- The first way through a repetition takes all of it. -/
theorem ways_star_append (hcs : ∀ c ∈ cs, p c) (hrest : ∀ c ∈ rest.head?, ¬ p c)
    (hr : Rejects p r) :
    ∃ others, ways (star p) (cs ++ rest) = ⟨[], rest⟩ :: others ∧
      ∀ w ∈ others, ways r w.rest = [] := by
  obtain ⟨shorter, hrepeats, hshorter⟩ := repeats_append hcs hrest
  refine ⟨shorter.map fun tail => ⟨[], tail⟩, by rw [ways, hrepeats, List.map_cons], ?_⟩
  intro w hw
  obtain ⟨tail, htail, rfl⟩ := List.mem_map.mp hw
  obtain ⟨c, tail', rfl, hc⟩ := hshorter tail htail
  exact hr c tail' hc

theorem ways_plus_append (hne : cs ≠ []) (hcs : ∀ c ∈ cs, p c)
    (hrest : ∀ c ∈ rest.head?, ¬ p c) (hr : Rejects p r) :
    ∃ others, ways (plus p) (cs ++ rest) = ⟨[], rest⟩ :: others ∧
      ∀ w ∈ others, ways r w.rest = [] := by
  cases cs with
  | nil => exact absurd rfl hne
  | cons c cs =>
    rw [List.forall_mem_cons] at hcs
    rw [plus, List.cons_append, ways_char_seq hcs.1]
    exact ways_star_append hcs.2 hrest hr

/-- A repetition of which nothing can be given back. -/
theorem ways_star_seq (hcs : ∀ c ∈ cs, p c) (hrest : ∀ c ∈ rest.head?, ¬ p c)
    (hr : Rejects p r) : ways (seq (star p) r) (cs ++ rest) = ways r rest := by
  obtain ⟨others, hways, hothers⟩ := ways_star_append hcs hrest hr
  rw [ways_seq_of_first hways hothers]
  exact List.map_id _

theorem ways_plus_seq (hne : cs ≠ []) (hcs : ∀ c ∈ cs, p c) (hrest : ∀ c ∈ rest.head?, ¬ p c)
    (hr : Rejects p r) : ways (seq (plus p) r) (cs ++ rest) = ways r rest := by
  obtain ⟨others, hways, hothers⟩ := ways_plus_append hne hcs hrest hr
  rw [ways_seq_of_first hways hothers]
  exact List.map_id _

theorem ways_group_plus_seq {i : Nat} (hne : cs ≠ []) (hcs : ∀ c ∈ cs, p c)
    (hrest : ∀ c ∈ rest.head?, ¬ p c) (hr : Rejects p r) :
    ways (seq (group i (plus p)) r) (cs ++ rest) = (ways r rest).map (.after [(i, cs)]) := by
  obtain ⟨others, hways, hothers⟩ := ways_plus_append hne hcs hrest hr
  exact ways_group_seq hways hothers

theorem ways_plus_of_not (hc : ¬ p c) : ways (plus p) (c :: cs) = [] := ways_char_seq_of_not hc

end Repetitions

/-! ## Words -/

section Words

variable {same : Char → Char → Bool} {r : Pattern} {w cs : List Char}

theorem ways_word_seq {text : List Char} (h : List.Forall₂ (fun c d => same c d) w text)
    (cs : List Char) : ways (seq (word same w) r) (text ++ cs) = ways r cs := by
  induction h with
  | nil => exact ways_empty_seq r cs
  | cons hsame _ ih =>
    rw [word, List.foldr_cons, ways_seq_assoc, List.cons_append, ways_char_seq hsame]
    exact ih

theorem ways_same_seq (hsame : ∀ c, same c c) (text cs : List Char) :
    ways (seq (word same text) r) (text ++ cs) = ways r cs :=
  ways_word_seq (List.forall₂_same.mpr fun c _ => hsame c) cs

theorem ways_word_seq_of_not {c d : Char} (h : ¬ same c d) :
    ways (seq (word same (c :: w)) r) (d :: cs) = [] := by
  rw [word, List.foldr_cons, ways_seq_assoc, ways_char_seq_of_not h]

/-- A text with a match begins with the word. -/
theorem exists_of_ways_word_seq (h : ways (seq (word same w) r) cs ≠ []) :
    ∃ text rest, cs = text ++ rest ∧ List.Forall₂ (fun c d => same c d) w text ∧
      ways r rest ≠ [] := by
  induction w generalizing cs with
  | nil => exact ⟨[], cs, rfl, .nil, ways_empty_seq r cs ▸ h⟩
  | cons c w ih =>
    rw [word, List.foldr_cons, ways_seq_assoc] at h
    cases cs with
    | nil => exact absurd ways_char_seq_nil h
    | cons d cs =>
      by_cases hsame : same c d
      · rw [ways_char_seq hsame] at h
        obtain ⟨text, rest, rfl, htext, hrest⟩ := ih h
        exact ⟨d :: text, rest, rfl, .cons hsame htext, hrest⟩
      · exact absurd (ways_char_seq_of_not hsame) h

end Words

/-! ## Searching -/

section Searching

variable {r : Pattern} {cs : List Char}

theorem search_of_ways {w : Way} {others : List Way} (h : ways r cs = w :: others) :
    search r cs = some w := by
  cases cs <;> rw [search, List.tails, List.findSome?_cons, h, List.head?_cons]

theorem search_eq_none (h : ∀ tail, tail <:+ cs → ways r tail = []) : search r cs = none := by
  rw [search, List.findSome?_eq_none_iff]
  intro tail htail
  rw [h tail ((List.mem_tails _ _).mp htail), List.head?_nil]

theorem findSome?_eq_of_unique {α β : Type*} {f : α → Option β} {a : α} {as : List α}
    (ha : a ∈ as) (h : ∀ b ∈ as, b ≠ a → f b = none) : as.findSome? f = f a := by
  induction as with
  | nil => cases ha
  | cons b as ih =>
    rw [List.forall_mem_cons] at h
    rw [List.findSome?_cons]
    by_cases hb : b = a
    · subst hb
      cases hf : f b with
      | some _ => rfl
      | none =>
        rw [List.findSome?_eq_none_iff]
        intro c hc
        by_cases hcb : c = b
        · rw [hcb, hf]
        · exact h.2 c hc hcb
    · rw [h.1 hb]
      exact ih ((List.mem_cons.mp ha).resolve_left (Ne.symm hb)) h.2

/-- If there is only one position where the pattern can match, it decides. -/
theorem search_eq_of_unique {tail : List Char} (htail : tail <:+ cs)
    (h : ∀ tail', tail' <:+ cs → ways r tail' ≠ [] → tail' = tail) :
    search r cs = (ways r tail).head? := by
  refine findSome?_eq_of_unique ((List.mem_tails _ _).mpr htail) fun other hother hne => ?_
  rw [List.head?_eq_none_iff]
  by_contra hways
  exact hne (h other ((List.mem_tails _ _).mp hother) hways)

theorem suffix_eq_of_head {q : Char → Prop} {pre post tail : List Char} {c d : Char}
    (hpre : ∀ c ∈ pre, ¬ q c) (hpost : ∀ c ∈ post, ¬ q c) (hd : q d)
    (h : d :: tail <:+ pre ++ c :: post) : d :: tail = c :: post := by
  induction pre with
  | nil =>
    rcases List.suffix_cons_iff.mp h with h | h
    · exact h
    · exact absurd hd (hpost d (h.subset List.mem_cons_self))
  | cons e pre ih =>
    rw [List.forall_mem_cons] at hpre
    rcases List.suffix_cons_iff.mp h with h | h
    · exact absurd ((List.cons.inj h).1 ▸ hd) hpre.1
    · exact ih hpre.2 h

/-- The first letter of a word occurs only once. -/
theorem search_word_seq {same : Char → Char → Bool} {w pre post : List Char} {c d : Char}
    (hpre : ∀ e ∈ pre, ¬ same c e) (hpost : ∀ e ∈ post, ¬ same c e) :
    search (seq (word same (c :: w)) r) (pre ++ d :: post) =
      (ways (seq (word same (c :: w)) r) (d :: post)).head? := by
  refine search_eq_of_unique (List.suffix_append _ _) fun tail htail hways => ?_
  obtain ⟨text, rest, rfl, htext, -⟩ := exists_of_ways_word_seq hways
  cases htext with
  | cons he _ => exact suffix_eq_of_head (q := fun e => same c e) hpre hpost he htail

end Searching

end Backtracking
