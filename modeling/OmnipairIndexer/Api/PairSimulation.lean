/-
`pairSimulation`: reading the values of a getter from simulation logs.

A getter prints its label and a triple of values.  The parser looks for the label with
a regular expression that is not anchored and ignores case, and takes the numbers out
of the three captured values with two others.

The tuple expression reads a value up to the first closing parenthesis, which is the
end of `U64(7)` and of `OptionalU64(None)` but not of `OptionalU64(Some(7))`.
`parses_iff` says which logs are read back all the same.
-/
import OmnipairIndexer.Library.Backtracking

namespace OmnipairIndexer

open Backtracking Pattern

inductive GetterType where
  | emaPrice0Nad
  | emaPrice1Nad
  | spotPrice0Nad
  | spotPrice1Nad
  | k
  | getRates
  | getBorrowLimitAndCfBpsForCollateral
  | reserves
  | cashReserves
  | swapQuote
  deriving DecidableEq

inductive UserPositionGetterType where
  | userDynamicBorrowLimit
  | userDynamicCollateralFactorBps
  | userLiquidationCfBps
  | userDebtUtilizationBps
  | userLiquidationPrice
  | userDebtWithInterest
  | userIsLiquidatable
  | userCollateralValueWithImpact
  | userLiquidationBorrowLimit
  deriving DecidableEq

/-- `Object.keys(getter)[0]`. -/
def GetterType.key : GetterType → String
  | emaPrice0Nad => "emaPrice0Nad"
  | emaPrice1Nad => "emaPrice1Nad"
  | spotPrice0Nad => "spotPrice0Nad"
  | spotPrice1Nad => "spotPrice1Nad"
  | k => "k"
  | getRates => "getRates"
  | getBorrowLimitAndCfBpsForCollateral => "getBorrowLimitAndCfBpsForCollateral"
  | reserves => "reserves"
  | cashReserves => "cashReserves"
  | swapQuote => "swapQuote"

def UserPositionGetterType.key : UserPositionGetterType → String
  | userDynamicBorrowLimit => "userDynamicBorrowLimit"
  | userDynamicCollateralFactorBps => "userDynamicCollateralFactorBps"
  | userLiquidationCfBps => "userLiquidationCfBps"
  | userDebtUtilizationBps => "userDebtUtilizationBps"
  | userLiquidationPrice => "userLiquidationPrice"
  | userDebtWithInterest => "userDebtWithInterest"
  | userIsLiquidatable => "userIsLiquidatable"
  | userCollateralValueWithImpact => "userCollateralValueWithImpact"
  | userLiquidationBorrowLimit => "userLiquidationBorrowLimit"

namespace PairSimulation

/-! ## The parser -/

def spaces : List Char :=
  ['\t', '\n', '\x0b', '\x0c', '\r', ' ', '\u00a0', '\u1680', '\u2000', '\u2001', '\u2002',
    '\u2003', '\u2004', '\u2005', '\u2006', '\u2007', '\u2008', '\u2009', '\u200a', '\u2028',
    '\u2029', '\u202f', '\u205f', '\u3000', '\ufeff']

/-- `\s`. -/
def isSpace (c : Char) : Bool := spaces.contains c

def is (c : Char) : Pattern := char (· == c)

def exactly (text : List Char) : Pattern := word (· == ·) text

/-- With the flag `i`.  Case only relates letters of ASCII to letters of ASCII, and the
letters of the patterns are such. -/
def sameLetter (c d : Char) : Bool := c.toUpper == d.toUpper

def ignoringCase (text : List Char) : Pattern := word sameLetter text

def plainU : List Char := ['U']

def optionalU : List Char := ['O', 'p', 't', 'i', 'o', 'n', 'a', 'l', 'U']

/-- `U\d+\((\d+)\)`. -/
def uintRegex : Pattern :=
  seq (exactly plainU) (seq (plus Char.isDigit) (seq (is '(')
    (seq (group 1 (plus Char.isDigit)) (is ')'))))

/-- `OptionalU\d+\(Some\((\d+)\)\)`. -/
def someRegex : Pattern :=
  seq (exactly optionalU) (seq (plus Char.isDigit) (seq (is '(') (seq (exactly ['S', 'o', 'm', 'e'])
    (seq (is '(') (seq (group 1 (plus Char.isDigit)) (seq (is ')') (is ')')))))))

def extractValue (optionalUintStr : List Char) : List Char :=
  match (search uintRegex optionalUintStr).bind (·.group? 1) with
  | some value => value
  | none =>
    match (search someRegex optionalUintStr).bind (·.group? 1) with
    | some value => value
    -- The branch for `None` and the last line of the function return the same.
    | none => ['0']

/-- `(?:OptionalU\d+\([^)]*\)|U\d+\(\d+\))`. -/
def valuePattern : Pattern :=
  alt
    (seq (ignoringCase optionalU) (seq (plus Char.isDigit) (seq (is '(')
      (seq (star (· != ')')) (is ')')))))
    (seq (ignoringCase plainU) (seq (plus Char.isDigit) (seq (is '(')
      (seq (plus Char.isDigit) (is ')')))))

/-- `\s*(value)\s*` and what comes after it. -/
def field (i : Nat) (next : Pattern) : Pattern :=
  seq (star isSpace) (seq (group i valuePattern) (seq (star isSpace) next))

def valuesRegex : Pattern :=
  seq (star isSpace) (seq (is '(')
    (field 1 (seq (is ',') (field 2 (seq (is ',') (field 3 (is ')')))))))

def tupleRegex (pascalLabel : String) : Pattern :=
  seq (ignoringCase pascalLabel.toList) (seq (is ':') valuesRegex)

structure Values where
  value0 : List Char
  value1 : List Char
  value2 : List Char
  deriving DecidableEq

/-- A captured group that is truthy. -/
def truthy (w : Way) (i : Nat) : Option (List Char) := (w.group? i).filter (· ≠ [])

/-- `label.charAt(0).toUpperCase() + label.slice(1)`. -/
def pascal (label : String) : String :=
  String.ofList (label.toList.modifyHead Char.toUpper)

def parseSimulationLogs (logs : List String) (label : String) : Except String Values :=
  let found := logs.findSome? fun log => search (tupleRegex (pascal label)) log.toList
  match found.bind (truthy · 1), found.bind (truthy · 2), found.bind (truthy · 3) with
  | some value0, some value1, some value2 =>
    .ok ⟨extractValue value0, extractValue value1, extractValue value2⟩
  | _, _, _ => .error ("Tuple values for " ++ label ++ " not found in logs")

/-! ## What the program prints -/

abbrev Getter := GetterType ⊕ UserPositionGetterType

def Getter.key : Getter → String := Sum.elim GetterType.key UserPositionGetterType.key

def Getter.pascal (label : Getter) : String := PairSimulation.pascal label.key

structure Digits where
  chars : List Char
  nonempty : chars ≠ []
  digits : ∀ c ∈ chars, c.isDigit

inductive OptionalUint where
  | uint (bits digits : Digits)
  | some (bits digits : Digits)
  | none (bits : Digits)

namespace OptionalUint

def text : OptionalUint → List Char
  | uint bits digits => plainU ++ (bits.chars ++ '(' :: (digits.chars ++ [')']))
  | some bits digits => optionalU ++ (bits.chars ++ '(' ::
    'S' :: 'o' :: 'm' :: 'e' :: '(' :: (digits.chars ++ [')', ')']))
  | none bits => optionalU ++ (bits.chars ++ ['(', 'N', 'o', 'n', 'e', ')'])

/-- The number that the value stands for. -/
def number : OptionalUint → List Char
  | uint _ digits => digits.chars
  | some _ digits => digits.chars
  | none _ => ['0']

def isSome : OptionalUint → Bool
  | some _ _ => true
  | _ => false

end OptionalUint

structure LogLine where
  label : Getter
  value0 : OptionalUint
  value1 : OptionalUint
  value2 : OptionalUint

namespace LogLine

/-- What comes after the label and its colon. -/
def tuple (line : LogLine) : List Char :=
  ' ' :: '(' :: (line.value0.text ++ ',' :: ' ' :: (line.value1.text ++ ',' :: ' ' ::
    (line.value2.text ++ [')'])))

def text (line : LogLine) : String :=
  String.ofList (line.label.pascal.toList ++ ':' :: line.tuple)

def values (line : LogLine) : Values :=
  ⟨line.value0.number, line.value1.number, line.value2.number⟩

end LogLine

/-! ## One value -/

namespace OptionalUint

/-- What `valuePattern` reads of a value: all of it, or all but the last parenthesis. -/
def captured : OptionalUint → List Char
  | uint bits digits => plainU ++ (bits.chars ++ '(' :: (digits.chars ++ [')']))
  | some bits digits => optionalU ++ (bits.chars ++ '(' ::
    'S' :: 'o' :: 'm' :: 'e' :: '(' :: (digits.chars ++ [')']))
  | none bits => optionalU ++ (bits.chars ++ ['(', 'N', 'o', 'n', 'e', ')'])

def overhang (v : OptionalUint) : List Char := if v.isSome then [')'] else []

theorem text_eq (v : OptionalUint) : v.text = v.captured ++ v.overhang := by
  cases v <;> simp [text, captured, overhang, isSome]

theorem captured_ne_nil (v : OptionalUint) : v.captured ≠ [] := by
  cases v <;> simp [captured, plainU, optionalU]

end OptionalUint

theorem rejects_is {p : Char → Bool} {c : Char} (hc : ¬ p c) : Rejects p (is c) :=
  rejects_char fun _ hd h => hc (beq_iff_eq.mp h ▸ hd)

theorem rejects_is_seq {p : Char → Bool} {c : Char} {r : Pattern} (hc : ¬ p c) :
    Rejects p (seq (is c) r) :=
  rejects_char_seq fun _ hd h => hc (beq_iff_eq.mp h ▸ hd)

theorem not_head_cons {p : Char → Bool} {c : Char} {cs : List Char} (hc : ¬ p c) :
    ∀ d ∈ (c :: cs).head?, ¬ p d := by
  intro d hd
  cases hd
  exact hc

theorem ways_is_seq (c : Char) (r : Pattern) (cs : List Char) :
    ways (seq (is c) r) (c :: cs) = ways r cs := ways_char_seq (beq_self_eq_true c)

theorem ways_is_seq_of_ne {c d : Char} (h : d ≠ c) (r : Pattern) (cs : List Char) :
    ways (seq (is c) r) (d :: cs) = [] := ways_char_seq_of_not (by simpa using h)

theorem ways_is (c : Char) (cs : List Char) : ways (is c) (c :: cs) = [⟨[], cs⟩] :=
  if_pos (beq_self_eq_true c)

/-- A number and the character that ends it. -/
theorem ways_digits_is (digits : Digits) {c : Char} (hc : ¬ c.isDigit) (r : Pattern)
    (cs : List Char) :
    ways (seq (plus Char.isDigit) (seq (is c) r)) (digits.chars ++ c :: cs) = ways r cs := by
  rw [ways_plus_seq digits.nonempty digits.digits (not_head_cons hc) (rejects_is_seq hc),
    ways_is_seq]

theorem sameLetter_self (c : Char) : sameLetter c c := beq_self_eq_true _

/-- Whatever an option has in it, the value ends at the first closing parenthesis. -/
theorem valuePattern_ways_optional (bits : Digits) {inside : List Char}
    (hinside : ∀ c ∈ inside, c != ')') (cs : List Char) :
    ways valuePattern (optionalU ++ (bits.chars ++ '(' :: (inside ++ ')' :: cs))) =
      [⟨[], cs⟩] := by
  have hopen : ¬ '('.isDigit := by decide
  have hother : ¬ sameLetter 'U' 'O' := by decide
  have hstar : ¬ (')' != ')') := by decide
  have hsecond : ∀ r rest, ways (seq (ignoringCase plainU) r) (optionalU ++ rest) = [] :=
    fun r rest => ways_word_seq_of_not hother
  rw [valuePattern, ways, hsecond, List.append_nil, ignoringCase, ways_same_seq sameLetter_self,
    ways_digits_is bits hopen, ways_star_seq hinside (not_head_cons hstar) (rejects_is hstar),
    ways_is]

theorem valuePattern_ways (v : OptionalUint) (cs : List Char) :
    ways valuePattern (v.captured ++ cs) = [⟨[], cs⟩] := by
  have hclose : ¬ ')'.isDigit := by decide
  cases v with
  | uint bits digits =>
    have hopen : ¬ '('.isDigit := by decide
    have hother : ¬ sameLetter 'O' 'U' := by decide
    have hfirst : ∀ r rest, ways (seq (ignoringCase optionalU) r) (plainU ++ rest) = [] :=
      fun r rest => ways_word_seq_of_not hother
    simp only [OptionalUint.captured, List.append_assoc, List.cons_append, List.nil_append]
    rw [valuePattern, ways, hfirst, List.nil_append, ignoringCase, ways_same_seq sameLetter_self,
      ways_digits_is bits hopen,
      ways_plus_seq digits.nonempty digits.digits (not_head_cons hclose) (rejects_is hclose),
      ways_is]
  | some bits digits =>
    have hinside : ∀ c ∈ 'S' :: 'o' :: 'm' :: 'e' :: '(' :: digits.chars, c != ')' := by
      have hdigits : ∀ c ∈ digits.chars, c != ')' := fun c hc =>
        bne_iff_ne.mpr fun h => hclose (h ▸ digits.digits c hc)
      simpa using hdigits
    simp only [OptionalUint.captured, List.append_assoc, List.cons_append, List.nil_append]
    exact valuePattern_ways_optional bits hinside cs
  | none bits =>
    have hinside : ∀ c ∈ ['N', 'o', 'n', 'e'], c != ')' := List.all_eq_true.mp (by decide)
    simp only [OptionalUint.captured, List.append_assoc, List.cons_append, List.nil_append]
    exact valuePattern_ways_optional bits hinside cs

/-- The text that the extractor makes of what was captured. -/
def OptionalUint.read (v : OptionalUint) : List Char := if v.isSome then ['0'] else v.number

theorem Digits.notMem (digits : Digits) {c : Char} (hc : ¬ c.isDigit) : c ∉ digits.chars :=
  fun h => hc (digits.digits c h)

/-- No number stands between the parentheses. -/
theorem search_uintRegex_optional (bits : Digits) {c : Char} {inside : List Char}
    (hc : ¬ c.isDigit) (hU : 'U' ∉ c :: inside) :
    search uintRegex (optionalU ++ (bits.chars ++ '(' :: c :: inside)) = none := by
  have hafter : ∀ d ∈ bits.chars ++ '(' :: c :: inside, ¬ ('U' == d) := by
    intro d hd h
    obtain rfl := beq_iff_eq.mp h
    rcases List.mem_append.mp hd with hd | hd
    · exact bits.notMem (by decide) hd
    · exact hU ((List.mem_cons.mp hd).resolve_left (by decide))
  have hsearch : search uintRegex (['O', 'p', 't', 'i', 'o', 'n', 'a', 'l'] ++
      'U' :: (bits.chars ++ '(' :: c :: inside)) = _ :=
    search_word_seq (by simp) hafter
  have hways : ways uintRegex (plainU ++ (bits.chars ++ '(' :: c :: inside)) = [] := by
    rw [uintRegex, exactly, ways_same_seq (fun c => beq_self_eq_true c),
      ways_digits_is bits (by decide)]
    exact ways_group_seq_of_nil (ways_plus_of_not hc)
  exact hsearch.trans (congrArg List.head? hways)

/-- No `Some` with a number stands between the parentheses. -/
theorem search_someRegex_optional (bits : Digits) {inside : List Char} (hO : 'O' ∉ inside)
    (hinside : ways (seq (exactly ['S', 'o', 'm', 'e']) (seq (is '(')
      (seq (group 1 (plus Char.isDigit)) (seq (is ')') (is ')'))))) inside = []) :
    search someRegex (optionalU ++ (bits.chars ++ '(' :: inside)) = none := by
  have hafter : ∀ d ∈ optionalU.tail ++ (bits.chars ++ '(' :: inside), ¬ ('O' == d) := by
    intro d hd h
    obtain rfl := beq_iff_eq.mp h
    rcases List.mem_append.mp hd with hd | hd
    · exact absurd hd (by decide)
    rcases List.mem_append.mp hd with hd | hd
    · exact bits.notMem (by decide) hd
    · exact hO ((List.mem_cons.mp hd).resolve_left (by decide))
  have hsearch : search someRegex ([] ++ 'O' :: (optionalU.tail ++ (bits.chars ++
      '(' :: inside))) = _ := search_word_seq (fun _ he => absurd he List.not_mem_nil) hafter
  have hways : ways someRegex (optionalU ++ (bits.chars ++ '(' :: inside)) = [] := by
    rw [someRegex, exactly, ways_same_seq (fun c => beq_self_eq_true c),
      ways_digits_is bits (by decide), hinside]
  exact hsearch.trans (congrArg List.head? hways)

theorem extractValue_captured (v : OptionalUint) : extractValue v.captured = v.read := by
  cases v with
  | uint bits digits =>
    have hclose : ¬ ')'.isDigit := by decide
    have hways : ways uintRegex (OptionalUint.uint bits digits).captured =
        [⟨[(1, digits.chars)], []⟩] := by
      rw [uintRegex, exactly, OptionalUint.captured, ways_same_seq fun c => beq_self_eq_true c,
        ways_digits_is bits (by decide), ways_group_plus_seq digits.nonempty digits.digits
          (not_head_cons hclose) (rejects_is hclose), ways_is]
      rfl
    rw [extractValue, search_of_ways hways]
    rfl
  | some bits digits =>
    have huint : search uintRegex (OptionalUint.some bits digits).captured = none := by
      refine search_uintRegex_optional bits (by decide) ?_
      simpa using digits.notMem (c := 'U') (by decide)
    have hsome : search someRegex (OptionalUint.some bits digits).captured = none := by
      refine search_someRegex_optional bits ?_ ?_
      · simpa using digits.notMem (c := 'O') (by decide)
      · -- One parenthesis is missing.
        have hclose : ¬ ')'.isDigit := by decide
        have hsingle : ways (seq (exactly ['S', 'o', 'm', 'e']) (seq (is '(')
            (seq (group 1 (plus Char.isDigit)) (seq (is ')') (is ')')))))
            (['S', 'o', 'm', 'e'] ++ '(' :: (digits.chars ++ [')'])) = [] := by
          rw [exactly, ways_same_seq fun c => beq_self_eq_true c, ways_is_seq,
            ways_group_plus_seq digits.nonempty digits.digits (not_head_cons hclose)
              (rejects_is_seq hclose), ways_is_seq]
          rfl
        exact hsingle
    rw [extractValue, huint, hsome]
    rfl
  | none bits =>
    have huint : search uintRegex (OptionalUint.none bits).captured = none :=
      search_uintRegex_optional bits (by decide) (by decide)
    have hsome : search someRegex (OptionalUint.none bits).captured = none :=
      search_someRegex_optional bits (by decide) (ways_word_seq_of_not (by decide))
    rw [extractValue, huint, hsome]
    rfl

/-! ## The triple of a line -/

theorem valuePattern_rejects : Rejects isSpace valuePattern := by
  intro c cs hc
  have hletters : spaces.all fun d => !sameLetter 'O' d && !sameLetter 'U' d := by decide
  obtain ⟨hO, hU⟩ : ¬ sameLetter 'O' c ∧ ¬ sameLetter 'U' c := by
    simpa using List.all_eq_true.mp hletters c (List.contains_iff_mem.mp hc)
  rw [valuePattern, ways]
  have hfirst : ∀ r, ways (seq (ignoringCase optionalU) r) (c :: cs) = [] :=
    fun r => ways_word_seq_of_not hO
  have hsecond : ∀ r, ways (seq (ignoringCase plainU) r) (c :: cs) = [] :=
    fun r => ways_word_seq_of_not hU
  rw [hfirst, hsecond, List.append_nil]

theorem OptionalUint.not_space_head (v : OptionalUint) (cs : List Char) :
    ∀ c ∈ (v.captured ++ cs).head?, ¬ isSpace c := by
  cases v <;> exact not_head_cons (by decide)

theorem ways_field {i : Nat} {next : Pattern} {spaces cs : List Char} {c : Char} (v : OptionalUint)
    (hspaces : ∀ d ∈ spaces, isSpace d) (hc : ¬ isSpace c) (hnext : Rejects isSpace next) :
    ways (field i next) (spaces ++ (v.captured ++ c :: cs)) =
      (ways next (c :: cs)).map (.after [(i, v.captured)]) := by
  have hgroup : Rejects isSpace (seq (group i valuePattern) (seq (star isSpace) next)) :=
    fun d ds hd => ways_group_seq_of_nil (valuePattern_rejects d ds hd)
  rw [field, ways_star_seq hspaces (v.not_space_head _) hgroup,
    ways_group_seq (valuePattern_ways v _) fun _ hw => absurd hw List.not_mem_nil]
  have hstar : ways (seq (star isSpace) next) ([] ++ c :: cs) = ways next (c :: cs) :=
    ways_star_seq (fun d hd => absurd hd List.not_mem_nil) (not_head_cons hc) hnext
  rw [← hstar, List.nil_append]

/-- The comma after a value is found unless a parenthesis of the value is in the way. -/
theorem ways_comma_seq (v : OptionalUint) (r : Pattern) (cs : List Char) :
    ways (seq (is ',') r) (v.overhang ++ ',' :: cs) = if v.isSome then [] else ways r cs := by
  unfold OptionalUint.overhang
  split
  · exact ways_is_seq_of_ne (by decide) _ _
  · exact ways_is_seq _ _ _

theorem overhang_head (v : OptionalUint) {c : Char} (hc : ¬ isSpace c) (cs : List Char) :
    ∃ d ds, v.overhang ++ c :: cs = d :: ds ∧ ¬ isSpace d := by
  unfold OptionalUint.overhang
  split
  · exact ⟨')', c :: cs, rfl, by decide⟩
  · exact ⟨c, cs, rfl, hc⟩

/-- A value with spaces before it, up to the character that ends it. -/
theorem ways_field_text {i : Nat} {next : Pattern} {spaces cs : List Char} {c : Char}
    (v : OptionalUint) (hspaces : ∀ d ∈ spaces, isSpace d) (hc : ¬ isSpace c)
    (hnext : Rejects isSpace next) :
    ways (field i next) (spaces ++ (v.text ++ c :: cs)) =
      (ways next (v.overhang ++ c :: cs)).map (.after [(i, v.captured)]) := by
  obtain ⟨d, ds, hrest, hd⟩ := overhang_head v hc cs
  rw [v.text_eq, List.append_assoc, hrest, ways_field v hspaces hd hnext]

theorem ways_item {i : Nat} {spaces : List Char} (hspaces : ∀ d ∈ spaces, isSpace d)
    (v : OptionalUint) (r : Pattern) (cs : List Char) :
    ways (field i (seq (is ',') r)) (spaces ++ (v.text ++ ',' :: cs)) =
      if v.isSome then [] else (ways r cs).map (.after [(i, v.captured)]) := by
  have hcomma : ¬ isSpace ',' := by decide
  rw [ways_field_text v hspaces hcomma (rejects_is_seq hcomma), ways_comma_seq]
  split <;> rfl

theorem ways_last {i : Nat} {spaces : List Char} (hspaces : ∀ d ∈ spaces, isSpace d)
    (v : OptionalUint) :
    ways (field i (is ')')) (spaces ++ (v.text ++ [')'])) = [⟨[(i, v.captured)], v.overhang⟩] := by
  have hclose : ¬ isSpace ')' := by decide
  have hend : ways (is ')') (v.overhang ++ [')']) = [⟨[], v.overhang⟩] := by
    unfold OptionalUint.overhang
    split <;> exact ways_is _ _
  rw [ways_field_text v hspaces hclose (rejects_is hclose), hend]
  rfl

/-- What the groups capture of a line. -/
def LogLine.way (line : LogLine) : Way :=
  ⟨[(1, line.value0.captured), (2, line.value1.captured), (3, line.value2.captured)],
    line.value2.overhang⟩

/-- The third value may be a `Some`: its last parenthesis stands for that of the triple. -/
def LogLine.reached (line : LogLine) : Bool := !line.value0.isSome && !line.value1.isSome

theorem ways_tuple (line : LogLine) :
    ways valuesRegex line.tuple = if line.reached then [line.way] else [] := by
  have hblank : ∀ d ∈ [' '], isSpace d := List.all_eq_true.mp (by decide)
  have hnone : ∀ d ∈ ([] : List Char), isSpace d := fun _ hd => absurd hd List.not_mem_nil
  have hopen : ¬ isSpace '(' := by decide
  have hstart : ∀ r cs, ways (seq (star isSpace) (seq (is '(') r)) ([' '] ++ '(' :: cs) =
      ways r ([] ++ cs) := by
    intro r cs
    rw [ways_star_seq hblank (not_head_cons hopen) (rejects_is_seq hopen), ways_is_seq,
      List.nil_append]
  have hthird : ways (field 3 (is ')')) (' ' :: (line.value2.text ++ [')'])) = _ :=
    ways_last hblank line.value2
  have hsecond : ways (field 2 (seq (is ',') (field 3 (is ')'))))
      (' ' :: (line.value1.text ++ ',' :: ' ' :: (line.value2.text ++ [')']))) = _ :=
    ways_item hblank line.value1 _ _
  refine (hstart _ _).trans ?_
  rw [ways_item hnone, hsecond, hthird, LogLine.reached]
  cases line.value0.isSome <;> cases line.value1.isSome <;> rfl

/-! ## One line -/

/-- The label of the line ends in the given one, in any case. -/
def LogLine.EndsIn (line : LogLine) (label : Getter) : Prop :=
  line.label = label ∨ label = .inl .reserves ∧ line.label = .inl .cashReserves

instance (line : LogLine) (label : Getter) : Decidable (line.EndsIn label) :=
  inferInstanceAs (Decidable (_ ∨ _))

def Getter.all : List Getter :=
  [.inl .emaPrice0Nad, .inl .emaPrice1Nad, .inl .spotPrice0Nad, .inl .spotPrice1Nad, .inl .k,
    .inl .getRates, .inl .getBorrowLimitAndCfBpsForCollateral, .inl .reserves, .inl .cashReserves,
    .inl .swapQuote, .inr .userDynamicBorrowLimit, .inr .userDynamicCollateralFactorBps,
    .inr .userLiquidationCfBps, .inr .userDebtUtilizationBps, .inr .userLiquidationPrice,
    .inr .userDebtWithInterest, .inr .userIsLiquidatable, .inr .userCollateralValueWithImpact,
    .inr .userLiquidationBorrowLimit]

theorem Getter.mem_all (label : Getter) : label ∈ Getter.all := by
  rcases label with label | label <;> cases label <;> simp [Getter.all]

def capitals (text : List Char) : List Char := text.map Char.toUpper

theorem Getter.of_suffix (label label' : Getter)
    (h : capitals label.pascal.toList <:+ capitals label'.pascal.toList) :
    label' = label ∨ label = .inl .reserves ∧ label' = .inl .cashReserves := by
  have hall : ∀ l ∈ Getter.all, ∀ l' ∈ Getter.all,
      capitals l.pascal.toList <:+ capitals l'.pascal.toList →
        l' = l ∨ l = .inl .reserves ∧ l' = .inl .cashReserves := by decide +kernel
  exact hall label label.mem_all label' label'.mem_all h

theorem Getter.colon_notMem (label : Getter) : ':' ∉ label.pascal.toList := by
  have hall : ∀ l ∈ Getter.all, ':' ∉ l.pascal.toList := by decide +kernel
  exact hall label label.mem_all

theorem forall₂_sameLetter_iff {w text : List Char} :
    List.Forall₂ (fun c d => sameLetter c d) w text ↔ capitals w = capitals text := by
  rw [capitals, capitals, ← List.forall₂_eq_eq_eq, List.forall₂_map_left_iff,
    List.forall₂_map_right_iff]
  simp only [sameLetter, beq_iff_eq]

theorem OptionalUint.colon_notMem (v : OptionalUint) : ':' ∉ v.text := by
  have hdigits : ∀ digits : Digits, ':' ∉ digits.chars := fun digits =>
    digits.notMem (by decide)
  cases v <;> simp [text, plainU, optionalU, hdigits]

theorem LogLine.colon_notMem (line : LogLine) : ':' ∉ line.tuple := by
  simp [tuple, OptionalUint.colon_notMem]

/-- Where the expression matches, the label of the line ends in a text that reads like the
given label, and nothing else of the label is matched. -/
theorem exists_of_ways {label : Getter} {line : LogLine} {tail : List Char}
    (htail : tail <:+ line.label.pascal.toList ++ ':' :: line.tuple)
    (hways : ways (tupleRegex label.pascal) tail ≠ []) :
    ∃ w, w <:+ line.label.pascal.toList ∧ capitals label.pascal.toList = capitals w ∧
      tail = w ++ ':' :: line.tuple := by
  obtain ⟨w, rest, rfl, hw, hrest⟩ := exists_of_ways_word_seq hways
  cases rest with
  | nil => exact absurd ways_char_seq_nil hrest
  | cons c rest =>
    by_cases hc : c = ':'
    · subst hc
      have hlabel : ∀ d ∈ line.label.pascal.toList, ¬ d = ':' := fun d hd h =>
        line.label.colon_notMem (h ▸ hd)
      have htuple : ∀ d ∈ line.tuple, ¬ d = ':' := fun d hd h => line.colon_notMem (h ▸ hd)
      have heq := suffix_eq_of_head (q := (· = ':')) hlabel htuple rfl
        ((List.suffix_append w _).trans htail)
      rw [heq] at htail ⊢
      exact ⟨w, List.suffix_append_self_iff.mp htail, forall₂_sameLetter_iff.mp hw, rfl⟩
    · exact absurd (ways_is_seq_of_ne hc _ _) hrest

theorem LogLine.EndsIn.split {line : LogLine} {label : Getter} (h : line.EndsIn label) :
    ∃ w, w <:+ line.label.pascal.toList ∧ capitals label.pascal.toList = capitals w := by
  rcases h with h | ⟨rfl, h⟩
  · exact ⟨_, List.suffix_refl _, by rw [h]⟩
  · refine ⟨['R', 'e', 's', 'e', 'r', 'v', 'e', 's'], ?_, by decide +kernel⟩
    rw [h]
    decide +kernel

/-- What the expression of a label finds in a line. -/
theorem search_text (label : Getter) (line : LogLine) :
    search (tupleRegex label.pascal) line.text.toList =
      if line.EndsIn label ∧ line.reached then some line.way else none := by
  rw [LogLine.text, String.toList_ofList]
  by_cases hends : line.EndsIn label
  · obtain ⟨w, hsuffix, hw⟩ := hends.split
    have hunique : ∀ tail, tail <:+ line.label.pascal.toList ++ ':' :: line.tuple →
        ways (tupleRegex label.pascal) tail ≠ [] → tail = w ++ ':' :: line.tuple := by
      intro tail htail hways
      obtain ⟨w', hsuffix', hw', rfl⟩ := exists_of_ways htail hways
      have hlength : w'.length = w.length := by
        have := congrArg List.length (hw'.symm.trans hw)
        rwa [capitals, capitals, List.length_map, List.length_map] at this
      rw [List.IsSuffix.eq_of_length
        (List.suffix_of_suffix_length_le hsuffix' hsuffix hlength.le) hlength]
    have htail : w ++ ':' :: line.tuple <:+ line.label.pascal.toList ++ ':' :: line.tuple :=
      List.suffix_append_self_iff.mpr hsuffix
    rw [search_eq_of_unique htail hunique, tupleRegex, ignoringCase,
      ways_word_seq (forall₂_sameLetter_iff.mpr hw), ways_is_seq, ways_tuple]
    cases line.reached <;> simp [hends]
  · rw [if_neg fun h => hends h.1]
    refine search_eq_none fun tail htail => ?_
    by_contra hways
    obtain ⟨w, hsuffix, hw, -⟩ := exists_of_ways htail hways
    exact hends (Getter.of_suffix label line.label (hw ▸ hsuffix.map _))

/-! ## The logs -/

/-- What the parser returns for a line that it reaches. -/
def LogLine.readings (line : LogLine) : Values :=
  ⟨line.value0.read, line.value1.read, line.value2.read⟩

/-- The line whose tuple the parser takes. -/
def taken (lines : List LogLine) (label : Getter) : Option LogLine :=
  lines.find? fun line => line.EndsIn label ∧ line.reached

theorem truthy_way (line : LogLine) :
    truthy line.way 1 = some line.value0.captured ∧ truthy line.way 2 = some line.value1.captured ∧
      truthy line.way 3 = some line.value2.captured := by
  have htruthy : ∀ v : OptionalUint, (some v.captured).filter (· ≠ []) = some v.captured :=
    fun v => Option.filter_some_pos (decide_eq_true v.captured_ne_nil)
  exact ⟨htruthy _, htruthy _, htruthy _⟩

theorem parseSimulationLogs_eq (lines : List LogLine) (label : Getter) :
    parseSimulationLogs (lines.map LogLine.text) label.key =
      match taken lines label with
      | some line => .ok line.readings
      | none => .error ("Tuple values for " ++ label.key ++ " not found in logs") := by
  have hfound : (lines.map LogLine.text).findSome?
      (fun log => search (tupleRegex label.pascal) log.toList) =
        (taken lines label).map LogLine.way := by
    rw [List.findSome?_map, taken]
    induction lines with
    | nil => rfl
    | cons line lines ih =>
      rw [List.findSome?_cons, Function.comp_apply, search_text, List.find?_cons]
      by_cases h : line.EndsIn label ∧ line.reached
      · simp only [h, decide_true, and_self, if_true, Option.map_some]
      · simp only [h, decide_false, if_false]
        exact ih
  have hparse : parseSimulationLogs (lines.map LogLine.text) label.key =
      match ((taken lines label).map LogLine.way).bind (truthy · 1),
        ((taken lines label).map LogLine.way).bind (truthy · 2),
        ((taken lines label).map LogLine.way).bind (truthy · 3) with
      | some value0, some value1, some value2 =>
        .ok ⟨extractValue value0, extractValue value1, extractValue value2⟩
      | _, _, _ => .error ("Tuple values for " ++ label.key ++ " not found in logs") := by
    rw [← hfound]
    rfl
  rw [hparse]
  cases taken lines label with
  | none => rfl
  | some line =>
    obtain ⟨h1, h2, h3⟩ := truthy_way line
    simp only [Option.map_some, Option.bind_some, h1, h2, h3, extractValue_captured]
    rfl

/-- The parser returns the numbers of the line, and so does not throw. -/
def Inverts (lines : List LogLine) (own : LogLine) : Prop :=
  parseSimulationLogs (lines.map LogLine.text) own.label.key = .ok own.values

/-- The logs can be read back: the line that the parser takes has the numbers of the line
in question, and the parser reads 0 for a `Some` in the third place. -/
def ReadsBack (lines : List LogLine) (own : LogLine) : Prop :=
  ∃ line, taken lines own.label = some line ∧ line.readings = own.values

instance (lines : List LogLine) (own : LogLine) : Decidable (ReadsBack lines own) :=
  match h : taken lines own.label with
  | some line => decidable_of_iff (line.readings = own.values) (by simp [ReadsBack, h])
  | none => .isFalse (by simp [ReadsBack, h])

/-- No other line of the logs has a label that ends in that of this one. -/
theorem taken_of_alone {before after : List LogLine} {own : LogLine}
    (halone : ∀ line ∈ before ++ after, ¬ line.EndsIn own.label) :
    taken (before ++ own :: after) own.label = if own.reached then some own else none := by
  have hnone : ∀ lines : List LogLine, lines ⊆ before ++ after → taken lines own.label = none := by
    intro lines hlines
    refine List.find?_eq_none.mpr fun line hline h => ?_
    exact halone line (hlines hline) (of_decide_eq_true h).1
  have hself : own.EndsIn own.label := Or.inl rfl
  have hbefore := hnone before (List.subset_append_left _ _)
  have hafter := hnone after (List.subset_append_right _ _)
  unfold taken at hbefore hafter ⊢
  rw [List.find?_append, hbefore, Option.none_or, List.find?_cons, hafter]
  cases own.reached <;> simp [hself]

theorem readings_eq_values_iff {line : LogLine} (h : line.reached) :
    line.readings = line.values ↔ (line.value2.isSome → line.value2.number = ['0']) := by
  have hread : ∀ v : OptionalUint, v.isSome = false → v.read = v.number := by
    intro v hv
    rw [OptionalUint.read, hv]
    rfl
  simp only [LogLine.reached, Bool.and_eq_true, Bool.not_eq_true'] at h
  rw [LogLine.readings, LogLine.values, hread _ h.1, hread _ h.2, OptionalUint.read]
  cases line.value2.isSome
  · simp
  · simp [eq_comm]

/-- The parser returns the numbers of the line in question exactly if the logs can be read
back.  Without a `CashReserves` line next to a `Reserves` line these are the logs in which
the first two values are no `Some`, and the third is none but that of 0. -/
theorem parses_iff (before after : List LogLine) (own : LogLine)
    (hown : ∀ line ∈ before ++ after, line.label ≠ own.label) :
    (Inverts (before ++ own :: after) own ↔ ReadsBack (before ++ own :: after) own) ∧
      ((own.label = .inl .reserves → ∀ line ∈ before ++ after, line.label ≠ .inl .cashReserves) →
        (ReadsBack (before ++ own :: after) own ↔
          own.reached ∧ (own.value2.isSome → own.value2.number = ['0']))) := by
  constructor
  · rw [Inverts, parseSimulationLogs_eq, ReadsBack]
    cases taken (before ++ own :: after) own.label <;> simp
  · intro hcash
    have halone : ∀ line ∈ before ++ after, ¬ line.EndsIn own.label := by
      rintro line hline (h | ⟨hreserves, h⟩)
      · exact hown line hline h
      · exact hcash hreserves line hline h
    rw [ReadsBack, taken_of_alone halone]
    cases hreached : own.reached with
    | false => simp
    | true => simp [readings_eq_values_iff hreached]

/-! ## Logs that are not read back -/

def sixtyFour : Digits := ⟨['6', '4'], by decide, List.all_eq_true.mp (by decide)⟩

def seven : Digits := ⟨['7'], by decide, List.all_eq_true.mp (by decide)⟩

/-- `EmaPrice0Nad: (U64(7), OptionalU64(None), OptionalU64(None))`. -/
def emaPrice : LogLine :=
  ⟨.inl .emaPrice0Nad, .uint sixtyFour seven, .none sixtyFour, .none sixtyFour⟩

def borrowLimit : LogLine :=
  ⟨.inr .userDynamicBorrowLimit, .uint sixtyFour seven, .uint sixtyFour seven, .none sixtyFour⟩

theorem parses_iff_emaPrice :
    ReadsBack [borrowLimit, emaPrice] emaPrice ∧ Inverts [borrowLimit, emaPrice] emaPrice := by
  have hread : ReadsBack [borrowLimit, emaPrice] emaPrice := by decide +kernel
  exact ⟨hread, (parses_iff [borrowLimit] [] emaPrice (by decide +kernel)).1.mpr hread⟩

/-- `EmaPrice0Nad: (OptionalU64(Some(7)), OptionalU64(None), OptionalU64(None))`. -/
def somePrice : LogLine :=
  ⟨.inl .emaPrice0Nad, .some sixtyFour seven, .none sixtyFour, .none sixtyFour⟩

def cashReserves : LogLine :=
  ⟨.inl .cashReserves, .none sixtyFour, .none sixtyFour, .none sixtyFour⟩

def reserves : LogLine :=
  ⟨.inl .reserves, .uint sixtyFour seven, .none sixtyFour, .none sixtyFour⟩

/-- A value in `Some` makes the parser throw, and the reserves are read from the line of
the cash reserves. -/
theorem some_not_parsed :
    parseSimulationLogs ([somePrice].map LogLine.text) somePrice.label.key =
        .error "Tuple values for emaPrice0Nad not found in logs" ∧
      parseSimulationLogs ([cashReserves, reserves].map LogLine.text) reserves.label.key =
        .ok cashReserves.values ∧
      ¬ Inverts [somePrice] somePrice ∧ ¬ Inverts [cashReserves, reserves] reserves := by
  have hsome := parseSimulationLogs_eq [somePrice] somePrice.label
  have hreserves := parseSimulationLogs_eq [cashReserves, reserves] reserves.label
  refine ⟨hsome.trans (by decide +kernel), hreserves.trans (by decide +kernel), ?_, ?_⟩
  · rw [Inverts, hsome]
    decide +kernel
  · rw [Inverts, hreserves]
    decide +kernel

end PairSimulation

end OmnipairIndexer
