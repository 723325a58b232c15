/-
The listener of the gRPC server: `start_db_listener`.

It holds an inserted swap, under its transaction signature, until a notification
with that signature brings the enriched row or a tick finds that the swap has been
held for the dedup timeout.  A step is one pass of the select: a notification
handled at an instant, a failed receive, or a tick.  Instants do not decrease.

The buffer is a hash map, whose order a tick depends on: the action says in which
order the timed-out signatures were collected.
-/
import Mathlib.Data.List.AList
import OmnipairIndexer.Library.Transition

namespace OmnipairIndexer

namespace DbListener

/-! ## Notifications -/

structure SwapsUpdate where
  id : String
  pair : String
  userAddress : String
  isToken0In : Bool
  amountIn : String
  amountOut : String
  reserve0 : String
  reserve1 : String
  timestamp : String
  txSig : String
  slot : String
  feePaid0 : String
  feePaid1 : String
  emaPrice : String
  price : Float32 := 0
  volumeUsd : String := ""

structure SwapNotification where
  op : String := ""
  swap : SwapsUpdate

def parseDigits (cs : List Char) : Option Nat :=
  if cs ≠ [] ∧ cs.all Char.isDigit then some (Nat.ofDigitChars 10 cs 0) else none

def parseExponent : List Char → Option Int
  | '-' :: cs => (parseDigits cs).map fun n => -(n : Int)
  | '+' :: cs => (parseDigits cs).map (↑)
  | cs => (parseDigits cs).map (↑)

/-- A number without a sign, as `str::parse::<f64>` reads it. -/
def parseUnsigned (cs : List Char) : Option Float :=
  let lower := cs.map Char.toLower
  if lower = ['i', 'n', 'f'] ∨ lower = ['i', 'n', 'f', 'i', 'n', 'i', 't', 'y'] then
    some (1 / 0)
  else if lower = ['n', 'a', 'n'] then
    some (0 / 0)
  else do
    let (mantissa, exponent) := cs.span fun c => c ≠ 'e' ∧ c ≠ 'E'
    let (whole, fraction) := mantissa.span (· ≠ '.')
    let digits ← parseDigits (whole ++ fraction.drop 1)
    let exponent ← if exponent = [] then some 0 else parseExponent (exponent.drop 1)
    let scale := exponent - (fraction.drop 1).length
    return Float.ofScientific digits (decide (scale < 0)) scale.natAbs

def parseF64 (text : String) : Option Float :=
  match text.toList with
  | '-' :: cs => (parseUnsigned cs).map (- ·)
  | '+' :: cs => parseUnsigned cs
  | cs => parseUnsigned cs

def SwapsUpdate.withPrice (swap : SwapsUpdate) : SwapsUpdate :=
  let reserve0 := (parseF64 swap.reserve0).getD 0
  let reserve1 := (parseF64 swap.reserve1).getD 0
  { swap with price := if reserve0 > 0 then (reserve1 / reserve0).toFloat32 else 0 }

@[simp] theorem SwapsUpdate.withPrice_id (swap : SwapsUpdate) : swap.withPrice.id = swap.id := rfl

/-- `str::to_uppercase`, as far as a comparison with `INSERT` or `UPDATE` can tell:
two letters outside ASCII have an ASCII capital. -/
def toUppercase (text : String) : String :=
  String.ofList (text.toList.map fun c =>
    if c = 'ı' then 'I' else if c = 'ſ' then 'S' else c.toUpper)

/-! ## The listener -/

abbrev Held := SwapsUpdate × Nat

structure State where
  clock : Nat
  buffer : AList fun _ : String => Held
  emitted : List SwapsUpdate

def start : State := ⟨0, ∅, []⟩

inductive Action where
  | notification (now : Nat) (parsed : Option SwapNotification)
  | recvError
  | tick (now : Nat) (timedOut : List String)

def emitSwap (swap : SwapsUpdate) (s : State) : State :=
  { s with emitted := s.emitted ++ [swap] }

/-- The handling of a parsed notification. -/
def handle (now : Nat) (notif : SwapNotification) (s : State) : State :=
  let swap := notif.swap.withPrice
  if toUppercase notif.op = "INSERT" then
    { s with buffer := s.buffer.insert swap.txSig (swap, now) }
  else
    -- An `UPDATE` and an unknown operation differ only in what is logged.
    emitSwap swap { s with buffer := s.buffer.erase swap.txSig }

def timedOut (dedupTimeout : Nat) (now : Nat) (s : State) : List String :=
  (s.buffer.entries.filter fun e => dedupTimeout ≤ now - e.2.2).map Sigma.fst

def flush (s : State) (txSig : String) : State :=
  match s.buffer.lookup txSig with
  | some (swap, _) => emitSwap swap { s with buffer := s.buffer.erase txSig }
  | none => s

def step (dedupTimeout : Nat) (s : State) : Action → Option State
  | .notification now parsed =>
    if s.clock ≤ now then
      match parsed with
      | some notif => some (handle now notif { s with clock := now })
      | none => some { s with clock := now }
    else none
  | .recvError => some s
  | .tick now order =>
    if s.clock ≤ now ∧ order.Perm (timedOut dedupTimeout now s) then
      some (order.foldl flush { s with clock := now })
    else none

end DbListener

end OmnipairIndexer
