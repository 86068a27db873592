import Roster.Json

/-! Number literals. The significand takes digits while it fits 64 bits; whole digits
after that only scale it, fractional ones are dropped. -/

namespace Roster.Json

def digitValue (c : Char) : Nat := c.toNat - '0'.toNat

def takeDigits : (significand : Nat) → List Char → Nat × Nat
  | significand, [] => (significand, 0)
  | significand, c :: rest =>
    let next := 10 * significand + digitValue c
    if next < indexLimit then takeDigits next rest else (significand, rest.length + 1)

structure NumberLiteral where
  negative : Bool
  whole : List Char
  fraction : List Char
  exponentNegative : Bool
  exponent : List Char

namespace NumberLiteral

def exponentValue (l : NumberLiteral) : Int :=
  let n := l.exponent.foldl (fun n c => 10 * n + digitValue c) 0
  if l.exponentNegative then -n else n

def decimal? (l : NumberLiteral) : Option Binary64 :=
  let (whole, scaled) := takeDigits 0 l.whole
  let (significand, dropped) := takeDigits whole l.fraction
  Binary64.ofDecimal? l.negative significand
    (scaled - (l.fraction.length - dropped : Nat) + l.exponentValue)

def decimal (l : NumberLiteral) : Json := (l.decimal?.map double).getD unreadable

/-- A literal without fraction and exponent is an integer where it fits; minus zero
does not. -/
def value (l : NumberLiteral) : Json :=
  let (whole, scaled) := takeDigits 0 l.whole
  if l.fraction.isEmpty && l.exponent.isEmpty && scaled == 0 then
    if !l.negative then ofNat whole
    else if 0 < whole ∧ whole ≤ 9223372036854775808 then integer (-whole)
    else l.decimal
  else l.decimal

end NumberLiteral

def splitDigits (cs : List Char) : List Char × List Char :=
  (cs.takeWhile Char.isDigit, cs.dropWhile Char.isDigit)

def readFraction? : List Char → Option (List Char × List Char)
  | '.' :: cs => if (splitDigits cs).1.isEmpty then none else some (splitDigits cs)
  | cs => some ([], cs)

def readExponent? : List Char → Option (Bool × List Char × List Char)
  | e :: cs =>
    if e = 'e' ∨ e = 'E' then
      let (negative, cs) := match cs with
        | '+' :: cs => (false, cs)
        | '-' :: cs => (true, cs)
        | cs => (false, cs)
      if (splitDigits cs).1.isEmpty then none else some (negative, splitDigits cs)
    else some (false, [], e :: cs)
  | [] => some (false, [], [])

def readNumber? (cs : List Char) : Option (Json × List Char) :=
  let (negative, cs) := match cs with
    | '-' :: cs => (true, cs)
    | cs => (false, cs)
  let (whole, cs) := splitDigits cs
  if whole.isEmpty ∨ (whole.head? = some '0' ∧ 1 < whole.length) then none
  else
    (readFraction? cs).bind fun (fraction, cs) =>
    (readExponent? cs).bind fun (exponentNegative, exponent, cs) =>
    some (NumberLiteral.value ⟨negative, whole, fraction, exponentNegative, exponent⟩, cs)

end Roster.Json
