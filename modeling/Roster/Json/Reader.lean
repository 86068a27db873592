import Roster.Json.Number

/-! Reading JSON text. The text is one value with blanks around it and nothing else,
and no control character stands inside a string. A value nested in more than 127
arrays and objects is still looked through, and is unreadable. Each step of the
recursion is paid for by a character. -/

namespace Roster.Json

def isBlank (c : Char) : Bool := c == ' ' || c == '\n' || c == '\t' || c == '\r'

def skipBlanks (cs : List Char) : List Char := cs.dropWhile isBlank

def hexValue? (c : Char) : Option Nat :=
  if c.isDigit then some (digitValue c)
  else if 'a' ≤ c ∧ c ≤ 'f' then some (c.toNat - 'a'.toNat + 10)
  else if 'A' ≤ c ∧ c ≤ 'F' then some (c.toNat - 'A'.toNat + 10)
  else none

def readUnit? : List Char → Option (Nat × List Char)
  | a :: b :: c :: d :: cs => do
    return (4096 * (← hexValue? a) + 256 * (← hexValue? b) + 16 * (← hexValue? c) + (← hexValue? d),
      cs)
  | _ => none

/-- The character of one unit or of a surrogate pair, after the first escape mark. A
surrogate without its partner is no character. -/
def readCodePoint? (cs : List Char) : Option (Option Char × List Char) := do
  let (high, cs) ← readUnit? cs
  if 0xdc00 ≤ high ∧ high < 0xe000 then some (none, cs)
  else if 0xd800 ≤ high ∧ high < 0xdc00 then
    match cs with
    | '\\' :: 'u' :: rest =>
      match readUnit? rest with
      | some (low, rest) =>
        if 0xdc00 ≤ low ∧ low < 0xe000 then
          some (some (.ofNat (0x10000 + 1024 * (high - 0xd800) + (low - 0xdc00))), rest)
        else some (none, cs)
      | none => none
    | _ => some (none, cs)
  else some (some (.ofNat high), cs)

def readEscape? : List Char → Option (Option Char × List Char)
  | '"' :: cs => some ('"', cs)
  | '\\' :: cs => some ('\\', cs)
  | '/' :: cs => some ('/', cs)
  | 'b' :: cs => some ('\x08', cs)
  | 'f' :: cs => some ('\x0c', cs)
  | 'n' :: cs => some ('\n', cs)
  | 'r' :: cs => some ('\r', cs)
  | 't' :: cs => some ('\t', cs)
  | 'u' :: cs => readCodePoint? cs
  | _ => none

def push? {α : Type} (item : Option α) (read : Option (List α)) : Option (List α) :=
  item.bind fun a => read.map (a :: ·)

/-- A string from the next character on, with those read so far last first. It is no
text when one of its escapes was no character. -/
def readString? : (fuel : Nat) → (read : Option (List Char)) → List Char →
    Option (Option String × List Char)
  | 0, _, _ => none
  | _, _, [] => none
  | _, read, '"' :: cs => some (read.map fun l => String.ofList l.reverse, cs)
  | fuel + 1, read, '\\' :: cs =>
    (readEscape? cs).bind fun (c, cs) => readString? fuel (push? c read) cs
  | fuel + 1, read, c :: cs =>
    if c.toNat < 0x20 then none else readString? fuel (push? (some c) read) cs

def startsPlain (cs : List Char) : Bool := (cs.takeWhile (· ≠ '"')).all (· ≠ '\\')

def nested (depth : Nat) (v : Option Json) : Json :=
  if depth < 128 then v.getD unreadable else unreadable

mutual

def readValue? : (fuel depth : Nat) → List Char → Option (Json × List Char)
  | 0, _, _ => none
  | fuel + 1, depth, cs =>
    match skipBlanks cs with
    | 'n' :: 'u' :: 'l' :: 'l' :: cs => some (null, cs)
    | 't' :: 'r' :: 'u' :: 'e' :: cs => some (bool true, cs)
    | 'f' :: 'a' :: 'l' :: 's' :: 'e' :: cs => some (bool false, cs)
    | '"' :: cs => (readString? fuel (some []) cs).map fun (s, cs) =>
      ((s.map string).getD unreadable, cs)
    | '[' :: cs =>
      match skipBlanks cs with
      | ']' :: cs => some (nested (depth + 1) (array []), cs)
      | cs => readItems? fuel (depth + 1) [] cs
    | '\x7b' :: cs =>
      match skipBlanks cs with
      | '\x7d' :: cs => some (nested (depth + 1) (object []), cs)
      | cs => readMembers? fuel (depth + 1) true (some []) cs
    | cs => readNumber? cs

def readItems? : (fuel depth : Nat) → (read : List Json) → List Char → Option (Json × List Char)
  | 0, _, _, _ => none
  | fuel + 1, depth, read, cs =>
    (readValue? fuel depth cs).bind fun (v, cs) =>
      match skipBlanks cs with
      | ',' :: cs => readItems? fuel depth (v :: read) cs
      | ']' :: cs => some (nested depth (array (v :: read).reverse), cs)
      | _ => none

def readMembers? : (fuel depth : Nat) → (plain : Bool) → (read : Option (List (String × Json))) →
    List Char → Option (Json × List Char)
  | 0, _, _, _, _ => none
  | fuel + 1, depth, plain, read, cs =>
    match skipBlanks cs with
    | '"' :: cs =>
      let plain := plain && startsPlain cs
      (readString? fuel (some []) cs).bind fun (name, cs) =>
        match skipBlanks cs with
        | ':' :: cs =>
          (readValue? fuel depth cs).bind fun (v, cs) =>
            let read := push? (name.map (·, v)) read
            match skipBlanks cs with
            | ',' :: cs => readMembers? fuel depth plain read cs
            | '\x7d' :: cs => some (nested depth (read.map fun l => object l.reverse plain), cs)
            | _ => none
        | _ => none
    | _ => none

end

def read? (text : String) : Option Json :=
  (readValue? (2 * text.length + 2) 0 text.toList).bind fun (v, cs) =>
    if (skipBlanks cs).isEmpty then some v else none

end Roster.Json
