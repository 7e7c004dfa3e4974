/-
  Reading JSON — one value, with nothing but blanks around it.

  Each reader takes the characters from where its part starts and gives what it read
  and the characters after it. A whole number that does not fit 64 bits is read as a
  double, as is minus zero.
-/
import FormDrift.Decimal.Bounds
import FormDrift.Json.Value

namespace FormDrift.Json

/-- The characters after the blanks. -/
def skipBlanks (cs : List Char) : List Char :=
  cs.dropWhile fun c => c = ' ' || c = '\t' || c = '\n' || c = '\x0d'

/-- The value of a hexadecimal digit. -/
def hexValue? (c : Char) : Option Nat :=
  if '0' ≤ c ∧ c ≤ '9' then some (c.toNat - 0x30)
  else if 'a' ≤ c ∧ c ≤ 'f' then some (c.toNat - 0x57)
  else if 'A' ≤ c ∧ c ≤ 'F' then some (c.toNat - 0x37)
  else none

/-- The value of four hexadecimal digits. -/
def hex4? (cs : List Char) : Option Nat :=
  match cs with
  | [a, b, c, d] => do
    return (((← hexValue? a) * 16 + (← hexValue? b)) * 16 + (← hexValue? c)) * 16 + (← hexValue? d)
  | _ => none

/-- The character of an escape of one letter. -/
def plainEscape? (c : Char) : Option Char :=
  if c = '"' || c = '\\' || c = '/' then some c
  else if c = 'b' then some '\x08'
  else if c = 'f' then some '\x0c'
  else if c = 'n' then some '\n'
  else if c = 'r' then some '\x0d'
  else if c = 't' then some '\t'
  else none

/-- The rest of a string after its opening quote, and what follows it. Two escapes may
be the halves of one character. `fuel` is at least the number of characters. -/
def readString (fuel : Nat) (cs : List Char) : Option (List Char × List Char) :=
  match fuel, cs with
  | 0, _ => none
  | _, [] => none
  | _, '"' :: rest => some ([], rest)
  | fuel + 1, '\\' :: 'u' :: a :: b :: c :: d :: rest => do
    let unit ← hex4? [a, b, c, d]
    if 0xd800 ≤ unit ∧ unit < 0xdc00 then
      match rest with
      | '\\' :: 'u' :: e :: f :: g :: h :: rest => do
        let low ← hex4? [e, f, g, h]
        if 0xdc00 ≤ low ∧ low < 0xe000 then
          let (tail, rest) ← readString fuel rest
          return (Char.ofNat (0x10000 + (unit - 0xd800) * 0x400 + (low - 0xdc00)) :: tail, rest)
        else none
      | _ => none
    else if 0xdc00 ≤ unit ∧ unit < 0xe000 then none
    else
      let (tail, rest) ← readString fuel rest
      return (Char.ofNat unit :: tail, rest)
  | fuel + 1, '\\' :: c :: rest => do
    let e ← plainEscape? c
    let (tail, rest) ← readString fuel rest
    return (e :: tail, rest)
  | fuel + 1, c :: rest => do
    if c.toNat < 0x20 then none
    let (tail, rest) ← readString fuel rest
    return (c :: tail, rest)

/-- The number that a run of digits writes. -/
def digitsValue (cs : List Char) : Nat :=
  cs.foldl (fun n c => n * 10 + (c.toNat - 0x30)) 0

/-- A number, and what follows it. -/
def readNumber (cs : List Char) : Option (Json × List Char) := do
  let negative := cs.head? == some '-'
  let cs := if negative then cs.drop 1 else cs
  let whole := cs.takeWhile Char.isDigit
  let rest := cs.dropWhile Char.isDigit
  if whole.isEmpty || (whole.head? == some '0' && whole.length > 1) then none
  let (fraction, rest) ← match rest with
    | '.' :: rest =>
      let digits := rest.takeWhile Char.isDigit
      if digits.isEmpty then none else some (digits, rest.dropWhile Char.isDigit)
    | rest => some ([], rest)
  let (exponent, rest) ← match rest with
    | c :: rest =>
      if c = 'e' ∨ c = 'E' then
        let minus := rest.head? == some '-'
        let rest := if minus || rest.head? == some '+' then rest.drop 1 else rest
        let digits := rest.takeWhile Char.isDigit
        if digits.isEmpty then none
        else
          let n : Int := digitsValue digits
          some (some (if minus then -n else n), rest.dropWhile Char.isDigit)
      else some (none, c :: rest)
    | [] => some (none, [])
  let n : Int := if negative then -(digitsValue whole : Int) else digitsValue whole
  if fraction.isEmpty && exponent.isNone && (n ≠ 0 || !negative)
      && (Decimal.fitsSigned 64 n || Decimal.fitsUnsigned 64 n) then
    return (.int n, rest)
  let e := exponent.getD 0 - (fraction.length : Int)
  return (.float (.ofDecimal negative (digitsValue (whole ++ fraction)) e), rest)

mutual

/-- A value, and what follows it. -/
def readValue (fuel : Nat) (cs : List Char) : Option (Json × List Char) :=
  match fuel with
  | 0 => none
  | fuel + 1 =>
    match skipBlanks cs with
    | 'n' :: 'u' :: 'l' :: 'l' :: rest => some (.null, rest)
    | 't' :: 'r' :: 'u' :: 'e' :: rest => some (.bool true, rest)
    | 'f' :: 'a' :: 'l' :: 's' :: 'e' :: rest => some (.bool false, rest)
    | '"' :: rest => do
      let (s, rest) ← readString (rest.length + 1) rest
      return (.string (String.ofList s), rest)
    | '[' :: rest =>
      match skipBlanks rest with
      | ']' :: rest => some (.array [], rest)
      | rest => do
        let (items, rest) ← readItems fuel rest
        return (.array items, rest)
    | '\x7b' :: rest =>
      match skipBlanks rest with
      | '\x7d' :: rest => some (.object [], rest)
      | rest => do
        let (members, rest) ← readMembers fuel rest
        return (.object members, rest)
    | rest => readNumber rest

/-- The items of an array up to its closing bracket, and what follows that. -/
def readItems (fuel : Nat) (cs : List Char) : Option (List Json × List Char) :=
  match fuel with
  | 0 => none
  | fuel + 1 => do
    let (v, rest) ← readValue fuel cs
    match skipBlanks rest with
    | ',' :: rest =>
      let (items, rest) ← readItems fuel rest
      return (v :: items, rest)
    | ']' :: rest => return ([v], rest)
    | _ => none

/-- The members of an object up to its closing brace, and what follows that. -/
def readMembers (fuel : Nat) (cs : List Char) : Option (List (String × Json) × List Char) :=
  match fuel with
  | 0 => none
  | fuel + 1 =>
    match skipBlanks cs with
    | '"' :: rest => do
      let (key, rest) ← readString (rest.length + 1) rest
      match skipBlanks rest with
      | ':' :: rest =>
        let (v, rest) ← readValue fuel rest
        match skipBlanks rest with
        | ',' :: rest =>
          let (members, rest) ← readMembers fuel rest
          return ((String.ofList key, v) :: members, rest)
        | '\x7d' :: rest => return ([(String.ofList key, v)], rest)
        | _ => none
      | _ => none
    | _ => none

end

/-- The value that a text writes, if it is one JSON value. -/
def parse? (s : String) : Option Json := do
  let cs := s.toList
  let (v, rest) ← readValue (2 * cs.length + 2) cs
  if (skipBlanks rest).isEmpty then some v else none

end FormDrift.Json
