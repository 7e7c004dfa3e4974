/-
  The core schema — what a plain scalar of a YAML text means.

  A scalar without quotes is null, a boolean, a whole number, a double or, failing these,
  a string. Digits after a leading zero make no number, so that codes and dates keep their
  text. Whole numbers may be hexadecimal, octal or binary.
-/
import FormDrift.Decimal.Bounds
import FormDrift.Text.Bytes
import FormDrift.Yaml.Cursor
import FormDrift.Yaml.Scalar
import FormDrift.Yaml.Value

namespace FormDrift.Yaml.Core

/-- Null: one of four spellings. -/
def isNull (s : String) : Bool :=
  s == "null" || s == "Null" || s == "NULL" || s == "~"

/-- A boolean: one of six spellings. -/
def bool? (s : String) : Option Bool :=
  if s == "true" || s == "True" || s == "TRUE" then some true
  else if s == "false" || s == "False" || s == "FALSE" then some false
  else none

/-! ### Whole numbers -/

/-- The value of a digit in some base up to sixteen. -/
def digit? (base : Nat) (c : Char) : Option Nat :=
  (hexDigit? c).bind fun d => if d < base then some d else none

/-- The number that digits of a base write, if there is at least one. -/
def digits? (base : Nat) (cs : List Char) : Option Nat :=
  if cs.isEmpty then none
  else cs.foldlM (fun n c => (digit? base c).map (n * base + ·)) 0

/-- Whether a zero is followed by nothing but digits, and by at least one. -/
def hasLeadingZero (cs : List Char) : Bool :=
  let cs := match cs with
    | '-' :: rest => rest
    | '+' :: rest => rest
    | cs => cs
  cs.length > 1 && cs.head? == some '0' && cs.tail.all Char.isDigit

/-- Digits in the base that the characters before them say, or decimal digits. -/
def unsigned? : List Char → Option Nat
  | '0' :: 'x' :: rest => digits? 16 rest
  | '0' :: 'o' :: rest => digits? 8 rest
  | '0' :: 'b' :: rest => digits? 2 rest
  | cs => digits? 10 cs

/-- The whole number that a text writes, of any size. -/
def int? (cs : List Char) : Option Int :=
  if hasLeadingZero cs then none
  else match cs with
    | '-' :: rest => (unsigned? rest).map fun n => -(n : Int)
    | '+' :: rest => (unsigned? rest).map fun n => (n : Int)
    | cs => (unsigned? cs).map fun n => (n : Int)

/-! ### Doubles -/

/-- The number that decimal digits write. -/
def decimal (cs : List Char) : Nat := cs.foldl (fun n c => n * 10 + (c.toNat - 0x30)) 0

/-- The exponent of a decimal: a letter, a sign if there is one, and digits. -/
def exponent? : List Char → Option Int
  | [] => some 0
  | c :: rest =>
    if c = 'e' ∨ c = 'E' then
      let minus := rest.head? == some '-'
      let digits := if minus || rest.head? == some '+' then rest.tail else rest
      if digits.isEmpty || !digits.all Char.isDigit then none
      else some (if minus then -(decimal digits : Int) else decimal digits)
    else none

/-- The finite double that a decimal without a sign writes. -/
def finite? (negative : Bool) (cs : List Char) : Option Binary64 := do
  let whole := cs.takeWhile Char.isDigit
  let rest := cs.dropWhile Char.isDigit
  let (fraction, rest) := match rest with
    | '.' :: rest => (rest.takeWhile Char.isDigit, rest.dropWhile Char.isDigit)
    | rest => ([], rest)
  if whole.isEmpty && fraction.isEmpty then none
  let exponent ← exponent? rest
  let x := Binary64.ofDecimal negative (decimal (whole ++ fraction)) (exponent - fraction.length)
  if x.isFinite then some x else none

/-- The double that a text writes. -/
def float? (s : String) : Option Binary64 :=
  if s == ".nan" || s == ".NaN" || s == ".NAN" then some .nan
  else match s.toList with
    | '+' :: rest =>
      let t := String.ofList rest
      if t == ".inf" || t == ".Inf" || t == ".INF" then some (.infinity false)
      else finite? false rest
    | '-' :: rest =>
      let t := String.ofList rest
      if t == ".inf" || t == ".Inf" || t == ".INF" then some (.infinity true)
      else finite? true rest
    | cs =>
      if s == ".inf" || s == ".Inf" || s == ".INF" then some (.infinity false)
      else finite? false cs

/-! ### Scalars -/

/-- A whole number, if the text writes one; one that fits 128 bits but not 64 is a
fault, and a larger one is no whole number. -/
def number? (s : String) : Except Fault (Option Value) :=
  match int? s.toList with
  | none => return none
  | some n =>
    if Decimal.fitsSigned 64 n || Decimal.fitsUnsigned 64 n then return some (.number (.int n))
    else if Decimal.fitsSigned 128 n || Decimal.fitsUnsigned 128 n then throw .integer
    else return none

/-- The value of a plain scalar without a tag. -/
def plain (s : String) : Except Fault Value := do
  if s.isEmpty || isNull s then return .null
  if let some b := bool? s then return .bool b
  if let some v ← number? s then return v
  if !hasLeadingZero s.toList then
    if let some x := float? s then return .number (.float x)
  return .string s

/-- The tags of the core schema. -/
def tagPrefixed (name : String) : Bytes := .ofString ("tag:yaml.org,2002:" ++ name)

/-- The value of a scalar whose tag is not its own: a core tag says how to read it, and
any other keeps the text. -/
def tagged (tag : Bytes) (s : String) (isPlain : Bool) : Except Fault Value := do
  if tag == tagPrefixed "bool" then
    match bool? s with
    | some b => return .bool b
    | none => throw .tag
  else if tag == tagPrefixed "int" then
    match ← number? s with
    | some v => return v
    | none => throw .tag
  else if tag == tagPrefixed "float" then
    match float? s with
    | some x => return .number (.float x)
    | none => throw .tag
  else if tag == tagPrefixed "null" then
    if isNull s then return .null else throw .tag
  else if tag[0]? == some 0x21 && isPlain then plain s
  else return .string s

end FormDrift.Yaml.Core
