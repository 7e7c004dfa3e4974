/-
  The words of a TOML text — blanks, comments, keys, strings, numbers and times.

  Each reader takes the characters from where its part starts and gives what it read and
  the characters after it. `text` readers start after the opening quotes.
-/
import FormDrift.Decimal.Bounds
import FormDrift.Toml.Value
import FormDrift.Yaml.Scalar

namespace FormDrift.Toml

/-- A space or a tab. -/
def isBlank (c : Char) : Bool := c = ' ' || c = '\t'

/-- A character that may stand in a comment, and in a literal string if it is no quote: no
control character but the tab. -/
def isPlain (c : Char) : Bool := c = '\t' || (0x20 ≤ c.toNat && c.toNat != 0x7f)

/-- The characters after the blanks. -/
def skipBlanks (cs : List Char) : List Char := cs.dropWhile isBlank

/-- The characters after the line break, if one stands there. -/
def lineBreak? : List Char → Option (List Char)
  | '\n' :: rest => some rest
  | '\x0d' :: '\n' :: rest => some rest
  | _ => none

/-- The characters after the blanks and the comment that end a line; its break
remains. -/
def skipLineEnd (cs : List Char) : List Char :=
  match skipBlanks cs with
  | '#' :: rest => rest.dropWhile isPlain
  | rest => rest

theorem length_dropWhile_le (p : Char → Bool) (cs : List Char) :
    (cs.dropWhile p).length ≤ cs.length := (List.dropWhile_sublist p).length_le

theorem length_skipLineEnd_le (cs : List Char) : (skipLineEnd cs).length ≤ cs.length := by
  have hb : (skipBlanks cs).length ≤ cs.length := length_dropWhile_le _ cs
  unfold skipLineEnd
  split
  · rename_i rest h
    have := length_dropWhile_le isPlain rest
    rw [h, List.length_cons] at hb
    omega
  · exact hb

theorem length_lt_of_lineBreak? {cs rest : List Char} (h : lineBreak? cs = some rest) :
    rest.length < cs.length := by
  unfold lineBreak? at h
  split at h
  · simp only [Option.some.injEq] at h; subst h; simp only [List.length_cons]; omega
  · simp only [Option.some.injEq] at h; subst h; simp only [List.length_cons]; omega
  · simp at h

/-- The characters after blanks, comments and line breaks. -/
def skipLines (cs : List Char) : List Char :=
  match _h : lineBreak? (skipLineEnd cs) with
  | some rest => skipLines rest
  | none => skipLineEnd cs
termination_by cs.length
decreasing_by
  have := length_lt_of_lineBreak? _h
  have := length_skipLineEnd_le cs
  omega

/-! ### Strings -/

/-- The character of an escape, and what follows it, from after the backslash. -/
def escape? (cs : List Char) : Option (Char × List Char) :=
  let code (n : Nat) (rest : List Char) : Option (Char × List Char) := do
    let digits := rest.take n
    if digits.length ≠ n then none
    let c ← (Yaml.hexNumber? digits).bind Yaml.charOf?
    return (c, rest.drop n)
  match cs with
  | [] => none
  | c :: rest =>
    if c = 'b' then some ('\x08', rest)
    else if c = 't' then some ('\t', rest)
    else if c = 'n' then some ('\n', rest)
    else if c = 'f' then some ('\x0c', rest)
    else if c = 'r' then some ('\x0d', rest)
    else if c = '"' || c = '\\' then some (c, rest)
    else if c = 'u' then code 4 rest
    else if c = 'U' then code 8 rest
    else none

/-- The text of a basic string on one line. -/
def basicText (fuel : Nat) (text : String) (cs : List Char) : Option (String × List Char) :=
  match fuel, cs with
  | 0, _ => none
  | _, [] => none
  | fuel + 1, c :: rest =>
    if c = '"' then some (text, rest)
    else if c = '\\' then do
      let (a, rest) ← escape? rest
      basicText fuel (text.push a) rest
    else if isPlain c then basicText fuel (text.push c) rest
    else none

/-- The text of a literal string on one line. -/
def literalText (text : String) : List Char → Option (String × List Char)
  | [] => none
  | c :: rest =>
    if c = '\'' then some (text, rest)
    else if isPlain c then literalText (text.push c) rest
    else none

/-- The quotes at the start, at most five, if they are enough to close a string of several
lines: how many of them belong to the text, and what follows them. -/
def closingQuotes? (quote : Char) (cs : List Char) : Option (Nat × List Char) :=
  let n := min 5 (cs.takeWhile (· = quote)).length
  if 3 ≤ n then some (n - 3, cs.drop n) else none

/-- The characters after a backslash at the end of a line and the blanks and line breaks
behind it; nothing if no line ends there. -/
def continued? (cs : List Char) : Option (List Char) :=
  (lineBreak? (skipBlanks cs)).map fun rest =>
    rest.dropWhile fun c => isBlank c || c = '\n' || c = '\x0d'

/-- The text of a basic string of several lines. -/
def basicLines (fuel : Nat) (text : String) (cs : List Char) : Option (String × List Char) :=
  match fuel, cs with
  | 0, _ => none
  | _, [] => none
  | fuel + 1, c :: rest =>
    if c = '"' then
      match closingQuotes? '"' (c :: rest) with
      | some (n, rest) => some (text ++ String.ofList (List.replicate n '"'), rest)
      | none => basicLines fuel (text.push c) rest
    else if c = '\\' then
      match continued? rest with
      | some rest => basicLines fuel text rest
      | none => do
        let (a, rest) ← escape? rest
        basicLines fuel (text.push a) rest
    else match lineBreak? (c :: rest) with
      | some rest => basicLines fuel (text.push '\n') rest
      | none => if isPlain c then basicLines fuel (text.push c) rest else none

/-- The text of a literal string of several lines. -/
def literalLines (fuel : Nat) (text : String) (cs : List Char) : Option (String × List Char) :=
  match fuel, cs with
  | 0, _ => none
  | _, [] => none
  | fuel + 1, c :: rest =>
    if c = '\'' then
      match closingQuotes? '\'' (c :: rest) with
      | some (n, rest) => some (text ++ String.ofList (List.replicate n '\''), rest)
      | none => literalLines fuel (text.push c) rest
    else match lineBreak? (c :: rest) with
      | some rest => literalLines fuel (text.push '\n') rest
      | none => if isPlain c then literalLines fuel (text.push c) rest else none

/-- The characters without a line break at their start. -/
def dropFirstBreak (cs : List Char) : List Char := (lineBreak? cs).getD cs

/-- A string, from its opening quotes on. -/
def string? (cs : List Char) : Option (String × List Char) :=
  match cs with
  | '"' :: '"' :: '"' :: rest => basicLines (rest.length + 1) "" (dropFirstBreak rest)
  | '\'' :: '\'' :: '\'' :: rest => literalLines (rest.length + 1) "" (dropFirstBreak rest)
  | '"' :: rest => basicText (rest.length + 1) "" rest
  | '\'' :: rest => literalText "" rest
  | _ => none

/-! ### Keys -/

/-- One part of a key: a bare word, or a string on one line. -/
def keyPart? (cs : List Char) : Option (String × List Char) :=
  match cs with
  | '"' :: rest => basicText (rest.length + 1) "" rest
  | '\'' :: rest => literalText "" rest
  | cs =>
    let word := cs.takeWhile Yaml.isNameChar
    if word.isEmpty then none else some (String.ofList word, cs.drop word.length)

/-- A key: parts with dots between them, and blanks around each. -/
def key? (fuel : Nat) (cs : List Char) : Option (List String × List Char) :=
  match fuel with
  | 0 => none
  | fuel + 1 => do
    let (part, rest) ← keyPart? (skipBlanks cs)
    match skipBlanks rest with
    | '.' :: rest =>
      let (parts, rest) ← key? fuel rest
      return (part :: parts, rest)
    | rest => return ([part], rest)

/-! ### Numbers -/

/-- Digits with single underscores between them, and what follows. -/
def digitRun? (isDigit : Char → Bool) (cs : List Char) : Option (List Char × List Char) :=
  let run := cs.takeWhile fun c => isDigit c || c = '_'
  let twice := (run.zip run.tail).any fun (a, b) => a = '_' && b = '_'
  if run.isEmpty || twice || run.head? == some '_' || run.getLast? == some '_' then none
  else some (run.filter (· ≠ '_'), cs.drop run.length)

/-- A digit of a base up to sixteen. -/
def isDigitOf (base : Nat) (c : Char) : Bool := (Yaml.hexDigit? c).any (· < base)

/-- The number that digits of a base write. -/
def numberOf (base : Nat) (cs : List Char) : Nat :=
  cs.foldl (fun n c => n * base + (Yaml.hexDigit? c).getD 0) 0

/-- A whole number that fits 64 bits with a sign. -/
def int64? (n : Int) : Option Toml :=
  if Decimal.fitsSigned 64 n then some (.int n) else none

/-- A whole number in a base other than ten, after the letter of the base. -/
def based? (base : Nat) (cs : List Char) : Option (Toml × List Char) := do
  let (digits, rest) ← digitRun? (isDigitOf base) cs
  return (← int64? (numberOf base digits), rest)

/-- The characters after the exponent of a double, if there is one. -/
def exponent? (cs : List Char) : Option (List Char) :=
  match cs with
  | c :: rest =>
    if c = 'e' || c = 'E' then do
      let rest := if rest.head? == some '+' || rest.head? == some '-' then rest.tail else rest
      let (_, rest) ← digitRun? Char.isDigit rest
      return rest
    else some (c :: rest)
  | [] => some []

/-- A decimal number: a whole one, or a double with a fraction or an exponent. -/
def decimal? (negative : Bool) (cs : List Char) : Option (Toml × List Char) := do
  let (digits, rest) ← digitRun? Char.isDigit cs
  if digits.length > 1 && digits.head? == some '0' then none
  match rest with
  | '.' :: rest =>
    let (_, rest) ← digitRun? Char.isDigit rest
    return (.other, ← exponent? rest)
  | c :: _ =>
    if c = 'e' || c = 'E' then return (.other, ← exponent? rest)
    let n : Int := numberOf 10 digits
    return (← int64? (if negative then -n else n), rest)
  | [] =>
    let n : Int := numberOf 10 digits
    return (← int64? (if negative then -n else n), rest)

/-- A number, an infinity or a NaN. -/
def number? (cs : List Char) : Option (Toml × List Char) :=
  match cs with
  | '0' :: 'x' :: rest => based? 16 rest
  | '0' :: 'o' :: rest => based? 8 rest
  | '0' :: 'b' :: rest => based? 2 rest
  | 'i' :: 'n' :: 'f' :: rest => some (.other, rest)
  | 'n' :: 'a' :: 'n' :: rest => some (.other, rest)
  | c :: 'i' :: 'n' :: 'f' :: rest =>
    if c = '+' || c = '-' then some (.other, rest) else none
  | c :: 'n' :: 'a' :: 'n' :: rest =>
    if c = '+' || c = '-' then some (.other, rest) else none
  | '+' :: rest => decimal? false rest
  | '-' :: rest => decimal? true rest
  | cs => decimal? false cs

/-! ### Dates and times -/

/-- The number of exactly `n` digits, and what follows. -/
def fixedDigits? (n : Nat) (cs : List Char) : Option (Nat × List Char) :=
  let digits := cs.take n
  if digits.length = n && digits.all Char.isDigit then some (numberOf 10 digits, cs.drop n)
  else none

/-- The number of days of a month. -/
def monthDays (year month : Nat) : Nat :=
  if month = 2 then
    if year % 4 = 0 && (year % 100 ≠ 0 || year % 400 = 0) then 29 else 28
  else if month = 4 || month = 6 || month = 9 || month = 11 then 30
  else 31

/-- The characters after a date. -/
def date? (cs : List Char) : Option (List Char) := do
  let (year, rest) ← fixedDigits? 4 cs
  let '-' :: rest := rest | none
  let (month, rest) ← fixedDigits? 2 rest
  let '-' :: rest := rest | none
  let (day, rest) ← fixedDigits? 2 rest
  if 1 ≤ month && month ≤ 12 && 1 ≤ day && day ≤ monthDays year month then some rest else none

/-- The characters after a time of day. -/
def time? (cs : List Char) : Option (List Char) := do
  let (hour, rest) ← fixedDigits? 2 cs
  let ':' :: rest := rest | none
  let (minute, rest) ← fixedDigits? 2 rest
  let ':' :: rest := rest | none
  let (second, rest) ← fixedDigits? 2 rest
  if 23 < hour || 59 < minute || 60 < second then none
  match rest with
  | '.' :: rest =>
    if rest.head?.any Char.isDigit then some (rest.dropWhile Char.isDigit) else none
  | rest => some rest

/-- The characters after the offset of a time from the universal one, if it has one. -/
def offset? (cs : List Char) : Option (List Char) :=
  match cs with
  | 'Z' :: rest => some rest
  | 'z' :: rest => some rest
  | c :: rest =>
    if c = '+' || c = '-' then do
      let (hour, rest) ← fixedDigits? 2 rest
      let ':' :: rest := rest | none
      let (minute, rest) ← fixedDigits? 2 rest
      if 23 < hour || 59 < minute then none else some rest
    else some (c :: rest)
  | [] => some []

/-- The characters after a date, a time, or a date with a time. -/
def dateTime? (cs : List Char) : Option (List Char) :=
  match date? cs with
  | none => time? cs
  | some rest =>
    match rest with
    | c :: after =>
      if c = 'T' || c = 't' then (time? after).bind offset?
      else if c = ' ' && after.head?.any Char.isDigit then (time? after).bind offset?
      else some rest
    | [] => some []

/-- Whether the digits at the start are those of a date or a time. -/
def startsDateTime (cs : List Char) : Bool :=
  let n := (cs.takeWhile Char.isDigit).length
  (n = 4 && cs[4]? == some '-') || (n = 2 && cs[2]? == some ':')

end FormDrift.Toml
