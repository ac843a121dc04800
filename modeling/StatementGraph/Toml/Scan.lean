import StatementGraph.Toml.Value

namespace StatementGraph.Toml

/-- Reads something off the front of the characters. -/
abbrev Scan (α : Type) := List Char → Option (α × List Char)

def isBlank (c : Char) : Bool := c = ' ' || c = '\t'

/-- A character that may stand in a comment: no control but the tab. -/
def isPlain (c : Char) : Bool := c = '\t' || (' ' ≤ c && c ≠ '\x7f')

def skipBlanks (cs : List Char) : List Char := cs.dropWhile isBlank

def skipLines : List Char → List Char
  | ' ' :: rest => skipLines rest
  | '\t' :: rest => skipLines rest
  | '\n' :: rest => skipLines rest
  | '\x0d' :: '\n' :: rest => skipLines rest
  | rest => rest

/-- Skip blanks, line ends and comments. -/
def skipTrivia : Nat → List Char → List Char
  | 0, cs => cs
  | fuel + 1, cs =>
    match skipLines cs with
    | '#' :: rest => skipTrivia fuel (rest.dropWhile isPlain)
    | rest => rest

/-- The end of a line after blanks and perhaps a comment. -/
def lineEnd (cs : List Char) : Option (List Char) :=
  let rest := match skipBlanks cs with
    | '#' :: comment => comment.dropWhile isPlain
    | other => other
  match rest with
  | [] => some []
  | '\n' :: rest => some rest
  | '\x0d' :: '\n' :: rest => some rest
  | _ => none

def digit? (base : Nat) (c : Char) : Option Nat :=
  let value :=
    if '0' ≤ c && c ≤ '9' then c.toNat - '0'.toNat
    else if 'a' ≤ c && c ≤ 'f' then c.toNat - 'a'.toNat + 10
    else if 'A' ≤ c && c ≤ 'F' then c.toNat - 'A'.toNat + 10
    else base
  if value < base then some value else none

def number? (base : Nat) (digits : List Char) : Option Nat :=
  digits.foldlM (fun n c => (digit? base c).map (n * base + ·)) 0

/-- The character that a fixed number of hexadecimal digits stand for. -/
def codePoint (width : Nat) : Scan Char := fun cs => do
  let digits := cs.take width
  if digits.length ≠ width then none
  let n ← number? 16 digits
  if n.isValidChar then some (Char.ofNat n, cs.drop width) else none

def escape : Scan Char
  | 'b' :: rest => some ('\x08', rest)
  | 't' :: rest => some ('\t', rest)
  | 'n' :: rest => some ('\n', rest)
  | 'f' :: rest => some ('\x0c', rest)
  | 'r' :: rest => some ('\x0d', rest)
  | '"' :: rest => some ('"', rest)
  | '\\' :: rest => some ('\\', rest)
  | 'u' :: rest => codePoint 4 rest
  | 'U' :: rest => codePoint 8 rest
  | _ => none

/-- The inside of a string in double quotes, up to the closing quote. -/
def basicBody : Nat → Scan (List Char)
  | 0, _ => none
  | fuel + 1, cs =>
    match cs with
    | '"' :: rest => some ([], rest)
    | '\\' :: rest => do
      let (c, rest) ← escape rest
      let (body, rest) ← basicBody fuel rest
      return (c :: body, rest)
    | c :: rest =>
      if isPlain c then do
        let (body, rest) ← basicBody fuel rest
        return (c :: body, rest)
      else none
    | [] => none

/-- The inside of a string in single quotes, up to the closing quote. -/
def literalBody : Scan (List Char)
  | '\'' :: rest => some ([], rest)
  | c :: rest =>
    if isPlain c then do
      let (body, rest) ← literalBody rest
      return (c :: body, rest)
    else none
  | [] => none

/-- The quotes at the end of a string in three quotes: up to two more belong to the string. -/
def closing (quote : Char) (cs : List Char) : List Char × List Char :=
  let extra := if cs.take 2 = [quote, quote] then 2 else if cs.take 1 = [quote] then 1 else 0
  (List.replicate extra quote, cs.drop extra)

/-- The inside of a string in three double quotes. -/
def longBasicBody : Nat → Scan (List Char)
  | 0, _ => none
  | fuel + 1, cs =>
    let keep (c : Char) (rest : List Char) : Option (List Char × List Char) := do
      let (body, rest) ← longBasicBody fuel rest
      return (c :: body, rest)
    match cs with
    | '"' :: '"' :: '"' :: rest => some (closing '"' rest)
    | '\\' :: rest =>
      match skipBlanks rest with
      | '\n' :: after => longBasicBody fuel (skipLines after)
      | '\x0d' :: '\n' :: after => longBasicBody fuel (skipLines after)
      | _ => do
        let (c, rest) ← escape rest
        keep c rest
    | '\n' :: rest => keep '\n' rest
    | '\x0d' :: '\n' :: rest => keep '\n' rest
    | c :: rest => if isPlain c then keep c rest else none
    | [] => none

/-- The inside of a string in three single quotes. -/
def longLiteralBody : Nat → Scan (List Char)
  | 0, _ => none
  | fuel + 1, cs =>
    let keep (c : Char) (rest : List Char) : Option (List Char × List Char) := do
      let (body, rest) ← longLiteralBody fuel rest
      return (c :: body, rest)
    match cs with
    | '\'' :: '\'' :: '\'' :: rest => some (closing '\'' rest)
    | '\n' :: rest => keep '\n' rest
    | '\x0d' :: '\n' :: rest => keep '\n' rest
    | c :: rest => if isPlain c then keep c rest else none
    | [] => none

/-- A line end right after three opening quotes does not count. -/
def skipFirstLineEnd : List Char → List Char
  | '\n' :: rest => rest
  | '\x0d' :: '\n' :: rest => rest
  | rest => rest

/-- A string in single or double quotes, on one line. -/
def shortString : Scan (List Char)
  | '"' :: rest => basicBody (rest.length + 1) rest
  | '\'' :: rest => literalBody rest
  | _ => none

def anyString : Scan (List Char)
  | '"' :: '"' :: '"' :: rest => longBasicBody (rest.length + 1) (skipFirstLineEnd rest)
  | '\'' :: '\'' :: '\'' :: rest => longLiteralBody (rest.length + 1) (skipFirstLineEnd rest)
  | cs => shortString cs

def isBare (c : Char) : Bool := c.isAlphanum || c = '_' || c = '-'

def keyPart (cs : List Char) : Option (String × List Char) :=
  match cs with
  | '"' :: _ => (shortString cs).map fun (body, rest) => (String.ofList body, rest)
  | '\'' :: _ => (shortString cs).map fun (body, rest) => (String.ofList body, rest)
  | _ =>
    let bare := cs.takeWhile isBare
    if bare.isEmpty then none else some (String.ofList bare, cs.dropWhile isBare)

/-- How many parts a key may have, and how deep arrays and tables in braces may be nested. -/
def deepest : Nat := 79

/-- A key of at most the given number of parts, divided by dots with blanks around them. -/
def keyParts : Nat → Scan (List String)
  | 0, _ => none
  | room + 1, cs => do
    let (part, rest) ← keyPart (skipBlanks cs)
    match skipBlanks rest with
    | '.' :: rest => do
      let (parts, rest) ← keyParts room rest
      return (part :: parts, rest)
    | rest => return ([part], rest)

def keyPath : Scan (List String) := keyParts deepest

/-- Digits of a base. `inside` says that a digit stands before, so an underscore may follow. -/
def digitsFrom (base : Nat) (inside : Bool) : List Char → List Char × List Char
  | [] => ([], [])
  | c :: rest =>
    if (digit? base c).isSome then
      let (digits, rest) := digitsFrom base true rest
      (c :: digits, rest)
    else if c = '_' && inside && (rest.head?.bind (digit? base)).isSome then
      digitsFrom base false rest
    else ([], c :: rest)

def digitRun (base : Nat) (cs : List Char) : List Char × List Char := digitsFrom base false cs

def word? (n : Int) : Option Value :=
  if -9223372036854775808 ≤ n && n ≤ 9223372036854775807 then some (.integer n) else none

/-- An integer in a base that its first two characters name. -/
def based (base : Nat) (cs : List Char) : Option (Value × List Char) := do
  let (digits, rest) := digitRun base cs
  if digits.isEmpty then none
  let n ← number? base digits
  let value ← word? n
  return (value, rest)

def exponent : Scan (Option Int)
  | [] => some (none, [])
  | e :: rest =>
    if e = 'e' || e = 'E' then do
      let (negative, unsigned) := match rest with
        | '+' :: r => (false, r)
        | '-' :: r => (true, r)
        | r => (false, r)
      let (digits, rest) := digitRun 10 unsigned
      if digits.isEmpty then none
      let n ← number? 10 digits
      return (some (if negative then -(n : Int) else n), rest)
    else some (none, e :: rest)

/-- Half a step beyond the largest finite number; rounding takes this and more to infinity. -/
def infinityFrom : Nat := Nat.pow 2 1024 - Nat.pow 2 970

/-- Whether `n` times a power of ten rounds to infinity. -/
def overflows (n : Nat) (power : Int) : Bool :=
  let digits : Int := (Nat.toDigits 10 n).length + power
  n ≠ 0 && (309 < digits ||
    (digits = 309 && infinityFrom * Nat.pow 10 (-power).toNat ≤ n * Nat.pow 10 power.toNat))

/-- A number with a fraction or an exponent. A negative one may be too large for 64 bits. -/
def float? (negative : Bool) (n : Nat) (power : Int) : Option Value :=
  if !negative && overflows n power then none else some .float

/-- A number in the base ten after its sign. -/
def decimal (negative : Bool) (cs : List Char) : Option (Value × List Char) := do
  let (digits, rest) := match cs with
    | '0' :: rest => (['0'], rest)
    | _ => digitRun 10 cs
  if digits.isEmpty then none
  match rest with
  | '.' :: fraction => do
    let (places, rest) := digitRun 10 fraction
    if places.isEmpty then none
    let (power, rest) ← exponent rest
    let n ← number? 10 (digits ++ places)
    let value ← float? negative n (power.getD 0 - places.length)
    return (value, rest)
  | _ => do
    let (power, rest) ← exponent rest
    let n ← number? 10 digits
    let value ← match power with
      | some power => float? negative n power
      | none => word? (if negative then -(n : Int) else n)
    return (value, rest)

def signed (negative : Bool) : Scan Value
  | 'i' :: 'n' :: 'f' :: rest => some (.float, rest)
  | 'n' :: 'a' :: 'n' :: rest => some (.float, rest)
  | cs => decimal negative cs

def number : Scan Value
  | '+' :: rest => signed false rest
  | '-' :: rest => signed true rest
  | '0' :: 'x' :: rest => based 16 rest
  | '0' :: 'o' :: rest => based 8 rest
  | '0' :: 'b' :: rest => based 2 rest
  | cs => signed false cs

def fixed (width : Nat) : Scan Nat := fun cs => do
  let digits := cs.take width
  if digits.length ≠ width then none
  let n ← number? 10 digits
  return (n, cs.drop width)

def daysIn (year month : Nat) : Nat :=
  if month = 2 then
    if year % 4 = 0 && (year % 100 ≠ 0 || year % 400 = 0) then 29 else 28
  else if month = 4 || month = 6 || month = 9 || month = 11 then 30
  else 31

def expect (c : Char) (cs : List Char) : Option (List Char) :=
  match cs with
  | d :: rest => if d = c then some rest else none
  | [] => none

def date (cs : List Char) : Option (List Char) := do
  let (year, rest) ← fixed 4 cs
  let rest ← expect '-' rest
  let (month, rest) ← fixed 2 rest
  let rest ← expect '-' rest
  let (day, rest) ← fixed 2 rest
  if 1 ≤ month && month ≤ 12 && 1 ≤ day && day ≤ daysIn year month then some rest else none

def timeOfDay (cs : List Char) : Option (List Char) := do
  let (hour, rest) ← fixed 2 cs
  let rest ← expect ':' rest
  let (minute, rest) ← fixed 2 rest
  let rest ← expect ':' rest
  let (second, rest) ← fixed 2 rest
  if hour ≤ 23 && minute ≤ 59 && second ≤ 60 then
    match rest with
    | '.' :: fraction =>
      if (fraction.takeWhile Char.isDigit).isEmpty then none
      else some (fraction.dropWhile Char.isDigit)
    | _ => some rest
  else none

def offset (cs : List Char) : Option (List Char) :=
  match cs with
  | 'Z' :: rest => some rest
  | 'z' :: rest => some rest
  | sign :: rest =>
    if sign = '+' || sign = '-' then do
      let (hour, rest) ← fixed 2 rest
      let rest ← expect ':' rest
      let (minute, rest) ← fixed 2 rest
      if hour ≤ 23 && minute ≤ 59 then some rest else none
    else none
  | [] => none

/-- A point in time: a day, a time of day, or both with or without an offset. -/
def moment (cs : List Char) : Option (List Char) :=
  match date cs with
  | none => timeOfDay cs
  | some afterDay =>
    match afterDay with
    | [] => some []
    | divider :: rest =>
      if divider = 'T' || divider = 't' || divider = ' ' then
        match timeOfDay rest with
        | some afterTime => some ((offset afterTime).getD afterTime)
        | none => some afterDay
      else some afterDay

def arrayItems (item : Scan Value) : Nat → Scan (List Value)
  | 0, _ => none
  | fuel + 1, cs =>
    match skipTrivia cs.length cs with
    | ']' :: rest => some ([], rest)
    | cs => do
      let (value, rest) ← item cs
      match skipTrivia rest.length rest with
      | ',' :: rest => do
        let (values, rest) ← arrayItems item fuel rest
        return (value :: values, rest)
      | ']' :: rest => return ([value], rest)
      | _ => none

def keyValue (value : Scan Value) (cs : List Char) :
    Option ((List String × Value) × List Char) := do
  let (key, rest) ← keyPath cs
  let rest ← expect '=' rest
  let (v, rest) ← value (skipBlanks rest)
  return ((key, v), rest)

/-- The entries of a table in braces, at least one of them still to come. -/
def braceEntries (value : Scan Value) : Nat → Entries → Scan Entries
  | 0, _, _ => none
  | fuel + 1, entries, cs => do
    let ((key, v), rest) ← keyValue value cs
    let entries ← assignKey key v ⟨false, entries⟩
    match skipBlanks rest with
    | ',' :: rest => braceEntries value fuel entries rest
    | '\x7d' :: rest => return (entries, rest)
    | _ => none

def scalar (cs : List Char) : Option (Value × List Char) :=
  match cs with
  | '"' :: _ => (anyString cs).map fun (body, rest) => (.text (String.ofList body), rest)
  | '\'' :: _ => (anyString cs).map fun (body, rest) => (.text (String.ofList body), rest)
  | 't' :: 'r' :: 'u' :: 'e' :: rest => some (.boolean true, rest)
  | 'f' :: 'a' :: 'l' :: 's' :: 'e' :: rest => some (.boolean false, rest)
  | _ =>
    match moment cs with
    | some rest => some (.moment, rest)
    | none => number cs

/-- A value whose arrays and tables lie at most `depth` deep in one another. -/
def valueWithin : Nat → Scan Value
  | 0, cs => scalar cs
  | depth + 1, cs =>
    match cs with
    | '[' :: rest =>
      (arrayItems (valueWithin depth) (rest.length + 1) rest).map fun (items, rest) =>
        (.array items, rest)
    | '\x7b' :: rest =>
      match skipBlanks rest with
      | '\x7d' :: rest => some (.inline [], rest)
      | rest =>
        (braceEntries (valueWithin depth) (rest.length + 1) [] rest).map fun (entries, rest) =>
          (.inline entries, rest)
    | _ => scalar cs

def value : Scan Value := valueWithin deepest

end StatementGraph.Toml
