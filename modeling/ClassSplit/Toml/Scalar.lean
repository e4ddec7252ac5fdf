import ClassSplit.Datum.Basic
import ClassSplit.Decimal.Shortest

/-!
The values in a TOML document that have no parts: strings in their four forms, numbers, truth
values, dates and times.
-/

namespace ClassSplit.Toml

/-- The blanks within a line. -/
def isSpace (c : Char) : Bool := c == ' ' || c == '\t'

/-- Whether a character can stand in a comment or a string as it is. -/
def isPlain (c : Char) : Bool := c == '\t' || 32 ≤ c.toNat && c.toNat ≠ 127

def hexValue? (c : Char) : Option Nat :=
  if c.isDigit then some (c.toNat - '0'.toNat)
  else if 'a' ≤ c && c ≤ 'f' then some (c.toNat - 'a'.toNat + 10)
  else if 'A' ≤ c && c ≤ 'F' then some (c.toNat - 'A'.toNat + 10)
  else none

/-- The number that digits to a base denote; there has to be one digit at least. -/
def number? (base : Nat) (cs : List Char) : Option Nat :=
  if cs.isEmpty then none
  else
    cs.foldlM
      (fun n c => (hexValue? c).bind fun v => if v < base then some (n * base + v) else none) 0

/-- The character with a code point. -/
def scalar? (hex : List Char) : Option Char :=
  (number? 16 hex).bind fun n => if n.isValidChar then some (Char.ofNat n) else none

/-- The character that an escape of one letter stands for. -/
def shortEscape? : Char → Option Char
  | 'b' => some '\x08'
  | 't' => some '\t'
  | 'n' => some '\n'
  | 'f' => some '\x0c'
  | 'r' => some '\r'
  | '"' => some '"'
  | '\\' => some '\\'
  | _ => none

def prepend (c : Char) (read : Option (List Char × List Char)) : Option (List Char × List Char) :=
  read.map fun (content, rest) => (c :: content, rest)

def prependEscaped (c : Option Char) (read : Option (List Char × List Char)) :
    Option (List Char × List Char) :=
  c.bind (prepend · read)

/-- The content of a string in double quotes, and what follows it. -/
def quotedString : List Char → Option (List Char × List Char)
  | [] => none
  | '"' :: cs => some ([], cs)
  | '\\' :: 'u' :: a :: b :: c :: d :: cs => prependEscaped (scalar? [a, b, c, d]) (quotedString cs)
  | '\\' :: 'U' :: a :: b :: c :: d :: e :: f :: g :: h :: cs =>
    prependEscaped (scalar? [a, b, c, d, e, f, g, h]) (quotedString cs)
  | '\\' :: c :: cs => prependEscaped (shortEscape? c) (quotedString cs)
  | c :: cs => if isPlain c && c != '\\' then prepend c (quotedString cs) else none

/-- The content of a string in single quotes, which has no escapes. -/
def literalString : List Char → Option (List Char × List Char)
  | [] => none
  | '\'' :: cs => some ([], cs)
  | c :: cs => if isPlain c then prepend c (literalString cs) else none

/-- The end of a string of several lines, given the quotes at the current place. Up to two quotes
in front of the closing ones belong to the content. -/
def closing (quote : Char) (quotes : Nat) (rest : List Char) :
    Option (List Char × List Char) :=
  let inner := min (quotes - 3) 2
  some (List.replicate inner quote, List.replicate (quotes - 3 - inner) quote ++ rest)

def beginsWithLineEnd : List Char → Bool
  | '\n' :: _ | '\r' :: '\n' :: _ => true
  | _ => false

/-- What follows a backslash at the end of a line: blanks and line ends do not count. -/
def afterLineEnd? (cs : List Char) : Option (List Char) :=
  if beginsWithLineEnd (cs.dropWhile isSpace) then
    some (cs.dropWhile fun c => isSpace c || c == '\n' || c == '\r')
  else none

theorem length_afterLineEnd?_le {cs rest : List Char} (h : afterLineEnd? cs = some rest) :
    rest.length ≤ cs.length := by
  unfold afterLineEnd? at h
  split at h
  · simp only [Option.some.injEq] at h
    exact h ▸ (List.dropWhile_suffix _).length_le
  · cases h

/-- The content of a string of several lines. Escapes count only in double quotes. -/
def multilineString (quote : Char) (escapes : Bool) (cs : List Char) :
    Option (List Char × List Char) :=
  match cs with
  | [] => none
  | '\r' :: '\n' :: rest => prepend '\n' (multilineString quote escapes rest)
  | c :: rest =>
    if c = quote then
      let quotes := ((c :: rest).takeWhile (· == quote)).length
      if 3 ≤ quotes then closing quote quotes ((c :: rest).dropWhile (· == quote))
      else prepend c (multilineString quote escapes rest)
    else if c = '\n' then prepend c (multilineString quote escapes rest)
    else if c = '\\' ∧ escapes then
      match rest with
      | 'u' :: a :: b :: c :: d :: rest =>
        prependEscaped (scalar? [a, b, c, d]) (multilineString quote escapes rest)
      | 'U' :: a :: b :: c :: d :: e :: f :: g :: h :: rest =>
        prependEscaped (scalar? [a, b, c, d, e, f, g, h]) (multilineString quote escapes rest)
      | next :: others =>
        match shortEscape? next with
        | some escaped => prepend escaped (multilineString quote escapes others)
        | none =>
          match h : afterLineEnd? (next :: others) with
          | some others => multilineString quote escapes others
          | none => none
      | [] => none
    else if isPlain c then prepend c (multilineString quote escapes rest)
    else none
termination_by cs.length
decreasing_by
  all_goals simp_wf
  all_goals try omega
  have := length_afterLineEnd?_le h
  simp only [List.length_cons] at this
  omega

/-- A line end directly behind the opening quotes does not belong to the content. -/
def dropLineEnd : List Char → List Char
  | '\n' :: cs => cs
  | '\r' :: '\n' :: cs => cs
  | cs => cs

/-- A string of any form, and what follows it. -/
def string? : List Char → Option (List Char × List Char)
  | '"' :: '"' :: '"' :: cs => multilineString '"' true (dropLineEnd cs)
  | '\'' :: '\'' :: '\'' :: cs => multilineString '\'' false (dropLineEnd cs)
  | '"' :: cs => quotedString cs
  | '\'' :: cs => literalString cs
  | _ => none

/-- Digits without the underscores between them. An underscore stands between two digits. -/
def digits? (isDigit : Char → Bool) : List Char → Option (List Char)
  | [] => none
  | [c] => if isDigit c then some [c] else none
  | c :: '_' :: cs => if isDigit c then (digits? isDigit cs).map (c :: ·) else none
  | c :: cs => if isDigit c then (digits? isDigit cs).map (c :: ·) else none

/-- The sign in front of a number, and the rest of it. -/
def splitSign : List Char → Bool × List Char
  | '-' :: cs => (true, cs)
  | '+' :: cs => (false, cs)
  | cs => (false, cs)

/-- The digits in front of a decimal number; only a zero alone begins with zero. -/
def wholeDigits? (cs : List Char) : Option (List Char) :=
  (digits? Char.isDigit cs).filter fun ds => ds.length == 1 || ds.head? != some '0'

def greatestInteger : Int := 9223372036854775807

def leastInteger : Int := -9223372036854775808

def bounded? (i : Int) : Option Datum :=
  if leastInteger ≤ i ∧ i ≤ greatestInteger then some (.int i) else none

def integer? (word : List Char) : Option Datum :=
  match word with
  | '0' :: 'x' :: cs =>
    ((digits? (hexValue? · |>.isSome) cs).bind (number? 16)).bind fun n => bounded? n
  | '0' :: 'o' :: cs => ((digits? Char.isDigit cs).bind (number? 8)).bind fun n => bounded? n
  | '0' :: 'b' :: cs => ((digits? Char.isDigit cs).bind (number? 2)).bind fun n => bounded? n
  | cs =>
    let (negative, cs) := splitSign cs
    ((wholeDigits? cs).bind (number? 10)).bind fun n => bounded? (if negative then -n else n)

/-- The exponent of a number, with its mark; without a mark it is zero. -/
def exponent? : List Char → Option Int
  | [] => some 0
  | mark :: cs =>
    if mark = 'e' ∨ mark = 'E' then
      let (negative, cs) := splitSign cs
      ((digits? Char.isDigit cs).bind (number? 10)).map fun n => if negative then -n else n
    else none

/-- What is shown of a number with a fraction or an exponent. -/
def shown? (negative : Bool) (d : Decimal) : Option Datum :=
  match d.rounded? with
  | some r => some (.float ((if negative then "-" else "") ++ r.positional))
  | none => if negative then some (.float "-inf") else none

def isExponentMark (c : Char) : Bool := c == 'e' || c == 'E'

def float? (word : List Char) : Option Datum :=
  let (negative, cs) := splitSign word
  if cs = ['i', 'n', 'f'] then some (.float (if negative then "-inf" else "inf"))
  else if cs = ['n', 'a', 'n'] then some (.float "NaN")
  else do
    let mantissa := cs.takeWhile (!isExponentMark ·)
    let power := cs.dropWhile (!isExponentMark ·)
    let whole := mantissa.takeWhile (· != '.')
    let behind := mantissa.dropWhile (· != '.')
    if behind.isEmpty && power.isEmpty then none
    else do
      let wholeDigits ← wholeDigits? whole
      let fraction ← if behind.isEmpty then some [] else digits? Char.isDigit (behind.drop 1)
      let e ← exponent? power
      let digits ← number? 10 (wholeDigits ++ fraction)
      shown? negative ⟨digits, e - fraction.length⟩

/-- The number that exactly so many digits denote. -/
def fixedNumber? (count : Nat) (cs : List Char) : Option Nat :=
  if cs.length = count then number? 10 cs else none

def isLeapYear (year : Nat) : Bool := year % 4 == 0 && (year % 100 != 0 || year % 400 == 0)

def daysInMonth (year month : Nat) : Nat :=
  if month = 2 then if isLeapYear year then 29 else 28
  else if [4, 6, 9, 11].contains month then 30
  else 31

def isDate (cs : List Char) : Bool :=
  match fixedNumber? 4 (cs.take 4), fixedNumber? 2 ((cs.drop 5).take 2),
    fixedNumber? 2 (cs.drop 8) with
  | some year, some month, some day =>
    cs[4]? == some '-' && cs[7]? == some '-' && 1 ≤ month && month ≤ 12 && 1 ≤ day
      && day ≤ daysInMonth year month
  | _, _, _ => false

/-- Whether a text is a time of day; a fraction of a second may follow. -/
def isTime (cs : List Char) : Bool :=
  match fixedNumber? 2 (cs.take 2), fixedNumber? 2 ((cs.drop 3).take 2),
      fixedNumber? 2 ((cs.drop 6).take 2) with
  | some hour, some minute, some second =>
    cs[2]? == some ':' && cs[5]? == some ':' && hour ≤ 23 && minute ≤ 59 && second ≤ 60
      && (match cs.drop 8 with
        | [] => true
        | '.' :: fraction => !fraction.isEmpty && fraction.all Char.isDigit
        | _ => false)
  | _, _, _ => false

/-- Whether a text is a distance from universal time. -/
def isZone (cs : List Char) : Bool :=
  match cs with
  | ['Z'] | ['z'] => true
  | sign :: cs =>
    (sign == '+' || sign == '-') && cs[2]? == some ':' &&
      (match fixedNumber? 2 (cs.take 2), fixedNumber? 2 (cs.drop 3) with
        | some hour, some minute => hour ≤ 23 && minute ≤ 59
        | _, _ => false)
  | [] => false

def isZoneStart (c : Char) : Bool := c == 'Z' || c == 'z' || c == '+' || c == '-'

/-- Whether a text is a time, possibly in a zone. -/
def isZonedTime (cs : List Char) : Bool :=
  let zone := cs.dropWhile (!isZoneStart ·)
  isTime (cs.takeWhile (!isZoneStart ·)) && (zone.isEmpty || isZone zone)

def isDateTime (cs : List Char) : Bool :=
  isDate (cs.take 10) &&
    match cs.drop 10 with
    | [] => true
    | mark :: time => (mark == 'T' || mark == 't' || mark == ' ') && isZonedTime time

/-- The characters of numbers, dates and words. -/
def isWordPart (c : Char) : Bool := c.isAlphanum || "+-_.:".toList.contains c

/-- A word, with the time that follows a date behind a space. -/
def word (cs : List Char) : List Char × List Char :=
  let first := cs.takeWhile isWordPart
  let rest := cs.dropWhile isWordPart
  match rest with
  | ' ' :: c :: others =>
    if isDate first && c.isDigit then
      (first ++ ' ' :: (c :: others).takeWhile isWordPart, (c :: others).dropWhile isWordPart)
    else (first, rest)
  | _ => (first, rest)

/-- What a word denotes. -/
def wordValue? (w : List Char) : Option Datum :=
  if w = "true".toList then some (.bool true)
  else if w = "false".toList then some (.bool false)
  else if isDateTime w || isTime w then some .date
  else (integer? w).or (float? w)

end ClassSplit.Toml
