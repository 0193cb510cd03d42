import Pypilot.Lib.ExtRat
import Pypilot.Lib.Text

/-!
# `strtof`

The numeric literals of C: blanks, a sign, then an infinity, not-a-number, a hexadecimal or a decimal
number. The longest prefix that is a literal counts. Values are exact: rounding to the target format,
and with it overflow, is left to the caller.
-/

namespace Strtof

open Text

/-- `isspace`. -/
def isSpace (c : Byte) : Bool := c = chr ' ' || (9 ≤ c.toNat && c.toNat ≤ 13)

/-- The value of a digit in bases up to sixteen. -/
def digitValue (c : Byte) : Option ℕ :=
  let n := c.toNat
  if 48 ≤ n ∧ n ≤ 57 then some (n - 48)
  else if 65 ≤ n ∧ n ≤ 70 then some (n - 55)
  else if 97 ≤ n ∧ n ≤ 102 then some (n - 87)
  else none

/-- A digit of the base `b`. -/
def isDigit (b : ℕ) (c : Byte) : Bool :=
  match digitValue c with
  | some d => d < b
  | none => false

/-- The number a string of digits denotes, continuing `acc`. -/
def ofDigits (b : ℕ) (acc : ℕ) (ds : Text) : ℕ :=
  ds.foldl (fun n c => b * n + (digitValue c).getD 0) acc

/-- ASCII lower case. -/
def lower (c : Byte) : Byte := if 65 ≤ c.toNat ∧ c.toNat ≤ 90 then c + 32 else c

/-- What follows the word `w` at the front of `s`, whatever the case of its letters. -/
def word (w : Text) (s : Text) : Option Text :=
  if (s.take w.length).map lower = w then some (s.drop w.length) else none

/-- An optional sign: whether it is a minus, and what follows it. -/
def signed : Text → Bool × Text
  | [] => (false, [])
  | c :: s => if c = chr '-' then (true, s) else if c = chr '+' then (false, s) else (false, c :: s)

/-- Digits with an optional point among them: the number without the point, how many digits follow
the point, and the rest. `none` when there is no digit. -/
def mantissa (b : ℕ) (s : Text) : Option (ℕ × ℕ × Text) :=
  let whole := s.takeWhile (isDigit b)
  let rest := s.dropWhile (isDigit b)
  match rest with
  | c :: t =>
    if c = chr '.' then
      let frac := t.takeWhile (isDigit b)
      if whole = [] ∧ frac = [] then none
      else some (ofDigits b (ofDigits b 0 whole) frac, frac.length, t.dropWhile (isDigit b))
    else if whole = [] then none else some (ofDigits b 0 whole, 0, rest)
  | [] => if whole = [] then none else some (ofDigits b 0 whole, 0, [])

/-- An optional exponent after the letter `letter`; an exponent without digits is not one. -/
def exponent (letter : Byte) (s : Text) : ℤ × Text :=
  match s with
  | [] => (0, [])
  | c :: t =>
    let (neg, u) := signed t
    let ds := u.takeWhile (isDigit 10)
    if lower c = letter ∧ ds ≠ [] then
      (if neg then -(ofDigits 10 0 ds : ℤ) else ofDigits 10 0 ds, u.dropWhile (isDigit 10))
    else (0, s)

/-- A number in base `b` with an exponent of base `e`. -/
def number (b : ℕ) (e : ℚ) (letter : Byte) (s : Text) : Option (ℚ × Text) :=
  match mantissa b s with
  | none => none
  | some (n, k, t) =>
    let (x, rest) := exponent letter t
    some (n / (b : ℚ) ^ k * e ^ x, rest)

/-- The payload `(letters, digits and underscores)` that may follow `nan`. -/
def nanPayload (s : Text) : Text :=
  match s with
  | [] => []
  | c :: t =>
    let isWord (c : Byte) : Bool :=
      isDigit 10 c || (97 ≤ (lower c).toNat && (lower c).toNat ≤ 122) || c = chr '_'
    match t.dropWhile isWord with
    | d :: rest => if c = chr '(' ∧ d = chr ')' then rest else s
    | [] => s

/-- A literal without its sign. -/
def unsigned (s : Text) : Option (ExtRat × Text) :=
  match word (lit "infinity") s, word (lit "inf") s, word (lit "nan") s with
  | some rest, _, _ => some (.inf false, rest)
  | none, some rest, _ => some (.inf false, rest)
  | none, none, some rest => some (.nan, nanPayload rest)
  | none, none, none =>
    match (word (lit "0x") s).bind (number 16 2 (chr 'p')) with
    | some (q, rest) => some (.fin q, rest)
    | none => (number 10 10 (chr 'e') s).map fun p => (.fin p.1, p.2)

/-- The value of the literal at the front of `s` and what follows it, or `none` when there is no
literal (`end == s`). -/
def strtof (s : Text) : Option (ExtRat × Text) :=
  let (neg, t) := signed (s.dropWhile isSpace)
  (unsigned t).map fun p => (if neg then -p.1 else p.1, p.2)

end Strtof
