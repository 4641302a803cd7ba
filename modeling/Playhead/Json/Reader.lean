import Playhead.Json.Value
/-!
# Reader — JSON text to values

`Json.read` accepts one value with blanks around it.  Each reader returns the value it found and the text behind it;
what nests is read with a measure of fuel that the length of the text provides, since every level takes a character.
-/
namespace Playhead
namespace Json

def isBlank (c : Char) : Bool := c == ' ' || c == '\n' || c == '\t' || c == '\r'

def skipBlanks (s : List Char) : List Char := s.dropWhile isBlank

def isDigit (c : Char) : Bool := decide ('0' ≤ c) && decide (c ≤ '9')

def digitValue (c : Char) : Nat := c.toNat - '0'.toNat

def takeDigits (s : List Char) : List Nat × List Char := ((s.takeWhile isDigit).map digitValue, s.dropWhile isDigit)

/-! ## Numbers -/

def readDigits (s : List Char) : Option (List Nat × List Char) :=
  match takeDigits s with
  | ([], _) => none
  | (ds, rest) => some (ds, rest)

def readFraction (s : List Char) : Option (Option (List Nat) × List Char) :=
  match s with
  | '.' :: rest => (readDigits rest).map (fun (ds, rest) => (some ds, rest))
  | _ => some (none, s)

def readExponent (s : List Char) : Option (Option (Bool × List Nat) × List Char) :=
  let signed (s : List Char) : Option (Option (Bool × List Nat) × List Char) :=
    match s with
    | '+' :: rest => (readDigits rest).map (fun (ds, rest) => (some (false, ds), rest))
    | '-' :: rest => (readDigits rest).map (fun (ds, rest) => (some (true, ds), rest))
    | _ => (readDigits s).map (fun (ds, rest) => (some (false, ds), rest))
  match s with
  | 'e' :: rest => signed rest
  | 'E' :: rest => signed rest
  | _ => some (none, s)

/-- A number; a zero in front of another digit is refused. -/
def readNumeral (s : List Char) : Option (Numeral × List Char) := do
  let (negative, s) := match s with
    | '-' :: rest => (true, rest)
    | _ => (false, s)
  let (whole, s) ← readDigits s
  if whole.length ≠ 1 ∧ whole.head? = some 0 then none
  let (fraction, s) ← readFraction s
  let (exponent, s) ← readExponent s
  return ({ negative, whole, fraction, exponent }, s)

/-! ## Strings -/

/-- One element of a string: a character, or a 16-bit unit given by its number. -/
inductive Piece
  | char (c : Char)
  | unit (n : Nat)
deriving DecidableEq, Repr

def hexValue (c : Char) : Option Nat :=
  if isDigit c then some (digitValue c)
  else if decide ('a' ≤ c) && decide (c ≤ 'f') then some (c.toNat - 'a'.toNat + 10)
  else if decide ('A' ≤ c) && decide (c ≤ 'F') then some (c.toNat - 'A'.toNat + 10)
  else none

def escaped (c : Char) : Option Char :=
  match c with
  | '"' => some '"'
  | '\\' => some '\\'
  | '/' => some '/'
  | 'b' => some '\x08'
  | 'f' => some '\x0c'
  | 'n' => some '\n'
  | 'r' => some '\r'
  | 't' => some '\t'
  | _ => none

/-- The inside of a string, up to the closing quote.  Control characters have to be escaped. -/
def readPieces (s : List Char) : Option (List Piece × List Char) :=
  match s with
  | [] => none
  | '"' :: rest => some ([], rest)
  | '\\' :: 'u' :: a :: b :: c :: d :: rest => do
    let n := (((← hexValue a) * 16 + (← hexValue b)) * 16 + (← hexValue c)) * 16 + (← hexValue d)
    let (ps, rest) ← readPieces rest
    return (.unit n :: ps, rest)
  | '\\' :: c :: rest => do
    let e ← escaped c
    let (ps, rest) ← readPieces rest
    return (.char e :: ps, rest)
  | c :: rest =>
    if c.toNat < 32 then none
    else do
      let (ps, rest) ← readPieces rest
      return (.char c :: ps, rest)

def isLeading (n : Nat) : Bool := decide (0xD800 ≤ n) && decide (n ≤ 0xDBFF)

def isTrailing (n : Nat) : Bool := decide (0xDC00 ≤ n) && decide (n ≤ 0xDFFF)

/-- The text that pieces spell: two units of a surrogate pair are one character, a unit of a pair alone is none. -/
def spell : List Piece → Option (List Char)
  | [] => some []
  | .char c :: ps => (spell ps).map (c :: ·)
  | .unit n :: .unit m :: ps =>
    if isLeading n then
      if isTrailing m then (spell ps).map (Char.ofNat ((n - 0xD800) * 0x400 + (m - 0xDC00) + 0x10000) :: ·) else none
    else if isTrailing n then none
    else (spell (.unit m :: ps)).map (Char.ofNat n :: ·)
  | .unit n :: ps =>
    if isLeading n || isTrailing n then none else (spell ps).map (Char.ofNat n :: ·)

def readText (s : List Char) : Option (Text × List Char) :=
  match s with
  | '"' :: rest => (readPieces rest).map (fun (ps, rest) => ((spell ps).map String.ofList, rest))
  | _ => none

/-! ## Values -/

def expect (c : Char) (s : List Char) : Option (List Char) :=
  match skipBlanks s with
  | d :: rest => if d = c then some rest else none
  | [] => none

mutual

def readValue : (fuel : Nat) → List Char → Option (Value × List Char)
  | 0, _ => none
  | fuel + 1, s =>
    match skipBlanks s with
    | 'n' :: 'u' :: 'l' :: 'l' :: rest => some (.null, rest)
    | 't' :: 'r' :: 'u' :: 'e' :: rest => some (.bool true, rest)
    | 'f' :: 'a' :: 'l' :: 's' :: 'e' :: rest => some (.bool false, rest)
    | '"' :: rest => (readText ('"' :: rest)).map (fun (t, rest) => (.string t, rest))
    | '[' :: rest =>
      match skipBlanks rest with
      | ']' :: rest => some (.array [], rest)
      | rest => (readItems fuel rest).map (fun (vs, rest) => (.array vs, rest))
    | '{' :: rest =>
      match skipBlanks rest with
      | '}' :: rest => some (.object [], rest)
      | rest => (readMembers fuel rest).map (fun (ms, rest) => (.object ms, rest))
    | s => (readNumeral s).map (fun (n, rest) => (.number n, rest))

def readItems : (fuel : Nat) → List Char → Option (List Value × List Char)
  | 0, _ => none
  | fuel + 1, s => do
    let (v, s) ← readValue fuel s
    match skipBlanks s with
    | ']' :: rest => some ([v], rest)
    | ',' :: rest => do
      let (vs, rest) ← readItems fuel rest
      return (v :: vs, rest)
    | _ => none

def readMembers : (fuel : Nat) → List Char → Option (List (Text × Value) × List Char)
  | 0, _ => none
  | fuel + 1, s => do
    let (key, s) ← readText (skipBlanks s)
    let s ← expect ':' s
    let (v, s) ← readValue fuel s
    match skipBlanks s with
    | '}' :: rest => some ([(key, v)], rest)
    | ',' :: rest => do
      let (ms, rest) ← readMembers fuel rest
      return ((key, v) :: ms, rest)
    | _ => none

end

/-- One value and nothing behind it but blanks. -/
def read (text : String) : Option Value := do
  let s := text.toList
  let (v, rest) ← readValue (2 * s.length + 1) s
  if (skipBlanks rest).isEmpty then some v else none

end Json
end Playhead
