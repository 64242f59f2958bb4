import BlockDuel.Text.Json

/-!
Reading a value from text. The whole text has to be one value with blanks around it; there is no
trailing comma, no leading zero and no bare control character.
-/
namespace BlockDuel.Text.Json

def isSpace (c : Char) : Bool := c == ' ' || c == '\t' || c == '\n' || c == '\r'

def skip (cs : List Char) : List Char := cs.dropWhile isSpace

def hexValue? (c : Char) : Option Nat :=
  let n := c.toNat
  if 48 ≤ n ∧ n ≤ 57 then some (n - 48)
  else if 97 ≤ n ∧ n ≤ 102 then some (n - 87)
  else if 65 ≤ n ∧ n ≤ 70 then some (n - 55)
  else none

/-- The code unit that four hexadecimal digits name. -/
def unit? (a b c d : Char) : Option Nat := do
  pure ((((← hexValue? a) * 16 + (← hexValue? b)) * 16 + (← hexValue? c)) * 16 + (← hexValue? d))

/-- The code units up to the closing quote, and the text behind it. -/
def units? : List Char → Option (List Nat × List Char)
  | '"' :: cs => some ([], cs)
  | '\\' :: 'u' :: a :: b :: c :: d :: cs => do
    let u ← unit? a b c d
    let (us, cs) ← units? cs
    pure (u :: us, cs)
  | '\\' :: c :: cs => do
    let u ← match c with
      | '"' => some 34 | '\\' => some 92 | '/' => some 47 | 'b' => some 8 | 'f' => some 12
      | 'n' => some 10 | 'r' => some 13 | 't' => some 9
      | _ => none
    let (us, cs) ← units? cs
    pure (u :: us, cs)
  | c :: cs =>
    if c.toNat < 32 ∨ c = '\\' then none
    else do
      let (us, cs) ← units? cs
      pure (c.toNat :: us, cs)
  | [] => none

def isHigh (u : Nat) : Bool := 0xD800 ≤ u && u < 0xDC00
def isLow (u : Nat) : Bool := 0xDC00 ≤ u && u < 0xE000

/-- The characters that code units name. Halves of a pair count only together. -/
def chars? : List Nat → Option (List Char)
  | [] => some []
  | [u] => if isHigh u || isLow u then none else some [Char.ofNat u]
  | u :: v :: us =>
    if isHigh u then
      if isLow v then (chars? us).map (Char.ofNat (0x10000 + (u - 0xD800) * 0x400 + (v - 0xDC00)) :: ·)
      else none
    else if isLow u then none
    else (chars? (v :: us)).map (Char.ofNat u :: ·)

/-- A text behind its opening quote. -/
def string? (cs : List Char) : Option (Option String × List Char) :=
  (units? cs).map fun (us, cs) => ((chars? us).map String.ofList, cs)

def natOf (ds : List Char) : Nat := ds.foldl (fun n c => 10 * n + (c.toNat - 48)) 0

def someDigits? (cs : List Char) : Option (List Char × List Char) :=
  let ds := cs.takeWhile Char.isDigit
  if ds.isEmpty then none else some (ds, cs.drop ds.length)

def number? (cs : List Char) : Option (Json × List Char) := do
  let (minus, cs) := match cs with
    | '-' :: cs => (true, cs)
    | cs => (false, cs)
  let (ds, cs) ← someDigits? cs
  if ds.head? = some '0' ∧ ds.length > 1 then none
  else
    let (fraction, cs) ← match cs with
      | '.' :: cs => (someDigits? cs).map fun (_, cs) => (true, cs)
      | cs => some (false, cs)
    let (power, cs) ← match cs with
      | c :: rest =>
        if c = 'e' ∨ c = 'E' then
          let rest := match rest with
            | '+' :: rest => rest
            | '-' :: rest => rest
            | rest => rest
          (someDigits? rest).map fun (_, cs) => (true, cs)
        else some (false, cs)
      | [] => some (false, cs)
    let n := natOf ds
    if fraction ∨ power ∨ (minus ∧ n = 0) then pure (.real, cs)
    else pure (.integer (if minus then -n else n), cs)

mutual

/-- A value at the front of the text. Each step takes a character away, so `fuel` is never short when
it is the length of the text. -/
def value? : (fuel : Nat) → List Char → Option (Json × List Char)
  | 0, _ => none
  | fuel + 1, cs =>
    match skip cs with
    | 'n' :: 'u' :: 'l' :: 'l' :: cs => some (.null, cs)
    | 't' :: 'r' :: 'u' :: 'e' :: cs => some (.bool true, cs)
    | 'f' :: 'a' :: 'l' :: 's' :: 'e' :: cs => some (.bool false, cs)
    | '"' :: cs => (string? cs).map fun (s, cs) => (.text s, cs)
    | '[' :: cs =>
      match skip cs with
      | ']' :: cs => some (.array [], cs)
      | cs => (elements? fuel cs).map fun (vs, cs) => (.array vs, cs)
    | '{' :: cs =>
      match skip cs with
      | '}' :: cs => some (.object [], cs)
      | cs => (members? fuel cs).map fun (fs, cs) => (.object fs, cs)
    | cs => number? cs

/-- The rest of an array that is not empty. -/
def elements? : (fuel : Nat) → List Char → Option (List Json × List Char)
  | 0, _ => none
  | fuel + 1, cs => do
    let (v, cs) ← value? fuel cs
    match skip cs with
    | ']' :: cs => pure ([v], cs)
    | ',' :: cs =>
      let (vs, cs) ← elements? fuel cs
      pure (v :: vs, cs)
    | _ => none

/-- The rest of an object that is not empty. -/
def members? : (fuel : Nat) → List Char → Option (List (Option String × Json) × List Char)
  | 0, _ => none
  | fuel + 1, cs => do
    let cs ← match skip cs with
      | '"' :: cs => some cs
      | _ => none
    let (k, cs) ← string? cs
    let cs ← match skip cs with
      | ':' :: cs => some cs
      | _ => none
    let (v, cs) ← value? fuel cs
    match skip cs with
    | '}' :: cs => pure ([(k, v)], cs)
    | ',' :: cs =>
      let (fs, cs) ← members? fuel cs
      pure ((k, v) :: fs, cs)
    | _ => none

end

def parse? (s : String) : Option Json := do
  let (v, rest) ← value? (s.length + 1) s.toList
  if (skip rest).isEmpty then pure v else none

end BlockDuel.Text.Json
