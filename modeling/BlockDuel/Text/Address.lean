/-!
Network addresses in text. Four decimal octets without leading zeros, or eight groups of up to four
hexadecimal digits, where one double colon may stand for a run of zero groups and the last two groups
may be written as four octets. Writing shortens the first longest run of at least two zero groups.
-/
namespace BlockDuel.Text

/-- An address of one of the two families, as its octets or its groups. -/
inductive Host
  | four (octets : List Nat)
  | six (groups : List Nat)
  deriving DecidableEq, Repr

structure Address where
  host : Host
  port : UInt16
  deriving DecidableEq, Repr

namespace Host

def digit? (base : Nat) (c : Char) : Option Nat :=
  let n := c.toNat
  let v :=
    if 48 ≤ n ∧ n ≤ 57 then n - 48
    else if 97 ≤ n ∧ n ≤ 102 then n - 87
    else if 65 ≤ n ∧ n ≤ 70 then n - 55
    else base
  if v < base then some v else none

/-- A number of at most `most` digits at the front of the text. -/
def number? (base most bound : Nat) (zeros : Bool) (cs : List Char) : Option (Nat × List Char) :=
  let ds := cs.takeWhile fun c => (digit? base c).isSome
  let value := ds.foldl (fun n c => base * n + (digit? base c).getD 0) 0
  if ds.isEmpty ∨ ds.length > most then none
  else if !zeros ∧ ds.head? = some '0' ∧ ds.length > 1 then none
  else if value < bound then some (value, cs.drop ds.length)
  else none

def char? (c : Char) : List Char → Option (List Char)
  | d :: cs => if c = d then some cs else none
  | [] => none

/-- Four octets at the front of the text. -/
def octets? (cs : List Char) : Option (List Nat × List Char) := do
  let (a, cs) ← number? 10 3 256 false cs
  let cs ← char? '.' cs
  let (b, cs) ← number? 10 3 256 false cs
  let cs ← char? '.' cs
  let (c, cs) ← number? 10 3 256 false cs
  let cs ← char? '.' cs
  let (d, cs) ← number? 10 3 256 false cs
  pure ([a, b, c, d], cs)

/-- Up to `left` groups with colons between them, and whether four octets ended them. -/
def groups : (left : Nat) → (first : Bool) → List Char → List Nat × Bool × List Char
  | 0, _, cs => ([], false, cs)
  | left + 1, first, cs =>
    let after := if first then some cs else char? ':' cs
    let embedded := if left = 0 then none else after.bind octets?
    match embedded with
    | some ([a, b, c, d], rest) => ([a * 256 + b, c * 256 + d], true, rest)
    | _ =>
      match after.bind (number? 16 4 65536 true) with
      | none => ([], false, cs)
      | some (g, rest) =>
        let (gs, octets, rest) := groups left false rest
        (g :: gs, octets, rest)

/-- Eight groups, or fewer around one double colon. -/
def six? (cs : List Char) : Option (List Nat × List Char) :=
  let (front, octets, rest) := groups 8 true cs
  if front.length = 8 then some (front, rest)
  else if octets then none
  else do
    let rest ← char? ':' rest
    let rest ← char? ':' rest
    let (back, _, rest) := groups (7 - front.length) true rest
    pure (front ++ List.replicate (8 - front.length - back.length) 0 ++ back, rest)

/-- An address that is the whole text. -/
def parse? (cs : List Char) : Option Host :=
  match octets? cs with
  | some (os, []) => some (.four os)
  | _ =>
    match six? cs with
    | some (gs, []) => some (.six gs)
    | _ => none

def zeroRun (gs : List Nat) : Nat := (gs.takeWhile (· == 0)).length

/-- The first longest run of zeros, as its start and its length. -/
def longestZeros (gs : List Nat) : Nat × Nat :=
  (List.range gs.length).foldl (fun best i =>
    let n := zeroRun (gs.drop i)
    if n > best.2 then (i, n) else best) (0, 0)

def hex (n : Nat) : String := String.ofList (Nat.toDigits 16 n)

def colons (gs : List Nat) : String := String.intercalate ":" (gs.map hex)

def dots (os : List Nat) : String := String.intercalate "." (os.map toString)

/-- The text of an address. Groups that stand for four octets are written as such. -/
def render : Host → String
  | .four os => dots os
  | .six [0, 0, 0, 0, 0, 0xffff, a, b] => "::ffff:" ++ dots [a / 256, a % 256, b / 256, b % 256]
  | .six gs =>
    let (start, n) := longestZeros gs
    if n > 1 then colons (gs.take start) ++ "::" ++ colons (gs.drop (start + n))
    else colons gs

end Host

def Address.render (a : Address) : String :=
  match a.host with
  | .four _ => a.host.render ++ ":" ++ toString a.port.toNat
  | .six _ => "[" ++ a.host.render ++ "]:" ++ toString a.port.toNat

end BlockDuel.Text
