/-!
Values of the text format in which records are shown to other programs, and their text without any
space. A text whose escapes do not name characters is kept as unreadable.
-/
namespace BlockDuel.Text

/-- A value of the format. A number that is written with a fraction or an exponent, or as minus zero,
is no integer. -/
inductive Json
  | null
  | bool (b : Bool)
  | integer (n : Int)
  | real
  | text (s : Option String)
  | array (vs : List Json)
  | object (fields : List (Option String × Json))

namespace Json

def ofString (s : String) : Json := .text (some s)

def record (fields : List (String × Json)) : Json :=
  .object (fields.map fun (k, v) => (some k, v))

def hexDigit (n : Nat) : Char := (Nat.toDigits 16 n).headD '0'

def escape (c : Char) : List Char :=
  if c = '"' then ['\\', '"']
  else if c = '\\' then ['\\', '\\']
  else if c.toNat = 8 then ['\\', 'b']
  else if c.toNat = 12 then ['\\', 'f']
  else if c = '\n' then ['\\', 'n']
  else if c = '\r' then ['\\', 'r']
  else if c = '\t' then ['\\', 't']
  else if c.toNat < 32 then ['\\', 'u', '0', '0', hexDigit (c.toNat / 16), hexDigit (c.toNat % 16)]
  else [c]

def quote (s : String) : String :=
  String.ofList ('"' :: s.toList.flatMap escape ++ ['"'])

def render : Json → String
  | null => "null"
  | bool b => if b then "true" else "false"
  | integer n => toString n
  | real => "0.0"
  | text s => quote (s.getD "")
  | array vs => "[" ++ String.intercalate "," (vs.attach.map fun ⟨v, _⟩ => render v) ++ "]"
  | object fs =>
    "\x7b" ++ String.intercalate "," (fs.attach.map fun ⟨(k, v), _⟩ =>
      quote (k.getD "") ++ ":" ++ render v) ++ "\x7d"
termination_by v => sizeOf v
decreasing_by
  · simp_wf
    have := List.sizeOf_lt_of_mem ‹_›
    omega
  · simp_wf
    have h := List.sizeOf_lt_of_mem ‹_›
    simp only [Prod.mk.sizeOf_spec] at h
    omega

end Json
end BlockDuel.Text
