import BlockDuel.Wire.Message

/-!
Frames: the kind and the length of the payload as four octets each, then the payload. `decode` reads
octets that should be one whole frame; `scan` looks for a frame at the front of a stream that may
still be growing.
-/
namespace BlockDuel.Wire

def headerLength : Nat := 8

/-- The longest payload that a stream may declare. -/
def maxPayload : Nat := 64 * 1024

structure Header where
  tag : UInt32
  declared : Nat
  deriving DecidableEq, Repr

/-- The header at the front of octets, with all that follows it. -/
def header? : Bytes → Option (Header × Bytes)
  | a :: b :: c :: d :: e :: f :: g :: h :: body =>
    some (⟨UInt32.ofNat (Digits.value [a, b, c, d]), Digits.value [e, f, g, h]⟩, body)
  | _ => none

def encode (m : Message) : Bytes :=
  Digits.write 4 m.kind.code.toNat ++ Digits.write 4 m.payload.length ++ m.payload

/-- The message of a frame. A length that does not fit is reported before an unknown kind. -/
def decode (bs : Bytes) : Except Fault Message :=
  match header? bs with
  | none => .error (.malformed 0 bs.length)
  | some (h, body) =>
    if h.declared ≠ body.length then .error (.malformed h.declared body.length)
    else
      match Kind.ofCode? h.tag with
      | none => .error (.unknownKind h.tag)
      | some k => .ok ⟨k, body⟩

inductive Scan
  | message (m : Message) (rest : Bytes)
  | incomplete
  | fault (f : Fault)
  deriving DecidableEq, Repr

/-- Looks at the front of a stream. A header is judged as soon as it is whole: first its length, then
its kind. -/
def scan (bs : Bytes) : Scan :=
  match header? bs with
  | none => .incomplete
  | some (h, body) =>
    if h.declared > maxPayload then .fault (.tooLarge h.declared)
    else
      match Kind.ofCode? h.tag with
      | none => .fault (.unknownKind h.tag)
      | some k =>
        let payload := body.take h.declared
        if payload.length = h.declared then .message ⟨k, payload⟩ (body.drop h.declared)
        else .incomplete

theorem header?_length {bs body : Bytes} {h : Header} (hs : header? bs = some (h, body)) :
    bs.length = headerLength + body.length := by
  unfold header? at hs
  split at hs
  · cases hs
    simp only [List.length_cons, headerLength]
    omega
  · cases hs

/-- A message takes octets away. -/
theorem scan_length {bs rest : Bytes} {m : Message} (hs : scan bs = .message m rest) :
    rest.length < bs.length := by
  unfold scan at hs
  split at hs
  · cases hs
  · next h body hh =>
    have hl := header?_length hh
    split at hs
    · cases hs
    · split at hs
      · cases hs
      · dsimp only at hs
        split at hs
        · cases hs
          simp only [List.length_drop, headerLength] at *
          omega
        · cases hs

/-- What a stream yields: its whole messages, the fault that stops it, and the octets left over. -/
structure Drained where
  messages : List Message
  fault? : Option Fault
  rest : Bytes
  deriving DecidableEq, Repr

/-- Takes messages off the front of a stream until a frame is unfinished or faulty. -/
def drain (bs : Bytes) : Drained :=
  match hs : scan bs with
  | .message m rest =>
    have := scan_length hs
    let d := drain rest
    { d with messages := m :: d.messages }
  | .incomplete => ⟨[], none, bs⟩
  | .fault f => ⟨[], some f, bs⟩
termination_by bs.length

/-- The receiving end of a stream: octets that have arrived and are not yet part of a message. -/
structure Intake where
  pending : Bytes
  deriving DecidableEq, Repr

namespace Intake

def empty : Intake := ⟨[]⟩

def extend (i : Intake) (bs : Bytes) : Intake := ⟨i.pending ++ bs⟩

def buffered (i : Intake) : Nat := i.pending.length

/-- The next message, nothing while a frame is unfinished, or the fault that stops the stream. Only a
message takes octets away. -/
def next (i : Intake) : Except Fault (Option Message) × Intake :=
  match scan i.pending with
  | .message m rest => (.ok (some m), ⟨rest⟩)
  | .incomplete => (.ok none, i)
  | .fault f => (.error f, i)

def drain (i : Intake) : List Message × Option Fault × Intake :=
  let d := Wire.drain i.pending
  (d.messages, d.fault?, ⟨d.rest⟩)

end Intake
end BlockDuel.Wire
