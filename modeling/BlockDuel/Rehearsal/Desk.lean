import BlockDuel.Seat.Joining
import BlockDuel.Seat.Play
import BlockDuel.Wire.Frame

/-!
A session with a scripted hall. What the hall writes has arrived before the next call acts; a faulty
frame ends the line after the messages before it.
-/
namespace BlockDuel.Rehearsal
open Seat Wire

/-- A session, what it is doing, and a clock in milliseconds. -/
structure Desk where
  session : Session
  /-- What the line has of an unfinished frame. -/
  intake : Intake
  joining : Option Joining
  play : Option Play
  now : Nat

namespace Desk

def fresh : Desk := ⟨.fresh, .empty, none, none, 0⟩

/-- The hall writes. Tells how many messages came out of it. -/
def arrive (d : Desk) (bs : Bytes) : Nat × Desk :=
  match d.session.line with
  | some ⟨id, true⟩ =>
    let (messages, fault, intake) := (d.intake.extend bs).drain
    let s := messages.foldl (fun s m => s.hear (.message id m)) d.session
    (messages.length, { d with session := if fault.isSome then s.lineEnds else s, intake })
  | _ => (0, d)

def connect (d : Desk) : Desk := { d with session := d.session.connect, intake := .empty }

def connectFails (d : Desk) : Desk := { d with session := d.session.connectFails }

def hallCloses (d : Desk) : Desk := { d with session := d.session.lineEnds }

def send (d : Desk) (ms : List Message) : List (Except Link.Fault Unit) × Desk :=
  ms.foldl (fun (rs, d) m =>
    let (r, s) := d.session.send m
    (rs ++ [r], { d with session := s })) ([], d)

def receiveMany : Nat → (Session → Option Message × Session) → Session →
    List (Option Message) × Session
  | 0, _, s => ([], s)
  | n + 1, recv, s =>
    let (m, s) := recv s
    let (ms, s) := receiveMany n recv s
    (m :: ms, s)

/-- Receives until nothing is there, at most `n` times. -/
def receiveAll : Nat → (Session → Option Message × Session) → Session →
    List (Option Message) × Session
  | 0, _, s => ([], s)
  | n + 1, recv, s =>
    match recv s with
    | (none, s) => ([], s)
    | (some m, s) =>
      let (ms, s) := receiveAll n recv s
      (some m :: ms, s)

/-- Receives what a step of the script brought, or all that is left once the line is down, and looks
once more. `limit` bounds the wait for each; no time passes while something is there. -/
def receive (d : Desk) (n : Nat) (limit : Option Nat) :
    List (Option Message) × Option Message × Desk :=
  let recv (s : Session) := match limit with
    | some t => s.recvWithin t fun _ => 0
    | none => s.tryRecv
  let (got, s) :=
    if d.session.isConnected then receiveMany n recv d.session
    else receiveAll (d.session.inbox.length + 1) recv d.session
  let (after, s) := recv s
  (got, after, { d with session := s })

def join (d : Desk) (patience : Nat) (avatar : UInt32) : Desk :=
  { d with joining := some (.start patience avatar d.now) }

/-- Looks at the session once; nothing if nobody is joining. -/
def poll (d : Desk) : Option JoinStatus × Desk :=
  match d.joining with
  | none => (none, d)
  | some j =>
    let (j, s) := j.poll d.session d.now
    (some j.status, { d with joining := some j, session := s })

def advance (d : Desk) (ms : Nat) : Option JoinStatus × Desk := { d with now := d.now + ms }.poll

/-- Lets the match act on the session; nothing if there is no match. -/
def onPlay {α : Type} (d : Desk) (f : Play → Session → α × Play × Session) : Option α × Desk :=
  match d.play with
  | none => (none, d)
  | some p =>
    let (a, p, s) := f p d.session
    (some a, { d with play := some p, session := s })

def leave (d : Desk) : Option (Option (Except Link.Fault Unit)) × Desk :=
  d.onPlay fun p s => let (r, s) := p.leave s; (r, p, s)

def shutdown (d : Desk) : Option (Except Link.Fault Unit) × Desk :=
  let (r, s) := d.session.shutdown
  (r, { d with session := s })

def flush (d : Desk) : List Message × Desk :=
  let (ms, s) := d.session.flush
  (ms, { d with session := s })

end Desk
end BlockDuel.Rehearsal
