import BlockDuel.Proofs.Hall.Course
import BlockDuel.Proofs.Hall.Hearing
import BlockDuel.Proofs.Seat.Play
import BlockDuel.Seat.Joining

/-!
A hall with all its visitors. Each visitor has a line of its own, on which octets go both ways, arrive
in their order and at any pace, and may stay out when the line breaks. Some visitors are guests: they
join on a fresh session and then play. The others are strangers and write whatever they like. What
arrives, what the hall does and what the visitors do takes turns in any order.
-/
namespace BlockDuel
open Wire Hall Seat

/-- Octets on their way, and the receiving end. All messages that were put in and all that came out
are on record. -/
structure Stream where
  flight : Bytes
  intake : Intake
  sent : List Message
  got : List Message

namespace Stream

def empty : Stream := ⟨[], .empty, [], []⟩

def put (s : Stream) (ms : List Message) : Stream :=
  { s with flight := s.flight ++ ms.flatMap encode, sent := s.sent ++ ms }

/-- Octets that need not be messages. -/
def pour (s : Stream) (bs : Bytes) : Stream := { s with flight := s.flight ++ bs }

/-- The next `n` octets arrive. -/
def arrive (s : Stream) (n : Nat) : List Message × Option Fault × Stream :=
  let (ms, fault?, intake) := (s.intake.extend (s.flight.take n)).drain
  (ms, fault?, { s with flight := s.flight.drop n, intake := intake, got := s.got ++ ms })

end Stream

/-- A player who joins on a fresh session and plays from then on. -/
structure Guest where
  session : Session
  joining : Joining
  play : Option Play
  /-- On record: what was done to the own half, with the showings that went out. -/
  strokes : List Stroke

/-- What a guest does at one time. -/
inductive Gesture
  /-- A round of joining. -/
  | poll (now : Nat)
  /-- Play begins, on a fresh arena. -/
  | begin
  | stroke (s : Stroke)
  | process
  | reportDeath
  /-- Takes leave of the hall. -/
  | leave
  /-- Gives up the line. -/
  | quit
  | lineEnds
  deriving DecidableEq

namespace Guest

def arrives (patience : Nat) (avatar : UInt32) (now : Nat) : Guest :=
  ⟨Session.fresh.connect, .start patience avatar now, none, []⟩

def begin (g : Guest) : Guest :=
  match g.play, g.joining.status with
  | none, .ready seed id => { g with play := some (.start (.start seed) id) }
  | _, _ => g

/-- A stroke on the own half. A showing without a line shows nothing. -/
def stroke (g : Guest) (s : Stroke) : Guest :=
  match g.play with
  | none => g
  | some p =>
    if s = .shows then
      let (_, p, session) := p.sync g.session
      if g.session.isConnected then
        { g with play := some p, session := session, strokes := g.strokes ++ [.shows] }
      else { g with play := some p, session := session }
    else { g with play := some { p with arena := s.apply p.arena }, strokes := g.strokes ++ [s] }

def does (g : Guest) : Gesture → Guest
  | .poll now =>
    let (joining, session) := g.joining.poll g.session now
    { g with joining := joining, session := session }
  | .begin => g.begin
  | .stroke s => g.stroke s
  | .process =>
    match g.play with
    | none => g
    | some p =>
      let (_, p, session) := p.process g.session
      { g with play := some p, session := session }
  | .reportDeath =>
    match g.play with
    | none => g
    | some p =>
      let (_, p, session) := p.reportDeath g.session
      { g with play := some p, session := session }
  | .leave =>
    match g.play with
    | none => g
    | some p => { g with session := (p.leave g.session).2 }
  | .quit => { g with session := g.session.disconnect }
  | .lineEnds => { g with session := g.session.lineEnds }

end Guest

/-- A visitor and its line. -/
structure Visit where
  /-- The guest, unless it is a stranger. -/
  guest : Option Guest
  /-- To the hall. -/
  up : Stream
  /-- What the line told the hall, and the hall has not dealt with. -/
  waiting : List Notice
  /-- From the hall. -/
  down : Stream
  /-- The hall's end takes messages. -/
  takes : Bool
  /-- The hall's end reported the loss. -/
  broken : Bool

namespace Visit

def opened (guest : Option Guest) (id : PlayerId) : Visit :=
  ⟨guest, .empty, [.connected id], .empty, true, false⟩

/-- The guest does something, and what it says goes out. -/
def does (v : Visit) (gesture : Gesture) : Visit :=
  match v.guest with
  | none => v
  | some g =>
    let g := g.does gesture
    let (ms, session) := g.session.flush
    { v with guest := some { g with session := session }, up := v.up.put ms }

/-- A stranger writes octets. -/
def spills (v : Visit) (bs : Bytes) : Visit :=
  match v.guest with
  | none => { v with up := v.up.pour bs }
  | some _ => v

/-- The hall's end is lost. -/
def breaks (v : Visit) (id : PlayerId) : Visit :=
  if v.broken then v
  else { v with waiting := v.waiting ++ [.lost id], takes := false, broken := true }

/-- Octets reach the hall. -/
def rises (v : Visit) (id : PlayerId) (n : Nat) : Visit :=
  if v.broken then v
  else
    let (ms, fault?, up) := v.up.arrive n
    let v := { v with up := up, waiting := v.waiting ++ ms.map (.message id) }
    if fault?.isSome then v.breaks id else v

/-- Octets reach the guest, as long as its session has the line. -/
def falls (v : Visit) (n : Nat) : Visit :=
  match v.guest with
  | none => v
  | some g =>
    match g.session.line with
    | some ⟨line, true⟩ =>
      let (ms, fault?, down) := v.down.arrive n
      let session := ms.foldl (fun s m => s.hear (.message line m)) g.session
      let session := if fault?.isSome then session.lineEnds else session
      { v with guest := some { g with session := session }, down := down }
    | _ => v

/-- The hall asks something of the line. -/
def obeys (v : Visit) : Link.Call → Visit
  | .send m => if v.takes then { v with down := v.down.put [m] } else v
  | .shutdown | .disconnect => { v with takes := false }

end Visit

/-- A hall and its visitors by the numbers of their links. -/
structure House where
  /-- On record: what the hall has met. -/
  met : List Occasion
  course : Course
  visits : PlayerId → Option Visit

/-- What happens in a house at one time. -/
inductive Act
  | arrives (id : PlayerId) (patience : Nat) (avatar : UInt32) (now : Nat)
  /-- A stranger comes. -/
  | intrudes (id : PlayerId)
  | does (id : PlayerId) (gesture : Gesture)
  | spills (id : PlayerId) (bs : Bytes)
  | rises (id : PlayerId) (n : Nat)
  /-- The hall deals with the oldest notice of a line. -/
  | handles (id : PlayerId) (now : Time)
  | checks (now : Time) (order : List PlayerId)
  | falls (id : PlayerId) (n : Nat)
  | breaks (id : PlayerId)

namespace House

def opened (interval patience : Nat) (now : Time) : House :=
  ⟨[], .opened interval patience now, fun _ => none⟩

/-- A visitor comes over a new line. -/
def letIn (h : House) (id : PlayerId) (guest : Option Guest) : House :=
  if (h.visits id).isSome then h
  else { h with visits := Function.update h.visits id (some (.opened guest id)) }

def adjust (h : House) (id : PlayerId) (f : Visit → Visit) : House :=
  { h with visits := Function.update h.visits id ((h.visits id).map f) }

/-- The hall meets an occasion, and the lines do what it asks of them. -/
def meets (seeds : Nat → UInt64) (h : House) (o : Occasion) : House :=
  let course := h.course.next seeds o
  let ds := course.deeds.drop h.course.deeds.length
  { met := h.met ++ [o]
    course := course
    visits := fun id => (h.visits id).map fun v => (ds.filterMap (Deed.call? id)).foldl Visit.obeys v }

def handles (seeds : Nat → UInt64) (h : House) (id : PlayerId) (now : Time) : House :=
  match (h.visits id).map Visit.waiting with
  | some (n :: rest) => (h.adjust id fun v => { v with waiting := rest }).meets seeds (.notice now n)
  | _ => h

def act (seeds : Nat → UInt64) (h : House) : Act → House
  | .arrives id patience avatar now => h.letIn id (some (.arrives patience avatar now))
  | .intrudes id => h.letIn id none
  | .does id gesture => h.adjust id fun v => v.does gesture
  | .spills id bs => h.adjust id fun v => v.spills bs
  | .rises id n => h.adjust id fun v => v.rises id n
  | .handles id now => h.handles seeds id now
  | .checks now order => h.meets seeds (.check now order)
  | .falls id n => h.adjust id fun v => v.falls n
  | .breaks id => h.adjust id fun v => v.breaks id

def run (seeds : Nat → UInt64) (h : House) (as : List Act) : House := as.foldl (act seeds) h

/-- The guest at a line. -/
def guest? (h : House) (id : PlayerId) : Option Guest := (h.visits id).bind Visit.guest

end House
end BlockDuel
