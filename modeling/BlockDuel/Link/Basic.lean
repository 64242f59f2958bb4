import BlockDuel.Link.Fault
import BlockDuel.Link.Notice
import BlockDuel.Wire.Frame

/-!
A framed link over one stream of octets. The owner queues messages, closes the link after what is
queued, or closes it at once; a reader turns octets into notices and a writer puts one frame after the
other on the stream. Reader and writer move in turns, each from one wait to the next. The phase only
moves forward, and a link reports its end once.
-/
namespace BlockDuel

namespace Link

inductive Phase
  | connecting | opened | closing | closed
  deriving DecidableEq, Repr

namespace Phase

def rank : Phase → Nat
  | connecting => 0 | opened => 1 | closing => 2 | closed => 3

def raise (p q : Phase) : Phase := if p.rank < q.rank then q else p

def name : Phase → String
  | connecting => "Connecting" | opened => "Open" | closing => "Closing" | closed => "Closed"

end Phase

/-- How a close after the queued frames went. -/
abbrev Outcome := Except Fault Unit

/-- What the owner queued for the writer. -/
inductive Order
  | frame (bs : Bytes)
  /-- Close after all that is queued before, and settle a ticket. -/
  | close (ticket : Nat)
  deriving DecidableEq, Repr

inductive Reader
  /-- Waiting for octets behind the unfinished frame. -/
  | waiting (pending : Bytes)
  | stopped
  deriving DecidableEq, Repr

inductive Writer
  | idle
  | writing (rest : Bytes) (deadline : Nat)
  | closing (ticket : Nat) (deadline : Nat)
  | stopped
  deriving DecidableEq, Repr

end Link

structure Link where
  id : PlayerId
  /-- The longest time, in milliseconds, for one frame or for the final close. -/
  limit : Nat
  phase : Link.Phase
  /-- The owner has been told that the link ended. -/
  reported : Bool
  queue : List Link.Order
  reader : Link.Reader
  writer : Link.Writer
  /-- By ticket, how the close went once that is known. -/
  tickets : List (Option Link.Outcome)
  /-- What the owner has been told, oldest first. -/
  notices : List Notice

namespace Link

def readChunk : Nat := 4096

/-- The usual limit for a write, in milliseconds. -/
def defaultLimit : Nat := 5000

/-- A new link. `announce` makes its first notice tell of the new peer. -/
def spawn (id : PlayerId) (limit : Nat) (announce : Bool) : Link :=
  { id := id
    limit := limit
    phase := Phase.connecting.raise .opened
    reported := false
    queue := []
    reader := .waiting []
    writer := .idle
    tickets := []
    notices := if announce then [.connected id] else [] }

def isOpen (l : Link) : Bool := l.phase = .opened

/-- The end of a link: both sides stop, and the owner is told unless that has happened. -/
def finish (l : Link) : Link :=
  { l with
    phase := l.phase.raise .closed
    reported := true
    notices := if l.reported then l.notices else l.notices ++ [.lost l.id] }

/-- Queues a message; a link that is not open drops it. -/
def send (l : Link) (m : Wire.Message) : Link :=
  if l.isOpen then { l with queue := l.queue ++ [.frame (Wire.encode m)] } else l

/-- Closes at once and abandons what is queued. -/
def disconnect (l : Link) : Link :=
  if l.phase = .closed then l else { l with phase := l.phase.raise .closing }.finish

/-- Closes after what is queued so far. The ticket is the length of `tickets` before the call. -/
def shutdown (l : Link) : Link :=
  if l.isOpen then
    { l with
      phase := l.phase.raise .closing
      queue := l.queue ++ [.close l.tickets.length]
      tickets := l.tickets ++ [none] }
  else { l with tickets := l.tickets ++ [some (.error .closed)] }

def readerStops (l : Link) : Link := { l with reader := .stopped }

/-- Octets arrived: every whole message is a notice, and a faulty frame ends the link. -/
def received (l : Link) (chunk : Bytes) : Link :=
  match l.reader with
  | .stopped => l
  | .waiting pending =>
    let d := Wire.drain (pending ++ chunk)
    let l := { l with notices := l.notices ++ d.messages.map (Notice.message l.id) }
    match d.fault? with
    | some _ => { l with reader := .stopped }.finish
    | none => { l with reader := .waiting d.rest }

def readEnded (l : Link) : Link :=
  match l.reader with
  | .stopped => l
  | .waiting _ => { l with reader := .stopped }.finish

def settleTicket (l : Link) (ticket : Nat) (o : Outcome) : Link :=
  { l with tickets := l.tickets.modify ticket fun r => r.or (some o) }

/-- The writer stops; a close that it did not reach was not carried out. -/
def writerStops (l : Link) : Link :=
  let unreached := l.queue.filterMap fun
    | .close t => some t
    | .frame _ => none
  unreached.foldl (fun l t => l.settleTicket t (.error .closed))
    { l with queue := [], writer := .stopped }

/-- The writer takes the next order. Its time runs from `now`. -/
def takeOrder (l : Link) (now : Nat) : Link :=
  match l.writer, l.queue with
  | .idle, .frame bs :: rest => { l with queue := rest, writer := .writing bs (now + l.limit) }
  | .idle, .close t :: rest => { l with queue := rest, writer := .closing t (now + l.limit) }
  | _, _ => l

/-- The stream took `n` octets of the frame. -/
def wrote (l : Link) (n : Nat) : Link :=
  match l.writer with
  | .writing bs deadline =>
    match bs.drop n with
    | [] => { l with writer := .idle }
    | rest => { l with writer := .writing rest deadline }
  | _ => l

/-- The stream refused the frame, or did not take it in time. -/
def writeFailed (l : Link) : Link :=
  match l.writer with
  | .writing _ _ => l.finish.writerStops
  | _ => l

/-- The stream is closed, or could not be closed. -/
def closeEnded (l : Link) (o : Outcome) : Link :=
  match l.writer with
  | .closing t _ => (l.finish.settleTicket t o).writerStops
  | _ => l

def isGone (l : Link) : Bool := l.reader = .stopped && l.writer = .stopped

end Link
end BlockDuel
