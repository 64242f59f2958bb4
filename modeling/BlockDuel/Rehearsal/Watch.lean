import BlockDuel.Rehearsal.Desk
import BlockDuel.Seat.Observer

/-!
An observer with a scripted hall. Each step of the script brings octets, one look of the observer at
its session, and perhaps the end of the line.
-/
namespace BlockDuel.Rehearsal
open Seat Wire

structure Watch where
  options : Observer.Options
  desk : Desk
  observer : Observer
  log : List Report
  sent : List Message

structure WatchResult where
  code : Nat
  log : List Report
  sent : List Message

namespace Watch

def start (options : Observer.Options) : Watch :=
  ⟨options, Desk.fresh.connect, .start options 0, [], []⟩

def isFinished (w : Watch) : Bool :=
  match w.observer with
  | .finished _ => true
  | _ => false

/-- Writes down what the observer did and what the hall got. -/
def note (w : Watch) (seen : List Report) (o : Observer) (s : Session) : Watch :=
  let (sent, desk) := { w.desk with session := s }.flush
  { w with desk, observer := o, log := w.log ++ seen, sent := w.sent ++ sent }

def playFrame (w : Watch) (p : Play) : Watch :=
  let (seen, o, s) := Observer.frame p w.desk.session ⟨w.options.dies 0, false⟩
  w.note seen o s

/-- One look at the session. Play starts in the same frame in which joining ends. -/
def look (w : Watch) : Watch :=
  match w.observer with
  | .finished _ => w
  | .playing p => w.playFrame p
  | .joining j =>
    let (seen, o, s) := Observer.join j w.desk.session w.desk.now
    let w := w.note seen o s
    match o with
    | .playing p => w.playFrame p
    | _ => w

def step (w : Watch) (bs : Bytes) (closes : Bool) : Watch :=
  let w := { w with desk := (w.desk.arrive bs).2 }.look
  if closes then { w with desk := w.desk.hallCloses } else w

/-- The script is over: a hall that owes an answer never gives it, and any other one closes. -/
def conclude (w : Watch) : Watch :=
  match w.observer with
  | .joining j =>
    if w.desk.session.isConnected ∧ j.status.awaitsHall then
      { w with desk := { w.desk with now := w.desk.now + j.patience + 1 } }.look
    else { w with desk := w.desk.hallCloses }.look
  | _ => { w with desk := w.desk.hallCloses }.look

/-- Of the reports that repeat with every piece only the first is kept, and no answer to a ping. -/
def firstOfEach (ms : List Message) : List Message :=
  (ms.foldl (fun (kept, seen) m =>
    if m.kind = .clientPong then (kept, seen)
    else if m.kind = .curMinoState ∨ m.kind = .previewMinoState then
      if seen.contains m.kind then (kept, seen) else (kept ++ [m], m.kind :: seen)
    else (kept ++ [m], seen)) ([], [])).1

def run (options : Observer.Options) (script : List (Bytes × Bool)) : WatchResult :=
  let w := (script.foldl (fun w (bs, closes) => w.step bs closes) (start options)).conclude
  { code := match w.observer with
      | .finished code => code
      | _ => 0
    log := w.log
    sent := firstOfEach w.sent }

end Watch
end BlockDuel.Rehearsal
