import BlockDuel.Arena
import BlockDuel.Seat.Session

/-!
Playing a match over a session: the opponent's reports go into the arena, the own changes go out, and
the hall's verdict is kept. A death is reported once.
-/
namespace BlockDuel.Seat
open Wire

/-- Most messages that one round of changes takes. -/
def maxChanges : Nat := 4

structure Play where
  arena : Arena
  playerId : PlayerId
  verdict : Option Verdict
  deathReported : Bool
  deriving DecidableEq

namespace Play

def start (arena : Arena) (playerId : PlayerId) : Play := ⟨arena, playerId, none, false⟩

/-- Whose game a verdict ends, seen by a player: that of the other side only if the player won. -/
def endedSide (id : PlayerId) (v : Verdict) : Side := if v.winner = id then .there else .here

/-- What a message changes in the match. A report of the wrong size changes nothing. -/
def receive (p : Play) (m : Message) : Play :=
  match m.kind with
  | .curMinoState =>
    match m.read? Falling with
    | some f => { p with arena := p.arena.seeFalling f }
    | none => p
  | .holdMinoState =>
    match m.read? Falling with
    | some f => { p with arena := p.arena.seeHeld f.piece? }
    | none => p
  | .previewMinoState =>
    match m.read? Preview with
    | some v => { p with arena := p.arena.seePreview v }
    | none => p
  | .boardState =>
    match m.read? Board with
    | some b => { p with arena := p.arena.seeBoard b }
    | none => p
  | .gameOver =>
    match m.read? Verdict with
    | some v => { p with arena := p.arena.setOver (endedSide p.playerId v), verdict := some v }
    | none => p
  | _ => p

/-- One message: a ping is answered if the line is up, anything else goes into the match. -/
def apply (p : Play) (s : Session) (m : Message) : Play × Session :=
  if m.kind = .serverPing then (p, (s.send .clientPong).2) else (p.receive m, s)

/-- Takes the waiting messages and counts them. -/
def processAll : List Notice → Play → Session → Nat × Play × Session
  | [], p, s => (0, p, { s with inbox := [] })
  | n :: rest, p, s =>
    match s.accept n with
    | none => processAll rest p s
    | some m =>
      let (p, s) := p.apply s m
      let (k, p, s) := processAll rest p s
      (k + 1, p, s)

def process (p : Play) (s : Session) : Nat × Play × Session := processAll s.inbox p s

def pending (p : Play) : List Message :=
  let own := p.arena.own
  let marked := p.arena.changed
  (if marked.falling then [.falling own.falling] else []) ++
    (if marked.held then [.held (.held own.held)] else []) ++
    (if marked.preview then [.preview own.preview] else []) ++
    (if marked.board then [.board own.board] else [])

/-- Shows the marked changes to the opponent and counts them. Without a line they stay marked. -/
def sync (p : Play) (s : Session) : Nat × Play × Session :=
  if s.isConnected then
    let batch := p.pending
    (batch.length, { p with arena := p.arena.clearChanges },
      batch.foldl (fun s m => (s.send m).2) s)
  else (0, p, s)

/-- Tells the hall that the player lost, unless it has been told. -/
def reportDeath (p : Play) (s : Session) : Except Link.Fault Unit × Play × Session :=
  if p.deathReported then (.ok (), p, s)
  else
    match s.send (.playerDead p.playerId) with
    | (.ok (), s) => (.ok (), { p with deathReported := true }, s)
    | (.error f, s) => (.error f, p, s)

/-- Takes leave of the hall and gives up the line once that is written. -/
def leave (p : Play) (s : Session) : Option (Except Link.Fault Unit) × Session :=
  (s.send (.unregister p.playerId)).2.shutdown

end Play
end BlockDuel.Seat
