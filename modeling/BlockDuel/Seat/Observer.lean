import BlockDuel.Environment
import BlockDuel.Seat.Joining
import BlockDuel.Seat.Play
import BlockDuel.Text.Records

/-!
A player without a screen. It joins, drops a piece now and then, and keeps a log of what the opponent
does: one line for each change of the opponent's piece or field, and the verdict as the last line.
-/
namespace BlockDuel.Seat
open Wire Text

inductive Report
  | ready (playerId : PlayerId) (seed : UInt64) (roster : List Player)
  | enemyPiece (f : Falling)
  | enemyBoard (filled : Nat)
  | gameOver (v : Verdict) (won : Bool)
  | failed (reason : String)
  deriving DecidableEq, Repr

def Report.toJson : Report → Json
  | ready id seed roster =>
    .record [("event", .ofString "ready"), ("player_id", .integer id.toNat),
      ("seed", .integer seed.toNat), ("roster", .array (roster.map ofPlayer))]
  | enemyPiece f => .record [("event", .ofString "enemy_piece"), ("mino", ofFalling f)]
  | enemyBoard n => .record [("event", .ofString "enemy_board"), ("filled", .integer n)]
  | gameOver v won =>
    .record [("event", .ofString "game_over"), ("winner_id", .integer v.winner.toNat),
      ("loser_id", .integer v.loser.toNat), ("won", .bool won)]
  | failed reason => .record [("event", .ofString "failed"), ("reason", .ofString reason)]

inductive Observer
  | joining (j : Joining)
  | playing (p : Play)
  /-- The log is complete; the number is the exit code. -/
  | finished (code : Nat)

namespace Observer

structure Options where
  avatar : UInt32
  /-- Milliseconds of play after which the observer reports its own death. -/
  diesAfter : Option Nat

namespace Options

def keys : List String := ["PROBE_AVATAR", "PROBE_DIE_AFTER_MS"]

def ofEnvironment (env : Environment) : Options where
  avatar := ((env.number? "PROBE_AVATAR" UInt32.size).map UInt32.ofNat).getD 0
  diesAfter := env.number? "PROBE_DIE_AFTER_MS" UInt64.size

def dies (o : Options) (played : Nat) : Bool := o.diesAfter.any (· ≤ played)

end Options

def start (o : Options) (now : Nat) : Observer :=
  .joining (.start responseTimeoutMs o.avatar now)

/-- What the opponent did between two looks at the arena. -/
def changes (before after : Half) : List Report :=
  (if after.falling ≠ before.falling then [.enemyPiece after.falling] else []) ++
    (if after.board ≠ before.board then [.enemyBoard after.board.filled] else [])

structure Beat where
  /-- The time to report the own death has come. -/
  dies : Bool
  spawns : Bool
  deriving DecidableEq, Repr

/-- One frame of play. The line is looked at before the messages are, and a verdict ends the log. -/
def frame (p : Play) (s : Session) (beat : Beat) : List Report × Observer × Session :=
  if !s.isConnected then ([], .finished 0, (p.leave s).2)
  else
    let before := p.arena.opponent
    let (_, p, s) := p.process s
    let seen := changes before p.arena.opponent
    match p.verdict with
    | some v => (seen ++ [.gameOver v (!p.arena.isOver .here)], .finished 0, (p.leave s).2)
    | none =>
      match (if beat.dies then p.reportDeath s else (.ok (), p, s)) with
      | (.error _, _, s) => (seen, .finished 1, s.disconnect)
      | (.ok (), p, s) =>
        let p := if beat.spawns then { p with arena := p.arena.spawn.2 } else p
        let (_, p, s) := p.sync s
        (seen, .playing p, s)

/-- One look at the session while joining. Play begins with a first piece. -/
def join (j : Joining) (s : Session) (now : Nat) : List Report × Observer × Session :=
  let (j, s) := j.poll s now
  match j.status with
  | .ready seed id =>
    let p := Play.start (Arena.start seed).spawn.2 id
    ([.ready id seed j.roster], .playing p, s)
  | .failed f => ([.failed f.message], .finished 0, s.disconnect)
  | _ => ([], .joining j, s)

end Observer
end BlockDuel.Seat
