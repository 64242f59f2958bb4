import BlockDuel.Hall.Roll

/-!
When to ask the players for a sign of life and when to give a silent one up. Clock readings may go
backwards; then no time has passed.
-/
namespace BlockDuel.Hall

/-- Usual milliseconds between two pings. -/
def pingIntervalMs : Nat := 2000
/-- Usual milliseconds of silence before a player is given up. -/
def pongTimeoutMs : Nat := 5000

structure Heartbeat where
  interval : Nat
  patience : Nat
  lastPing : Time
  deriving DecidableEq, Repr

namespace Heartbeat

/-- Whether a ping is due; a ping that is due counts as sent. -/
def due (h : Heartbeat) (now : Time) : Bool × Heartbeat :=
  if now - h.lastPing < h.interval then (false, h) else (true, { h with lastPing := now })

def isExpired (h : Heartbeat) (last now : Time) : Bool := now - last > h.patience

/-- The registered players that went silent and are not being cut already. -/
def expired (h : Heartbeat) (rs : List Registration) (now : Time) : List PlayerId :=
  (rs.filter fun r => r.validated && !r.closing && h.isExpired r.lastPong now).map (·.id)

end Heartbeat
end BlockDuel.Hall
