import BlockDuel.Tcp.Host
import BlockDuel.Tcp.Spectator

/-!
The program. It serves a hall as its environment says, or, when told to observe, joins one and writes
a log of the match.
-/
open BlockDuel

def readEnvironment (names : List String) : IO Environment := do
  let values ← names.mapM fun name => do pure (name, ← IO.getEnv name)
  pure fun name => (values.lookup name).join

def complain (text : String) : IO UInt32 := do
  IO.eprintln ("Error: " ++ text)
  pure 1

/-- Serves a hall until the process ends. -/
def serveHall : IO UInt32 := do
  let env ← readEnvironment Hall.Settings.keys
  match ← Tcp.Host.listen (Hall.Settings.ofEnvironment env) with
  | .error fault => complain fault.message
  | .ok host =>
    host.serve
    pure 0

def observeMatch : IO UInt32 := do
  let env ← readEnvironment (Hall.Settings.keys ++ Seat.Observer.Options.keys)
  let settings := Hall.Settings.ofEnvironment env
  match ← Tcp.Spectator.dial ((env "TETRIS_SERVER_HOST").getD settings.host) settings.port with
  | .error fault => complain fault.message
  | .ok peer => pure (UInt32.ofNat (← Tcp.Spectator.run peer (.ofEnvironment env)))

def main (arguments : List String) : IO UInt32 :=
  match arguments with
  | [] => serveHall
  | ["observe"] => observeMatch
  | _ => complain "the only argument is: observe"
