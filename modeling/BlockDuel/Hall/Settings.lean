import BlockDuel.Environment
import BlockDuel.Hall.Heartbeat
import BlockDuel.Text.Address

/-!
The settings of a hall from the environment. A variable that is missing, blank or no number in range
leaves the usual value.
-/
namespace BlockDuel.Hall

def defaultPort : UInt16 := 60000

/-- Where a hall listens and how patient it is. -/
structure Settings where
  host : String := "127.0.0.1"
  port : UInt16 := defaultPort
  pingIntervalMs : UInt64 := .ofNat Hall.pingIntervalMs
  pongTimeoutMs : UInt64 := .ofNat Hall.pongTimeoutMs
  tickMs : UInt64 := 16
  netThreads : UInt64 := 1
  deriving DecidableEq, Repr

inductive ListenFault
  | invalidAddress (host : String) (port : UInt16)
  | taken (address : String)
  deriving DecidableEq, Repr

def ListenFault.message : ListenFault → String
  | invalidAddress host port => s!"invalid listen address {host}:{port.toNat}"
  | taken address => s!"failed to bind {address}"

namespace Settings

def keys : List String :=
  ["TETRIS_SERVER_HOST", "TETRIS_SERVER_PORT", "TETRIS_PING_INTERVAL_MS", "TETRIS_PONG_TIMEOUT_MS",
    "TETRIS_TICK_MS", "TETRIS_NET_THREADS"]

def word64 (env : Environment) (key : String) (usual : UInt64) : UInt64 :=
  ((env.number? key UInt64.size).map UInt64.ofNat).getD usual

def ofEnvironment (env : Environment) : Settings :=
  let usual : Settings := {}
  { host := (env.text? "TETRIS_SERVER_HOST").getD usual.host
    port := ((env.number? "TETRIS_SERVER_PORT" UInt16.size).map UInt16.ofNat).getD usual.port
    pingIntervalMs := word64 env "TETRIS_PING_INTERVAL_MS" usual.pingIntervalMs
    pongTimeoutMs := word64 env "TETRIS_PONG_TIMEOUT_MS" usual.pongTimeoutMs
    tickMs := word64 env "TETRIS_TICK_MS" usual.tickMs
    netThreads := word64 env "TETRIS_NET_THREADS" usual.netThreads }

/-- The address to listen on. The host is a literal address; names are not looked up here. -/
def address (s : Settings) : Except ListenFault Text.Address :=
  match Text.Host.parse? s.host.toList with
  | some host => .ok ⟨host, s.port⟩
  | none => .error (.invalidAddress s.host s.port)

end Settings
end BlockDuel.Hall
