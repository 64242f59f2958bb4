import BlockDuel.Wire.Fault
import BlockDuel.Wire.Payload

/-!
Messages: a kind and the octets of its payload, and the fixed vocabulary that players and host use.
-/
namespace BlockDuel.Wire

structure Message where
  kind : Kind
  payload : Bytes
  deriving DecidableEq, Repr

namespace Message

/-- A message that says no more than its kind. -/
def bare (k : Kind) : Message := ⟨k, []⟩

def carrying {α : Type} [Payload α] (k : Kind) (a : α) : Message := ⟨k, Payload.write a⟩

/-- The value of a message, or the sizes that disagree. -/
def read (m : Message) (α : Type) [Payload α] : Except Fault α :=
  match Payload.read m.payload with
  | .ok a => .ok a
  | .error e => .error (.payloadSize m.kind e.expected e.actual)

/-- The value of a message if its payload has the right size. -/
def read? (m : Message) (α : Type) [Payload α] : Option α := (m.read α).toOption

def accepted : Message := bare .accepted
def assignId (id : PlayerId) : Message := carrying .assignId id
def register (p : Player) : Message := carrying .registerWithServer p
def unregister (id : PlayerId) : Message := carrying .unregisterWithServer id
def serverPing : Message := bare .serverPing
def clientPing : Message := bare .clientPing
def clientPong : Message := bare .clientPong
def serverPong : Message := bare .serverPong
def requestRoomJoin : Message := bare .requestRoomJoin
def roomJoinAccepted : Message := bare .roomJoinAccepted
def roomPlayerList (ps : List Player) : Message := carrying .roomPlayerList ps
def roomPlayerJoined (p : Player) : Message := carrying .roomPlayerJoined p
def roomPlayerLeft (id : PlayerId) : Message := carrying .roomPlayerLeft id
def allPlayersReady : Message := bare .allPlayersReady
def bagSeed (seed : UInt64) : Message := carrying .sendBagSeed seed
def falling (f : Falling) : Message := carrying .curMinoState f
def held (f : Falling) : Message := carrying .holdMinoState f
def preview (p : Preview) : Message := carrying .previewMinoState p
def board (b : Board) : Message := carrying .boardState b
def playerDead (loser : PlayerId) : Message := carrying .playerDead loser
def gameOver (v : Verdict) : Message := carrying .gameOver v

end Message
end BlockDuel.Wire
