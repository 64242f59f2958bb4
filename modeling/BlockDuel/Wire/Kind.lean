/-!
The kinds of message. The number of a kind is fixed for good; reading a number back is the inverse of
writing it and refuses every number above the last kind.
-/
namespace BlockDuel.Wire

inductive Kind
  | accepted | assignId | registerWithServer | unregisterWithServer
  | clientPing | serverPing | clientPong | serverPong
  | requestRoomJoin | roomJoinAccepted | roomJoinDenied
  | roomPlayerList | roomPlayerJoined | roomPlayerLeft
  | ready | cancelReady | allPlayersReady
  | addPlayer | removePlayer | updatePlayer | gameStart
  | sendBagSeed | boardState | curMinoState | holdMinoState | previewMinoState
  | playerDead | gameOver
  deriving DecidableEq, Repr

namespace Kind

/-- Every kind, in the order of the numbers. -/
def all : List Kind :=
  [accepted, assignId, registerWithServer, unregisterWithServer,
   clientPing, serverPing, clientPong, serverPong,
   requestRoomJoin, roomJoinAccepted, roomJoinDenied,
   roomPlayerList, roomPlayerJoined, roomPlayerLeft,
   ready, cancelReady, allPlayersReady,
   addPlayer, removePlayer, updatePlayer, gameStart,
   sendBagSeed, boardState, curMinoState, holdMinoState, previewMinoState,
   playerDead, gameOver]

def code : Kind → UInt32
  | accepted => 0 | assignId => 1 | registerWithServer => 2 | unregisterWithServer => 3
  | clientPing => 4 | serverPing => 5 | clientPong => 6 | serverPong => 7
  | requestRoomJoin => 8 | roomJoinAccepted => 9 | roomJoinDenied => 10
  | roomPlayerList => 11 | roomPlayerJoined => 12 | roomPlayerLeft => 13
  | ready => 14 | cancelReady => 15 | allPlayersReady => 16
  | addPlayer => 17 | removePlayer => 18 | updatePlayer => 19 | gameStart => 20
  | sendBagSeed => 21 | boardState => 22 | curMinoState => 23 | holdMinoState => 24
  | previewMinoState => 25 | playerDead => 26 | gameOver => 27

def ofCode? (tag : UInt32) : Option Kind := all[tag.toNat]?

/-- The name of a kind in answers and fault texts. -/
def name : Kind → String
  | accepted => "Accepted" | assignId => "AssignId"
  | registerWithServer => "RegisterWithServer" | unregisterWithServer => "UnregisterWithServer"
  | clientPing => "ClientPing" | serverPing => "ServerPing"
  | clientPong => "ClientPong" | serverPong => "ServerPong"
  | requestRoomJoin => "RequestRoomJoin" | roomJoinAccepted => "RoomJoinAccepted"
  | roomJoinDenied => "RoomJoinDenied" | roomPlayerList => "RoomPlayerList"
  | roomPlayerJoined => "RoomPlayerJoined" | roomPlayerLeft => "RoomPlayerLeft"
  | ready => "Ready" | cancelReady => "CancelReady" | allPlayersReady => "AllPlayersReady"
  | addPlayer => "AddPlayer" | removePlayer => "RemovePlayer" | updatePlayer => "UpdatePlayer"
  | gameStart => "GameStart" | sendBagSeed => "SendBagSeed" | boardState => "BoardState"
  | curMinoState => "CurMinoState" | holdMinoState => "HoldMinoState"
  | previewMinoState => "PreviewMinoState" | playerDead => "PlayerDead" | gameOver => "GameOver"

/-- The kinds that a host passes on untouched between the two players of a match. -/
def relayed : Kind → Bool
  | curMinoState | holdMinoState | previewMinoState | boardState | updatePlayer => true
  | _ => false

@[simp] theorem ofCode?_code (k : Kind) : ofCode? k.code = some k := by
  cases k <;> rfl

theorem code_eq_of_ofCode? {tag : UInt32} {k : Kind} (h : ofCode? tag = some k) :
    k.code = tag := by
  have hl : tag.toNat < 28 := by
    simpa [all] using (List.getElem?_eq_some_iff.mp h).1
  have hc : ∀ i : Fin 28, ∀ k, all[i.val]? = some k → k.code.toNat = i.val := by
    intro i k hk
    revert k
    revert i
    decide
  exact UInt32.toNat_inj.mp (hc ⟨tag.toNat, hl⟩ k h)

end Kind
end BlockDuel.Wire
