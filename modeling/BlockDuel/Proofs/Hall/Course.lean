import BlockDuel.Hall.State
import Mathlib.Data.List.Induction

/-!
What a hall goes through: any number of occasions in any order, each a notice of a link or a look after
the silent players. A course keeps the hall, the deeds so far and how many seeds were made; the
`k`-th seed that is made is the `k`-th of a given sequence. A seed is made for each match that begins
and at no other time.
-/
namespace BlockDuel.Hall
open Wire

/-- Something that a hall deals with in one go. -/
inductive Occasion
  | notice (now : Time) (n : Notice)
  /-- A look after the silent players, who are visited in some order. -/
  | check (now : Time) (order : List PlayerId)
  deriving DecidableEq, Repr

/-- A match as it begins: the members in the order of joining, and their seed. -/
structure Pairing where
  members : List PlayerId
  seed : UInt64
  deriving DecidableEq, Repr

namespace Deed

/-- The match that begins. -/
def pairing? : Deed → Option Pairing
  | opens members seed => some ⟨members, seed⟩
  | _ => none

/-- The decision on a match. -/
def verdict? : Deed → Option Verdict
  | rules v => some v
  | _ => none

/-- A message that is handed over for sending, whether or not the receiver's link is on the roll. -/
def sent? : Deed → Option (PlayerId × Message)
  | post receiver m => some (receiver, m)
  | miss receiver m => some (receiver, m)
  | _ => none

end Deed

namespace State

/-- One occasion. `mint` makes a fresh seed. -/
def meetM {m : Type → Type} [Monad m] (s : State) (mint : m UInt64) :
    Occasion → m (State × List Deed)
  | .notice now n => s.handleM now mint n
  | .check now order => pure (s.checkLiveness now order)

/-- One occasion, with `seed` for a match that it may start. -/
def meet (s : State) (seed : UInt64) (o : Occasion) : State × List Deed :=
  Id.run (s.meetM (pure seed) o)

end State

/-- Makes the next seed of a sequence. The state is the number of seeds made. -/
def mint (seeds : Nat → UInt64) : StateM Nat UInt64 := fun made => (seeds made, made + 1)

/-- A hall with all that it has done. -/
structure Course where
  hall : State
  /-- How many seeds were made. -/
  made : Nat
  deeds : List Deed

namespace Course

def opened (interval patience : Nat) (now : Time) : Course := ⟨.opened interval patience now, 0, []⟩

/-- The hall meets one more occasion. -/
def next (seeds : Nat → UInt64) (c : Course) (o : Occasion) : Course :=
  let ((hall, deeds), made) := (c.hall.meetM (mint seeds) o).run c.made
  ⟨hall, made, c.deeds ++ deeds⟩

/-- The hall meets some occasions, one after the other. -/
def run (seeds : Nat → UInt64) (c : Course) (os : List Occasion) : Course := os.foldl (next seeds) c

/-- The matches that began, oldest first. -/
def pairings (c : Course) : List Pairing := c.deeds.filterMap Deed.pairing?

/-- The decisions, oldest first. -/
def verdicts (c : Course) : List Verdict := c.deeds.filterMap Deed.verdict?

end Course

theorem Room.joinM_mint (r : Room) (id : PlayerId) (seeds : Nat → UInt64) (made : Nat) :
    (r.joinM id (mint seeds)).run made =
      (r.join id (seeds made), made + (r.join id (seeds made)).1.seed?.toList.length) := by
  unfold Room.join Room.joinM
  split
  · rfl
  split
  · rfl
  split
  · rfl
  dsimp only
  split <;> rfl

namespace State

variable {s : State} {now : Time} {id : PlayerId}

@[simp] theorem pairing?_send (m : Message) : (s.send id m).pairing? = none := by
  unfold send
  split <;> rfl

theorem arbitrate_opens_nothing {s' : State} {ds : List Deed} (h : s.arbitrate id = some (s', ds)) :
    ds.filterMap Deed.pairing? = [] := by
  unfold arbitrate at h
  split at h
  · cases h
    simp only [List.filterMap_cons, pairing?_send]
    rfl
  · cases h

theorem onPlayerDead_opens_nothing : (s.onPlayerDead id).2.filterMap Deed.pairing? = [] := by
  unfold onPlayerDead
  cases h : s.arbitrate id with
  | none => rfl
  | some out => exact arbitrate_opens_nothing h

theorem leaveRoom_opens_nothing : (s.leaveRoom id).2.filterMap Deed.pairing? = [] := by
  unfold leaveRoom
  split
  · rfl
  · cases h : s.arbitrate id with
    | none => cases s.room.other? id <;> simp
    | some out =>
      have ho := arbitrate_opens_nothing h
      cases s.room.other? id <;> simp [ho]

theorem onRegister_opens_nothing (m : Message) :
    (s.onRegister now id m).2.filterMap Deed.pairing? = [] := by
  unfold onRegister
  split
  · rfl
  · split <;> simp

theorem onUnregister_opens_nothing : (s.onUnregister id).2.filterMap Deed.pairing? = [] := by
  unfold onUnregister
  split
  · dsimp only
    rw [List.filterMap_append, leaveRoom_opens_nothing, List.nil_append]
    split <;> rfl
  · rfl

theorem onLost_opens_nothing : (s.onLost id).2.filterMap Deed.pairing? = [] := by
  unfold onLost
  split
  · exact leaveRoom_opens_nothing
  · rfl

theorem relay_opens_nothing (m : Message) : (s.relay id m).filterMap Deed.pairing? = [] := by
  unfold relay
  split <;> simp

theorem checkLiveness_opens_nothing (order : List PlayerId) :
    (s.checkLiveness now order).2.filterMap Deed.pairing? = [] := by
  simp only [checkLiveness, List.filterMap_append, List.append_eq_nil_iff]
  constructor
  · split <;> simp
  · simp [Deed.pairing?]

theorem introduce_opens_nothing (existing : Option PlayerId) :
    (s.introduce id existing).filterMap Deed.pairing? = [] := by
  unfold introduce
  split <;> simp

theorem start_pairings (made : Option UInt64) :
    (s.start made).filterMap Deed.pairing? =
      made.toList.map fun seed => ⟨s.room.members, seed⟩ := by
  cases made with
  | none => rfl
  | some seed =>
    have ho : (Deed.opens s.room.members seed).pairing? = some ⟨s.room.members, seed⟩ := rfl
    simp [start, ho, List.filterMap_flatMap]

/-- Only a seed that was made opens a match. -/
theorem afterJoin_pairings (answer : JoinOutcome × Room) :
    (s.afterJoin id answer).2.filterMap Deed.pairing? =
      answer.1.seed?.toList.map fun seed => ⟨answer.2.members, seed⟩ := by
  obtain ⟨outcome, room⟩ := answer
  cases outcome with
  | alreadyMember => simp [afterJoin, JoinOutcome.seed?]
  | notAdmitted => simp [afterJoin, JoinOutcome.seed?]
  | joined existing made =>
    simp only [afterJoin, List.filterMap_cons, List.filterMap_append, pairing?_send,
      introduce_opens_nothing, start_pairings]
    rfl

theorem onRoomJoinM_mint (seeds : Nat → UInt64) (made : Nat) :
    (s.onRoomJoinM (mint seeds) id).run made =
      let out := Id.run (s.onRoomJoinM (pure (seeds made)) id)
      (out, made + (out.2.filterMap Deed.pairing?).length) := by
  unfold onRoomJoinM
  split
  · rfl
  · have hl : ((s.afterJoin id (s.room.join id (seeds made))).2.filterMap Deed.pairing?).length =
        (s.room.join id (seeds made)).1.seed?.toList.length := by
      rw [afterJoin_pairings, List.length_map]
    rw [StateT.run_map, Room.joinM_mint, ← hl]
    rfl

theorem quiet_mint (out : State × List Deed) (made : Nat)
    (h : out.2.filterMap Deed.pairing? = []) :
    (out, made) = (out, made + (out.2.filterMap Deed.pairing?).length) := by
  rw [h]
  rfl

theorem onMessageM_mint (seeds : Nat → UInt64) (made : Nat) (m : Message) :
    (s.onMessageM now (mint seeds) id m).run made =
      let out := Id.run (s.onMessageM now (pure (seeds made)) id m)
      (out, made + (out.2.filterMap Deed.pairing?).length) := by
  unfold onMessageM
  split
  · rfl
  split
  · exact quiet_mint _ made (onRegister_opens_nothing m)
  · exact quiet_mint _ made onUnregister_opens_nothing
  · rfl
  · exact quiet_mint _ made (by simp)
  · exact onRoomJoinM_mint seeds made
  · exact quiet_mint _ made onPlayerDead_opens_nothing
  · refine quiet_mint _ made ?_
    dsimp only
    split
    · exact relay_opens_nothing m
    · rfl

/-- The seeds that are made during an occasion are those of the matches that begin. -/
theorem meetM_mint (seeds : Nat → UInt64) (made : Nat) (o : Occasion) :
    (s.meetM (mint seeds) o).run made =
      (s.meet (seeds made) o,
        made + ((s.meet (seeds made) o).2.filterMap Deed.pairing?).length) := by
  cases o with
  | notice now n =>
    cases n with
    | connected id => exact quiet_mint _ made (by simp [onConnected])
    | message id m => exact onMessageM_mint seeds made m
    | lost id => exact quiet_mint _ made onLost_opens_nothing
  | check now order => exact quiet_mint _ made (checkLiveness_opens_nothing order)

end State

namespace Course

variable {seeds : Nat → UInt64} {c : Course}

theorem next_eq (o : Occasion) :
    c.next seeds o =
      let out := c.hall.meet (seeds c.made) o
      ⟨out.1, c.made + (out.2.filterMap Deed.pairing?).length, c.deeds ++ out.2⟩ := by
  simp only [next, State.meetM_mint]

theorem run_concat (os : List Occasion) (o : Occasion) :
    c.run seeds (os ++ [o]) = (c.run seeds os).next seeds o := by
  simp [run]

end Course
end BlockDuel.Hall
