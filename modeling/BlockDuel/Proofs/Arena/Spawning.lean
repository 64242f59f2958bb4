import BlockDuel.Arena
import BlockDuel.Proofs.Bag.Dealing

/-!
The pieces of a match. All that happens to an arena leaves its bag alone, but for spawning, which draws
a piece and looks at the next five. So the pieces that a player gets are those of the seed in their
order, whatever else happens on either side.
-/
namespace BlockDuel.Arena

/-- Something that changes an arena. Reading it does not. -/
inductive Act
  | spawn
  | falling (f : Falling)
  | held (p : Option Piece)
  | preview (p : Preview)
  | board (b : Board)
  | clear
  | seesFalling (f : Falling)
  | seesHeld (p : Option Piece)
  | seesPreview (p : Preview)
  | seesBoard (b : Board)
  | lost (side : Side)
  deriving DecidableEq

/-- The pieces that an act spawns, and the arena behind it. -/
def does (a : Arena) : Act → List Piece × Arena
  | .spawn => ([a.spawn.1], a.spawn.2)
  | .falling f => ([], a.setFalling f)
  | .held p => ([], a.setHeld p)
  | .preview p => ([], a.setPreview p)
  | .board b => ([], a.setBoard b)
  | .clear => ([], a.clearChanges)
  | .seesFalling f => ([], a.seeFalling f)
  | .seesHeld p => ([], a.seeHeld p)
  | .seesPreview p => ([], a.seePreview p)
  | .seesBoard b => ([], a.seeBoard b)
  | .lost side => ([], a.setOver side)

/-- The pieces spawned in the course of some acts, and the arena behind them. -/
def run (a : Arena) (acts : List Act) : List Piece × Arena := Bag.runBy does a acts

/-- How many of the acts spawn. -/
def spawns (acts : List Act) : Nat := acts.count .spawn

theorem length_run (a : Arena) (acts : List Act) : (a.run acts).1.length = spawns acts := by
  apply Bag.length_runBy
  intro a act
  cases act <;> rfl

/-- What is spawned comes from the bag, and nothing else touches it. -/
theorem yields_does (a : Arena) (act : Act) : a.bag.Yields (a.does act).1 (a.does act).2.bag := by
  cases act with
  | spawn => exact (Bag.yields_draw a.bag).trans (Bag.yields_fill 4 a.bag.draw.2)
  | lost side => cases side <;> exact .refl a.bag
  | falling f | held p | preview p | board b | clear | seesFalling f | seesHeld p | seesPreview p
  | seesBoard b => exact .refl a.bag

theorem yields_run (a : Arena) (acts : List Act) :
    a.bag.Yields (a.run acts).1 (a.run acts).2.bag :=
  Bag.yields_runBy bag yields_does a acts

/-- The preview that is there from the start costs no piece. -/
theorem yields_start (seed : UInt64) (acts : List Act) :
    (Bag.ofSeed seed).Yields ((start seed).run acts).1 ((start seed).run acts).2.bag :=
  (Bag.yields_fill 4 (Bag.ofSeed seed)).trans (yields_run (start seed) acts)

theorem run_start (seed : UInt64) (acts : List Act) :
    ((start seed).run acts).1 = ((Bag.ofSeed seed).drawMany (spawns acts)).1 := by
  apply (yields_start seed acts).deals_taken.unique (Bag.deals_drawMany _ _)
  rw [length_run, Bag.length_drawMany]

/-- The pieces spawned so far, the next one and the five shown behind it are the first of the seed. -/
theorem spawn_start (seed : UInt64) (acts : List Act) :
    let a := ((start seed).run acts).2
    ((Bag.ofSeed seed).drawMany (spawns acts + 6)).1 =
      ((start seed).run acts).1 ++ a.spawn.1 :: a.bag.draw.2.preview.1.toList := by
  intro a
  have hnext : a.bag.Deals (a.spawn.1 :: a.bag.draw.2.preview.1.toList) :=
    (Bag.yields_draw a.bag).deals (Bag.deals_preview a.bag.draw.2)
  apply (Bag.deals_drawMany _ _).unique ((yields_start seed acts).deals hnext)
  rw [Bag.length_drawMany, List.length_append, length_run, List.length_cons, Vector.length_toList]

/-- Whatever happened in a match, the pieces spawned are the first ones that a bag of the same seed deals,
in their order. The next one appears at the spawn position facing north, the preview shows the five that
the bag deals behind it, and both are marked. So two players with one seed who have spawned equally often
have got the same pieces. -/
theorem fair_pieces (seed : UInt64) :
    (∀ acts : List Act,
      let spawned := ((start seed).run acts).1
      let next := ((start seed).run acts).2.spawn
      spawned = ((Bag.ofSeed seed).drawMany (spawns acts)).1 ∧
        (∃ shown : Vector Piece 5,
          ((Bag.ofSeed seed).drawMany (spawns acts + 6)).1 = spawned ++ next.1 :: shown.toList ∧
            next.2.own.preview = .ofPieces shown) ∧
        next.2.own.falling = .ofPiece next.1 spawnX spawnY .north ∧
        next.2.changed.falling = true ∧ next.2.changed.preview = true) ∧
      ∀ acts acts' : List Act, spawns acts = spawns acts' →
        ((start seed).run acts).1 = ((start seed).run acts').1 := by
  constructor
  · intro acts spawned next
    exact ⟨run_start seed acts, ⟨_, spawn_start seed acts, rfl⟩, rfl, rfl, rfl⟩
  · intro acts acts' h
    rw [run_start, run_start, h]

/-- Two players with the seed `7`: one of them sets boards and shows them, the other one watches. -/
theorem same_two_pieces :
    let acts : List Act := [.spawn, .board .empty, .held (some .T), .clear, .spawn]
    let acts' : List Act := [.lost .there, .spawn, .seesHeld (some .T), .spawn, .seesBoard .empty]
    ((start 7).run acts).1 = ((start 7).run acts').1 ∧ ((start 7).run acts').1 = [.I, .J] := by
  obtain ⟨hspawned, hsame⟩ := fair_pieces 7
  refine ⟨hsame _ _ (by decide), ?_⟩
  rw [(hspawned _).1]
  decide

end BlockDuel.Arena
