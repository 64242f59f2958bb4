import BlockDuel.Proofs.Wire.Layout

/-!
Reading as a machine does it. A cursor takes number after number off the octets. A slice that reaches
behind the octets, or a size that is no machine word, would bring the machine to a halt; for the values
that travel in frames it never comes to that, and what the machine reads is what is laid out.
-/
namespace BlockDuel.Wire

/-- A size that a machine computes. There is none if it is no machine word. -/
def size? (n : Nat) : Option Nat := if n < UInt64.size then some n else none

/-- The octets from `start` up to `stop`, which have to be there. -/
def slice? (bs : Bytes) (start stop : Nat) : Option Bytes :=
  if start ≤ stop ∧ stop ≤ bs.length then some ((bs.drop start).take (stop - start)) else none

theorem size?_of_lt {n : Nat} (h : n < UInt64.size) : size? n = some n := if_pos h

theorem slice?_of_le {bs : Bytes} {start stop : Nat} (hs : start ≤ stop) (hb : stop ≤ bs.length) :
    slice? bs start stop = some ((bs.drop start).take (stop - start)) := if_pos ⟨hs, hb⟩

/-- Octets, and how many of them are taken. -/
structure Cursor where
  octets : Bytes
  taken : Nat

namespace Cursor

/-- The next `w` octets. -/
def take (w : Nat) : StateT Cursor Option Bytes := fun c => do
  let stop ← size? (c.taken + w)
  let bs ← slice? c.octets c.taken stop
  some (bs, ⟨c.octets, stop⟩)

/-- There are `w` octets ahead, and they end at a machine word. -/
structure Has (c : Cursor) (w : Nat) : Prop where
  there : c.taken + w ≤ c.octets.length
  word : c.taken + w < UInt64.size

def ahead (c : Cursor) (w : Nat) : Bytes := (c.octets.drop c.taken).take w

def move (c : Cursor) (w : Nat) : Cursor := ⟨c.octets, c.taken + w⟩

variable {c : Cursor} {v w : Nat}

theorem take_eq (h : c.Has w) : (take w).run c = some (c.ahead w, c.move w) := by
  have hslice : slice? c.octets c.taken (c.taken + w) = some (c.ahead w) := by
    rw [slice?_of_le (Nat.le_add_right _ _) h.there, Nat.add_sub_cancel_left]
    rfl
  change (do
    let stop ← size? (c.taken + w)
    let bs ← slice? c.octets c.taken stop
    some (bs, Cursor.mk c.octets stop)) = _
  rw [size?_of_lt h.word, Option.bind_eq_bind, Option.bind_some, hslice]
  rfl

/-- Without its octets a number is not read. -/
example : (take 4).run ⟨[1, 2, 3], 0⟩ = none := rfl

theorem Has.fst (h : c.Has (v + w)) : c.Has v := by
  obtain ⟨hthere, hword⟩ := h
  exact ⟨by omega, by omega⟩

theorem Has.snd (h : c.Has (v + w)) : (c.move v).Has w := by
  obtain ⟨hthere, hword⟩ := h
  refine ⟨?_, ?_⟩
  · change c.taken + v + w ≤ c.octets.length
    omega
  · change c.taken + v + w < UInt64.size
    omega

theorem take_ahead (c : Cursor) (v w : Nat) : (c.ahead (v + w)).take v = c.ahead v := by
  unfold ahead
  rw [List.take_take, Nat.min_eq_left (Nat.le_add_right v w)]

theorem drop_ahead (c : Cursor) (v w : Nat) : (c.ahead (v + w)).drop v = (c.move v).ahead w := by
  unfold ahead move
  rw [List.drop_take, List.drop_drop, Nat.add_sub_cancel_left]

theorem move_move (c : Cursor) (v w : Nat) : (c.move v).move w = c.move (v + w) := by
  unfold move
  rw [Nat.add_assoc]

end Cursor

/-- A type that a cursor reads. It takes as many octets as the layout is wide and makes of them what the
layout says. -/
class Legible (α : Type) [Layout α] where
  pick : StateT Cursor Option α
  pick_eq (c : Cursor) (h : c.Has (Layout.width α)) :
    pick.run c = some (Layout.get (c.ahead (Layout.width α)), c.move (Layout.width α))

namespace Legible
open Layout

/-- A number is taken in one go. -/
@[reducible] def number (α : Type) [Layout α] : Legible α where
  pick := get <$> Cursor.take (width α)
  pick_eq c h := by
    rw [StateT.run_map, Cursor.take_eq h]
    rfl

instance : Legible UInt32 := number UInt32

instance : Legible UInt64 := number UInt64

instance : Legible Int32 := number Int32

instance : Legible Unit where
  pick := pure ()
  pick_eq _ _ := rfl

section

variable {α β : Type} [Layout α] [Layout β] [Legible α]

instance [Legible β] : Legible (α × β) where
  pick := do
    let a ← pick
    let b ← pick
    pure (a, b)
  pick_eq c h := by
    have hw : width (α × β) = width α + width β := rfl
    rw [hw] at h ⊢
    rw [StateT.run_bind, pick_eq c h.fst, Option.bind_eq_bind, Option.bind_some, StateT.run_bind,
      pick_eq _ h.snd, Option.bind_eq_bind, Option.bind_some]
    change some ((get (c.ahead (width α)), get ((c.move (width α)).ahead (width β))),
      (c.move (width α)).move (width β)) = some ((get ((c.ahead (width α + width β)).take (width α)),
      get ((c.ahead (width α + width β)).drop (width α))), _)
    rw [Cursor.take_ahead, Cursor.drop_ahead, Cursor.move_move]

/-- One value after the other. -/
def pickMany : (n : Nat) → StateT Cursor Option (Vector α n)
  | 0 => pure #v[]
  | n + 1 => do
    let a ← pick
    let v ← pickMany n
    pure ⟨(a :: v.toList).toArray, by simp⟩

theorem pickMany_eq (n : Nat) (c : Cursor) (h : c.Has (n * width α)) :
    (pickMany n).run c = some (⟨(getMany n (c.ahead (n * width α)) : List α).toArray, by simp⟩,
      c.move (n * width α)) := by
  induction n generalizing c with
  | zero =>
    rw [Nat.zero_mul]
    rfl
  | succ n ih =>
    have hw : (n + 1) * width α = width α + n * width α := by
      rw [Nat.succ_mul, Nat.add_comm]
    rw [hw] at h
    simp only [hw]
    rw [pickMany, StateT.run_bind, pick_eq c h.fst, Option.bind_eq_bind, Option.bind_some,
      StateT.run_bind, ih _ h.snd, Option.bind_eq_bind, Option.bind_some]
    simp only [getMany, Cursor.take_ahead, Cursor.drop_ahead, Cursor.move_move, StateT.run_pure]
    rfl

instance {n : Nat} : Legible (Vector α n) where
  pick := pickMany n
  pick_eq c h := pickMany_eq n c h

end

/-- A record is read as the tuple of its fields. -/
@[reducible] def ofTuple {α β : Type} [Layout β] [Legible β] (fields : α → β) (build : β → α) :
    @Legible α (Layout.ofTuple fields build) :=
  letI : Layout α := Layout.ofTuple fields build
  { pick := build <$> (pick : StateT Cursor Option β)
    pick_eq := fun c h => by
      have hb : (pick : StateT Cursor Option β).run c =
        some (get (c.ahead (width β)), c.move (width β)) := pick_eq c h
      rw [StateT.run_map, hb]
      rfl }

instance : Legible Falling :=
  ofTuple (fun f : Falling => (f.kind, f.x, f.y, f.rotation))
    (fun (k, x, y, r) => (⟨k, x, y, r⟩ : Falling))

instance : Legible Preview := ofTuple Preview.kinds Preview.mk

instance : Legible Board := ofTuple Board.cells Board.mk

instance : Legible Verdict :=
  ofTuple (fun v : Verdict => (v.winner, v.loser)) (fun (w, l) => (⟨w, l⟩ : Verdict))

instance : Legible Player :=
  ofTuple (fun p : Player => (p.id, p.avatar)) (fun (i, a) => (⟨i, a⟩ : Player))

end Legible

/-- What a machine makes of a payload. Nothing stands for a machine that has come to a halt. -/
abbrev Attempt := ExceptT SizeMismatch Option

/-- Reads a value behind a cursor, once the size is found to be right. -/
def attempt (α : Type) [Layout α] [Legible α] (bs : Bytes) : Attempt α :=
  if bs.length = Layout.width α then do
    let (a, _) ← (Legible.pick : StateT Cursor Option α).run ⟨bs, 0⟩
    pure a
  else throw ⟨Layout.width α, bs.length⟩

/-- The `n` pieces of `w` octets at the front. -/
def pieces (w : Nat) : Nat → Bytes → List Bytes
  | 0, _ => []
  | n + 1, bs => bs.take w :: pieces w n (bs.drop w)

/-- Reads the number of players and then the players. The size of a list of players is a product that
stops at the greatest machine word and a sum that does not. -/
def attemptRoster (bs : Bytes) : Attempt (List Player) :=
  if bs.length < 4 then throw ⟨4, bs.length⟩
  else do
    let front ← slice? bs 0 4
    let count ← attempt UInt32 front
    let body ← slice? bs 4 bs.length
    let expected := min (count.toNat * 8) (UInt64.size - 1)
    if body.length = expected then (pieces 8 (body.length / 8) body).mapM (attempt Player)
    else do
      let needed ← size? (4 + expected)
      throw ⟨needed, bs.length⟩

section

variable {α : Type} [Layout α] [Legible α]

theorem attempt_of_length {bs : Bytes} (hl : bs.length = Layout.width α)
    (hw : Layout.width α < UInt64.size) : attempt α bs = pure (Layout.get bs) := by
  have hhas : (⟨bs, 0⟩ : Cursor).Has (Layout.width α) := by
    refine ⟨?_, ?_⟩
    · change 0 + Layout.width α ≤ bs.length
      omega
    · change 0 + Layout.width α < UInt64.size
      omega
  have hall : (⟨bs, 0⟩ : Cursor).ahead (Layout.width α) = bs := by
    change bs.take (Layout.width α) = bs
    rw [← hl, List.take_length]
  unfold attempt
  rw [if_pos hl, Legible.pick_eq _ hhas, hall]
  rfl

/-- The machine does not halt and reads what is laid out. -/
theorem attempt_eq (hw : Layout.width α < UInt64.size) (bs : Bytes) :
    (attempt α bs).run = some (Payload.read bs) := by
  by_cases hl : bs.length = Layout.width α
  · rw [attempt_of_length hl hw]
    exact congrArg some (if_pos hl).symm
  · unfold attempt
    rw [if_neg hl]
    exact congrArg some (if_neg hl).symm

end

theorem attempt_pieces (n : Nat) (bs : Bytes) (hl : bs.length = n * 8) :
    (pieces 8 n bs).mapM (attempt Player) = pure (Layout.getMany n bs) := by
  induction n generalizing bs with
  | zero => rfl
  | succ n ih =>
    have htake : (bs.take 8).length = Layout.width Player := by
      change (bs.take 8).length = 8
      rw [List.length_take]
      omega
    have hdrop : (bs.drop 8).length = n * 8 := by
      rw [List.length_drop]
      omega
    rw [pieces, List.mapM_cons, attempt_of_length htake (by decide), pure_bind, ih _ hdrop, pure_bind]
    rfl

/-- No count that a list of players declares makes its size too large. -/
theorem roster_size_lt (count : UInt32) : 4 + count.toNat * 8 < UInt64.size := by
  have hc : count.toNat < UInt32.size := count.toNat_lt
  have h32 : UInt32.size = 4294967296 := rfl
  have h64 : UInt64.size = 18446744073709551616 := rfl
  omega

theorem lift_some {α : Type} (a : α) : (liftM (some a) : Attempt α) = pure a := rfl

/-- The number of players in front, as the machine reads it. -/
theorem attempt_count {bs : Bytes} (hl : 4 ≤ bs.length) :
    ∃ count : UInt32, attempt UInt32 (bs.take 4) = pure count ∧
      count.toNat = Payload.rosterCount bs := by
  have hlen : (bs.take 4).length = 4 := List.length_take_of_le hl
  exact ⟨UInt32.ofNat (Payload.rosterCount bs), attempt_of_length hlen (by decide),
    UInt32.toNat_ofNat_of_lt (Payload.rosterCount_lt hl)⟩

theorem attemptRoster_eq (bs : Bytes) : (attemptRoster bs).run = some (Payload.read bs) := by
  by_cases hl : bs.length < 4
  · rw [Payload.read_roster_of_short hl, attemptRoster, if_pos hl]
    rfl
  · have hle : 4 ≤ bs.length := Nat.le_of_not_lt hl
    have hfront : slice? bs 0 4 = some (bs.take 4) := slice?_of_le (Nat.zero_le 4) hle
    have hbody : slice? bs 4 bs.length = some (bs.drop 4) := by
      rw [slice?_of_le hle (Nat.le_refl _), List.take_of_length_le (Nat.le_of_eq List.length_drop)]
    have hdrop : (bs.drop 4).length = bs.length - 4 := List.length_drop
    obtain ⟨count, hcount, hvalue⟩ := attempt_count hle
    have hsize := roster_size_lt count
    -- the product is far from the greatest word, so the machine has the true size
    have hmin : min (count.toNat * 8) (UInt64.size - 1) = count.toNat * 8 := by omega
    rw [hvalue] at hsize hmin
    simp only [attemptRoster, if_neg hl, hfront, hbody, lift_some, pure_bind, hcount, hvalue, hmin,
      size?_of_lt hsize]
    by_cases hn : bs.length = 4 + Payload.rosterCount bs * 8
    · have hb : (bs.drop 4).length = Payload.rosterCount bs * 8 := by omega
      have hcut : (bs.drop 4).length / 8 = Payload.rosterCount bs := by omega
      rw [if_pos hb, hcut, attempt_pieces _ _ hb, Payload.read_roster_of_length hn]
      rfl
    · have hb : ¬ (bs.drop 4).length = Payload.rosterCount bs * 8 := by omega
      rw [if_neg hb, Payload.read_roster_of_mismatch hle hn]
      rfl

end BlockDuel.Wire
