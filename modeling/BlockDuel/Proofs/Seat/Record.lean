import BlockDuel.Proofs.Seat.Handshake

/-!
What the messages on record tell of a player who joins. The seed in mind is the last one that was told, and a
player who waits for an opponent was given a seat. Without a number to begin with, the number is the one that
was given while the player registered, and there is no other. A player who is ready became so at one message,
and that is the last one on record.
-/
namespace BlockDuel.Seat
open Wire

namespace Heard

/-- The seed that a message tells. -/
def seed? (h : Heard) : Option UInt64 :=
  if h.message.kind = .sendBagSeed then h.message.read? UInt64 else none

/-- The number that a message gives. Only a player who registers takes it. -/
def number? (h : Heard) : Option PlayerId :=
  if h.message.kind = .assignId ∧ h.stage = .registering then h.message.read? UInt32 else none

/-- The message gives a seat. Only a player who has asked for one takes it. -/
def Seats (h : Heard) : Prop := h.message.kind = .roomJoinAccepted ∧ h.stage = .joining

variable {h : Heard}

end Heard

variable {j j' : Joining} {s s' : Session} {m : Message} {now : Nat}

namespace Joining

theorem Effect.seed (h : Effect j s m now j' s') (linked : Bool) :
    j'.seed = (Heard.seed? ⟨m, j.status, linked⟩).or j.seed := by
  have hother (hk : m.kind ≠ .sendBagSeed) : Heard.seed? ⟨m, j.status, linked⟩ = none := if_neg hk
  cases h with
  | dealt hk hr => simp [Heard.seed?, hk, hr]
  | ponged hk | greeted hk | numbered hk | seated hk | started hk =>
    rw [hother (by rw [hk]; decide)]
    rfl
  | listed roster hk =>
    rw [hother fun hk' => by simp [hk', tellsRoster] at hk]
    rfl
  | cutOff number hk =>
    rw [hother fun hk' => by simp [hk', wantsAnswer] at hk]
    rfl
  | ignored hn =>
    have hnone : Heard.seed? ⟨m, j.status, linked⟩ = none := by
      unfold Heard.seed?
      split
      · next hk =>
        dsimp only at hk
        simpa [heeds, hk] using hn
      · rfl
    rw [hnone]
    rfl

/-- A player who stays in the running takes a number only while it registers, and then it has one. -/
theorem Effect.number (h : Effect j s m now j' s') (hf : j'.isFinished = false) (linked : Bool) :
    (∃ id, Heard.number? ⟨m, j.status, linked⟩ = some id ∧ s'.playerId = some id ∧
        j.status = .registering ∧ j'.status = .joining) ∨
      Heard.number? ⟨m, j.status, linked⟩ = none ∧ s'.playerId = s.playerId ∧
        (2 ≤ j'.status.rank ↔ 2 ≤ j.status.rank) := by
  have hother (hk : m.kind ≠ .assignId) : Heard.number? ⟨m, j.status, linked⟩ = none :=
    if_neg fun h => hk h.1
  cases h with
  | numbered hk hj hr => exact .inl ⟨_, by simp [Heard.number?, hk, hj, hr], rfl, hj, rfl⟩
  | ponged hk | dealt hk => exact .inr ⟨hother (by rw [hk]; decide), rfl, Iff.rfl⟩
  | listed roster hk =>
    exact .inr ⟨hother fun hk' => by simp [hk', tellsRoster] at hk, rfl, Iff.rfl⟩
  | greeted hk hj | seated hk hj =>
    exact .inr ⟨hother (by rw [hk]; decide), rfl, by simp [hj, advance, JoinStatus.rank]⟩
  | started | cutOff => cases hf
  | ignored hn =>
    refine .inr ⟨?_, rfl, Iff.rfl⟩
    unfold Heard.number?
    split
    · next hk =>
      obtain ⟨hk, hj⟩ := hk
      dsimp only at hk hj
      simpa [heeds, hk, hj] using hn
    · rfl

/-- A player who stays in the running waits for an opponent from the moment it has a seat. -/
theorem Effect.seat (h : Effect j s m now j' s') (hf : j'.isFinished = false) (linked : Bool) :
    j'.status = .waitingForOpponent ↔
      Heard.Seats ⟨m, j.status, linked⟩ ∨ j.status = .waitingForOpponent := by
  have hother (hk : m.kind ≠ .roomJoinAccepted) : ¬ Heard.Seats ⟨m, j.status, linked⟩ :=
    fun h => hk h.1
  cases h with
  | seated hk hj => exact iff_of_true rfl (.inl ⟨hk, hj⟩)
  | ponged hk | dealt hk => exact (or_iff_right (hother (by rw [hk]; decide))).symm
  | listed roster hk =>
    exact (or_iff_right (hother fun hk' => by simp [hk', tellsRoster] at hk)).symm
  | greeted hk hj | numbered hk hj =>
    refine iff_of_false (fun h => nomatch h) (not_or_intro (hother (by rw [hk]; decide)) ?_)
    rw [hj]
    exact JoinStatus.noConfusion
  | started | cutOff => cases hf
  | ignored hn =>
    refine (or_iff_right ?_).symm
    rintro ⟨hk, hj⟩
    dsimp only at hk hj
    simp [heeds, hk, hj] at hn

end Joining

namespace Candidate

variable {c c' : Candidate} {e : Event}

/-- What a player knows is what the record tells. -/
structure Recorded (s : Session) (c : Candidate) : Prop where
  seed : c.joining.seed = (c.heard.filterMap Heard.seed?).getLast?
  seat : c.joining.isFinished = false →
    (c.joining.status = .waitingForOpponent ↔ ∃ h ∈ c.heard, h.Seats)
  number : s.playerId = none → c.joining.isFinished = false →
    c.heard.filterMap Heard.number? = c.session.playerId.toList ∧
      (c.session.playerId.isSome = true ↔ 2 ≤ c.joining.status.rank)

theorem start_recorded (patience : Nat) (avatar : UInt32) (now : Nat) (s : Session) :
    (start patience avatar now s).Recorded s := by
  refine ⟨rfl, fun _ => iff_of_false (fun h => nomatch h) (fun ⟨h, hh, _⟩ => nomatch hh), ?_⟩
  intro hs _
  change [] = s.playerId.toList ∧ (s.playerId.isSome = true ↔ 2 ≤ 0)
  rw [hs]
  exact ⟨rfl, by decide⟩

theorem Recorded.moves (hc : c.Recorded s) (h : Moves c e c') : c'.Recorded s := by
  cases h with
  | rests | arrives => exact ⟨hc.seed, hc.seat, hc.number⟩
  | fails => exact ⟨hc.seed, (fun hf => nomatch hf), (fun _ hf => nomatch hf)⟩
  | drops =>
    refine ⟨hc.seed, hc.seat, ?_⟩
    dsimp only
    rw [c.session.lineEnds_spec.2.1]
    exact hc.number
  | @hears a m rest now j s' hf hi ha he =>
    refine ⟨?_, fun hf' => ?_, fun hs hf' => ?_⟩
    · dsimp only
      rw [he.seed c.session.isConnected, hc.seed, List.filterMap_append, List.getLast?_append]
      cases hh : Heard.seed? ⟨m, c.joining.status, c.session.isConnected⟩ <;> simp [hh]
    · dsimp only
      rw [he.seat hf' c.session.isConnected, hc.seat hf]
      simp [or_comm]
    · obtain ⟨hnumbers, hrank⟩ := hc.number hs hf
      dsimp only
      rw [List.filterMap_append, hnumbers]
      obtain ⟨id, hh, hid, hj, hj'⟩ | ⟨hh, hid, hrank'⟩ := he.number hf' c.session.isConnected
      · -- a player who registers has no number yet, so none was taken before
        have hnone : c.session.playerId = none := by
          rw [hj] at hrank
          simpa [JoinStatus.rank] using hrank
        rw [hid, hj', hnone]
        simp [hh, JoinStatus.rank]
      · rw [hid, hrank', ← hrank]
        simp [hh]

theorem recorded (patience : Nat) (avatar : UInt32) (t₀ : Nat) (s : Session) (es : List Event) :
    ((start patience avatar t₀ s).run es).Recorded s :=
  (run_induction (start_sane patience avatar t₀ s) (start_recorded patience avatar t₀ s)
    Recorded.moves es).2

/-- A player becomes ready at a start, with the seed in mind and with a number. -/
theorem Moves.starts (h : Moves c e c') (hf : c.joining.isFinished = false) {seed : UInt64}
    {id : PlayerId} (hr : c'.joining.status = .ready seed id) :
    e = .looks ∧ c.joining.seed = some seed ∧ c.session.playerId = some id ∧
      ∃ h, c'.heard = c.heard ++ [h] ∧ h.message.kind = .allPlayersReady ∧
        h.stage = c.joining.status := by
  have hnot : c.joining.status ≠ .ready seed id := by
    intro hs
    unfold Joining.isFinished at hf
    rw [hs] at hf
    cases hf
  cases h with
  | rests | arrives | drops => exact absurd hr hnot
  | fails => cases hr
  | hears _ hi ha he =>
    dsimp only at hr
    cases he with
    | started hk hseed hid =>
      cases hr
      exact ⟨rfl, hseed, hid, _, rfl, hk, rfl⟩
    | ponged | listed | dealt | ignored => exact absurd hr hnot
    | greeted | numbered | seated | cutOff => cases hr

theorem Sane.decided (hc : c.Sane) (hf : c.joining.isFinished = false) {es : List Event}
    {seed : UInt64} {id : PlayerId} (hr : (c.run es).joining.status = .ready seed id) :
    ∃ before after h, es = before ++ .looks :: after ∧ (c.run es).heard = (c.run before).heard ++ [h] ∧
      (c.run before).joining.isFinished = false ∧ (c.run before).joining.seed = some seed ∧
      (c.run before).session.playerId = some id ∧ h.message.kind = .allPlayersReady ∧
      h.stage = (c.run before).joining.status := by
  induction es generalizing c with
  | nil =>
    change c.joining.status = .ready seed id at hr
    rw [Joining.isFinished, hr] at hf
    cases hf
  | cons e es ih =>
    have hmoves := next_moves hc e
    have hc' := hmoves.sane hc
    change ((c.next e).run es).joining.status = .ready seed id at hr
    cases hf' : (c.next e).joining.isFinished with
    | false =>
      obtain ⟨before, after, h, rfl, hall⟩ := ih hc' hf' hr
      exact ⟨e :: before, after, h, rfl, hall⟩
    | true =>
      -- this event decided, and nothing has changed since
      obtain ⟨hj, hh, -, -⟩ := hc'.run_settled hf' es
      rw [hj] at hr
      obtain ⟨rfl, hseed, hid, h, hheard, hk, hstage⟩ := hmoves.starts hf hr
      exact ⟨[], es, h, rfl, hh.trans hheard, hf, hseed, hid, hk, hstage⟩

end Candidate
end BlockDuel.Seat
