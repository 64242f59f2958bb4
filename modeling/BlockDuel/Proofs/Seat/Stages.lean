import BlockDuel.Proofs.Seat.Record

/-!
The stages of a player who joins. All stages but the last are left for the next one only, at the message that
belongs to the stage. The start of play is different: it counts as soon as a seed and a number are there,
whether or not the player was given a seat.
-/
namespace BlockDuel.Seat
open Wire

namespace JoinStatus

/-- The way from stage to stage, and the messages that lead along it. -/
inductive Leads : JoinStatus → Kind → JoinStatus → Prop
  | greeted : Leads .awaitAccepted .accepted .registering
  | numbered : Leads .registering .assignId .joining
  | seated : Leads .joining .roomJoinAccepted .waitingForOpponent
  | started (seed : UInt64) (id : PlayerId) : Leads .waitingForOpponent .allPlayersReady (.ready seed id)

/-- The messages that belong to a stage. Some belong to each. -/
def expects (t : JoinStatus) : Kind → Bool
  | .serverPing | .roomPlayerList | .roomPlayerJoined | .roomPlayerLeft | .sendBagSeed => true
  | .accepted => t = .awaitAccepted
  | .assignId => t = .registering
  | .roomJoinAccepted => t = .joining
  | .allPlayersReady => t = .waitingForOpponent
  | _ => false

end JoinStatus

variable {j j' : Joining} {s s' : Session} {m : Message} {now : Nat}

namespace Joining

/-- Apart from the start of play, something is made only of the messages that belong to the stage. -/
theorem expects_of_heeds (hh : j.heeds s m = true) (hk : m.kind ≠ .allPlayersReady) :
    j.status.expects m.kind = true := by
  unfold heeds at hh
  unfold JoinStatus.expects
  cases hkind : m.kind <;> simp_all

/-- A message leads to the next stage, or play starts, or joining has failed. -/
theorem Effect.leads (h : Effect j s m now j' s') (hne : j'.status ≠ j.status) :
    (∃ f, j'.status = .failed f) ∨ j.status.Leads m.kind j'.status ∨
      m.kind = .allPlayersReady ∧ ∃ seed id, j'.status = .ready seed id := by
  cases h with
  | ponged | listed | dealt | ignored => exact absurd rfl hne
  | greeted hk hj => exact .inr (.inl (by rw [hk, hj]; exact .greeted))
  | numbered hk hj => exact .inr (.inl (by rw [hk, hj]; exact .numbered))
  | seated hk hj => exact .inr (.inl (by rw [hk, hj]; exact .seated))
  | started hk => exact .inr (.inr ⟨hk, _, _, rfl⟩)
  | cutOff => exact .inl ⟨_, rfl⟩

/-- Play starts if and only if a start is heard and there are a seed and a number. -/
theorem Effect.ready_iff (h : Effect j s m now j' s') (hf : j.isFinished = false)
    (hk : m.kind = .allPlayersReady) (seed : UInt64) (id : PlayerId) :
    j'.status = .ready seed id ↔ j.seed = some seed ∧ s.playerId = some id := by
  cases h with
  | started _ hseed hid => simp [advance, hseed, hid]
  | ignored hn =>
    refine iff_of_false ?_ ?_
    · intro hr
      rw [isFinished, hr] at hf
      cases hf
    · rintro ⟨hseed, hid⟩
      simp [heeds, hk, hseed, hid] at hn
  | ponged hk' | greeted hk' | numbered hk' | seated hk' | dealt hk' | listed _ hk' | cutOff _ hk' =>
    rw [hk] at hk'
    cases hk'

end Joining

namespace Candidate

variable {c c' : Candidate} {e : Event}

theorem Moves.leads (h : Moves c e c') (hne : c'.joining.status ≠ c.joining.status) :
    c.joining.isFinished = false ∧
      ((∃ f, c'.joining.status = .failed f) ∨ ∃ h, c'.heard = c.heard ++ [h] ∧
        h.stage = c.joining.status ∧ (h.stage.Leads h.message.kind c'.joining.status ∨
          h.message.kind = .allPlayersReady ∧ ∃ seed id, c'.joining.status = .ready seed id)) := by
  cases h with
  | rests | arrives | drops => exact absurd rfl hne
  | fails f now hf => exact ⟨hf, .inl ⟨f, rfl⟩⟩
  | hears hf hi ha he => exact ⟨hf, (he.leads hne).imp_right fun h => ⟨_, rfl, rfl, h⟩⟩

/-- Each stage is left for the next one, at the message that leads there, or for failure, unless a start comes
early. A start counts if and only if there are a seed and a number, whatever the stage; any other message that
does not belong to the stage changes nothing. A player who is ready was given a seat exactly if the start was
heard in the last stage before; it may have come one stage early, but no earlier if the session had no number
to begin with. -/
theorem stage_changes (patience : Nat) (avatar : UInt32) (t₀ : Nat) (s : Session) (es : List Event) :
    let c := (start patience avatar t₀ s).run es
    (∀ e, let c' := c.next e
      (c'.joining.status ≠ c.joining.status → c.joining.isFinished = false ∧
        ((∃ f, c'.joining.status = .failed f) ∨ ∃ h, c'.heard = c.heard ++ [h] ∧
          h.stage = c.joining.status ∧ (h.stage.Leads h.message.kind c'.joining.status ∨
            h.message.kind = .allPlayersReady ∧ ∃ seed id, c'.joining.status = .ready seed id))) ∧
      ∀ h, c'.heard = c.heard ++ [h] →
        (h.message.kind = .allPlayersReady → ∀ seed id, c'.joining.status = .ready seed id ↔
          c.joining.seed = some seed ∧ c.session.playerId = some id) ∧
        (h.stage.expects h.message.kind = false → h.message.kind ≠ .allPlayersReady →
          c'.joining = c.joining ∧ c'.session = { c.session with inbox := c'.session.inbox })) ∧
      ∀ seed id, c.joining.status = .ready seed id → ∃ before h, c.heard = before ++ [h] ∧
        h.message.kind = .allPlayersReady ∧
        (h.stage = .waitingForOpponent ↔ ∃ g ∈ before, g.Seats) ∧
        (s.playerId = none → h.stage = .joining ∨ h.stage = .waitingForOpponent) := by
  intro c
  have hbegin := start_sane patience avatar t₀ s
  refine ⟨fun e => ⟨(next_moves (hbegin.run es) e).leads, fun h hh => ?_⟩, fun seed id hr => ?_⟩
  · obtain ⟨hf, hstage, rest, now, he⟩ := (next_moves (hbegin.run es) e).handles hh
    refine ⟨fun hk => he.ready_iff hf hk, fun hx hk => ?_⟩
    have hn : c.joining.heeds { c.session with inbox := rest } h.message = false := by
      rw [Bool.eq_false_iff]
      intro hheeds
      rw [hstage, Joining.expects_of_heeds hheeds hk] at hx
      cases hx
    obtain ⟨hj, hs⟩ := he.unheeded hn
    exact ⟨hj, by rw [hs]⟩
  · obtain ⟨before, after, h, -, hheard, hf, -, hid, hk, hstage⟩ := hbegin.decided rfl hr
    have hrecorded := recorded patience avatar t₀ s before
    refine ⟨_, h, hheard, hk, ?_, fun hs => ?_⟩
    · rw [hstage]
      exact hrecorded.seat hf
    · -- the number was given while joining, so the stage is one of those after it
      have hrank := (hrecorded.number hs hf).2.mp (by rw [hid]; rfl)
      rw [hstage]
      cases hj : ((start patience avatar t₀ s).run before).joining.status with
      | joining => exact .inl rfl
      | waitingForOpponent => exact .inr rfl
      | awaitAccepted | registering => rw [hj] at hrank; simp [JoinStatus.rank] at hrank
      | ready | failed => rw [Joining.isFinished, hj] at hf; cases hf

/-- With a seat, a start is heard in the stage to which it belongs. -/
theorem stage_changes_seated :
    let ms := [.accepted, .assignId 5000, .roomJoinAccepted, .bagSeed 7, .allPlayersReady]
    let es := ms.map (fun m => .arrives (.message 1 m)) ++ round 0 9
    let c := (start 3000 0 0 Session.fresh.connect).run es
    c.joining.status = .ready 7 5000 ∧ ∃ before h, c.heard = before ++ [h] ∧
      h.message.kind = .allPlayersReady ∧
      (h.stage = .waitingForOpponent ↔ ∃ g ∈ before, g.Seats) := by
  intro ms es
  have hready : ((start 3000 0 0 Session.fresh.connect).run es).joining.status = .ready 7 5000 := by
    decide
  obtain ⟨-, hall⟩ := stage_changes 3000 0 0 Session.fresh.connect es
  obtain ⟨before, h, hheard, hk, hseat, -⟩ := hall 7 5000 hready
  exact ⟨hready, before, h, hheard, hk, hseat⟩

/-- A player who has asked for a seat and is told to start, without having been given one, is ready. -/
theorem ready_without_seat :
    let ms := [Message.accepted, .assignId 5000, .bagSeed 7, .allPlayersReady]
    let s := ms.foldl (fun s m => s.hear (.message 1 m)) Session.fresh.connect
    ((Joining.start 3000 0 0).poll s 0).1.status = .ready 7 5000 ∧
      ¬ ∀ (patience : Nat) (avatar : UInt32) (t₀ : Nat) (s : Session) (es : List Event),
        s.playerId = none → ∀ seed id,
        ((start patience avatar t₀ s).run es).joining.status = .ready seed id →
        ∃ h ∈ ((start patience avatar t₀ s).run es).heard, h.message.kind = .roomJoinAccepted := by
  intro ms s
  refine ⟨by decide, fun hall => ?_⟩
  have hseat := hall 3000 0 0 s (round 0 9) rfl 7 5000 (by decide)
  revert hseat
  decide

end Candidate
end BlockDuel.Seat
