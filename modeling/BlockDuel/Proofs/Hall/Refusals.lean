import BlockDuel.Proofs.Hall.Relay
import BlockDuel.Proofs.Hall.Unregister

/-!
What a hall refuses: messages without a link behind them, registrations that cannot be read or come
again, requests of somebody who is not registered, reports and deaths outside a match, and kinds that
are not for players to send. All this leaves the hall as it is, and nobody is told anything. What is
not refused leaves a trace, a sign of life apart.
-/
namespace BlockDuel.Wire.Kind

/-- The kinds that only a host sends. -/
def hostOnly : Kind → Bool
  | accepted | assignId | serverPing | serverPong | roomJoinAccepted
  | roomPlayerList | roomPlayerJoined | roomPlayerLeft | allPlayersReady
  | sendBagSeed | gameOver => true
  | _ => false

/-- The kinds that have a number and that nobody sends. -/
def reserved : Kind → Bool
  | roomJoinDenied | ready | cancelReady | addPlayer | removePlayer | gameStart => true
  | _ => false

end BlockDuel.Wire.Kind

namespace BlockDuel.Hall
open Wire

/-- What is not granted in a state, and for which reason. -/
inductive State.Refuses (s : State) : Notice → Prop
  | unlinked {id : PlayerId} {m : Message} (absent : id ∉ s.roll.links) : s.Refuses (.message id m)
  | misshapen {id : PlayerId} {m : Message} (kind : m.kind = .registerWithServer)
      (size : m.payload.length ≠ 8) : s.Refuses (.message id m)
  | repeated {id : PlayerId} {m : Message} (kind : m.kind = .registerWithServer)
      (registered : id ∈ s.roll.registrations.ids) : s.Refuses (.message id m)
  | unregistered {id : PlayerId} {m : Message}
      (kind : m.kind = .unregisterWithServer ∨ m.kind = .requestRoomJoin ∨ m.kind = .clientPong)
      (stranger : id ∉ s.roll.registrations.ids) : s.Refuses (.message id m)
  | noMatch {id : PlayerId} {m : Message} (kind : m.kind = .playerDead ∨ m.kind.relayed = true)
      (outside : s.room.phase = .ready → id ∉ s.room.members) : s.Refuses (.message id m)
  | foreign {id : PlayerId} {m : Message}
      (kind : m.kind.hostOnly = true ∨ m.kind.reserved = true) : s.Refuses (.message id m)
  | lost {id : PlayerId} (absent : id ∉ s.roll.links) : s.Refuses (.lost id)

namespace State

variable {s : State} {seed : UInt64} {now : Time} {n : Notice} {id : PlayerId} {m : Message}

theorem meet_refused_message (hl : id ∈ s.roll.links) (hr : s.Refuses (.message id m)) :
    s.meet seed (.notice now (.message id m)) = (s, []) := by
  cases hr with
  | unlinked absent => exact absurd hl absent
  | misshapen kind size =>
    rw [meet_message hl, kind]
    exact onRegister_unread (Message.read?_eq_none_iff.mpr size)
  | repeated kind registered =>
    rw [meet_message hl, kind]
    exact onRegister_registered registered
  | unregistered kind stranger =>
    rw [meet_message hl]
    rcases kind with hk | hk | hk <;> rw [hk]
    · exact onUnregister_stranger stranger
    · exact onRoomJoin_stranger stranger
    · simp only [Roll.adjust_absent stranger]
  | noMatch kind outside =>
    rcases kind with hk | hk
    · rw [meet_message hl, hk]
      exact onPlayerDead_of_not_playing outside
    · rw [meet_report hl hk, relay_of_not_playing outside]
  | foreign kind =>
    rw [meet_message hl]
    generalize m.kind = k at kind ⊢
    cases k with
    | registerWithServer | unregisterWithServer | clientPing | clientPong | requestRoomJoin
    | playerDead | curMinoState | holdMinoState | previewMinoState | boardState | updatePlayer =>
      exact absurd kind (by decide)
    | _ => rfl

/-- What is refused changes nothing, and nobody hears of it. -/
theorem meet_refused (h : s.Coherent) (hr : s.Refuses n) :
    s.meet seed (.notice now n) = (s, []) := by
  cases n with
  | connected id => cases hr
  | message id m =>
    by_cases hl : id ∈ s.roll.links
    · exact meet_refused_message hl hr
    · exact meet_unlinked hl
  | lost id =>
    cases hr with
    | lost absent =>
      have hm := meet_moves h seed (.notice now (.lost id))
      generalize s.meet seed (.notice now (.lost id)) = out at hm
      obtain ⟨s', ds⟩ := out
      cases hm with
      | loses link leaves => exact absurd link absent
      | losesNothing absent => rfl

/-- The first that comes of a registered player's request is that it is acknowledged. -/
theorem afterJoin_ne_nil (answer : JoinOutcome × Room) : (s.afterJoin id answer).2 ≠ [] := by
  obtain ⟨outcome, room⟩ := answer
  cases outcome <;> exact List.cons_ne_nil _ _

/-- A message that is not refused has an answer or is passed on. -/
theorem meet_granted_message (h : s.Coherent) (hn : ¬ s.Refuses (.message id m))
    (hp : m.kind ≠ .clientPong) : (s.meet seed (.notice now (.message id m))).2 ≠ [] := by
  have hl : id ∈ s.roll.links := by
    by_contra hl
    exact hn (.unlinked hl)
  have hplaying (kind : m.kind = .playerDead ∨ m.kind.relayed = true) : ∃ y, s.room.Pits id y := by
    by_contra hout
    exact hn (.noMatch kind fun hr hm => hout (h.room.pits hr hm))
  have hregistered (kind : m.kind = .unregisterWithServer ∨ m.kind = .requestRoomJoin ∨
      m.kind = .clientPong) : id ∈ s.roll.registrations.ids := by
    by_contra hr
    exact hn (.unregistered kind hr)
  cases hk : m.kind with
  | registerWithServer =>
    have hnew : id ∉ s.roll.registrations.ids := fun hr => hn (.repeated hk hr)
    have hsize : m.read? Player ≠ none := fun hr =>
      hn (.misshapen hk (Message.read?_eq_none_iff.mp hr))
    obtain ⟨p, hread⟩ := Option.ne_none_iff_exists'.mp hsize
    rw [meet_message hl, hk]
    simp only [onRegister_new hl hnew hread]
    exact List.cons_ne_nil _ _
  | unregisterWithServer =>
    exact List.ne_nil_of_mem (meet_unregisters h seed now (hregistered (.inl hk)) hk).1
  | clientPing =>
    rw [meet_message hl, hk]
    exact List.cons_ne_nil _ _
  | clientPong => exact absurd hk hp
  | requestRoomJoin =>
    rw [meet_message hl, hk]
    simp only [onRoomJoin_registered h (hregistered (.inr (.inl hk)))]
    exact afterJoin_ne_nil _
  | playerDead =>
    obtain ⟨y, pits⟩ := hplaying (.inl hk)
    rw [meet_message hl, hk]
    simp only [onPlayerDead_of_pits h pits]
    exact List.cons_ne_nil _ _
  | curMinoState | holdMinoState | previewMinoState | boardState | updatePlayer =>
    have hrelayed : m.kind.relayed = true := by rw [hk]; rfl
    obtain ⟨y, pits⟩ := hplaying (.inr hrelayed)
    rw [meet_report hl hrelayed, relay_of_pits h pits hrelayed]
    exact List.cons_ne_nil _ _
  | _ =>
    refine absurd (.foreign ?_) hn
    rw [hk]
    decide

/-- A sign of life apart, what is not refused is answered or changes the books. -/
theorem meet_granted (h : s.Coherent) (hn : ¬ s.Refuses n)
    (hp : ∀ id m, n = .message id m → m.kind ≠ .clientPong) :
    s.meet seed (.notice now n) ≠ (s, []) := by
  intro hm
  cases n with
  | connected id => cases congrArg Prod.snd hm
  | message id m => exact meet_granted_message h hn (hp id m rfl) (congrArg Prod.snd hm)
  | lost id =>
    have hl : id ∈ s.roll.links := by
      by_contra hl
      exact hn (.lost hl)
    have hgone := (meet_moves h seed (.notice now (.lost id))).mem_links id
    rw [hm] at hgone
    rcases hgone.mp hl with ⟨now', ho⟩ | ⟨-, hkept⟩
    · cases ho
    · exact hkept now rfl

end State

theorem Composes.hostOnly {s s' : State} {seed : UInt64} {o : Occasion} {y : PlayerId} {m : Message}
    (hc : Composes s s' seed o y m) : m.kind.hostOnly = true := by
  cases hc <;> rfl

namespace Course

variable {seeds : Nat → UInt64} {interval patience : Nat} {start : Time}

/-- Besides reports, a hall sends only kinds that are a host's; so nobody sends the reserved ones. -/
theorem sent_kinds (os : List Occasion) {d : Deed} {y : PlayerId} {m : Message}
    (hd : d ∈ ((opened interval patience start).run seeds os).deeds) (hs : d.sent? = some (y, m)) :
    m.kind.relayed = true ∨ m.kind.hostOnly = true := by
  obtain ⟨before, o, after, -, hsource⟩ := run_source os hd hs
  cases hsource with
  | copy relayed pits => exact .inl relayed
  | composed own composes => exact .inr composes.hostOnly

/-- What is refused after any course leaves hall and record as they are. A request to join from a member,
or from any registered player during a match, leaves the hall as it is, and its sender alone is told
that it arrived. A sign of life apart, nothing else goes without a trace. -/
theorem refused_without_trace (seeds : Nat → UInt64) (interval patience : Nat) (start : Time)
    (os : List Occasion) :
    let c := (opened interval patience start).run seeds os
    (∀ now n, c.hall.Refuses n → c.next seeds (.notice now n) = c) ∧
      (∀ now id m, id ∈ c.hall.roll.registrations.ids → m.kind = .requestRoomJoin →
        id ∈ c.hall.room.members ∨ c.hall.room.phase = .ready →
        c.next seeds (.notice now (.message id m)) =
          { c with deeds := c.deeds ++ [.post id .roomJoinAccepted] }) ∧
      ∀ now n, ¬ c.hall.Refuses n → (∀ id m, n = .message id m → m.kind ≠ .clientPong) →
        c.next seeds (.notice now n) ≠ c := by
  intro c
  have hc : c.hall.Coherent := coherent_run os
  refine ⟨?_, ?_, ?_⟩
  · intro now n hr
    rw [next_eq, State.meet_refused hc hr]
    exact congrArg (Course.mk c.hall c.made) (List.append_nil c.deeds)
  · intro now id m hr hk hm
    have hl := hc.orderly.linked id hr
    rw [next_eq, State.meet_message hl, hk]
    simp only [State.onRoomJoin_acknowledged hc hr hm]
    rfl
  · intro now n hn hp hsame
    rw [next_eq] at hsame
    have hmeet : c.hall.meet (seeds c.made) (.notice now n) = (c.hall, []) := by
      apply Prod.ext
      · exact congrArg Course.hall hsame
      · have hdeeds := congrArg Course.deeds hsame
        exact List.append_cancel_left (hdeeds.trans (List.append_nil c.deeds).symm)
    exact State.meet_granted hc hn hp hmeet

/-- During a match of `1` and `2` a stranger reports a death in vain, and a member's request to join is
acknowledged; but a ping is answered. -/
theorem death_of_stranger_refused :
    let c := (opened 5 5 0).run (fun _ => 7)
      [.notice 0 (.connected 1), .notice 0 (.connected 2), .notice 0 (.connected 3),
        .notice 1 (.message 1 (.register ⟨0, 3⟩)), .notice 1 (.message 2 (.register ⟨0, 4⟩)),
        .notice 2 (.message 1 .requestRoomJoin), .notice 2 (.message 2 .requestRoomJoin)]
    c.hall.room.phase = .ready ∧
      c.next (fun _ => 7) (.notice 3 (.message 3 (.playerDead 1))) = c ∧
      c.next (fun _ => 7) (.notice 3 (.message 1 .requestRoomJoin)) =
        { c with deeds := c.deeds ++ [.post 1 .roomJoinAccepted] } ∧
      c.next (fun _ => 7) (.notice 3 (.message 3 .clientPing)) ≠ c := by
  intro c
  have hlinks : 3 ∈ c.hall.roll.links := by decide
  obtain ⟨hrefused, hacknowledged, hgranted⟩ := refused_without_trace (fun _ => 7) 5 5 0
    [.notice 0 (.connected 1), .notice 0 (.connected 2), .notice 0 (.connected 3),
      .notice 1 (.message 1 (.register ⟨0, 3⟩)), .notice 1 (.message 2 (.register ⟨0, 4⟩)),
      .notice 2 (.message 1 .requestRoomJoin), .notice 2 (.message 2 .requestRoomJoin)]
  refine ⟨by decide, hrefused 3 _ (.noMatch (.inl rfl) (by decide)),
    hacknowledged 3 1 .requestRoomJoin (by decide) rfl (.inl (by decide)), hgranted 3 _ ?_ ?_⟩
  · intro hr
    cases hr with
    | unlinked absent => exact absent hlinks
    | misshapen kind | repeated kind => cases kind
    | unregistered kind => rcases kind with hk | hk | hk <;> cases hk
    | noMatch kind => rcases kind with hk | hk <;> cases hk
    | foreign kind => rcases kind with hk | hk <;> cases hk
  · intro id m hn
    cases hn
    exact Kind.noConfusion

end Course
end BlockDuel.Hall
