import BlockDuel.Proofs.Seat.Candidate
import BlockDuel.Proofs.Wire.Layout

/-!
The manners of a player who joins. The stages come in their order and none comes back. What is said is told by
what was heard: a ping is answered as often as it is heard while the line is up, and apart from that a player
tells its name once it was let in and asks for a seat once it was given a number, each at most once.
-/
namespace BlockDuel.Seat
open Wire

/-- How far joining has come. -/
def JoinStatus.rank : JoinStatus → Nat
  | awaitAccepted => 0
  | registering => 1
  | joining => 2
  | waitingForOpponent => 3
  | ready _ _ | failed _ => 4

theorem JoinStatus.rank_le_four (t : JoinStatus) : t.rank ≤ 4 := by
  cases t <;> simp [rank]

/-- What a player says to a message that it hears. -/
def Heard.answer (avatar : UInt32) (h : Heard) : List Message :=
  if h.linked then
    match h.message.kind with
    | .serverPing => [.clientPong]
    | .accepted => if h.stage = .awaitAccepted then [.register ⟨0, avatar⟩] else []
    | .assignId =>
      if h.stage = .registering && (h.message.read? UInt32).isSome then [.requestRoomJoin] else []
    | _ => []
  else []

/-- The message is a ping that can be answered. -/
def Heard.pings (h : Heard) : Bool := h.message.kind = .serverPing ∧ h.linked = true

/-- What is said apart from signs of life. -/
def wishes (ms : List Message) : List Message := ms.filter (· ≠ .clientPong)

/-- All that a player may wish for, in this order. -/
def ladder (avatar : UInt32) : List Message := [.register ⟨0, avatar⟩, .requestRoomJoin]

/-- What a player says to all that it hears. -/
def said (avatar : UInt32) (hs : List Heard) : List Message := hs.flatMap (Heard.answer avatar)

/-- A message takes a player up the ladder, by one rung or not at all. -/
inductive Climbs (avatar : UInt32) (h : Heard) (t : JoinStatus) : Prop
  | registers (hj : h.stage = .awaitAccepted) (ht : t = .registering)
    (hk : h.message.kind = .accepted) (ha : h.answer avatar = [.register ⟨0, avatar⟩])
  | asks (hj : h.stage = .registering) (ht : t = .joining) (hk : h.message.kind = .assignId)
    (hl : h.message.payload.length = 4) (ha : h.answer avatar = [.requestRoomJoin])
  | stays (ha : wishes (h.answer avatar) = [])
    (ht : t.isFinished = false → (ladder avatar).take t.rank = (ladder avatar).take h.stage.rank)

/-- How far up the ladder a player in the stage `t` is, after all that it has heard. -/
structure Climbed (avatar : UInt32) (hs : List Heard) (t : JoinStatus) : Prop where
  wished : wishes (said avatar hs) <+: ladder avatar
  /-- A player who registers is on the first rung, a player who got a number is on the second one. -/
  reached : t.isFinished = false → wishes (said avatar hs) = (ladder avatar).take t.rank
  greeted : wishes (said avatar hs) ≠ [] → ∃ h ∈ hs, h.message.kind = .accepted
  numbered : .requestRoomJoin ∈ wishes (said avatar hs) → ∃ h h', [h, h'].Sublist hs ∧
    h.message.kind = .accepted ∧ h'.message.kind = .assignId ∧ h'.message.payload.length = 4

variable {j j' : Joining} {s s' : Session} {m : Message} {now : Nat} {h : Heard} {hs : List Heard}

theorem wishes_said_concat (avatar : UInt32) (hs : List Heard) (h : Heard) :
    wishes (said avatar (hs ++ [h])) = wishes (said avatar hs) ++ wishes (h.answer avatar) := by
  simp [said, wishes]

section
variable {avatar : UInt32} {t : JoinStatus}

theorem Climbed.registers (hc : Climbed avatar hs h.stage) (hj : h.stage = .awaitAccepted)
    (hk : h.message.kind = .accepted) (ha : h.answer avatar = [.register ⟨0, avatar⟩]) :
    Climbed avatar (hs ++ [h]) .registering := by
  have hnow : wishes (said avatar (hs ++ [h])) = [.register ⟨0, avatar⟩] := by
    rw [wishes_said_concat, hc.reached (by rw [hj]; rfl), hj, ha]
    rfl
  refine ⟨hnow ▸ ⟨[.requestRoomJoin], rfl⟩, fun _ => hnow, fun _ => ⟨h, by simp, hk⟩, ?_⟩
  intro hmem
  rw [hnow] at hmem
  cases List.mem_singleton.mp hmem

theorem Climbed.asks (hc : Climbed avatar hs h.stage) (hj : h.stage = .registering)
    (hk : h.message.kind = .assignId) (hl : h.message.payload.length = 4)
    (ha : h.answer avatar = [.requestRoomJoin]) : Climbed avatar (hs ++ [h]) .joining := by
  have hbefore : wishes (said avatar hs) = [.register ⟨0, avatar⟩] := by
    rw [hc.reached (by rw [hj]; rfl), hj]
    rfl
  have hnow : wishes (said avatar (hs ++ [h])) = ladder avatar := by
    rw [wishes_said_concat, hbefore, ha]
    rfl
  obtain ⟨g, hg, hgk⟩ := hc.greeted (by rw [hbefore]; exact List.cons_ne_nil _ _)
  refine ⟨hnow ▸ List.prefix_rfl, fun _ => hnow, fun _ => ⟨g, List.mem_append_left _ hg, hgk⟩, ?_⟩
  exact fun _ => ⟨g, h, (List.singleton_sublist.mpr hg).append (.refl [h]), hgk, hk, hl⟩

theorem Climbed.hears (hc : Climbed avatar hs h.stage) (hf : h.stage.isFinished = false)
    (hh : Climbs avatar h t) : Climbed avatar (hs ++ [h]) t := by
  cases hh with
  | registers hj ht hk ha => exact ht ▸ hc.registers hj hk ha
  | asks hj ht hk hl ha => exact ht ▸ hc.asks hj hk hl ha
  | stays ha ht =>
    have hnow : wishes (said avatar (hs ++ [h])) = wishes (said avatar hs) := by
      rw [wishes_said_concat, ha, List.append_nil]
    refine ⟨hnow ▸ hc.wished, fun hf' => ?_, fun hne => ?_, fun hmem => ?_⟩
    · rw [hnow, hc.reached hf, ht hf']
    · obtain ⟨g, hg, hgk⟩ := hc.greeted (hnow ▸ hne)
      exact ⟨g, List.mem_append_left _ hg, hgk⟩
    · obtain ⟨g, g', hsub, hgs⟩ := hc.numbered (hnow ▸ hmem)
      exact ⟨g, g', hsub.trans (List.sublist_append_left _ _), hgs⟩

/-- As many signs of life are given as pings were heard while the line was up. -/
theorem count_said (avatar : UInt32) (hs : List Heard) :
    (said avatar hs).count .clientPong = hs.countP Heard.pings := by
  unfold said
  induction hs with
  | nil => rfl
  | cons h hs ih =>
    have hone : (h.answer avatar).count .clientPong = if h.pings then 1 else 0 := by
      have hregister : Message.register ⟨0, avatar⟩ ≠ .clientPong :=
        fun heq => nomatch congrArg Message.kind heq
      have hrequest : Message.requestRoomJoin ≠ .clientPong := by decide
      unfold Heard.answer Heard.pings
      cases h.linked with
      | false => simp
      | true =>
        cases h.message.kind with
        | accepted => by_cases hg : h.stage = .awaitAccepted <;> simp [hg, hregister]
        | assignId =>
          cases h.stage = .registering && (h.message.read? UInt32).isSome <;> simp [hrequest]
        | _ => simp
    rw [List.flatMap_cons, List.count_append, ih, hone, List.countP_cons, Nat.add_comm]

end

namespace Joining

theorem Effect.avatar (h : Effect j s m now j' s') : j'.avatar = j.avatar := by
  cases h <;> rfl

/-- No stage comes back. -/
theorem Effect.rank_le (h : Effect j s m now j' s') : j.status.rank ≤ j'.status.rank := by
  cases h with
  | greeted hk hj => rw [hj]; exact Nat.zero_le _
  | numbered hk hj => rw [hj]; exact Nat.le_succ _
  | seated hk hj => rw [hj]; exact Nat.le_succ _
  | started | cutOff => exact j.status.rank_le_four
  | ponged | listed | dealt | ignored => exact Nat.le_refl _

/-- What is said to a message is its answer. -/
theorem Effect.outgoing (h : Effect j s m now j' s') :
    s'.outgoing = s.outgoing ++ Heard.answer j.avatar ⟨m, j.status, s.isConnected⟩ := by
  have hnone {s'' : Session} (ho : s''.outgoing = s.outgoing)
      (ha : Heard.answer j.avatar ⟨m, j.status, s.isConnected⟩ = []) :
      s''.outgoing = s.outgoing ++ Heard.answer j.avatar ⟨m, j.status, s.isConnected⟩ := by
    rw [ho, ha, List.append_nil]
  cases h with
  | ponged hk hc => simp [Heard.answer, hk, hc]
  | greeted hk hj hc => simp [Heard.answer, hk, hj, hc, introduction]
  | numbered hk hj hr hc => simp [Heard.answer, hk, hj, hr, hc]
  | seated hk | dealt hk | started hk => exact hnone rfl (by simp [Heard.answer, hk])
  | listed roster hk =>
    refine hnone rfl ?_
    unfold tellsRoster at hk
    cases hkind : m.kind <;> simp_all [Heard.answer]
  | cutOff number hk hh hc => exact hnone rfl (by simp [Heard.answer, hc])
  | ignored hn =>
    refine hnone rfl ?_
    unfold heeds at hn
    cases hkind : m.kind <;> simp_all [Heard.answer]

theorem Effect.climbs (h : Effect j s m now j' s') :
    Climbs j.avatar ⟨m, j.status, s.isConnected⟩ j'.status := by
  have hsilent {s'' : Session} (ho : s''.outgoing = s.outgoing)
      (ha : s''.outgoing = s.outgoing ++ Heard.answer j.avatar ⟨m, j.status, s.isConnected⟩) :
      wishes (Heard.answer j.avatar ⟨m, j.status, s.isConnected⟩) = [] := by
    rw [ho, List.self_eq_append_right] at ha
    rw [ha]
    rfl
  have hout := h.outgoing
  cases h with
  | greeted hk hj hc => exact .registers hj rfl hk (by simp [Heard.answer, hk, hj, hc])
  | numbered hk hj hr hc =>
    have hlength : m.payload.length = 4 := by
      by_contra hne
      cases hr.symm.trans (Message.read?_eq_none_iff.mpr hne)
    exact .asks hj rfl hk hlength (by simp [Heard.answer, hk, hj, hr, hc])
  | ponged hk hc => exact .stays (by simp [Heard.answer, hk, hc, wishes]) fun _ => rfl
  | seated hk hj => exact .stays (hsilent rfl hout) fun _ => by rw [hj]; rfl
  | started | cutOff => exact .stays (hsilent rfl hout) fun hf => nomatch hf
  | listed | dealt | ignored => exact .stays (hsilent rfl hout) fun _ => rfl

end Joining

namespace Candidate

variable {c c' : Candidate} {e : Event}

theorem Moves.rank_le (h : Moves c e c') : c.joining.status.rank ≤ c'.joining.status.rank := by
  cases h with
  | hears hf hi ha he => exact he.rank_le
  | fails => exact c.joining.status.rank_le_four
  | rests | arrives | drops => exact Nat.le_refl _

theorem Sane.rank_le_run (hc : c.Sane) (es : List Event) :
    c.joining.status.rank ≤ (c.run es).joining.status.rank :=
  (run_induction (P := fun c' => c.joining.status.rank ≤ c'.joining.status.rank) hc
    (Nat.le_refl _) (fun hle hmoves => Nat.le_trans hle hmoves.rank_le) es).2

/-- The manners of a player who began with the session `s`. -/
structure Mannered (s : Session) (avatar : UInt32) (c : Candidate) : Prop where
  unchanged : c.joining.avatar = avatar
  outgoing : c.session.outgoing = s.outgoing ++ said avatar c.heard
  climbed : Climbed avatar c.heard c.joining.status

theorem start_mannered (patience : Nat) (avatar : UInt32) (now : Nat) (s : Session) :
    (start patience avatar now s).Mannered s avatar :=
  ⟨rfl, (List.append_nil _).symm, List.nil_prefix, fun _ => rfl, fun h => absurd rfl h,
    fun h => absurd h List.not_mem_nil⟩

theorem Mannered.moves {avatar : UInt32} (hc : c.Mannered s avatar) (h : Moves c e c') :
    c'.Mannered s avatar := by
  cases h with
  | rests | arrives => exact ⟨hc.unchanged, hc.outgoing, hc.climbed⟩
  | drops => exact ⟨hc.unchanged, c.session.lineEnds_spec.2.2.1.trans hc.outgoing, hc.climbed⟩
  | fails =>
    have hclimbed := hc.climbed
    exact ⟨hc.unchanged, hc.outgoing, hclimbed.wished, (fun hf => nomatch hf), hclimbed.greeted,
      hclimbed.numbered⟩
  | hears hf hi ha he =>
    obtain ⟨rfl, hout, hclimbed⟩ := hc
    refine ⟨he.avatar, ?_, hclimbed.hears hf he.climbs⟩
    -- the effect speaks of the session without the notice, which says nothing of the line
    have hsession := he.outgoing
    dsimp only at hsession ⊢
    rw [hsession, hout, List.append_assoc]
    simp [said, Session.isConnected]

/-- Whatever arrives in the course of any number of rounds, and wherever the line drops, the stages come in
their order and the last one stays, with whatever waits then. Apart from the answers to the pings that were
heard while the line was up, a player tells its name, after it was let in, and then asks for a seat, after it
was given a number. -/
theorem handshake (patience : Nat) (avatar : UInt32) (t₀ : Nat) (s : Session) (es : List Event) :
    let c := (start patience avatar t₀ s).run es
    (∀ es', c.joining.status.rank ≤ (c.run es').joining.status.rank) ∧
      (c.joining.isFinished = true → ∀ es', (c.run es').joining = c.joining ∧
        (c.run es').heard = c.heard ∧ (c.run es').session.outgoing = c.session.outgoing ∧
        c.session.inbox <+: (c.run es').session.inbox) ∧
      (c.task = .idle → ∀ now n, c.session.inbox.length < n →
        ∃ heard, c.run (round now n) =
          ⟨(c.joining.poll c.session now).1, (c.joining.poll c.session now).2, .idle, heard⟩) ∧
      c.heard.map (·.message) ++ c.session.takes c.session.inbox =
        s.takes (s.inbox ++ es.filterMap Event.brings) ∧
      ∃ ms, c.session.outgoing = s.outgoing ++ ms ∧
        wishes ms <+: [.register ⟨0, avatar⟩, .requestRoomJoin] ∧
        (.register ⟨0, avatar⟩ ∈ ms → ∃ h ∈ c.heard, h.message.kind = .accepted) ∧
        (.requestRoomJoin ∈ ms → ∃ h h', [h, h'].Sublist c.heard ∧ h.message.kind = .accepted ∧
          h'.message.kind = .assignId ∧ h'.message.payload.length = 4) ∧
        ms.count .clientPong = c.heard.countP Heard.pings := by
  intro c
  have hsane : c.Sane := (start_sane patience avatar t₀ s).run es
  have hmannered : c.Mannered s avatar :=
    (run_induction (start_sane patience avatar t₀ s) (start_mannered patience avatar t₀ s)
      Mannered.moves es).2
  have hwish {m : Message} (hm : m ∈ said avatar c.heard) (hne : m ≠ .clientPong) :
      m ∈ wishes (said avatar c.heard) := List.mem_filter.mpr ⟨hm, decide_eq_true hne⟩
  refine ⟨hsane.rank_le_run, hsane.run_settled, fun ht now n => run_round ht,
    ((start_sane patience avatar t₀ s).run_conserves es).2, said avatar c.heard, hmannered.outgoing,
    hmannered.climbed.wished, ?_, ?_, count_said avatar c.heard⟩
  · intro hm
    exact hmannered.climbed.greeted (List.ne_nil_of_mem (hwish hm (fun h => nomatch congrArg Message.kind h)))
  · intro hm
    exact hmannered.climbed.numbered (hwish hm (fun h => nomatch congrArg Message.kind h))

/-- The line drops before the hall has given a number, and a ping that waits then is not answered: joining has
failed, and the greeting behind the ping still waits. -/
theorem handshake_cut_off :
    let s := Session.fresh.connect
    let ns := [Message.serverPing, .assignId 6, .accepted, .serverPing].map (Notice.message 1)
    let es := ns.map Event.arrives ++ round 10 5 ++
      [.drops, .arrives (.message 1 .serverPing), .arrives (.message 1 .accepted)] ++ round 20 9
    let c := (start 3000 9 0 s).run es
    c.joining.status = .failed .disconnected ∧ c.session.inbox = [.message 1 .accepted] ∧
      (∀ es', (c.run es').joining = c.joining) ∧
      ∃ ms, c.session.outgoing = s.outgoing ++ ms ∧
        wishes ms <+: [.register ⟨0, 9⟩, .requestRoomJoin] ∧ ms.count .clientPong = 2 := by
  intro s ns es
  obtain ⟨-, hlast, -, -, ms, hout, hwishes, -, -, hpongs⟩ := handshake 3000 9 0 s es
  exact ⟨by decide, by decide, fun es' => (hlast (by decide) es').1, ms, hout, hwishes,
    hpongs.trans (by decide)⟩

end Candidate
end BlockDuel.Seat
