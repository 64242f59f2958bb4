import BlockDuel.Link.Basic
import BlockDuel.Proofs.Hall.Verdicts
import BlockDuel.Proofs.Wire.Frame

/-!
The reports of a match and all other messages. A report goes from one member of a running match to the
other as it came, octet for octet, and nothing else comes of it. Whatever else a hall says it wrote
itself, from what is on its roll and in its room; no player can put words into its mouth.
-/
namespace BlockDuel.Hall
open Wire

/-- What a hall writes itself on an occasion that takes it from `s` to `s'`, with `seed` for a match
that may begin. Each text is made of the number of a link, of registrations that are on the roll, of
the seed of the match or of the verdict. -/
inductive Composes (s s' : State) (seed : UInt64) : Occasion → PlayerId → Message → Prop
  | welcome {now : Time} {id : PlayerId} :
      Composes s s' seed (.notice now (.connected id)) id .accepted
  | number {now : Time} {id : PlayerId} {m : Message} (new : id ∉ s.roll.registrations.ids)
      (kind : m.kind = .registerWithServer) :
      Composes s s' seed (.notice now (.message id m)) id (.assignId id)
  | ping {now : Time} {order : List PlayerId} {id : PlayerId} :
      Composes s s' seed (.check now order) id .serverPing
  | pong {now : Time} {id : PlayerId} {m : Message} (kind : m.kind = .clientPing) :
      Composes s s' seed (.notice now (.message id m)) id .serverPong
  | answer {now : Time} {id : PlayerId} {m : Message} (kind : m.kind = .requestRoomJoin) :
      Composes s s' seed (.notice now (.message id m)) id .roomJoinAccepted
  | roster {now : Time} {id : PlayerId} {m : Message} (kind : m.kind = .requestRoomJoin)
      (joins : s'.room.members = s.room.members ++ [id]) :
      Composes s s' seed (.notice now (.message id m)) id (.roomPlayerList s'.roster)
  | newcomer {now : Time} {a id : PlayerId} {m : Message} {g : Registration}
      (kind : m.kind = .requestRoomJoin) (joins : s'.room.members = [a, id])
      (waiting : s.room.members = [a]) (registered : s.roll.registration? id = some g) :
      Composes s s' seed (.notice now (.message id m)) a (.roomPlayerJoined g.player)
  | seed {now : Time} {id y : PlayerId} {m : Message} (kind : m.kind = .requestRoomJoin)
      (waiting : s.room.phase ≠ .ready) (begins : s'.room.running? = some ⟨s'.room.members, seed⟩)
      (member : y ∈ s'.room.members) :
      Composes s s' seed (.notice now (.message id m)) y (.bagSeed seed)
  | start {now : Time} {id y : PlayerId} {m : Message} (kind : m.kind = .requestRoomJoin)
      (waiting : s.room.phase ≠ .ready) (begins : s'.room.running? = some ⟨s'.room.members, seed⟩)
      (member : y ∈ s'.room.members) :
      Composes s s' seed (.notice now (.message id m)) y .allPlayersReady
  | verdict {o : Occasion} {x y z : PlayerId} (gaveUp : o.GivesUp x) (pits : s.room.Pits x y)
      (named : z = x ∨ z = y) : Composes s s' seed o z (.gameOver ⟨y, x⟩)
  | leaving {o : Occasion} {x y : PlayerId} (gaveUp : o.GivesUp x) (pits : s.room.Pits x y) :
      Composes s s' seed o y (.roomPlayerLeft x)

/-- A message that is handed over for sending was a report of the other member of the match, or the
hall wrote it. -/
inductive Source (s s' : State) (seed : UInt64) : Occasion → PlayerId → Message → Prop
  | copy {now : Time} {x y : PlayerId} {m : Message} (relayed : m.kind.relayed = true)
      (pits : s.room.Pits x y) : Source s s' seed (.notice now (.message x m)) y m
  | composed {o : Occasion} {y : PlayerId} {m : Message} (own : m.kind.relayed = false)
      (composes : Composes s s' seed o y m) : Source s s' seed o y m

namespace State

variable {s s' : State} {seed : UInt64} {now : Time} {o : Occasion} {ds : List Deed}
  {x y id : PlayerId} {m : Message}

/-- A report changes nothing in the hall. -/
theorem meet_report (hl : x ∈ s.roll.links) (hk : m.kind.relayed = true) :
    s.meet seed (.notice now (.message x m)) = (s, s.relay x m) := by
  rw [meet_message hl]
  cases hm : m.kind <;> rw [hm] at hk <;> first | rfl | cases hk

theorem sent?_send : (s.send id m).sent? = some (id, m) := by
  unfold send
  split <;> rfl

/-- The two members hear the verdict, and the one who stays hears of the leaving. -/
theorem Leaves.composes {tell : Message → Deed} {r' : Room} (h : Leaves tell id s.room r' ds)
    (ht : tell = .post id ∨ tell = .miss id) (ho : o.GivesUp id) {d : Deed} (hd : d ∈ ds)
    (hs : d.sent? = some (y, m)) : Source s s' seed o y m := by
  generalize hroom : s.room = r at h
  cases h with
  | stranger out => cases hd
  | alone => cases hd
  | @concedes r z pits =>
    subst r
    have htell : (tell (.gameOver ⟨z, id⟩)).sent? = some (id, .gameOver ⟨z, id⟩) := by
      rcases ht with rfl | rfl <;> rfl
    simp only [List.mem_cons, List.not_mem_nil, or_false] at hd
    rcases hd with rfl | rfl | rfl | rfl
    · cases hs
    · cases hs
      exact .composed rfl (.verdict ho pits (.inr rfl))
    · rw [htell] at hs
      cases hs
      exact .composed rfl (.verdict ho pits (.inl rfl))
    · cases hs
      exact .composed rfl (.leaving ho pits)

theorem Moves.source (hm : Moves s seed o s' ds) {d : Deed} (hd : d ∈ ds)
    (hs : d.sent? = some (y, m)) : Source s s' seed o y m := by
  cases hm with
  | idles => cases hd
  | admits =>
    rw [List.mem_singleton.mp hd] at hs
    cases hs
    exact .composed rfl .welcome
  | registers link new kind player =>
    rw [List.mem_singleton.mp hd] at hs
    cases hs
    exact .composed rfl (.number new kind)
  | hearsPong => cases hd
  | answersPing link kind =>
    rw [List.mem_singleton.mp hd] at hs
    cases hs
    exact .composed rfl (.pong kind)
  | acknowledges registered kind =>
    rw [List.mem_singleton.mp hd] at hs
    cases hs
    exact .composed rfl (.answer kind)
  | @seats now id m g registered kind room =>
    let s' : State := { s with room := ⟨[id], .waitingForSecond, none⟩ }
    have hroster : [g.player] = s'.roster := by
      change _ = ([id].filterMap s.roll.registration?).map (·.player)
      simp [registered]
    simp only [List.mem_cons, List.not_mem_nil, or_false] at hd
    rcases hd with rfl | rfl
    · cases hs
      exact .composed rfl (.answer kind)
    · cases hs
      rw [hroster]
      refine .composed rfl (.roster kind ?_)
      simp [room, Room.fresh]
  | @pairs now a id m ga g waiting registered kind ne room =>
    let s' : State := { s with room := ⟨[a, id], .ready, some seed⟩ }
    have hwait : s.room.phase ≠ .ready := by
      rw [room]
      exact Phase.noConfusion
    have hroster : [ga.player, g.player] = s'.roster := by
      change _ = ([a, id].filterMap s.roll.registration?).map (·.player)
      simp [waiting, registered]
    have ha : a ∈ s'.room.members := by simp [s']
    have hid : id ∈ s'.room.members := by simp [s']
    simp only [List.mem_cons, List.not_mem_nil, or_false] at hd
    rcases hd with rfl | rfl | rfl | rfl | rfl | rfl | rfl | rfl
    · cases hs
      exact .composed rfl (.answer kind)
    · cases hs
      rw [hroster]
      refine .composed rfl (.roster kind ?_)
      simp [room]
    · cases hs
      refine .composed rfl (.newcomer kind rfl ?_ registered)
      rw [room]
    · cases hs
    · cases hs
      exact .composed rfl (.seed kind hwait rfl ha)
    · cases hs
      exact .composed rfl (.start kind hwait rfl ha)
    · cases hs
      exact .composed rfl (.seed kind hwait rfl hid)
    · cases hs
      exact .composed rfl (.start kind hwait rfl hid)
  | relays pits kind =>
    rw [List.mem_singleton.mp hd] at hs
    cases hs
    exact .copy kind pits
  | @rules now x z m pits kind =>
    have ho : Occasion.GivesUp (.notice now (.message x m)) x := .inl ⟨now, m, rfl, .inl kind⟩
    simp only [List.mem_cons, List.not_mem_nil, or_false] at hd
    rcases hd with rfl | rfl | rfl
    · cases hs
    · cases hs
      exact .composed rfl (.verdict ho pits (.inr rfl))
    · cases hs
      exact .composed rfl (.verdict ho pits (.inl rfl))
  | @dismisses now id m room ds registered kind leaves =>
    have ho : Occasion.GivesUp (.notice now (.message id m)) id := .inl ⟨now, m, rfl, .inr kind⟩
    rcases List.mem_append.mp hd with hd | hd
    · exact leaves.composes (.inl rfl) ho hd hs
    · rw [List.mem_singleton.mp hd] at hs
      cases hs
  | @loses now id room ds link leaves =>
    exact leaves.composes (.inr rfl) (.inr ⟨now, rfl⟩) hd hs
  | losesNothing => cases hd
  | checks =>
    obtain ⟨id, rfl | ⟨-, rfl⟩⟩ := checkLiveness_deeds hd
    · rw [sent?_send] at hs
      cases hs
      exact .composed rfl .ping
    · cases hs

end State

namespace Course

variable {seeds : Nat → UInt64} {interval patience : Nat} {start : Time}

theorem next_report {c : Course} {now : Time} {x : PlayerId} {m : Message}
    (hl : x ∈ c.hall.roll.links) (hk : m.kind.relayed = true) :
    c.next seeds (.notice now (.message x m)) =
      { c with deeds := c.deeds ++ c.hall.relay x m } := by
  rw [next_eq, State.meet_report hl hk]
  have hp : (c.hall.relay x m).filterMap Deed.pairing? = [] := State.relay_opens_nothing m
  simp only [hp, List.length_nil, Nat.add_zero]

/-- Every message of a run goes back to the occasion on which it was handed over. -/
theorem run_source (os : List Occasion) {d : Deed} {y : PlayerId} {m : Message}
    (hd : d ∈ ((opened interval patience start).run seeds os).deeds) (hs : d.sent? = some (y, m)) :
    ∃ before o after, os = before ++ o :: after ∧
      let c := (opened interval patience start).run seeds before
      Source c.hall (c.next seeds o).hall (seeds c.made) o y m := by
  induction os using List.reverseRecOn with
  | nil => cases hd
  | append_singleton os o ih =>
    have hc : ((opened interval patience start).run seeds os).hall.Coherent := coherent_run os
    obtain ⟨ds, hds, hm⟩ := next_moves seeds hc o
    rw [run_concat, hds] at hd
    rcases List.mem_append.mp hd with hd | hd
    · obtain ⟨before, o', after, ho, hsource⟩ := ih hd
      refine ⟨before, o', after ++ [o], ?_, hsource⟩
      rw [ho]
      simp
    · exact ⟨os, o, [], rfl, hm.source hd hs⟩

/-- A report over a link that is there leaves the hall as it is. During a match it goes from one member
to the other, once and to nobody else, and what is queued are the octets of the frame that it came in;
any other report goes nowhere. Conversely, what a hall sends in the course of a run is either such a
report or no report, and then it is a text of the hall's own. -/
theorem reports_forwarded (seeds : Nat → UInt64) (interval patience : Nat) (start : Time)
    (os : List Occasion) :
    let c := (opened interval patience start).run seeds os
    (∀ now x m, x ∈ c.hall.roll.links → m.kind.relayed = true →
      let c' := c.next seeds (.notice now (.message x m))
      c'.hall = c.hall ∧ c'.made = c.made ∧
      (c.hall.room.phase = .ready → x ∈ c.hall.room.members →
        ∃ y ∈ c.hall.room.members, y ≠ x ∧ (∀ z ∈ c.hall.room.members, z = x ∨ z = y) ∧
          c'.deeds = c.deeds ++ [.post y m]) ∧
      (¬ (c.hall.room.phase = .ready ∧ x ∈ c.hall.room.members) → c'.deeds = c.deeds) ∧
      ∀ frame rest, scan (frame ++ rest) = .message m rest →
        ∀ l : Link, l.isOpen = true → (l.send m).queue = l.queue ++ [.frame frame]) ∧
    ∀ d ∈ c.deeds, ∀ y m, d.sent? = some (y, m) → ∃ before o after, os = before ++ o :: after ∧
      let b := (opened interval patience start).run seeds before
      Source b.hall (b.next seeds o).hall (seeds b.made) o y m := by
  intro c
  have hc : c.hall.Coherent := coherent_run os
  refine ⟨?_, fun d hd y m hs => run_source os hd hs⟩
  intro now x m hl hk c'
  have hnext : c' = _ := next_report hl hk
  refine ⟨by rw [hnext], by rw [hnext], ?_, ?_, ?_⟩
  · intro hr hx
    obtain ⟨y, pits⟩ := hc.room.pits hr hx
    refine ⟨y, pits.symm.mem, pits.ne.symm, fun z hz => pits.mem_iff.mp hz, ?_⟩
    rw [hnext, State.relay_of_pits hc pits hk]
  · intro hn
    rw [hnext, State.relay_of_not_playing fun hr hx => hn ⟨hr, hx⟩]
    exact List.append_nil _
  · intro frame rest hs l hl
    have hframe : encode m = frame := List.append_cancel_right (encode_of_scan hs)
    rw [Link.send, if_pos hl, hframe]

/-- In a match of `1` and `2` a report of `1` goes to the other one of the two. -/
theorem report_reaches_opponent :
    let seeds : Nat → UInt64 := fun _ => 7
    let c := (opened 5 5 0).run seeds
      [.notice 0 (.connected 1), .notice 0 (.connected 2),
        .notice 1 (.message 1 (.register ⟨0, 3⟩)), .notice 1 (.message 2 (.register ⟨0, 4⟩)),
        .notice 2 (.message 1 .requestRoomJoin), .notice 2 (.message 2 .requestRoomJoin)]
    let m : Message := .falling .none
    ∃ y ∈ c.hall.room.members, y ≠ 1 ∧ (∀ z ∈ c.hall.room.members, z = 1 ∨ z = y) ∧
      (c.next seeds (.notice 3 (.message 1 m))).deeds = c.deeds ++ [.post y m] :=
  ((reports_forwarded (fun _ => 7) 5 5 0
    [.notice 0 (.connected 1), .notice 0 (.connected 2),
      .notice 1 (.message 1 (.register ⟨0, 3⟩)), .notice 1 (.message 2 (.register ⟨0, 4⟩)),
      .notice 2 (.message 1 .requestRoomJoin), .notice 2 (.message 2 .requestRoomJoin)]).1
    3 1 (.falling .none) (by decide) rfl).2.2.1 (by decide) (by decide)

end Course
end BlockDuel.Hall
