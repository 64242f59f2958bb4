import BlockDuel.Proofs.Seat.Duelist

/-!
What a player says in a match. A sign of life answers a ping, the parts of the own half that have changed are
shown, a death is reported once, and the goodbye is the last word: who has said it gives up the line next, and
nobody speaks without a line.
-/
namespace BlockDuel.Seat
open Wire

/-- The kinds of message that show a part of the own half. -/
def shownKinds : List Kind := [.curMinoState, .holdMinoState, .previewMinoState, .boardState]

/-- A message for each part of the own half that is marked: the falling piece, the held one, the preview and the
board, in this order. -/
def marked (a : Arena) : List Message :=
  ([(a.changed.falling, Message.falling a.own.falling),
    (a.changed.held, Message.held (.held a.own.held)),
    (a.changed.preview, Message.preview a.own.preview),
    (a.changed.board, Message.board a.own.board)].filter (·.1)).map (·.2)

theorem pending_eq (p : Play) : p.pending = marked p.arena := by
  unfold Play.pending marked
  dsimp only
  cases p.arena.changed.falling <;> cases p.arena.changed.held <;>
    cases p.arena.changed.preview <;> cases p.arena.changed.board <;> rfl

theorem length_pending_le (p : Play) : p.pending.length ≤ maxChanges := by
  rw [pending_eq, marked, List.length_map]
  exact List.length_filter_le _ _

theorem kind_of_pending {p : Play} {m : Message} (hm : m ∈ p.pending) : m.kind ∈ shownKinds := by
  rw [pending_eq] at hm
  obtain ⟨⟨mark, m'⟩, hmem, rfl⟩ := List.mem_map.mp hm
  have hall := List.mem_of_mem_filter hmem
  simp only [List.mem_cons, Prod.mk.injEq, List.not_mem_nil, or_false] at hall
  obtain ⟨-, rfl⟩ | ⟨-, rfl⟩ | ⟨-, rfl⟩ | ⟨-, rfl⟩ := hall
  · exact (by decide : Kind.curMinoState ∈ shownKinds)
  · exact (by decide : Kind.holdMinoState ∈ shownKinds)
  · exact (by decide : Kind.previewMinoState ∈ shownKinds)
  · exact (by decide : Kind.boardState ∈ shownKinds)

/-- What shows a part of the own half is neither the report of a death nor the goodbye. -/
theorem ne_of_shown {k : Kind} (hk : k ∈ shownKinds) :
    k ≠ .playerDead ∧ k ≠ .unregisterWithServer := by
  constructor <;> rintro rfl <;> revert hk <;> decide

namespace Duelist

variable {c c' : Duelist} {e : Event} {es : List Event} {before ms : List Message} {m : Message}

/-- The player has said goodbye, or has no line any more. -/
def Gone (c : Duelist) : Prop := c.errand = .parts ∨ c.session.line = none

theorem not_gone (he : c.errand ≠ .parts) (hc : c.session.isConnected = true) : ¬ c.Gone := by
  rintro (hparts | hline)
  · exact he hparts
  · simp [Session.isConnected, hline] at hc

theorem passes_unlinked {s : Session} (hc : s.isConnected = false) (m : Message) : s.passes m = [] := by
  unfold Session.passes
  rw [hc]
  rfl

theorem passes_linked {s : Session} (hc : s.isConnected = true) (m : Message) : s.passes m = [m] :=
  if_pos hc

/-- Who is gone says nothing more, and stays away. -/
theorem Moves.gone (h : Moves c e c') (hg : c.Gone) :
    c'.Gone ∧ c'.session.outgoing = c.session.outgoing ∧
      c'.play.deathReported = c.play.deathReported := by
  have hunlinked (he : c.errand ≠ .parts) : c.session.line = none ∧ c.session.isConnected = false := by
    obtain hparts | hline := hg
    · exact absurd hparts he
    · exact ⟨hline, by simp [Session.isConnected, hline]⟩
  cases h with
  | stays | arrives => exact ⟨hg, rfl, rfl⟩
  | parts => exact ⟨.inr rfl, c.session.lineEnds_spec.2.2.1, rfl⟩
  | drops =>
    refine ⟨hg.imp id fun hline => ?_, c.session.lineEnds_spec.2.2.1, rfl⟩
    have hid := c.session.lineEnds_spec.1
    rw [hline] at hid
    exact Option.map_eq_none_iff.mp hid
  | turns a he | begins he | hides he | opens he | skips he | took he | showed he =>
    exact ⟨.inr (hunlinked (by rw [he]; nofun)).1, rfl, rfl⟩
  | reports he hd hc => simp [(hunlinked (by rw [he]; nofun)).2] at hc
  | hears he =>
    obtain ⟨hline, hc⟩ := hunlinked (by rw [he]; nofun)
    refine ⟨.inr hline, ?_, (receive_keeps _ _).2⟩
    simp [Taken.answer, hc]
  | shows he | bids he =>
    obtain ⟨hline, hc⟩ := hunlinked (by rw [he]; nofun)
    refine ⟨.inr hline, ?_, rfl⟩
    simp [passes_unlinked hc]

theorem run_gone (hg : c.Gone) (es : List Event) :
    (c.run es).session.outgoing = c.session.outgoing := by
  refine (run_induction (P := fun c' => c'.Gone ∧ c'.session.outgoing = c.session.outgoing)
    ⟨hg, rfl⟩ ?_ es).2
  rintro c' e c'' ⟨hg', hsaid⟩ hm
  exact ⟨(hm.gone hg').1, (hm.gone hg').2.1.trans hsaid⟩

/-- What a player has said since the match began. -/
structure Spoken (before : List Message) (c : Duelist) (ms : List Message) : Prop where
  said : c.session.outgoing = before ++ ms
  batch : ∀ count rest, c.errand = .shows count rest → ∀ m ∈ rest, m.kind ∈ shownKinds
  each : ∀ m ∈ ms, m = .clientPong ∨ m.kind ∈ shownKinds ∨ m = .playerDead c.play.playerId ∨
    m = .unregister c.play.playerId
  deaths : ms.countP (·.kind = .playerDead) = if c.play.deathReported then 1 else 0
  goodbye : (∀ m ∈ ms, m.kind ≠ .unregisterWithServer) ∨
    c.Gone ∧ ∃ front, ms = front ++ [.unregister c.play.playerId] ∧
      ∀ m ∈ front, m.kind ≠ .unregisterWithServer
  bidden : c.errand = .parts → c.session.isConnected = true →
    ∃ front, ms = front ++ [.unregister c.play.playerId]

theorem Spoken.start (arena : Arena) (id : PlayerId) (s : Session) :
    Spoken s.outgoing (start (.start arena id) s) [] :=
  ⟨(List.append_nil _).symm, nofun, nofun, rfl, .inl nofun, nofun⟩

/-- Nothing is said. -/
theorem Spoken.silent (h : Spoken before c ms) (hsaid : c'.session.outgoing = c.session.outgoing)
    (hid : c'.play.playerId = c.play.playerId)
    (hdeath : c'.play.deathReported = c.play.deathReported)
    (hbatch : ∀ count rest, c'.errand = .shows count rest → ∀ m ∈ rest, m.kind ∈ shownKinds)
    (hgone : c.Gone → c'.Gone)
    (hparts : c'.errand = .parts → c'.session.isConnected = true →
      c.errand = .parts ∧ c.session.isConnected = true) : Spoken before c' ms := by
  refine ⟨hsaid.trans h.said, hbatch, ?_, ?_, ?_, ?_⟩
  · rw [hid]
    exact h.each
  · rw [hdeath]
    exact h.deaths
  · rw [hid]
    exact h.goodbye.imp id fun ⟨hg, hlast⟩ => ⟨hgone hg, hlast⟩
  · rw [hid]
    exact fun he hc => h.bidden (hparts he hc).1 (hparts he hc).2

/-- Something other than the goodbye is said, which takes a line. -/
theorem Spoken.says (h : Spoken before c ms) (he : c.errand ≠ .parts)
    (hc : c.session.isConnected = true)
    (hsaid : c'.session.outgoing = c.session.outgoing ++ [m])
    (hid : c'.play.playerId = c.play.playerId)
    (hm : m = .clientPong ∨ m.kind ∈ shownKinds ∨ m = .playerDead c.play.playerId)
    (hdeath : m.kind = .playerDead ∧ c.play.deathReported = false ∧ c'.play.deathReported = true ∨
      m.kind ≠ .playerDead ∧ c'.play.deathReported = c.play.deathReported)
    (hbatch : ∀ count rest, c'.errand = .shows count rest → ∀ m ∈ rest, m.kind ∈ shownKinds)
    (he' : c'.errand ≠ .parts) : Spoken before c' (ms ++ [m]) := by
  have hkind : m.kind ≠ .unregisterWithServer := by
    obtain rfl | hm | rfl := hm
    · nofun
    · exact (ne_of_shown hm).2
    · nofun
  refine ⟨?_, hbatch, ?_, ?_, .inl ?_, fun hparts => absurd hparts he'⟩
  · rw [hsaid, h.said, List.append_assoc]
  · rw [hid]
    intro m' hm'
    obtain hm' | hm' := List.mem_append.mp hm'
    · exact h.each m' hm'
    · rw [List.mem_singleton.mp hm']
      exact hm.imp id (Or.imp id .inl)
  · rw [List.countP_append, h.deaths, List.countP_singleton]
    obtain ⟨hk, hd, hd'⟩ | ⟨hk, hd⟩ := hdeath
    · simp [hk, hd, hd']
    · simp [hk, hd]
  · intro m' hm'
    obtain hm' | hm' := List.mem_append.mp hm'
    · obtain hnone | ⟨hg, -⟩ := h.goodbye
      · exact hnone m' hm'
      · exact absurd hg (not_gone he hc)
    · rw [List.mem_singleton.mp hm']
      exact hkind

/-- The goodbye is said, if there is a line to say it on. -/
theorem Spoken.bids (h : Spoken before c ms) (he : c.errand = .idle) :
    Spoken before
      { c with
        session := { c.session with
          outgoing := c.session.outgoing ++ c.session.passes (.unregister c.play.playerId) }
        errand := .parts }
      (ms ++ c.session.passes (.unregister c.play.playerId)) := by
  have hstands : c.errand ≠ .parts := by rw [he]; nofun
  cases hc : c.session.isConnected with
  | false =>
    rw [passes_unlinked hc, List.append_nil, List.append_nil]
    refine ⟨h.said, nofun, h.each, h.deaths, h.goodbye.imp id fun hlast => ⟨.inl rfl, hlast.2⟩, ?_⟩
    intro _ hlinked
    cases hlinked.symm.trans hc
  | true =>
    rw [passes_linked hc]
    have hnone : ∀ m ∈ ms, m.kind ≠ .unregisterWithServer := by
      obtain hnone | ⟨hg, -⟩ := h.goodbye
      · exact hnone
      · exact absurd hg (not_gone hstands hc)
    refine ⟨?_, nofun, ?_, ?_, .inr ⟨.inl rfl, ms, rfl, hnone⟩, fun _ _ => ⟨ms, rfl⟩⟩
    · dsimp only
      rw [h.said, List.append_assoc]
    · intro m hm
      obtain hm | hm := List.mem_append.mp hm
      · exact h.each m hm
      · exact .inr (.inr (.inr (List.mem_singleton.mp hm)))
    · have hkind : (Message.unregister c.play.playerId).kind = .unregisterWithServer := rfl
      rw [List.countP_append, h.deaths, List.countP_singleton]
      simp [hkind]

theorem Spoken.moves (h : Spoken before c ms) (hm : Moves c e c') :
    ∃ new, Spoken before c' (ms ++ new) := by
  have hgone : c.Gone → c'.Gone := fun hg => (hm.gone hg).1
  have hlinked := hm.linked
  have hsilent (h' : Spoken before c' ms) : ∃ new, Spoken before c' (ms ++ new) :=
    ⟨[], by rwa [List.append_nil]⟩
  cases hm with
  | stays => exact hsilent h
  | turns | skips | hides | arrives =>
    exact hsilent (h.silent rfl rfl rfl h.batch hgone fun he' hc => ⟨he', hc⟩)
  | drops =>
    exact hsilent (h.silent c.session.lineEnds_spec.2.2.1 rfl rfl h.batch hgone
      fun he' hc => ⟨he', hlinked hc⟩)
  | begins | took | showed => exact hsilent (h.silent rfl rfl rfl nofun hgone nofun)
  | parts =>
    exact hsilent (h.silent c.session.lineEnds_spec.2.2.1 rfl rfl nofun hgone nofun)
  | opens =>
    refine hsilent (h.silent rfl rfl rfl ?_ hgone nofun)
    rintro _ _ ⟨⟩ m hm
    exact kind_of_pending hm
  | @hears _ a m _ he =>
    have hstands : c.errand ≠ .parts := by rw [he]; nofun
    have hkeeps := receive_keeps c.play m
    by_cases hping : m.kind = .serverPing ∧ c.session.isConnected = true
    · have hanswer : Taken.answer ⟨m, c.session.isConnected⟩ = [.clientPong] := if_pos hping
      rw [hanswer]
      exact ⟨_, h.says hstands hping.2 rfl hkeeps.1 (.inl rfl) (.inr ⟨nofun, hkeeps.2⟩) nofun nofun⟩
    · have hanswer : Taken.answer ⟨m, c.session.isConnected⟩ = [] := if_neg hping
      refine hsilent (h.silent ?_ hkeeps.1 hkeeps.2 nofun hgone nofun)
      dsimp only
      rw [hanswer, List.append_nil]
  | @shows count m rest he =>
    have hstands : c.errand ≠ .parts := by rw [he]; nofun
    have hbatch := h.batch _ _ he
    have hkind := hbatch m List.mem_cons_self
    have hrest : ∀ count' rest', Errand.shows count rest = .shows count' rest' →
        ∀ m' ∈ rest', m'.kind ∈ shownKinds := by
      rintro _ _ ⟨⟩ m' hm'
      exact hbatch m' (List.mem_cons_of_mem _ hm')
    cases hc : c.session.isConnected with
    | true =>
      rw [passes_linked hc]
      exact ⟨[m], h.says hstands hc rfl rfl (.inr (.inl hkind)) (.inr ⟨(ne_of_shown hkind).1, rfl⟩)
        hrest nofun⟩
    | false =>
      refine hsilent (h.silent ?_ rfl rfl hrest hgone nofun)
      dsimp only
      rw [passes_unlinked hc, List.append_nil]
  | reports he hd hc =>
    have hstands : c.errand ≠ .parts := by rw [he]; nofun
    exact ⟨_, h.says hstands hc rfl rfl (.inr (.inr rfl)) (.inl ⟨rfl, hd, rfl⟩) h.batch hstands⟩
  | bids he => exact ⟨_, h.bids he⟩

theorem run_spoken (h : Spoken before c ms) (es : List Event) :
    ∃ new, Spoken before (c.run es) (ms ++ new) := by
  refine run_induction (P := fun c' => ∃ new, Spoken before c' (ms ++ new)) ⟨[], ?_⟩ ?_ es
  · rwa [List.append_nil]
  · rintro c' e c'' ⟨new, h'⟩ hm
    obtain ⟨more, h''⟩ := h'.moves hm
    exact ⟨new ++ more, by rwa [← List.append_assoc]⟩

/-- After the goodbye comes nothing. -/
theorem Spoken.last (h : Spoken before c ms) {front rest : List Message}
    (hms : ms = front ++ m :: rest) (hk : m.kind = .unregisterWithServer) : rest = [] ∧ c.Gone := by
  obtain hnone | ⟨hgone, front', hlast, hfront'⟩ := h.goodbye
  · exact absurd hk (hnone m (by simp [hms]))
  · refine ⟨?_, hgone⟩
    rw [hms] at hlast
    cases rest using List.reverseRecOn with
    | nil => rfl
    | append_singleton rest x =>
      rw [← List.cons_append, ← List.append_assoc] at hlast
      have hinside := (List.append_inj' hlast rfl).1
      exact absurd hk (hfront' m (by simp [← hinside]))

theorem Spoken.reported_iff (h : Spoken before c ms) :
    c.play.deathReported = true ↔ .playerDead c.play.playerId ∈ ms := by
  have hdeaths := h.deaths
  constructor
  · intro hd
    rw [if_pos hd] at hdeaths
    obtain ⟨m, hm, hk⟩ := List.countP_pos_iff.mp (by rw [hdeaths]; exact Nat.one_pos)
    have hk' : m.kind = .playerDead := of_decide_eq_true hk
    obtain rfl | hshown | rfl | rfl := h.each m hm
    · cases hk'
    · exact absurd hk' (ne_of_shown hshown).1
    · exact hm
    · cases hk'
  · intro hm
    by_contra hd
    rw [if_neg hd] at hdeaths
    have hpos : 0 < ms.countP (·.kind = .playerDead) := List.countP_pos_iff.mpr ⟨_, hm, rfl⟩
    omega

/-- To report the death fails only if it was never reported and there is no line. -/
theorem Spoken.reportDeath_error_iff (h : Spoken before c ms) :
    (∃ f, (c.play.reportDeath c.session).1 = .error f) ↔
      .playerDead c.play.playerId ∉ ms ∧ c.session.isConnected = false := by
  rw [← h.reported_iff, reportDeath_eq]
  cases c.play.deathReported <;> cases c.session.isConnected <;> simp

/-- A report that fails changes nothing. -/
theorem next_reports_of_error (hf : ∃ f, (c.play.reportDeath c.session).1 = .error f) :
    c.next .reports = c := by
  obtain ⟨f, hf⟩ := hf
  simp only [next, reportDeath_of_error hf, ite_self]

/-- What showing has come to in the course of `es`: `sent` was handed over. -/
structure Showing (c : Duelist) (es : List Event) (c' : Duelist) (sent : List Message) : Prop where
  said : c'.session.outgoing = c.session.outgoing ++ sent
  stage : ∃ past rest, c.play.pending = past ++ rest ∧ sent <+: past ∧
    (c'.session.isConnected = true → sent = past) ∧
    (c'.errand = .shows c.play.pending.length rest ∧ past.length = es.count .goesOn ∧
        c'.play = c.play ∧ c'.counts = c.counts ∨
      c'.errand = .idle ∧ rest = [] ∧ c'.play.arena = c.play.arena.clearChanges ∧
        c'.counts = c.counts ++ [c.play.pending.length])

/-- An event in which nothing is handed over and the errand stays as it is. -/
theorem Showing.waits {sent : List Message} (h : Showing c es c' sent) {c'' : Duelist}
    (hm : Moves c' e c'') (hsaid : c''.session.outgoing = c'.session.outgoing)
    (hplay : c''.play = c'.play) (he : c''.errand = c'.errand) (hcounts : c''.counts = c'.counts)
    (hrests : e = .goesOn → c'.errand = .idle) : Showing c (es ++ [e]) c'' sent := by
  obtain ⟨past, rest, hbatch, hsent, hall, hstage⟩ := h.stage
  refine ⟨hsaid.trans h.said, past, rest, hbatch, hsent, fun hc => hall (hm.linked hc), ?_⟩
  rw [he, hplay, hcounts, List.count_append]
  refine hstage.imp (fun ⟨hshows, hpast, hrest⟩ => ⟨hshows, ?_, hrest⟩) id
  have hnone : [e].count .goesOn = 0 := List.count_eq_zero.mpr fun hmem => by
    cases hshows.symm.trans (hrests (List.mem_singleton.mp hmem).symm)
  omega

theorem Showing.moves {sent : List Message} (h : Showing c es c' sent) {c'' : Duelist}
    (hm : Moves c' e c'') (hcall : e.isCall = false) : ∃ sent', Showing c (es ++ [e]) c'' sent' := by
  obtain ⟨past, rest, hbatch, hsent, hall, hstage⟩ := h.stage
  have hlinked := hm.linked
  cases hm with
  | stays hb hi => exact ⟨sent, h.waits (.stays hb hi) rfl rfl rfl rfl hi⟩
  | arrives n => exact ⟨sent, h.waits (.arrives n) rfl rfl rfl rfl nofun⟩
  | drops => exact ⟨sent, h.waits .drops c'.session.lineEnds_spec.2.2.1 rfl rfl rfl nofun⟩
  | @shows count m rest' he =>
    obtain ⟨hshows, hpast, hplay, hcounts⟩ | ⟨hidle, -⟩ := hstage
    · obtain ⟨rfl, rfl⟩ := Errand.shows.inj (he.symm.trans hshows)
      have hpassed (hc : c'.session.isConnected = true) :
          sent ++ c'.session.passes m = past ++ [m] := by
        rw [passes_linked hc, hall hc]
      refine ⟨sent ++ c'.session.passes m, ?_, past ++ [m], rest', ?_, ?_, fun hc => hpassed (hlinked hc),
        .inl ⟨rfl, ?_, hplay, hcounts⟩⟩
      · dsimp only
        rw [h.said, List.append_assoc]
      · rw [hbatch, List.append_assoc]
        rfl
      · cases hc : c'.session.isConnected with
        | true => exact (hpassed hc).symm ▸ List.prefix_rfl
        | false =>
          rw [passes_unlinked hc, List.append_nil]
          exact hsent.trans (List.prefix_append _ _)
      · rw [List.length_append, hpast, List.count_append]
        rfl
    · cases hidle.symm.trans he
  | showed he =>
    obtain ⟨hshows, -, hplay, hcounts⟩ | ⟨hidle, -⟩ := hstage
    · obtain ⟨rfl, rfl⟩ := Errand.shows.inj (he.symm.trans hshows)
      refine ⟨sent, h.said, past, [], hbatch, hsent, hall, .inr ⟨rfl, rfl, ?_, ?_⟩⟩
      · rw [hplay]
      · rw [hcounts]
    · cases hidle.symm.trans he
  | turns | begins | hides | opens | reports | bids => cases hcall
  | skips he | hears he | took he | parts he =>
    obtain ⟨hshows, -⟩ | ⟨hidle, -⟩ := hstage
    · cases hshows.symm.trans he
    · cases hidle.symm.trans he

/-- Whatever happens in the course of it, showing goes on like this. -/
theorem run_showing (he : c.errand = .idle) (hc : c.session.isConnected = true)
    (hes : ∀ e ∈ es, e.isCall = false) : ∃ sent, Showing c es (c.run (.sync :: es)) sent := by
  induction es using List.reverseRecOn with
  | nil =>
    have hnext : c.run [.sync] = { c with errand := .shows c.play.pending.length c.play.pending } := by
      change c.next .sync = _
      simp [next, he, hc]
    rw [hnext]
    exact ⟨[], (List.append_nil _).symm, [], _, rfl, List.prefix_rfl, fun _ => rfl,
      .inl ⟨rfl, rfl, rfl, rfl⟩⟩
  | append_singleton es e ih =>
    obtain ⟨sent, h⟩ := ih fun e' he' => hes e' (List.mem_append_left _ he')
    rw [← List.cons_append, run_concat]
    exact h.moves (next_moves _ e) (hes e (by simp))

end Duelist
end BlockDuel.Seat
