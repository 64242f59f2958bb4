import BlockDuel.Proofs.House.Lines
import BlockDuel.Proofs.Seat.Receiving

/-!
What a guest keeps up. All that reached it was taken in its order, first by the joining and then by the
match, or still waits; the joining stands where a digest of its part says, and the match where the
strokes and the other part say. A guest asks for a seat at most once, and what it reports is what it
has shown.
-/
namespace BlockDuel
open Wire Hall Seat

namespace Guest

variable {g : Guest} {sent got ms : List Message}

/-- Play, if it has begun, has the seed of the joining, and what was reported is what was shown. -/
def Played (g : Guest) (heard sent : List Message) : Prop :=
  match g.play with
  | none => heard = [] ∧ g.strokes = [] ∧ reports sent = []
  | some p => ∃ seed id, g.joining.status = .ready seed id ∧ Plays seed id g.strokes heard p ∧
      reports sent = shown (.start seed) g.strokes

/-- What a guest keeps up that has said `sent` and that `got` has reached. -/
structure Holds (g : Guest) (sent got : List Message) : Prop where
  line : ∀ l, g.session.line = some l → l.id = 1
  asked : requests sent + g.joining.chances ≤ 1
  told : ∃ before since, before ++ since <+: got ∧
    (g.session.line ≠ none → got = before ++ since ++ g.session.takes g.session.inbox) ∧
    g.joining.Follows (.of before) g.session ∧ Digest.Needed before ∧ g.Played since sent

theorem Holds.arrives (patience : Nat) (avatar : UInt32) (now : Nat) :
    (Guest.arrives patience avatar now).Holds [] [] := by
  refine ⟨?_, Nat.le_refl 1, [], [], List.prefix_rfl, fun _ => rfl, ?_, ?_, rfl, rfl, rfl⟩
  · intro l hl
    cases hl
    rfl
  · exact ⟨⟨rfl, rfl, rfl⟩, rfl, rfl, fun _ _ => rfl⟩
  · intro front m rest hsplit
    simp at hsplit

/-- Once play has begun, joining is over. -/
theorem Played.unfinished {heard : List Message} (h : g.Played heard sent)
    (hf : g.joining.isFinished = false) : g.play = none := by
  unfold Played at h
  split at h
  · assumption
  · obtain ⟨seed, id, hstatus, -⟩ := h
    unfold Joining.isFinished at hf
    rw [hstatus] at hf
    cases hf

/-- A guest has said what it has handed over. -/
structure Acts (g g' : Guest) (sent got ms : List Message) : Prop where
  outgoing : g'.session.outgoing = g.session.outgoing ++ ms
  fits : ∀ m ∈ ms, m.Fits
  holds : g'.Holds (sent ++ ms) got

theorem Acts.silent {g' : Guest} (ho : g'.session.outgoing = g.session.outgoing)
    (h : g'.Holds sent got) : Acts g g' sent got [] := by
  refine ⟨?_, (fun m hm => nomatch hm), ?_⟩
  · rw [ho, List.append_nil]
  · rw [List.append_nil]
    exact h

theorem Holds.poll (h : g.Holds sent got) (now : Nat) :
    ∃ ms, Acts g (g.does (.poll now)) sent got ms := by
  obtain ⟨before, since, hprefix, hgot, hfollows, hneeded, hplayed⟩ := h.told
  by_cases hf : g.joining.isFinished = true
  · have hpoll : g.joining.poll g.session now = (g.joining, g.session) := by
      unfold Joining.poll
      rw [if_pos hf]
    have hsame : g.does (.poll now) = g := by
      change Guest.mk (g.joining.poll g.session now).2 (g.joining.poll g.session now).1 _ _ = g
      rw [hpoll]
    rw [hsame]
    exact ⟨[], .silent rfl h⟩
  have hplay := hplayed.unfinished (Bool.eq_false_iff.mpr hf)
  have hplayed' := hplayed
  unfold Played at hplayed'
  rw [hplay] at hplayed'
  obtain ⟨rfl, hstrokes, hreports⟩ := hplayed'
  obtain ⟨taken, rest, ms, hinbox, hrest, hfollows', hspeaks, htaken⟩ :=
    Joining.poll_follows now hfollows
  refine ⟨ms, hspeaks.outgoing, hspeaks.fits, ?_, ?_, ?_⟩
  · intro l hl
    exact h.line l (hspeaks.line ▸ hl)
  · have h₁ := h.asked
    have h₂ := hspeaks.asked
    rw [requests_append]
    change requests sent + requests ms + (g.joining.poll g.session now).1.chances ≤ 1
    omega
  · have hgot' (hl : g.session.line ≠ none) :
        got = (before ++ g.session.takes taken) ++ [] ++ g.session.takes rest := by
      have := hgot hl
      rw [hinbox, Session.takes_append] at this
      simpa using this
    refine ⟨before ++ g.session.takes taken, [], ?_, ?_, ?_, hneeded.append htaken, ?_⟩
    · by_cases hl : g.session.line = none
      · rw [Session.takes_unlinked hl, List.append_nil]
        exact hprefix
      · rw [hgot' hl]
        exact List.prefix_append _ _
    · intro hl
      have hline : g.session.line ≠ none := fun hn => hl (hspeaks.line.trans hn)
      change got = _ ++ _ ++ (g.joining.poll g.session now).2.takes
        (g.joining.poll g.session now).2.inbox
      rw [hrest, Session.takes_of_line hspeaks.line]
      exact hgot' hline
    · unfold Digest.of
      rw [List.foldl_append]
      exact hfollows'
    · have hplay' : (g.does (.poll now)).play = none := hplay
      unfold Played
      rw [hplay']
      refine ⟨rfl, hstrokes, ?_⟩
      rw [reports_append, hreports, hspeaks.unreported]
      rfl

theorem Holds.begin (h : g.Holds sent got) : Acts g (g.does .begin) sent got [] := by
  obtain ⟨before, since, hprefix, hgot, hfollows, hneeded, hplayed⟩ := h.told
  change Acts g g.begin sent got []
  unfold Guest.begin
  split
  · next seed id hplay hstatus =>
    unfold Played at hplayed
    rw [hplay] at hplayed
    obtain ⟨rfl, hstrokes, hreports⟩ := hplayed
    refine .silent rfl ⟨h.line, h.asked, before, [], hprefix, hgot, hfollows, hneeded, seed, id,
      hstatus, ?_, ?_⟩
    · change Plays seed id g.strokes [] _
      rw [hstrokes]
      exact .start seed id
    · change _ = shown (.start seed) g.strokes
      rw [hstrokes, hreports]
      rfl
  · exact .silent rfl h

/-- A change of play alone is a matter of what was heard, done and said since it began. -/
theorem Holds.playOn (h : g.Holds sent got) {p p' : Play} {session : Session}
    {strokes : List Stroke} {ms : List Message} (hplay : g.play = some p)
    (line : session.line = g.session.line)
    (inbox : session.inbox = g.session.inbox)
    (outgoing : session.outgoing = g.session.outgoing ++ ms) (fits : ∀ m ∈ ms, m.Fits)
    (asked : requests ms = 0)
    (plays : ∀ seed id heard, Plays seed id g.strokes heard p → Plays seed id strokes heard p' ∧
      shown (.start seed) strokes = shown (.start seed) g.strokes ++ reports ms) :
    Acts g ⟨session, g.joining, some p', strokes⟩ sent got ms := by
  obtain ⟨before, since, hprefix, hgot, hfollows, hneeded, hplayed⟩ := h.told
  unfold Played at hplayed
  rw [hplay] at hplayed
  obtain ⟨seed, id, hstatus, hplays, hreports⟩ := hplayed
  obtain ⟨hplays', hshown⟩ := plays seed id since hplays
  refine ⟨outgoing, fits, ?_, ?_, before, since, hprefix, ?_, hfollows.ready hstatus _, hneeded, seed,
    id, hstatus, hplays', ?_⟩
  · intro l hl
    exact h.line l (line ▸ hl)
  · rw [requests_append, asked]
    exact h.asked
  · intro hl
    change got = before ++ since ++ session.takes session.inbox
    rw [inbox, Session.takes_of_line line]
    exact hgot (line ▸ hl)
  · rw [reports_append, hreports]
    exact hshown.symm

theorem Holds.stroke (h : g.Holds sent got) (s : Stroke) :
    ∃ ms, Acts g (g.does (.stroke s)) sent got ms := by
  change ∃ ms, Acts g (g.stroke s) sent got ms
  unfold Guest.stroke
  cases hplay : g.play with
  | none => exact ⟨[], .silent rfl h⟩
  | some p =>
    dsimp only
    by_cases hs : s = .shows
    · subst hs
      rw [if_pos rfl]
      by_cases hc : g.session.isConnected = true
      · have hsync : p.sync g.session = (p.pending.length,
            { p with arena := p.arena.clearChanges },
            { g.session with outgoing := g.session.outgoing ++ p.pending }) := by
          unfold Play.sync
          rw [if_pos hc]
          dsimp only
          rw [sendAll_spec _ hc]
        rw [hsync, if_pos hc]
        have hmem (m : Message) (hm : m ∈ p.pending) : m.kind.relayed = true ∧ m.Fits :=
          mem_changes (a := p.arena) hm
        have hreports : reports p.pending = p.pending := reports_changes p.arena
        refine ⟨p.pending, h.playOn hplay rfl rfl rfl (fun m hm => (hmem m hm).2) ?_ ?_⟩
        · unfold requests
          rw [List.countP_eq_zero]
          intro m hm hk
          have hr := (hmem m hm).1
          rw [of_decide_eq_true hk] at hr
          cases hr
        · intro seed id heard hp
          refine ⟨hp.stroke .shows, ?_⟩
          rw [shown_append, hreports, hp.pending]
          exact congrArg _ (List.append_nil _)
      · have hsync : p.sync g.session = (0, p, g.session) := by
          unfold Play.sync
          rw [if_neg hc]
        rw [hsync, if_neg hc]
        refine ⟨[], h.playOn hplay rfl rfl (List.append_nil _).symm (fun m hm => nomatch hm) rfl ?_⟩
        intro seed id heard hp
        exact ⟨hp, (List.append_nil _).symm⟩
    · rw [if_neg hs]
      refine ⟨[], h.playOn hplay rfl rfl (List.append_nil _).symm (fun m hm => nomatch hm) rfl ?_⟩
      intro seed id heard hp
      refine ⟨hp.stroke s, ?_⟩
      rw [shown_append]
      congr 1
      apply shown_of_hidden
      intro hmem
      exact hs (List.mem_singleton.mp hmem).symm

/-- A round of the match takes in all that waits. -/
theorem Holds.process (h : g.Holds sent got) : ∃ ms, Acts g (g.does .process) sent got ms := by
  unfold Guest.does
  cases hplay : g.play with
  | none => exact ⟨[], .silent rfl h⟩
  | some p =>
    obtain ⟨before, since, hprefix, hgot, hfollows, hneeded, hplayed⟩ := h.told
    unfold Played at hplayed
    rw [hplay] at hplayed
    obtain ⟨seed, id, hstatus, hplays, hreports⟩ := hplayed
    obtain ⟨-, hreceived, hline, hinbox, pongs, houtgoing, hpongs⟩ :=
      processAll_spec g.session.inbox p g.session
    have hquiet : requests pongs = 0 ∧ reports pongs = [] := by
      constructor
      · unfold requests
        rw [List.countP_eq_zero]
        intro m hm
        rw [hpongs m hm]
        exact Bool.false_ne_true
      · unfold reports
        rw [List.filter_eq_nil_iff]
        intro m hm
        rw [hpongs m hm]
        exact Bool.false_ne_true
    refine ⟨pongs, houtgoing, ?_, ?_, ?_, before,
      since ++ g.session.takes g.session.inbox, ?_, ?_, hfollows.ready hstatus _, hneeded, seed, id,
      hstatus, ?_, ?_⟩
    · intro m hm
      rw [hpongs m hm]
      exact Nat.zero_le _
    · intro l hl
      exact h.line l (hline ▸ hl)
    · rw [requests_append, hquiet.1]
      exact h.asked
    · by_cases hl : g.session.line = none
      · rw [Session.takes_unlinked hl, List.append_nil]
        exact hprefix
      · exact ⟨[], by rw [List.append_nil, hgot hl, List.append_assoc]⟩
    · intro hl
      have hl' : g.session.line ≠ none := fun hn => hl (hline.trans hn)
      change got = _ ++ Session.takes _ (p.process g.session).2.2.inbox
      unfold Play.process
      rw [hinbox, ← List.append_assoc]
      exact (hgot hl').trans (List.append_nil _).symm
    · change Plays seed id g.strokes _ (Play.processAll g.session.inbox p g.session).2.1
      rw [hreceived]
      exact hplays.receiveAll _
    · rw [reports_append, hquiet.2, List.append_nil]
      exact hreports

theorem Holds.reportDeath (h : g.Holds sent got) :
    ∃ ms, Acts g (g.does .reportDeath) sent got ms := by
  unfold Guest.does
  cases hplay : g.play with
  | none => exact ⟨[], .silent rfl h⟩
  | some p =>
    have hsame : Acts g ⟨g.session, g.joining, some p, g.strokes⟩ sent got [] := by
      refine h.playOn hplay rfl rfl (List.append_nil _).symm (fun m hm => nomatch hm) rfl ?_
      intro seed id heard hp
      exact ⟨hp, (List.append_nil _).symm⟩
    dsimp only
    unfold Play.reportDeath
    split
    · exact ⟨[], hsame⟩
    · unfold Session.send
      by_cases hc : g.session.isConnected = true
      · rw [if_pos hc]
        have hfits : ∀ m ∈ [Message.playerDead p.playerId], m.Fits := by
          intro m hm
          rw [List.mem_singleton.mp hm]
          exact Message.fits_carrying _ _ (by decide)
        refine ⟨[.playerDead p.playerId], h.playOn hplay rfl rfl rfl hfits rfl ?_⟩
        intro seed id heard hp
        exact ⟨hp.reported, (List.append_nil _).symm⟩
      · rw [if_neg hc]
        exact ⟨[], hsame⟩

/-- What happens to the line alone is no matter of joining or play. -/
theorem Holds.relined (h : g.Holds sent got) {session : Session} {ms : List Message}
    (line : ∀ l, session.line = some l → l.id = 1)
    (linked : session.line ≠ none → g.session.line ≠ none ∧
      session.takes session.inbox = g.session.takes g.session.inbox ∧
      session.playerId = g.session.playerId)
    (outgoing : session.outgoing = g.session.outgoing ++ ms) (fits : ∀ m ∈ ms, m.Fits)
    (asked : requests ms = 0) (unreported : reports ms = []) :
    Acts g { g with session := session } sent got ms := by
  obtain ⟨before, since, hprefix, hgot, hfollows, hneeded, hplayed⟩ := h.told
  refine ⟨outgoing, fits, line, ?_, before, since, hprefix, ?_, ?_, hneeded, ?_⟩
  · rw [requests_append, asked]
    exact h.asked
  · intro hl
    obtain ⟨hl', htakes, -⟩ := linked hl
    change got = before ++ since ++ session.takes session.inbox
    rw [htakes]
    exact hgot hl'
  · refine hfollows.elsewhere fun hl => ?_
    obtain ⟨hl', -, hid⟩ := linked hl
    exact ⟨hl', hid⟩
  · unfold Played at hplayed ⊢
    rw [reports_append, unreported, List.append_nil]
    exact hplayed

theorem Holds.quit (h : g.Holds sent got) : Acts g (g.does .quit) sent got [] := by
  refine h.relined ?_ ?_ ?_ (fun m hm => nomatch hm) rfl rfl
  · intro l hl
    cases hl
  · intro hl
    exact absurd rfl hl
  · rw [List.append_nil]
    exact (Session.lineEnds_spec g.session).2.2.1

theorem Holds.leave (h : g.Holds sent got) : ∃ ms, Acts g (g.does .leave) sent got ms := by
  cases hplay : g.play with
  | none =>
    have hleave : g.does .leave = g := by
      unfold Guest.does
      rw [hplay]
    rw [hleave]
    exact ⟨[], .silent rfl h⟩
  | some p =>
    have hleave : g.does .leave = { g with session := (p.leave g.session).2 } := by
      unfold Guest.does
      dsimp only
      rw [hplay]
    obtain ⟨ms, hms, hout⟩ : ∃ ms, (ms = [] ∨ ms = [.unregister p.playerId]) ∧
        (g.session.send (.unregister p.playerId)).2.outgoing = g.session.outgoing ++ ms := by
      unfold Session.send
      split
      · exact ⟨[.unregister p.playerId], .inr rfl, rfl⟩
      · exact ⟨[], .inl rfl, (List.append_nil _).symm⟩
    rw [hleave]
    refine ⟨ms, h.relined ?_ ?_ ?_ ?_ ?_ ?_⟩
    · intro l hl
      cases hl
    · intro hl
      exact absurd rfl hl
    · exact (Session.lineEnds_spec _).2.2.1.trans hout
    · intro m hm
      rcases hms with rfl | rfl
      · cases hm
      · rw [List.mem_singleton.mp hm]
        exact Message.fits_carrying _ _ (by decide)
    · rcases hms with rfl | rfl <;> rfl
    · rcases hms with rfl | rfl <;> rfl

theorem Holds.lineEnds (h : g.Holds sent got) : Acts g (g.does .lineEnds) sent got [] := by
  obtain ⟨hline, hid, hout, htakes⟩ := Session.lineEnds_spec g.session
  refine h.relined ?_ ?_ ?_ (fun m hm => nomatch hm) rfl rfl
  · intro l hl
    have hl' : g.session.line.map Line.id = some l.id := by
      rw [← hline, hl]
      rfl
    obtain ⟨l', hl', heq⟩ := Option.map_eq_some_iff.mp hl'
    rw [← heq]
    exact h.line l' hl'
  · intro hl
    refine ⟨?_, htakes, hid⟩
    intro hn
    rw [hn] at hline
    exact hl (Option.map_eq_none_iff.mp hline)
  · rw [List.append_nil]
    exact hout

/-- Whatever a guest does, it keeps up what it has kept up. -/
theorem Holds.does (h : g.Holds sent got) (gesture : Gesture) :
    ∃ ms, Acts g (g.does gesture) sent got ms := by
  cases gesture with
  | poll now => exact h.poll now
  | begin => exact ⟨[], h.begin⟩
  | stroke s => exact h.stroke s
  | process => exact h.process
  | reportDeath => exact h.reportDeath
  | leave => exact h.leave
  | quit => exact ⟨[], h.quit⟩
  | lineEnds => exact ⟨[], h.lineEnds⟩

/-- What a line has written is off the session. -/
theorem Holds.flushed (h : g.Holds sent got) :
    Holds { g with session := g.session.flush.2 } sent got := by
  obtain ⟨before, since, hprefix, hgot, hfollows, hneeded, hplayed⟩ := h.told
  exact ⟨h.line, h.asked, before, since, hprefix, hgot, hfollows.elsewhere fun hl => ⟨hl, rfl⟩,
    hneeded, hplayed⟩

/-- Messages that reach the session wait there. -/
theorem Holds.hears (h : g.Holds sent got) {isOpen : Bool} (hl : g.session.line = some ⟨1, isOpen⟩)
    (ms : List Message) :
    Holds { g with session := ms.foldl (fun s m => s.hear (.message 1 m)) g.session } sent
      (got ++ ms) := by
  have hsession : ms.foldl (fun s m => s.hear (.message 1 m)) g.session =
      { g.session with inbox := g.session.inbox ++ ms.map (.message 1) } := by
    generalize g.session = s
    induction ms generalizing s with
    | nil => simp
    | cons m ms ih =>
      rw [List.foldl_cons, ih]
      simp [Session.hear]
  have htakes : g.session.takes (ms.map (.message 1)) = ms := by
    unfold Session.takes
    rw [List.filterMap_map]
    have haccept : g.session.accept ∘ Notice.message 1 = some := by
      funext m
      simp [Session.accept, hl]
    rw [haccept, List.filterMap_some]
  obtain ⟨before, since, hprefix, hgot, hfollows, hneeded, hplayed⟩ := h.told
  rw [hsession]
  refine ⟨h.line, h.asked, before, since, hprefix.trans (List.prefix_append _ _), ?_, ?_, hneeded,
    hplayed⟩
  · intro _
    have hne : g.session.line ≠ none := by rw [hl]; exact Option.some_ne_none _
    change got ++ ms = before ++ since ++ g.session.takes (g.session.inbox ++ ms.map (.message 1))
    rw [Session.takes_append, htakes, ← List.append_assoc, ← hgot hne]
  · exact hfollows.elsewhere fun hl => ⟨hl, rfl⟩

end Guest
end BlockDuel
