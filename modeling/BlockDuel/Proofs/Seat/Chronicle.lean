import BlockDuel.Proofs.Seat.Lookout
import BlockDuel.Proofs.Seat.Taking
import Mathlib.Data.List.Chain

/-!
The log of an observer. However the messages fall into the frames, it tells of the start of the match, then of
the opponent's pieces and fields as they were after a frame, each time they had changed, and at the end of the
verdict.
-/
namespace BlockDuel.Seat
open Wire Hall

namespace Report

def piece? : Report → Option Falling
  | enemyPiece f => some f
  | _ => none

def filled? : Report → Option Nat
  | enemyBoard n => some n
  | _ => none

/-- The report tells of a change on the opponent's side. -/
def isNews : Report → Bool
  | enemyPiece _ | enemyBoard _ => true
  | _ => false

end Report

/-- The pieces of which a log tells. -/
def pieces (log : List Report) : List Falling := log.filterMap Report.piece?

/-- The numbers of filled cells of which a log tells. -/
def fillings (log : List Report) : List Nat := log.filterMap Report.filled?

/-- What was logged brings a reader up to the half `h`: the last piece and the last number are those of `h`, and
no two pieces in a row are the same. -/
structure Tracks (h : Half) (news : List Report) : Prop where
  only : ∀ r ∈ news, r.isNews = true
  changing : (Falling.none :: pieces news).IsChain (· ≠ ·)
  piece : (pieces news).getLast?.getD .none = h.falling
  filled : ∀ n ∈ (fillings news).getLast?, n = h.board.filled
  blank : fillings news = [] → h.board = .empty

variable {h h' : Half} {news : List Report}

theorem Tracks.start : Tracks .fresh [] := ⟨nofun, .singleton _, rfl, nofun, fun _ => rfl⟩

theorem pieces_changes (h h' : Half) :
    pieces (Observer.changes h h') = if h'.falling ≠ h.falling then [h'.falling] else [] := by
  unfold pieces Observer.changes
  by_cases hf : h'.falling = h.falling <;> by_cases hb : h'.board = h.board <;>
    simp [hf, hb, Report.piece?]

theorem fillings_changes (h h' : Half) :
    fillings (Observer.changes h h') = if h'.board ≠ h.board then [h'.board.filled] else [] := by
  unfold fillings Observer.changes
  by_cases hf : h'.falling = h.falling <;> by_cases hb : h'.board = h.board <;>
    simp [hf, hb, Report.filled?, List.filterMap_cons]

theorem isNews_of_changes {r : Report} (hr : r ∈ Observer.changes h h') : r.isNews = true := by
  unfold Observer.changes at hr
  obtain hr | hr := List.mem_append.mp hr
  · split at hr
    · rw [List.mem_singleton.mp hr]
      rfl
    · cases hr
  · split at hr
    · rw [List.mem_singleton.mp hr]
      rfl
    · cases hr

/-- A further frame in which the half changed to `h'`, or did not. -/
theorem Tracks.changes (ht : Tracks h news) (h' : Half) :
    Tracks h' (news ++ Observer.changes h h') := by
  have hpieces : pieces (news ++ Observer.changes h h') =
      pieces news ++ if h'.falling ≠ h.falling then [h'.falling] else [] := by
    rw [← pieces_changes]
    exact List.filterMap_append
  have hfillings : fillings (news ++ Observer.changes h h') =
      fillings news ++ if h'.board ≠ h.board then [h'.board.filled] else [] := by
    rw [← fillings_changes]
    exact List.filterMap_append
  refine ⟨?_, ?_, ?_, ?_, ?_⟩
  · intro r hr
    obtain hr | hr := List.mem_append.mp hr
    · exact ht.only r hr
    · exact isNews_of_changes hr
  · rw [hpieces, ← List.cons_append]
    refine ht.changing.append ?_ ?_
    · split
      · exact .singleton _
      · exact .nil
    · intro f hf f' hf'
      split at hf'
      · next hne =>
        have hlast : (Falling.none :: pieces news).getLast? = some h.falling := by
          rw [List.getLast?_cons, ht.piece]
        cases hlast.symm.trans hf
        cases hf'
        exact Ne.symm hne
      · cases hf'
  · rw [hpieces]
    split
    · simp
    · next hsame =>
      rw [List.append_nil, ht.piece]
      exact (Decidable.not_not.mp hsame).symm
  · rw [hfillings]
    split
    · simp
    · next hsame =>
      rw [List.append_nil, Decidable.not_not.mp hsame]
      exact ht.filled
  · rw [hfillings]
    split
    · simp
    · next hsame =>
      rw [List.append_nil, Decidable.not_not.mp hsame]
      exact ht.blank

/-- The verdicts that were heard. -/
def Duelist.decided (c : Duelist) : List Verdict := decisions (c.heard.map Taken.message)

namespace Vigil

variable {w : Vigil} {c c' : Duelist} {stop stop' : Stop} {log : List Report} {e : Duelist.Event}

/-- Nothing of what is heard has changed. -/
structure Quiet (c c' : Duelist) : Prop where
  heard : c'.heard = c.heard
  number : c'.play.playerId = c.play.playerId
  verdict : c'.play.verdict = c.play.verdict
  lost : c'.play.arena.own.lost = c.play.arena.own.lost
  opponent : c'.play.arena.opponent = c.play.arena.opponent

theorem Quiet.trans {c'' : Duelist} (h : Quiet c c') (h' : Quiet c' c'') : Quiet c c'' :=
  ⟨h'.heard.trans h.heard, h'.number.trans h.number, h'.verdict.trans h.verdict, h'.lost.trans h.lost,
    h'.opponent.trans h.opponent⟩

/-- Something is heard only while messages are taken. -/
theorem quiet_of_moves (hm : Duelist.Moves c e c') (he : ∀ n, c.errand ≠ .takes n)
    (ht : e.isTurn = false) : Quiet c c' := by
  cases hm with
  | turns => cases ht
  | hears h => exact absurd h (he _)
  | _ => exact ⟨rfl, rfl, rfl, rfl, rfl⟩

/-- A new piece is no news. -/
theorem quiet_spawn (c : Duelist) : Quiet c (c.next (.turns c.play.arena.spawn.2)) := by
  unfold Duelist.next
  dsimp only
  split <;> exact ⟨rfl, rfl, rfl, rfl, rfl⟩

/-- The verdict that is kept is the last one that was heard, and the own half is marked as lost if another player
won by one of them. -/
structure Judged (c : Duelist) : Prop where
  verdict : c.play.verdict = c.decided.getLast?
  lost : c.play.arena.own.lost =
    c.decided.any fun v => v.winner ≠ c.play.playerId

theorem Judged.quiet (h : Judged c) (q : Quiet c c') : Judged c' := by
  refine ⟨?_, ?_⟩
  · rw [q.verdict, Duelist.decided, q.heard]
    exact h.verdict
  · rw [q.lost, Duelist.decided, q.heard, q.number]
    exact h.lost

theorem Judged.moves (h : Judged c) (hm : Duelist.Moves c e c') (ht : e.isTurn = false) : Judged c' := by
  cases hm with
  | turns => cases ht
  | @hears _ a m =>
    have hdecided :
        decisions ((c.heard ++ [(⟨m, c.session.isConnected⟩ : Taken)]).map Taken.message) =
          c.decided ++ (verdictIn? m).toList := by
      cases hv : verdictIn? m <;> simp [Duelist.decided, decisions, hv]
    refine ⟨?_, ?_⟩
    · change (c.play.receive m).verdict = (decisions _).getLast?
      rw [hdecided, receive_eq]
      cases verdictIn? m with
      | none => simpa using h.verdict
      | some v => simp
    · change (c.play.receive m).arena.own.lost = (decisions _).any _
      rw [hdecided, receive_eq, List.any_append, ← h.lost]
      cases verdictIn? m <;> simp
  | _ => exact ⟨h.verdict, h.lost⟩

/-- With one verdict, the log tells it as it is, and whether the player won. -/
theorem Judged.reports (h : Judged c) {v : Verdict} (hv : c.decided = [v]) :
    verdictReports c.play = [.gameOver v (decide (v.winner = c.play.playerId))] := by
  have hverdict : c.play.verdict = some v := by rw [h.verdict, hv]; rfl
  have hover : c.play.arena.isOver .here = decide (v.winner ≠ c.play.playerId) := by
    change c.play.arena.own.lost = _
    rw [h.lost, hv]
    simp
  rw [verdictReports_some hverdict, hover]
  simp

/-- The observer is at a stop at which no verdict can have been heard. -/
def unjudged : Stop → Bool
  | .top | .reports | .spawns | .shows => true
  | _ => false

def draining : Stop → Bool
  | .drains _ => true
  | _ => false

/-- The opponent's half as the observer last compared it. -/
def seen (c : Duelist) : Stop → Half
  | .drains before => before
  | _ => c.play.arena.opponent

/-- The end of the log: the verdict, once the messages are taken in which it was. -/
def ending (c : Duelist) : Stop → List Report
  | .drains _ => []
  | _ => verdictReports c.play

/-- The log of an observer in a match. -/
structure Chronicle (c : Duelist) (stop : Stop) (log : List Report) : Prop where
  entries : ∃ seed roster news,
    log = .ready c.play.playerId seed roster :: (news ++ ending c stop) ∧ Tracks (seen c stop) news
  judged : Judged c
  unjudged : unjudged stop = true → c.play.verdict = none

theorem ending_of_undecided (hv : c.play.verdict = none) (stop : Stop) : ending c stop = [] := by
  unfold ending verdictReports
  rw [hv]
  cases stop <;> rfl

theorem seen_of_drained (hs : draining stop = false) (c : Duelist) :
    seen c stop = c.play.arena.opponent ∧ ending c stop = verdictReports c.play := by
  cases stop <;> first | exact ⟨rfl, rfl⟩ | cases hs

theorem Chronicle.start (seed : UInt64) (id : PlayerId) (roster : List Player) (s : Session) :
    Chronicle (.start (.start (Arena.start seed).spawn.2 id) s) .top [.ready id seed roster] :=
  ⟨⟨seed, roster, [], rfl, .start⟩, ⟨rfl, rfl⟩, fun _ => rfl⟩

/-- Nothing is heard, and the observer does not take messages. -/
theorem Chronicle.quiet (h : Chronicle c stop log) (q : Quiet c c') (hs : draining stop = false)
    (hs' : draining stop' = false) (hu : Vigil.unjudged stop' = true → c.play.verdict = none) :
    Chronicle c' stop' log := by
  have hreports : verdictReports c'.play = verdictReports c.play := by
    unfold verdictReports Arena.isOver Arena.half
    rw [q.verdict, q.lost]
  refine ⟨?_, h.judged.quiet q, ?_⟩
  · rw [q.number, (seen_of_drained hs' c').1, (seen_of_drained hs' c').2, q.opponent, hreports,
      ← (seen_of_drained hs c).1, ← (seen_of_drained hs c).2]
    exact h.entries
  · rw [q.verdict]
    exact hu

/-- The messages that wait are about to be taken. -/
theorem Chronicle.opens (h : Chronicle c stop log) (q : Quiet c c') (hs : draining stop = false)
    (hu : Vigil.unjudged stop = true) : Chronicle c' (.drains c.play.arena.opponent) log := by
  obtain ⟨seed, roster, news, hlog, htracks⟩ := h.entries
  rw [ending_of_undecided (h.unjudged hu)] at hlog
  rw [(seen_of_drained hs c).1] at htracks
  refine ⟨⟨seed, roster, news, ?_, htracks⟩, h.judged.quiet q, fun hu => nomatch hu⟩
  rw [q.number]
  exact hlog

/-- While messages are taken, the log stays as it is. -/
theorem Chronicle.takes {before : Half} (h : Chronicle c (.drains before) log)
    (hm : Duelist.Moves c e c') (ht : e.isTurn = false) : Chronicle c' (.drains before) log := by
  obtain ⟨seed, roster, news, hlog, htracks⟩ := h.entries
  refine ⟨⟨seed, roster, news, ?_, htracks⟩, h.judged.moves hm ht, fun hu => nomatch hu⟩
  rw [hm.playerId]
  exact hlog

/-- The messages are taken, and what they changed is logged. -/
theorem Chronicle.drained {before : Half} (h : Chronicle c (.drains before) log)
    (hs : draining stop = false) (hu : Vigil.unjudged stop = true → c.play.verdict = none) :
    Chronicle c stop (log ++ (Observer.changes before c.play.arena.opponent ++ verdictReports c.play)) := by
  obtain ⟨seed, roster, news, hlog, htracks⟩ := h.entries
  have hseen := seen_of_drained hs c
  refine ⟨⟨seed, roster, news ++ Observer.changes before c.play.arena.opponent, ?_, ?_⟩, h.judged, hu⟩
  · rw [hlog, hseen.2]
    simp [ending]
  · rw [hseen.1]
    exact htracks.changes _

/-- Whatever a step does, the log stays as it has to be. -/
theorem Chronicle.step {seen : List Report} (h : Chronicle c stop log)
    (hf : fits stop c.errand = true) (hs : Steps c stop c' stop' seen) :
    Chronicle c' stop' (log ++ seen) := by
  have hmoves := Duelist.next_moves c
  -- outside of the drain nothing is taken, so nothing is heard
  have hnot (hd : draining stop = false) (n : Nat) : c.errand ≠ .takes n := by
    intro he
    obtain ⟨before, rfl⟩ := drains_of_takes (he ▸ hf)
    cases hd
  have hquiet (hd : draining stop = false) {e : Duelist.Event} (ht : e.isTurn = false) :
      Quiet c (c.next e) := quiet_of_moves (hmoves e) (hnot hd) ht
  have hsame (h' : Chronicle c' stop' log) : Chronicle c' stop' (log ++ []) := by rwa [List.append_nil]
  have hclosed {stop : Stop} (hu : Vigil.unjudged stop = false) :
      Vigil.unjudged stop = true → c.play.verdict = none := by simp [hu]
  cases hs with
  | opens => exact hsame (h.opens (hquiet rfl rfl) rfl rfl)
  | closes => exact hsame (h.quiet (hquiet rfl rfl) rfl rfl (hclosed rfl))
  | takes => exact hsame (h.takes c.goOn_moves rfl)
  | judges before he =>
    have hdone : Chronicle c .parts _ := h.drained rfl (hclosed rfl)
    have hbids : Quiet c (c.next .leaves) :=
      quiet_of_moves (hmoves .leaves) (by simp [he]) rfl
    exact hdone.quiet hbids rfl rfl (hclosed rfl)
  | compares before he hv =>
    have hdone : Chronicle c .reports _ := h.drained rfl fun _ => hv
    have hnone : verdictReports c.play = [] := by simp only [verdictReports, hv]
    rwa [hnone, List.append_nil] at hdone
  | reports | keeps =>
    exact hsame (h.quiet (hquiet rfl rfl) rfl rfl fun _ => h.unjudged rfl)
  | shows =>
    have hgoes : Quiet c c.goOn := quiet_of_moves c.goOn_moves (hnot rfl) rfl
    exact hsame (h.quiet hgoes rfl rfl fun _ => h.unjudged rfl)
  | parts =>
    have hgoes : Quiet c c.goOn := quiet_of_moves c.goOn_moves (hnot rfl) rfl
    exact hsame (h.quiet hgoes rfl rfl (hclosed rfl))
  | spawns =>
    have hspawned : (c.next (.turns c.play.arena.spawn.2)).errand = .idle := by
      simp only [Duelist.next, idle_of_fits hf (.inr (.inr rfl)), if_true]
    have hsync := quiet_of_moves (Duelist.next_moves (c.next (.turns c.play.arena.spawn.2)) .sync)
      (by simp [hspawned]) rfl
    exact hsame (h.quiet ((quiet_spawn c).trans hsync) rfl rfl fun _ => h.unjudged rfl)
  | lives | showed =>
    exact hsame (h.quiet ⟨rfl, rfl, rfl, rfl, rfl⟩ rfl rfl fun _ => h.unjudged rfl)
  | fails | parted => exact hsame (h.quiet ⟨rfl, rfl, rfl, rfl, rfl⟩ rfl rfl (hclosed rfl))
  | ended => exact hsame h

/-- What arrives, and the end of the line, are not heard yet. -/
theorem Chronicle.meanwhile (h : Chronicle c stop log) (s : Session) :
    Chronicle { c with session := s } stop log :=
  ⟨h.entries, ⟨h.judged.verdict, h.judged.lost⟩, h.unjudged⟩

/-- The log is as it has to be. -/
def Kept (w : Vigil) : Prop :=
  match w.phase with
  | .joins _ => w.log = []
  | .fails _ => ∃ f : JoinFailure, w.log = [.failed f.message]
  | .plays c stop => Chronicle c stop w.log ∧ fits stop c.errand = true

theorem Kept.plays (h : w.Kept) (hp : w.phase = .plays c stop) :
    Chronicle c stop w.log ∧ fits stop c.errand = true := by
  unfold Kept at h
  rwa [hp] at h

theorem Kept.next (h : w.Kept) (e : Event) : (w.next e).Kept := by
  obtain ⟨phase, log⟩ := w
  cases phase with
  | joins c =>
    have hlog : log = [] := h
    subst hlog
    cases e with
    | goesOn now beat =>
      change Kept ⟨(join c now).1, [] ++ (join c now).2⟩
      unfold join
      split
      · rfl
      · rfl
      · split
        · exact ⟨.start _ _ _ _, rfl⟩
        · exact ⟨_, rfl⟩
        · rfl
    | arrives | drops => rfl
  | fails s =>
    cases e with
    | goesOn | arrives | drops => exact h
  | plays c stop =>
    obtain ⟨hlog, hfits⟩ : Chronicle c stop log ∧ fits stop c.errand = true := h
    cases e with
    | goesOn now beat =>
      have hs := play_steps c beat stop
      exact ⟨hlog.step hfits hs, hs.fits hfits⟩
    | arrives n => exact ⟨hlog.meanwhile _, hfits⟩
    | drops => exact ⟨hlog.meanwhile _, hfits⟩

theorem Kept.run (h : w.Kept) (es : List Event) : (w.run es).Kept := by
  induction es generalizing w with
  | nil => exact h
  | cons e es ih => exact ih (h.next e)

/-- How many steps it is to the end of the drain, if nothing arrives meanwhile. -/
def todo (c : Duelist) : Nat := if c.errand = .idle then 1 else c.session.inbox.length + 2

/-- A verdict was heard, and `es` is long enough for the observer to get it into its log. -/
inductive Closes (c : Duelist) (es : List Event) : Stop → Prop
  | drains (before : Half) (hv : c.play.verdict.isSome = true)
    (hn : todo c + es.countP (!·.isStep) ≤ es.countP (·.isStep)) : Closes c es (.drains before)
  | parts : Closes c es .parts
  | ended (code : Nat) : Closes c es (.ended code)

variable {es : List Event}

theorem Closes.drained (h : Closes c [] stop) : draining stop = false := by
  cases h with
  | drains before hv hn =>
    unfold todo at hn
    split at hn <;> cases hn
  | parts | ended => rfl

/-- Each message that is taken is one step less to go. -/
theorem todo_goOn {before : Half} (hf : fits (.drains before) c.errand = true)
    (he : c.errand ≠ .idle) : todo c.goOn < todo c := by
  have hm := c.goOn_moves
  generalize c.goOn = d at hm ⊢
  generalize hgoes : Duelist.Event.goesOn = e at hm
  cases hm with
  | stays _ hi => exact absurd (hi hgoes.symm) he
  | skips he' hi | took he' hi | hears he' hi => simp [todo, he', hi]
  | shows he' | showed he' | parts he' =>
    rw [he'] at hf
    cases hf
  | turns | begins | hides | opens | reports | bids | arrives | drops => cases hgoes

theorem Closes.step {now : Nat} {beat : Observer.Beat} {seen : List Report}
    (h : Closes c (.goesOn now beat :: es) stop) (hf : fits stop c.errand = true)
    (hs : Steps c stop c' stop' seen) : Closes c' es stop' := by
  cases h with
  | drains before hv hn =>
    cases hs with
    | takes _ he =>
      have hless := todo_goOn hf he
      have hothers : (Event.goesOn now beat :: es).countP (!·.isStep) = es.countP (!·.isStep) := by
        simp [Event.isStep]
      have hsteps : (Event.goesOn now beat :: es).countP (·.isStep) = es.countP (·.isStep) + 1 := by
        simp [Event.isStep]
      exact .drains before (c.goOn_moves.decided hv) (by omega)
    | judges => exact .parts
    | compares _ _ hnone =>
      rw [hnone] at hv
      cases hv
  | parts => cases hs with
    | parts => exact .parts
    | parted => exact .ended 0
  | ended => cases hs with
    | ended => exact .ended _

/-- What arrives is one step more to go at most. -/
theorem Closes.meanwhile {e : Event} {s : Session} (h : Closes c (e :: es) stop)
    (he : e.isStep = false) (hs : s.inbox.length ≤ c.session.inbox.length + 1) :
    Closes { c with session := s } es stop := by
  cases h with
  | drains before hv hn =>
    have hothers : (e :: es).countP (!·.isStep) = es.countP (!·.isStep) + 1 := by simp [he]
    have hsteps : (e :: es).countP (·.isStep) = es.countP (·.isStep) := by simp [he]
    have hmore : todo { c with session := s } ≤ todo c + 1 := by
      unfold todo
      dsimp only
      split <;> omega
    exact .drains before hv (by omega)
  | parts => exact .parts
  | ended => exact .ended _

theorem Closes.run (h : Closes c es stop) (hf : fits stop c.errand = true) (log : List Report) :
    ∃ c' stop', ((⟨.plays c stop, log⟩ : Vigil).run es).phase = .plays c' stop' ∧
      draining stop' = false := by
  induction es generalizing c stop log with
  | nil => exact ⟨c, stop, rfl, h.drained⟩
  | cons e es ih =>
    cases e with
    | goesOn now beat =>
      have hs := play_steps c beat stop
      exact ih (h.step hf hs) (hs.fits hf) _
    | arrives n => exact ih (h.meanwhile (s := c.session.hear n) rfl (by simp [Session.hear])) hf log
    | drops => exact ih (h.meanwhile rfl (Duelist.length_lineEnds c.session)) hf log

/-- One verdict was heard, and the messages are taken. -/
theorem Chronicle.getLast? (h : Chronicle c stop log) (hs : draining stop = false) {v : Verdict}
    (hv : c.decided = [v]) :
    log.getLast? = some (.gameOver v (decide (v.winner = c.play.playerId))) := by
  obtain ⟨seed, roster, news, hlog, -⟩ := h.entries
  rw [hlog, (seen_of_drained hs c).2, h.judged.reports hv, ← List.cons_append, List.getLast?_concat]

theorem Chronicle.closes (h : Chronicle c stop log) (hv : c.decided ≠ [])
    (hn : c.session.inbox.length + 2 + es.countP (!·.isStep) ≤ es.countP (·.isStep)) :
    Closes c es stop := by
  have hsome : c.play.verdict.isSome = true := by
    rw [h.judged.verdict, List.getLast?_isSome]
    exact hv
  have hundecided (hu : Vigil.unjudged stop = true) : Closes c es stop := by
    rw [h.unjudged hu] at hsome
    cases hsome
  cases stop with
  | top | reports | spawns | shows => exact hundecided rfl
  | drains before =>
    have htodo : todo c ≤ c.session.inbox.length + 2 := by
      unfold todo
      split <;> omega
    exact .drains before hsome (by omega)
  | parts => exact .parts
  | ended code => exact .ended code

end Vigil
end BlockDuel.Seat
