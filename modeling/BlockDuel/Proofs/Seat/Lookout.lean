import BlockDuel.Proofs.Seat.Vigil

/-!
An observer as it is run. It looks at its session again and again; each look is one `Observer.join` or one
`Observer.frame`, and notices arrive and the line drops only between two looks. Such an observer is a vigil
during whose looks nothing else happens, so what holds of all vigils holds of it.
-/
namespace BlockDuel.Seat
open Wire

/-- An observer as it is run, with its session and its log. -/
structure Lookout where
  observer : Observer
  session : Session
  log : List Report

namespace Lookout

def start (o : Observer.Options) (now : Nat) (s : Session) : Lookout := ⟨.start o now, s, []⟩

/-- The observer looks once, or something happens between two looks. -/
def next (l : Lookout) : Vigil.Event → Lookout
  | .goesOn now beat =>
    match l.observer with
    | .joining j =>
      let (seen, observer, session) := Observer.join j l.session now
      ⟨observer, session, l.log ++ seen⟩
    | .playing p =>
      let (seen, observer, session) := Observer.frame p l.session beat
      ⟨observer, session, l.log ++ seen⟩
    | .finished _ => l
  | .arrives n => { l with session := l.session.hear n }
  | .drops => { l with session := l.session.lineEnds }

def run (l : Lookout) (es : List Vigil.Event) : Lookout := es.foldl next l

end Lookout

namespace Observer

variable {p p' : Play} {s s' : Session} {beat : Beat}

theorem frame_unlinked (hc : s.isConnected = false) :
    frame p s beat = ([], .finished 0, (p.leave s).2) := by
  simp [frame, hc]

theorem frame_decided (hc : s.isConnected = true) (hp : (p.process s).2 = (p', s')) {v : Verdict}
    (hv : p'.verdict = some v) :
    frame p s beat = (changes p.arena.opponent p'.arena.opponent ++ Vigil.verdictReports p',
      .finished 0, (p'.leave s').2) := by
  simp [frame, hc, hp, hv, Vigil.verdictReports_some hv]

theorem frame_undecided (hc : s.isConnected = true) (hp : (p.process s).2 = (p', s'))
    (hv : p'.verdict = none) (beat : Beat) :
    let seen := changes p.arena.opponent p'.arena.opponent
    let acted := if beat.dies then p'.reportDeath s' else (.ok (), p', s')
    (∀ f, acted.1 = .error f → frame p s beat = (seen, .finished 1, acted.2.2.disconnect)) ∧
    (acted.1 = .ok () →
      let shows := if beat.spawns then { acted.2.1 with arena := acted.2.1.arena.spawn.2 } else acted.2.1
      let shown := shows.sync acted.2.2
      frame p s beat = (seen, .playing shown.2.1, shown.2.2)) := by
  intro seen acted
  refine ⟨fun f hf => ?_, fun hok => ?_⟩
  · have hacted : (if beat.dies then p'.reportDeath s' else (.ok (), p', s')) = (.error f, acted.2) :=
      Prod.ext hf rfl
    simp only [frame, hc, hp, hv, hacted, Bool.not_true, Bool.false_eq_true, if_false]
    rfl
  · have hacted : (if beat.dies then p'.reportDeath s' else (.ok (), p', s')) = (.ok (), acted.2) :=
      Prod.ext hok rfl
    simp only [frame, hc, hp, hv, hacted, Bool.not_true, Bool.false_eq_true, if_false]
    rfl

end Observer

namespace Vigil

variable {w w' w'' : Vigil} {c : Duelist} {stop : Stop} {log : List Report} {now : Nat}
  {beat : Observer.Beat}

/-- A vigil between two looks, and the observer that has come as far. -/
inductive Agrees : Vigil → Lookout → Prop
  | joins {c : Candidate} (ht : c.task = .idle) (hf : c.joining.isFinished = false) :
    Agrees ⟨.joins c, []⟩ ⟨.joining c.joining, c.session, []⟩
  | plays {c : Duelist} (he : c.errand = .idle) (log : List Report) :
    Agrees ⟨.plays c .top, log⟩ ⟨.playing c.play, c.session, log⟩
  | ended (c : Duelist) (code : Nat) (log : List Report) :
    Agrees ⟨.plays c (.ended code), log⟩ ⟨.finished code, c.session, log⟩
  | fails (s : Session) (log : List Report) : Agrees ⟨.fails s, log⟩ ⟨.finished 0, s, log⟩

/-- The one comes of the other in some steps during which nothing else happens. -/
def Leads (now : Nat) (beat : Observer.Beat) (w w' : Vigil) : Prop :=
  ∃ k, w.run (List.replicate k (.goesOn now beat)) = w'

theorem Leads.refl (w : Vigil) : Leads now beat w w := ⟨0, rfl⟩

theorem Leads.trans (h : Leads now beat w w') (h' : Leads now beat w' w'') : Leads now beat w w'' := by
  obtain ⟨k, rfl⟩ := h
  obtain ⟨k', rfl⟩ := h'
  exact ⟨k + k', by rw [List.replicate_add, run_append]⟩

theorem Leads.step (h : Leads now beat (w.next (.goesOn now beat)) w') : Leads now beat w w' := by
  obtain ⟨k, rfl⟩ := h
  exact ⟨k + 1, rfl⟩

/-- A stop at which the observer waits until what it is busy with is done. -/
def Waits (stop : Stop) : Prop :=
  ∀ c beat, c.errand ≠ .idle → play c beat stop = (c.goOn, stop, [])

theorem waits_drains (before : Half) : Waits (.drains before) := fun _ _ he => if_neg he
theorem waits_shows : Waits .shows := fun _ _ he => if_neg he
theorem waits_parts : Waits .parts := fun _ _ he => if_neg he

theorem Waits.leads (hs : Waits stop) (now : Nat) (beat : Observer.Beat) (log : List Report)
    {n : Nat} {c' : Duelist} (hrun : c.run (List.replicate n .goesOn) = c') :
    Leads now beat ⟨.plays c stop, log⟩ ⟨.plays c' stop, log⟩ := by
  induction n generalizing c with
  | zero =>
    rw [← hrun]
    exact .refl _
  | succ n ih =>
    by_cases he : c.errand = .idle
    · rw [Duelist.run_goesOn_idle he] at hrun
      rw [← hrun]
      exact .refl _
    · refine .step ?_
      have hnext : (⟨.plays c stop, log⟩ : Vigil).next (.goesOn now beat) = ⟨.plays c.goOn stop, log⟩ := by
        simp [next, hs c beat he]
      rw [hnext]
      exact ih hrun

/-- The observer leaves. -/
theorem leads_parts (he : c.errand = .idle) (now : Nat) (beat : Observer.Beat) (log : List Report) :
    Leads now beat ⟨.plays (c.next .leaves) .parts, log⟩
      ⟨.plays { c with session := (c.play.leave c.session).2 } (.ended 0), log⟩ := by
  have hrun : (c.next .leaves).run (List.replicate 1 .goesOn) =
      { c with session := (c.play.leave c.session).2 } := Duelist.run_leaves he
  refine (waits_parts.leads now beat log hrun).trans (.step ?_)
  have hnext : (⟨.plays { c with session := (c.play.leave c.session).2 } .parts, log⟩ : Vigil).next
      (.goesOn now beat) = ⟨.plays { c with session := (c.play.leave c.session).2 } (.ended 0), log⟩ := by
    simp [next, play, he]
  rw [hnext]
  exact .refl _

/-- The observer shows its own half, and the frame ends. -/
theorem leads_shows (he : c.errand = .idle) (now : Nat) (beat : Observer.Beat) (log : List Report) :
    let out := c.play.sync c.session
    Leads now beat ⟨.plays (c.next .sync) .shows, log⟩
      ⟨.plays { c with play := out.2.1, session := out.2.2, counts := c.counts ++ [out.1] } .top,
        log⟩ := by
  have hrun := Duelist.run_sync he (Nat.lt_succ_self c.play.pending.length)
  refine (waits_shows.leads now beat log hrun).trans (.step ?_)
  simp only [next, play, he, if_true, List.append_nil]
  exact .refl _

/-- The observer reports its death and draws a piece if the time has come, and shows its own half, unless there is
no line for the report. -/
theorem leads_acts (he : c.errand = .idle) (now : Nat) (beat : Observer.Beat) (log : List Report) :
    let out := if beat.dies then c.play.reportDeath c.session else (.ok (), c.play, c.session)
    (∀ f, out.1 = .error f →
      Leads now beat ⟨.plays c .reports, log⟩
        ⟨.plays { c with session := out.2.2.disconnect } (.ended 1), log⟩) ∧
    (out.1 = .ok () →
      let p := if beat.spawns then { out.2.1 with arena := out.2.1.arena.spawn.2 } else out.2.1
      let shown := p.sync out.2.2
      Leads now beat ⟨.plays c .reports, log⟩
        ⟨.plays { c with play := shown.2.1, session := shown.2.2, counts := c.counts ++ [shown.1] } .top,
          log⟩) := by
  intro out
  have hfirst : (if beat.dies then (c.play.reportDeath c.session).1 else .ok ()) = out.1 := by
    unfold out
    split <;> rfl
  constructor
  · intro f hf
    have hsame : out.2.2 = c.session := by
      unfold out at hf ⊢
      split at hf
      · next hd => rw [if_pos hd, Duelist.reportDeath_of_error hf]
      · cases hf
    refine .step ?_
    rw [hf] at hfirst
    simp only [next, play, hfirst, List.append_nil, hsame]
    exact .refl _
  · intro hok
    rw [hok] at hfirst
    have hreported : (if beat.dies then c.next .reports else c) =
        { c with play := out.2.1, session := out.2.2 } := by
      unfold out
      cases beat.dies with
      | false => rfl
      | true => simp only [Duelist.next, he, if_true]
    refine .step ?_
    simp only [next, play, hfirst, hreported, List.append_nil]
    refine .step ?_
    cases hs : beat.spawns with
    | false =>
      simp only [next, play, hs, Bool.false_eq_true, if_false, List.append_nil]
      exact leads_shows (c := { c with play := out.2.1, session := out.2.2 }) he now beat log
    | true =>
      simp only [next, play, hs, if_true, List.append_nil, Duelist.next, he]
      have hshown := leads_shows (c := { c with
        play := { out.2.1 with arena := out.2.1.arena.spawn.2 }
        session := out.2.2 }) he now beat log
      simp only [Duelist.next, he, if_true] at hshown
      exact hshown

/-- The rest of a frame, once the messages are taken. -/
theorem leads_judges (he : c.errand = .idle) {p : Play} {s : Session} (hc : s.isConnected = true)
    (hp : (p.process s).2 = (c.play, c.session)) (now : Nat) (beat : Observer.Beat) (log : List Report) :
    let out := Observer.frame p s beat
    ∃ w, Leads now beat ⟨.plays c (.drains p.arena.opponent), log⟩ w ∧
      Agrees w ⟨out.2.1, out.2.2, log ++ out.1⟩ := by
  let seen := Observer.changes p.arena.opponent c.play.arena.opponent
  cases hv : c.play.verdict with
  | some v =>
    have hfirst : (⟨.plays c (.drains p.arena.opponent), log⟩ : Vigil).next (.goesOn now beat) =
        ⟨.plays (c.next .leaves) .parts, log ++ (seen ++ verdictReports c.play)⟩ := by
      simp [next, play, he, hv, seen]
    rw [Observer.frame_decided hc hp hv]
    refine ⟨_, .step ?_, .ended { c with session := (c.play.leave c.session).2 } 0 _⟩
    rw [hfirst]
    exact leads_parts he now beat _
  | none =>
    obtain ⟨hfails, hgoes⟩ := leads_acts he now beat (log ++ seen)
    obtain ⟨hfailed, hwent⟩ := Observer.frame_undecided hc hp hv beat
    have hfirst : (⟨.plays c (.drains p.arena.opponent), log⟩ : Vigil).next (.goesOn now beat) =
        ⟨.plays c .reports, log ++ seen⟩ := by
      simp [next, play, he, hv, seen]
    generalize (if beat.dies then c.play.reportDeath c.session else (.ok (), c.play, c.session)) = acted
      at hfails hgoes hfailed hwent
    cases hr : acted.1 with
    | error f =>
      rw [hfailed f hr]
      refine ⟨_, .step ?_, .ended { c with session := acted.2.2.disconnect } 1 _⟩
      rw [hfirst]
      exact hfails f hr
    | ok =>
      let shows := if beat.spawns then { acted.2.1 with arena := acted.2.1.arena.spawn.2 } else acted.2.1
      let shown := shows.sync acted.2.2
      rw [hwent hr]
      refine ⟨_, .step ?_, .plays (c := { c with
        play := shown.2.1, session := shown.2.2, counts := c.counts ++ [shown.1] }) he _⟩
      rw [hfirst]
      exact hgoes hr

/-- A frame during which nothing else happens is a frame as it is run. -/
theorem leads_frame (he : c.errand = .idle) (now : Nat) (beat : Observer.Beat) (log : List Report) :
    let out := Observer.frame c.play c.session beat
    ∃ w, Leads now beat ⟨.plays c .top, log⟩ w ∧ Agrees w ⟨out.2.1, out.2.2, log ++ out.1⟩ := by
  cases hc : c.session.isConnected with
  | false =>
    rw [Observer.frame_unlinked hc]
    dsimp only
    rw [List.append_nil]
    refine ⟨_, .step ?_, .ended { c with session := (c.play.leave c.session).2 } 0 log⟩
    simp only [next, play, hc, Bool.false_eq_true, if_false, List.append_nil]
    exact leads_parts he now beat log
  | true =>
    obtain ⟨heard, hrun⟩ := Duelist.run_process he (Nat.lt_succ_self c.session.inbox.length)
    have hdrained : Leads now beat ⟨.plays (c.next .process) (.drains c.play.arena.opponent), log⟩ _ :=
      (waits_drains c.play.arena.opponent).leads now beat log hrun
    have hfirst : (⟨.plays c .top, log⟩ : Vigil).next (.goesOn now beat) =
        ⟨.plays (c.next .process) (.drains c.play.arena.opponent), log⟩ := by
      simp [next, play, hc]
    rw [← hfirst] at hdrained
    let out := c.play.process c.session
    obtain ⟨w, hleads, hagrees⟩ := leads_judges (c := ⟨out.2.1, out.2.2, .idle, heard, c.counts ++ [out.1]⟩)
      rfl hc rfl now beat log
    exact ⟨w, hdrained.step.trans hleads, hagrees⟩

theorem next_joins {c : Candidate} {now : Nat} {phase : Phase} {seen : List Report}
    (h : join c now = (phase, seen)) (log : List Report) (beat : Observer.Beat) :
    (⟨.joins c, log⟩ : Vigil).next (.goesOn now beat) = ⟨phase, log ++ seen⟩ := by
  simp only [next, h]

theorem leads_looks (c : Candidate) (n now : Nat) (beat : Observer.Beat) :
    Leads now beat ⟨.joins c, []⟩ ⟨.joins (c.run (List.replicate n .looks)), []⟩ := by
  induction n generalizing c with
  | zero => exact .refl _
  | succ n ih =>
    by_cases ht : ∃ t, c.task = .look t
    · obtain ⟨t, ht⟩ := ht
      have hjoin : join c now = (.joins (c.next .looks), []) := by simp only [join, ht]
      refine .step ?_
      rw [next_joins hjoin]
      exact ih (c.next .looks)
    · rw [Candidate.run_looks_other (not_exists.mp ht)]
      exact .refl _

theorem leads_checks {c : Candidate} (ht : ∀ t, c.task ≠ .look t) (now : Nat)
    (beat : Observer.Beat) :
    Leads now beat ⟨.joins c, []⟩ ⟨.joins (c.next .checks), []⟩ := by
  cases htask : c.task with
  | look t => exact absurd htask (ht t)
  | check t =>
    have hjoin : join c now = (.joins (c.next .checks), []) := by simp only [join, htask]
    refine .step ?_
    rw [next_joins hjoin]
    exact .refl _
  | idle =>
    have hnext : c.next .checks = c := by simp only [Candidate.next, htask]
    rw [hnext]
    exact .refl _

theorem join_unfinished {c : Candidate} (ht : c.task = .idle) (hf : c.joining.isFinished = false)
    (now : Nat) : join c now = (.joins (c.next (.begins now)), []) := by
  unfold Joining.isFinished at hf
  unfold join
  rw [ht]
  cases hs : c.joining.status <;> first | rfl | (rw [hs] at hf; cases hf)

/-- A round of joining is a poll, whatever comes of it. -/
theorem leads_round {c : Candidate} (ht : c.task = .idle) (hf : c.joining.isFinished = false)
    (now : Nat) (beat : Observer.Beat) :
    let out := c.joining.poll c.session now
    ∃ heard, Leads now beat ⟨.joins c, []⟩ ⟨.joins ⟨out.1, out.2, .idle, heard⟩, []⟩ := by
  let n := c.session.inbox.length + 1
  have hround : ∃ heard, c.run (Candidate.round now n) = ⟨(c.joining.poll c.session now).1,
      (c.joining.poll c.session now).2, .idle, heard⟩ := Candidate.run_round ht (Nat.lt_succ_self _)
  have hsplit : c.run (Candidate.round now n) =
      ((c.next (.begins now)).run (List.replicate n .looks)).next .checks := by
    rw [← Candidate.run_concat]
    rfl
  have hbegins : c.next (.begins now) = { c with task := .look now } := by
    simp [Candidate.next, ht, hf]
  obtain ⟨heard, hround⟩ := hround
  obtain ⟨heard', hlooks⟩ := Candidate.run_looks (c := { c with task := .look now }) rfl hf
    (Nat.lt_succ_self _)
  have hlooked (t : Nat) :
      ((c.next (.begins now)).run (List.replicate n .looks)).task ≠ .look t := by
    rw [hbegins, hlooks]
    dsimp only
    split <;> simp
  refine ⟨heard, ?_⟩
  rw [← hround, hsplit]
  refine .trans ?_ (leads_checks hlooked now beat)
  refine .step ?_
  rw [next_joins (join_unfinished ht hf now)]
  exact leads_looks _ n now beat

/-- A look at the session during which nothing else happens is a look as it is run. -/
theorem leads_join {c : Candidate} (ht : c.task = .idle) (hf : c.joining.isFinished = false)
    (now : Nat) (beat : Observer.Beat) :
    let out := Observer.join c.joining c.session now
    ∃ w, Leads now beat ⟨.joins c, []⟩ w ∧ Agrees w ⟨out.2.1, out.2.2, out.1⟩ := by
  obtain ⟨heard, hround⟩ := leads_round ht hf now beat
  unfold Observer.join
  dsimp only at hround ⊢
  generalize c.joining.poll c.session now = out at hround ⊢
  obtain ⟨j, s⟩ := out
  dsimp only at hround ⊢
  cases hs : j.status with
  | ready seed id =>
    refine ⟨_, hround.trans (.step (.refl _)), ?_⟩
    simp only [next, join, hs]
    exact .plays (c := .start (.start (Arena.start seed).spawn.2 id) s) rfl _
  | failed f =>
    refine ⟨_, hround.trans (.step (.refl _)), ?_⟩
    simp only [next, join, hs]
    exact .fails _ _
  | awaitAccepted | registering | joining | waitingForOpponent =>
    refine ⟨_, hround, .joins (c := ⟨j, s, .idle, heard⟩) rfl ?_⟩
    rw [Joining.isFinished, hs]
    rfl

/-- A look of an observer is some steps of a vigil, and what happens between two looks is one. -/
theorem Agrees.next {l : Lookout} (h : Agrees w l) (e : Event) : ∃ es, Agrees (w.run es) (l.next e) := by
  cases e with
  | goesOn now beat =>
    cases h with
    | joins ht hf =>
      obtain ⟨w, ⟨k, hk⟩, hagrees⟩ := leads_join ht hf now beat
      exact ⟨_, hk ▸ hagrees⟩
    | plays he log =>
      obtain ⟨w, ⟨k, hk⟩, hagrees⟩ := leads_frame he now beat log
      exact ⟨_, hk ▸ hagrees⟩
    | ended c code log => exact ⟨[], .ended c code log⟩
    | fails s log => exact ⟨[], .fails s log⟩
  | arrives n =>
    refine ⟨[.arrives n], ?_⟩
    cases h with
    | @joins c ht hf => exact .joins (c := c.next (.arrives n)) ht hf
    | @plays c he log => exact .plays (c := c.next (.arrives n)) he log
    | ended c code log => exact .ended (c.next (.arrives n)) code log
    | fails s log => exact .fails (s.hear n) log
  | drops =>
    refine ⟨[.drops], ?_⟩
    cases h with
    | @joins c ht hf => exact .joins (c := c.next .drops) ht hf
    | @plays c he log => exact .plays (c := c.next .drops) he log
    | ended c code log => exact .ended (c.next .drops) code log
    | fails s log => exact .fails s.lineEnds log

theorem Agrees.run {l : Lookout} (h : Agrees w l) (es : List Event) :
    ∃ es', Agrees (w.run es') (l.run es) := by
  induction es generalizing w l with
  | nil => exact ⟨[], h⟩
  | cons e es ih =>
    obtain ⟨first, hfirst⟩ := h.next e
    obtain ⟨rest, hrest⟩ := ih hfirst
    exact ⟨first ++ rest, by rwa [run_append]⟩

/-- Every observer that is run is a vigil. -/
theorem run_agrees (o : Observer.Options) (now : Nat) (s : Session) (es : List Event) :
    ∃ es', Agrees ((start o now s).run es') ((Lookout.start o now s).run es) :=
  Agrees.run (.joins (c := .start responseTimeoutMs o.avatar now s) rfl rfl) es

end Vigil
end BlockDuel.Seat
