import BlockDuel.Proofs.Seat.Candidate
import BlockDuel.Proofs.Seat.Duelist
import BlockDuel.Seat.Observer

/-!
An observer, step by step. It joins like any player, and then plays frame by frame: it looks at the line, takes
the messages that wait, keeps a log of what they changed, reports its death and draws a piece when the time has
come, and shows its own half. Between any two of these steps a notice may arrive and the line may drop. A look
or a frame during which nothing of that kind happens is one of `Observer.join` or `Observer.frame`.
-/
namespace BlockDuel.Seat
open Wire

/-- Where an observer stands in a frame of play. -/
inductive Stop
  /-- Before the line is looked at. -/
  | top
  /-- The messages are taken; `before` is the opponent's half before the first of them. -/
  | drains (before : Half)
  | reports
  | spawns
  | shows
  | parts
  /-- The log is complete; the number is the exit code. -/
  | ended (code : Nat)
  deriving DecidableEq

/-- What an observer is about. -/
inductive Phase
  | joins (c : Candidate)
  | fails (s : Session)
  | plays (c : Duelist) (stop : Stop)
  deriving DecidableEq

/-- An observer at work, with its log. -/
structure Vigil where
  phase : Phase
  log : List Report
  deriving DecidableEq

namespace Vigil

/-- The observer goes on, at a time and in a frame for which it is known what is due; or something happens
meanwhile. -/
inductive Event
  | goesOn (now : Nat) (beat : Observer.Beat)
  | arrives (n : Notice)
  | drops
  deriving DecidableEq

/-- The event is a step of the observer's own. -/
def Event.isStep : Event → Bool
  | goesOn _ _ => true
  | _ => false

def start (o : Observer.Options) (now : Nat) (s : Session) : Vigil :=
  ⟨.joins (.start responseTimeoutMs o.avatar now s), []⟩

/-- The next step of an observer who joins. Between two rounds it looks how far it has come. -/
def join (c : Candidate) (now : Nat) : Phase × List Report :=
  match c.task with
  | .look _ => (.joins (c.next .looks), [])
  | .check _ => (.joins (c.next .checks), [])
  | .idle =>
    match c.joining.status with
    | .ready seed id =>
      (.plays (.start (.start (Arena.start seed).spawn.2 id) c.session) .top,
        [.ready id seed c.joining.roster])
    | .failed f => (.fails c.session.disconnect, [.failed f.message])
    | _ => (.joins (c.next (.begins now)), [])

/-- The verdict as it is logged. -/
def verdictReports (p : Play) : List Report :=
  match p.verdict with
  | some v => [.gameOver v (!p.arena.isOver .here)]
  | none => []

/-- The next step of an observer in a match. -/
def play (c : Duelist) (beat : Observer.Beat) : Stop → Duelist × Stop × List Report
  | .top =>
    if c.session.isConnected then (c.next .process, .drains c.play.arena.opponent, [])
    else (c.next .leaves, .parts, [])
  | .drains before =>
    if c.errand = .idle then
      let seen := Observer.changes before c.play.arena.opponent
      if c.play.verdict.isSome then (c.next .leaves, .parts, seen ++ verdictReports c.play)
      else (c, .reports, seen)
    else (c.goOn, .drains before, [])
  | .reports =>
    match (if beat.dies then (c.play.reportDeath c.session).1 else .ok ()) with
    | .ok () => (if beat.dies then c.next .reports else c, .spawns, [])
    | .error _ => ({ c with session := c.session.disconnect }, .ended 1, [])
  | .spawns =>
    let c := if beat.spawns then c.next (.turns c.play.arena.spawn.2) else c
    (c.next .sync, .shows, [])
  | .shows => if c.errand = .idle then (c, .top, []) else (c.goOn, .shows, [])
  | .parts => if c.errand = .idle then (c, .ended 0, []) else (c.goOn, .parts, [])
  | .ended code => (c, .ended code, [])

def next (w : Vigil) : Event → Vigil
  | .goesOn now beat =>
    match w.phase with
    | .joins c =>
      let (phase, seen) := join c now
      ⟨phase, w.log ++ seen⟩
    | .fails _ => w
    | .plays c stop =>
      let (c, stop, seen) := play c beat stop
      ⟨.plays c stop, w.log ++ seen⟩
  | .arrives n =>
    match w.phase with
    | .joins c => { w with phase := .joins (c.next (.arrives n)) }
    | .fails s => { w with phase := .fails (s.hear n) }
    | .plays c stop => { w with phase := .plays (c.next (.arrives n)) stop }
  | .drops =>
    match w.phase with
    | .joins c => { w with phase := .joins (c.next .drops) }
    | .fails s => { w with phase := .fails s.lineEnds }
    | .plays c stop => { w with phase := .plays (c.next .drops) stop }

def run (w : Vigil) (es : List Event) : Vigil := es.foldl next w

variable {w w' w'' : Vigil} {c : Duelist} {stop : Stop} {log : List Report} {now : Nat}
  {beat : Observer.Beat}

theorem run_append (w : Vigil) (es es' : List Event) : w.run (es ++ es') = (w.run es).run es' :=
  List.foldl_append

theorem run_concat (w : Vigil) (es : List Event) (e : Event) : w.run (es ++ [e]) = (w.run es).next e := by
  rw [run_append]
  rfl

theorem verdictReports_some {p : Play} {v : Verdict} (hv : p.verdict = some v) :
    verdictReports p = [.gameOver v (!p.arena.isOver .here)] := by
  simp only [verdictReports, hv]

/-- What a step of an observer in a match does, with what it logs. -/
inductive Steps (c : Duelist) : Stop → Duelist → Stop → List Report → Prop
  | opens (hc : c.session.isConnected = true) :
    Steps c .top (c.next .process) (.drains c.play.arena.opponent) []
  | closes (hc : c.session.isConnected = false) : Steps c .top (c.next .leaves) .parts []
  | takes (before : Half) (he : c.errand ≠ .idle) : Steps c (.drains before) c.goOn (.drains before) []
  | judges (before : Half) (he : c.errand = .idle) {v : Verdict} (hv : c.play.verdict = some v) :
    Steps c (.drains before) (c.next .leaves) .parts
      (Observer.changes before c.play.arena.opponent ++ verdictReports c.play)
  | compares (before : Half) (he : c.errand = .idle) (hv : c.play.verdict = none) :
    Steps c (.drains before) c .reports (Observer.changes before c.play.arena.opponent)
  | reports : Steps c .reports (c.next .reports) .spawns []
  | lives : Steps c .reports c .spawns []
  | fails {f : Link.Fault} (hf : (c.play.reportDeath c.session).1 = .error f) :
    Steps c .reports { c with session := c.session.disconnect } (.ended 1) []
  | spawns : Steps c .spawns ((c.next (.turns c.play.arena.spawn.2)).next .sync) .shows []
  | keeps : Steps c .spawns (c.next .sync) .shows []
  | shows (he : c.errand ≠ .idle) : Steps c .shows c.goOn .shows []
  | showed (he : c.errand = .idle) : Steps c .shows c .top []
  | parts (he : c.errand ≠ .idle) : Steps c .parts c.goOn .parts []
  | parted (he : c.errand = .idle) : Steps c .parts c (.ended 0) []
  | ended (code : Nat) : Steps c (.ended code) c (.ended code) []

theorem play_steps (c : Duelist) (beat : Observer.Beat) (stop : Stop) :
    Steps c stop (play c beat stop).1 (play c beat stop).2.1 (play c beat stop).2.2 := by
  cases stop with
  | top =>
    dsimp only [play]
    split
    · next hc => exact .opens hc
    · next hc => exact .closes (Bool.eq_false_iff.mpr hc)
  | drains before =>
    dsimp only [play]
    split
    · next he =>
      split
      · next hv =>
        obtain ⟨v, hv⟩ := Option.isSome_iff_exists.mp hv
        exact .judges before he hv
      · next hv => exact .compares before he (by simpa using hv)
    · next he => exact .takes before he
  | reports =>
    dsimp only [play]
    cases beat.dies with
    | false => exact .lives
    | true =>
      cases hf : (c.play.reportDeath c.session).1 with
      | ok => exact .reports
      | error f => exact .fails hf
  | spawns =>
    dsimp only [play]
    split
    · exact .spawns
    · exact .keeps
  | shows =>
    dsimp only [play]
    split
    · next he => exact .showed he
    · next he => exact .shows he
  | parts =>
    dsimp only [play]
    split
    · next he => exact .parted he
    · next he => exact .parts he
  | ended code => exact .ended code

/-- What an observer is busy with, by where it stands. -/
def fits : Stop → Errand → Bool
  | .drains _, .takes _ | .shows, .shows _ _ | .parts, .parts => true
  | _, .idle => true
  | _, _ => false

variable {c' : Duelist} {stop' : Stop} {seen : List Report}

theorem fits_idle (stop : Stop) : fits stop .idle = true := by
  cases stop <;> rfl

/-- Messages are taken only where the observer drains its inbox. -/
theorem drains_of_takes {n : Nat} (h : fits stop (.takes n) = true) : ∃ before, stop = .drains before := by
  cases stop with
  | drains before => exact ⟨before, rfl⟩
  | _ => cases h

/-- Between two calls the observer is busy with nothing. -/
theorem idle_of_fits (h : fits stop c.errand = true)
    (hs : stop = .top ∨ stop = .reports ∨ stop = .spawns) : c.errand = .idle := by
  obtain rfl | rfl | rfl := hs <;> cases he : c.errand <;> simp_all [fits]

theorem fits_goOn (h : fits stop c.errand = true) : fits stop c.goOn.errand = true := by
  have hm := c.goOn_moves
  generalize c.goOn = d at hm ⊢
  generalize hgoes : Duelist.Event.goesOn = e at hm
  cases hm with
  | took | showed | parts => exact fits_idle stop
  | hears he | shows he =>
    rw [he] at h
    cases stop <;> first | rfl | cases h
  | _ => first | exact h | cases hgoes

theorem Steps.fits (hs : Steps c stop c' stop' seen) (h : Vigil.fits stop c.errand = true) :
    Vigil.fits stop' c'.errand = true := by
  have hsync {d : Duelist} (hd : d.errand = .idle) : Vigil.fits .shows (d.next .sync).errand = true := by
    simp only [Duelist.next, hd, if_true]
    split <;> rfl
  cases hs with
  | opens =>
    have he := idle_of_fits h (.inl rfl)
    simp only [Duelist.next, he, if_true]
    rfl
  | closes =>
    have he := idle_of_fits h (.inl rfl)
    simp only [Duelist.next, he, if_true]
    rfl
  | judges _ he =>
    simp only [Duelist.next, he, if_true]
    rfl
  | reports =>
    have he := idle_of_fits h (.inr (.inl rfl))
    simp only [Duelist.next, he, if_true]
    rfl
  | spawns =>
    have he := idle_of_fits h (.inr (.inr rfl))
    refine hsync ?_
    simp only [Duelist.next, he, if_true]
  | keeps => exact hsync (idle_of_fits h (.inr (.inr rfl)))
  | takes | shows | parts => exact fits_goOn h
  | compares _ he | showed he | parted he =>
    rw [he]
    exact fits_idle _
  | lives | fails =>
    have he := idle_of_fits h (.inr (.inl rfl))
    simp only [he]
    rfl
  | ended => exact h

end Vigil
end BlockDuel.Seat
