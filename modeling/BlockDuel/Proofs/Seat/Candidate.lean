import BlockDuel.Proofs.Seat.Handling
import BlockDuel.Proofs.Seat.Receiving

/-!
A player who joins, step by step. A round of joining takes the messages that wait, one after the other, and
looks for lateness when there is none left; between any two of these steps a notice may arrive and the line
may drop. A round during which nothing of that kind happens is a poll. All messages that are handled are on
record, with the stage in which they were handled and whether the line was up.
-/
namespace BlockDuel.Seat
open Wire

/-- What a player who joins does next. -/
inductive Task
  /-- Nothing, until the next round. -/
  | idle
  | look (now : Nat)
  | check (now : Nat)
  deriving DecidableEq

/-- A message that was handled, in which stage, and whether the line was up. -/
structure Heard where
  message : Message
  stage : JoinStatus
  linked : Bool
  deriving DecidableEq

/-- A player who joins, in the course of a round or between two rounds. -/
structure Candidate where
  joining : Joining
  session : Session
  task : Task
  /-- On record: the messages that were handled. -/
  heard : List Heard
  deriving DecidableEq

namespace Candidate

/-- A step of a round, or something that happens meanwhile. -/
inductive Event
  | begins (now : Nat)
  | looks
  | checks
  | arrives (n : Notice)
  | drops
  deriving DecidableEq

/-- The notice that arrives. -/
def Event.brings : Event → Option Notice
  | arrives n => some n
  | _ => none

def start (patience : Nat) (avatar : UInt32) (now : Nat) (s : Session) : Candidate :=
  ⟨.start patience avatar now, s, .idle, []⟩

/-- Takes the next notice and handles its message, if it is one of the line. With none left, the round comes
to its end. -/
def look (c : Candidate) (now : Nat) : Candidate :=
  match c.session.inbox with
  | [] => { c with task := .check now }
  | n :: rest =>
    let s := { c.session with inbox := rest }
    match s.accept n with
    | none => { c with session := s }
    | some m =>
      let (j, s') := c.joining.handle s m now
      ⟨j, s', if j.isFinished then .idle else .look now,
        c.heard ++ [⟨m, c.joining.status, s.isConnected⟩]⟩

/-- One event. A step that is not the next one of the round does not take place. -/
def next (c : Candidate) : Event → Candidate
  | .begins now =>
    if c.task = .idle ∧ c.joining.isFinished = false then { c with task := .look now } else c
  | .looks =>
    match c.task with
    | .look now => c.look now
    | _ => c
  | .checks =>
    match c.task with
    | .check now => { c with joining := c.joining.check c.session now, task := .idle }
    | _ => c
  | .arrives n => { c with session := c.session.hear n }
  | .drops => { c with session := c.session.lineEnds }

def run (c : Candidate) (es : List Event) : Candidate := es.foldl next c

/-- A whole round, with time for `n` looks. -/
def round (now n : Nat) : List Event := .begins now :: (List.replicate n .looks ++ [.checks])

variable {c : Candidate} {j : Joining} {s : Session} {m : Message} {a : Notice} {rest : List Notice}
  {now n : Nat}

theorem run_append (c : Candidate) (es es' : List Event) :
    c.run (es ++ es') = (c.run es).run es' := List.foldl_append

theorem run_concat (c : Candidate) (es : List Event) (e : Event) :
    c.run (es ++ [e]) = (c.run es).next e := by
  rw [run_append]
  rfl

theorem next_looks (ht : c.task = .look now) : c.next .looks = c.look now := by
  simp only [next, ht]

theorem next_looks_other (ht : ∀ now, c.task ≠ .look now) : c.next .looks = c := by
  unfold next
  dsimp only
  split
  · next now h => exact absurd h (ht now)
  · rfl

theorem look_empty (hi : c.session.inbox = []) : c.look now = { c with task := .check now } := by
  simp only [look, hi]

theorem look_skips (hi : c.session.inbox = a :: rest) (ha : c.session.accept a = none) :
    c.look now = { c with session := { c.session with inbox := rest } } := by
  have ha' : { c.session with inbox := rest }.accept a = none := ha
  simp only [look, hi, ha']

theorem look_takes (hi : c.session.inbox = a :: rest) (ha : c.session.accept a = some m) :
    c.look now =
      let out := c.joining.handle { c.session with inbox := rest } m now
      ⟨out.1, out.2, if out.1.isFinished then .idle else .look now,
        c.heard ++ [⟨m, c.joining.status, c.session.isConnected⟩]⟩ := by
  have ha' : { c.session with inbox := rest }.accept a = some m := ha
  simp only [look, hi, ha']
  rfl

/-- Which messages are handled is told by the list, not by the inbox. -/
theorem handleAll_inbox (now : Nat) (ns inbox : List Notice) (j : Joining) (s : Session) :
    Joining.handleAll now ns j { s with inbox := inbox } = Joining.handleAll now ns j s := by
  induction ns generalizing j s with
  | nil => rfl
  | cons n ns ih =>
    have haccept : { s with inbox := inbox }.accept n = s.accept n := rfl
    unfold Joining.handleAll
    rw [haccept]
    split
    · rfl
    · cases s.accept n with
      | none => exact ih j s
      | some m =>
        dsimp only
        rw [Joining.handle_inbox]
        exact ih _ _

theorem handleAll_finished (hj : j.isFinished = true) (ns : List Notice) :
    Joining.handleAll now ns j s = (j, { s with inbox := ns }) := by
  cases ns with
  | nil => rfl
  | cons n ns => exact if_pos hj

theorem handleAll_skips (hj : j.isFinished = false) (ha : s.accept a = none) :
    Joining.handleAll now (a :: rest) j s = Joining.handleAll now rest j s := by
  simp [Joining.handleAll, hj, ha]

theorem handleAll_takes (hj : j.isFinished = false) (ha : s.accept a = some m) :
    Joining.handleAll now (a :: rest) j s =
      Joining.handleAll now rest (j.handle s m now).1 (j.handle s m now).2 := by
  simp [Joining.handleAll, hj, ha]

theorem run_looks_other (ht : ∀ now, c.task ≠ .look now) (n : Nat) :
    c.run (List.replicate n .looks) = c := by
  induction n with
  | zero => rfl
  | succ n ih =>
    rw [List.replicate_succ]
    change (c.next .looks).run _ = c
    rw [next_looks_other ht, ih]

/-- Looking often enough handles all that is there. -/
theorem run_looks (ht : c.task = .look now) (hj : c.joining.isFinished = false)
    (hn : c.session.inbox.length < n) :
    ∃ heard, c.run (List.replicate n .looks) =
      let out := Joining.handleAll now c.session.inbox c.joining c.session
      ⟨out.1, out.2, if out.1.isFinished then .idle else .check now, heard⟩ := by
  induction n generalizing c with
  | zero => exact absurd hn (Nat.not_lt_zero _)
  | succ n ih =>
    have hfirst : c.run (List.replicate (n + 1) .looks) =
        (c.look now).run (List.replicate n .looks) := by
      rw [List.replicate_succ, ← next_looks ht]
      rfl
    rw [hfirst]
    cases hi : c.session.inbox with
    | nil =>
      have hdone : Joining.handleAll now [] c.joining c.session = (c.joining, c.session) := by
        rw [Joining.handleAll, ← hi]
      refine ⟨c.heard, ?_⟩
      rw [look_empty hi, run_looks_other (by simp), hdone]
      simp [hj]
    | cons a rest =>
      rw [hi, List.length_cons] at hn
      cases ha : c.session.accept a with
      | none =>
        rw [look_skips hi ha, handleAll_skips hj ha, ← handleAll_inbox now rest rest]
        exact ih ht hj (by dsimp only; omega)
      | some m =>
        rw [look_takes hi ha, handleAll_takes hj ha, Joining.handle_inbox]
        dsimp only
        generalize c.joining.handle c.session m now = out
        obtain ⟨j, s⟩ := out
        dsimp only
        cases hj' : j.isFinished with
        | true =>
          rw [handleAll_finished hj', run_looks_other (by simp)]
          dsimp only
          rw [hj']
          exact ⟨_, rfl⟩
        | false =>
          rw [← handleAll_inbox now rest rest]
          exact ih rfl hj' (by dsimp only; omega)

/-- A round in which nothing else happens is a poll. -/
theorem run_round (ht : c.task = .idle) (hn : c.session.inbox.length < n) :
    ∃ heard, c.run (round now n) =
      ⟨(c.joining.poll c.session now).1, (c.joining.poll c.session now).2, .idle, heard⟩ := by
  have hround : c.run (round now n) =
      ((c.next (.begins now)).run (List.replicate n .looks)).next .checks := by
    rw [← run_concat]
    rfl
  rw [hround]
  unfold Joining.poll
  cases hj : c.joining.isFinished with
  | true =>
    have hbegins : c.next (.begins now) = c := by simp [next, hj]
    have hchecks : c.next .checks = c := by simp only [next, ht]
    refine ⟨c.heard, ?_⟩
    rw [hbegins, run_looks_other (by simp [ht]), hchecks, if_pos rfl, ← ht]
  | false =>
    have hbegins : c.next (.begins now) = { c with task := .look now } := by simp [next, hj, ht]
    obtain ⟨heard, hlooks⟩ := run_looks (c := { c with task := .look now }) rfl hj hn
    refine ⟨heard, ?_⟩
    rw [hbegins, hlooks, if_neg Bool.false_ne_true]
    dsimp only
    generalize Joining.handleAll now c.session.inbox c.joining c.session = out
    obtain ⟨j, s⟩ := out
    dsimp only
    cases hj' : j.isFinished with
    | true => rfl
    | false => rfl

/-- Whoever has finished has nothing to do. -/
def Sane (c : Candidate) : Prop := c.joining.isFinished = true → c.task = .idle

/-- What one event does to a player who joins. -/
inductive Moves (c : Candidate) : Event → Candidate → Prop
  /-- The round goes on, and at most a notice that is no message is gone. -/
  | rests {e : Event} (task : Task) (inbox : List Notice) (hb : e.brings = none)
    (hw : c.session.takes inbox = c.session.takes c.session.inbox)
    (hd : c.joining.isFinished = true → task = .idle ∧ inbox = c.session.inbox) :
    Moves c e { c with session := { c.session with inbox := inbox }, task := task }
  | hears {a : Notice} {m : Message} {rest : List Notice} {now : Nat} {j : Joining} {s : Session}
    (hf : c.joining.isFinished = false) (hi : c.session.inbox = a :: rest)
    (ha : c.session.accept a = some m)
    (he : Joining.Effect c.joining { c.session with inbox := rest } m now j s) :
    Moves c .looks ⟨j, s, if j.isFinished then .idle else .look now,
      c.heard ++ [⟨m, c.joining.status, c.session.isConnected⟩]⟩
  | fails (f : JoinFailure) (now : Nat) (hf : c.joining.isFinished = false) :
    Moves c .checks { c with joining := c.joining.advance (.failed f) now, task := .idle }
  | arrives (n : Notice) : Moves c (.arrives n) { c with session := c.session.hear n }
  | drops : Moves c .drops { c with session := c.session.lineEnds }

theorem Sane.unfinished (h : c.Sane) (ht : c.task ≠ .idle) : c.joining.isFinished = false := by
  rw [Bool.eq_false_iff]
  exact fun hf => ht (h hf)

theorem Moves.stays (h : c.Sane) {e : Event} (hb : e.brings = none) : Moves c e c :=
  .rests c.task c.session.inbox hb rfl fun hf => ⟨h hf, rfl⟩

theorem look_moves (h : c.Sane) (ht : c.task = .look now) : Moves c .looks (c.look now) := by
  have hf : c.joining.isFinished = false := h.unfinished (by simp [ht])
  have hnot {P : Prop} : c.joining.isFinished = true → P := fun hf' => nomatch hf.symm.trans hf'
  cases hi : c.session.inbox with
  | nil =>
    rw [look_empty hi]
    exact .rests (.check now) c.session.inbox rfl rfl hnot
  | cons a rest =>
    cases ha : c.session.accept a with
    | none =>
      rw [look_skips hi ha]
      refine .rests c.task rest rfl ?_ hnot
      rw [hi, Session.takes_cons_none ha]
    | some m =>
      rw [look_takes hi ha]
      exact .hears hf hi ha (Joining.handle_effect _ _ _ _)

theorem next_moves (h : c.Sane) (e : Event) : Moves c e (c.next e) := by
  cases e with
  | begins now =>
    unfold next
    dsimp only
    split
    · next hb =>
      exact .rests (.look now) c.session.inbox rfl rfl fun hf => nomatch hb.2.symm.trans hf
    · exact .stays h rfl
  | looks =>
    by_cases ht : ∃ now, c.task = .look now
    · obtain ⟨now, ht⟩ := ht
      rw [next_looks ht]
      exact look_moves h ht
    · rw [next_looks_other (not_exists.mp ht)]
      exact .stays h rfl
  | checks =>
    unfold next
    dsimp only
    split
    · next now ht =>
      have hf : c.joining.isFinished = false := h.unfinished (by simp [ht])
      unfold Joining.check
      split
      · exact .fails .disconnected now hf
      · split
        · exact .fails .timeout now hf
        · exact .rests .idle c.session.inbox rfl rfl fun hf' => nomatch hf.symm.trans hf'
    · exact .stays h rfl
  | arrives n => exact .arrives n
  | drops => exact .drops

variable {c' : Candidate} {e : Event}

theorem Moves.sane (h : Moves c e c') (hc : c.Sane) : c'.Sane := by
  cases h with
  | rests task inbox hb hw hd => exact fun hf => (hd hf).1
  | hears => exact fun hf => if_pos hf
  | fails => exact fun _ => rfl
  | arrives | drops => exact hc

/-- The line may end, but it is never another one. -/
theorem Moves.line (h : Moves c e c') :
    c'.session.line.map Line.id = c.session.line.map Line.id := by
  cases h with
  | hears hf hi ha he => rw [he.line]
  | drops => exact c.session.lineEnds_spec.1
  | rests | fails | arrives => rfl

/-- A message is put on record if it is handled, with the stage in which it is handled. -/
theorem Moves.handles (h : Moves c e c') {k : Heard} (hk : c'.heard = c.heard ++ [k]) :
    c.joining.isFinished = false ∧ k.stage = c.joining.status ∧
      ∃ rest now, Joining.Effect c.joining { c.session with inbox := rest } k.message now
        c'.joining c'.session := by
  have hnot : c.heard ≠ c.heard ++ [k] := by simp
  cases h with
  | rests | fails | arrives | drops => exact absurd hk hnot
  | hears hf hi ha he =>
    cases List.append_cancel_left hk
    exact ⟨hf, rfl, _, _, he⟩

/-- A message is handled only off the front of what waits, and what arrives waits behind. -/
theorem Moves.conserves (h : Moves c e c') :
    c'.heard.map (·.message) ++ c'.session.takes c'.session.inbox =
      c.heard.map (·.message) ++ c.session.takes c.session.inbox ++
        c.session.takes e.brings.toList := by
  have hid := Session.takes_of_id h.line
  rw [hid]
  cases h with
  | rests task inbox hb hw hd =>
    rw [hb, ← hw]
    exact (List.append_nil _).symm
  | @hears a m rest now j s hf hi ha he =>
    rw [he.inbox, hi, Session.takes_cons_some ha]
    simp [Event.brings, Session.takes]
  | fails => exact (List.append_nil _).symm
  | arrives n =>
    rw [List.append_assoc]
    exact congrArg _ (Session.takes_append c.session c.session.inbox [n])
  | drops =>
    have hends : c.session.takes c.session.lineEnds.inbox = c.session.takes c.session.inbox :=
      (congrFun hid _).symm.trans c.session.lineEnds_spec.2.2.2
    dsimp only
    rw [hends]
    exact (List.append_nil _).symm

/-- Whoever has finished takes nothing from the inbox and says nothing. -/
theorem Moves.settled (h : Moves c e c') (hf : c.joining.isFinished = true) :
    c'.joining = c.joining ∧ c'.heard = c.heard ∧ c'.session.outgoing = c.session.outgoing ∧
      c.session.inbox <+: c'.session.inbox := by
  cases h with
  | rests task inbox hb hw hd =>
    obtain ⟨-, rfl⟩ := hd hf
    exact ⟨rfl, rfl, rfl, List.prefix_rfl⟩
  | hears hf' => exact nomatch hf'.symm.trans hf
  | fails f now hf' => exact nomatch hf'.symm.trans hf
  | arrives n => exact ⟨rfl, rfl, rfl, List.prefix_append _ _⟩
  | drops =>
    refine ⟨rfl, rfl, c.session.lineEnds_spec.2.2.1, ?_⟩
    change c.session.inbox <+: c.session.lineEnds.inbox
    unfold Session.lineEnds
    split
    · exact List.prefix_append _ _
    · exact List.prefix_rfl

variable {es : List Event}

theorem start_sane (patience : Nat) (avatar : UInt32) (now : Nat) (s : Session) :
    (start patience avatar now s).Sane := fun _ => rfl

/-- What every event keeps, a run keeps. -/
theorem run_induction {P : Candidate → Prop} (hc : c.Sane) (h : P c)
    (hstep : ∀ {c e c'}, P c → Moves c e c' → P c') (es : List Event) :
    (c.run es).Sane ∧ P (c.run es) := by
  induction es generalizing c with
  | nil => exact ⟨hc, h⟩
  | cons e es ih =>
    have hmoves := next_moves hc e
    exact ih (hmoves.sane hc) (hstep h hmoves)

theorem Sane.run (hc : c.Sane) (es : List Event) : (c.run es).Sane :=
  (run_induction (P := fun _ => True) hc trivial (fun _ _ => trivial) es).1

/-- What the line has said is what was handled and what waits. -/
theorem Sane.run_conserves (hc : c.Sane) (es : List Event) :
    (c.run es).session.takes = c.session.takes ∧
      (c.run es).heard.map (·.message) ++ (c.run es).session.takes (c.run es).session.inbox =
        c.heard.map (·.message) ++ c.session.takes (c.session.inbox ++ es.filterMap Event.brings) := by
  induction es generalizing c with
  | nil => exact ⟨rfl, by rw [List.filterMap_nil, List.append_nil]; rfl⟩
  | cons e es ih =>
    have hmoves := next_moves hc e
    have hid := Session.takes_of_id hmoves.line
    obtain ⟨htakes, hall⟩ := ih (hmoves.sane hc)
    refine ⟨htakes.trans hid, hall.trans ?_⟩
    have hbrings : (e :: es).filterMap Event.brings =
        e.brings.toList ++ es.filterMap Event.brings := by
      cases hb : e.brings with
      | none => exact List.filterMap_cons_none hb
      | some n => exact List.filterMap_cons_some hb
    rw [Session.takes_append, ← List.append_assoc, hmoves.conserves, hid, hbrings]
    simp only [Session.takes_append, List.append_assoc]

theorem Sane.run_settled (hc : c.Sane) (hf : c.joining.isFinished = true) (es : List Event) :
    (c.run es).joining = c.joining ∧ (c.run es).heard = c.heard ∧
      (c.run es).session.outgoing = c.session.outgoing ∧
      c.session.inbox <+: (c.run es).session.inbox := by
  refine (run_induction (P := fun c' => c'.joining = c.joining ∧ c'.heard = c.heard ∧
    c'.session.outgoing = c.session.outgoing ∧ c.session.inbox <+: c'.session.inbox) hc
    ⟨rfl, rfl, rfl, List.prefix_rfl⟩ ?_ es).2
  rintro c₁ e c₂ ⟨hj, hh, ho, hi⟩ hmoves
  obtain ⟨hj', hh', ho', hi'⟩ := hmoves.settled (by rw [hj]; exact hf)
  exact ⟨hj'.trans hj, hh'.trans hh, ho'.trans ho, hi.trans hi'⟩

end Candidate
end BlockDuel.Seat
