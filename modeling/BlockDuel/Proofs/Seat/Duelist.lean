import BlockDuel.Proofs.Seat.Play
import BlockDuel.Proofs.Seat.Receiving

/-!
A player in a match, step by step. To take the messages that wait, to show what has changed and to leave are
made of steps, one for each message and one to end with; between any two of these steps a notice may arrive and
the line may drop. When nothing of that kind happens, the steps come to what `Play` says. All messages that are
taken are on record, with whether the line was up, and so are the numbers that were answered.
-/
namespace BlockDuel.Seat
open Wire

/-- What a player in a match is busy with. -/
inductive Errand
  | idle
  /-- Takes the messages that wait, and has taken some. -/
  | takes (taken : Nat)
  /-- Shows `count` changes, of which the rest is to be handed over yet. -/
  | shows (count : Nat) (rest : List Message)
  /-- Has said goodbye, and gives up the line next. -/
  | parts
  deriving DecidableEq

/-- A message that was taken, and whether the line was up. -/
structure Taken where
  message : Message
  linked : Bool
  deriving DecidableEq

/-- A player in a match, in the course of a call or between two calls. -/
structure Duelist where
  play : Play
  session : Session
  errand : Errand
  /-- On record: the messages that were taken. -/
  heard : List Taken
  /-- On record: how many messages were taken or shown, call by call. -/
  counts : List Nat
  deriving DecidableEq

/-- The message as it is handed over: not at all if the line is down. -/
def Session.passes (s : Session) (m : Message) : List Message := if s.isConnected then [m] else []

/-- What is said to a message that is taken. -/
def Taken.answer (t : Taken) : List Message :=
  if t.message.kind = .serverPing ∧ t.linked = true then [.clientPong] else []

namespace Duelist

/-- A call of the player, a step of a call, or something that happens meanwhile. -/
inductive Event
  /-- The player's own game goes on, by whatever moves. -/
  | turns (a : Arena)
  | process
  | sync
  | reports
  | leaves
  | goesOn
  | arrives (n : Notice)
  | drops
  deriving DecidableEq

namespace Event

/-- The player makes a call, or a move of its own game. -/
def isCall : Event → Bool
  | goesOn | arrives _ | drops => false
  | _ => true

/-- The player's own game goes on. -/
def isTurn : Event → Bool
  | turns _ => true
  | _ => false

/-- The notice that arrives. -/
def brings : Event → Option Notice
  | arrives n => some n
  | _ => none

end Event

def start (p : Play) (s : Session) : Duelist := ⟨p, s, .idle, [], []⟩

/-- Takes the next notice and what it says, if it is a message of the line. -/
def take (c : Duelist) (taken : Nat) : Duelist :=
  match c.session.inbox with
  | [] => { c with errand := .idle, counts := c.counts ++ [taken] }
  | n :: rest =>
    let s := { c.session with inbox := rest }
    match s.accept n with
    | none => { c with session := s }
    | some m =>
      let (p, s') := c.play.apply s m
      { c with
        play := p
        session := s'
        errand := .takes (taken + 1)
        heard := c.heard ++ [⟨m, s.isConnected⟩] }

/-- The next step of what the player is busy with. -/
def goOn (c : Duelist) : Duelist :=
  match c.errand with
  | .idle => c
  | .takes taken => c.take taken
  | .shows count [] =>
    { c with
      play := { c.play with arena := c.play.arena.clearChanges }
      errand := .idle
      counts := c.counts ++ [count] }
  | .shows count (m :: rest) =>
    { c with session := (c.session.send m).2, errand := .shows count rest }
  | .parts => { c with session := c.session.shutdown.2, errand := .idle }

/-- One event. A call that is made in the course of another one does not take place. -/
def next (c : Duelist) : Event → Duelist
  | .turns a =>
    if c.errand = .idle then { c with play := { c.play with arena := a } } else c
  | .process => if c.errand = .idle then { c with errand := .takes 0 } else c
  | .sync =>
    if c.errand = .idle then
      if c.session.isConnected then { c with errand := .shows c.play.pending.length c.play.pending }
      else { c with counts := c.counts ++ [0] }
    else c
  | .reports =>
    if c.errand = .idle then
      let (_, p, s) := c.play.reportDeath c.session
      { c with play := p, session := s }
    else c
  | .leaves =>
    if c.errand = .idle then
      { c with session := (c.session.send (.unregister c.play.playerId)).2, errand := .parts }
    else c
  | .goesOn => c.goOn
  | .arrives n => { c with session := c.session.hear n }
  | .drops => { c with session := c.session.lineEnds }

def run (c : Duelist) (es : List Event) : Duelist := es.foldl next c

variable {c c' : Duelist} {p : Play} {s : Session} {m : Message} {a : Notice} {rest : List Notice}
  {e : Event} {es : List Event} {taken count : Nat}

theorem run_append (c : Duelist) (es es' : List Event) : c.run (es ++ es') = (c.run es).run es' :=
  List.foldl_append

theorem run_concat (c : Duelist) (es : List Event) (e : Event) :
    c.run (es ++ [e]) = (c.run es).next e := by
  rw [run_append]
  rfl

theorem send_passes (s : Session) (m : Message) :
    (s.send m).2 = { s with outgoing := s.outgoing ++ s.passes m } := by
  unfold Session.send Session.passes
  split <;> simp

/-- A message goes into the match, and a ping is answered if the line is up. -/
theorem apply_eq (p : Play) (s : Session) (m : Message) :
    p.apply s m =
      (p.receive m, { s with outgoing := s.outgoing ++ Taken.answer ⟨m, s.isConnected⟩ }) := by
  unfold Play.apply Taken.answer
  by_cases hk : m.kind = .serverPing
  · have hreceive : p.receive m = p := by
      unfold Play.receive
      rw [hk]
    rw [if_pos hk, send_passes, hreceive]
    simp [hk, Session.passes]
  · simp [hk]

theorem reportDeath_eq (p : Play) (s : Session) :
    p.reportDeath s =
      if p.deathReported then (.ok (), p, s)
      else if s.isConnected then
        (.ok (), { p with deathReported := true },
          { s with outgoing := s.outgoing ++ [.playerDead p.playerId] })
      else (.error .notConnected, p, s) := by
  unfold Play.reportDeath Session.send
  cases p.deathReported <;> cases s.isConnected <;> rfl

/-- A report that fails leaves the player and the session as they were. -/
theorem reportDeath_of_error {p : Play} {s : Session} {f : Link.Fault}
    (hf : (p.reportDeath s).1 = .error f) : (p.reportDeath s).2 = (p, s) := by
  rw [reportDeath_eq] at hf ⊢
  cases hd : p.deathReported with
  | true => simp [hd] at hf
  | false =>
    cases hc : s.isConnected with
    | true => simp [hd, hc] at hf
    | false => rfl

theorem take_empty (hi : c.session.inbox = []) :
    c.take taken = { c with errand := .idle, counts := c.counts ++ [taken] } := by
  simp only [take, hi]

theorem take_skips (hi : c.session.inbox = a :: rest) (ha : c.session.accept a = none) :
    c.take taken = { c with session := { c.session with inbox := rest } } := by
  have ha' : { c.session with inbox := rest }.accept a = none := ha
  simp only [take, hi, ha']

theorem take_takes (hi : c.session.inbox = a :: rest) (ha : c.session.accept a = some m) :
    c.take taken =
      { c with
        play := c.play.receive m
        session := { c.session with
          inbox := rest
          outgoing := c.session.outgoing ++ Taken.answer ⟨m, c.session.isConnected⟩ }
        errand := .takes (taken + 1)
        heard := c.heard ++ [⟨m, c.session.isConnected⟩] } := by
  have ha' : { c.session with inbox := rest }.accept a = some m := ha
  simp only [take, hi, ha', apply_eq]
  rfl

theorem processAll_skips (ha : s.accept a = none) :
    Play.processAll (a :: rest) p s = Play.processAll rest p s := by
  simp [Play.processAll, ha]

theorem processAll_takes (ha : s.accept a = some m) :
    Play.processAll (a :: rest) p s =
      let out := Play.processAll rest (p.receive m)
        { s with outgoing := s.outgoing ++ Taken.answer ⟨m, s.isConnected⟩ }
      (out.1 + 1, out.2) := by
  simp only [Play.processAll, ha, apply_eq]

/-- Which messages are taken is told by the list, not by the inbox. -/
theorem processAll_inbox (ns inbox : List Notice) (p : Play) (s : Session) :
    Play.processAll ns p { s with inbox := inbox } = Play.processAll ns p s := by
  induction ns generalizing p s with
  | nil => rfl
  | cons n ns ih =>
    cases ha : s.accept n with
    | none =>
      have ha' : { s with inbox := inbox }.accept n = none := ha
      rw [processAll_skips ha, processAll_skips ha', ih]
    | some m =>
      have ha' : { s with inbox := inbox }.accept n = some m := ha
      have hrest := ih (p.receive m)
        { s with outgoing := s.outgoing ++ Taken.answer ⟨m, s.isConnected⟩ }
      rw [processAll_takes ha, processAll_takes ha', ← hrest]
      rfl

theorem goOn_idle (he : c.errand = .idle) : c.goOn = c := by
  simp only [goOn, he]

theorem run_goesOn_idle (he : c.errand = .idle) (n : Nat) :
    c.run (List.replicate n .goesOn) = c := by
  induction n with
  | zero => rfl
  | succ n ih =>
    rw [List.replicate_succ]
    change c.goOn.run _ = c
    rw [goOn_idle he, ih]

theorem run_takes (he : c.errand = .takes taken) {n : Nat} (hn : c.session.inbox.length < n) :
    ∃ heard, c.run (List.replicate n .goesOn) =
      let out := Play.processAll c.session.inbox c.play c.session
      ⟨out.2.1, out.2.2, .idle, heard, c.counts ++ [taken + out.1]⟩ := by
  induction n generalizing c taken with
  | zero => exact absurd hn (Nat.not_lt_zero _)
  | succ n ih =>
    have hfirst : c.run (List.replicate (n + 1) .goesOn) =
        (c.take taken).run (List.replicate n .goesOn) := by
      rw [List.replicate_succ]
      change c.goOn.run _ = _
      simp only [goOn, he]
    rw [hfirst]
    cases hi : c.session.inbox with
    | nil =>
      have hdone : Play.processAll [] c.play c.session = (0, c.play, c.session) := by
        rw [Play.processAll, ← hi]
      refine ⟨c.heard, ?_⟩
      rw [take_empty hi, run_goesOn_idle rfl, hdone]
      rfl
    | cons a rest =>
      rw [hi, List.length_cons] at hn
      cases ha : c.session.accept a with
      | none =>
        rw [take_skips hi ha, processAll_skips ha, ← processAll_inbox rest rest]
        exact ih he (by dsimp only; omega)
      | some m =>
        rw [take_takes hi ha, processAll_takes ha, ← processAll_inbox rest rest]
        obtain ⟨heard, hrun⟩ := ih (c := { c with
          play := c.play.receive m
          session := { c.session with
            inbox := rest
            outgoing := c.session.outgoing ++ Taken.answer ⟨m, c.session.isConnected⟩ }
          errand := .takes (taken + 1)
          heard := c.heard ++ [⟨m, c.session.isConnected⟩] }) rfl (by dsimp only; omega)
        refine ⟨heard, ?_⟩
        rw [hrun]
        dsimp only
        rw [Nat.add_assoc, Nat.add_comm 1]

theorem next_process (he : c.errand = .idle) : c.next .process = { c with errand := .takes 0 } := if_pos he

/-- To take what waits, if nothing else happens meanwhile. -/
theorem run_process (he : c.errand = .idle) {n : Nat} (hn : c.session.inbox.length < n) :
    ∃ heard, c.run (.process :: List.replicate n .goesOn) =
      let out := c.play.process c.session
      ⟨out.2.1, out.2.2, .idle, heard, c.counts ++ [out.1]⟩ := by
  obtain ⟨heard, hrun⟩ := run_takes (c := { c with errand := .takes 0 }) rfl hn
  refine ⟨heard, ?_⟩
  change (c.next .process).run _ = _
  rw [next_process he, hrun]
  simp [Play.process]

theorem run_shows {ms : List Message} (he : c.errand = .shows count ms) {n : Nat}
    (hn : ms.length < n) :
    c.run (List.replicate n .goesOn) =
      { c with
        play := { c.play with arena := c.play.arena.clearChanges }
        session := ms.foldl (fun s m => (s.send m).2) c.session
        errand := .idle
        counts := c.counts ++ [count] } := by
  induction n generalizing c ms with
  | zero => exact absurd hn (Nat.not_lt_zero _)
  | succ n ih =>
    rw [List.replicate_succ]
    change c.goOn.run _ = _
    cases ms with
    | nil =>
      simp only [goOn, he]
      rw [run_goesOn_idle rfl]
      rfl
    | cons m ms =>
      simp only [goOn, he]
      rw [ih rfl (by simpa using hn)]
      rfl

/-- To show what has changed, if nothing else happens meanwhile. -/
theorem run_sync (he : c.errand = .idle) {n : Nat} (hn : c.play.pending.length < n) :
    c.run (.sync :: List.replicate n .goesOn) =
      let out := c.play.sync c.session
      { c with play := out.2.1, session := out.2.2, counts := c.counts ++ [out.1] } := by
  change (c.next .sync).run _ = _
  unfold Play.sync
  cases hc : c.session.isConnected with
  | true =>
    have hbegins : c.next .sync =
        { c with errand := .shows c.play.pending.length c.play.pending } := by
      simp [next, he, hc]
    rw [hbegins, run_shows rfl hn, if_pos rfl]
    simp [he]
  | false =>
    have hbegins : c.next .sync = { c with counts := c.counts ++ [0] } := by
      simp [next, he, hc]
    have hidle : { c with counts := c.counts ++ [0] }.errand = .idle := he
    rw [hbegins, run_goesOn_idle hidle]
    rfl

/-- To leave, if nothing else happens meanwhile. -/
theorem run_leaves (he : c.errand = .idle) :
    c.run [.leaves, .goesOn] = { c with session := (c.play.leave c.session).2 } := by
  have hbegins : c.next .leaves =
      { c with session := (c.session.send (.unregister c.play.playerId)).2, errand := .parts } :=
    if_pos he
  change (c.next .leaves).goOn = _
  rw [hbegins]
  simp [goOn, Play.leave, he]

/-- What one event does to a player in a match. -/
inductive Moves (c : Duelist) : Event → Duelist → Prop
  /-- A call that cannot take place now, or has nothing to do. -/
  | stays {e : Event} (hb : e.brings = none) (hi : e = .goesOn → c.errand = .idle) : Moves c e c
  | turns (a : Arena) (he : c.errand = .idle) :
    Moves c (.turns a) { c with play := { c.play with arena := a } }
  | begins (he : c.errand = .idle) : Moves c .process { c with errand := .takes 0 }
  | skips {taken : Nat} {a : Notice} {rest : List Notice} (he : c.errand = .takes taken)
    (hi : c.session.inbox = a :: rest) (ha : c.session.accept a = none) :
    Moves c .goesOn { c with session := { c.session with inbox := rest } }
  | hears {taken : Nat} {a : Notice} {m : Message} {rest : List Notice}
    (he : c.errand = .takes taken) (hi : c.session.inbox = a :: rest)
    (ha : c.session.accept a = some m) :
    Moves c .goesOn
      { c with
        play := c.play.receive m
        session := { c.session with
          inbox := rest
          outgoing := c.session.outgoing ++ Taken.answer ⟨m, c.session.isConnected⟩ }
        errand := .takes (taken + 1)
        heard := c.heard ++ [⟨m, c.session.isConnected⟩] }
  | took {taken : Nat} (he : c.errand = .takes taken) (hi : c.session.inbox = []) :
    Moves c .goesOn { c with errand := .idle, counts := c.counts ++ [taken] }
  | hides (he : c.errand = .idle) (hc : c.session.isConnected = false) :
    Moves c .sync { c with counts := c.counts ++ [0] }
  | opens (he : c.errand = .idle) (hc : c.session.isConnected = true) :
    Moves c .sync { c with errand := .shows c.play.pending.length c.play.pending }
  | shows {count : Nat} {m : Message} {rest : List Message}
    (he : c.errand = .shows count (m :: rest)) :
    Moves c .goesOn
      { c with
        session := { c.session with outgoing := c.session.outgoing ++ c.session.passes m }
        errand := .shows count rest }
  | showed {count : Nat} (he : c.errand = .shows count []) :
    Moves c .goesOn
      { c with
        play := { c.play with arena := c.play.arena.clearChanges }
        errand := .idle
        counts := c.counts ++ [count] }
  | reports (he : c.errand = .idle) (hd : c.play.deathReported = false)
    (hc : c.session.isConnected = true) :
    Moves c .reports
      { c with
        play := { c.play with deathReported := true }
        session := { c.session with
          outgoing := c.session.outgoing ++ [.playerDead c.play.playerId] } }
  | bids (he : c.errand = .idle) :
    Moves c .leaves
      { c with
        session := { c.session with
          outgoing := c.session.outgoing ++ c.session.passes (.unregister c.play.playerId) }
        errand := .parts }
  | parts (he : c.errand = .parts) :
    Moves c .goesOn { c with session := c.session.disconnect, errand := .idle }
  | arrives (n : Notice) : Moves c (.arrives n) { c with session := c.session.hear n }
  | drops : Moves c .drops { c with session := c.session.lineEnds }

theorem goOn_moves (c : Duelist) : Moves c .goesOn c.goOn := by
  unfold goOn
  split
  · next he => exact .stays rfl fun _ => he
  · next taken he =>
    cases hi : c.session.inbox with
    | nil =>
      rw [take_empty hi]
      exact .took he hi
    | cons a rest =>
      cases ha : c.session.accept a with
      | none =>
        rw [take_skips hi ha]
        exact .skips he hi ha
      | some m =>
        rw [take_takes hi ha]
        exact .hears he hi ha
  · next he => exact .showed he
  · next he =>
    rw [send_passes]
    exact .shows he
  · next he => exact .parts he

theorem next_moves (c : Duelist) (e : Event) : Moves c e (c.next e) := by
  by_cases he : c.errand = .idle
  · cases e with
    | turns a =>
      simp only [next, if_pos he]
      exact .turns a he
    | process =>
      simp only [next, if_pos he]
      exact .begins he
    | sync =>
      simp only [next, if_pos he]
      split
      · next hc => exact .opens he hc
      · next hc => exact .hides he (Bool.eq_false_iff.mpr hc)
    | reports =>
      simp only [next, if_pos he, reportDeath_eq]
      cases hd : c.play.deathReported with
      | true => exact .stays rfl nofun
      | false =>
        cases hc : c.session.isConnected with
        | true => exact .reports he hd hc
        | false => exact .stays rfl nofun
    | leaves =>
      simp only [next, if_pos he, send_passes]
      exact .bids he
    | goesOn => exact c.goOn_moves
    | arrives n => exact .arrives n
    | drops => exact .drops
  · cases e with
    | turns | process | sync | reports | leaves =>
      simp only [next, if_neg he]
      exact .stays rfl nofun
    | goesOn => exact c.goOn_moves
    | arrives n => exact .arrives n
    | drops => exact .drops

/-- What is received changes neither who plays nor what the hall was told. -/
theorem receive_keeps (p : Play) (m : Message) :
    (p.receive m).playerId = p.playerId ∧ (p.receive m).deathReported = p.deathReported := by
  cases hm : Hall.verdictIn? m with
  | none => rw [receive_undecided p hm]; exact ⟨rfl, rfl⟩
  | some v => rw [receive_decided p hm]; exact ⟨rfl, rfl⟩

theorem Moves.playerId (h : Moves c e c') : c'.play.playerId = c.play.playerId := by
  cases h with
  | hears => exact (receive_keeps _ _).1
  | _ => rfl

/-- A line that is down stays down. -/
theorem Moves.unlinked (h : Moves c e c') (hc : c.session.isConnected = false) :
    c'.session.isConnected = false := by
  cases h with
  | parts => rfl
  | drops => exact c.session.lineEnds_unlinked
  | _ => exact hc

/-- A line that is up now was up before. -/
theorem Moves.linked (hm : Moves c e c') (hc : c'.session.isConnected = true) :
    c.session.isConnected = true := by
  by_contra hdown
  rw [hm.unlinked (Bool.eq_false_iff.mpr hdown)] at hc
  cases hc

/-- The line may end, but it is another one only if it was given up. -/
theorem Moves.line (h : Moves c e c') (he : c.errand ≠ .parts) :
    c'.session.line.map Line.id = c.session.line.map Line.id := by
  cases h with
  | parts he' => exact absurd he' he
  | drops => exact c.session.lineEnds_spec.1
  | _ => rfl

/-- A message is taken only off the front of what waits, and what arrives waits behind. -/
theorem Moves.conserves (h : Moves c e c') (he : c.errand ≠ .parts) :
    c'.heard.map (·.message) ++ c'.session.takes c'.session.inbox =
      c.heard.map (·.message) ++ c.session.takes c.session.inbox ++
        c.session.takes e.brings.toList := by
  have hid := Session.takes_of_id (h.line he)
  rw [hid]
  cases h with
  | stays hb => simp [hb, Session.takes]
  | parts he' => exact absurd he' he
  | skips he' hi ha =>
    rw [hi, Session.takes_cons_none ha]
    exact (List.append_nil _).symm
  | hears he' hi ha =>
    rw [hi, Session.takes_cons_some ha]
    simp [Event.brings, Session.takes]
  | arrives n =>
    rw [List.append_assoc]
    exact congrArg _ (Session.takes_append c.session c.session.inbox [n])
  | drops =>
    have hends : c.session.takes c.session.lineEnds.inbox = c.session.takes c.session.inbox :=
      (congrFun hid _).symm.trans c.session.lineEnds_spec.2.2.2
    dsimp only
    rw [hends]
    exact (List.append_nil _).symm
  | _ => exact (List.append_nil _).symm

/-- What every event keeps, a run keeps. -/
theorem run_induction {P : Duelist → Prop} (h : P c)
    (hstep : ∀ {c e c'}, P c → Moves c e c' → P c') (es : List Event) : P (c.run es) := by
  induction es generalizing c with
  | nil => exact h
  | cons e es ih => exact ih (hstep h (next_moves c e))

end Duelist
end BlockDuel.Seat
