import BlockDuel.Proofs.Hall.Announced
import BlockDuel.Proofs.Seat.Joining
import BlockDuel.Seat.Play

/-!
A match on both sides. The strokes of a player change the own half and are shown to the opponent from
time to time; whatever was changed in between, and however often, the opponent's view after a showing
is the half as it was shown.
-/
namespace BlockDuel.Seat
open Wire Hall

/-- Something that a player does to the own half of the match. -/
inductive Stroke
  | falling (f : Falling)
  | held (p : Option Piece)
  | preview (p : Preview)
  | board (b : Board)
  | spawn
  /-- The changes so far are shown to the opponent. -/
  | shows
  deriving DecidableEq

namespace Stroke

def apply (a : Arena) : Stroke → Arena
  | falling f => a.setFalling f
  | held p => a.setHeld p
  | preview p => a.setPreview p
  | board b => a.setBoard b
  | spawn => a.spawn.2
  | shows => a.clearChanges

/-- The stroke sets the preview. -/
def previews : Stroke → Bool
  | preview _ | spawn => true
  | _ => false

end Stroke

/-- An arena after some strokes. -/
def played (a : Arena) (ss : List Stroke) : Arena := ss.foldl Stroke.apply a

/-- What is shown of an arena at one time. -/
def changes (a : Arena) : List Message := (Play.start a 0).pending

/-- All that is shown in the course of some strokes. -/
def shown (a : Arena) : List Stroke → List Message
  | [] => []
  | .shows :: ss => changes a ++ shown a.clearChanges ss
  | s :: ss => shown (s.apply a) ss

/-- The opponent's half after one more message. -/
def see (h : Half) (m : Message) : Half :=
  match m.kind with
  | .curMinoState =>
    match m.read? Falling with
    | some f => { h with falling := f }
    | none => h
  | .holdMinoState =>
    match m.read? Falling with
    | some f => { h with held := f.piece? }
    | none => h
  | .previewMinoState =>
    match m.read? Preview with
    | some p => { h with preview := p }
    | none => h
  | .boardState =>
    match m.read? Board with
    | some b => { h with board := b }
    | none => h
  | _ => h

variable {a : Arena} {h : Half} {m : Message} {ss : List Stroke}

theorem played_concat (a : Arena) (ss : List Stroke) (s : Stroke) :
    played a (ss ++ [s]) = s.apply (played a ss) := by
  simp [played]

theorem shown_append (a : Arena) (ss ss' : List Stroke) :
    shown a (ss ++ ss') = shown a ss ++ shown (played a ss) ss' := by
  induction ss generalizing a with
  | nil => rfl
  | cons s ss ih =>
    have hplayed : played a (s :: ss) = played (s.apply a) ss := rfl
    rw [hplayed]
    cases s with
    | shows =>
      change changes a ++ shown a.clearChanges (ss ++ ss') =
        (changes a ++ shown a.clearChanges ss) ++ _
      rw [ih, List.append_assoc]
      rfl
    | falling f | held p | preview p | board b | spawn => exact ih _

/-- Without a showing nothing is shown. -/
theorem shown_of_hidden (hs : .shows ∉ ss) : shown a ss = [] := by
  induction ss generalizing a with
  | nil => rfl
  | cons s ss ih =>
    rw [List.mem_cons, not_or] at hs
    cases s with
    | shows => exact absurd rfl hs.1
    | falling f | held p | preview p | board b | spawn => exact ih hs.2

/-- Whatever is shown is a report, and fits in a frame. -/
theorem mem_changes (hm : m ∈ changes a) : m.kind.relayed = true ∧ m.Fits := by
  unfold changes Play.pending at hm
  simp only [List.mem_append] at hm
  rcases hm with ((hm | hm) | hm) | hm <;> split at hm
  · rw [List.mem_singleton.mp hm]
    exact ⟨rfl, Message.fits_carrying _ _ (by decide)⟩
  · cases hm
  · rw [List.mem_singleton.mp hm]
    exact ⟨rfl, Message.fits_carrying _ _ (by decide)⟩
  · cases hm
  · rw [List.mem_singleton.mp hm]
    exact ⟨rfl, Message.fits_carrying _ _ (by decide)⟩
  · cases hm
  · rw [List.mem_singleton.mp hm]
    exact ⟨rfl, Message.fits_carrying _ _ (by decide)⟩
  · cases hm

theorem reports_changes (a : Arena) : reports (changes a) = changes a := by
  unfold reports
  rw [List.filter_eq_self]
  intro m hm
  exact (mem_changes hm).1

/-- Apart from the verdict, what is received goes into the opponent's half only. -/
theorem receive_see (p : Play) (hk : m.kind ≠ .gameOver) :
    p.receive m = { p with arena := { p.arena with opponent := see p.arena.opponent m } } := by
  unfold Play.receive see
  cases h : m.kind with
  | gameOver => exact absurd h hk
  | curMinoState | holdMinoState => cases m.read? Falling <;> rfl
  | previewMinoState => cases m.read? Preview <;> rfl
  | boardState => cases m.read? Board <;> rfl
  | _ => rfl

/-- Only reports are seen. -/
theorem see_unrelayed (hm : m.kind.relayed = false) (h : Half) : see h m = h := by
  unfold see
  cases hk : m.kind <;> rw [hk] at hm <;> first | rfl | cases hm

theorem foldl_see_reports (h : Half) (ms : List Message) :
    ms.foldl see h = (reports ms).foldl see h := by
  induction ms generalizing h with
  | nil => rfl
  | cons m ms ih =>
    by_cases hm : m.kind.relayed = true
    · have hr : reports (m :: ms) = m :: reports ms := List.filter_cons_of_pos hm
      rw [hr, List.foldl_cons, List.foldl_cons, ih]
    · have hr : reports (m :: ms) = reports ms := List.filter_cons_of_neg hm
      rw [hr, List.foldl_cons, see_unrelayed (Bool.eq_false_iff.mpr hm), ih]

theorem see_falling (h : Half) (f : Falling) : see h (.falling f) = { h with falling := f } := by
  have hread : (Message.falling f).read? Falling = some f := Message.read?_carrying _ _
  change (match (Message.falling f).read? Falling with
    | some f => ({ h with falling := f } : Half)
    | none => h) = _
  rw [hread]

/-- A held piece travels as a falling one without a place. -/
theorem see_held (h : Half) (p : Option Piece) :
    see h (.held (.held p)) = { h with held := p } := by
  have hread : (Message.held (.held p)).read? Falling = some (.held p) := Message.read?_carrying _ _
  change (match (Message.held (.held p)).read? Falling with
    | some f => ({ h with held := f.piece? } : Half)
    | none => h) = _
  rw [hread]
  simp only [Falling.piece?_held]

theorem see_preview (h : Half) (p : Preview) : see h (.preview p) = { h with preview := p } := by
  have hread : (Message.preview p).read? Preview = some p := Message.read?_carrying _ _
  change (match (Message.preview p).read? Preview with
    | some p => ({ h with preview := p } : Half)
    | none => h) = _
  rw [hread]

theorem see_board (h : Half) (b : Board) : see h (.board b) = { h with board := b } := by
  have hread : (Message.board b).read? Board = some b := Message.read?_carrying _ _
  change (match (Message.board b).read? Board with
    | some b => ({ h with board := b } : Half)
    | none => h) = _
  rw [hread]

/-- After a showing, the parts that were marked are those of the half that is shown. -/
theorem see_changes (a : Arena) (h : Half) :
    (changes a).foldl see h =
      { h with
        falling := if a.changed.falling then a.own.falling else h.falling
        held := if a.changed.held then a.own.held else h.held
        preview := if a.changed.preview then a.own.preview else h.preview
        board := if a.changed.board then a.own.board else h.board } := by
  obtain ⟨own, opponent, bag, ⟨falling, held, preview, board⟩⟩ := a
  cases falling <;> cases held <;> cases preview <;> cases board <;>
    simp [changes, Play.pending, Play.start, see_falling, see_held, see_preview, see_board]

/-- What the opponent sees agrees with a half in all that is not marked. The first preview is never
shown, so this goes for the preview only once it was set. -/
structure Mirrors (previewed : Bool) (a : Arena) (h : Half) : Prop where
  falling : a.changed.falling = false → h.falling = a.own.falling
  held : a.changed.held = false → h.held = a.own.held
  preview : a.changed.preview = false → previewed = true → h.preview = a.own.preview
  board : a.changed.board = false → h.board = a.own.board

theorem Mirrors.start (seed : UInt64) : Mirrors false (.start seed) .fresh :=
  ⟨fun _ => rfl, fun _ => rfl, (fun _ h => nomatch h), fun _ => rfl⟩

theorem Mirrors.stroke {previewed : Bool} (hm : Mirrors previewed a h) {s : Stroke}
    (hs : s ≠ .shows) : Mirrors (previewed || s.previews) (s.apply a) h := by
  have hkept (hc : a.changed.preview = false) (hp : (previewed || false) = true) :
      h.preview = a.own.preview := hm.preview hc ((Bool.or_false previewed).symm.trans hp)
  cases s with
  | shows => exact absurd rfl hs
  | falling f => exact ⟨(fun hc => nomatch hc), hm.held, hkept, hm.board⟩
  | held p => exact ⟨hm.falling, (fun hc => nomatch hc), hkept, hm.board⟩
  | preview p => exact ⟨hm.falling, hm.held, (fun hc => nomatch hc), hm.board⟩
  | board b => exact ⟨hm.falling, hm.held, hkept, (fun hc => nomatch hc)⟩
  | spawn => exact ⟨(fun hc => nomatch hc), hm.held, (fun hc => nomatch hc), hm.board⟩

theorem Mirrors.shows {previewed : Bool} (hm : Mirrors previewed a h) :
    Mirrors previewed a.clearChanges ((changes a).foldl see h) := by
  rw [see_changes]
  refine ⟨fun _ => ?_, fun _ => ?_, fun _ hp => ?_, fun _ => ?_⟩
  · change (if a.changed.falling then a.own.falling else h.falling) = a.own.falling
    split
    · rfl
    · next hc => exact hm.falling (Bool.eq_false_iff.mpr hc)
  · change (if a.changed.held then a.own.held else h.held) = a.own.held
    split
    · rfl
    · next hc => exact hm.held (Bool.eq_false_iff.mpr hc)
  · change (if a.changed.preview then a.own.preview else h.preview) = a.own.preview
    split
    · rfl
    · next hc => exact hm.preview (Bool.eq_false_iff.mpr hc) hp
  · change (if a.changed.board then a.own.board else h.board) = a.own.board
    split
    · rfl
    · next hc => exact hm.board (Bool.eq_false_iff.mpr hc)

theorem Mirrors.played {previewed : Bool} (hm : Mirrors previewed a h) (ss : List Stroke) :
    Mirrors (previewed || ss.any Stroke.previews) (played a ss) ((shown a ss).foldl see h) := by
  induction ss generalizing previewed a h with
  | nil =>
    rw [List.any_nil, Bool.or_false]
    exact hm
  | cons s ss ih =>
    rw [List.any_cons, ← Bool.or_assoc]
    cases s with
    | shows =>
      change Mirrors _ (Seat.played a.clearChanges ss)
        ((changes a ++ shown a.clearChanges ss).foldl see h)
      rw [List.foldl_append]
      have hnone : (previewed || Stroke.shows.previews) = previewed := Bool.or_false previewed
      rw [hnone]
      exact ih hm.shows
    | falling f | held p | preview p | board b | spawn => exact ih (hm.stroke Stroke.noConfusion)

/-- The opponent's view of a match that comes from `seed`: as of the last showing, everything but the
preview is what it was on the other side, and so is the preview if it was set by then. -/
theorem see_shown (seed : UInt64) (before after : List Stroke) (hidden : .shows ∉ after) :
    let own := (played (.start seed) before).own
    let view := (shown (.start seed) (before ++ .shows :: after)).foldl see .fresh
    view.falling = own.falling ∧ view.held = own.held ∧ view.board = own.board ∧
      (before.any Stroke.previews = true → view.preview = own.preview) := by
  intro own view
  have hsplit : before ++ .shows :: after = (before ++ [.shows]) ++ after := by simp
  have hview : view = (shown (.start seed) (before ++ [.shows])).foldl see .fresh := by
    unfold view
    rw [hsplit, shown_append, shown_of_hidden hidden, List.append_nil]
  have hm := (Mirrors.start seed).played (before ++ [.shows])
  rw [← hview, played_concat] at hm
  refine ⟨hm.falling rfl, hm.held rfl, hm.board rfl, ?_⟩
  intro hp
  refine hm.preview rfl ?_
  simp [hp]

/-- An arena as the player alone has made it. -/
def alone (a : Arena) : Arena := { a with own := { a.own with lost := false }, opponent := .fresh }

theorem apply_alone (a : Arena) (s : Stroke) : alone (s.apply a) = s.apply (alone a) := by
  cases s <;> rfl

/-- Without a verdict, what is received goes into the opponent's half only. -/
theorem receive_undecided (p : Play) (hm : verdictIn? m = none) :
    p.receive m = { p with arena := { p.arena with opponent := see p.arena.opponent m } } := by
  by_cases hk : m.kind = .gameOver
  · have hread : m.read? Verdict = none := by rwa [verdictIn?, if_pos hk] at hm
    unfold Play.receive see
    simp only [hk, hread]
  · exact receive_see p hk

/-- A verdict is kept and marks one half as lost. -/
theorem receive_decided (p : Play) {v : Verdict} (hm : verdictIn? m = some v) :
    p.receive m =
      { p with arena := p.arena.setOver (Play.endedSide p.playerId v), verdict := some v } := by
  obtain ⟨hk, hread⟩ := verdictIn?_eq_some hm
  unfold Play.receive
  simp only [hk, hread]

/-- A verdict may be replaced but not taken back. -/
theorem receive_isSome {p : Play} (m : Message) (h : p.verdict.isSome = true) :
    (p.receive m).verdict.isSome = true := by
  cases hm : verdictIn? m with
  | none =>
    rw [receive_undecided p hm]
    exact h
  | some v =>
    rw [receive_decided p hm]
    rfl

theorem receiveAll_isSome {p : Play} (ms : List Message) (h : p.verdict.isSome = true) :
    (ms.foldl Play.receive p).verdict.isSome = true := by
  induction ms generalizing p with
  | nil => exact h
  | cons m ms ih => exact ih (receive_isSome m h)

/-- Whoever hears a verdict among other messages has heard one. -/
theorem receiveAll_decides {p : Play} {ms : List Message} (h : decisions ms ≠ []) :
    (ms.foldl Play.receive p).verdict.isSome = true := by
  induction ms generalizing p with
  | nil => exact absurd rfl h
  | cons m ms ih =>
    cases hm : verdictIn? m with
    | none =>
      unfold decisions at h
      rw [List.filterMap_cons_none hm] at h
      exact ih h
    | some v =>
      refine receiveAll_isSome ms ?_
      rw [receive_decided p hm]
      rfl

theorem receive_alone (p : Play) (m : Message) : alone (p.receive m).arena = alone p.arena := by
  cases hm : verdictIn? m with
  | none =>
    rw [receive_undecided p hm]
    rfl
  | some v =>
    rw [receive_decided p hm]
    cases Play.endedSide p.playerId v <;> rfl

theorem see_lost (h : Half) (lost : Bool) (m : Message) :
    see { h with lost := lost } m = { see h m with lost := lost } := by
  unfold see
  cases m.kind with
  | curMinoState | holdMinoState => cases m.read? Falling <;> rfl
  | previewMinoState => cases m.read? Preview <;> rfl
  | boardState => cases m.read? Board <;> rfl
  | _ => rfl

theorem see_verdict {v : Verdict} (hm : verdictIn? m = some v) (h : Half) : see h m = h := by
  unfold see
  rw [(verdictIn?_eq_some hm).1]

/-- The match of `id` from `seed` after the player's strokes and after what was heard. The two are
apart: the own half, the marks and the bag come from the strokes, and the opponent's half from what was
heard. The last verdict that was heard is kept, and each marks one half as lost. -/
structure Plays (seed : UInt64) (id : PlayerId) (ss : List Stroke) (heard : List Message) (p : Play) :
    Prop where
  mine : alone p.arena = played (.start seed) ss
  theirs : { p.arena.opponent with lost := false } = heard.foldl see .fresh
  number : p.playerId = id
  verdict : p.verdict = (decisions heard).getLast?
  lostHere : p.arena.own.lost = (decisions heard).any fun v => v.winner ≠ id
  lostThere : p.arena.opponent.lost = (decisions heard).any fun v => v.winner = id

namespace Plays

variable {seed : UInt64} {id : PlayerId} {heard : List Message} {p : Play}

theorem start (seed : UInt64) (id : PlayerId) : Plays seed id [] [] (.start (.start seed) id) :=
  ⟨rfl, rfl, rfl, rfl, rfl, rfl⟩

/-- Before a verdict the own half is not lost. -/
theorem unspoiled (h : Plays seed id ss heard p) (hn : ∀ m ∈ heard, m.kind ≠ .gameOver) :
    p.arena.own.lost = false := by
  rw [h.lostHere, decisions_of_undecided hn]
  rfl

theorem stroke (h : Plays seed id ss heard p) (s : Stroke) :
    Plays seed id (ss ++ [s]) heard { p with arena := s.apply p.arena } := by
  have hopponent : (s.apply p.arena).opponent = p.arena.opponent := by cases s <;> rfl
  have hlost : (s.apply p.arena).own.lost = p.arena.own.lost := by cases s <;> rfl
  refine ⟨?_, ?_, h.number, h.verdict, ?_, ?_⟩
  · rw [apply_alone, h.mine, played_concat]
  · rw [hopponent]
    exact h.theirs
  · rw [hlost]
    exact h.lostHere
  · rw [hopponent]
    exact h.lostThere

theorem reported (h : Plays seed id ss heard p) :
    Plays seed id ss heard { p with deathReported := true } :=
  ⟨h.mine, h.theirs, h.number, h.verdict, h.lostHere, h.lostThere⟩

theorem receive (h : Plays seed id ss heard p) (m : Message) :
    Plays seed id ss (heard ++ [m]) (p.receive m) := by
  have hmine : alone (p.receive m).arena = played (.start seed) ss := by rw [receive_alone, h.mine]
  have hsee : (heard ++ [m]).foldl see .fresh = { see p.arena.opponent m with lost := false } := by
    rw [List.foldl_append, ← h.theirs, List.foldl_cons, List.foldl_nil, see_lost]
  cases hm : verdictIn? m with
  | none =>
    have hdecisions : decisions (heard ++ [m]) = decisions heard := by simp [decisions, hm]
    have hlost : (see p.arena.opponent m).lost = p.arena.opponent.lost := by
      have hkept := congrArg Half.lost (see_lost p.arena.opponent p.arena.opponent.lost m)
      exact hkept
    rw [receive_undecided p hm] at hmine ⊢
    refine ⟨hmine, hsee.symm, h.number, ?_, ?_, ?_⟩
    · rw [hdecisions]
      exact h.verdict
    · rw [hdecisions]
      exact h.lostHere
    · rw [hdecisions]
      exact hlost.trans h.lostThere
  | some v =>
    have hdecisions : decisions (heard ++ [m]) = decisions heard ++ [v] := by simp [decisions, hm]
    rw [see_verdict hm] at hsee
    rw [receive_decided p hm] at hmine ⊢
    have hverdict : some v = (decisions (heard ++ [m])).getLast? := by simp [hdecisions]
    by_cases hw : v.winner = id
    · have hside : Play.endedSide p.playerId v = .there := by simp [Play.endedSide, h.number, hw]
      rw [hside] at hmine ⊢
      refine ⟨hmine, hsee.symm, h.number, hverdict, ?_, ?_⟩
      · rw [hdecisions]
        simpa [Arena.setOver, hw] using h.lostHere
      · simp [hdecisions, Arena.setOver, hw]
    · have hside : Play.endedSide p.playerId v = .here := by simp [Play.endedSide, h.number, hw]
      rw [hside] at hmine ⊢
      refine ⟨hmine, hsee.symm, h.number, hverdict, ?_, ?_⟩
      · simp [hdecisions, Arena.setOver, hw]
      · rw [hdecisions]
        simpa [Arena.setOver, hw] using h.lostThere

theorem receiveAll (h : Plays seed id ss heard p) (ms : List Message) :
    Plays seed id ss (heard ++ ms) (ms.foldl Play.receive p) := by
  induction ms generalizing heard p with
  | nil =>
    rw [List.append_nil]
    exact h
  | cons m ms ih =>
    rw [List.append_cons]
    exact ih (h.receive m)

/-- What a player shows is what the strokes have changed. -/
theorem pending (h : Plays seed id ss heard p) : p.pending = changes (played (.start seed) ss) := by
  rw [← h.mine]
  rfl

end Plays

/-- All messages that are there go into the match, and only signs of life go out. -/
theorem processAll_spec (ns : List Notice) (p : Play) (s : Session) :
    let out := Play.processAll ns p s
    out.1 = (s.takes ns).length ∧ out.2.1 = (s.takes ns).foldl Play.receive p ∧
      out.2.2.line = s.line ∧ out.2.2.inbox = [] ∧
      ∃ pongs, out.2.2.outgoing = s.outgoing ++ pongs ∧ ∀ m ∈ pongs, m = .clientPong := by
  induction ns generalizing p s with
  | nil => exact ⟨rfl, rfl, rfl, rfl, [], (List.append_nil _).symm, fun m hm => nomatch hm⟩
  | cons n ns ih =>
    unfold Play.processAll
    cases hn : s.accept n with
    | none =>
      have htakes : s.takes (n :: ns) = s.takes ns := by simp [Session.takes, hn]
      rw [htakes]
      exact ih p s
    | some m =>
      have htakes : s.takes (n :: ns) = m :: s.takes ns := by simp [Session.takes, hn]
      obtain ⟨hplay, hline, pongs, hout, hpongs⟩ : (p.apply s m).1 = p.receive m ∧
          (p.apply s m).2.line = s.line ∧ ∃ pongs, (p.apply s m).2.outgoing = s.outgoing ++ pongs ∧
            ∀ m ∈ pongs, m = .clientPong := by
        unfold Play.apply
        split
        · next hk =>
          have hreceive : p.receive m = p := by
            unfold Play.receive
            rw [hk]
          refine ⟨hreceive.symm, ?_⟩
          unfold Session.send
          split
          · exact ⟨rfl, [.clientPong], rfl, fun m hm => List.mem_singleton.mp hm⟩
          · exact ⟨rfl, [], (List.append_nil _).symm, fun m hm => nomatch hm⟩
        · exact ⟨rfl, rfl, [], (List.append_nil _).symm, fun m hm => nomatch hm⟩
      obtain ⟨hcount, hplay', hline', hinbox, pongs', hout', hpongs'⟩ :=
        ih (p.apply s m).1 (p.apply s m).2
      rw [Session.takes_of_line hline] at hcount hplay'
      rw [htakes]
      refine ⟨congrArg (· + 1) hcount, ?_, hline'.trans hline, hinbox, pongs ++ pongs', ?_, ?_⟩
      · rw [List.foldl_cons, ← hplay]
        exact hplay'
      · rw [← List.append_assoc, ← hout]
        exact hout'
      · intro m' hm'
        rcases List.mem_append.mp hm' with hm' | hm'
        · exact hpongs m' hm'
        · exact hpongs' m' hm'

/-- Messages that are handed to an open line wait there in their order. -/
theorem sendAll_spec (s : Session) (hs : s.isConnected = true) (ms : List Message) :
    ms.foldl (fun s m => (s.send m).2) s = { s with outgoing := s.outgoing ++ ms } := by
  induction ms generalizing s with
  | nil => simp
  | cons m ms ih =>
    have hsend : (s.send m).2 = { s with outgoing := s.outgoing ++ [m] } := by
      unfold Session.send
      rw [if_pos hs]
    have hs' : { s with outgoing := s.outgoing ++ [m] }.isConnected = true := hs
    rw [List.foldl_cons, hsend, ih _ hs']
    simp

end BlockDuel.Seat
