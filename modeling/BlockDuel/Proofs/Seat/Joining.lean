import BlockDuel.Proofs.Hall.Reports
import BlockDuel.Proofs.Seat.Handling
import BlockDuel.Proofs.Wire.Frame

/-!
What a player who joins makes of what it hears. Apart from signs of life and the lateness of the hall,
only the messages heard so far matter, in their order; what they come to is a digest. And a player who
joins asks for a seat once and reports nothing.
-/
namespace BlockDuel.Seat
open Wire Hall

/-- What a session takes for messages among notices. -/
def Session.takes (s : Session) (ns : List Notice) : List Message := ns.filterMap s.accept

/-- That depends on the line alone. -/
theorem Session.takes_of_line {s s' : Session} (h : s'.line = s.line) : s'.takes = s.takes := by
  have ha : s'.accept = s.accept := by
    funext n
    unfold Session.accept
    rw [h]
  funext ns
  unfold Session.takes
  rw [ha]

/-- What a player has learnt from the hall. -/
structure Digest where
  greeted : Bool
  number : Option PlayerId
  seed : Option UInt64
  roster : List Player
  /-- The seed and the number that play starts with. -/
  outcome : Option (UInt64 × PlayerId)
  deriving DecidableEq, Repr

namespace Digest

def blank : Digest := ⟨false, none, none, [], none⟩

/-- One more message. Only a greeted player takes a number, and only the first one. -/
def add (d : Digest) (m : Message) : Digest :=
  if d.outcome.isSome then d
  else
    match m.kind with
    | .accepted => { d with greeted := true }
    | .assignId =>
      if d.greeted && d.number.isNone then
        match m.read? UInt32 with
        | some id => { d with number := some id }
        | none => d
      else d
    | .roomPlayerList =>
      match m.read? (List Player) with
      | some ps => { d with roster := ps }
      | none => d
    | .roomPlayerJoined =>
      match m.read? Player with
      | some p => { d with roster := d.roster ++ [p] }
      | none => d
    | .roomPlayerLeft =>
      match m.read? UInt32 with
      | some id => { d with roster := d.roster.filter (·.id != id) }
      | none => d
    | .sendBagSeed =>
      match m.read? UInt64 with
      | some seed => { d with seed := some seed }
      | none => d
    | .allPlayersReady =>
      match d.seed, d.number with
      | some seed, some id => { d with outcome := some (seed, id) }
      | _, _ => d
    | _ => d

def of (ms : List Message) : Digest := ms.foldl add blank

theorem of_concat (ms : List Message) (m : Message) : of (ms ++ [m]) = (of ms).add m := by
  simp [of]

/-- What is heard at any time teaches nothing. -/
theorem add_inaudible {m : Message} (h : audible m = false) (d : Digest) : d.add m = d := by
  unfold add
  split
  · rfl
  · unfold audible at h
    cases hk : m.kind <;> rw [hk] at h <;> first | rfl | exact absurd h (by decide)

theorem of_audible (ms : List Message) : of (ms.filter audible) = of ms := by
  induction ms using List.reverseRecOn with
  | nil => rfl
  | append_singleton ms m ih =>
    rw [List.filter_append, of_concat]
    by_cases ha : audible m = true
    · rw [List.filter_cons_of_pos ha, List.filter_nil, of_concat, ih]
    · rw [List.filter_cons_of_neg ha, List.filter_nil, List.append_nil, ih,
        add_inaudible (Bool.eq_false_iff.mpr ha)]

/-- Once play can start, nothing more is learnt. -/
theorem foldl_add_decided {d : Digest} (h : d.outcome.isSome = true) (ms : List Message) :
    ms.foldl add d = d := by
  induction ms with
  | nil => rfl
  | cons m ms ih =>
    have hm : d.add m = d := if_pos h
    rw [List.foldl_cons, hm, ih]

theorem outcome_add {d : Digest} {m : Message} (hk : m.kind ≠ .allPlayersReady) :
    (d.add m).outcome = d.outcome := by
  unfold add
  split
  · rfl
  · cases h : m.kind with
    | allPlayersReady => exact absurd h hk
    | assignId =>
      dsimp only
      split
      · split <;> rfl
      · rfl
    | roomPlayerList | roomPlayerJoined | roomPlayerLeft | sendBagSeed =>
      dsimp only
      split <;> rfl
    | _ => rfl

/-- Play starts only at a start. -/
theorem exists_start {ms : List Message} (h : (of ms).outcome.isSome = true) :
    ∃ m ∈ ms, m.kind = .allPlayersReady := by
  induction ms using List.reverseRecOn with
  | nil => cases h
  | append_singleton ms m ih =>
    by_cases hk : m.kind = .allPlayersReady
    · exact ⟨m, by simp, hk⟩
    · rw [of_concat, outcome_add hk] at h
      obtain ⟨m', hm', hk'⟩ := ih h
      exact ⟨m', List.mem_append_left _ hm', hk'⟩

/-- A briefing teaches the seed of the match, the own number and the two members. -/
theorem of_briefing (id : PlayerId) (p : Pairing) (q q' : Player) :
    of (briefing id p [q, q']) = ⟨true, some id, some p.seed, [q, q'], some (p.seed, id)⟩ := by
  have hid : (Message.assignId id).read? UInt32 = some id := Message.read?_carrying _ _
  have hseed : (Message.bagSeed p.seed).read? UInt64 = some p.seed := Message.read?_carrying _ _
  have hjoined : (Message.roomPlayerJoined q').read? Player = some q' := Message.read?_carrying _ _
  have hlist (ps : List Player) (hl : ps.length < UInt32.size) :
      (Message.roomPlayerList ps).read? (List Player) = some ps := Message.read?_roster _ hl
  have hassign : (⟨true, none, none, [], none⟩ : Digest).add (.assignId id) =
      ⟨true, some id, none, [], none⟩ := by
    change (match (Message.assignId id).read? UInt32 with
      | some id => (⟨true, some id, none, [], none⟩ : Digest)
      | none => ⟨true, none, none, [], none⟩) = _
    rw [hid]
  have hroster (ps : List Player) (hl : ps.length < UInt32.size) :
      (⟨true, some id, none, [], none⟩ : Digest).add (.roomPlayerList ps) =
        ⟨true, some id, none, ps, none⟩ := by
    change (match (Message.roomPlayerList ps).read? (List Player) with
      | some ps => (⟨true, some id, none, ps, none⟩ : Digest)
      | none => ⟨true, some id, none, [], none⟩) = _
    rw [hlist ps hl]
  have hnewcomer : (⟨true, some id, none, [q], none⟩ : Digest).add (.roomPlayerJoined q') =
      ⟨true, some id, none, [q, q'], none⟩ := by
    change (match (Message.roomPlayerJoined q').read? Player with
      | some p => (⟨true, some id, none, [q] ++ [p], none⟩ : Digest)
      | none => ⟨true, some id, none, [q], none⟩) = _
    rw [hjoined]
    rfl
  have hbag : (⟨true, some id, none, [q, q'], none⟩ : Digest).add (.bagSeed p.seed) =
      ⟨true, some id, some p.seed, [q, q'], none⟩ := by
    change (match (Message.bagSeed p.seed).read? UInt64 with
      | some seed => (⟨true, some id, some seed, [q, q'], none⟩ : Digest)
      | none => ⟨true, some id, none, [q, q'], none⟩) = _
    rw [hseed]
  have hgreeted : blank.add .accepted = ⟨true, none, none, [], none⟩ := rfl
  have hstart : (⟨true, some id, some p.seed, [q, q'], none⟩ : Digest).add .allPlayersReady =
      ⟨true, some id, some p.seed, [q, q'], some (p.seed, id)⟩ := rfl
  have hone := hroster [q] (by simp [UInt32.size])
  have htwo := hroster [q, q'] (by simp [UInt32.size])
  by_cases hfirst : p.members.head? = some id
  · have hb : briefing id p [q, q'] = [.accepted, .assignId id, .roomPlayerList [q],
        .roomPlayerJoined q', .bagSeed p.seed, .allPlayersReady] := by
      simp [briefing, hfirst]
    rw [hb]
    simp only [of, List.foldl_cons, List.foldl_nil, hgreeted, hassign, hone, hnewcomer, hbag, hstart]
  · have hb : briefing id p [q, q'] = [.accepted, .assignId id, .roomPlayerList [q, q'],
        .bagSeed p.seed, .allPlayersReady] := by
      simp [briefing, hfirst]
    rw [hb]
    simp only [of, List.foldl_cons, List.foldl_nil, hgreeted, hassign, htwo, hbag, hstart]

/-- Only the end of a briefing is a start. -/
theorem start_of_briefing {id : PlayerId} {p : Pairing} {roster : List Player} {ms : List Message}
    (hms : ms <+: briefing id p roster) (h : ∃ m ∈ ms, m.kind = .allPlayersReady) :
    ms = briefing id p roster := by
  obtain ⟨front, hfront, hsilent⟩ : ∃ front, briefing id p roster = front ++ [.allPlayersReady] ∧
      ∀ m ∈ front, m.kind ≠ .allPlayersReady := by
    unfold briefing
    refine ⟨_, (List.append_assoc _ [Message.bagSeed p.seed] [Message.allPlayersReady]).symm, ?_⟩
    intro m hm
    split at hm
    · simp only [List.mem_append, List.mem_cons, List.mem_map, List.not_mem_nil, or_false] at hm
      rcases hm with ((rfl | rfl) | rfl | ⟨q, -, rfl⟩) | rfl <;> exact Kind.noConfusion
    · simp only [List.mem_append, List.mem_cons, List.not_mem_nil, or_false] at hm
      rcases hm with ((rfl | rfl) | rfl) | rfl <;> exact Kind.noConfusion
  rw [hfront] at hms ⊢
  rcases List.prefix_concat_iff.mp hms with h' | h'
  · exact h'
  · obtain ⟨m, hm, hk⟩ := h
    exact absurd hk (hsilent m (h'.subset hm))

/-- Whoever has learnt how to start has learnt what the briefing says, and no more. -/
theorem of_briefed {id : PlayerId} {p : Pairing} {q q' : Player} {ms log : List Message}
    (hms : ms.filter audible <+: log) (hb : briefing id p [q, q'] <+: log)
    (h : (of ms).outcome.isSome = true) :
    of ms = ⟨true, some id, some p.seed, [q, q'], some (p.seed, id)⟩ := by
  rw [← of_audible] at h ⊢
  rcases List.prefix_or_prefix_of_prefix hb hms with ⟨more, hmore⟩ | hpart
  · rw [← hmore]
    unfold of
    rw [List.foldl_append]
    change more.foldl add (of (briefing id p [q, q'])) = _
    rw [of_briefing, foldl_add_decided rfl]
  · rw [start_of_briefing hpart (exists_start h), of_briefing]

/-- Play could not start before the last of the messages. -/
def Needed (ms : List Message) : Prop :=
  ∀ front m rest, ms = front ++ m :: rest → (of front).outcome = none

theorem Needed.append {ms ms' : List Message} (h : Needed ms)
    (h' : ∀ front m rest, ms' = front ++ m :: rest → (front.foldl add (of ms)).outcome = none) :
    Needed (ms ++ ms') := by
  intro front m rest hsplit
  rcases List.append_eq_append_iff.mp hsplit with ⟨more, rfl, hmore⟩ | ⟨more, rfl, hmore⟩
  · unfold of
    rw [List.foldl_append]
    exact h' more m rest hmore
  · cases more with
    | nil =>
      rw [List.append_nil] at h'
      exact h' [] m rest hmore.symm
    | cons x more =>
      cases hmore
      exact h front m more rfl

theorem reports_briefing (id : PlayerId) (p : Pairing) (roster : List Player) :
    reports (briefing id p roster) = [] := by
  have hjoined : reports ((roster.drop 1).map .roomPlayerJoined) = [] := by
    unfold reports
    rw [List.filter_eq_nil_iff]
    intro m hm
    obtain ⟨q, -, rfl⟩ := List.mem_map.mp hm
    exact Bool.false_ne_true
  unfold briefing
  rw [reports_append, reports_append]
  split
  · change [] ++ ([] ++ reports ((roster.drop 1).map .roomPlayerJoined)) ++ [] = []
    rw [hjoined]
    rfl
  · rfl

theorem reports_audible (ms : List Message) : reports (ms.filter audible) = reports ms := by
  unfold reports
  rw [List.filter_filter]
  congr 1
  funext m
  cases hm : m.kind.relayed with
  | false => rfl
  | true => simp [audible_of_relayed hm]

/-- One who hears no more than is needed hears a briefing and no reports. -/
theorem unreported_of_briefed {id : PlayerId} {p : Pairing} {q q' : Player}
    {ms log : List Message} (hneeded : Needed ms) (hms : ms.filter audible <+: log)
    (hb : briefing id p [q, q'] <+: log) (h : (of ms).outcome.isSome = true) : reports ms = [] := by
  suffices hall : ms.filter audible = briefing id p [q, q'] by
    rw [← reports_audible, hall, reports_briefing]
  rcases List.prefix_or_prefix_of_prefix hb hms with ⟨more, hmore⟩ | hpart
  · obtain ⟨front, back, rfl, hfront, hback⟩ := List.filter_eq_append_iff.mp hmore.symm
    cases back with
    | nil => rw [List.append_nil, hfront]
    | cons m rest =>
      have hearly := hneeded front m rest rfl
      rw [← of_audible, hfront, of_briefing] at hearly
      cases hearly
  · rw [← of_audible] at h
    exact start_of_briefing hpart (exists_start h)

end Digest

/-- A player who has learnt `d` and has not failed stands where `d` says. -/
def JoinStatus.Shows (d : Digest) : JoinStatus → Prop
  | awaitAccepted => d.greeted = false ∧ d.number = none ∧ d.outcome = none
  | registering => d.greeted = true ∧ d.number = none ∧ d.outcome = none
  | joining | waitingForOpponent => d.greeted = true ∧ d.number.isSome ∧ d.outcome = none
  | ready seed id => d.outcome = some (seed, id)
  | failed _ => True

/-- A player who joins and has not failed has learnt `d`. -/
structure Joining.Follows (d : Digest) (j : Joining) (s : Session) : Prop where
  status : j.status.Shows d
  seed : j.seed = d.seed
  roster : j.roster = d.roster
  number : j.isFinished = false → s.line ≠ none → s.playerId = d.number

namespace Joining

variable {d : Digest} {j j' j'' : Joining} {s s' s'' : Session} {m : Message} {now : Nat}

/-- What a player has learnt does not depend on what waits. -/
theorem Follows.elsewhere (h : j.Follows d s)
    (linked : s'.line ≠ none → s.line ≠ none ∧ s'.playerId = s.playerId) : j.Follows d s' := by
  refine ⟨h.status, h.seed, h.roster, ?_⟩
  intro hf hl
  obtain ⟨hl', hid⟩ := linked hl
  rw [hid]
  exact h.number hf hl'

/-- A player who is ready has learnt all there is. -/
theorem Follows.ready (h : j.Follows d s) {seed : UInt64} {id : PlayerId}
    (hs : j.status = .ready seed id) (s' : Session) : j.Follows d s' := by
  refine ⟨h.status, h.seed, h.roster, ?_⟩
  intro hf
  unfold isFinished at hf
  rw [hs] at hf
  cases hf

theorem Follows.undecided (h : j.Follows d s) (hf : j.isFinished = false) : d.outcome = none := by
  have hs := h.status
  unfold isFinished at hf
  cases hj : j.status with
  | awaitAccepted | registering | joining | waitingForOpponent =>
    rw [hj] at hs
    exact hs.2.2
  | ready seed id | failed f =>
    rw [hj] at hf
    cases hf

/-- Failing to send ends the joining and teaches nothing. -/
theorem Follows.send (h : j.Follows d s) (m : Message) (now : Nat) :
    (j.send s m now).1.Follows d (j.send s m now).2 := by
  unfold Joining.send Session.send
  split
  · next hs =>
    split at hs
    · cases hs
      exact ⟨h.status, h.seed, h.roster, h.number⟩
    · cases hs
  · exact ⟨trivial, h.seed, h.roster, fun hf => nomatch hf⟩

/-- A player who has been greeted and is greeted again learns nothing. -/
theorem Follows.greeted (h : j.Follows d s) (hf : j.isFinished = false)
    (hj : j.status ≠ .awaitAccepted) : d.greeted = true := by
  have hs := h.status
  unfold isFinished at hf
  cases hstatus : j.status with
  | awaitAccepted => exact absurd hstatus hj
  | registering | joining | waitingForOpponent =>
    rw [hstatus] at hs
    exact hs.1
  | ready seed id | failed f =>
    rw [hstatus] at hf
    cases hf

/-- Only a player who registers has been greeted and has no number. -/
theorem Follows.numbered (h : j.Follows d s) (hf : j.isFinished = false)
    (hj : j.status ≠ .registering) : (d.greeted && d.number.isNone) = false := by
  have hs := h.status
  unfold isFinished at hf
  cases hstatus : j.status with
  | registering => exact absurd hstatus hj
  | awaitAccepted =>
    rw [hstatus] at hs
    simp [hs.1]
  | joining | waitingForOpponent =>
    rw [hstatus] at hs
    obtain ⟨id, hid⟩ := Option.isSome_iff_exists.mp hs.2.1
    simp [hid]
  | ready seed id | failed f =>
    rw [hstatus] at hf
    cases hf

/-- Handling a message learns it. -/
theorem Follows.handle (h : j.Follows d s) (hf : j.isFinished = false) (hl : s.line ≠ none)
    (m : Message) (now : Nat) :
    (j.handle s m now).1.Follows (d.add m) (j.handle s m now).2 := by
  have hd := h.undecided hf
  have hs := h.status
  have hn : ¬ d.outcome.isSome = true := by simp [hd]
  unfold Digest.add Joining.handle
  rw [if_neg hn]
  cases m.kind with
  | serverPing => exact h.send _ _
  | accepted =>
    dsimp only
    split
    · next hj =>
      rw [hj] at hs
      apply Follows.send
      exact ⟨⟨rfl, hs.2⟩, h.seed, h.roster, fun _ => h.number hf⟩
    · next hj =>
      have hg : { d with greeted := true } = d := by
        rw [← h.greeted hf hj]
      rw [hg]
      exact h
  | assignId =>
    by_cases hj : j.status = .registering
    · rw [hj] at hs
      have hg : (d.greeted && d.number.isNone) = true := by simp [hs.1, hs.2.1]
      simp only [if_pos hg, if_pos hj]
      cases m.read? UInt32 with
      | none => exact h
      | some id =>
        apply Follows.send
        exact ⟨⟨hs.1, rfl, hs.2.2⟩, h.seed, h.roster, fun _ _ => rfl⟩
    · have hg : ¬ (d.greeted && d.number.isNone) = true := by simp only [h.numbered hf hj]; decide
      simp only [if_neg hg, if_neg hj]
      exact h
  | roomJoinAccepted =>
    dsimp only
    split
    · next hj =>
      rw [hj] at hs
      exact ⟨hs, h.seed, h.roster, fun _ => h.number hf⟩
    · exact h
  | roomPlayerList =>
    cases m.read? (List Player) with
    | none => exact h
    | some ps => exact ⟨hs, h.seed, rfl, h.number⟩
  | roomPlayerJoined =>
    cases m.read? Player with
    | none => exact h
    | some p => exact ⟨hs, h.seed, congrArg (· ++ [p]) h.roster, h.number⟩
  | roomPlayerLeft =>
    cases m.read? UInt32 with
    | none => exact h
    | some id =>
      exact ⟨hs, h.seed, congrArg (List.filter fun p : Player => p.id != id) h.roster, h.number⟩
  | sendBagSeed =>
    cases m.read? UInt64 with
    | none => exact h
    | some seed => exact ⟨hs, rfl, h.roster, h.number⟩
  | allPlayersReady =>
    have hseed := h.seed
    have hnumber := h.number hf hl
    cases hds : d.seed with
    | none =>
      rw [hds] at hseed
      simp only [hseed]
      exact h
    | some seed =>
      rw [hds] at hseed
      cases hdn : d.number with
      | none =>
        rw [hdn] at hnumber
        simp only [hseed, hnumber]
        exact h
      | some id =>
        rw [hdn] at hnumber
        simp only [hseed, hnumber]
        refine ⟨rfl, h.seed.trans hds, h.roster, ?_⟩
        intro hready
        cases hready
  | _ => exact h

/-- How often a player who joins may still ask for a seat. -/
def chances (j : Joining) : Nat :=
  match j.status with
  | .awaitAccepted | .registering => 1
  | _ => 0

/-- The line and what came over it stay, and what is said reports nothing and uses up the chances. -/
structure Speaks (j : Joining) (s : Session) (j' : Joining) (s' : Session) (ms : List Message) :
    Prop where
  line : s'.line = s.line
  outgoing : s'.outgoing = s.outgoing ++ ms
  fits : ∀ m ∈ ms, m.Fits
  unreported : reports ms = []
  asked : requests ms + j'.chances ≤ j.chances

theorem Speaks.quiet (hl : s'.line = s.line) (ho : s'.outgoing = s.outgoing)
    (hc : j'.chances ≤ j.chances) : Speaks j s j' s' [] := by
  refine ⟨hl, ?_, (fun m hm => nomatch hm), rfl, ?_⟩
  · rw [ho, List.append_nil]
  · rw [show requests [] = 0 from rfl, Nat.zero_add]
    exact hc

theorem Speaks.trans {ms ms' : List Message} (h : Speaks j s j' s' ms)
    (h' : Speaks j' s' j'' s'' ms') : Speaks j s j'' s'' (ms ++ ms') := by
  refine ⟨h'.line.trans h.line, ?_, ?_, ?_, ?_⟩
  · rw [h'.outgoing, h.outgoing, List.append_assoc]
  · intro m hm
    rcases List.mem_append.mp hm with hm | hm
    · exact h.fits m hm
    · exact h'.fits m hm
  · rw [reports_append, h.unreported, h'.unreported]
    rfl
  · have h₁ := h.asked
    have h₂ := h'.asked
    rw [requests_append]
    omega

theorem Speaks.one (hl : s'.line = s.line) (ho : s'.outgoing = s.outgoing ++ [m]) (hm : m.Fits)
    (hr : reports [m] = []) (hc : requests [m] + j'.chances ≤ j.chances) : Speaks j s j' s' [m] := by
  refine ⟨hl, ho, ?_, hr, hc⟩
  intro m' hm'
  rw [List.mem_singleton.mp hm']
  exact hm

/-- What is said in answer to a message. -/
theorem Effect.speaks (h : Effect j s m now j' s') : ∃ ms, Speaks j s j' s' ms := by
  have hsilent (hl : s'.line = s.line) (ho : s'.outgoing = s.outgoing)
      (hc : j'.chances ≤ j.chances) : ∃ ms, Speaks j s j' s' ms := ⟨[], .quiet hl ho hc⟩
  cases h with
  | ponged => exact ⟨_, .one rfl rfl (Nat.zero_le _) rfl (Nat.le_of_eq (Nat.zero_add _))⟩
  | greeted hk hj =>
    refine ⟨_, .one rfl rfl (Message.fits_carrying _ _ (by decide)) rfl ?_⟩
    simp [chances, hj, advance, requests, introduction, Message.register, Message.carrying]
  | numbered hk hj =>
    refine ⟨_, .one rfl rfl (Nat.zero_le _) rfl ?_⟩
    simp [chances, hj, advance, requests, Message.requestRoomJoin, Message.bare]
  | seated | started | cutOff => exact hsilent rfl rfl (Nat.zero_le _)
  | listed | dealt | ignored => exact hsilent rfl rfl (Nat.le_refl _)

/-- The messages that are there are handled in their order until joining is finished, and the others
stay. -/
theorem handleAll_follows (now : Nat) (ns : List Notice) (h : j.Follows d s) :
    ∃ taken rest ms, ns = taken ++ rest ∧ (handleAll now ns j s).2.inbox = rest ∧
      (handleAll now ns j s).1.Follows ((s.takes taken).foldl Digest.add d)
        (handleAll now ns j s).2 ∧
      Speaks j s (handleAll now ns j s).1 (handleAll now ns j s).2 ms ∧
      ∀ front m rest, s.takes taken = front ++ m :: rest →
        (front.foldl Digest.add d).outcome = none := by
  induction ns generalizing d j s with
  | nil =>
    exact ⟨[], [], [], rfl, rfl, ⟨h.status, h.seed, h.roster, h.number⟩,
      .quiet rfl rfl (Nat.le_refl _), fun front m rest hs => by simp [Session.takes] at hs⟩
  | cons n ns ih =>
    unfold handleAll
    split
    · exact ⟨[], n :: ns, [], rfl, rfl, ⟨h.status, h.seed, h.roster, h.number⟩,
        .quiet rfl rfl (Nat.le_refl _), fun front m rest hs => by simp [Session.takes] at hs⟩
    · next hf =>
      cases hn : s.accept n with
      | none =>
        obtain ⟨taken, rest, ms, hns, hinbox, hfollows, hspeaks, hneeded⟩ := ih h
        have htakes : s.takes (n :: taken) = s.takes taken := by simp [Session.takes, hn]
        refine ⟨n :: taken, rest, ms, by rw [hns]; rfl, hinbox, ?_, hspeaks, ?_⟩
        · rw [htakes]
          exact hfollows
        · rw [htakes]
          exact hneeded
      | some m =>
        obtain ⟨ms, hspeaks⟩ := (handle_effect j s m now).speaks
        have hl : s.line ≠ none := by
          intro hl
          have ha : s.accept n = none := by
            unfold Session.accept
            cases n <;> simp [hl]
          rw [ha] at hn
          cases hn
        have hfollows := h.handle (by simpa using hf) hl m now
        obtain ⟨taken, rest, ms', hns, hinbox, hfollows', hspeaks', hneeded⟩ := ih hfollows
        have htakes : s.takes (n :: taken) = m :: s.takes taken := by simp [Session.takes, hn]
        rw [Session.takes_of_line hspeaks.line] at hfollows' hneeded
        refine ⟨n :: taken, rest, ms ++ ms', by rw [hns]; rfl, hinbox, ?_, hspeaks.trans hspeaks',
          ?_⟩
        · rw [htakes]
          exact hfollows'
        · rw [htakes]
          intro front m' rest' hsplit
          cases front with
          | nil => exact h.undecided (by simpa using hf)
          | cons x front =>
            obtain ⟨rfl, hsplit'⟩ := List.cons_eq_cons.mp hsplit
            exact hneeded front m' rest' hsplit'

/-- A round of joining handles the first of the messages that are there and keeps the others. It takes
nothing once play can start. -/
theorem poll_follows (now : Nat) (h : j.Follows d s) :
    ∃ taken rest ms, s.inbox = taken ++ rest ∧ (j.poll s now).2.inbox = rest ∧
      (j.poll s now).1.Follows ((s.takes taken).foldl Digest.add d) (j.poll s now).2 ∧
      Speaks j s (j.poll s now).1 (j.poll s now).2 ms ∧
      ∀ front m rest, s.takes taken = front ++ m :: rest →
        (front.foldl Digest.add d).outcome = none := by
  unfold poll
  split
  · exact ⟨[], s.inbox, [], rfl, rfl, h, .quiet rfl rfl (Nat.le_refl _),
      fun front m rest hs => by simp [Session.takes] at hs⟩
  · obtain ⟨taken, rest, ms, hns, hinbox, hfollows, hspeaks, hneeded⟩ :=
      handleAll_follows now s.inbox h
    generalize handleAll now s.inbox j s = out at hinbox hfollows hspeaks ⊢
    obtain ⟨j', s'⟩ := out
    dsimp only at hinbox hfollows hspeaks ⊢
    split
    · exact ⟨taken, rest, ms, hns, hinbox, hfollows, hspeaks, hneeded⟩
    · have hfollows' : (j'.check s' now).Follows ((s.takes taken).foldl Digest.add d) s' := by
        unfold check
        split
        · exact ⟨trivial, hfollows.seed, hfollows.roster, fun hf => nomatch hf⟩
        · split
          · exact ⟨trivial, hfollows.seed, hfollows.roster, fun hf => nomatch hf⟩
          · exact hfollows
      have hchances : (j'.check s' now).chances ≤ j'.chances := by
        unfold check
        split
        · exact Nat.zero_le _
        · split
          · exact Nat.zero_le _
          · exact Nat.le_refl _
      have hspeaks' := hspeaks.trans (.quiet rfl rfl hchances)
      exact ⟨taken, rest, _, hns, hinbox, hfollows', hspeaks', hneeded⟩

end Joining
end BlockDuel.Seat
