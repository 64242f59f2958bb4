import BlockDuel.Proofs.Hall.Course
import BlockDuel.Proofs.Link.Queue

/-!
What one player hears. After a welcome and a number come episodes, one for each match of the player:
the roster, the seed, the reports of the opponent, the verdict. This is a language; and what is queued
for a player stays in it, as long as each occasion is to this player one of a few things that can
follow where the player stands.
-/
namespace BlockDuel.Hall
open Wire

/-- Signs of life and the answer to a request to join are heard at any time. -/
def audible (m : Message) : Bool :=
  m.kind ≠ .serverPing && m.kind ≠ .serverPong && m.kind ≠ .roomJoinAccepted

theorem audible_of_relayed {m : Message} (h : m.kind.relayed = true) : audible m = true := by
  unfold audible
  cases hk : m.kind <;> rw [hk] at h <;> first | rfl | cases h

variable {id : PlayerId}

/-- A match from the roster on, up to what the opponent has reported. The member that was waiting hears
who came. -/
def beginning (id : PlayerId) (p : Pairing) (roster : List Player) (newcomer : Player)
    (play : List Message) : List Message :=
  .roomPlayerList roster ::
    (if p.members.head? = some id then [.roomPlayerJoined newcomer] else []) ++
    .bagSeed p.seed :: .allPlayersReady :: play

/-- A match as one member hears it. -/
structure Episode (id : PlayerId) where
  pairing : Pairing
  roster : List Player
  newcomer : Player
  play : List Message
  verdict : Verdict
  leaver : Option PlayerId
  member : id ∈ pairing.members
  relayed : ∀ m ∈ play, m.kind.relayed = true
  named : verdict.winner = id ∨ verdict.loser = id

def Episode.text (e : Episode id) : List Message :=
  beginning id e.pairing e.roster e.newcomer e.play ++
    .gameOver e.verdict :: (e.leaver.map .roomPlayerLeft).toList

/-- All that a player hears in the course of some matches. -/
def word (id : PlayerId) (es : List (Episode id)) : List Message :=
  .accepted :: .assignId id :: es.flatMap Episode.text

theorem word_concat (es : List (Episode id)) (e : Episode id) :
    word id (es ++ [e]) = word id es ++ e.text := by
  simp [word]

/-- A player whose matches were `ps` may have heard `log`: a part of the word for these matches, or
all of it and the roster of one that has not begun. -/
def Fits (id : PlayerId) (ps : List Pairing) (log : List Message) : Prop :=
  ∃ es : List (Episode id), es.map Episode.pairing = ps ∧
    (log <+: word id es ∨ ∃ roster, log = word id es ++ [.roomPlayerList roster])

theorem Fits.nil : Fits id [] [] := ⟨[], rfl, .inl List.nil_prefix⟩

/-- What was heard of a running match fits whatever the verdict will be. -/
theorem Fits.beginning {es : List (Episode id)} {p : Pairing} (roster : List Player)
    (newcomer : Player) {play : List Message} (member : id ∈ p.members)
    (relayed : ∀ m ∈ play, m.kind.relayed = true) :
    Fits id (es.map Episode.pairing ++ [p])
      (word id es ++ beginning id p roster newcomer play) := by
  let e : Episode id := ⟨p, roster, newcomer, play, ⟨id, id⟩, none, member, relayed, .inl rfl⟩
  refine ⟨es ++ [e], by simp [e], .inl ?_⟩
  rw [word_concat, List.prefix_append_right_inj]
  exact List.prefix_append _ _

/-- A log that does not go on fits further matches as well. -/
theorem Fits.extend {ps : List Pairing} {log : List Message} (h : Fits id ps log)
    {ps' : List Pairing} (members : ∀ p ∈ ps', id ∈ p.members) : Fits id (ps ++ ps') log := by
  induction ps' generalizing ps with
  | nil =>
    rw [List.append_nil]
    exact h
  | cons p ps' ih =>
    rw [List.append_cons]
    apply ih
    · obtain ⟨es, rfl, hlog⟩ := h
      have hp : id ∈ p.members := members p (by simp)
      rcases hlog with hlog | ⟨roster, rfl⟩
      · let e : Episode id := ⟨p, [], ⟨id, 0⟩, [], ⟨id, id⟩, none, hp, by simp, .inl rfl⟩
        refine ⟨es ++ [e], by simp [e], .inl ?_⟩
        rw [word_concat]
        exact hlog.trans (List.prefix_append _ _)
      · let e : Episode id := ⟨p, roster, ⟨id, 0⟩, [], ⟨id, id⟩, none, hp, by simp, .inl rfl⟩
        refine ⟨es ++ [e], by simp [e], .inl ?_⟩
        rw [word_concat, List.prefix_append_right_inj]
        exact List.cons_prefix_cons.mpr ⟨rfl, List.nil_prefix⟩
    · intro q hq
      exact members q (List.mem_cons_of_mem p hq)

theorem Fits.of_prefix {ps : List Pairing} {log log' : List Message} (h : Fits id ps log)
    (hp : log' <+: log) : Fits id ps log' := by
  obtain ⟨es, hps, hlog⟩ := h
  refine ⟨es, hps, ?_⟩
  rcases hlog with hlog | ⟨roster, rfl⟩
  · exact .inl (hp.trans hlog)
  · rcases List.prefix_concat_iff.mp hp with hlog' | hlog'
    · exact .inr ⟨roster, hlog'⟩
    · exact .inl hlog'

/-- A log that fits is the beginning of a word. -/
theorem Fits.word {ps : List Pairing} {log : List Message} (h : Fits id ps log) :
    ∃ es next : List (Episode id), es.map Episode.pairing = ps ∧ next.length ≤ 1 ∧
      log <+: word id (es ++ next) ∧ log.length ≤ (word id es).length + next.length := by
  obtain ⟨es, hps, hlog | ⟨roster, rfl⟩⟩ := h
  · refine ⟨es, [], hps, Nat.zero_le 1, ?_, hlog.length_le⟩
    rw [List.append_nil]
    exact hlog
  · let e : Episode id :=
      ⟨⟨[id], 0⟩, roster, ⟨id, 0⟩, [], ⟨id, id⟩, none, by simp, by simp, .inl rfl⟩
    refine ⟨es, [e], hps, Nat.le_refl 1, ?_, ?_⟩
    · rw [word_concat, List.prefix_append_right_inj]
      exact List.cons_prefix_cons.mpr ⟨rfl, List.nil_prefix⟩
    · rw [List.length_append]
      exact Nat.le_refl _

/-- Where a player stands with a hall. -/
inductive Stage
  | out
  | admitted
  | idle
  | waiting
  | playing (p : Pairing)

/-- What one occasion can be to one player: the calls on the link, and the matches that begin. -/
inductive Hears (id : PlayerId) (o : Occasion) :
    Stage → Stage → List Link.Call → List Pairing → Prop
  | nothing {st : Stage} : Hears id o st st [] []
  | comes {now : Time} (connected : o = .notice now (.connected id)) :
      Hears id o .out .admitted [.send .accepted] []
  | registers : Hears id o .admitted .idle [.send (.assignId id)] []
  | waits {roster : List Player} : Hears id o .idle .waiting [.send (.roomPlayerList roster)] []
  | joins {p : Pairing} {roster : List Player} (member : id ∈ p.members)
      (second : p.members.head? ≠ some id) :
      Hears id o .idle (.playing p)
        [.send (.roomPlayerList roster), .send (.bagSeed p.seed), .send .allPlayersReady] [p]
  | isJoined {p : Pairing} {newcomer : Player} (member : id ∈ p.members)
      (first : p.members.head? = some id) :
      Hears id o .waiting (.playing p)
        [.send (.roomPlayerJoined newcomer), .send (.bagSeed p.seed), .send .allPlayersReady] [p]
  | report {p : Pairing} {m : Message} (relayed : m.kind.relayed = true) :
      Hears id o (.playing p) (.playing p) [.send m] []
  | verdict {p : Pairing} {v : Verdict} (leaver : Option PlayerId)
      (named : v.winner = id ∨ v.loser = id) :
      Hears id o (.playing p) .idle
        (.send (.gameOver v) :: (leaver.map fun x => .send (.roomPlayerLeft x)).toList) []
  | dismissed {st : Stage} (there : st ≠ .out) : Hears id o st .admitted [.shutdown] []
  | concedes {p : Pairing} {v : Verdict} (named : v.winner = id ∨ v.loser = id) :
      Hears id o (.playing p) .admitted [.send (.gameOver v), .shutdown] []
  | lost {st : Stage} : Hears id o st .out [] []
  | checked {st : Stage} {cs : List Link.Call} (there : st ≠ .out)
      (cuts : ∀ c ∈ cs, c = .disconnect) : Hears id o st st cs []

/-- What a player with an open link has heard, by where the player stands. -/
inductive Told (id : PlayerId) : Stage → List Pairing → List Message → Prop
  | out {ps : List Pairing} {log : List Message} (fits : Fits id ps log) : Told id .out ps log
  | admitted : Told id .admitted [] [.accepted]
  | idle (es : List (Episode id)) : Told id .idle (es.map Episode.pairing) (word id es)
  | waiting (es : List (Episode id)) (roster : List Player) :
      Told id .waiting (es.map Episode.pairing) (word id es ++ [.roomPlayerList roster])
  | playing (es : List (Episode id)) (p : Pairing) (roster : List Player) (newcomer : Player)
      {play : List Message} (member : id ∈ p.members)
      (relayed : ∀ m ∈ play, m.kind.relayed = true) :
      Told id (.playing p) (es.map Episode.pairing ++ [p])
        (word id es ++ beginning id p roster newcomer play)

variable {o : Occasion} {st st' : Stage} {ps ps' : List Pairing} {log : List Message}
  {cs cs' : List Link.Call}

theorem Hears.between {a b : Stage} (h : Hears id o a b cs ps) (ha : st = a) (hb : st' = b) :
    Hears id o st st' cs ps := by
  rw [ha, hb]
  exact h

theorem Hears.still (h : st' = st) : Hears id o st st' [] [] := by
  rw [h]
  exact .nothing

/-- One who is out hears nothing before coming in. -/
theorem Hears.silent (h : Hears id o .out st' cs ps) (ho : ∀ now, o ≠ .notice now (.connected id)) :
    ps = [] ∧ cs = [] := by
  cases h with
  | nothing => exact ⟨rfl, rfl⟩
  | comes connected => exact absurd connected (ho _)
  | dismissed there => exact absurd rfl there
  | lost => exact ⟨rfl, rfl⟩
  | checked there cuts => exact absurd rfl there

theorem Told.fits (h : Told id st ps log) : Fits id ps log := by
  cases h with
  | out fits => exact fits
  | admitted => exact ⟨[], rfl, .inl ⟨[.assignId id], rfl⟩⟩
  | idle es => exact ⟨es, rfl, .inl List.prefix_rfl⟩
  | waiting es roster => exact ⟨es, rfl, .inr ⟨roster, rfl⟩⟩
  | playing es p roster newcomer member relayed => exact .beginning roster newcomer member relayed

/-- The verdict completes the episode, with or without word of a leaver. -/
theorem Told.verdict {p : Pairing} {v : Verdict} (h : Told id (.playing p) ps log)
    (named : v.winner = id ∨ v.loser = id) (leaver : Option PlayerId) :
    Told id .idle ps (log ++ .gameOver v :: (leaver.map .roomPlayerLeft).toList) := by
  cases h with
  | @playing es _ roster newcomer play member relayed =>
    let e : Episode id := ⟨p, roster, newcomer, play, v, leaver, member, relayed, named⟩
    have hps : es.map Episode.pairing ++ [p] = (es ++ [e]).map Episode.pairing := by simp [e]
    rw [hps, List.append_assoc]
    change Told id .idle _ (word id es ++ e.text)
    rw [← word_concat]
    exact .idle (es ++ [e])

/-- How a player's log goes on: the link is open and the log is that of the stage, or the link was
closed and the log stays as it is. -/
inductive Spoke (id : PlayerId) (st : Stage) (ps : List Pairing) (cs : List Link.Call) : Prop
  | ongoing {log : List Message} (sent : cs = log.map .send) (told : Told id st ps log)
  | shut {c : Link.Call} (mem : c ∈ cs) (closes : ∀ m, c ≠ .send m)
      (fits : Fits id ps (Link.spoken cs))

theorem Spoke.fits (h : Spoke id st ps cs) : Fits id ps (Link.spoken cs) := by
  cases h with
  | shut mem closes fits => exact fits
  | @ongoing log sent told =>
    have hlog : Link.spoken (log.map .send) = log := by
      simpa [Link.spoken] using Link.spoken_send log []
    rw [sent, hlog]
    exact told.fits

theorem Spoke.said (ms : List Message) (told : Told id st ps (log ++ ms)) :
    Spoke id st ps (log.map .send ++ ms.map .send) :=
  .ongoing (List.map_append ..).symm told

/-- The calls up to the first close are heard, and no later ones. -/
theorem Spoke.closed (ms : List Message) {c : Link.Call} (closes : ∀ m, c ≠ .send m)
    (fits : Fits id ps (log ++ ms)) (rest : List Link.Call) :
    Spoke id st ps (log.map .send ++ (ms.map .send ++ c :: rest)) := by
  refine .shut (c := c) (by simp) closes ?_
  have hrest : Link.spoken (c :: rest) = [] := by
    cases c with
    | send m => exact absurd rfl (closes m)
    | shutdown => rfl
    | disconnect => rfl
  rw [Link.spoken_send, Link.spoken_send, hrest, List.append_nil]
  exact fits

/-- Whatever an occasion is to a player with an open link, the log goes on as the language has it. -/
theorem Told.step (h : Told id st ps log) (hh : Hears id o st st' cs' ps')
    (fresh : ∀ now, o = .notice now (.connected id) → ps = [] ∧ log = []) :
    Spoke id st' (ps ++ ps') (log.map .send ++ cs') := by
  cases hh with
  | nothing =>
    rw [List.append_nil, List.append_nil]
    exact .ongoing rfl h
  | comes connected =>
    obtain ⟨rfl, rfl⟩ := fresh _ connected
    exact .said [.accepted] .admitted
  | registers =>
    cases h
    exact .said [.assignId id] (.idle [])
  | @waits roster =>
    cases h with
    | idle es =>
      rw [List.append_nil]
      exact .said [.roomPlayerList roster] (.waiting es roster)
  | @joins p roster member second =>
    cases h with
    | idle es =>
      refine .said [.roomPlayerList roster, .bagSeed p.seed, .allPlayersReady] ?_
      have hb : Told id (.playing p) _ (word id es ++ beginning id p roster ⟨id, 0⟩ []) :=
        .playing es p roster ⟨id, 0⟩ member (by simp)
      simpa [beginning, second] using hb
  | @isJoined p newcomer member first =>
    cases h with
    | waiting es roster =>
      refine .said [.roomPlayerJoined newcomer, .bagSeed p.seed, .allPlayersReady] ?_
      have hb : Told id (.playing p) _ (word id es ++ beginning id p roster newcomer []) :=
        .playing es p roster newcomer member (by simp)
      simpa [beginning, first] using hb
  | @report p m relayed =>
    cases h with
    | @playing es _ roster newcomer play member hplay =>
      rw [List.append_nil]
      refine .said [m] ?_
      have hplay' : ∀ m' ∈ play ++ [m], m'.kind.relayed = true := by
        intro m' hm'
        rcases List.mem_append.mp hm' with hm' | hm'
        · exact hplay m' hm'
        · rw [List.mem_singleton.mp hm']
          exact relayed
      have hb := Told.playing es p roster newcomer member hplay'
      simpa [beginning] using hb
  | @verdict p v leaver named =>
    rw [List.append_nil]
    have hv := Spoke.said _ (h.verdict named leaver)
    cases leaver <;> exact hv
  | dismissed there =>
    rw [List.append_nil]
    refine .closed [] (c := .shutdown) (fun m hm => nomatch hm) ?_ []
    rw [List.append_nil]
    exact h.fits
  | @concedes p v named =>
    rw [List.append_nil]
    exact .closed [.gameOver v] (c := .shutdown) (fun m hm => nomatch hm)
      (h.verdict named none).fits []
  | lost =>
    rw [List.append_nil, List.append_nil]
    exact .ongoing rfl (.out h.fits)
  | checked there cuts =>
    rw [List.append_nil]
    cases cs' with
    | nil =>
      rw [List.append_nil]
      exact .ongoing rfl h
    | cons c cs =>
      rw [cuts c List.mem_cons_self]
      refine .closed [] (c := .disconnect) (fun m hm => nomatch hm) ?_ cs
      rw [List.append_nil]
      exact h.fits

/-- A log keeps to the language. Only a link that has not been there before may come. -/
theorem Spoke.step (h : Spoke id st ps cs) (hh : Hears id o st st' cs' ps')
    (members : ∀ p ∈ ps', id ∈ p.members)
    (fresh : ∀ now, o = .notice now (.connected id) → ps = [] ∧ cs = []) :
    Spoke id st' (ps ++ ps') (cs ++ cs') := by
  cases h with
  | shut mem closes fits =>
    refine .shut (List.mem_append_left _ mem) closes ?_
    rw [Link.spoken_closed mem closes]
    exact fits.extend members
  | @ongoing log sent told =>
    subst sent
    refine told.step hh ?_
    intro now ho
    obtain ⟨hps, hlog⟩ := fresh now ho
    exact ⟨hps, List.map_eq_nil_iff.mp hlog⟩

end BlockDuel.Hall
