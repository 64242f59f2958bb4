import BlockDuel.Proofs.Seat.Duelist

/-!
What the messages of a match come to. Each part of the opponent's half is as the last message about it says
that has the right size, and a verdict marks one half as lost; so only the order among messages of one kind
matters. While the messages are taken others may arrive and the line may drop, and nothing else of the match
is touched.
-/
namespace BlockDuel.Seat
open Wire

section

variable {β : Type}

/-- What a message of kind `k` with `size` octets tells; any other message leaves what was known. -/
def told (k : Kind) (size : Nat) (tell : Bytes → β) (old : β) (m : Message) : β :=
  if m.kind = k ∧ m.payload.length = size then tell m.payload else old

/-- What the last message of kind `k` with `size` octets tells, or what was known if there is none. -/
def latest (k : Kind) (size : Nat) (tell : Bytes → β) (old : β) (ms : List Message) : β :=
  ((ms.filter fun m => m.kind = k ∧ m.payload.length = size).getLast?.map
    fun m => tell m.payload).getD old

variable {k : Kind} {size : Nat} {tell : Bytes → β} {m m' : Message}

theorem told_of_kind (hk : m.kind ≠ k) (old : β) : told k size tell old m = old :=
  if_neg fun h => hk h.1

/-- Two messages of different kinds do not both tell of the same thing. -/
theorem told_comm (hk : m.kind ≠ m'.kind) (old : β) :
    told k size tell (told k size tell old m) m' = told k size tell (told k size tell old m') m := by
  by_cases hm : m.kind = k
  · have hm' : m'.kind ≠ k := fun h => hk (hm.trans h.symm)
    rw [told_of_kind hm', told_of_kind hm']
  · rw [told_of_kind hm, told_of_kind hm]

theorem latest_concat (old : β) (ms : List Message) (m : Message) :
    latest k size tell old (ms ++ [m]) = told k size tell (latest k size tell old ms) m := by
  unfold latest told
  rw [List.filter_append]
  by_cases hm : m.kind = k ∧ m.payload.length = size
  · simp [hm]
  · have hnone : [m].filter (fun m => decide (m.kind = k ∧ m.payload.length = size)) = [] :=
      List.filter_cons_of_neg (by simpa using hm)
    rw [hnone, List.append_nil, if_neg hm]

/-- Something in a match of which each message tells in this way is as the last message tells. -/
theorem foldl_latest {g : Play → β}
    (hg : ∀ p m, g (p.receive m) = told k size tell (g p) m) (p : Play) (ms : List Message) :
    g (ms.foldl Play.receive p) = latest k size tell (g p) ms := by
  induction ms using List.reverseRecOn with
  | nil => rfl
  | append_singleton ms m ih =>
    rw [List.foldl_concat, hg, ih, latest_concat]

end

/-- A value of a fixed width is there exactly if the size is right. -/
theorem read?_eq {α : Type} [Layout α] (m : Message) :
    m.read? α = if m.payload.length = Layout.width α then some (Layout.get m.payload) else none := by
  unfold Message.read? Message.read
  by_cases hl : m.payload.length = Layout.width α
  · rw [Payload.read_of_length hl, if_pos hl]
    rfl
  · rw [Payload.read_of_mismatch hl, if_neg hl]
    rfl

/-- Only the numbers from one to seven name a piece. -/
theorem piece?_eq_none_iff (f : Falling) :
    f.piece? = none ↔ ¬ (1 ≤ f.kind.toInt ∧ f.kind.toInt ≤ 7) := by
  unfold Falling.piece? Piece.ofCode?
  split <;> simp_all
  omega

/-- What the opponent's half is after a message, part by part. -/
theorem see_eq (h : Half) (m : Message) :
    see h m =
      { falling := told .curMinoState 16 Layout.get h.falling m
        held := told .holdMinoState 16 (fun bs => (Layout.get bs : Falling).piece?) h.held m
        preview := told .previewMinoState 20 Layout.get h.preview m
        board := told .boardState 920 Layout.get h.board m
        lost := h.lost } := by
  have hfalling : m.read? Falling =
      if m.payload.length = 16 then some (Layout.get m.payload) else none := read?_eq m
  have hpreview : m.read? Preview =
      if m.payload.length = 20 then some (Layout.get m.payload) else none := read?_eq m
  have hboard : m.read? Board =
      if m.payload.length = 920 then some (Layout.get m.payload) else none := read?_eq m
  unfold see told
  rw [hfalling, hpreview, hboard]
  cases m.kind with
  | curMinoState | holdMinoState => by_cases hl : m.payload.length = 16 <;> simp [hl]
  | previewMinoState => by_cases hl : m.payload.length = 20 <;> simp [hl]
  | boardState => by_cases hl : m.payload.length = 920 <;> simp [hl]
  | _ => simp

/-- What a match is after a message, part by part. -/
theorem receive_eq (p : Play) (m : Message) :
    p.receive m =
      { p with
        arena := { p.arena with
          own := { p.arena.own with
            lost := p.arena.own.lost || (Hall.verdictIn? m).any fun v => v.winner ≠ p.playerId }
          opponent := { see p.arena.opponent m with
            lost := p.arena.opponent.lost ||
              (Hall.verdictIn? m).any fun v => v.winner = p.playerId } }
        verdict := (Hall.verdictIn? m).or p.verdict } := by
  cases hm : Hall.verdictIn? m with
  | none =>
    rw [receive_undecided p hm, see_eq]
    simp
  | some v =>
    rw [receive_decided p hm, see_verdict hm]
    by_cases hv : v.winner = p.playerId
    · have hside : Play.endedSide p.playerId v = .there := if_pos hv
      simp [hside, Arena.setOver, hv]
    · have hside : Play.endedSide p.playerId v = .here := if_neg hv
      simp [hside, Arena.setOver, hv]

/-- The order of two messages of different kinds does not matter. -/
theorem receive_comm (p : Play) {m m' : Message} (hk : m.kind ≠ m'.kind) :
    (p.receive m).receive m' = (p.receive m').receive m := by
  have hsee (h : Half) : see (see h m) m' = see (see h m') m := by
    simp only [see_eq, told_comm hk]
  have hverdict : (Hall.verdictIn? m').or (Hall.verdictIn? m) =
      (Hall.verdictIn? m).or (Hall.verdictIn? m') := by
    unfold Hall.verdictIn?
    by_cases hm : m.kind = .gameOver
    · rw [if_neg fun hm' => hk (hm.trans hm'.symm), Option.or_none, Option.none_or]
    · rw [if_neg hm, Option.or_none, Option.none_or]
  simp only [receive_eq, see_lost, hsee, Bool.or_right_comm, ← Option.or_assoc, hverdict]

/-- Neither do they if others come before and after. -/
theorem foldl_receive_exchange (p : Play) {m m' : Message} (hk : m.kind ≠ m'.kind)
    (before after : List Message) :
    (before ++ m :: m' :: after).foldl Play.receive p =
      (before ++ m' :: m :: after).foldl Play.receive p := by
  simp only [List.foldl_append, List.foldl_cons, receive_comm _ hk]

/-- Whatever is received, the own half is only marked as lost, and the marks and the bag stay. -/
theorem foldl_receive_own (p : Play) (ms : List Message) :
    let a := (ms.foldl Play.receive p).arena
    a.own = { p.arena.own with lost := a.own.lost } ∧ a.changed = p.arena.changed ∧
      a.bag = p.arena.bag := by
  induction ms using List.reverseRecOn with
  | nil => exact ⟨rfl, rfl, rfl⟩
  | append_singleton ms m ih =>
    obtain ⟨hown, hchanged, hbag⟩ := ih
    rw [List.foldl_concat, receive_eq]
    refine ⟨?_, hchanged, hbag⟩
    dsimp only
    rw [hown]

/-- The opponent's half is what the last messages tell. -/
theorem foldl_receive_opponent (p : Play) (ms : List Message) :
    let before := p.arena.opponent
    let after := (ms.foldl Play.receive p).arena.opponent
    after.falling = latest .curMinoState 16 Layout.get before.falling ms ∧
      after.held =
        latest .holdMinoState 16 (fun bs => (Layout.get bs : Falling).piece?) before.held ms ∧
      after.preview = latest .previewMinoState 20 Layout.get before.preview ms ∧
      after.board = latest .boardState 920 Layout.get before.board ms := by
  have hpart (p : Play) (m : Message) :
      (p.receive m).arena.opponent =
        { see p.arena.opponent m with lost := (p.receive m).arena.opponent.lost } := by
    rw [receive_eq]
  refine ⟨foldl_latest (g := fun p => p.arena.opponent.falling) (fun p m => ?_) p ms,
    foldl_latest (g := fun p => p.arena.opponent.held) (fun p m => ?_) p ms,
    foldl_latest (g := fun p => p.arena.opponent.preview) (fun p m => ?_) p ms,
    foldl_latest (g := fun p => p.arena.opponent.board) (fun p m => ?_) p ms⟩
  all_goals rw [hpart, see_eq]

namespace Duelist

variable {c c' c'' : Duelist} {e : Event} {es : List Event} {taken : List Taken}

/-- A verdict that was heard is not forgotten. -/
theorem Moves.decided (hm : Moves c e c') (hv : c.play.verdict.isSome = true) :
    c'.play.verdict.isSome = true := by
  cases hm with
  | hears => exact receive_isSome _ hv
  | _ => exact hv

/-- What taking has come to when `taken` was taken in the course of `es`. -/
structure Took (c : Duelist) (es : List Event) (taken : List Taken) (c' : Duelist) : Prop where
  heard : c'.heard = c.heard ++ taken
  play : c'.play = (taken.map (·.message)).foldl Play.receive c.play
  said : c'.session.outgoing = c.session.outgoing ++ taken.flatMap Taken.answer
  linked : c'.session.isConnected = true → ∀ t ∈ taken, t.linked = true
  line : c'.session.line.map Line.id = c.session.line.map Line.id
  left : taken.map (·.message) ++ c.session.takes c'.session.inbox =
    c.session.takes c.session.inbox ++ c.session.takes (es.filterMap Event.brings)
  stage : c'.errand = .takes taken.length ∧ c'.counts = c.counts ∧
      c'.session.inbox.length + es.count .goesOn ≤
        c.session.inbox.length + es.countP (· ≠ .goesOn) ∨
    c'.errand = .idle ∧ c'.counts = c.counts ++ [taken.length] ∧
      c.session.takes c.session.inbox <+: taken.map (·.message)

/-- The end of a line is one notice at most. -/
theorem length_lineEnds (s : Session) : s.lineEnds.inbox.length ≤ s.inbox.length + 1 := by
  unfold Session.lineEnds
  split
  · simp [Session.hear]
  · omega

theorem Took.begins (he : c.errand = .idle) : Took c [] [] (c.next .process) := by
  rw [next_process he]
  exact ⟨(List.append_nil _).symm, rfl, (List.append_nil _).symm, (fun _ _ ht => nomatch ht), rfl,
    (List.append_nil _).symm, .inl ⟨rfl, rfl, le_refl _⟩⟩

/-- Nothing parts from the line while messages are taken. -/
theorem Took.stands (h : Took c es taken c') : c'.errand ≠ .parts := by
  obtain ⟨he, -⟩ | ⟨he, -⟩ := h.stage <;> rw [he] <;> nofun

/-- What waits after a further event, if `more` was taken. -/
theorem Took.left_moves (h : Took c es taken c') (hm : Moves c' e c'') {more : List Taken}
    (hheard : c''.heard = c'.heard ++ more) :
    (taken ++ more).map (·.message) ++ c.session.takes c''.session.inbox =
      c.session.takes c.session.inbox ++ c.session.takes ((es ++ [e]).filterMap Event.brings) := by
  have hconserves := hm.conserves h.stands
  have hbrings : [e].filterMap Event.brings = e.brings.toList := by cases e <;> rfl
  rw [Session.takes_of_id ((hm.line h.stands).trans h.line), Session.takes_of_id h.line, hheard,
    List.map_append, List.append_assoc, List.append_assoc, List.append_right_inj] at hconserves
  rw [List.filterMap_append, Session.takes_append, hbrings, ← List.append_assoc, ← h.left,
    List.map_append, List.append_assoc, List.append_assoc, hconserves]

/-- An event in which no message is taken and the taking does not end. -/
theorem Took.waits (h : Took c es taken c') (hm : Moves c' e c'') (hheard : c''.heard = c'.heard)
    (hplay : c''.play = c'.play) (hsaid : c''.session.outgoing = c'.session.outgoing)
    (he : c''.errand = c'.errand) (hcounts : c''.counts = c'.counts)
    (hpace : c'.errand ≠ .idle → c''.session.inbox.length + [e].count .goesOn ≤
      c'.session.inbox.length + [e].countP (· ≠ .goesOn)) :
    Took c (es ++ [e]) taken c'' := by
  have hleft := h.left_moves hm (hheard.trans (List.append_nil _).symm)
  rw [List.append_nil] at hleft
  refine ⟨hheard.trans h.heard, hplay.trans h.play, hsaid.trans h.said,
    fun hc => h.linked (hm.linked hc), (hm.line h.stands).trans h.line, hleft, ?_⟩
  rw [he, hcounts, List.count_append, List.countP_append]
  obtain ⟨htakes, hcounts, hpace'⟩ | hdone := h.stage
  · have := hpace (by rw [htakes]; nofun)
    exact .inl ⟨htakes, hcounts, by omega⟩
  · exact .inr hdone

theorem Took.moves (h : Took c es taken c') (hm : Moves c' e c'') (hcall : e.isCall = false) :
    ∃ more, Took c (es ++ [e]) (taken ++ more) c'' := by
  have hline := (hm.line h.stands).trans h.line
  cases hm with
  | stays hb hi =>
    have hpace (he : c'.errand ≠ .idle) : [e].count .goesOn = 0 :=
      List.count_eq_zero.mpr fun hmem => he (hi (List.mem_singleton.mp hmem).symm)
    refine ⟨[], ?_⟩
    rw [List.append_nil]
    exact h.waits (.stays hb hi) rfl rfl rfl rfl rfl fun he => by rw [hpace he]; omega
  | skips he hi ha =>
    refine ⟨[], ?_⟩
    rw [List.append_nil]
    exact h.waits (.skips he hi ha) rfl rfl rfl rfl rfl fun _ => by simp [hi]
  | arrives n =>
    refine ⟨[], ?_⟩
    rw [List.append_nil]
    exact h.waits (.arrives n) rfl rfl rfl rfl rfl fun _ => by simp [Session.hear]
  | drops =>
    have hlength := length_lineEnds c'.session
    refine ⟨[], ?_⟩
    rw [List.append_nil]
    exact h.waits .drops rfl rfl c'.session.lineEnds_spec.2.2.1 rfl rfl fun _ => by simpa using hlength
  | @hears count a m rest he hi ha =>
    have hm := Moves.hears he hi ha
    obtain ⟨htakes, hcounts, hpace⟩ | ⟨hidle, -⟩ := h.stage
    · have hcount : count = taken.length := Errand.takes.inj (he.symm.trans htakes)
      refine ⟨[⟨m, c'.session.isConnected⟩], ?_, ?_, ?_, ?_, hline, h.left_moves hm rfl,
        .inl ⟨?_, hcounts, ?_⟩⟩
      · dsimp only
        rw [h.heard, List.append_assoc]
      · dsimp only
        rw [h.play, List.map_append, List.foldl_append]
        rfl
      · dsimp only
        rw [h.said, List.flatMap_append, List.append_assoc]
        simp
      · intro hc t ht
        obtain ht | ht := List.mem_append.mp ht
        · exact h.linked hc t ht
        · rw [List.mem_singleton.mp ht]
          exact hc
      · rw [hcount, List.length_append]
        rfl
      · rw [hi, List.length_cons] at hpace
        simp only [List.count_append, List.countP_append, List.count_singleton_self,
          List.countP_singleton]
        simp only [ne_eq, not_true_eq_false, decide_false, Bool.false_eq_true, if_false] at hpace ⊢
        omega
    · cases hidle.symm.trans he
  | took he hi =>
    have hm := Moves.took he hi
    obtain ⟨htakes, hcounts, -⟩ | ⟨hidle, -⟩ := h.stage
    · have hcount := Errand.takes.inj (he.symm.trans htakes)
      have hleft := h.left_moves hm (List.append_nil _).symm
      have hall := h.left
      refine ⟨[], ?_⟩
      rw [List.append_nil] at hleft ⊢
      rw [hi] at hall
      refine ⟨h.heard, h.play, h.said, h.linked, hline, hleft, .inr ⟨rfl, ?_, ?_⟩⟩
      · rw [hcount, hcounts]
      · exact ⟨_, hall.symm.trans (List.append_nil _)⟩
    · cases hidle.symm.trans he
  | begins | turns | hides | opens | reports | bids => cases hcall
  | shows he | showed he | parts he =>
    obtain ⟨htakes, -⟩ | ⟨hidle, -⟩ := h.stage
    · cases htakes.symm.trans he
    · cases hidle.symm.trans he

/-- Whatever arrives in the course of it, taking goes on like this. -/
theorem run_took (he : c.errand = .idle) (hes : ∀ e ∈ es, e.isCall = false) :
    ∃ taken, Took c es taken (c.run (.process :: es)) := by
  induction es using List.reverseRecOn with
  | nil => exact ⟨[], .begins he⟩
  | append_singleton es e ih =>
    obtain ⟨taken, h⟩ := ih fun e' he' => hes e' (List.mem_append_left _ he')
    rw [← List.cons_append, run_concat]
    obtain ⟨more, hmore⟩ := h.moves (next_moves _ e) (hes e (by simp))
    exact ⟨taken ++ more, hmore⟩

/-- Each ping that is taken while the line is up is answered once, and nothing else is said. -/
theorem flatMap_answer (taken : List Taken) :
    taken.flatMap Taken.answer =
      List.replicate (taken.countP fun t => t.message.kind = .serverPing ∧ t.linked = true)
        .clientPong := by
  induction taken with
  | nil => rfl
  | cons t taken ih =>
    rw [List.flatMap_cons, ih, List.countP_cons, Taken.answer]
    by_cases ht : t.message.kind = .serverPing ∧ t.linked = true
    · simp [ht, List.replicate_succ]
    · simp [ht]

/-- To take what waits, whatever arrives in the meantime, takes the messages in their order; each part of the
opponent's half is then as the last message about it tells that has the right size, and the rest of the match is
as it was, but for the marks of a loss. Each ping is answered once while the line is up. The count at the end is
that of the messages, and the end comes once there have been as many steps as there are notices. If nothing
arrives in the meantime, all this is what `Play.process` does. Two messages of different kinds that are
exchanged make no difference to the match. -/
theorem last_told (c : Duelist) (he : c.errand = .idle) (es : List Event)
    (hes : ∀ e ∈ es, e.isCall = false) :
    let c' := c.run (.process :: es)
    (∃ taken, c'.heard = c.heard ++ taken ∧
      let ms := taken.map (·.message)
      let before := c.play.arena
      let after := c'.play.arena
      ms ++ c.session.takes c'.session.inbox =
        c.session.takes c.session.inbox ++ c.session.takes (es.filterMap Event.brings) ∧
      after.opponent.falling = latest .curMinoState 16 Layout.get before.opponent.falling ms ∧
      after.opponent.held =
        latest .holdMinoState 16 (fun bs => (Layout.get bs : Falling).piece?)
          before.opponent.held ms ∧
      after.opponent.preview = latest .previewMinoState 20 Layout.get before.opponent.preview ms ∧
      after.opponent.board = latest .boardState 920 Layout.get before.opponent.board ms ∧
      after.own = { before.own with lost := after.own.lost } ∧ after.changed = before.changed ∧
      after.bag = before.bag ∧
      c'.session.outgoing = c.session.outgoing ++ List.replicate
        (taken.countP fun t => t.message.kind = .serverPing ∧ t.linked = true) .clientPong ∧
      (c'.session.isConnected = true → ∀ t ∈ taken, t.linked = true) ∧
      (c'.errand = .idle → c'.counts = c.counts ++ [taken.length] ∧
        c.session.takes c.session.inbox <+: ms)) ∧
    (c.session.inbox.length + es.countP (· ≠ .goesOn) < es.count .goesOn → c'.errand = .idle) ∧
    (∀ n, c.session.inbox.length < n →
      ∃ heard, c.run (.process :: List.replicate n .goesOn) =
        let out := c.play.process c.session
        ⟨out.2.1, out.2.2, .idle, heard, c.counts ++ [out.1]⟩) ∧
    (∀ f : Falling, f.piece? = none ↔ ¬ (1 ≤ f.kind.toInt ∧ f.kind.toInt ≤ 7)) ∧
    ∀ (d : Duelist) (es' : List Event), d.errand = .idle → (∀ e ∈ es', e.isCall = false) →
      d.play = c.play → ∀ (m m' : Message) (before after : List Message), m.kind ≠ m'.kind →
        c'.heard.map (·.message) = c.heard.map (·.message) ++ (before ++ m :: m' :: after) →
        (d.run (.process :: es')).heard.map (·.message) =
          d.heard.map (·.message) ++ (before ++ m' :: m :: after) →
        (d.run (.process :: es')).play = c'.play := by
  intro c'
  obtain ⟨taken, h⟩ := run_took he hes
  refine ⟨⟨taken, h.heard, ?_⟩, fun hlong => ?_, fun n hn => run_process he hn, piece?_eq_none_iff,
    fun d es' hd hes' hplay m m' before after hk hheard hheard' => ?_⟩
  · have hopponent := foldl_receive_opponent c.play (taken.map (·.message))
    have hown := foldl_receive_own c.play (taken.map (·.message))
    rw [← h.play] at hopponent hown
    refine ⟨h.left, hopponent.1, hopponent.2.1, hopponent.2.2.1, hopponent.2.2.2, hown.1, hown.2.1,
      hown.2.2, ?_, h.linked, fun hidle => ?_⟩
    · rw [← flatMap_answer]
      exact h.said
    · obtain ⟨htakes, -⟩ | ⟨-, hdone⟩ := h.stage
      · cases hidle.symm.trans htakes
      · exact hdone
  · obtain ⟨-, -, hpace⟩ | ⟨hidle, -⟩ := h.stage
    · omega
    · exact hidle
  · obtain ⟨taken', h'⟩ := run_took hd hes'
    rw [h.heard, List.map_append, List.append_right_inj] at hheard
    rw [h'.heard, List.map_append, List.append_right_inj] at hheard'
    change _ = (c.run _).play
    rw [h.play, h'.play, hheard, hheard', hplay, foldl_receive_exchange _ hk]

/-- A hold of no known piece and a ping come in either order before a report that is too short. -/
theorem last_told_either_order :
    let s (ms : List Message) : Session := ⟨some ⟨1, true⟩, ms.map (.message 1), some 7, 2, []⟩
    let c (ms : List Message) := start (.start (.start 0) 7) (s ms)
    let short : Message := ⟨.curMinoState, [0]⟩
    let es := Event.process :: List.replicate 4 .goesOn
    ((c [.held ⟨9, 0, 0, 0⟩, .serverPing, short]).run es).errand = .idle ∧
      ((c [.serverPing, .held ⟨9, 0, 0, 0⟩, short]).run es).play =
        ((c [.held ⟨9, 0, 0, 0⟩, .serverPing, short]).run es).play := by
  intro s c short es
  obtain ⟨-, hends, -, -, hexchange⟩ := last_told (c [.held ⟨9, 0, 0, 0⟩, .serverPing, short]) rfl
    (List.replicate 4 .goesOn) (by decide)
  exact ⟨hends (by decide), hexchange (c [.serverPing, .held ⟨9, 0, 0, 0⟩, short]) _ rfl (by decide) rfl
    (.held ⟨9, 0, 0, 0⟩) .serverPing [] [short] (by decide) rfl rfl⟩

end Duelist
end BlockDuel.Seat
