import BlockDuel.Proofs.Link.Flush
import BlockDuel.Proofs.Link.Lifecycle
import BlockDuel.Proofs.Seat.Sayings

/-!
A player in a match at its link. What the player says is sent over the link, what the link reports arrives in
the session, and whoever gives up the line closes the link behind all that was said. The stream may do as it
likes; if the close is carried out, it has taken every message in full, and the goodbye last.
-/
namespace BlockDuel

/-- The notice tells of the end of a link. -/
def Notice.isLost : Notice → Bool
  | lost _ => true
  | _ => false

namespace Link

theorem Tells.any_isLost {id : PlayerId} {announce : Bool} {l : Link} {ms : List Wire.Message}
    (h : l.Tells id announce ms) : l.notices.any Notice.isLost = decide (l.phase = .closed) := by
  have hsaid : (ms.map (Notice.message id)).any Notice.isLost = false := by
    simp [Notice.isLost]
  rw [h.notices, List.any_append, List.any_append, hsaid]
  by_cases hp : l.phase = .closed
  · rw [farewell_closed hp]
    simp [hp, Notice.isLost]
  · cases announce <;> simp [farewell_live hp, hp, greeting, Notice.isLost]

namespace Passage

variable {p : Passage} {e : Event}

/-- Unless it is called, a link queues nothing, and its phase is the same or it ends. -/
theorem act_uncalled (hc : ∀ c, e ≠ .call c) :
    (p.act e).posted = p.posted ∧
      ((p.act e).link.phase = p.link.phase ∨ (p.act e).link.phase = .closed) := by
  cases e with
  | call c => exact absurd rfl (hc c)
  | reader =>
    refine ⟨rfl, ?_⟩
    cases hturn : p.bench.readerTurn with
    | none => exact .inl (by simp [act, link, hturn])
    | some b' =>
      obtain ⟨t, -, hlink, -⟩ := Bench.readerTurn_due hturn
      have hact : (p.act .reader).link = t.run p.link := by simpa [act, link, hturn] using hlink
      rw [hact]
      exact t.run_phase
  | writer =>
    refine ⟨rfl, ?_⟩
    cases hturn : p.bench.writerTurn with
    | none => exact .inl (by simp [act, link, hturn])
    | some b' =>
      obtain ⟨t, -, hlink, -⟩ := Bench.writerTurn_due hturn
      have hact : (p.act .writer).link = t.run p.link := by simpa [act, link, hturn] using hlink
      rw [hact]
      exact t.run_phase
  | passes | arrives | fetches | leaves | breaks =>
    have h := p.act_rests hc (by simp) (by simp)
    exact ⟨h.posted, .inl (congrArg Link.phase h.link)⟩

/-- What is sent is queued while the link is open, and the phase is the same. -/
theorem run_sends (opened : p.link.phase = .opened) (ms : List Wire.Message) :
    let p' := p.run (ms.map fun m => .call (.send m))
    p'.posted = p.posted ++ ms ∧ p'.link.phase = p.link.phase := by
  induction ms generalizing p with
  | nil => exact ⟨(List.append_nil _).symm, rfl⟩
  | cons m ms ih =>
    have hphase : (p.act (.call (.send m))).link.phase = p.link.phase := send_phase m
    have hposted := act_posted opened (.call (.send m))
    obtain ⟨hrest, hphase'⟩ := ih (hphase.trans opened)
    refine ⟨?_, hphase'.trans hphase⟩
    refine hrest.trans ?_
    rw [hposted, List.append_assoc]
    rfl

end Passage
end Link

namespace Seat
open Wire

/-- A player in a match, and the link that its line is. -/
structure Bout where
  duelist : Duelist
  passage : Link.Passage
  /-- The ticket for the close of the link, once the player has given up the line. -/
  ticket : Option Nat

namespace Bout

/-- Something that the player does, or that happens at the link or to its stream. -/
inductive Event
  | plays (e : Duelist.Event)
  | line (e : Link.Event)
  deriving DecidableEq

/-- What a notice of the link is for the player. -/
def tells : Notice → Duelist.Event
  | .lost _ => .drops
  | n => .arrives n

/-- The player takes a step. What it says is sent, and if it gives up the line, the link is to close. -/
def plays (b : Bout) (e : Duelist.Event) : Bout :=
  let d := b.duelist.next e
  let said := d.session.outgoing.drop b.duelist.session.outgoing.length
  let p := b.passage.run (said.map fun m => .call (.send m))
  if b.duelist.session.line.isSome ∧ d.session.line = none then
    ⟨d, p.act (.call .shutdown), some p.link.tickets.length⟩
  else ⟨d, p, b.ticket⟩

/-- Something happens at the link. What it reports reaches the player. -/
def hears (b : Bout) (e : Link.Event) : Bout :=
  let p := b.passage.act e
  let news := p.link.notices.drop b.passage.link.notices.length
  ⟨b.duelist.run (news.map tells), p, b.ticket⟩

/-- One event. Only the link brings notices to the player, and only the player calls the link. -/
def next (b : Bout) : Event → Bout
  | .plays (.arrives _) | .plays .drops => b
  | .plays e => b.plays e
  | .line (.call _) => b
  | .line e => b.hears e

def run (b : Bout) (es : List Event) : Bout := es.foldl next b

def start (arena : Arena) (id : PlayerId) (s : Session) (p : Link.Passage) : Bout :=
  ⟨.start (.start arena id) s, p, none⟩

variable {b : Bout} {c c' : Duelist} {e : Duelist.Event}

/-- What is reported changes the line and what waits, and nothing else. -/
theorem run_tells (c : Duelist) (ns : List Notice) :
    let c' := c.run (ns.map tells)
    c'.session.line = c.session.line.map (fun l => ⟨l.id, l.isOpen && !ns.any Notice.isLost⟩) ∧
      c'.session.outgoing = c.session.outgoing ∧ c'.play = c.play ∧ c'.errand = c.errand := by
  induction ns generalizing c with
  | nil => simp [Duelist.run]
  | cons n ns ih =>
    obtain ⟨hline, hsaid, hplay, he⟩ := ih (c.next (tells n))
    have hfirst : (c.next (tells n)).session.line =
        c.session.line.map (fun l => ⟨l.id, l.isOpen && !n.isLost⟩) ∧
        (c.next (tells n)).session.outgoing = c.session.outgoing := by
      cases n with
      | lost i =>
        refine ⟨?_, c.session.lineEnds_spec.2.2.1⟩
        change c.session.lineEnds.line = _
        unfold Session.lineEnds
        split
        · next hl => simp [Session.hear, hl, Notice.isLost]
        · next hl =>
          cases hs : c.session.line with
          | none => rfl
          | some l =>
            obtain ⟨i, isOpen⟩ := l
            cases isOpen with
            | true => exact absurd hs (hl i)
            | false => rfl
      | connected | message => simp [tells, Duelist.next, Session.hear, Notice.isLost]
    have hrest : (c.next (tells n)).play = c.play ∧ (c.next (tells n)).errand = c.errand := by
      cases n <;> exact ⟨rfl, rfl⟩
    refine ⟨?_, hsaid.trans hfirst.2, hplay.trans hrest.1, he.trans hrest.2⟩
    refine hline.trans ?_
    rw [hfirst.1, Option.map_map]
    congr 1
    funext l
    simp [Bool.and_assoc, Function.comp]

/-- Something is said only on a line that is up. -/
theorem adds (h : Duelist.Moves c e c') :
    ∃ new, c'.session.outgoing = c.session.outgoing ++ new ∧
      (c.session.isConnected = false → new = []) := by
  cases h with
  | hears => exact ⟨_, rfl, fun hc => by simp [Taken.answer, hc]⟩
  | shows | bids => exact ⟨_, rfl, fun hc => Duelist.passes_unlinked hc _⟩
  | reports _ _ hc => exact ⟨_, rfl, fun hc' => by simp [hc] at hc'⟩
  | parts | drops => exact ⟨[], by simp [c.session.lineEnds_spec.2.2.1, Session.disconnect], fun _ => rfl⟩
  | _ => exact ⟨[], (List.append_nil _).symm, fun _ => rfl⟩

/-- Of its own accord a player changes its line only by giving it up. -/
theorem line_of_own (h : Duelist.Moves c e c') (hb : e.brings = none) (hd : e ≠ .drops) :
    c'.session.line = c.session.line ∨ c.errand = .parts ∧ c'.session.line = none := by
  cases h with
  | parts he => exact .inr ⟨he, rfl⟩
  | arrives => cases hb
  | drops => exact absurd rfl hd
  | _ => exact .inl rfl

/-- All that the player has said was sent, and both see the line alike; and once the player has given it up, the
link is to close behind the goodbye unless it had ended before. -/
structure Coupled (b : Bout) : Prop where
  stage : b.passage.link.Stage
  flows : b.passage.link.Flows b.passage.said b.passage.posted
  reports : ∃ id announce, b.passage.link.Reports id announce b.passage.heard
  posted : b.passage.posted = b.duelist.session.outgoing
  spoken : ∃ before ms, b.duelist.Spoken before ms
  bond : (∃ l, b.duelist.session.line = some l ∧ l.isOpen = b.passage.link.isOpen ∧ b.ticket = none) ∨
    b.duelist.session.line = none ∧ b.passage.link.phase ≠ .opened ∧
      ∃ t, b.ticket = some t ∧ (b.passage.outcome? t = some (.error .closed) ∨
        ∃ front, b.duelist.session.outgoing = front ++ [.unregister b.duelist.play.playerId])

/-- A link that reports its end to a player is closed from then on. -/
theorem Coupled.open_after (h : b.Coupled) {l : Link.Event} (hc : ∀ c, l ≠ .call c) :
    let p := b.passage.act l
    p.link.isOpen = (b.passage.link.isOpen &&
      !(p.link.notices.drop b.passage.link.notices.length).any Notice.isLost) := by
  intro p
  obtain ⟨id, announce, hreports⟩ := h.reports
  have hafter := (Link.Passage.run_reports hreports [l]).tells.any_isLost
  obtain ⟨_, _, _, hstep, -⟩ := b.passage.act_step l
  by_cases hp : b.passage.link.phase = .opened
  · have hbefore := hreports.tells.any_isLost
    obtain ⟨news, hnews⟩ := hstep.notices_isPrefix
    change p.link.notices.any Notice.isLost = decide (p.link.phase = .closed) at hafter
    have hdrop : p.link.notices.drop b.passage.link.notices.length = news := by
      rw [← hnews, List.drop_left]
    rw [← hnews, List.any_append, hbefore] at hafter
    rw [hdrop, Link.isOpen, Link.isOpen]
    obtain hphase | hphase := (Link.Passage.act_uncalled (p := b.passage) hc).2
    · have hopen : p.link.phase = .opened := hphase.trans hp
      simp_all
    · have hclosed : p.link.phase = .closed := hphase
      simp_all
  · have hp' : p.link.phase ≠ .opened := hstep.not_opened hp
    simp [Link.isOpen, hp, hp']

theorem Coupled.hears (h : b.Coupled) {l : Link.Event} (hc : ∀ c, l ≠ .call c) :
    (b.hears l).Coupled := by
  obtain ⟨peer, announce, hreports⟩ := h.reports
  obtain ⟨before, ms, hspoken⟩ := h.spoken
  obtain ⟨_, _, _, hstep, -⟩ := b.passage.act_step l
  have hopen := h.open_after hc
  unfold Bout.hears
  dsimp only at hopen ⊢
  generalize hnews : (b.passage.act l).link.notices.drop b.passage.link.notices.length = news at hopen ⊢
  obtain ⟨hline, hsaid, hplay, -⟩ := run_tells b.duelist news
  obtain ⟨new, hspoken'⟩ := Duelist.run_spoken hspoken (news.map tells)
  refine ⟨Link.Passage.run_stage h.stage [l], Link.Passage.run_flows h.stage h.flows [l],
    ⟨peer, announce, Link.Passage.run_reports hreports [l]⟩, ?_, ⟨_, _, hspoken'⟩, ?_⟩
  · rw [hsaid]
    exact (Link.Passage.act_uncalled hc).1.trans h.posted
  · dsimp only
    rw [hline, hsaid, hplay]
    refine h.bond.imp ?_ ?_
    · rintro ⟨k, hk, hkopen, hticket⟩
      exact ⟨_, by rw [hk]; rfl, by rw [hopen, ← hkopen], hticket⟩
    · rintro ⟨hnone, hshut, t, ht, hleft⟩
      exact ⟨by rw [hnone]; rfl, hstep.not_opened hshut, t, ht,
        hleft.imp (fun hout => Link.Passage.run_keeps hout [l]) id⟩

/-- The session knows whether the link is open. -/
theorem Coupled.connected_iff (h : b.Coupled) :
    b.duelist.session.isConnected = true ↔ b.passage.link.phase = .opened := by
  rw [← Link.isOpen_iff]
  unfold Session.isConnected
  obtain ⟨l, hl, hopen, -⟩ | ⟨hnone, hshut, -⟩ := h.bond
  · simp [hl, hopen]
  · simp [hnone, Link.isOpen, hshut]

/-- What the player says, the link queues. -/
theorem Coupled.sends (h : b.Coupled) {new : List Message}
    (hnew : b.duelist.session.isConnected = false → new = []) :
    let p := b.passage.run (new.map fun m => .call (.send m))
    p.posted = b.passage.posted ++ new ∧ p.link.phase = b.passage.link.phase := by
  cases hc : b.duelist.session.isConnected with
  | true => exact Link.Passage.run_sends (h.connected_iff.mp hc) new
  | false =>
    rw [hnew hc]
    exact ⟨(List.append_nil _).symm, rfl⟩

/-- The player gives up the line. -/
theorem Coupled.parts (h : b.Coupled) (he : b.duelist.errand = .parts)
    {d : Duelist} (hm : Duelist.Moves b.duelist e d) (hline : d.session.line = none) :
    Coupled ⟨d, b.passage.act (.call .shutdown), some b.passage.link.tickets.length⟩ := by
  obtain ⟨peer, announce, hreports⟩ := h.reports
  obtain ⟨before, ms, hspoken⟩ := h.spoken
  obtain ⟨new, hspoken'⟩ := hspoken.moves hm
  have hsaid := (hm.gone (.inl he)).2.1
  refine ⟨Link.Passage.run_stage h.stage [.call .shutdown],
    Link.Passage.run_flows h.stage h.flows [.call .shutdown],
    ⟨peer, announce, Link.Passage.run_reports hreports [.call .shutdown]⟩, ?_, ⟨_, _, hspoken'⟩,
    .inr ⟨hline, Link.shutdown_not_open, _, rfl, ?_⟩⟩
  · change b.passage.posted ++ [] = d.session.outgoing
    rw [List.append_nil, hsaid, h.posted]
  · by_cases hp : b.passage.link.phase = .opened
    · obtain ⟨front, hfront⟩ := hspoken.bidden he (h.connected_iff.mpr hp)
      refine .inr ⟨before ++ front, ?_⟩
      dsimp only
      rw [hsaid, hm.playerId, hspoken.said, hfront, List.append_assoc]
    · exact .inl (Link.Passage.act_shutdown_shut hp)

/-- The player keeps its line, or has none. -/
theorem Coupled.stays (h : b.Coupled) {d : Duelist} (hm : Duelist.Moves b.duelist e d)
    {new : List Message} (hsaid : d.session.outgoing = b.duelist.session.outgoing ++ new)
    (hnew : b.duelist.session.isConnected = false → new = [])
    (hline : d.session.line = b.duelist.session.line) :
    Coupled ⟨d, b.passage.run (new.map fun m => .call (.send m)), b.ticket⟩ := by
  obtain ⟨peer, announce, hreports⟩ := h.reports
  obtain ⟨before, ms, hspoken⟩ := h.spoken
  obtain ⟨more, hspoken'⟩ := hspoken.moves hm
  obtain ⟨hposted, hphase⟩ := h.sends hnew
  refine ⟨Link.Passage.run_stage h.stage _, Link.Passage.run_flows h.stage h.flows _,
    ⟨peer, announce, Link.Passage.run_reports hreports _⟩, ?_, ⟨_, _, hspoken'⟩, ?_⟩
  · rw [hsaid, ← h.posted]
    exact hposted
  · dsimp only
    refine h.bond.imp ?_ ?_
    · rintro ⟨l, hl, hopen, hticket⟩
      refine ⟨l, hline.trans hl, ?_, hticket⟩
      rw [hopen, Link.isOpen, Link.isOpen, hphase]
    · rintro ⟨hnone, hshut, t, ht, hleft⟩
      refine ⟨hline.trans hnone, hphase ▸ hshut, t, ht, ?_⟩
      rw [(hm.gone (.inr hnone)).2.1, hm.playerId]
      exact hleft.imp (fun hout => Link.Passage.run_keeps hout _) id

theorem Coupled.plays (h : b.Coupled) (hb : e.brings = none) (hd : e ≠ .drops) :
    (b.plays e).Coupled := by
  have hm := Duelist.next_moves b.duelist e
  obtain ⟨new, hsaid, hnew⟩ := adds hm
  unfold Bout.plays
  dsimp only
  rw [hsaid, List.drop_left]
  split
  · next hgives =>
    obtain hline | ⟨he, hline⟩ := line_of_own hm hb hd
    · simp [← hline, hgives.2] at hgives
    · have hnone : new = [] := List.append_right_eq_self.mp (hsaid.symm.trans (hm.gone (.inl he)).2.1)
      rw [hnone]
      exact h.parts he hm hline
  · next hkeeps =>
    refine h.stays hm hsaid hnew ?_
    obtain hline | ⟨-, hline⟩ := line_of_own hm hb hd
    · exact hline
    · rw [hline]
      exact (by simpa [hline] using hkeeps : b.duelist.session.line = none).symm

theorem Coupled.next (h : b.Coupled) (e : Event) : (b.next e).Coupled := by
  cases e with
  | plays e =>
    cases e with
    | arrives | drops => exact h
    | turns | process | sync | reports | leaves | goesOn => exact h.plays rfl nofun
  | line e =>
    cases e with
    | call => exact h
    | reader | writer | passes | arrives | fetches | leaves | breaks => exact h.hears nofun

theorem Coupled.run (h : b.Coupled) (es : List Event) : (b.run es).Coupled := by
  induction es generalizing b with
  | nil => exact h
  | cons e es ih => exact ih (h.next e)

/-- The player in a bout is one like any other. -/
theorem next_duelist (b : Bout) (e : Event) : ∃ es, (b.next e).duelist = b.duelist.run es := by
  have hplays (e : Duelist.Event) : (b.plays e).duelist = b.duelist.run [e] := by
    unfold Bout.plays
    dsimp only
    split <;> rfl
  cases e with
  | plays e =>
    cases e with
    | arrives | drops => exact ⟨[], rfl⟩
    | turns | process | sync | reports | leaves | goesOn => exact ⟨_, hplays _⟩
  | line e =>
    cases e with
    | call => exact ⟨[], rfl⟩
    | reader | writer | passes | arrives | fetches | leaves | breaks => exact ⟨_, rfl⟩

theorem run_duelist (b : Bout) (es : List Event) : ∃ es', (b.run es).duelist = b.duelist.run es' := by
  induction es generalizing b with
  | nil => exact ⟨[], rfl⟩
  | cons e es ih =>
    obtain ⟨first, hfirst⟩ := b.next_duelist e
    obtain ⟨rest, hrest⟩ := ih (b.next e)
    refine ⟨first ++ rest, ?_⟩
    rw [Duelist.run_append, ← hfirst]
    exact hrest

theorem start_coupled (arena : Arena) (id : PlayerId) {s : Session} {peer : PlayerId}
    {limit capacity now : Nat} {es : List Link.Event} :
    let p := (Link.Passage.opened peer limit false capacity now).run es
    s.line = some ⟨peer, p.link.isOpen⟩ → s.outgoing = p.posted → (start arena id s p).Coupled := by
  intro p hline hsaid
  have hspawn : (Link.Passage.opened peer limit false capacity now).link = .spawn peer limit false := rfl
  exact ⟨Link.Passage.run_stage (hspawn ▸ Link.stage_spawn peer limit false) es,
    Link.Passage.run_flows (hspawn ▸ Link.stage_spawn peer limit false)
      (hspawn ▸ Link.flows_spawn peer limit false) es,
    ⟨peer, false, Link.Passage.run_reports (hspawn ▸ Link.spawn_reports peer limit false) es⟩,
    hsaid.symm, ⟨_, _, .start arena id s⟩, .inl ⟨_, hline, rfl, rfl⟩⟩

/-- What a player says from the start of a match on, however its calls, what arrives and the end of the line fall
together: signs of life, what it shows of its own half, its death at most once and its goodbye, which both name
it, and nothing after the goodbye. To report the death fails if and only if the line is down and no death was
reported, and then changes nothing. Without a line nothing is shown and all marks stay; with a line the marked
parts are handed over in their order, all of them unless the line ends meanwhile, and the marks are cleared. A
call during which nothing else happens is one of `Play.process`, `Play.sync`, `Play.reportDeath` and `Play.leave`.
If the player's line is a link, whatever came and went over it before the match, and the close that the player asks
for at last is carried out, then the stream has taken all that was ever said over the link, and nothing else, and
the goodbye is the end of it. -/
theorem says_and_parts (arena : Arena) (id : PlayerId) (s : Session) :
    (∀ es, let c := (Duelist.start (.start arena id) s).run es
      ∃ ms, c.session.outgoing = s.outgoing ++ ms ∧
        (∀ m ∈ ms, m = .clientPong ∨ m.kind ∈ shownKinds ∨ m = .playerDead id ∨
          m = .unregister id) ∧
        ms.countP (·.kind = .playerDead) ≤ 1 ∧
        (∀ front m rest, ms = front ++ m :: rest → m.kind = .unregisterWithServer →
          rest = [] ∧ ∀ es', (c.run es').session.outgoing = c.session.outgoing) ∧
        (c.errand = .idle →
          ((∃ f, (c.play.reportDeath c.session).1 = .error f) ↔
            .playerDead id ∉ ms ∧ c.session.isConnected = false) ∧
          ((∃ f, (c.play.reportDeath c.session).1 = .error f) → c.next .reports = c) ∧
          (c.session.isConnected = false → c.next .sync = { c with counts := c.counts ++ [0] }) ∧
          (c.session.isConnected = true → ∀ es', (∀ e ∈ es', e.isCall = false) →
            let c' := c.run (.sync :: es')
            let batch := marked c.play.arena
            (∃ sent, c'.session.outgoing = c.session.outgoing ++ sent ∧ sent <+: batch ∧
              (c'.errand = .idle → c'.session.isConnected = true → sent = batch)) ∧
            (c'.errand = .idle → c'.play.arena = c.play.arena.clearChanges ∧
              c'.counts = c.counts ++ [batch.length]) ∧
            (batch.length < es'.count .goesOn → c'.errand = .idle)) ∧
          (∀ n, c.session.inbox.length < n → ∃ heard, c.run (.process :: List.replicate n .goesOn) =
            let out := c.play.process c.session
            ⟨out.2.1, out.2.2, .idle, heard, c.counts ++ [out.1]⟩) ∧
          (∀ n, (marked c.play.arena).length < n → c.run (.sync :: List.replicate n .goesOn) =
            let out := c.play.sync c.session
            { c with play := out.2.1, session := out.2.2, counts := c.counts ++ [out.1] }) ∧
          (c.next .reports =
            let out := c.play.reportDeath c.session
            { c with play := out.2.1, session := out.2.2 }) ∧
          c.run [.leaves, .goesOn] = { c with session := (c.play.leave c.session).2 })) ∧
    ∀ (peer : PlayerId) (limit capacity now : Nat) (before : List Link.Event),
      let p := (Link.Passage.opened peer limit false capacity now).run before
      s.line = some ⟨peer, p.link.isOpen⟩ → s.outgoing = p.posted → ∀ es,
        let b := (start arena id s p).run es
        (∃ es', b.duelist = (Duelist.start (.start arena id) s).run es') ∧
        (b.ticket.isSome ↔ b.duelist.session.line = none) ∧
        ∀ t, b.ticket = some t → b.passage.outcome? t = some (.ok ()) →
          b.passage.said = b.duelist.session.outgoing.flatMap encode ∧
          ∃ front, b.duelist.session.outgoing = front ++ [.unregister id] := by
  have hid (es : List Duelist.Event) :
      ((Duelist.start (.start arena id) s).run es).play.playerId = id :=
    Duelist.run_induction (P := fun c => c.play.playerId = id) rfl
      (fun h hm => hm.playerId.trans h) es
  constructor
  · intro es
    obtain ⟨ms, h⟩ := Duelist.run_spoken (.start arena id s) es
    rw [List.nil_append] at h
    refine ⟨ms, h.said, ?_, ?_, fun front m rest hms hk => ?_,
      fun he => ⟨?_, ?_, ?_, ?_, fun n => Duelist.run_process he, fun n hn => ?_, if_pos he,
        Duelist.run_leaves he⟩⟩
    · have heach := h.each
      rw [hid es] at heach
      exact heach
    · rw [h.deaths]
      split <;> omega
    · obtain ⟨hrest, hgone⟩ := h.last hms hk
      exact ⟨hrest, Duelist.run_gone hgone⟩
    · have hiff := h.reportDeath_error_iff
      rw [hid es] at hiff
      exact hiff
    · exact Duelist.next_reports_of_error
    · intro hc
      simp [Duelist.next, he, hc]
    · intro hc es' hes'
      obtain ⟨sent, hshowing⟩ := Duelist.run_showing he hc hes'
      obtain ⟨past, rest, hbatch, hsent, hall, hstage⟩ := hshowing.stage
      rw [← pending_eq]
      refine ⟨⟨sent, hshowing.said, ?_, fun hidle hlinked => ?_⟩, fun hidle => ?_, fun hlong => ?_⟩
      · rw [hbatch]
        exact hsent.trans (List.prefix_append _ _)
      · obtain ⟨hshows, -⟩ | ⟨-, hrest, -⟩ := hstage
        · cases hidle.symm.trans hshows
        · rw [hbatch, hrest, List.append_nil]
          exact hall hlinked
      · obtain ⟨hshows, -⟩ | ⟨-, -, hdone⟩ := hstage
        · cases hidle.symm.trans hshows
        · exact hdone
      · obtain ⟨-, hpast, -⟩ | ⟨hidle, -⟩ := hstage
        · rw [hbatch, List.length_append] at hlong
          omega
        · exact hidle
    · rw [← pending_eq] at hn
      exact Duelist.run_sync he hn
  · intro peer limit capacity now before p hline hsaid es b
    have h : b.Coupled := (start_coupled arena id hline hsaid).run es
    obtain ⟨es', hes'⟩ := run_duelist (start arena id s p) es
    refine ⟨⟨es', hes'⟩, ?_, fun t ht hok => ⟨?_, ?_⟩⟩
    · obtain ⟨l, hl, -, hticket⟩ | ⟨hnone, -, t, ht, -⟩ := h.bond
      · simp [hl, hticket]
      · simp [hnone, ht]
    · rw [← h.posted]
      exact h.flows.flushed t (Link.Passage.outcome?_eq_some.mp hok)
    · obtain ⟨l, hl, -, hticket⟩ | ⟨hnone, -, t', ht', hleft⟩ := h.bond
      · cases ht.symm.trans hticket
      · cases ht.symm.trans ht'
        obtain hclosed | ⟨front, hfront⟩ := hleft
        · cases hok.symm.trans hclosed
        · refine ⟨front, ?_⟩
          rw [hfront, hes']
          exact congrArg (fun i => front ++ [Message.unregister i]) (hid es')

/-- A player who has asked for a room before the match reports its death and leaves at once. -/
theorem says_and_parts_in_full :
    let p := (Link.Passage.opened 1 5000 false 64 0).run [.call (.send .requestRoomJoin)]
    let s : Session := ⟨some ⟨1, true⟩, [], some 7, 2, [.requestRoomJoin]⟩
    let b := (start (.start 0) 7 s p).run
      ([.plays .reports, .plays .leaves, .plays .goesOn] ++ List.replicate 8 (.line .writer))
    b.ticket = some 0 ∧ b.passage.outcome? 0 = some (.ok ()) ∧
      b.passage.said = [.requestRoomJoin, .playerDead 7, .unregister 7].flatMap encode := by
  have h := (says_and_parts (.start 0) 7 ⟨some ⟨1, true⟩, [], some 7, 2, [.requestRoomJoin]⟩).2 1
    5000 64 0 [.call (.send .requestRoomJoin)] (by decide +kernel) (by decide +kernel)
    ([.plays .reports, .plays .leaves, .plays .goesOn] ++ List.replicate 8 (.line .writer))
  have hcarried := h.2.2 0 (by decide +kernel) (by decide +kernel)
  refine ⟨by decide +kernel, by decide +kernel, hcarried.1.trans (congrArg (List.flatMap encode) ?_)⟩
  decide +kernel

end Bout
end Seat
end BlockDuel
