import BlockDuel.Proofs.Link.Waiting

/-!
What is written. The stream takes the frames of what was sent while the link was open, one behind the
other, until the link ends; and when a close is carried out, it has taken them all. Whoever waits for a
close hears of it.
-/
namespace BlockDuel
namespace Link
open Wire

/-- What the writer still has to put on the stream for the frame in hand. -/
def Writer.inHand : Writer → Bytes
  | .writing bs _ => bs
  | _ => []

def Order.octets : Order → Bytes
  | .frame bs => bs
  | .close _ => []

/-- The stream took `said` of the messages `posted`. While the link lives the rest is still there, and
there is no rest when the writer is at a close or has carried it out. -/
structure Flows (l : Link) (said : Bytes) (posted : List Message) : Prop where
  isPrefix : said <+: posted.flatMap encode
  whole : l.phase ≠ .closed →
    said ++ (l.writer.inHand ++ l.queue.flatMap Order.octets) = posted.flatMap encode
  reached : ∀ t d, l.writer = .closing t d → said = posted.flatMap encode
  flushed : ∀ t : Nat, l.tickets[t]? = some (some (.ok ())) → said = posted.flatMap encode

variable {l l' : Link} {bs out said : Bytes} {ms posted : List Message} {t d : Nat}

theorem flows_spawn (id : PlayerId) (limit : Nat) (announce : Bool) :
    (spawn id limit announce).Flows [] [] :=
  ⟨List.prefix_rfl, fun _ => rfl, fun _ _ _ => rfl, fun _ _ => rfl⟩

theorem Work.still_of_closed (w : Work l out ms l') (closed : l'.phase = .closed) :
    out = [] ∧ ms = [] := by
  cases w with
  | queues m opened =>
    rw [send_phase, opened] at closed
    cases closed
  | writes writing live n =>
    rw [wrote_phase] at closed
    exact absurd closed live
  | _ => exact ⟨rfl, rfl⟩

theorem Work.posts_nothing (w : Work l out ms l') (shut : l.phase ≠ .opened) : ms = [] := by
  cases w with
  | queues m opened => exact absurd opened shut
  | _ => rfl

/-- A writer comes to a close by taking it from the queue. -/
theorem Work.of_closing (w : Work l out ms l') (stage : l.Stage) (closing : l'.writer = .closing t d) :
    out = [] ∧ ms = [] ∧ (l.writer = .closing t d ∨
      l.writer = .idle ∧ l.phase ≠ .closed ∧ ∃ rest, l.queue = .close t :: rest) := by
  cases w with
  | aside same => exact ⟨rfl, rfl, .inl (same.writer ▸ closing)⟩
  | queues m opened =>
    obtain ⟨-, busy, -⟩ := stage.of_opened opened
    rw [send_of_opened opened] at closing
    exact absurd closing (busy.not_closing _ _)
  | orders opened =>
    rw [shutdown_of_opened opened] at closing
    exact ⟨rfl, rfl, .inl closing⟩
  | refuses shut =>
    rw [shutdown_of_shut shut] at closing
    exact ⟨rfl, rfl, .inl closing⟩
  | @takes r rest idle live queue now =>
    cases r with
    | frame bs =>
      rw [takeOrder_frame idle queue now] at closing
      cases closing
    | close t' =>
      rw [takeOrder_close idle queue now] at closing
      cases closing
      exact ⟨rfl, rfl, .inr ⟨idle, live, rest, queue⟩⟩
  | writes writing live n =>
    rw [wrote_eq writing n] at closing
    dsimp only at closing
    split at closing <;> cases closing
  | stops same =>
    rw [writerStops_eq] at closing
    cases closing
  | closes closing' o =>
    rw [closeEnded_eq closing' o] at closing
    cases closing

/-- Nothing is lost while the link lives. -/
theorem Flows.whole_work (h : l.Flows said posted) (w : Work l out ms l')
    (after : l'.phase ≠ .closed) :
    said ++ out ++ (l'.writer.inHand ++ l'.queue.flatMap Order.octets) =
      (posted ++ ms).flatMap encode := by
  cases w with
  | aside same =>
    have hlive : l.phase ≠ .closed := by
      rcases same.phase with hp | hp
      · exact hp ▸ after
      · exact absurd hp after
    rw [same.writer, same.queue, List.append_nil, List.append_nil]
    exact h.whole hlive
  | queues m opened =>
    rw [send_of_opened opened, List.append_nil, List.flatMap_append, List.flatMap_append,
      ← h.whole (by simp [opened])]
    simp [Order.octets]
  | orders opened =>
    rw [shutdown_of_opened opened, List.append_nil, List.append_nil, List.flatMap_append,
      ← h.whole (by simp [opened])]
    simp [Order.octets]
  | refuses shut =>
    rw [shutdown_of_shut shut] at after ⊢
    rw [List.append_nil, List.append_nil]
    exact h.whole after
  | @takes r rest idle live queue now =>
    have hwhole := h.whole live
    rw [idle, queue] at hwhole
    rw [List.append_nil, List.append_nil, ← hwhole]
    cases r with
    | frame bs =>
      rw [takeOrder_frame idle queue now]
      rfl
    | close t =>
      rw [takeOrder_close idle queue now]
      rfl
  | @writes bs d writing live n =>
    have hwhole := h.whole live
    rw [writing] at hwhole
    have hrest : (l.wrote n).writer.inHand = bs.drop n := by
      rw [wrote_eq writing n]
      dsimp only
      split
      · next hdrop => exact hdrop.symm
      · rfl
    have hqueue : (l.wrote n).queue = l.queue := by
      rw [wrote_eq writing n]
    rw [hrest, hqueue, List.append_nil, ← hwhole]
    change said ++ bs.take n ++ (bs.drop n ++ _) = said ++ (bs ++ _)
    rw [List.append_assoc, ← List.append_assoc (bs.take n), List.take_append_drop]
  | stops same closed =>
    rw [writerStops_phase] at after
    exact absurd closed after
  | closes closing o =>
    rw [closeEnded_eq closing o] at after
    exact absurd finish_phase after

/-- When the writer comes to a close there is nothing left to write. -/
theorem Flows.all_said (h : l.Flows said posted) (stage : l.Stage) (idle : l.writer = .idle)
    (live : l.phase ≠ .closed) {rest : List Order} (queue : l.queue = .close t :: rest) :
    said = posted.flatMap encode := by
  have hbusy : l.writer.Busy := by
    rw [idle]
    trivial
  have hrest : rest = [] := by
    rcases stage.of_live live hbusy with ⟨-, frames, -⟩ | ⟨-, q, ts, hq, frames, -, -⟩
    · rw [queue] at frames
      cases frames
    · rw [queue] at hq
      cases q with
      | nil =>
        cases hq
        rfl
      | cons r q =>
        cases hq
        cases frames
  have hwhole := h.whole live
  rw [idle, queue, hrest] at hwhole
  change said ++ [] = _ at hwhole
  rw [List.append_nil] at hwhole
  exact hwhole

theorem Flows.work (h : l.Flows said posted) (stage : l.Stage) (w : Work l out ms l') :
    l'.Flows (said ++ out) (posted ++ ms) := by
  have hstage := stage.work w
  refine ⟨?_, h.whole_work w, ?_, ?_⟩
  · by_cases hp : l'.phase = .closed
    · obtain ⟨rfl, rfl⟩ := w.still_of_closed hp
      rw [List.append_nil, List.append_nil]
      exact h.isPrefix
    · exact ⟨_, h.whole_work w hp⟩
  · intro t d hclosing
    obtain ⟨rfl, rfl, hbefore⟩ := w.of_closing stage hclosing
    rw [List.append_nil, List.append_nil]
    rcases hbefore with hbefore | ⟨idle, live, rest, queue⟩
    · exact h.reached t d hbefore
    · exact h.all_said stage idle live queue
  · intro t ht
    obtain ⟨rfl, rfl⟩ := w.still_of_closed (hstage.closed_of_ok ht)
    rw [List.append_nil, List.append_nil]
    rcases w.settles.news t _ ht with hbefore | hrefused | ⟨d, hclosing⟩
    · exact h.flushed t hbefore
    · cases hrefused
    · exact h.reached t d hclosing

theorem Step.not_opened {bs : Bytes} (hs : Step l bs out ms l') (shut : l.phase ≠ .opened) :
    l'.phase ≠ .opened := by
  cases hs with
  | rests => exact shut
  | call c => exact c.run_not_open shut
  | @turn t => exact t.run_not_open shut

namespace Passage

variable {p : Passage} {es : List Event}

theorem run_flows (hs : p.link.Stage) (h : p.link.Flows p.said p.posted) (es : List Event) :
    (p.run es).link.Flows (p.run es).said (p.run es).posted := by
  have hrun := run_induction (p := p) (P := fun l _ said posted => l.Stage ∧ l.Flows said posted) ?_
    ⟨hs, h⟩ es
  · exact hrun.2
  · rintro l _ said posted _ out ms l' ⟨hs, h⟩ step
    exact ⟨hs.work step.work, h.work hs step.work⟩

/-- A link that is not open queues nothing more. -/
theorem run_posted (shut : p.link.phase ≠ .opened) (es : List Event) :
    (p.run es).posted = p.posted := by
  have hrun := run_induction (p := p) (P := fun l _ _ posted =>
    l.phase ≠ .opened ∧ posted = p.posted) ?_ ⟨shut, rfl⟩ es
  · exact hrun.2
  · rintro l _ _ posted _ _ ms l' ⟨shut, rfl⟩ step
    rw [step.work.posts_nothing shut, List.append_nil]
    exact ⟨step.not_opened shut, rfl⟩

theorem act_posted (opened : p.link.phase = .opened) (e : Event) :
    (p.act e).posted = p.posted ++ e.message?.toList := by
  cases e with
  | call c =>
    change p.posted ++ p.link.posts c = _
    cases c with
    | send m =>
      have hposts : p.link.posts (.send m) = [m] := if_pos (isOpen_iff.mpr opened)
      rw [hposts]
      rfl
    | shutdown | disconnect => rfl
  | reader | writer => exact (List.append_nil _).symm
  | passes | arrives | fetches | leaves | breaks =>
    rw [(p.act_rests (by simp) (by simp) (by simp)).posted]
    exact (List.append_nil _).symm

/-- A link that is open at the end of a run was open all the time, and queued all that was sent. -/
theorem posted_of_opened (opened : (p.run es).link.phase = .opened) :
    p.link.phase = .opened ∧ (p.run es).posted = p.posted ++ es.filterMap Event.message? := by
  induction es generalizing p with
  | nil => exact ⟨opened, (List.append_nil _).symm⟩
  | cons e es ih =>
    obtain ⟨hnext, hposted⟩ := ih (p := p.act e) opened
    have hp : p.link.phase = .opened := by
      obtain ⟨_, _, _, hstep, -⟩ := p.act_step e
      exact Decidable.not_not.mp fun shut => hstep.not_opened shut hnext
    refine ⟨hp, ?_⟩
    change ((p.act e).run es).posted = _
    rw [hposted, act_posted hp, List.append_assoc]
    cases hm : e.message? with
    | none => rw [List.filterMap_cons_none hm]; rfl
    | some m => rw [List.filterMap_cons_some hm]; rfl

theorem length_shutdown (l : Link) : l.shutdown.tickets.length = l.tickets.length + 1 := by
  by_cases hp : l.phase = .opened
  · rw [shutdown_of_opened hp]
    exact List.length_append
  · rw [shutdown_of_shut hp]
    exact List.length_append

/-- A close that is asked for in time is the first one and is not settled yet. -/
theorem act_shutdown_opened (h : p.link.Stage) (opened : p.link.phase = .opened) :
    (p.act (.call .shutdown)).outcome? p.link.tickets.length = none := by
  obtain ⟨-, -, unasked⟩ := h.of_opened opened
  unfold outcome?
  change (p.link.shutdown.tickets[p.link.tickets.length]?).join = none
  rw [shutdown_of_opened opened, unasked]
  rfl

/-- A close that is asked for too late is refused. -/
theorem act_shutdown_shut (shut : p.link.phase ≠ .opened) :
    (p.act (.call .shutdown)).outcome? p.link.tickets.length = some (.error .closed) := by
  rw [outcome?_eq_some]
  change p.link.shutdown.tickets[p.link.tickets.length]? = _
  rw [shutdown_of_shut shut]
  exact List.getElem?_concat_length

/-- A close that the writer never comes to is not carried out. -/
theorem run_unreached {t : Nat} (start : p.outcome? t = none ∨ p.outcome? t = some (.error .closed))
    (unreached : ∀ es' d, es' <+: es → (p.run es').link.writer ≠ .closing t d) :
    (p.run es).outcome? t = none ∨ (p.run es).outcome? t = some (.error .closed) := by
  induction es generalizing p with
  | nil => exact start
  | cons e es ih =>
    have hnext : (p.act e).outcome? t = none ∨ (p.act e).outcome? t = some (.error .closed) := by
      obtain ⟨_, _, _, hstep, -⟩ := p.act_step e
      cases hout : (p.act e).outcome? t with
      | none => exact .inl rfl
      | some o =>
        rcases hstep.work.settles.news t o (outcome?_eq_some.mp hout) with hold | rfl | ⟨d, hclosing⟩
        · rw [outcome?_eq_some.mpr hold] at start
          exact start
        · exact .inr rfl
        · exact absurd hclosing (unreached [] d List.nil_prefix)
    exact ih hnext fun es' d hes' => unreached (e :: es') d (List.cons_prefix_cons.mpr ⟨rfl, hes'⟩)

/-- What the stream took is the beginning of the frames of what was sent while the link was open, and on a
pipe it is what the peer took and what still waits for it. At most one close is ever carried out; a ticket
that is settled stays so, and to wait for one is a run of the link alone that ends with the ticket settled.
A close that was carried out left the stream with just what had been sent before it was asked for. It is
refused if the link was not open any more, and given up if the writer never came to it. -/
theorem flush (id : PlayerId) (limit : Nat) (announce : Bool) (capacity now : Nat) :
    let start := opened id limit announce capacity now
    (∀ es, let p := start.run es
      p.said <+: p.posted.flatMap encode ∧
      (∀ q, p.bench.carrier = .pipe q → p.fetched ++ q.toPeer = p.said) ∧
      (∀ t t', p.outcome? t = some (.ok ()) → p.outcome? t' = some (.ok ()) → t = t') ∧
      (∀ t o es', p.outcome? t = some o → (p.run es').outcome? t = some o) ∧
      ∀ t, t < p.link.tickets.length → ∃ es', (∀ e ∈ es', e.Unaided) ∧
        p.bench.await t = ((p.run es').outcome? t, (p.run es').bench) ∧
        ((p.run es').outcome? t).isSome) ∧
    ∀ es es', let t := (start.run es).link.tickets.length
      let p := (start.run (es ++ [.call .shutdown])).run es'
      t < p.link.tickets.length ∧
      (p.outcome? t = some (.ok ()) → p.said = (es.filterMap Event.message?).flatMap encode) ∧
      ((start.run es).link.phase ≠ .opened → p.outcome? t = some (.error .closed)) ∧
      ((∀ es'' d, es'' <+: es' →
          ((start.run (es ++ [.call .shutdown])).run es'').link.writer ≠ .closing t d) →
        (p.outcome? t = none ∨ p.outcome? t = some (.error .closed)) ∧
        (p.link.writer = .stopped → p.outcome? t = some (.error .closed))) := by
  intro start
  have hstage (es : List Event) : (start.run es).link.Stage :=
    run_stage (p := start) (stage_spawn id limit announce) es
  have hflows (es : List Event) : (start.run es).link.Flows (start.run es).said (start.run es).posted :=
    run_flows (p := start) (stage_spawn id limit announce) (flows_spawn id limit announce) es
  have hpipe : start.Holds := opened_holds id limit announce capacity now
  constructor
  · intro es p
    refine ⟨(hflows es).isPrefix, fun q hq => (hpipe.run es q hq).2, ?_,
      fun t o es' h => run_keeps h es', fun t ht => run_await (hstage es) ht⟩
    intro t t' ht ht'
    rw [(hstage es).first_of_ok (outcome?_eq_some.mp ht),
      (hstage es).first_of_ok (outcome?_eq_some.mp ht')]
  · intro es es' t p
    have hasked : start.run (es ++ [.call .shutdown]) = (start.run es).act (.call .shutdown) :=
      run_concat start es _
    have hissued : t < p.link.tickets.length := by
      apply Nat.lt_of_lt_of_le _ (run_issued _ es')
      rw [hasked]
      change t < (start.run es).link.shutdown.tickets.length
      rw [length_shutdown]
      exact Nat.lt_succ_self t
    have hlate (shut : (start.run es).link.phase ≠ .opened) : p.outcome? t = some (.error .closed) := by
      apply run_keeps
      rw [hasked]
      exact act_shutdown_shut shut
    refine ⟨hissued, ?_, hlate, ?_⟩
    · intro hok
      have hopened : (start.run es).link.phase = .opened := by
        apply Decidable.not_not.mp
        intro shut
        cases hok.symm.trans (hlate shut)
      have hsaid : p.said = p.posted.flatMap encode := by
        have hlast := hflows (es ++ [.call .shutdown] ++ es')
        rw [run_append] at hlast
        exact hlast.flushed t (outcome?_eq_some.mp hok)
      have hposted : p.posted = es.filterMap Event.message? := by
        have hshut : (start.run (es ++ [.call .shutdown])).link.phase ≠ .opened := by
          rw [hasked]
          exact shutdown_not_open
        have hcall : ((start.run es).act (.call .shutdown)).posted = (start.run es).posted :=
          List.append_nil _
        rw [run_posted hshut es', hasked, hcall, (posted_of_opened hopened).2]
        rfl
      rw [hsaid, hposted]
    · intro unreached
      have hbegin : (start.run (es ++ [.call .shutdown])).outcome? t = none ∨
          (start.run (es ++ [.call .shutdown])).outcome? t = some (.error .closed) := by
        rw [hasked]
        by_cases hp : (start.run es).link.phase = .opened
        · exact .inl (act_shutdown_opened (hstage es) hp)
        · exact .inr (act_shutdown_shut hp)
      have hgiven := run_unreached hbegin unreached
      refine ⟨hgiven, fun stopped => ?_⟩
      have hlast := hstage (es ++ [.call .shutdown] ++ es')
      rw [run_append] at hlast
      obtain ⟨o, ho⟩ := outcome_of_stopped hlast hissued stopped
      rcases hgiven with hnone | hclosed
      · cases ho.symm.trans hnone
      · exact hclosed

/-- The owner has sent two messages and asked for a close. -/
def parting : Passage :=
  (opened 7 1000 false 64 0).run
    ([.call (.send .serverPing), .call (.send (.bagSeed 42))] ++ [.call .shutdown])

/-- The owner sends one more message and asks for another close, and the writer sets to work. -/
def afterthought : List Event :=
  [.call (.send .clientPong), .call .shutdown] ++ List.replicate 6 .writer ++ [.fetches 100]

/-- Of two closes the first is carried out, behind the two messages that were sent in time, and the second
is refused; and a close that the owner does not wait for is given up. -/
theorem first_close_flushes :
    (parting.run afterthought).outcome? 0 = some (.ok ()) ∧
      (parting.run afterthought).fetched = encode .serverPing ++ encode (.bagSeed 42) ∧
      (parting.run afterthought).outcome? 1 = some (.error .closed) ∧
      (parting.run [.call .disconnect, .writer]).outcome? 0 = some (.error .closed) := by
  obtain ⟨hall, hasked⟩ := flush 7 1000 false 64 0
  have hfirst : (parting.run afterthought).outcome? 0 = some (.ok ()) := rfl
  obtain ⟨-, hsaid, -⟩ := hasked [.call (.send .serverPing), .call (.send (.bagSeed 42))] afterthought
  obtain ⟨-, -, -, hgiven⟩ := hasked [.call (.send .serverPing), .call (.send (.bagSeed 42))]
    [.call .disconnect, .writer]
  obtain ⟨-, -, hrefused, -⟩ := hasked
    [.call (.send .serverPing), .call (.send (.bagSeed 42)), .call .shutdown,
      .call (.send .clientPong)]
    (List.replicate 6 .writer ++ [.fetches 100])
  obtain ⟨-, hpipe, -⟩ := hall (([.call (.send .serverPing), .call (.send (.bagSeed 42))] ++
    [.call .shutdown]) ++ afterthought)
  rw [run_append] at hpipe
  refine ⟨hfirst, ?_, hrefused (fun h => nomatch h), (hgiven ?_).2 rfl⟩
  · have hfetched : (parting.run afterthought).fetched ++ [] = (parting.run afterthought).said :=
      hpipe ⟨64, [], [], false, true⟩ rfl
    rw [← List.append_nil (parting.run afterthought).fetched, hfetched]
    exact hsaid hfirst
  · intro es d hes
    rcases List.prefix_cons_iff.mp hes with rfl | ⟨more, rfl, hmore⟩
    · exact fun h => nomatch h
    · rcases List.prefix_cons_iff.mp hmore with rfl | ⟨last, rfl, hlast⟩
      · exact fun h => nomatch h
      · rw [List.prefix_nil.mp hlast]
        exact fun h => nomatch h

end Passage
end Link
end BlockDuel
