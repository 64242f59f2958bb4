import BlockDuel.Proofs.Link.Tickets

/-!
Waiting for a ticket. To let the reader and the writer move until both wait is a run like any other, and so
is waiting for a ticket, during which time may pass. It ends with the ticket settled: a writer that has not
got so far is held up at the stream and gives up when its time is over.
-/
namespace BlockDuel
namespace Link

/-- It takes neither the owner nor the peer. -/
def Event.Unaided : Event → Prop
  | .reader => True
  | .writer => True
  | .passes _ => True
  | _ => False

namespace Bench

variable {b b' : Bench} {d t : Nat}

theorem turn_of_settle (b : Bench) : b.settle.turn = none := by
  fun_induction settle b with
  | case1 b h => exact h
  | case2 b b' _ _ ih => exact ih

theorem settle_of_turn (h : b.turn = some b') : b.settle = b'.settle := by
  rw [settle]
  split
  · next hnone => cases hnone.symm.trans h
  · next hsome =>
    cases hsome.symm.trans h
    rfl

theorem readerTurn_later (h : b.readerTurn = none) (now : Nat) :
    { b with now := now }.readerTurn = none := by
  unfold readerTurn at h ⊢
  split at h
  · next hr => rw [hr]
  · next hr =>
    rw [hr]
    split at h
    · cases h
    · next hlive =>
      simp only [if_neg hlive]
      split at h
      · cases h
      · cases h
      · rfl

/-- A writer that is held up gives up when its time is over. -/
theorem writerTurn_late (h : b.writerTurn = none) (hd : b.deadline? = some d) {now : Nat}
    (late : d ≤ now) :
    ∃ b', { b with now := now }.writerTurn = some b' ∧ b'.link.writer = .stopped := by
  unfold deadline? at hd
  split at hd
  · next bs deadline hw =>
    cases hd
    have hstopped : b.link.writeFailed.writer = .stopped := by
      unfold writeFailed
      rw [hw]
      exact (writerStops_parts _).2.1
    refine ⟨{ b with now := now, link := b.link.writeFailed }, ?_, hstopped⟩
    unfold writerTurn at h ⊢
    rw [hw] at h ⊢
    dsimp only at h ⊢
    split at h
    · cases h
    · next hlive =>
      rw [if_neg hlive]
      split at h
      · cases h
      · cases h
      · exact if_pos late
  · next t deadline hw =>
    cases hd
    let o : Outcome := .error (.writeTimeout (.ofMillis b.link.limit))
    have hstopped : (b.link.closeEnded o).writer = .stopped := by
      rw [closeEnded_eq hw o]
    refine ⟨{ b with now := now, link := b.link.closeEnded o }, ?_, hstopped⟩
    unfold writerTurn at h ⊢
    rw [hw] at h ⊢
    dsimp only at h ⊢
    split at h
    · cases h
    · cases h
    · exact if_pos late
  · cases hd

/-- A writer that rests before a close is settled is held up at the stream. -/
theorem deadline_of_unsettled (h : b.link.Stage) (rests : b.writerTurn = none)
    (unsettled : none ∈ b.link.tickets) : ∃ d, b.deadline? = some d := by
  cases h with
  | opened _ _ _ unasked =>
    rw [unasked] at unsettled
    cases unsettled
  | ended _ _ _ settled => exact absurd unsettled settled
  | reached _ _ writer =>
    unfold deadline?
    rw [writer]
    exact ⟨_, rfl⟩
  | @ordered q ts _ queue _ busy =>
    cases hw : b.link.writer with
    | writing bs d =>
      unfold deadline?
      rw [hw]
      exact ⟨d, rfl⟩
    | closing t d => exact absurd hw (busy.not_closing t d)
    | stopped => exact absurd hw busy.not_stopped
    | idle =>
      unfold writerTurn at rests
      rw [hw, queue] at rests
      dsimp only at rests
      split at rests
      · cases rests
      · split at rests
        · next hnil => simp at hnil
        · cases rests

theorem await_settled {o : Outcome} (h : b.settle.link.tickets[t]? = some (some o)) :
    b.await t = (some o, b.settle) := by
  simp [await, h]

theorem await_late (h : b.settle.link.tickets[t]? = some none) (hd : b.settle.deadline? = some d) :
    b.await t =
      (({ b.settle with now := max b.settle.now d }.settle.link.tickets[t]?).join,
        { b.settle with now := max b.settle.now d }.settle) := by
  simp [await, h, hd]

end Bench

namespace Passage

variable {p : Passage} {t : Nat} {o : Outcome}

theorem outcome?_eq_some : p.outcome? t = some o ↔ p.link.tickets[t]? = some (some o) := by
  unfold outcome?
  rw [Option.join_eq_some_iff]

theorem run_stage (h : p.link.Stage) (es : List Event) : (p.run es).link.Stage :=
  run_induction (P := fun l _ _ _ => l.Stage) (fun _ _ _ _ _ _ _ _ h hs => h.work hs.work) h es

/-- A ticket that is settled stays so. -/
theorem run_keeps (h : p.outcome? t = some o) (es : List Event) : (p.run es).outcome? t = some o := by
  rw [outcome?_eq_some] at h ⊢
  exact run_induction (p := p) (P := fun l _ _ _ => l.tickets[t]? = some (some o))
    (fun _ _ _ _ _ _ _ _ h hs => hs.work.settles.keeps t o h) h es

theorem run_issued (p : Passage) (es : List Event) :
    p.link.tickets.length ≤ (p.run es).link.tickets.length :=
  run_induction (p := p) (P := fun l _ _ _ => p.link.tickets.length ≤ l.tickets.length)
    (fun _ _ _ _ _ _ _ _ h hs => Nat.le_trans h hs.work.settles.issued) (Nat.le_refl _) es

theorem act_turn {b' : Bench} (h : p.bench.turn = some b') :
    ∃ e : Event, e.Unaided ∧ (p.act e).bench = b' := by
  rcases Option.or_eq_some_iff.mp h with h | ⟨-, h⟩
  · refine ⟨.reader, trivial, ?_⟩
    simp [act, h]
  · refine ⟨.writer, trivial, ?_⟩
    simp [act, h]

theorem run_settle (p : Passage) :
    ∃ es, (∀ e ∈ es, e.Unaided) ∧ (p.run es).bench = p.bench.settle := by
  generalize hb : p.bench = b
  fun_induction Bench.settle b generalizing p with
  | case1 b h =>
    refine ⟨[], ?_, hb⟩
    intro e he
    cases he
  | case2 b b' h _ ih =>
    rw [← hb] at h
    obtain ⟨e, he, hact⟩ := act_turn h
    obtain ⟨es, hes, hrun⟩ := ih (p.act e) hact
    refine ⟨e :: es, ?_, hrun⟩
    intro e' he'
    rcases List.mem_cons.mp he' with rfl | he'
    · exact he
    · exact hes e' he'

theorem outcome_of_stopped (h : p.link.Stage) (ht : t < p.link.tickets.length)
    (stopped : p.link.writer = .stopped) : ∃ o, p.outcome? t = some o := by
  have hticket := List.getElem?_eq_getElem ht
  cases hr : p.link.tickets[t] with
  | some o => exact ⟨o, outcome?_eq_some.mpr (hr ▸ hticket)⟩
  | none => exact absurd (hr ▸ List.getElem_mem ht) (h.settled_of_stopped stopped)

/-- If the writer is held up, time passes until it gives up. -/
theorem run_late {d : Nat} (rests : p.bench.turn = none) (hd : p.bench.deadline? = some d) :
    ∃ es, (∀ e ∈ es, e.Unaided) ∧ (p.run es).link.writer = .stopped ∧
      (p.run es).bench.settle = { p.bench with now := max p.bench.now d }.settle := by
  obtain ⟨hreader, hwriter⟩ := Option.or_eq_none_iff.mp rests
  obtain ⟨b', hturn, hstopped⟩ := Bench.writerTurn_late hwriter hd (Nat.le_max_right p.bench.now d)
  let late : Bench := { p.bench with now := max p.bench.now d }
  have hlate : (p.act (.passes (max p.bench.now d - p.bench.now))).bench = late := by
    change p.bench.advance _ = late
    unfold Bench.advance
    rw [Nat.add_sub_of_le (Nat.le_max_left _ _)]
  have hact : ((p.act (.passes (max p.bench.now d - p.bench.now))).act .writer).bench = b' := by
    change (Option.getD (Bench.writerTurn _) _) = b'
    rw [hlate, hturn]
    rfl
  have hnext : late.turn = some b' := by
    unfold Bench.turn
    rw [Bench.readerTurn_later hreader, hturn]
    rfl
  refine ⟨[.passes (max p.bench.now d - p.bench.now), .writer], ?_, ?_, ?_⟩
  · simp [Event.Unaided]
  · exact (congrArg (fun b => b.link.writer) hact).trans hstopped
  · exact (congrArg Bench.settle hact).trans (Bench.settle_of_turn hnext).symm

/-- Waiting for a ticket is a run of the link alone, and it ends with the ticket settled. -/
theorem run_await (h : p.link.Stage) (ht : t < p.link.tickets.length) :
    ∃ es, (∀ e ∈ es, e.Unaided) ∧ p.bench.await t = ((p.run es).outcome? t, (p.run es).bench) ∧
      ((p.run es).outcome? t).isSome := by
  obtain ⟨es, hes, hsettled⟩ := p.run_settle
  have hlink : (p.run es).link = p.bench.settle.link := congrArg Bench.link hsettled
  have hlen : t < (p.run es).link.tickets.length := Nat.lt_of_lt_of_le ht (p.run_issued es)
  have hticket := List.getElem?_eq_getElem hlen
  cases hr : (p.run es).link.tickets[t] with
  | some o =>
    rw [hr] at hticket
    have hout : (p.run es).outcome? t = some o := outcome?_eq_some.mpr hticket
    refine ⟨es, hes, ?_, ?_⟩
    · rw [hlink] at hticket
      rw [hout, hsettled, Bench.await_settled hticket]
    · rw [hout]
      rfl
  | none =>
    rw [hr] at hticket
    have hrests : (p.run es).bench.turn = none := by
      rw [hsettled]
      exact Bench.turn_of_settle _
    obtain ⟨d, hd⟩ := Bench.deadline_of_unsettled (run_stage h es)
      (Option.or_eq_none_iff.mp hrests).2 (List.mem_of_getElem? hticket)
    obtain ⟨es', hes', hstopped, hlate⟩ := run_late hrests hd
    obtain ⟨es'', hes'', hsettled'⟩ := ((p.run es).run es').run_settle
    have hrun : p.run (es ++ es' ++ es'') = ((p.run es).run es').run es'' := by
      rw [run_append, run_append]
    refine ⟨es ++ es' ++ es'', ?_, ?_, ?_⟩
    · intro e he
      rcases List.mem_append.mp he with he | he
      · rcases List.mem_append.mp he with he | he
        · exact hes e he
        · exact hes' e he
      · exact hes'' e he
    · rw [hlink] at hticket
      rw [hsettled] at hd
      rw [hrun, Bench.await_late hticket hd]
      unfold outcome? link
      rw [hsettled', hlate, hsettled]
    · obtain ⟨o, ho⟩ := outcome_of_stopped (run_stage (run_stage h es) es')
        (Nat.lt_of_lt_of_le hlen (run_issued _ es')) hstopped
      rw [hrun, run_keeps ho es'']
      rfl

end Passage
end Link
end BlockDuel
