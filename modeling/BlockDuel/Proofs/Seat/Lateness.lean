import BlockDuel.Proofs.Seat.Stages

/-!
How long a player who joins waits for the hall. The time for a stage runs from the round in which the stage was
entered, and only the word that leads on to the next stage starts it anew. It is looked at when a round has
handled all that was there: a player who has heard nothing that leads on for longer than its patience gives up,
unless the line is down or it waits for an opponent.
-/
namespace BlockDuel.Seat
open Wire

/-- The time at which the round in progress began. -/
def Task.time? : Task → Option Nat
  | idle => none
  | look now | check now => some now

variable {j j' : Joining} {s s' : Session} {m : Message} {now : Nat}

namespace Joining

theorem check_unlinked (hc : s.isConnected = false) :
    j.check s now = j.advance (.failed .disconnected) now := by
  simp [check, hc]

/-- Lateness counts while the line is up and the next word is the hall's. -/
theorem check_linked (hc : s.isConnected = true) :
    j.check s now =
      if j.status.awaitsHall = true ∧ j.since + j.patience < now
      then j.advance (.failed .timeout) now else j := by
  have hlate : now - j.since > j.patience ↔ j.since + j.patience < now := by omega
  simp [check, hc, hlate]

theorem ne_of_unfinished (hf : j.isFinished = false) {t : JoinStatus} (ht : t.isFinished = true) :
    t ≠ j.status := by
  rintro rfl
  exact nomatch hf.symm.trans ht

theorem check_timeout_iff (hf : j.isFinished = false) :
    (j.check s now).status = .failed .timeout ↔
      s.isConnected = true ∧ j.status.awaitsHall = true ∧ j.since + j.patience < now := by
  cases hc : s.isConnected with
  | false => simp [check_unlinked hc, advance]
  | true =>
    rw [check_linked hc]
    split
    · next hlate => simpa [advance] using hlate
    · next hlate =>
      have hnot : j.status ≠ .failed .timeout := (ne_of_unfinished hf rfl).symm
      simpa [hnot] using hlate

theorem check_since (hf : j.isFinished = false) :
    (j.check s now).status = j.status ∧ (j.check s now).since = j.since ∨
      (j.check s now).status ≠ j.status ∧ (j.check s now).since = now := by
  unfold check
  split
  · exact .inr ⟨ne_of_unfinished hf rfl, rfl⟩
  · split
    · exact .inr ⟨ne_of_unfinished hf rfl, rfl⟩
    · exact .inl ⟨rfl, rfl⟩

theorem status_of_check (hf : (j.check s now).isFinished = false) :
    (j.check s now).status = j.status := by
  unfold check at hf ⊢
  split at hf
  · cases hf
  · split at hf
    · cases hf
    · simp [*]

theorem check_patience : (j.check s now).patience = j.patience := by
  unfold check
  split
  · rfl
  · split <;> rfl

/-- Time starts anew in a stage that is entered, and in no other. -/
theorem Effect.since (h : Effect j s m now j' s') (hf : j.isFinished = false) :
    j'.status = j.status ∧ j'.since = j.since ∨ j'.status ≠ j.status ∧ j'.since = now := by
  cases h with
  | ponged | listed | dealt | ignored => exact .inl ⟨rfl, rfl⟩
  | greeted hk hj | numbered hk hj | seated hk hj => exact .inr ⟨by simp [advance, hj], rfl⟩
  | started | cutOff => exact .inr ⟨ne_of_unfinished hf rfl, rfl⟩

/-- No word of the hall makes a player give up for lateness. -/
theorem Effect.ne_timeout (h : Effect j s m now j' s') (hf : j.isFinished = false) :
    j'.status ≠ .failed .timeout := by
  cases h with
  | ponged | listed | dealt | ignored => exact (ne_of_unfinished hf rfl).symm
  | greeted | numbered | seated | started | cutOff => simp [advance]

theorem Effect.disconnected (h : Effect j s m now j' s') (hf : j.isFinished = false)
    (hd : j'.status = .failed .disconnected) : s'.isConnected = false := by
  cases h with
  | ponged | listed | dealt | ignored => exact absurd hd.symm (ne_of_unfinished hf rfl)
  | greeted | numbered | seated | started => simp [advance] at hd
  | cutOff number hk hh hc => exact hc

/-- A message that leads on to the next stage, as it has to be written. -/
theorem Effect.leads_on (h : Effect j s m now j' s') (hne : j'.status ≠ j.status)
    (hf' : j'.isFinished = false) :
    j.status.Leads m.kind j'.status ∧ (m.kind = .assignId → m.payload.length = 4) := by
  cases h with
  | ponged | listed | dealt | ignored => exact absurd rfl hne
  | greeted hk hj => exact ⟨by rw [hk, hj]; exact .greeted, by simp [hk]⟩
  | numbered hk hj hr =>
    refine ⟨by rw [hk, hj]; exact .numbered, fun _ => ?_⟩
    by_contra hlength
    cases hr.symm.trans (Message.read?_eq_none_iff.mpr hlength)
  | seated hk hj => exact ⟨by rw [hk, hj]; exact .seated, by simp [hk]⟩
  | started | cutOff => cases hf'

theorem Effect.patience (h : Effect j s m now j' s') : j'.patience = j.patience := by
  cases h <;> rfl

end Joining

namespace Candidate

variable {c : Candidate} {e : Event} {es : List Event} {t t₀ : Nat}

/-- A player is moved on by the message that it handles and by the end of a round, at the time of the round. -/
theorem next_joining (hc : c.Sane) (e : Event) :
    ((c.next e).joining = c.joining ∧
        (c.session.isConnected = false → (c.next e).session.isConnected = false)) ∨
      (∃ now m rest, e = .looks ∧ c.task = .look now ∧ c.joining.isFinished = false ∧
        Joining.Effect c.joining { c.session with inbox := rest } m now (c.next e).joining
          (c.next e).session ∧
        (c.next e).heard = c.heard ++ [⟨m, c.joining.status, c.session.isConnected⟩]) ∨
      ∃ now, e = .checks ∧ c.task = .check now ∧ c.joining.isFinished = false ∧
        c.next e = { c with joining := c.joining.check c.session now, task := .idle } := by
  cases e with
  | begins now =>
    left
    unfold next
    dsimp only
    split <;> exact ⟨rfl, id⟩
  | arrives n => exact .inl ⟨rfl, id⟩
  | drops => exact .inl ⟨rfl, fun _ => c.session.lineEnds_unlinked⟩
  | looks =>
    by_cases ht : ∃ now, c.task = .look now
    · obtain ⟨now, ht⟩ := ht
      have hf : c.joining.isFinished = false := hc.unfinished (by simp [ht])
      rw [next_looks ht]
      cases hi : c.session.inbox with
      | nil =>
        rw [look_empty hi]
        exact .inl ⟨rfl, id⟩
      | cons a rest =>
        cases ha : c.session.accept a with
        | none =>
          rw [look_skips hi ha]
          exact .inl ⟨rfl, id⟩
        | some m =>
          rw [look_takes hi ha]
          exact .inr (.inl ⟨now, m, rest, rfl, ht, hf, Joining.handle_effect _ _ _ _, rfl⟩)
    · rw [next_looks_other (not_exists.mp ht)]
      exact .inl ⟨rfl, id⟩
  | checks =>
    cases ht : c.task with
    | idle | look =>
      left
      simp only [next, ht]
      exact ⟨trivial, id⟩
    | check now =>
      have hf : c.joining.isFinished = false := hc.unfinished (by simp [ht])
      exact .inr (.inr ⟨now, rfl, rfl, hf, by simp only [next, ht]⟩)

/-- Only the end of a round makes a player give up for lateness. -/
theorem next_timeout_iff (hc : c.Sane) (hf : c.joining.isFinished = false) (e : Event) :
    (c.next e).joining.status = .failed .timeout ↔ e = .checks ∧ ∃ t, c.task = .check t ∧
      c.session.isConnected = true ∧ c.joining.status.awaitsHall = true ∧
      c.joining.since + c.joining.patience < t := by
  have hnot := (Joining.ne_of_unfinished hf (t := .failed .timeout) rfl).symm
  rcases next_joining hc e with ⟨hj, -⟩ | ⟨now, m, rest, rfl, -, -, he, -⟩ | ⟨now, rfl, ht, -, hnext⟩
  · rw [hj]
    refine iff_of_false hnot ?_
    rintro ⟨rfl, t, ht, hlate⟩
    have hchecked : (c.next .checks).joining = c.joining.check c.session t := by
      simp only [next, ht]
    rw [← hj, hchecked] at hnot
    exact hnot ((Joining.check_timeout_iff hf).mpr hlate)
  · exact iff_of_false (he.ne_timeout hf) (by rintro ⟨⟨⟩, -⟩)
  · rw [hnext]
    simp [Joining.check_timeout_iff hf, ht]

/-- The clock of a stage starts in the round in which the stage is entered. -/
theorem next_since (hc : c.Sane) (e : Event) :
    (c.next e).joining.status = c.joining.status ∧ (c.next e).joining.since = c.joining.since ∨
      (c.next e).joining.status ≠ c.joining.status ∧
        c.task.time? = some (c.next e).joining.since := by
  rcases next_joining hc e with ⟨hj, -⟩ | ⟨now, m, rest, -, ht, hf, he, -⟩ | ⟨now, -, ht, hf, hnext⟩
  · rw [hj]
    exact .inl ⟨rfl, rfl⟩
  · refine (he.since hf).imp_right fun ⟨hne, hsince⟩ => ⟨hne, ?_⟩
    rw [ht, hsince]
    rfl
  · rw [hnext]
    refine (Joining.check_since hf).imp_right fun ⟨hne, hsince⟩ => ⟨hne, ?_⟩
    rw [ht, hsince]
    rfl

theorem next_patience (hc : c.Sane) (e : Event) : (c.next e).joining.patience = c.joining.patience := by
  rcases next_joining hc e with ⟨hj, -⟩ | ⟨now, m, rest, -, -, -, he, -⟩ | ⟨now, -, -, -, hnext⟩
  · rw [hj]
  · exact he.patience
  · rw [hnext]
    exact Joining.check_patience

/-- A player goes on to the next stage at the word that leads there. -/
theorem next_leads_on (hc : c.Sane) (hf' : (c.next e).joining.isFinished = false)
    (hne : (c.next e).joining.status ≠ c.joining.status) :
    ∃ h, (c.next e).heard = c.heard ++ [h] ∧
      c.joining.status.Leads h.message.kind (c.next e).joining.status ∧
      (h.message.kind = .assignId → h.message.payload.length = 4) := by
  rcases next_joining hc e with ⟨hj, -⟩ | ⟨now, m, rest, -, -, -, he, hheard⟩ | ⟨now, -, -, hf, hnext⟩
  · exact absurd (congrArg Joining.status hj) hne
  · exact ⟨_, hheard, he.leads_on hne hf'⟩
  · rw [hnext] at hf' hne
    exact absurd (Joining.status_of_check hf') hne

/-- The loss of the line is blamed only when the line is down. -/
theorem next_disconnected (hc : c.Sane)
    (h : c.joining.status = .failed .disconnected → c.session.isConnected = false)
    (hd : (c.next e).joining.status = .failed .disconnected) :
    (c.next e).session.isConnected = false := by
  rcases next_joining hc e with ⟨hj, hdown⟩ | ⟨now, m, rest, -, -, hf, he, -⟩ | ⟨now, -, -, hf, hnext⟩
  · exact hdown (h (hj ▸ hd))
  · exact he.disconnected hf hd
  · rw [hnext] at hd ⊢
    cases hdown : c.session.isConnected with
    | false => rfl
    | true =>
      rw [Joining.check_linked hdown] at hd
      split at hd
      · simp [Joining.advance] at hd
      · exact absurd hd.symm (Joining.ne_of_unfinished hf rfl)

/-- A round comes to its end when nothing waits. -/
theorem next_check (ht : (c.next e).task = .check t) :
    c.task = .check t ∨ e = .looks ∧ c.task = .look t ∧ c.session.inbox = [] := by
  cases e with
  | begins now =>
    unfold next at ht
    dsimp only at ht
    split at ht
    · cases ht
    · exact .inl ht
  | arrives | drops => exact .inl ht
  | looks =>
    by_cases hlook : ∃ now, c.task = .look now
    · obtain ⟨now, hlook⟩ := hlook
      rw [next_looks hlook] at ht
      cases hi : c.session.inbox with
      | nil =>
        rw [look_empty hi] at ht
        cases ht
        exact .inr ⟨rfl, hlook, rfl⟩
      | cons a rest =>
        cases ha : c.session.accept a with
        | none =>
          rw [look_skips hi ha] at ht
          exact .inl ht
        | some m =>
          rw [look_takes hi ha] at ht
          dsimp only at ht
          split at ht <;> cases ht
    · rw [next_looks_other (not_exists.mp hlook)] at ht
      exact .inl ht
  | checks =>
    unfold next at ht
    dsimp only at ht
    split at ht
    · cases ht
    · exact .inl ht

/-- The stage after the events `es` was entered in the round that began at `t`; or it is the first stage, and
joining began at `t₀`. -/
def StandsSince (c : Candidate) (t₀ : Nat) (es : List Event) (t : Nat) : Prop :=
  ∃ before after, es = before ++ after ∧
    (∀ between, between <+: after →
      (c.run (before ++ between)).joining.status = (c.run es).joining.status) ∧
    (before = [] ∧ t = t₀ ∨ ∃ first e, before = first ++ [e] ∧
      (c.run first).joining.status ≠ (c.run es).joining.status ∧
      (c.run first).task.time? = some t)

theorem standsSince_nil : StandsSince c t₀ [] t ↔ t₀ = t := by
  constructor
  · rintro ⟨before, after, hes, -, ⟨-, rfl⟩ | ⟨first, e, rfl, -⟩⟩
    · rfl
    · simp at hes
  · rintro rfl
    exact ⟨[], [], rfl, by simp, .inl ⟨rfl, rfl⟩⟩

/-- The last event is the one by which the stage was entered, or it is one of those since. -/
theorem standsSince_concat : StandsSince c t₀ (es ++ [e]) t ↔
    (c.run es).joining.status ≠ (c.run (es ++ [e])).joining.status ∧
        (c.run es).task.time? = some t ∨
      (c.run es).joining.status = (c.run (es ++ [e])).joining.status ∧ StandsSince c t₀ es t := by
  constructor
  · rintro ⟨before, after, hes, hstands, hentered⟩
    rcases List.eq_nil_or_concat after with rfl | ⟨after, e', rfl⟩
    · rcases hentered with ⟨rfl, -⟩ | ⟨first, e', rfl, hentered⟩
      · simp at hes
      · obtain ⟨rfl, -⟩ := List.append_inj' (hes.trans (List.append_nil _)) rfl
        exact .inl hentered
    · rw [List.concat_eq_append] at hes hstands
      rw [← List.append_assoc] at hes
      obtain ⟨rfl, -⟩ := List.append_inj' hes rfl
      have hlast := hstands after (List.prefix_append _ _)
      refine .inr ⟨hlast, before, after, rfl, fun between hb => ?_, by rwa [hlast]⟩
      rw [hlast]
      exact hstands between (hb.trans (List.prefix_append _ _))
  · rintro (⟨hne, ht⟩ | ⟨hs, before, after, rfl, hstands, hentered⟩)
    · refine ⟨es ++ [e], [], by simp, fun between hb => ?_, .inr ⟨es, e, rfl, hne, ht⟩⟩
      rw [List.prefix_nil.mp hb, List.append_nil]
    · refine ⟨before, after ++ [e], by simp, fun between hb => ?_, by rwa [← hs]⟩
      rcases List.prefix_concat_iff.mp hb with rfl | hb
      · rw [List.append_assoc]
      · rw [← hs]
        exact hstands between hb

theorem standsSince_iff (hc : c.Sane) (ht₀ : c.joining.since = t₀) (es : List Event) (t : Nat) :
    StandsSince c t₀ es t ↔ (c.run es).joining.since = t := by
  induction es using List.reverseRecOn with
  | nil => rw [standsSince_nil, ← ht₀]; rfl
  | append_singleton es e ih =>
    rw [standsSince_concat, ih, run_concat]
    rcases next_since (hc.run es) e with ⟨hs, hsince⟩ | ⟨hs, htime⟩
    · simp [hs, hsince]
    · simp [hs.symm, htime]

theorem Sane.run_patience (hc : c.Sane) (es : List Event) :
    (c.run es).joining.patience = c.joining.patience := by
  induction es using List.reverseRecOn with
  | nil => rfl
  | append_singleton es e ih => rw [run_concat, next_patience (hc.run es), ih]

theorem Sane.run_disconnected (hc : c.Sane)
    (h : c.joining.status = .failed .disconnected → c.session.isConnected = false) (es : List Event) :
    (c.run es).joining.status = .failed .disconnected → (c.run es).session.isConnected = false := by
  induction es using List.reverseRecOn with
  | nil => exact h
  | append_singleton es e ih =>
    rw [run_concat]
    exact next_disconnected (hc.run es) ih

/-- Before the end of a round everything that was there has been handled. -/
theorem run_check (hi : c.task = .idle) {es : List Event} (ht : (c.run es).task = .check t) :
    ∃ before after, es = before ++ .looks :: after ∧ (c.run before).task = .look t ∧
      (c.run before).session.inbox = [] ∧
      ∀ between, between <+: after → (c.run (before ++ .looks :: between)).task = .check t := by
  induction es using List.reverseRecOn with
  | nil => cases hi.symm.trans ht
  | append_singleton es e ih =>
    have hnow := ht
    rw [run_concat] at ht
    rcases next_check ht with ht | ⟨rfl, hlook, hempty⟩
    · obtain ⟨before, after, rfl, hlook, hempty, hall⟩ := ih ht
      refine ⟨before, after ++ [e], by simp, hlook, hempty, fun between hb => ?_⟩
      rcases List.prefix_concat_iff.mp hb with rfl | hb
      · simpa using hnow
      · exact hall between hb
    · refine ⟨es, [], rfl, hlook, hempty, fun between hb => ?_⟩
      rw [List.prefix_nil.mp hb]
      exact hnow

theorem handleAll_empties (ns : List Notice) (j : Joining) (s : Session)
    (hf : (Joining.handleAll now ns j s).1.isFinished = false) :
    (Joining.handleAll now ns j s).2.inbox = [] := by
  induction ns generalizing j s with
  | nil => rfl
  | cons n ns ih =>
    cases hj : j.isFinished with
    | true =>
      rw [handleAll_finished hj, hj] at hf
      cases hf
    | false =>
      cases ha : s.accept n with
      | none =>
        rw [handleAll_skips hj ha] at hf ⊢
        exact ih _ _ hf
      | some m =>
        rw [handleAll_takes hj ha] at hf ⊢
        exact ih _ _ hf

theorem handleAll_ne_timeout (ns : List Notice) (s : Session) (hf : j.isFinished = false) :
    (Joining.handleAll now ns j s).1.status ≠ .failed .timeout := by
  induction ns generalizing j s with
  | nil => exact (Joining.ne_of_unfinished hf rfl).symm
  | cons n ns ih =>
    cases ha : s.accept n with
    | none =>
      rw [handleAll_skips hf ha]
      exact ih _ hf
    | some m =>
      rw [handleAll_takes hf ha]
      cases hf' : (j.handle s m now).1.isFinished with
      | true =>
        rw [handleAll_finished hf']
        exact (Joining.handle_effect j s m now).ne_timeout hf
      | false => exact ih _ hf'

/-- A poll fails for lateness if and only if the player is late when everything has been handled. -/
theorem poll_timeout_iff (hi : c.task = .idle) (hf : c.joining.isFinished = false) {n : Nat}
    (hn : c.session.inbox.length < n) :
    let c' := c.run (.begins t :: List.replicate n .looks)
    (c'.joining.isFinished = false → c'.task = .check t ∧ c'.session.inbox = []) ∧
      ((c.joining.poll c.session t).1.status = .failed .timeout ↔
        c'.session.isConnected = true ∧ c'.joining.status.awaitsHall = true ∧
        c'.joining.since + c'.joining.patience < t) := by
  obtain ⟨heard, hrun⟩ := run_looks (c := { c with task := .look t }) rfl hf hn
  have hbegins : c.run (.begins t :: List.replicate n .looks) =
      { c with task := .look t }.run (List.replicate n .looks) := by
    change (c.next (.begins t)).run _ = _
    simp [next, hi, hf]
  have hne : (Joining.handleAll t c.session.inbox c.joining c.session).1.status ≠
      .failed .timeout := handleAll_ne_timeout c.session.inbox c.session hf
  have hempty : (Joining.handleAll t c.session.inbox c.joining c.session).1.isFinished = false →
      (Joining.handleAll t c.session.inbox c.joining c.session).2.inbox = [] :=
    handleAll_empties c.session.inbox c.joining c.session
  rw [hbegins, hrun]
  unfold Joining.poll
  rw [if_neg (by simp [hf])]
  dsimp only
  generalize Joining.handleAll t c.session.inbox c.joining c.session = out at hne hempty ⊢
  obtain ⟨j, s⟩ := out
  dsimp only at hne hempty ⊢
  cases hj : j.isFinished with
  | true =>
    refine ⟨Bool.noConfusion, iff_of_false (by simpa using hne) ?_⟩
    rintro ⟨-, hawaits, -⟩
    unfold Joining.isFinished at hj
    cases hs : j.status <;> simp_all [JoinStatus.awaitsHall, JoinStatus.isFinished]
  | false => exact ⟨fun _ => ⟨rfl, hempty hj⟩, Joining.check_timeout_iff hj⟩

/-- Whatever the clock shows, a player who joins gives up for lateness at the end of a round that began at `t`,
with everything handled that was there, if and only if the line is up, the next word is the hall's, and more than
its patience has gone by at `t` since the round in which the stage was entered; so a player who waits for an
opponent never does. Any word but the one that leads on to the next stage leaves the stage and its clock as they
are, unless it ends the joining. The loss of the line is blamed only when the line is down. -/
theorem lateness (patience : Nat) (avatar : UInt32) (t₀ : Nat) (s : Session) (es : List Event) :
    let start := start patience avatar t₀ s
    let c := start.run es
    (∀ t, start.StandsSince t₀ es t ↔ c.joining.since = t) ∧
      (∀ t, c.task = .check t → ∃ before after, es = before ++ .looks :: after ∧
        (start.run before).task = .look t ∧ (start.run before).session.inbox = [] ∧
        ∀ between, between <+: after →
          (start.run (before ++ .looks :: between)).task = .check t) ∧
      (c.joining.isFinished = false → ∀ e, let c' := c.next e
        (c'.joining.status = .failed .timeout ↔ e = .checks ∧ ∃ t, c.task = .check t ∧
          c.session.isConnected = true ∧ c.joining.status.awaitsHall = true ∧
          c.joining.since + patience < t) ∧
        (c.joining.status = .waitingForOpponent → c'.joining.status ≠ .failed .timeout) ∧
        (c'.joining.isFinished = false →
          c'.joining.status = c.joining.status ∧ c'.joining.since = c.joining.since ∨
          ∃ h, c'.heard = c.heard ++ [h] ∧
            c.joining.status.Leads h.message.kind c'.joining.status ∧
            (h.message.kind = .assignId → h.message.payload.length = 4))) ∧
      (c.joining.status = .failed .disconnected → c.session.isConnected = false) ∧
      (c.task = .idle → c.joining.isFinished = false → ∀ t n, c.session.inbox.length < n →
        let c' := c.run (.begins t :: List.replicate n .looks)
        (c'.joining.isFinished = false → c'.task = .check t ∧ c'.session.inbox = []) ∧
        ((c.joining.poll c.session t).1.status = .failed .timeout ↔
          c'.session.isConnected = true ∧ c'.joining.status.awaitsHall = true ∧
          c'.joining.since + patience < t)) := by
  intro start c
  have hbegin : start.Sane := start_sane patience avatar t₀ s
  have hsane : c.Sane := hbegin.run es
  have hpatience (es : List Event) : (start.run es).joining.patience = patience :=
    hbegin.run_patience es
  refine ⟨standsSince_iff hbegin rfl es, fun t => run_check rfl, fun hf e => ?_,
    hbegin.run_disconnected (fun h => nomatch h) es, fun hi hf t n hn => ?_⟩
  · have htimeout := next_timeout_iff hsane hf e
    rw [hpatience es] at htimeout
    refine ⟨htimeout, fun hw ht => ?_, fun hf' => ?_⟩
    · obtain ⟨-, -, -, -, hawaits, -⟩ := htimeout.mp ht
      rw [hw] at hawaits
      cases hawaits
    · rcases next_since hsane e with hstays | ⟨hne, -⟩
      · exact .inl hstays
      · exact .inr (next_leads_on hsane hf' hne)
  · obtain ⟨hdone, htimeout⟩ := poll_timeout_iff (t := t) hi hf hn
    rw [← run_append, hpatience] at htimeout
    rw [← run_append] at hdone ⊢
    exact ⟨hdone, htimeout⟩

/-- A player registers in the round at 1000. Pings, a seed, a number that is cut off and an early start do not
help: it is late at 4001, though not at 4000. -/
theorem lateness_despite_pings :
    let told := List.map fun m => Event.arrives (.message 1 m)
    let es := told [.accepted, .serverPing] ++ round 1000 9 ++
      told [.serverPing, .bagSeed 7, ⟨.assignId, [1]⟩, .allPlayersReady] ++ round 3500 9
    let c := (start 3000 0 0 Session.fresh.connect).run es
    c.joining.status = .registering ∧ (start 3000 0 0 Session.fresh.connect).StandsSince 0 es 1000 ∧
      (c.joining.poll c.session 4000).1.status ≠ .failed .timeout ∧
      (c.joining.poll c.session 4001).1.status = .failed .timeout := by
  intro told es c
  obtain ⟨hstands, -, -, -, hpoll⟩ := lateness 3000 0 0 Session.fresh.connect es
  have hlate (t : Nat) := (hpoll (by decide) (by decide) t 1 (by decide)).2
  exact ⟨by decide, (hstands 1000).mpr (by decide), (hlate 4000).not.mpr (by decide),
    (hlate 4001).mpr (by decide)⟩

end Candidate
end BlockDuel.Seat
