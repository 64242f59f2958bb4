import BlockDuel.Proofs.Hall.Outsiders

/-!
Players who answer in time. A hall looks after its players again and again, asks them for a sign of life
when that is due, and gives up those who have been silent for too long. The last look, the last ping and
the last sign of life of a player never get further apart than the waiting times allow, so a player who
answers every ping is never given up, whenever it registered.
-/
namespace BlockDuel.Hall
open Wire

namespace Occasion

/-- The reading of the clock. -/
def time : Occasion → Time
  | notice now _ => now
  | check now _ => now

/-- A sign of life of `x`. -/
def IsPong (x : PlayerId) : Occasion → Prop
  | notice _ (.message id m) => id = x ∧ m.kind = .clientPong
  | _ => False

instance (x : PlayerId) : (o : Occasion) → Decidable (o.IsPong x)
  | notice _ (.message id m) => inferInstanceAs (Decidable (id = x ∧ m.kind = .clientPong))
  | notice _ (.connected _) => .isFalse id
  | notice _ (.lost _) => .isFalse id
  | check _ _ => .isFalse id

end Occasion

/-- The clock reads `start` or later, and never goes back. -/
def Steady : Time → List Occasion → Prop
  | _, [] => True
  | start, o :: os => start ≤ o.time ∧ Steady o.time os

/-- No two looks after the silent players that follow each other are more than `gap` apart. The last one
before the list was at `seen`. -/
def Watched (gap : Nat) : Time → List Occasion → Prop
  | _, [] => True
  | seen, .notice _ _ :: os => Watched gap seen os
  | seen, .check now _ :: os => now ≤ seen + gap ∧ Watched gap now os

/-- `x` gives a sign of life by `limit`, unless all is over before that. -/
def SignsBy (x : PlayerId) (limit : Time) (os : List Occasion) : Prop :=
  (∃ o ∈ os, o.IsPong x ∧ o.time ≤ limit) ∨ ∀ o ∈ os, o.time ≤ limit

/-- `x` answers every ping within `delay`. -/
def Course.Answers (seeds : Nat → UInt64) (x : PlayerId) (delay : Nat) (c : Course) :
    List Occasion → Prop
  | [] => True
  | o :: os =>
    (.post x .serverPing ∈ (c.hall.meet (seeds c.made) o).2 → SignsBy x (o.time + delay) os) ∧
      (c.next seeds o).Answers seeds x delay os

instance decidableSteady : (start : Time) → (os : List Occasion) → Decidable (Steady start os)
  | _, [] => .isTrue trivial
  | start, o :: os =>
    have : Decidable (Steady o.time os) := decidableSteady _ os
    inferInstanceAs (Decidable (start ≤ o.time ∧ Steady o.time os))

instance decidableWatched (gap : Nat) :
    (seen : Time) → (os : List Occasion) → Decidable (Watched gap seen os)
  | _, [] => .isTrue trivial
  | seen, .notice _ _ :: os => decidableWatched gap seen os
  | seen, .check now _ :: os =>
    have : Decidable (Watched gap now os) := decidableWatched gap now os
    inferInstanceAs (Decidable (now ≤ seen + gap ∧ Watched gap now os))

instance (x : PlayerId) (limit : Time) (os : List Occasion) : Decidable (SignsBy x limit os) :=
  inferInstanceAs (Decidable ((∃ o ∈ os, o.IsPong x ∧ o.time ≤ limit) ∨ ∀ o ∈ os, o.time ≤ limit))

instance Course.decidableAnswers (seeds : Nat → UInt64) (x : PlayerId) (delay : Nat) :
    (c : Course) → (os : List Occasion) → Decidable (c.Answers seeds x delay os)
  | _, [] => .isTrue trivial
  | c, o :: os =>
    have : Decidable ((c.next seeds o).Answers seeds x delay os) := decidableAnswers seeds x delay _ os
    inferInstanceAs (Decidable (_ ∧ _))

section

variable {x : PlayerId} {start limit : Time} {o : Occasion} {os : List Occasion}

theorem Steady.le (h : Steady start os) (ho : o ∈ os) : start ≤ o.time := by
  induction os generalizing start with
  | nil => cases ho
  | cons first os ih =>
    rcases List.mem_cons.mp ho with rfl | ho
    · exact h.1
    · exact Nat.le_trans h.1 (ih h.2 ho)

/-- Nothing that comes before the sign of life is too late for it. -/
theorem SignsBy.time_le (h : SignsBy x limit (o :: os)) (steady : Steady start (o :: os)) :
    o.time ≤ limit := by
  rcases h with ⟨pong, hpong, -, hle⟩ | hall
  · rcases List.mem_cons.mp hpong with rfl | hlater
    · exact hle
    · exact Nat.le_trans (steady.2.le hlater) hle
  · exact hall o List.mem_cons_self

theorem SignsBy.tail (h : SignsBy x limit (o :: os)) (hn : ¬ o.IsPong x) : SignsBy x limit os := by
  rcases h with ⟨pong, hpong, hsign, hle⟩ | hall
  · rcases List.mem_cons.mp hpong with rfl | hlater
    · exact absurd hsign hn
    · exact .inl ⟨pong, hlater, hsign, hle⟩
  · exact .inr fun o' ho' => hall o' (List.mem_cons_of_mem o ho')

end

namespace State

variable {s s' : State} {seed : UInt64} {now : Time} {n : Notice} {ds : List Deed}
  {x : PlayerId} {g g' : Registration}

/-- The players who are given up in a look after the silent ones. -/
def silent (s : State) (now : Time) (order : List PlayerId) : List PlayerId :=
  (s.heartbeat.due now).2.expired (order.filterMap s.roll.registration?) now

theorem Moves.heartbeat_same (hm : Moves s seed (.notice now n) s' ds) :
    s'.heartbeat = s.heartbeat := by
  cases hm <;> rfl

/-- Only a look after the silent players cuts a link. -/
theorem Moves.cuts_nothing (hm : Moves s seed (.notice now n) s' ds) : .cut x ∉ ds := by
  have hleaves {tell : Message → Deed} {id : PlayerId} {r r' : Room} {ds : List Deed}
      (h : Leaves tell id r r' ds) (ht : ∀ m, tell m ≠ .cut x) : .cut x ∉ ds := by
    cases h with
    | stranger | alone => simp
    | concedes => simp [(ht _).symm]
  cases hm with
  | dismisses _ _ leaves => simp [hleaves leaves (by simp)]
  | loses _ leaves => exact hleaves leaves (by simp)
  | idles | admits | registers | hearsPong | answersPing | acknowledges | seats | pairs | relays
    | rules | losesNothing => simp

/-- A registration is entered at the time of the notice or was there before, and then a notice changes
nothing but, with a sign of life, when the player was last heard to be alive. -/
theorem Moves.record (hm : Moves s seed (.notice now n) s' ds)
    (hg' : s'.roll.registration? x = some g') :
    (s.roll.registration? x = none ∧ g'.closing = false ∧ g'.lastPong = now) ∨
      ∃ g, s.roll.registration? x = some g ∧
        (g' = g ∨ (Occasion.notice now n).IsPong x ∧ g' = { g with lastPong := now }) := by
  cases hm with
  | idles | answersPing | acknowledges | seats | pairs | relays | rules | losesNothing =>
    exact .inr ⟨g', hg', .inl rfl⟩
  | admits =>
    refine .inr ⟨g', ?_, .inl rfl⟩
    rw [← hg']
    simp [Roll.registration?]
  | @registers _ id m p link new kind player =>
    by_cases hx : x = id
    · subst hx
      left
      have hput : some ⟨x, true, now, { p with id := x }, false⟩ = some g' :=
        (Table.get?_put_new new).symm.trans hg'
      cases hput
      exact ⟨Table.get?_eq_none_iff.mpr new, rfl, rfl⟩
    · refine .inr ⟨g', ?_, .inl rfl⟩
      rw [← hg']
      exact (Table.get?_put_other new hx).symm
  | @hearsPong _ id m kind =>
    rw [Roll.registration?_adjust] at hg'
    split at hg'
    · next hx =>
      obtain ⟨g, hg, rfl⟩ := Option.map_eq_some_iff.mp hg'
      exact .inr ⟨g, hg, .inr ⟨⟨hx.symm, kind⟩, rfl⟩⟩
    · exact .inr ⟨g', hg', .inl rfl⟩
  | dismisses | loses =>
    refine .inr ⟨g', ?_, .inl rfl⟩
    rw [← hg']
    refine (Table.get?_erase_other ?_).symm
    rintro rfl
    exact (Table.mem_ids_erase.mp (Table.mem_ids_of_get? hg')).2 rfl

/-- A sign of life of a registered player is put down. -/
theorem meet_pong (h : s.Coherent) (seed : UInt64) (now : Time) {m : Message}
    (hg : s.roll.registration? x = some g) (kind : m.kind = .clientPong) :
    (s.meet seed (.notice now (.message x m))).1.roll.registration? x =
      some { g with lastPong := now } := by
  have hl : x ∈ s.roll.links := h.orderly.linked x (Table.mem_ids_of_get? hg)
  rw [meet_message hl, kind]
  change (s.roll.adjust x fun g => { g with lastPong := now }).registration? x = _
  rw [Roll.registration?_adjust, if_pos rfl, hg]
  rfl

section

variable {order : List PlayerId}

theorem due_patience (h : Heartbeat) (now : Time) :
    (h.due now).2.interval = h.interval ∧ (h.due now).2.patience = h.patience := by
  unfold Heartbeat.due
  split <;> exact ⟨rfl, rfl⟩

/-- Who is silent for too long does not hang on whether a ping is due. -/
theorem silenced_due (h : Heartbeat) (t : Time) : silenced (h.due t).2 = silenced h := by
  funext now g
  simp only [silenced, Heartbeat.isExpired, (due_patience h t).2]

theorem mem_silent (h : s.Coherent) (hx : x ∈ s.silent now order) :
    ∃ g, s.roll.registration? x = some g ∧ silenced s.heartbeat now g = true := by
  obtain ⟨g, hg, rfl⟩ := List.mem_map.mp hx
  obtain ⟨hg, hsilenced⟩ : g ∈ order.filterMap s.roll.registration? ∧
      silenced (s.heartbeat.due now).2 now g = true := List.mem_filter.mp hg
  rw [silenced_due] at hsilenced
  obtain ⟨id, -, hid⟩ := List.mem_filterMap.mp hg
  have hsame : g.id = id := (h.orderly.genuine _ (Table.mem_of_get? hid)).2.1
  rw [hsame]
  exact ⟨g, hid, hsilenced⟩

/-- Only those who are given up are cut. -/
theorem mem_silent_of_cut (hc : .cut x ∈ (s.checkLiveness now order).2) : x ∈ s.silent now order := by
  rcases List.mem_append.mp hc with hping | hcut
  · split at hping
    · obtain ⟨g, -, hsend⟩ := List.mem_map.mp hping
      unfold send at hsend
      split at hsend <;> cases hsend
    · cases hping
  · obtain ⟨id, hid, he⟩ := List.mem_map.mp hcut
    cases he
    exact (List.mem_filter.mp hid).1

/-- A player who is not being cut is pinged when a ping is due. -/
theorem ping_of_due (h : s.Coherent) (thorough : (Occasion.check now order).Thorough s)
    (hg : s.roll.registration? x = some g) (hclosing : g.closing = false)
    (hdue : (s.heartbeat.due now).1 = true) :
    .post x .serverPing ∈ (s.checkLiveness now order).2 := by
  have hvalid : g.validated = true := (h.orderly.genuine _ (Table.mem_of_get? hg)).1
  have hcalls := checkLiveness_calls h thorough hg
  have hcall : .send .serverPing ∈ (s.checkLiveness now order).2.filterMap (Deed.call? x) := by
    rw [hcalls]
    simp [hdue, pinged, hvalid, hclosing]
  obtain ⟨d, hd, hsend⟩ := List.mem_filterMap.mp hcall
  cases d with
  | post receiver m =>
    simp only [Deed.call?, Option.ite_none_right_eq_some, Option.some.injEq,
      Link.Call.send.injEq] at hsend
    obtain ⟨rfl, rfl⟩ := hsend
    exact hd
  | finish other => simp [Deed.call?] at hsend
  | cut other => simp [Deed.call?] at hsend
  | miss | opens | rules => cases hsend

end

/-- How far apart the last look, the last ping and the last sign of life of `x` can be. The hall looked
last at `seen`. A ping since the last sign of life is still answered in time. -/
structure Cares (x : PlayerId) (gap delay : Nat) (seen now : Time) (s : State) (os : List Occasion) :
    Prop where
  asked_seen : s.heartbeat.lastPing ≤ seen
  seen_asked : seen ≤ s.heartbeat.lastPing + s.heartbeat.interval
  seen_now : seen ≤ now
  alive : ∀ g, s.roll.registration? x = some g → g.closing = false ∧
    (s.heartbeat.lastPing ≤ g.lastPong ∨
      ∃ asked, asked ≤ g.lastPong + s.heartbeat.interval + gap ∧ SignsBy x (asked + delay) os)

theorem cares_opened (x : PlayerId) (interval patience gap delay : Nat) (start : Time)
    (os : List Occasion) :
    Cares x gap delay start start (opened interval patience start) os :=
  ⟨Nat.le_refl _, Nat.le_add_right _ _, Nat.le_refl _, fun _ hg => nomatch hg⟩

variable {gap delay : Nat} {seen t : Time} {os : List Occasion} {order : List PlayerId}

theorem Cares.notice (h : Cares x gap delay seen now s (.notice t n :: os)) (hs : s.Coherent)
    (ht : now ≤ t) (seed : UInt64) :
    Cares x gap delay seen t (s.meet seed (.notice t n)).1 os := by
  have hm := meet_moves hs seed (.notice t n)
  have hheart := hm.heartbeat_same
  obtain ⟨hasked, hseen, hnow, halive⟩ := h
  -- a sign of life now is later than the last ping
  have hfresh : (s.meet seed (.notice t n)).1.heartbeat.lastPing ≤ t := by
    rw [hheart]
    exact Nat.le_trans hasked (Nat.le_trans hnow ht)
  refine ⟨by rw [hheart]; exact hasked, by rw [hheart]; exact hseen, Nat.le_trans hnow ht, ?_⟩
  intro g' hg'
  rcases hm.record hg' with ⟨-, hclosing, hpong⟩ | ⟨g, hg, rfl | ⟨-, rfl⟩⟩
  · exact ⟨hclosing, .inl (by rw [hpong]; exact hfresh)⟩
  · obtain ⟨hopen, hdates⟩ := halive g' hg
    refine ⟨hopen, ?_⟩
    by_cases hsign : (Occasion.notice t n).IsPong x
    · left
      match n, hsign with
      | .message _ m, ⟨rfl, kind⟩ =>
        have hput := meet_pong hs seed t hg kind
        rw [hg'] at hput
        rw [Option.some.inj hput]
        exact hfresh
    · rw [hheart]
      rcases hdates with hdate | ⟨asked, hle, hsigns⟩
      · exact .inl hdate
      · exact .inr ⟨asked, hle, hsigns.tail hsign⟩
  · exact ⟨(halive g hg).1, .inl hfresh⟩

/-- A look is not late for a player who has been heard since the last ping. -/
theorem Cares.look_within (h : Cares x gap delay seen now s os) (watched : t ≤ seen + gap)
    (hdate : s.heartbeat.lastPing ≤ g.lastPong) :
    t ≤ g.lastPong + s.heartbeat.interval + gap :=
  calc t ≤ seen + gap := watched
    _ ≤ s.heartbeat.lastPing + s.heartbeat.interval + gap := Nat.add_le_add_right h.seen_asked gap
    _ ≤ g.lastPong + s.heartbeat.interval + gap :=
      Nat.add_le_add_right (Nat.add_le_add_right hdate _) gap

/-- No look finds a player who answers silent for too long. -/
theorem Cares.in_time (h : Cares x gap delay seen now s (.check t order :: os))
    (bound : s.heartbeat.interval + gap + delay ≤ s.heartbeat.patience)
    (steady : Steady now (.check t order :: os)) (watched : t ≤ seen + gap)
    (hg : s.roll.registration? x = some g) : silenced s.heartbeat t g = false := by
  have hlast : t ≤ g.lastPong + s.heartbeat.interval + gap + delay := by
    rcases (h.alive g hg).2 with hdate | ⟨asked, hle, hsigns⟩
    · exact Nat.le_trans (h.look_within watched hdate) (Nat.le_add_right _ delay)
    · exact Nat.le_trans (hsigns.time_le steady) (Nat.add_le_add_right hle delay)
  have hin : t - g.lastPong ≤ s.heartbeat.patience := by
    rw [Nat.sub_le_iff_le_add']
    apply Nat.le_trans hlast
    rw [Nat.add_assoc, Nat.add_assoc, ← Nat.add_assoc s.heartbeat.interval]
    exact Nat.add_le_add_left bound g.lastPong
  have hexp : s.heartbeat.isExpired g.lastPong t = false := decide_eq_false (Nat.not_lt.mpr hin)
  rw [silenced, hexp, Bool.and_false]

theorem Cares.check (h : Cares x gap delay seen now s (.check t order :: os)) (hs : s.Coherent)
    (bound : s.heartbeat.interval + gap + delay ≤ s.heartbeat.patience)
    (thorough : (Occasion.check t order).Thorough s)
    (steady : Steady now (.check t order :: os)) (watched : t ≤ seen + gap)
    (answers : .post x .serverPing ∈ (s.checkLiveness t order).2 → SignsBy x (t + delay) os) :
    Cares x gap delay t t (s.checkLiveness t order).1 os := by
  have hheart : (s.checkLiveness t order).1.heartbeat = (s.heartbeat.due t).2 := rfl
  have hnow : now ≤ t := steady.1
  obtain ⟨hasked, hseen, hsn, halive⟩ := id h
  have hrecord {g' : Registration} (hg' : (s.checkLiveness t order).1.roll.registration? x = some g') :
      s.roll.registration? x = some g' := by
    have hsame : (s.checkLiveness t order).1.roll.registrations.ids = s.roll.registrations.ids :=
      checkLiveness_ids order
    have hids : x ∈ s.roll.registrations.ids := by
      rw [← hsame]
      exact Table.mem_ids_of_get? hg'
    obtain ⟨g, hg⟩ : ∃ g, s.roll.registration? x = some g := Table.exists_get? hids
    rw [checkLiveness_registration hs thorough hg, silenced_due, h.in_time bound steady watched hg,
      if_neg (by decide)] at hg'
    rw [hg, hg']
  by_cases hdue : t - s.heartbeat.lastPing < s.heartbeat.interval
  · have hout : s.heartbeat.due t = (false, s.heartbeat) := if_pos hdue
    refine ⟨?_, ?_, Nat.le_refl _, ?_⟩
    · rw [hheart, hout]
      exact Nat.le_trans hasked (Nat.le_trans hsn hnow)
    · rw [hheart, hout]
      exact Nat.sub_le_iff_le_add'.mp (Nat.le_of_lt hdue)
    · intro g hg
      obtain ⟨hopen, hdates⟩ := halive g (hrecord hg)
      rw [hheart, hout]
      refine ⟨hopen, ?_⟩
      rcases hdates with hdate | ⟨asked, hle, hsigns⟩
      · exact .inl hdate
      · exact .inr ⟨asked, hle, hsigns.tail id⟩
  · have hout : s.heartbeat.due t = (true, { s.heartbeat with lastPing := t }) := if_neg hdue
    refine ⟨?_, ?_, Nat.le_refl _, ?_⟩
    · exact Nat.le_of_eq (by rw [hheart, hout])
    · rw [hheart, hout]
      exact Nat.le_add_right _ _
    · intro g hg
      obtain ⟨hopen, hdates⟩ := halive g (hrecord hg)
      rw [hheart, hout]
      refine ⟨hopen, .inr ?_⟩
      rcases hdates with hdate | ⟨asked, hle, hsigns⟩
      · have hping := ping_of_due hs thorough (hrecord hg) hopen (by rw [hout])
        exact ⟨t, h.look_within watched hdate, answers hping⟩
      · exact ⟨asked, hle, hsigns.tail id⟩

end State

namespace Course

variable {seeds : Nat → UInt64} {c : Course} {x : PlayerId} {gap delay : Nat} {seen now : Time}
  {os : List Occasion}

/-- What holds at a look that comes first and at all later ones holds at every look. -/
theorem checks_cons {P : List Occasion → Time → List PlayerId → Prop} {o : Occasion}
    (first : ∀ t order, o = .check t order → P [] t order)
    (later : ∀ before t order after, os = before ++ .check t order :: after → P (o :: before) t order)
    {before after : List Occasion} {t : Time} {order : List PlayerId}
    (hos : o :: os = before ++ .check t order :: after) : P before t order := by
  cases before with
  | nil =>
    cases hos
    exact first t order rfl
  | cons o' before =>
    rw [List.cons_append, List.cons.injEq] at hos
    obtain ⟨rfl, hos⟩ := hos
    exact later before t order after hos

theorem Answers.never_silent (answers : c.Answers seeds x delay os) (hc : c.hall.Coherent)
    (cares : c.hall.Cares x gap delay seen now os)
    (bound : c.hall.heartbeat.interval + gap + delay ≤ c.hall.heartbeat.patience)
    (steady : Steady now os) (watched : Watched gap seen os) (thorough : c.Thorough seeds os)
    (hcut : .cut x ∉ c.deeds) :
    (∀ before t order after, os = before ++ .check t order :: after →
      x ∉ (c.run seeds before).hall.silent t order) ∧ .cut x ∉ (c.run seeds os).deeds := by
  induction os generalizing c seen now with
  | nil => exact ⟨fun before t order after hos => by simp at hos, hcut⟩
  | cons o os ih =>
    have hnext : (c.next seeds o).hall = (c.hall.meet (seeds c.made) o).1 := by rw [next_eq]
    have hdeeds : (c.next seeds o).deeds = c.deeds ++ (c.hall.meet (seeds c.made) o).2 := by
      rw [next_eq]
    have hcoherent : (c.next seeds o).hall.Coherent := next_coherent hc o
    let kept (before : List Occasion) (t : Time) (order : List PlayerId) : Prop :=
      x ∉ (c.run seeds before).hall.silent t order
    cases o with
    | notice t n =>
      have hm := State.meet_moves hc (seeds c.made) (.notice t n)
      have hcut' : .cut x ∉ (c.next seeds (.notice t n)).deeds := by
        rw [hdeeds, List.mem_append, not_or]
        exact ⟨hcut, hm.cuts_nothing⟩
      have hbound : (c.next seeds (.notice t n)).hall.heartbeat = c.hall.heartbeat := by
        rw [hnext]
        exact hm.heartbeat_same
      have hcares : State.Cares x gap delay seen t (c.next seeds (.notice t n)).hall os := by
        rw [hnext]
        exact cares.notice hc steady.1 (seeds c.made)
      obtain ⟨hsilent, hcuts⟩ := ih answers.2 hcoherent hcares (by rw [hbound]; exact bound) steady.2
        watched thorough.2 hcut'
      refine ⟨?_, hcuts⟩
      intro before t' order after
      refine checks_cons (P := kept) ?_ hsilent
      rintro _ _ ⟨⟩
    | check t order =>
      have hlook : x ∉ c.hall.silent t order := by
        intro hx
        obtain ⟨g, hg, hsilenced⟩ := State.mem_silent hc hx
        rw [cares.in_time bound steady watched.1 hg] at hsilenced
        cases hsilenced
      have hcut' : .cut x ∉ (c.next seeds (.check t order)).deeds := by
        rw [hdeeds, List.mem_append, not_or]
        exact ⟨hcut, mt State.mem_silent_of_cut hlook⟩
      have hcares : State.Cares x gap delay t t (c.next seeds (.check t order)).hall os := by
        rw [hnext]
        exact cares.check hc bound thorough.1 steady watched.1 answers.1
      have hheart := State.due_patience c.hall.heartbeat t
      have hbound : (c.next seeds (.check t order)).hall.heartbeat.interval + gap + delay ≤
          (c.next seeds (.check t order)).hall.heartbeat.patience := by
        rw [hnext]
        change (c.hall.heartbeat.due t).2.interval + gap + delay ≤ (c.hall.heartbeat.due t).2.patience
        rw [hheart.1, hheart.2]
        exact bound
      obtain ⟨hsilent, hcuts⟩ := ih answers.2 hcoherent hcares hbound steady.2 watched.2
        thorough.2 hcut'
      refine ⟨?_, hcuts⟩
      intro before t' order' after
      refine checks_cons (P := kept) ?_ hsilent
      rintro t' order' ⟨⟩
      exact hlook

/-- A player who answers is never given up. The clock of a hall never goes back; the hall is opened and
then looks after its players at least every `gap`, at each of them; and whenever it pings `x`, a sign of
life of `x` follows within `delay`, or all is over before that. If the patience of the hall is not less
than the interval between two pings, the gap and the delay together, no look gives `x` up, and its link
is never cut, whenever `x` registers and whatever else happens. -/
theorem responsive_never_given_up (seeds : Nat → UInt64) (interval patience gap delay : Nat)
    (start : Time) (x : PlayerId) (os : List Occasion)
    (bound : interval + gap + delay ≤ patience) (steady : Steady start os)
    (watched : Watched gap start os)
    (thorough : (opened interval patience start).Thorough seeds os)
    (answers : (opened interval patience start).Answers seeds x delay os) :
    (∀ before now order after, os = before ++ .check now order :: after →
      x ∉ ((opened interval patience start).run seeds before).hall.silent now order) ∧
    .cut x ∉ ((opened interval patience start).run seeds os).deeds :=
  answers.never_silent (State.coherent_opened interval patience start)
    (State.cares_opened x interval patience gap delay start os) bound steady watched thorough
    (List.not_mem_nil)

/-- Player `1` registers just after a ping and takes all the time there is to answer the next one. It is
kept, while player `2`, who does not answer, is cut. -/
theorem late_answers_suffice :
    let seeds : Nat → UInt64 := fun _ => 7
    let os : List Occasion :=
      [.notice 0 (.connected 1), .notice 1 (.connected 2), .notice 1 (.message 2 (.register ⟨0, 4⟩)),
        .check 3 [2], .check 5 [2], .notice 5 (.message 1 (.register ⟨0, 3⟩)), .check 8 [2, 1],
        .check 9 [1, 2], .check 12 [1, 2], .notice 13 (.lost 2), .check 14 [1],
        .notice 14 (.message 1 .clientPong), .check 17 [1], .check 19 [1],
        .notice 19 (.message 1 .clientPong)]
    ((∀ before now order after, os = before ++ .check now order :: after →
        1 ∉ ((opened 5 10 0).run seeds before).hall.silent now order) ∧
      .cut 1 ∉ ((opened 5 10 0).run seeds os).deeds) ∧
      .cut 2 ∈ ((opened 5 10 0).run seeds os).deeds :=
  ⟨responsive_never_given_up (fun _ => 7) 5 10 3 2 0 1
    [.notice 0 (.connected 1), .notice 1 (.connected 2), .notice 1 (.message 2 (.register ⟨0, 4⟩)),
      .check 3 [2], .check 5 [2], .notice 5 (.message 1 (.register ⟨0, 3⟩)), .check 8 [2, 1],
      .check 9 [1, 2], .check 12 [1, 2], .notice 13 (.lost 2), .check 14 [1],
      .notice 14 (.message 1 .clientPong), .check 17 [1], .check 19 [1],
      .notice 19 (.message 1 .clientPong)]
    (by decide) (by decide) (by decide) (by decide) (by decide), by decide⟩

end Course
end BlockDuel.Hall
