import BlockDuel.Proofs.Hall.Briefing
import BlockDuel.Proofs.Hall.Heartbeat

/-!
Players who fall silent. A hall cuts the link of a player exactly if the player has been registered
and silent for longer than the patience of the hall, and then asks nothing more of the link until the
player registers anew. The record that the hall keeps of a player says when the player was last heard
and whether the link is being cut; both are matters of what happened since the registration.
-/
namespace BlockDuel.Hall
open Wire

/-- A ping, or the cut that ends the wait for an answer. -/
def probes : Link.Call → Bool
  | .send m => m.kind = .serverPing
  | .disconnect => true
  | .shutdown => false

/-- Behind the first cut there is neither a ping nor another cut. -/
def CutLast (cs : List Link.Call) : Prop :=
  ∀ u v, cs = u ++ .disconnect :: v → ∀ c ∈ v, probes c = false

/-- A player who registered in the occasion `o` has given no sign of life for longer than `patience`:
not by registering, and not since. -/
def SilentSince (x : PlayerId) (patience : Nat) (now : Time) (o : Occasion)
    (since : List Occasion) : Prop :=
  o.time + patience < now ∧ ∀ p ∈ since, p.IsPong x → p.time + patience < now

/-- Behind `past`, the player `x` registers in the occasion `o` and stays registered from then on. -/
structure Course.Enrolls (seeds : Nat → UInt64) (c : Course) (x : PlayerId) (past : List Occasion)
    (o : Occasion) (since : List Occasion) : Prop where
  new : x ∉ (c.run seeds past).hall.roll.registrations.ids
  stays : ∀ es, es <+: since → x ∈ (c.run seeds (past ++ o :: es)).hall.roll.registrations.ids

section

variable {x : PlayerId} {cs cs' : List Link.Call} {ds : List Deed}

theorem Deed.call?_eq_disconnect {d : Deed} : d.call? x = some .disconnect ↔ d = .cut x := by
  cases d <;> simp [call?]

theorem mem_cut_iff : .cut x ∈ ds ↔ .disconnect ∈ ds.filterMap (Deed.call? x) := by
  simp [Deed.call?_eq_disconnect]

theorem not_cut_of_quiet (h : ∀ c ∈ cs, probes c = false) : .disconnect ∉ cs :=
  fun hc => Bool.noConfusion (h _ hc)

theorem CutLast.of_uncut (h : .disconnect ∉ cs) : CutLast cs := by
  rintro u v rfl
  exact absurd (by simp) h

theorem cutLast_cut : CutLast [.disconnect] := by
  intro u v huv c hc
  cases u with
  | nil =>
    cases huv
    cases hc
  | cons d u => simp at huv

theorem CutLast.append (h : CutLast cs) (h' : CutLast cs')
    (quiet : .disconnect ∈ cs → ∀ c ∈ cs', probes c = false) : CutLast (cs ++ cs') := by
  intro u v huv
  rcases List.append_eq_append_iff.mp huv with ⟨w, -, hcs'⟩ | ⟨w, hcs, hw⟩
  · exact h' w v hcs'
  · cases w with
    | nil => exact h' [] v hw.symm
    | cons c w =>
      obtain ⟨rfl, rfl⟩ := List.cons.inj hw
      intro c hc
      rcases List.mem_append.mp hc with hc | hc
      · exact h u w hcs c hc
      · exact quiet (by simp [hcs]) c hc

end

namespace State

variable {s s' : State} {seed : UInt64} {now : Time} {n : Notice} {o : Occasion} {ds : List Deed}
  {order : List PlayerId} {x : PlayerId} {g g' : Registration}

/-- What a notice brings has nothing to do with silence. -/
theorem Moves.quiet (hm : Moves s seed (.notice now n) s' ds) :
    ∀ c ∈ ds.filterMap (Deed.call? x), probes c = false := by
  intro c hc
  cases c with
  | shutdown => rfl
  | disconnect => exact absurd (mem_cut_iff.mpr hc) hm.cuts_nothing
  | send m =>
    obtain ⟨d, hd, hcall⟩ := List.mem_filterMap.mp hc
    refine decide_eq_false ?_
    cases hm.source hd (Deed.sent?_of_call? hcall) with
    | copy relayed pits =>
      intro hk
      rw [hk] at relayed
      cases relayed
    | composed own composes => cases composes <;> exact Kind.noConfusion

/-- A look after the silent players passes over those who are not registered. -/
theorem checkLiveness_unasked (h : s.Coherent) (hx : x ∉ s.roll.registrations.ids) :
    (s.checkLiveness now order).2.filterMap (Deed.call? x) = [] := by
  rw [List.filterMap_eq_nil_iff]
  intro d hd
  have hne {id : PlayerId} {g : Registration} (hg : s.roll.registration? id = some g) : id ≠ x := by
    rintro rfl
    exact hx (Table.mem_ids_of_get? hg)
  rcases List.mem_append.mp hd with hd | hd
  · split at hd
    · obtain ⟨g, hg, rfl⟩ := List.mem_map.mp hd
      obtain ⟨id, -, hid⟩ := List.mem_filterMap.mp (List.mem_filter.mp hg).1
      have hsame : g.id = id := (h.orderly.genuine _ (Table.mem_of_get? hid)).2.1
      unfold send
      split <;> simp [Deed.call?, hsame, hne hid]
    · cases hd
  · obtain ⟨id, hid, rfl⟩ := List.mem_map.mp hd
    obtain ⟨g, hg, -⟩ := mem_silent h (List.mem_filter.mp hid).1
    simp [Deed.call?, hne hg]

/-- Whatever happens, the link of a player who is not registered is neither pinged nor cut. -/
theorem meet_quiet (h : s.Coherent) (seed : UInt64) (o : Occasion)
    (hx : x ∉ s.roll.registrations.ids) :
    ∀ c ∈ (s.meet seed o).2.filterMap (Deed.call? x), probes c = false := by
  cases o with
  | notice now n => exact (meet_moves h seed (.notice now n)).quiet
  | check now order =>
    change ∀ c ∈ (s.checkLiveness now order).2.filterMap (Deed.call? x), probes c = false
    rw [checkLiveness_unasked h hx]
    exact fun c hc => nomatch hc

theorem silenced_iff (h : s.Coherent) (hg : s.roll.registration? x = some g) :
    silenced s.heartbeat now g = true ↔
      g.closing = false ∧ g.lastPong + s.heartbeat.patience < now := by
  have hvalid : g.validated = true := (h.orderly.genuine _ (Table.mem_of_get? hg)).1
  simp only [silenced, pinged, hvalid, Bool.true_and, Bool.and_eq_true, Bool.not_eq_true',
    Heartbeat.isExpired, decide_eq_true_eq, Nat.lt_sub_iff_add_lt']

/-- A look cuts the link of a registered player exactly if the player is silent for too long and the
link is not being cut already. -/
theorem cut_iff (h : s.Coherent) (thorough : (Occasion.check now order).Thorough s)
    (hg : s.roll.registration? x = some g) :
    .cut x ∈ (s.checkLiveness now order).2 ↔
      g.closing = false ∧ g.lastPong + s.heartbeat.patience < now := by
  rw [mem_cut_iff, checkLiveness_calls h thorough hg, silenced_due, ← silenced_iff h hg]
  simp

/-- A player who was not registered is entered as heard at that time. -/
theorem meet_enters (h : s.Coherent) (seed : UInt64) (hx : x ∉ s.roll.registrations.ids)
    (hg' : (s.meet seed o).1.roll.registration? x = some g') :
    g'.closing = false ∧ g'.lastPong = o.time := by
  cases o with
  | check now order =>
    have hids : x ∈ (s.checkLiveness now order).1.roll.registrations.ids :=
      Table.mem_ids_of_get? hg'
    rw [checkLiveness_ids] at hids
    exact absurd hids hx
  | notice now n =>
    rcases (meet_moves h seed (.notice now n)).record hg' with ⟨-, hentered⟩ | ⟨g, hg, -⟩
    · exact hentered
    · exact absurd (Table.mem_ids_of_get? hg) hx

/-- What an occasion changes in the record of a player who stays registered, and what it asks of the
link: a sign of life is put down, and a link that is being cut is left alone. -/
theorem meet_keeps (h : s.Coherent) (seed : UInt64) (thorough : o.Thorough s)
    (hg : s.roll.registration? x = some g)
    (hg' : (s.meet seed o).1.roll.registration? x = some g') :
    let cs := (s.meet seed o).2.filterMap (Deed.call? x)
    (g'.lastPong = if o.IsPong x then o.time else g.lastPong) ∧
      (g'.closing = true ↔ g.closing = true ∨ .disconnect ∈ cs) ∧ CutLast cs ∧
      (g.closing = true → ∀ c ∈ cs, probes c = false) := by
  intro cs
  cases o with
  | notice now n =>
    have hquiet : ∀ c ∈ cs, probes c = false := (meet_moves h seed (.notice now n)).quiet
    have hcut := not_cut_of_quiet hquiet
    suffices hrecord : (g'.lastPong = if (Occasion.notice now n).IsPong x then now else g.lastPong) ∧
        g'.closing = g.closing by
      refine ⟨hrecord.1, ?_, .of_uncut hcut, fun _ => hquiet⟩
      rw [hrecord.2, or_iff_left hcut]
    rcases (meet_moves h seed (.notice now n)).record hg' with ⟨hnone, -⟩ | ⟨g₀, hg₀, hsame⟩
    · rw [hg] at hnone
      cases hnone
    rw [hg] at hg₀
    cases hg₀
    by_cases hsign : (Occasion.notice now n).IsPong x
    · match n, hsign with
      | .message _ m, ⟨rfl, kind⟩ =>
        rw [meet_pong h seed now hg kind] at hg'
        cases hg'
        exact ⟨(if_pos ⟨rfl, kind⟩).symm, rfl⟩
    · rcases hsame with rfl | ⟨hpong, -⟩
      · exact ⟨(if_neg hsign).symm, rfl⟩
      · exact absurd hpong hsign
  | check now order =>
    let pings : List Link.Call :=
      if (s.heartbeat.due now).1 && pinged g then [.send .serverPing] else []
    have hcs : cs = pings ++ if silenced s.heartbeat now g then [.disconnect] else [] := by
      rw [← silenced_due s.heartbeat now]
      exact checkLiveness_calls h thorough hg
    have hpings : .disconnect ∉ pings := by
      simp only [pings]
      split <;> simp
    have hrecord : (s.checkLiveness now order).1.roll.registration? x = some g' := hg'
    rw [checkLiveness_registration h thorough hg, silenced_due] at hrecord
    rw [hcs]
    by_cases hs : silenced s.heartbeat now g = true
    · have hopen := ((silenced_iff h hg).mp hs).1
      rw [if_pos hs] at hrecord ⊢
      cases hrecord
      refine ⟨rfl, by simp, ?_, ?_⟩
      · exact (CutLast.of_uncut hpings).append cutLast_cut fun hc => absurd hc hpings
      · intro hclosing
        rw [hclosing] at hopen
        cases hopen
    · rw [if_neg hs] at hrecord
      rw [if_neg hs, List.append_nil]
      cases hrecord
      refine ⟨rfl, by simp [hpings], .of_uncut hpings, ?_⟩
      intro hclosing
      simp [pings, pinged, hclosing]

end State

section

variable {start : Time} {os os' : List Occasion} {o p : Occasion}

theorem Steady.of_append (h : Steady start (os ++ os')) : Steady start os := by
  induction os generalizing start with
  | nil => trivial
  | cons o os ih => exact ⟨h.1, ih h.2⟩

theorem Steady.le_last (h : Steady start (os ++ [o])) (hp : p ∈ os) : p.time ≤ o.time := by
  induction os generalizing start with
  | nil => cases hp
  | cons first os ih =>
    rcases List.mem_cons.mp hp with rfl | hp
    · exact h.2.le (by simp)
    · exact ih h.2 hp

end

/-- The record `g` of a player who registered in the occasion `o` tells of what happened `since`, and
`cs` is what was asked of the link in that time. -/
structure Recorded (x : PlayerId) (o : Occasion) (since : List Occasion) (g : Registration)
    (cs : List Link.Call) : Prop where
  entered : o.time ≤ g.lastPong
  heard : ∀ p ∈ since, p.IsPong x → p.time ≤ g.lastPong
  stems : g.lastPong = o.time ∨ ∃ p ∈ since, p.IsPong x ∧ g.lastPong = p.time
  marked : g.closing = true ↔ .disconnect ∈ cs
  last : CutLast cs

theorem Recorded.silent_iff {x : PlayerId} {o : Occasion} {since : List Occasion} {g : Registration}
    {cs : List Link.Call} (h : Recorded x o since g cs) (patience : Nat) (now : Time) :
    g.lastPong + patience < now ↔ SilentSince x patience now o since := by
  have hlate {last : Time} (hle : last ≤ g.lastPong) (h : g.lastPong + patience < now) :
      last + patience < now :=
    Nat.lt_of_le_of_lt (Nat.add_le_add_right hle patience) h
  constructor
  · intro hsilent
    exact ⟨hlate h.entered hsilent, fun p hp hsign => hlate (h.heard p hp hsign) hsilent⟩
  · rintro ⟨hregistered, hsigns⟩
    rcases h.stems with hlast | ⟨p, hp, hsign, hlast⟩
    · rw [hlast]
      exact hregistered
    · rw [hlast]
      exact hsigns p hp hsign

/-- One more occasion. -/
theorem Recorded.extend {x : PlayerId} {o p : Occasion} {since : List Occasion} {g g' : Registration}
    {cs cs' : List Link.Call} (h : Recorded x o since g cs) (first : o.time ≤ p.time)
    (later : ∀ q ∈ since, q.time ≤ p.time)
    (last : g'.lastPong = if p.IsPong x then p.time else g.lastPong)
    (marked : g'.closing = true ↔ g.closing = true ∨ .disconnect ∈ cs') (cut : CutLast cs')
    (quiet : g.closing = true → ∀ c ∈ cs', probes c = false) :
    Recorded x o (since ++ [p]) g' (cs ++ cs') := by
  have hmarked : g'.closing = true ↔ .disconnect ∈ cs ++ cs' := by
    rw [marked, h.marked, List.mem_append]
  have hcut : CutLast (cs ++ cs') := h.last.append cut fun hc => quiet (h.marked.mpr hc)
  by_cases hsign : p.IsPong x
  · rw [if_pos hsign] at last
    refine ⟨by rw [last]; exact first, ?_, .inr ⟨p, by simp, hsign, last⟩, hmarked, hcut⟩
    intro q hq _
    rw [last]
    rcases List.mem_append.mp hq with hq | hq
    · exact later q hq
    · exact Nat.le_of_eq (congrArg Occasion.time (List.mem_singleton.mp hq))
  · rw [if_neg hsign] at last
    refine ⟨by rw [last]; exact h.entered, ?_, ?_, hmarked, hcut⟩
    · intro q hq hpong
      rw [last]
      rcases List.mem_append.mp hq with hq | hq
      · exact h.heard q hq hpong
      · rw [List.mem_singleton.mp hq] at hpong
        exact absurd hpong hsign
    · rw [last]
      rcases h.stems with hlast | ⟨q, hq, hpong, hlast⟩
      · exact .inl hlast
      · exact .inr ⟨q, List.mem_append_left _ hq, hpong, hlast⟩

namespace Course

variable {seeds : Nat → UInt64} {c : Course} {x : PlayerId} {start : Time}
  {past since os os' : List Occasion} {o p : Occasion}

theorem thorough_append : c.Thorough seeds (os ++ os') ↔
    c.Thorough seeds os ∧ (c.run seeds os).Thorough seeds os' := by
  induction os generalizing c with
  | nil => exact (and_iff_right trivial).symm
  | cons o os ih =>
    change _ ∧ (c.next seeds o).Thorough seeds (os ++ os') ↔ (_ ∧ _) ∧ _
    rw [ih, and_assoc]
    rfl

theorem run_patience (os : List Occasion) (hc : c.hall.Coherent) :
    (c.run seeds os).hall.heartbeat.patience = c.hall.heartbeat.patience := by
  induction os using List.reverseRecOn with
  | nil => rfl
  | append_singleton os o ih =>
    rw [run_concat, next_eq, ← ih]
    cases o with
    | notice now n =>
      have hc' : (c.run seeds os).hall.Coherent := run_coherent hc os
      have hm := State.meet_moves hc' (seeds (c.run seeds os).made) (.notice now n)
      exact congrArg Heartbeat.patience hm.heartbeat_same
    | check now order => exact (State.due_patience _ now).2

theorem Enrolls.of_concat (h : c.Enrolls seeds x past o (since ++ [p])) :
    c.Enrolls seeds x past o since :=
  ⟨h.new, fun es hes => h.stays es (hes.trans (List.prefix_append since [p]))⟩

/-- Everybody who is registered registered at some time. -/
theorem exists_enrolls (hx : x ∉ c.hall.roll.registrations.ids)
    (hin : x ∈ (c.run seeds os).hall.roll.registrations.ids) :
    ∃ past o since, os = past ++ o :: since ∧ c.Enrolls seeds x past o since := by
  induction os using List.reverseRecOn with
  | nil => exact absurd hin hx
  | append_singleton os p ih =>
    by_cases hbefore : x ∈ (c.run seeds os).hall.roll.registrations.ids
    · obtain ⟨past, o, since, rfl, h⟩ := ih hbefore
      refine ⟨past, o, since ++ [p], by simp, h.new, ?_⟩
      intro es hes
      rcases List.prefix_concat_iff.mp hes with rfl | hes
      · simpa using hin
      · exact h.stays es hes
    · refine ⟨os, p, [], rfl, hbefore, ?_⟩
      intro es hes
      rw [List.prefix_nil.mp hes]
      exact hin

/-- The record of a registered player tells of the time since the registration. -/
theorem Enrolls.recorded (h : c.Enrolls seeds x past o since) (hc : c.hall.Coherent)
    (steady : Steady start (past ++ o :: since))
    (thorough : c.Thorough seeds (past ++ o :: since)) :
    ∃ g cs, (c.run seeds (past ++ o :: since)).hall.roll.registration? x = some g ∧
      (c.run seeds (past ++ o :: since)).deeds.filterMap (Deed.call? x) =
        (c.run seeds (past ++ [o])).deeds.filterMap (Deed.call? x) ++ cs ∧
      Recorded x o since g cs := by
  obtain ⟨g, hg⟩ : ∃ g, (c.run seeds (past ++ o :: since)).hall.roll.registration? x = some g :=
    Table.exists_get? (h.stays since List.prefix_rfl)
  induction since using List.reverseRecOn generalizing g with
  | nil =>
    refine ⟨g, [], hg, (List.append_nil _).symm, ?_⟩
    rw [run_concat, next_eq] at hg
    obtain ⟨hopen, hlast⟩ := State.meet_enters (run_coherent hc past) _ h.new hg
    exact ⟨Nat.le_of_eq hlast.symm, by simp, .inl hlast, by simp [hopen],
      .of_uncut List.not_mem_nil⟩
  | append_singleton since p ih =>
    have hlist : past ++ o :: (since ++ [p]) = (past ++ o :: since) ++ [p] := by simp
    rw [hlist] at hg steady thorough ⊢
    obtain ⟨hthorough, hlook, -⟩ := thorough_append.mp thorough
    obtain ⟨g₀, hg₀⟩ :
        ∃ g, (c.run seeds (past ++ o :: since)).hall.roll.registration? x = some g :=
      Table.exists_get? (h.of_concat.stays since List.prefix_rfl)
    obtain ⟨g₁, cs, hg₁, hdeeds, hrecorded⟩ := ih h.of_concat steady.of_append hthorough g₀ hg₀
    rw [run_concat, next_eq] at hg ⊢
    obtain ⟨hlast, hclosing, hcut, hquiet⟩ :=
      State.meet_keeps (run_coherent hc _) (seeds (c.run seeds (past ++ o :: since)).made) hlook hg₁ hg
    refine ⟨g, cs ++ _, hg, ?_, hrecorded.extend (steady.le_last (by simp))
      (fun q hq => steady.le_last (by simp [hq])) hlast hclosing hcut hquiet⟩
    rw [List.filterMap_append, hdeeds, List.append_assoc]

/-- So the record tells how long a registered player has been silent. -/
theorem Enrolls.silent_iff (h : c.Enrolls seeds x past o since) (hc : c.hall.Coherent)
    (steady : Steady start (past ++ o :: since))
    (thorough : c.Thorough seeds (past ++ o :: since)) {g : Registration}
    (hg : (c.run seeds (past ++ o :: since)).hall.roll.registration? x = some g)
    (patience : Nat) (now : Time) :
    g.lastPong + patience < now ↔ SilentSince x patience now o since := by
  obtain ⟨g', cs, hg', -, hrecorded⟩ := h.recorded hc steady thorough
  cases hg.symm.trans hg'
  exact hrecorded.silent_iff patience now

/-- The hall cuts the silent players and nobody else, and each of them once. The clock never goes back
and every look after the silent players visits all of them. Then a look cuts the link of `x` exactly if
`x` is registered and has been silent for longer than the patience of the hall, since it registered and
since each sign of life after that, and the link is not marked as being cut. From one registration on,
until `x` is no longer registered, the mark says whether the link was cut; behind the first cut there
is no other one and no ping. A link without a registered player is neither pinged nor cut. -/
theorem only_silent_cut (seeds : Nat → UInt64) (interval patience : Nat) (start : Time) (x : PlayerId)
    (os : List Occasion) (steady : Steady start os)
    (thorough : (opened interval patience start).Thorough seeds os) :
    let c := opened interval patience start
    (∀ before now order after, os = before ++ .check now order :: after →
      (.cut x ∈ ((c.run seeds before).hall.checkLiveness now order).2 ↔
        ∃ past o since g, before = past ++ o :: since ∧ c.Enrolls seeds x past o since ∧
          SilentSince x patience now o since ∧
          (c.run seeds before).hall.roll.registration? x = some g ∧ g.closing = false)) ∧
    (∀ past o since after, os = past ++ o :: since ++ after → c.Enrolls seeds x past o since →
      ∃ g cs, (c.run seeds (past ++ o :: since)).hall.roll.registration? x = some g ∧
        (c.run seeds (past ++ o :: since)).deeds.filterMap (Deed.call? x) =
          (c.run seeds (past ++ [o])).deeds.filterMap (Deed.call? x) ++ cs ∧
        (g.closing = true ↔ .disconnect ∈ cs) ∧ CutLast cs) ∧
    (∀ before o after, os = before ++ o :: after →
      x ∉ (c.run seeds before).hall.roll.registrations.ids →
      ∃ cs, (c.run seeds (before ++ [o])).deeds.filterMap (Deed.call? x) =
          (c.run seeds before).deeds.filterMap (Deed.call? x) ++ cs ∧
        ∀ d ∈ cs, probes d = false) := by
  intro c
  have hc : c.hall.Coherent := State.coherent_opened interval patience start
  refine ⟨?_, ?_, ?_⟩
  · intro before now order after hos
    subst hos
    obtain ⟨hbefore, hlook, -⟩ := thorough_append.mp thorough
    have hs : (c.run seeds before).hall.Coherent := run_coherent hc before
    have hpatience : (c.run seeds before).hall.heartbeat.patience = patience :=
      run_patience before hc
    constructor
    · intro hcut
      obtain ⟨g, hg, -⟩ := State.mem_silent hs (State.mem_silent_of_cut hcut)
      obtain ⟨hopen, hlate⟩ := (State.cut_iff hs hlook hg).mp hcut
      obtain ⟨past, o, since, rfl, henrolls⟩ :=
        exists_enrolls List.not_mem_nil (Table.mem_ids_of_get? hg)
      rw [hpatience, henrolls.silent_iff hc steady.of_append hbefore hg] at hlate
      exact ⟨past, o, since, g, rfl, henrolls, hlate, hg, hopen⟩
    · rintro ⟨past, o, since, g, rfl, henrolls, hsilent, hg, hopen⟩
      rw [State.cut_iff hs hlook hg, hpatience, henrolls.silent_iff hc steady.of_append hbefore hg]
      exact ⟨hopen, hsilent⟩
  · intro past o since after hos henrolls
    subst hos
    obtain ⟨g, cs, hg, hdeeds, hrecorded⟩ :=
      henrolls.recorded hc steady.of_append (thorough_append.mp thorough).1
    exact ⟨g, cs, hg, hdeeds, hrecorded.marked, hrecorded.last⟩
  · intro before o after hos hx
    subst hos
    have hs : (c.run seeds before).hall.Coherent := run_coherent hc before
    refine ⟨_, ?_, State.meet_quiet hs (seeds (c.run seeds before).made) o hx⟩
    rw [run_concat, next_eq, List.filterMap_append]

/-- The link of player `1` is cut for silence, but before it is lost the player unregisters and
registers anew. That is another registration, and after as long a silence the link is cut again. -/
theorem silent_again :
    let before : List Occasion :=
      [.notice 0 (.connected 1), .notice 1 (.message 1 (.register ⟨0, 3⟩)),
        .notice 3 (.message 1 .clientPong), .check 13 [1], .check 14 [1], .check 20 [1],
        .notice 21 (.message 1 (.unregister 1)), .notice 22 (.message 1 (.register ⟨0, 3⟩)),
        .check 32 [1]]
    let c := (opened 5 10 0).run (fun _ => 7) before
    c.deeds.filter (· = .cut 1) = [.cut 1] ∧ .cut 1 ∈ (c.hall.checkLiveness 33 [1]).2 ∧
      ∃ past o since g, before = past ++ o :: since ∧
        (opened 5 10 0).Enrolls (fun _ => 7) 1 past o since ∧ SilentSince 1 10 33 o since ∧
        c.hall.roll.registration? 1 = some g ∧ g.closing = false := by
  intro before c
  have hcut : .cut 1 ∈ (c.hall.checkLiveness 33 [1]).2 := by decide
  have hlooks := (only_silent_cut (fun _ => 7) 5 10 0 1 (before ++ [.check 33 [1]]) (by decide)
    (by decide)).1
  exact ⟨by decide, hcut, (hlooks before 33 [1] [] rfl).mp hcut⟩

end Course
end BlockDuel.Hall
