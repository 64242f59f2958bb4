import BlockDuel.Proofs.Hall.Heartbeat
import Mathlib.Data.List.Chain

/-!
How often a hall pings. A ping that is due restarts the interval from the reading at which it was asked for, so
pings are never closer together than that, however the clock goes and however often it is looked at; and no
longer than the interval goes by in which none is due.
-/
namespace BlockDuel.Hall
open Wire

/-- The readings at which a hall looks after its silent players. -/
def looks (os : List Occasion) : List Time :=
  os.filterMap fun o => match o with
    | .notice _ _ => none
    | .check now _ => some now

namespace Heartbeat

/-- The heartbeat after it was asked at some readings. -/
def run (h : Heartbeat) (ts : List Time) : Heartbeat := ts.foldl (fun h t => (h.due t).2) h

/-- The readings, among those at which it was asked, at which a ping was due. -/
def pings (h : Heartbeat) : List Time → List Time
  | [] => []
  | t :: ts => if (h.due t).1 then t :: (h.due t).2.pings ts else (h.due t).2.pings ts

variable {h : Heartbeat} {t : Time}

theorem due_iff : (h.due t).1 = true ↔ h.interval ≤ t - h.lastPing := by
  unfold due
  split <;> simp_all

theorem due_of_le (hd : h.interval ≤ t - h.lastPing) : h.due t = (true, { h with lastPing := t }) :=
  if_neg (Nat.not_lt.mpr hd)

theorem due_of_lt (hd : t - h.lastPing < h.interval) : h.due t = (false, h) := if_pos hd

theorem pings_cons_of_le (hd : h.interval ≤ t - h.lastPing) (ts : List Time) :
    h.pings (t :: ts) = t :: { h with lastPing := t }.pings ts := by
  rw [pings, due_of_le hd, if_pos rfl]

theorem pings_cons_of_lt (hd : t - h.lastPing < h.interval) (ts : List Time) :
    h.pings (t :: ts) = h.pings ts := by
  rw [pings, due_of_lt hd, if_neg Bool.false_ne_true]

theorem interval_run (ts : List Time) : (h.run ts).interval = h.interval := by
  induction ts generalizing h with
  | nil => rfl
  | cons t ts ih => exact ih.trans (State.due_patience h t).1

/-- The interval is counted from the last reading at which a ping was due. -/
theorem lastPing_run (ts : List Time) : (h.run ts).lastPing = (h.pings ts).getLastD h.lastPing := by
  induction ts generalizing h with
  | nil => rfl
  | cons t ts ih =>
    change ((h.due t).2.run ts).lastPing = _
    by_cases hd : h.interval ≤ t - h.lastPing
    · rw [pings_cons_of_le hd, due_of_le hd, ih, List.getLastD_cons]
    · have hlt : t - h.lastPing < h.interval := Nat.lt_of_not_le hd
      rw [pings_cons_of_lt hlt, due_of_lt hlt, ih]

/-- The first ping is no earlier than an interval after the start, and each of the others than an interval after
the one before it. -/
theorem pings_spaced (ts : List Time) :
    (h.lastPing :: h.pings ts).IsChain fun before after => h.interval ≤ after - before := by
  induction ts generalizing h with
  | nil => exact .singleton _
  | cons t ts ih =>
    by_cases hd : h.interval ≤ t - h.lastPing
    · rw [pings_cons_of_le hd]
      exact .cons_cons hd (ih (h := { h with lastPing := t }))
    · rw [pings_cons_of_lt (Nat.lt_of_not_le hd)]
      exact ih

/-- However often the clock goes back, the readings at which a ping is due go on. -/
theorem pings_increasing (hi : 0 < h.interval) (ts : List Time) :
    (h.lastPing :: h.pings ts).Pairwise (· < ·) :=
  List.isChain_iff_pairwise.mp ((pings_spaced ts).imp fun _ _ hgap =>
    Nat.lt_of_sub_pos (Nat.lt_of_lt_of_le hi hgap))

/-- No more pings than there were whole intervals. -/
theorem countP_pings_le (hi : 0 < h.interval) (ts : List Time) (now : Time) :
    (h.pings ts).countP (· ≤ now) ≤ (now - h.lastPing) / h.interval := by
  induction ts generalizing h with
  | nil => exact Nat.zero_le _
  | cons t ts ih =>
    by_cases hd : h.interval ≤ t - h.lastPing
    · have hrest : ({ h with lastPing := t }.pings ts).countP (· ≤ now) ≤ (now - t) / h.interval :=
        ih (h := { h with lastPing := t }) hi
      rw [pings_cons_of_le hd, List.countP_cons]
      by_cases hnow : t ≤ now
      · have hlast : h.lastPing ≤ t := Nat.le_of_lt (Nat.lt_of_sub_pos (Nat.lt_of_lt_of_le hi hd))
        have hsplit : now - h.lastPing = (now - t) + (t - h.lastPing) :=
          (Nat.sub_add_sub_cancel hnow hlast).symm
        calc _ ≤ (now - t) / h.interval + 1 := by simpa [hnow] using hrest
          _ = (now - t + h.interval) / h.interval := (Nat.add_div_right _ hi).symm
          _ ≤ (now - t + (t - h.lastPing)) / h.interval :=
            Nat.div_le_div_right (Nat.add_le_add_left hd _)
          _ = (now - h.lastPing) / h.interval := by rw [hsplit]
      · rw [Nat.sub_eq_zero_of_le (Nat.le_of_not_le hnow), Nat.zero_div] at hrest
        simp [hnow, Nat.le_zero.mp hrest]
    · rw [pings_cons_of_lt (Nat.lt_of_not_le hd)]
      exact ih hi

/-- A hall asks its heartbeat whenever it looks after the silent players, and at no other time. -/
theorem heartbeat_run (interval patience : Nat) (start : Time) (seeds : Nat → UInt64)
    (os : List Occasion) :
    ((Course.opened interval patience start).run seeds os).hall.heartbeat =
      (⟨interval, patience, start⟩ : Heartbeat).run (looks os) := by
  induction os using List.reverseRecOn with
  | nil => rfl
  | append_singleton os o ih =>
    rw [Course.run_concat, Course.next_eq, looks, List.filterMap_append, run, List.foldl_append]
    change _ = (looks [o]).foldl _ ((⟨interval, patience, start⟩ : Heartbeat).run (looks os))
    rw [← ih]
    cases o with
    | notice now n => exact (State.meet_moves (Course.coherent_run os) _ (.notice now n)).heartbeat_same
    | check now order => rfl

/-- A player is pinged only when a ping is due. -/
theorem due_of_ping {s : State} {now : Time} {order : List PlayerId} {x : PlayerId}
    (hp : .post x .serverPing ∈ (s.checkLiveness now order).2) : (s.heartbeat.due now).1 = true := by
  obtain hping | hcut := List.mem_append.mp hp
  · split at hping
    · next hd => exact hd
    · cases hping
  · obtain ⟨id, -, he⟩ := List.mem_map.mp hcut
    cases he

/-- Whatever readings a heartbeat is asked at, the start and the readings at which a ping is due are at least an
interval apart, and from an interval after the last of them on a ping is due. If the interval is not zero, they
go on and on, and there are no more of them up to a time than whole intervals since the start. In a hall the
heartbeat is asked when it looks after the silent players, and then a player is pinged only if a ping is due. -/
theorem pings_paced (interval patience : Nat) (start : Time) :
    let h : Heartbeat := ⟨interval, patience, start⟩
    (∀ ts : List Time,
      (start :: h.pings ts).IsChain (fun before after => interval ≤ after - before) ∧
      (∀ now, (h.pings ts).getLastD start + interval ≤ now → ((h.run ts).due now).1 = true) ∧
      (0 < interval → (start :: h.pings ts).Pairwise (· < ·) ∧
        ∀ now, (h.pings ts).countP (· ≤ now) ≤ (now - start) / interval)) ∧
    ∀ (seeds : Nat → UInt64) (os : List Occasion),
      let s := ((Course.opened interval patience start).run seeds os).hall
      s.heartbeat = h.run (looks os) ∧
      ∀ now order x, .post x .serverPing ∈ (s.checkLiveness now order).2 →
        ((h.run (looks os)).due now).1 = true := by
  intro h
  refine ⟨fun ts => ⟨pings_spaced (h := h) ts, fun now hnow => ?_, fun hi => ?_⟩, ?_⟩
  · rw [due_iff, lastPing_run, interval_run]
    exact Nat.le_sub_of_add_le' hnow
  · exact ⟨pings_increasing (h := h) hi ts, countP_pings_le (h := h) hi ts⟩
  · intro seeds os s
    have hs : s.heartbeat = h.run (looks os) := heartbeat_run interval patience start seeds os
    refine ⟨hs, fun now order x hp => ?_⟩
    rw [← hs]
    exact due_of_ping hp

/-- The heartbeat is asked too early, in time, with the clock set back, and a moment too early again. -/
theorem pings_paced_hundred :
    let h : Heartbeat := ⟨100, 5000, 7⟩
    let ts : List Time := [50, 120, 150, 30, 219]
    h.pings ts = [120] ∧ ((h.run ts).due 220).1 = true ∧
      (h.pings (ts ++ [220, 310])).countP (· ≤ 310) ≤ 3 := by
  obtain ⟨hpaced, -⟩ := pings_paced 100 5000 7
  exact ⟨by decide, (hpaced _).2.1 220 (by decide), ((hpaced _).2.2 (by decide)).2 310⟩

end Heartbeat
end BlockDuel.Hall
