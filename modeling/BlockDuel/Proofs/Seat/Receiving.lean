import BlockDuel.Proofs.Seat.Joining
import Mathlib.Data.Nat.Find

/-!
What a session receives. Notices that are no message of the current line are skipped, however many they
are; so what a session receives next is the first of what it takes for messages, and the rest stays.
With a time limit this holds as long as the time suffices for what is skipped.
-/
namespace BlockDuel.Seat.Session
open Wire

variable {s : Session} {n : Notice} {ns rest : List Notice}

theorem takes_append (s : Session) (ns ns' : List Notice) :
    s.takes (ns ++ ns') = s.takes ns ++ s.takes ns' :=
  List.filterMap_append

/-- Without a line nothing counts. -/
theorem takes_unlinked (h : s.line = none) (ns : List Notice) : s.takes ns = [] := by
  unfold takes
  rw [List.filterMap_eq_nil_iff]
  intro n _
  unfold accept
  cases n <;> simp [h]

/-- What counts is what the current line said. -/
theorem accept_eq_some {m : Message} :
    s.accept n = some m ↔ ∃ id, s.line.map Line.id = some id ∧ n = .message id m := by
  unfold accept
  cases n with
  | message id m' =>
    by_cases h : s.line.map Line.id = some id
    · simp [h, eq_comm]
    · simp only [h, if_false, reduceCtorEq, false_iff]
      rintro ⟨_, hid, hm⟩
      cases hm
      exact h hid
  | connected | lost => simp

/-- Whether the line is still up plays no part in what counts. -/
theorem takes_of_id {s' : Session} (h : s'.line.map Line.id = s.line.map Line.id) :
    s'.takes = s.takes := by
  have ha : s'.accept = s.accept := by
    funext n
    unfold accept
    rw [h]
  funext ns
  unfold takes
  rw [ha]

/-- The end of a line is no message. -/
theorem lineEnds_spec (s : Session) :
    s.lineEnds.line.map Line.id = s.line.map Line.id ∧ s.lineEnds.playerId = s.playerId ∧
      s.lineEnds.outgoing = s.outgoing ∧
      s.lineEnds.takes s.lineEnds.inbox = s.takes s.inbox := by
  unfold lineEnds
  split
  · next id hl =>
    refine ⟨by rw [hl]; rfl, rfl, rfl, ?_⟩
    have htakes : ({ s with line := some ⟨id, false⟩ }.hear (.lost id)).takes = s.takes :=
      takes_of_id (by rw [hl]; rfl)
    rw [htakes]
    exact (takes_append s s.inbox [.lost id]).trans (List.append_nil _)
  · exact ⟨rfl, rfl, rfl, rfl⟩

/-- Once it has ended, a line is down. -/
theorem lineEnds_unlinked (s : Session) : s.lineEnds.isConnected = false := by
  unfold lineEnds
  split
  · rfl
  · next hl =>
    unfold isConnected
    cases hline : s.line with
    | none => rfl
    | some l =>
      obtain ⟨id, up⟩ := l
      cases up with
      | false => rfl
      | true => exact absurd hline (hl id)

/-- How many notices stand before the first message. -/
def ahead (s : Session) (ns : List Notice) : Nat :=
  (ns.takeWhile fun n => (s.accept n).isNone).length

theorem ahead_cons_none (h : s.accept n = none) : s.ahead (n :: ns) = s.ahead ns + 1 := by
  simp [ahead, h]

theorem ahead_cons_some {m : Message} (h : s.accept n = some m) : s.ahead (n :: ns) = 0 := by
  simp [ahead, h]

theorem takes_cons_none (h : s.accept n = none) : s.takes (n :: ns) = s.takes ns :=
  List.filterMap_cons_none h

theorem takes_cons_some {m : Message} (h : s.accept n = some m) :
    s.takes (n :: ns) = m :: s.takes ns :=
  List.filterMap_cons_some h

theorem takes_singleton (s : Session) (n : Notice) : s.takes [n] = (s.accept n).toList := by
  cases h : s.accept n with
  | none => exact takes_cons_none h
  | some m => exact takes_cons_some h

/-- The first message is received, and all before it is gone. -/
theorem takeFirst_eq (s : Session) (ns : List Notice) :
    s.takeFirst ns = ((s.takes ns).head?, { s with inbox := ns.drop (s.ahead ns + 1) }) := by
  induction ns with
  | nil => rfl
  | cons n ns ih =>
    unfold takeFirst
    cases h : s.accept n with
    | none => rw [takes_cons_none h, ahead_cons_none h, List.drop_succ_cons]; exact ih
    | some m => rw [takes_cons_some h, ahead_cons_some h]; rfl

theorem takes_drop_ahead (s : Session) (ns : List Notice) :
    s.takes (ns.drop (s.ahead ns + 1)) = (s.takes ns).tail := by
  induction ns with
  | nil => rfl
  | cons n ns ih =>
    rw [List.drop_succ_cons]
    cases h : s.accept n with
    | none => rw [takes_cons_none h, ahead_cons_none h]; exact ih
    | some m => rw [takes_cons_some h, ahead_cons_some h]; rfl

/-- Receiving takes one message off what waits, if there is one, and changes nothing else. -/
theorem tryRecv_spec (s : Session) :
    s.tryRecv.1 = (s.takes s.inbox).head? ∧
      s.tryRecv.2.takes s.tryRecv.2.inbox = (s.takes s.inbox).tail ∧
      s.tryRecv.2 = { s with inbox := s.tryRecv.2.inbox } ∧ s.tryRecv.2.inbox <:+ s.inbox := by
  unfold tryRecv
  rw [takeFirst_eq]
  exact ⟨rfl, s.takes_drop_ahead s.inbox, rfl, List.drop_suffix _ _⟩

/-- The inbox itself plays no part in how notices are taken. -/
theorem takeFirst_of_inbox (s : Session) (inbox : List Notice) :
    { s with inbox := inbox }.takeFirst ns = s.takeFirst ns := by
  rw [takeFirst_eq, takeFirst_eq]
  rfl

/-- What stands before the first message may be gone already. -/
theorem takeFirst_drop {k : Nat} (h : k ≤ s.ahead ns) : s.takeFirst (ns.drop k) = s.takeFirst ns := by
  induction ns generalizing k with
  | nil => rw [List.drop_nil]
  | cons n ns ih =>
    cases k with
    | zero => rfl
    | succ k =>
      cases ha : s.accept n with
      | none =>
        rw [ahead_cons_none ha] at h
        have hskip : s.takeFirst (n :: ns) = s.takeFirst ns := by simp only [takeFirst, ha]
        rw [List.drop_succ_cons, ih (by omega), hskip]
      | some m =>
        rw [ahead_cons_some ha] at h
        omega

variable {limit i k : Nat} {spent : Nat → Nat}

/-- While there is time left after each notice that is skipped, the limit is not felt. -/
theorem takeWithin_in_time (h : ∀ j < s.ahead ns, spent (i + j) < limit) :
    s.takeWithin limit spent i ns = s.takeFirst ns := by
  induction ns generalizing i with
  | nil => rfl
  | cons n ns ih =>
    unfold takeWithin takeFirst
    cases ha : s.accept n with
    | some m => rfl
    | none =>
      rw [ahead_cons_none ha] at h
      have hnow : spent i < limit := h 0 (by omega)
      have hlater : ∀ j < s.ahead ns, spent (i + 1 + j) < limit := by
        intro j hj
        rw [Nat.add_right_comm]
        exact h (j + 1) (by omega)
      rw [if_neg (by omega)]
      exact ih hlater

/-- The first notice that is skipped without time left is the last one that is looked at. -/
theorem takeWithin_late (hk : k < s.ahead ns) (hin : ∀ j < k, spent (i + j) < limit)
    (hlate : limit ≤ spent (i + k)) :
    s.takeWithin limit spent i ns = (none, { s with inbox := ns.drop (k + 1) }) := by
  induction ns generalizing i k with
  | nil => exact absurd hk (Nat.not_lt_zero k)
  | cons n ns ih =>
    unfold takeWithin
    cases ha : s.accept n with
    | some m =>
      rw [ahead_cons_some ha] at hk
      exact absurd hk (Nat.not_lt_zero k)
    | none =>
      rw [ahead_cons_none ha] at hk
      cases k with
      | zero =>
        rw [Nat.add_zero] at hlate
        rw [if_pos (by omega)]
        rfl
      | succ k =>
        have hnow : spent i < limit := hin 0 (by omega)
        have hlater : ∀ j < k, spent (i + 1 + j) < limit := by
          intro j hj
          rw [Nat.add_right_comm]
          exact hin (j + 1) (by omega)
        rw [if_neg (by omega), List.drop_succ_cons]
        exact ih (by omega) hlater (by rwa [Nat.add_right_comm])

/-- A message that waits is received within a limit, just as without one, if and only if time is left
whenever a notice before it is skipped. Otherwise nothing is received: the notices up to the first one
without time left are gone, and the message still waits. -/
theorem recvWithin_eq_tryRecv_iff {m : Message} (hm : (s.takes s.inbox).head? = some m)
    (limit : Nat) (spent : Nat → Nat) :
    s.tryRecv = (some m, { s with inbox := s.inbox.drop (s.ahead s.inbox + 1) }) ∧
      (s.recvWithin limit spent = s.tryRecv ↔ ∀ i < s.ahead s.inbox, spent i < limit) ∧
      ∀ k < s.ahead s.inbox, (∀ i < k, spent i < limit) → limit ≤ spent k →
        s.recvWithin limit spent = (none, { s with inbox := s.inbox.drop (k + 1) }) ∧
          (s.recvWithin limit spent).2.tryRecv = s.tryRecv := by
  have hnext : s.tryRecv = (some m, { s with inbox := s.inbox.drop (s.ahead s.inbox + 1) }) := by
    unfold tryRecv
    rw [takeFirst_eq, hm]
  have hlate {k : Nat} (hk : k < s.ahead s.inbox) (hin : ∀ i < k, spent i < limit)
      (hout : limit ≤ spent k) :
      s.recvWithin limit spent = (none, { s with inbox := s.inbox.drop (k + 1) }) :=
    takeWithin_late hk (by simpa using hin) (by simpa using hout)
  refine ⟨hnext, ⟨fun heq => ?_, fun hin => takeWithin_in_time (by simpa using hin)⟩, ?_⟩
  · by_contra hout
    have hex : ∃ k, k < s.ahead s.inbox ∧ limit ≤ spent k := by simpa using hout
    -- the first notice that is skipped too late decides
    obtain ⟨hk, hspent⟩ := Nat.find_spec hex
    have hin : ∀ i < Nat.find hex, spent i < limit := by
      intro i hi
      by_contra hlong
      exact Nat.find_min hex hi ⟨Nat.lt_trans hi hk, Nat.le_of_not_lt hlong⟩
    rw [hlate hk hin hspent, hnext] at heq
    cases heq
  · intro k hk hin hout
    refine ⟨hlate hk hin hout, ?_⟩
    rw [hlate hk hin hout]
    change { s with inbox := s.inbox.drop (k + 1) }.takeFirst (s.inbox.drop (k + 1)) =
      s.takeFirst s.inbox
    rw [takeFirst_of_inbox, takeFirst_drop hk]

/-- A message of an earlier line stands before the first one of the new line. A millisecond is enough
to receive that one, no time at all is not. -/
theorem recvWithin_behind_stale :
    let s := ((fresh.connect.hear (.message 1 .accepted)).connect).hear (.message 2 (.assignId 5))
    s.recvWithin 1 (fun _ => 0) = s.tryRecv ∧ s.recvWithin 0 (fun _ => 0) ≠ s.tryRecv ∧
      (s.recvWithin 0 fun _ => 0).2.tryRecv = s.tryRecv := by
  intro s
  have hm : (s.takes s.inbox).head? = some (.assignId 5) := by decide
  obtain ⟨-, hone, -⟩ := recvWithin_eq_tryRecv_iff hm 1 fun _ => 0
  obtain ⟨-, hnone, hlate⟩ := recvWithin_eq_tryRecv_iff hm 0 fun _ => 0
  exact ⟨hone.mpr (by decide), mt hnone.mp (by decide),
    (hlate 0 (by decide) (by decide) (by decide)).2⟩

/-- So a message that waits is not always received. -/
theorem recvWithin_misses_waiting :
    let s := ((fresh.connect.hear (.message 1 .accepted)).connect).hear (.message 2 (.assignId 5))
    s.tryRecv.1 = some (.assignId 5) ∧ (s.recvWithin 0 fun _ => 0).1 = none ∧
      ¬ ∀ (s : Session) (limit : Nat) (spent : Nat → Nat), s.takes s.inbox ≠ [] →
        s.recvWithin limit spent = s.tryRecv := by
  refine ⟨by decide, by decide, fun h => ?_⟩
  have := h (((fresh.connect.hear (.message 1 .accepted)).connect).hear (.message 2 (.assignId 5)))
    0 (fun _ => 0) (by decide)
  revert this
  decide

end BlockDuel.Seat.Session
