import BlockDuel.Proofs.Seat.Receiving

/-!
A session and the lines it has one after the other. All lines share one inbox, and what an earlier one
said may arrive late. Still, as long as a session keeps a line it receives what that line said, in the
order of arrival, and nothing else; and a line that is given up takes the number of the player with it.
-/
namespace BlockDuel.Seat
open Wire

/-- What can happen to a session: a call of its owner, the end of the line it has, or a notice that
arrives, from whatever line. -/
inductive Incident
  | connects
  | connectFails
  | disconnects
  | shutsDown
  | receives
  | sends (m : Message)
  | takesNumber (id : PlayerId)
  | ends
  | arrives (n : Notice)
  deriving DecidableEq

namespace Incident

/-- The session goes on with the line it has. -/
def keepsLine : Incident → Bool
  | connects | connectFails | disconnects | shutsDown => false
  | _ => true

/-- The message of line `id` that arrives. -/
def said (id : UInt32) : Incident → Option Message
  | arrives (.message id' m) => if id = id' then some m else none
  | _ => none

end Incident

namespace Session

variable {s : Session} {i : Incident} {is : List Incident} {id : UInt32}

/-- One incident, and what the owner receives. -/
def meet (s : Session) : Incident → Option Message × Session
  | .connects => (none, s.connect)
  | .connectFails => (none, s.connectFails)
  | .disconnects => (none, s.disconnect)
  | .shutsDown => (none, s.shutdown.2)
  | .receives => s.tryRecv
  | .sends m => (none, (s.send m).2)
  | .takesNumber id => (none, s.setPlayerId id)
  | .ends => (none, s.lineEnds)
  | .arrives n => (none, s.hear n)

/-- One incident after the other, and all that the owner receives. -/
def run (s : Session) : List Incident → List Message × Session
  | [] => ([], s)
  | i :: is =>
    let (m, s) := s.meet i
    let (ms, s) := s.run is
    (m.toList ++ ms, s)

/-- The numbers of the lines that are made. -/
def lines (s : Session) : List Incident → List UInt32
  | [] => []
  | i :: is => (if i = .connects then [s.nextLine] else []) ++ (s.meet i).2.lines is

/-- Whatever arrives is from a line that was made before. -/
def Genuine (s : Session) (is : List Incident) : Prop :=
  ∀ before n after, is = before ++ .arrives n :: after → n.id ∈ s.lines before

theorem run_cons (s : Session) (i : Incident) (is : List Incident) :
    s.run (i :: is) =
      ((s.meet i).1.toList ++ ((s.meet i).2.run is).1, ((s.meet i).2.run is).2) := rfl

theorem run_append (s : Session) (is js : List Incident) :
    s.run (is ++ js) = ((s.run is).1 ++ ((s.run is).2.run js).1, ((s.run is).2.run js).2) := by
  induction is generalizing s with
  | nil => rfl
  | cons i is ih => rw [List.cons_append, run_cons, ih, run_cons, List.append_assoc]

theorem lines_append (s : Session) (is js : List Incident) :
    s.lines (is ++ js) = s.lines is ++ (s.run is).2.lines js := by
  induction is generalizing s with
  | nil => rfl
  | cons i is ih =>
    simp only [List.cons_append, lines, ih, List.append_assoc]
    rfl

theorem lineEnds_nextLine (s : Session) : s.lineEnds.nextLine = s.nextLine := by
  unfold lineEnds
  split <;> rfl

theorem connect_line (s : Session) : s.connect.line = some ⟨s.nextLine, true⟩ := by
  rw [← s.lineEnds_nextLine]
  rfl

theorem meet_nextLine (s : Session) (i : Incident) :
    (s.meet i).2.nextLine = if i = .connects then s.nextLine + 1 else s.nextLine := by
  cases i with
  | connects => exact congrArg (· + 1) s.lineEnds_nextLine
  | connectFails | disconnects | shutsDown | ends => exact s.lineEnds_nextLine
  | receives =>
    rw [meet, s.tryRecv_spec.2.2.1]
    rfl
  | sends m =>
    rw [meet, send]
    split <;> rfl
  | takesNumber | arrives => rfl

theorem number_succ (a : UInt32) (k : Nat) :
    a + 1 + UInt32.ofNat k = a + UInt32.ofNat (k + 1) := by
  rw [UInt32.ofNat_add, UInt32.add_assoc, UInt32.add_comm 1]
  rfl

/-- The next number counts the lines. -/
theorem run_nextLine (s : Session) (is : List Incident) :
    (s.run is).2.nextLine = s.nextLine + UInt32.ofNat (is.count .connects) := by
  induction is generalizing s with
  | nil => exact (UInt32.add_zero _).symm
  | cons i is ih =>
    rw [run_cons, ih, meet_nextLine]
    by_cases h : i = .connects
    · rw [if_pos h, h, List.count_cons_self]
      exact number_succ _ _
    · rw [if_neg h, List.count_cons_of_ne h]

theorem exists_of_mem_lines (h : id ∈ s.lines is) :
    ∃ k < is.count .connects, id = s.nextLine + UInt32.ofNat k := by
  induction is generalizing s with
  | nil => cases h
  | cons i is ih =>
    rw [lines, List.mem_append] at h
    rcases h with h | h
    · by_cases hi : i = .connects
      · rw [if_pos hi, List.mem_singleton] at h
        exact ⟨0, by simp [hi], h.trans (UInt32.add_zero _).symm⟩
      · rw [if_neg hi] at h
        cases h
    · obtain ⟨k, hk, hnumber⟩ := ih h
      rw [meet_nextLine] at hnumber
      by_cases hi : i = .connects
      · rw [if_pos hi] at hnumber
        exact ⟨k + 1, by simpa [hi] using hk, hnumber.trans (number_succ _ _)⟩
      · rw [if_neg hi] at hnumber
        exact ⟨k, by rwa [List.count_cons_of_ne hi], hnumber⟩

/-- Until the numbers run out, the next one is new. -/
theorem nextLine_not_mem_lines (h : is.count .connects < UInt32.size) :
    (s.run is).2.nextLine ∉ s.lines is := by
  intro hmem
  obtain ⟨k, hk, heq⟩ := exists_of_mem_lines hmem
  rw [run_nextLine] at heq
  -- both count lines from the same number on, and neither count wraps around
  have hcount : is.count .connects = k := by
    have := congrArg UInt32.toNat ((UInt32.add_right_inj _).mp heq)
    rwa [UInt32.toNat_ofNat_of_lt' h, UInt32.toNat_ofNat_of_lt' (Nat.lt_trans hk h)] at this
  omega

/-- A message waits only if it arrived. -/
theorem meet_message {m : Message} (h : .message id m ∈ (s.meet i).2.inbox) :
    .message id m ∈ s.inbox ∨ i = .arrives (.message id m) := by
  have hends (hm : .message id m ∈ s.lineEnds.inbox) : .message id m ∈ s.inbox := by
    unfold lineEnds at hm
    split at hm
    · simpa [hear] using hm
    · exact hm
  cases i with
  | connects | connectFails | disconnects | shutsDown | ends => exact .inl (hends h)
  | receives => exact .inl (s.tryRecv_spec.2.2.2.subset h)
  | sends m' =>
    rw [meet, send] at h
    split at h <;> exact .inl h
  | takesNumber => exact .inl h
  | arrives n =>
    rcases List.mem_append.mp h with hm | hm
    · exact .inl hm
    · exact .inr (by rw [List.mem_singleton.mp hm])

theorem run_message {m : Message} (h : .message id m ∈ (s.run is).2.inbox) :
    .message id m ∈ s.inbox ∨ .arrives (.message id m) ∈ is := by
  induction is generalizing s with
  | nil => exact .inl h
  | cons i is ih =>
    rcases ih h with hm | hm
    · rcases meet_message hm with hm | rfl
      · exact .inl hm
      · exact .inr List.mem_cons_self
    · exact .inr (List.mem_cons_of_mem _ hm)

/-- Every message that waits is from a line that was made. -/
theorem Genuine.mem_lines (h : fresh.Genuine is) {m : Message}
    (hm : .message id m ∈ (fresh.run is).2.inbox) : id ∈ fresh.lines is := by
  rcases run_message hm with hin | hin
  · cases hin
  · obtain ⟨before, after, rfl⟩ := List.append_of_mem hin
    rw [lines_append]
    exact List.mem_append_left _ (h before _ after rfl)

/-- What waits at the start of a line is not from that line. -/
theorem Genuine.takes_connect (h : fresh.Genuine is) (hfew : is.count .connects < UInt32.size) :
    (fresh.run is).2.connect.takes (fresh.run is).2.connect.inbox = [] := by
  unfold takes
  rw [List.filterMap_eq_nil_iff]
  intro n hn
  rw [Option.eq_none_iff_forall_ne_some]
  intro m hm
  obtain ⟨id, hid, rfl⟩ := accept_eq_some.mp hm
  rw [connect_line] at hid
  cases hid
  have hwaits : .message (fresh.run is).2.nextLine m ∈ ((fresh.run is).2.meet .connects).2.inbox := hn
  rcases meet_message hwaits with hin | hin
  · exact nextLine_not_mem_lines hfew (h.mem_lines hin)
  · cases hin

theorem accept_eq_said (hid : s.line.map Line.id = some id) (n : Notice) :
    s.accept n = (Incident.arrives n).said id := by
  cases n with
  | message id' m =>
    rw [accept, hid]
    simp only [Option.some.injEq]
    rfl
  | connected | lost => rfl

/-- Without a new line, what is received or waits is what waited before or arrives. -/
theorem meet_keeps (hid : s.line.map Line.id = some id) (h : i.keepsLine = true) :
    (s.meet i).2.line.map Line.id = some id ∧
      (s.meet i).1.toList ++ (s.meet i).2.takes (s.meet i).2.inbox =
        s.takes s.inbox ++ (i.said id).toList := by
  cases i with
  | connects | connectFails | disconnects | shutsDown => cases h
  | receives =>
    obtain ⟨hfirst, hrest, hsame, -⟩ := s.tryRecv_spec
    rw [meet]
    refine ⟨by rw [hsame]; exact hid, ?_⟩
    rw [hfirst, hrest]
    cases s.takes s.inbox with
    | nil => rfl
    | cons m ms => exact (List.append_nil (m :: ms)).symm
  | sends m =>
    rw [meet, send]
    split <;> exact ⟨hid, (List.append_nil _).symm⟩
  | takesNumber => exact ⟨hid, (List.append_nil _).symm⟩
  | ends =>
    obtain ⟨hline, -, -, htakes⟩ := s.lineEnds_spec
    exact ⟨hline.trans hid, htakes.trans (List.append_nil _).symm⟩
  | arrives n =>
    refine ⟨hid, ?_⟩
    have hsaid : s.takes [n] = ((Incident.arrives n).said id).toList := by
      rw [takes_singleton, accept_eq_said hid]
    exact (takes_append s s.inbox [n]).trans (congrArg _ hsaid)

theorem run_keeps (hid : s.line.map Line.id = some id) (h : ∀ i ∈ is, i.keepsLine = true) :
    (s.run is).2.line.map Line.id = some id ∧
      (s.run is).1 ++ (s.run is).2.takes (s.run is).2.inbox =
        s.takes s.inbox ++ is.filterMap (Incident.said id) := by
  induction is generalizing s with
  | nil => exact ⟨hid, (List.append_nil _).symm⟩
  | cons i is ih =>
    obtain ⟨hline, hheld⟩ := meet_keeps hid (h i List.mem_cons_self)
    obtain ⟨hline', hheld'⟩ := ih hline fun j hj => h j (List.mem_cons_of_mem _ hj)
    refine ⟨hline', ?_⟩
    calc (s.run (i :: is)).1 ++ (s.run (i :: is)).2.takes (s.run (i :: is)).2.inbox
        = (s.meet i).1.toList ++ ((s.meet i).2.takes (s.meet i).2.inbox ++
            is.filterMap (Incident.said id)) := by rw [run_cons, List.append_assoc, hheld']
      _ = s.takes s.inbox ++ ((i.said id).toList ++ is.filterMap (Incident.said id)) := by
        rw [← List.append_assoc, hheld, List.append_assoc]
      _ = s.takes s.inbox ++ (i :: is).filterMap (Incident.said id) := by
        cases hi : i.said id with
        | none => rw [List.filterMap_cons_none hi]; rfl
        | some m => rw [List.filterMap_cons_some hi]; rfl

/-- What waits can be received to the end. -/
theorem run_receives (s : Session) (k : Nat) :
    (s.run (List.replicate k .receives)).1 = (s.takes s.inbox).take k := by
  induction k generalizing s with
  | zero => rfl
  | succ k ih =>
    rw [List.replicate_succ, run_cons, ih]
    change s.tryRecv.1.toList ++ (s.tryRecv.2.takes s.tryRecv.2.inbox).take k = _
    obtain ⟨hfirst, hrest, -⟩ := s.tryRecv_spec
    rw [hfirst, hrest]
    cases s.takes s.inbox with
    | nil => exact List.take_nil
    | cons m ms => rfl

/-- A line that is given up takes the number of the player with it. -/
theorem meet_gives_up (h : i.keepsLine = false) : (s.meet i).2.playerId = none := by
  cases i with
  | connects | connectFails | disconnects | shutsDown => rfl
  | _ => cases h

/-- A new line is another one than all before, and for as long as it is kept, what is received is what
it said, in the order of arrival; whatever else it said, before or after its end, can be received to the
end. Whoever gives up a line, for a new one or not, has no number. -/
theorem received_of_line {before : List Incident} (hgenuine : fresh.Genuine before)
    (hfew : before.count .connects < UInt32.size) :
    (∃ id, (fresh.run (before ++ [.connects])).2.line = some ⟨id, true⟩ ∧
      id ∉ fresh.lines before ∧
      ∀ during : List Incident, (∀ i ∈ during, i.keepsLine = true) →
        let opened := (fresh.run (before ++ [.connects])).2
        let received := (opened.run during).1
        let said := during.filterMap (Incident.said id)
        received <+: said ∧ ∀ k, (opened.run (during ++ List.replicate k .receives)).1 =
          said.take (received.length + k)) ∧
    ∀ i : Incident, i.keepsLine = false → (fresh.run (before ++ [i])).2.playerId = none := by
  have hopened : (fresh.run (before ++ [.connects])).2 = (fresh.run before).2.connect := by
    rw [run_append]
    rfl
  constructor
  · refine ⟨(fresh.run before).2.nextLine, ?_, nextLine_not_mem_lines hfew, ?_⟩
    · rw [hopened, connect_line]
    · intro during hkeep opened received said
      have hid : opened.line.map Line.id = some (fresh.run before).2.nextLine := by
        change ((fresh.run _).2.line).map _ = _
        rw [hopened, connect_line]
        rfl
      have hheld : received ++ (opened.run during).2.takes (opened.run during).2.inbox = said := by
        have hstart : opened.takes opened.inbox = [] := by
          change Session.takes (fresh.run _).2 (fresh.run _).2.inbox = _
          rw [hopened]
          exact hgenuine.takes_connect hfew
        have := (run_keeps hid hkeep).2
        rwa [hstart, List.nil_append] at this
      refine ⟨⟨_, hheld⟩, fun k => ?_⟩
      rw [run_append, run_receives, ← hheld]
      exact (List.take_length_add_append k).symm
  · intro i hi
    rw [run_append]
    exact meet_gives_up hi

/-- What the first line says late is skipped, and what the second one said is received after its end
too. -/
theorem received_between_stale :
    let before : List Incident := [.connects, .takesNumber 9, .arrives (.message 1 .accepted)]
    let during : List Incident := [.arrives (.message 1 .serverPing), .arrives (.message 2 .accepted),
      .arrives (.lost 1), .receives, .arrives (.message 2 (.assignId 5)), .ends,
      .arrives (.message 1 .serverPing)]
    let opened := (fresh.run (before ++ [.connects])).2
    (fresh.run before).2.playerId = some 9 ∧ opened.playerId = none ∧
      (opened.run during).1 = [.accepted] ∧
      (opened.run (during ++ List.replicate 1 .receives)).1 = [.accepted, .assignId 5] := by
  intro before during opened
  have hgenuine : fresh.Genuine before := by
    intro front n after h
    rcases front with _ | ⟨_, _ | ⟨_, _ | ⟨_, front⟩⟩⟩ <;>
      simp only [before, List.nil_append, List.cons_append, List.cons.injEq, List.nil_eq,
        List.append_eq_nil_iff, reduceCtorEq, false_and, and_false] at h
    obtain ⟨rfl, rfl, hn, -⟩ := h
    cases hn
    decide
  obtain ⟨⟨id, hline, -, hreceived⟩, hnumber⟩ := received_of_line hgenuine (by decide)
  have hsecond : opened.line = some ⟨2, true⟩ := by decide
  cases hline.symm.trans hsecond
  refine ⟨by decide, hnumber .connects rfl, by decide, ?_⟩
  exact ((hreceived during (by decide)).2 1).trans (by decide)

end Session
end BlockDuel.Seat
