import BlockDuel.Proofs.Hall.Course
import BlockDuel.Proofs.Hall.Room
import Mathlib.Data.List.Dedup

/-!
A room through any requests, in any order and with any players: more than a hall ever asks of it. One
request does one of seven things to a room, and from that the members, the phase, the answers and the
order of matches and rulings follow.
-/
namespace BlockDuel.Hall
namespace Room

/-- What can be asked of a room. A request to join brings the seed that a match would have. -/
inductive Request
  | join (id : PlayerId) (seed : UInt64)
  | leave (id : PlayerId)
  | conclude
  | arbitrate (loser : PlayerId)
  deriving DecidableEq, Repr

/-- The room after a request. -/
def grant (r : Room) : Request → Room
  | .join id seed => (r.join id seed).2
  | .leave id => (r.leave id).2
  | .conclude => r.conclude.2
  | .arbitrate loser => (r.arbitrate loser).2

/-- The player whom a request lets in. -/
def admitted? (r : Room) : Request → Option PlayerId
  | .join id seed =>
    match (r.join id seed).1 with
    | .joined _ _ => some id
    | _ => none
  | _ => none

/-- The room after some requests, one after the other. -/
def grantAll (r : Room) (rs : List Request) : Room := rs.foldl grant r

/-- Those who were let in, in the order of coming. -/
def admissions (r : Room) : List Request → List PlayerId
  | [] => []
  | q :: rs => (r.admitted? q).toList ++ admissions (r.grant q) rs

variable {r r' : Room} {q : Request} {who : Option PlayerId} {id x y : PlayerId} {seed : UInt64}

/-- How a request to join is answered, and the room afterwards. -/
inductive Admission (r : Room) (id : PlayerId) (seed : UInt64) : JoinOutcome × Room → Prop
  | member (hm : id ∈ r.members) : Admission r id seed (.alreadyMember, r)
  | full (hm : id ∉ r.members) (hr : r.phase = .ready) : Admission r id seed (.notAdmitted, r)
  | first (hr : r = fresh) :
    Admission r id seed (.joined none none, ⟨[id], .waitingForSecond, none⟩)
  | second {a : PlayerId} {left : Option UInt64} (hr : r = ⟨[a], .waitingForSecond, left⟩)
    (ne : id ≠ a) : Admission r id seed (.joined (some a) (some seed), ⟨[a, id], .ready, some seed⟩)

theorem Shaped.admission (h : r.Shaped) (id : PlayerId) (seed : UInt64) :
    Admission r id seed (r.join id seed) := by
  by_cases hm : id ∈ r.members
  · rw [join_member hm]
    exact .member hm
  · cases h with
    | empty => exact .first rfl
    | waiting a left =>
      have ne : id ≠ a := by simpa using hm
      rw [join_waiting ne]
      exact .second rfl ne
    | playing ne seed =>
      rw [join_ready rfl hm]
      exact .full hm rfl

/-- The room has a reason to leave everything as it is. -/
def Refuses (r : Room) : Request → Prop
  | .join id _ => id ∈ r.members ∨ r.phase = .ready
  | .leave id => id ∉ r.members
  | .conclude => r.phase ≠ .ready
  | .arbitrate loser => r.phase = .ready → loser ∉ r.members

/-- What one request does to a room, and whom it lets in. -/
inductive Turn : Room → Request → Option PlayerId → Room → Prop
  | stays {r : Room} {q : Request} (h : r.Refuses q) : Turn r q none r
  | enters (id : PlayerId) (seed : UInt64) :
    Turn fresh (.join id seed) (some id) ⟨[id], .waitingForSecond, none⟩
  | pairs {a id : PlayerId} (left : Option UInt64) (seed : UInt64) (ne : id ≠ a) :
    Turn ⟨[a], .waitingForSecond, left⟩ (.join id seed) (some id) ⟨[a, id], .ready, some seed⟩
  | empties (a : PlayerId) (left : Option UInt64) :
    Turn ⟨[a], .waitingForSecond, left⟩ (.leave a) none fresh
  /-- One member leaves the match, and the other one waits. -/
  | deserts {r : Room} {x y : PlayerId} (h : r.Pits x y) :
    Turn r (.leave x) none ⟨[y], .waitingForSecond, r.seed⟩
  | concludes {r : Room} (hr : r.phase = .ready) : Turn r .conclude none fresh
  | rules {r : Room} {x y : PlayerId} (h : r.Pits x y) : Turn r (.arbitrate x) none fresh

theorem Shaped.turn (h : r.Shaped) (q : Request) : Turn r q (r.admitted? q) (r.grant q) := by
  cases q with
  | join id seed =>
    have hadmission := h.admission id seed
    change Turn r (.join id seed) (match (r.join id seed).1 with
      | .joined _ _ => some id
      | _ => none) (r.join id seed).2
    generalize r.join id seed = out at hadmission
    cases hadmission with
    | member hm => exact .stays (Or.inl hm)
    | full hm hr => exact .stays (Or.inr hr)
    | first hr =>
      subst hr
      exact .enters id seed
    | second hr ne =>
      subst hr
      exact .pairs _ seed ne
  | leave id =>
    by_cases hm : id ∈ r.members
    · by_cases hr : r.phase = .ready
      · obtain ⟨y, pits⟩ := h.pits hr hm
        have hg : r.grant (.leave id) = ⟨[y], .waitingForSecond, r.seed⟩ :=
          congrArg Prod.snd pits.leave
        rw [hg]
        exact .deserts pits
      · cases h with
        | empty => cases hm
        | waiting a left =>
          obtain rfl : id = a := by simpa using hm
          have hg : (⟨[id], .waitingForSecond, left⟩ : Room).grant (.leave id) = fresh :=
            leave_waiting
          rw [hg]
          exact .empties id left
        | playing ne seed => exact absurd rfl hr
    · have hg : r.grant (.leave id) = r := congrArg Prod.snd (leave_stranger hm)
      rw [hg]
      exact .stays hm
  | conclude =>
    by_cases hr : r.phase = .ready
    · have hg : r.grant .conclude = fresh := congrArg Prod.snd (if_pos hr)
      rw [hg]
      exact .concludes hr
    · have hg : r.grant .conclude = r := congrArg Prod.snd (if_neg hr)
      rw [hg]
      exact .stays hr
  | arbitrate loser =>
    by_cases hp : r.phase = .ready ∧ loser ∈ r.members
    · obtain ⟨y, pits⟩ := h.pits hp.1 hp.2
      have hg : r.grant (.arbitrate loser) = fresh := congrArg Prod.snd pits.arbitrate
      rw [hg]
      exact .rules pits
    · have hout : r.phase = .ready → loser ∉ r.members := not_and.mp hp
      have hg : r.grant (.arbitrate loser) = r := congrArg Prod.snd (arbitrate_of_not_playing hout)
      rw [hg]
      exact .stays hout

theorem Turn.shaped (h : Turn r q who r') (hr : r.Shaped) : r'.Shaped := by
  cases h with
  | stays => exact hr
  | enters id seed => exact .waiting id none
  | pairs left seed ne => exact .playing ne.symm seed
  | empties => exact .empty
  | @deserts r x y pits => exact .waiting y r.seed
  | concludes => exact .empty
  | rules => exact .empty

/-- A newcomer is last, and whoever stays keeps the place. -/
theorem Turn.members (h : Turn r q who r') :
    who = none ∧ r'.members.Sublist r.members ∨
      ∃ id, who = some id ∧ id ∉ r.members ∧ r'.members = r.members ++ [id] := by
  cases h with
  | stays => exact .inl ⟨rfl, .refl _⟩
  | enters id seed => exact .inr ⟨id, rfl, List.not_mem_nil, rfl⟩
  | @pairs a id left seed ne => exact .inr ⟨id, rfl, by simpa using ne, rfl⟩
  | empties => exact .inl ⟨rfl, List.nil_sublist _⟩
  | deserts pits => exact .inl ⟨rfl, List.singleton_sublist.mpr pits.symm.mem⟩
  | concludes => exact .inl ⟨rfl, List.nil_sublist _⟩
  | rules => exact .inl ⟨rfl, List.nil_sublist _⟩

/-- Only a request to join makes a room ready. -/
theorem Turn.join_of_ready (h : Turn r q who r') (hr : r.phase ≠ .ready) (hr' : r'.phase = .ready) :
    ∃ id seed, q = .join id seed := by
  cases h with
  | stays => exact absurd hr' hr
  | @pairs a id left seed ne => exact ⟨id, seed, rfl⟩
  | _ => cases hr'

theorem grantAll_append (r : Room) (rs rs' : List Request) :
    r.grantAll (rs ++ rs') = (r.grantAll rs).grantAll rs' := List.foldl_append

theorem Shaped.grantAll (h : r.Shaped) (rs : List Request) : (r.grantAll rs).Shaped := by
  induction rs generalizing r with
  | nil => exact h
  | cons q rs ih => exact ih ((h.turn q).shaped h)

/-- Behind those who were let in last comes a newcomer. -/
theorem sublist_dedup_concat {α : Type} [DecidableEq α] {a : α} {s l : List α}
    (hs : s.Sublist l.dedup) (ha : a ∉ s) : (s ++ [a]).Sublist (l ++ [a]).dedup := by
  -- of equal entries the last one stays, so an earlier `a` is dropped on both sides
  induction l generalizing s with
  | nil =>
    obtain rfl := List.sublist_nil.mp hs
    exact .refl _
  | cons b l ih =>
    by_cases hb : b ∈ l
    · have hb' : b ∈ l ++ [a] := List.mem_append_left _ hb
      rw [List.dedup_cons_of_mem hb] at hs
      rw [List.cons_append, List.dedup_cons_of_mem hb']
      exact ih hs ha
    · rw [List.dedup_cons_of_notMem hb] at hs
      by_cases hba : b = a
      · subst hba
        have hb' : b ∈ l ++ [b] := List.mem_append_right _ List.mem_cons_self
        rw [List.cons_append, List.dedup_cons_of_mem hb']
        cases hs with
        | cons _ hs => exact ih hs ha
        | cons_cons => exact absurd List.mem_cons_self ha
      · have hb' : b ∉ l ++ [a] := by simp [hb, hba]
        rw [List.cons_append, List.dedup_cons_of_notMem hb']
        cases hs with
        | cons _ hs => exact (ih hs ha).cons b
        | cons_cons _ hs => exact (ih hs fun h => ha (List.mem_cons_of_mem b h)).cons_cons b

/-- The members stand in the order in which each of them came in last. -/
theorem Shaped.members_sublist (h : r.Shaped) {before : List PlayerId}
    (hb : r.members.Sublist before.dedup) (rs : List Request) :
    (r.grantAll rs).members.Sublist (before ++ r.admissions rs).dedup := by
  -- `before` grows by whom each request lets in
  induction rs generalizing r before with
  | nil =>
    rw [admissions, List.append_nil]
    exact hb
  | cons q rs ih =>
    have hturn := h.turn q
    rw [admissions, ← List.append_assoc]
    refine ih (hturn.shaped h) ?_
    rcases hturn.members with ⟨hw, hs⟩ | ⟨id, hw, hnew, hs⟩
    · rw [hw, Option.toList_none, List.append_nil]
      exact hs.trans hb
    · rw [hw, Option.toList_some, hs]
      exact sublist_dedup_concat hb hnew

/-- A room that is ready and was not has been made ready by some request. -/
theorem exists_readying {rs : List Request} (hr : r.phase ≠ .ready)
    (hr' : (r.grantAll rs).phase = .ready) :
    ∃ before q behind, rs = before ++ q :: behind ∧ (r.grantAll before).phase ≠ .ready ∧
      (r.grantAll (before ++ [q])).phase = .ready := by
  induction rs generalizing r with
  | nil => exact absurd hr' hr
  | cons q rs ih =>
    by_cases hq : (r.grant q).phase = .ready
    · exact ⟨[], q, rs, rfl, hr, hq⟩
    · obtain ⟨before, q', behind, rfl, hbefore, hready⟩ := ih hq hr'
      exact ⟨q :: before, q', behind, rfl, hbefore, hready⟩

/-- A ruling ends a match and empties the room. -/
theorem Shaped.of_arbitrate {v : Verdict} (h : r.Shaped) (hv : (r.arbitrate x).1 = some v) :
    r.phase = .ready ∧ r.grant (.arbitrate x) = fresh := by
  by_cases hp : r.phase = .ready ∧ x ∈ r.members
  · obtain ⟨y, pits⟩ := h.pits hp.1 hp.2
    exact ⟨hp.1, congrArg Prod.snd pits.arbitrate⟩
  · rw [arbitrate_of_not_playing (not_and.mp hp)] at hv
    cases hv

theorem Shaped.joined_between {v w : Verdict} {rs : List Request} (h : r.Shaped)
    (hv : (r.arbitrate x).1 = some v)
    (hw : ((r.grantAll (.arbitrate x :: rs)).arbitrate y).1 = some w) :
    ∃ before id seed behind, rs = before ++ .join id seed :: behind ∧
      (r.grantAll (.arbitrate x :: before)).phase ≠ .ready ∧
      (r.grantAll (.arbitrate x :: before ++ [.join id seed])).phase = .ready := by
  have hempty : r.grant (.arbitrate x) = fresh := (h.of_arbitrate hv).2
  have hrun : ∀ rs, r.grantAll (.arbitrate x :: rs) = fresh.grantAll rs := fun rs => by
    rw [← hempty]
    rfl
  have hready : (fresh.grantAll rs).phase = .ready := by
    rw [hrun] at hw
    exact ((Shaped.empty.grantAll rs).of_arbitrate hw).1
  have hfresh : fresh.phase ≠ .ready := by decide
  obtain ⟨before, q, behind, rfl, hbefore, hbehind⟩ := exists_readying hfresh hready
  have hturn := (Shaped.empty.grantAll before).turn q
  have hnext : fresh.grantAll (before ++ [q]) = (fresh.grantAll before).grant q :=
    grantAll_append _ _ _
  rw [hnext] at hbehind
  obtain ⟨id, seed, rfl⟩ := hturn.join_of_ready hbefore hbehind
  refine ⟨before, id, seed, behind, rfl, ?_, ?_⟩
  · rw [hrun]
    exact hbefore
  · rw [List.cons_append, hrun, hnext]
    exact hbehind

/-- Whatever was asked of a room: its members are different, at most two, and in the order of coming, and
the phase tells how many they are. A member who asks again is told so, and a third player is not admitted;
both change nothing and make no seed, and there is always a place for whom the phase admits. Anybody else
comes in behind the one who waits, and exactly the join that makes the room ready makes one seed, which is
answered and kept. Only a stranger is told nothing on leaving, only a room without a match has nothing to
end, and then nothing changes. Between two rulings a join has made the room ready. -/
theorem tenancy (rs : List Request) :
    let r := fresh.grantAll rs
    (r.members.Nodup ∧ r.members.length ≤ roomCapacity ∧
      r.members.Sublist (fresh.admissions rs).dedup) ∧
    ((r.phase = .empty ↔ r.members.length = 0) ∧
      (r.phase = .waitingForSecond ↔ r.members.length = 1) ∧
      (r.phase = .ready ↔ r.members.length = 2)) ∧
    (∀ id seeds made,
      let ((outcome, r'), made') := (r.joinM id (mint seeds)).run made
      (outcome = .alreadyMember ↔ id ∈ r.members) ∧
      (outcome = .notAdmitted ↔ id ∉ r.members ∧ r.members.length = roomCapacity) ∧
      (outcome = .alreadyMember ∨ outcome = .notAdmitted → r' = r ∧ made' = made) ∧
      (id ∉ r.members → r.members.length < roomCapacity →
        ∃ seed?, outcome = .joined r.members.head? seed? ∧ r'.members = r.members ++ [id]) ∧
      (r.phase ≠ .ready ∧ r'.phase = .ready → made' = made + 1 ∧
        outcome.seed? = some (seeds made) ∧ r'.seed = some (seeds made)) ∧
      (¬ (r.phase ≠ .ready ∧ r'.phase = .ready) → made' = made)) ∧
    (r.phase ≠ .ready → r.members.length < roomCapacity) ∧
    (∀ id, ((r.leave id).1 = none ↔ id ∉ r.members) ∧
      ((r.leave id).1 = none → (r.leave id).2 = r)) ∧
    ((r.conclude.1 = none ↔ r.phase ≠ .ready) ∧ (r.conclude.1 = none → r.conclude.2 = r)) ∧
    ∀ x y v w since, (r.arbitrate x).1 = some v →
      ((r.grantAll (.arbitrate x :: since)).arbitrate y).1 = some w →
      ∃ before id seed behind, since = before ++ .join id seed :: behind ∧
        (r.grantAll (.arbitrate x :: before)).phase ≠ .ready ∧
        (r.grantAll (.arbitrate x :: before ++ [.join id seed])).phase = .ready := by
  intro r
  have h : r.Shaped := Shaped.empty.grantAll rs
  have horder : r.members.Sublist ([] ++ fresh.admissions rs).dedup :=
    Shaped.empty.members_sublist (List.nil_sublist _) rs
  clear_value r
  obtain ⟨hempty, hwaiting, hready⟩ := h.phase_iff
  have hplace : r.phase ≠ .ready → r.members.length < roomCapacity := fun hr =>
    Nat.lt_of_le_of_ne h.length_le fun hl => hr (hready.mpr hl)
  refine ⟨⟨h.nodup, h.length_le, horder⟩, ⟨hempty, hwaiting, hready⟩, ?_, hplace, ?_, ?_,
    fun x y v w since => h.joined_between⟩
  · intro id seeds made
    have hadmission := h.admission id (seeds made)
    rw [joinM_mint]
    generalize r.join id (seeds made) = out at hadmission
    cases hadmission with
    | member hm =>
      exact ⟨iff_of_true rfl hm, iff_of_false nofun fun hn => hn.1 hm, fun _ => ⟨rfl, rfl⟩,
        fun hn => absurd hm hn, fun hp => absurd hp.2 hp.1, fun _ => rfl⟩
    | full hm hr =>
      exact ⟨iff_of_false nofun hm, iff_of_true rfl ⟨hm, hready.mp hr⟩, fun _ => ⟨rfl, rfl⟩,
        fun _ hl => absurd (hready.mp hr) (Nat.ne_of_lt hl), fun hp => absurd hr hp.1,
        fun _ => rfl⟩
    | first hr =>
      subst hr
      exact ⟨iff_of_false nofun List.not_mem_nil, iff_of_false nofun fun hn => (nomatch hn.2),
        fun ho => ho.elim nofun nofun, fun _ _ => ⟨none, rfl, rfl⟩, fun hp => (nomatch hp.2),
        fun _ => rfl⟩
    | second hr ne =>
      subst hr
      have hm := mt List.mem_singleton.mp ne
      exact ⟨iff_of_false nofun hm, iff_of_false nofun fun hn => (nomatch hn.2),
        fun ho => ho.elim nofun nofun, fun _ _ => ⟨some (seeds made), rfl, rfl⟩,
        fun _ => ⟨rfl, rfl, rfl⟩, fun hp => absurd ⟨nofun, rfl⟩ hp⟩
  · intro id
    by_cases hm : id ∈ r.members
    · have hs : (r.leave id).1 ≠ none := leave_member hm
      exact ⟨iff_of_false hs (not_not.mpr hm), fun hn => absurd hn hs⟩
    · rw [leave_stranger hm]
      exact ⟨iff_of_true rfl hm, fun _ => rfl⟩
  · by_cases hr : r.phase = .ready
    · have hc : r.conclude = (some r.members, fresh) := if_pos hr
      rw [hc]
      exact ⟨iff_of_false nofun (not_not.mpr hr), nofun⟩
    · have hc : r.conclude = (none, r) := if_neg hr
      rw [hc]
      exact ⟨iff_of_true rfl hr, fun _ => rfl⟩

/-- A match is decided, two others make the room ready, and their match is decided too: between the two
rulings the second of them has joined. -/
theorem two_rulings_two_matches :
    let r := fresh.grantAll [.join 10000 1, .join 10001 2]
    let since : List Request := [.join 10002 3, .leave 10000, .join 10003 4]
    (r.arbitrate 10000).1 = some ⟨10001, 10000⟩ ∧
      ((r.grantAll (.arbitrate 10000 :: since)).arbitrate 10003).1 = some ⟨10002, 10003⟩ ∧
      ∃ before id seed behind, since = before ++ .join id seed :: behind ∧
        (r.grantAll (.arbitrate 10000 :: before)).phase ≠ .ready ∧
        (r.grantAll (.arbitrate 10000 :: before ++ [.join id seed])).phase = .ready := by
  intro r since
  have hfirst : (r.arbitrate 10000).1 = some ⟨10001, 10000⟩ := by decide
  have hsecond : ((r.grantAll (.arbitrate 10000 :: since)).arbitrate 10003).1 =
    some ⟨10002, 10003⟩ := by decide
  obtain ⟨-, -, -, -, -, -, hbetween⟩ := tenancy [.join 10000 1, .join 10001 2]
  exact ⟨hfirst, hsecond, hbetween _ _ _ _ since hfirst hsecond⟩

end Room
end BlockDuel.Hall
