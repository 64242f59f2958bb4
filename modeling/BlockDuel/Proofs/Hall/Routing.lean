import BlockDuel.Proofs.Hall.Leftover

/-!
Where reports go and who wins. In any room that there can be, the two answers agree: whoever would hear a
member's reports wins when that member gives up, and would be heard in turn. A ruling ends the match for both,
and neither is heard or can give up again before the room is ready with that player in it.
-/
namespace BlockDuel.Hall
namespace Room

variable {r : Room} {x y id : PlayerId} {k : Wire.Kind} {v : Verdict} {since : List Request}

/-- One of the requests has made the room ready, with `id` in it. -/
def PairsUp (r : Room) (since : List Request) (id : PlayerId) : Prop :=
  ∃ before q behind, since = before ++ q :: behind ∧ (r.grantAll before).phase ≠ .ready ∧
    (r.grantAll (before ++ [q])).phase = .ready ∧ id ∈ (r.grantAll (before ++ [q])).members

/-- No report of `id` is forwarded, and there is no match that `id` could give up. -/
structure Disregards (r : Room) (id : PlayerId) : Prop where
  reports : ∀ k, ∃ reason, r.route id k = .drop reason
  ruling : r.arbitrate id = (none, r)

theorem Pits.playing (h : r.Pits x y) : r.phase = .ready ∧ x ∈ r.members := ⟨h.ready, h.mem⟩

theorem Shaped.playing_iff (h : r.Shaped) : r.phase = .ready ∧ x ∈ r.members ↔ ∃ y, r.Pits x y :=
  ⟨fun hp => h.pits hp.1 hp.2, fun ⟨_, hp⟩ => hp.playing⟩

theorem disregards_of_not_playing (h : ¬ (r.phase = .ready ∧ id ∈ r.members)) : r.Disregards id :=
  ⟨fun _ => route_of_not_playing (not_and.mp h), arbitrate_of_not_playing (not_and.mp h)⟩

theorem route_unrelayed (h : k.relayed = false) : r.route x k = .drop .notRelayed := by
  simp [Room.route, h]

/-- Reports are forwarded inside a match, and to the other member. -/
theorem Shaped.route_eq_forward_iff (h : r.Shaped) :
    r.route x k = .forward y ↔ k.relayed = true ∧ r.Pits x y := by
  constructor
  · intro hr
    cases hk : k.relayed with
    | false =>
      rw [route_unrelayed hk] at hr
      cases hr
    | true =>
      by_cases hp : r.phase = .ready ∧ x ∈ r.members
      · obtain ⟨z, pits⟩ := h.playing_iff.mp hp
        rw [pits.route hk] at hr
        cases hr
        exact ⟨rfl, pits⟩
      · obtain ⟨reason, hd⟩ := (disregards_of_not_playing hp).reports k
        rw [hd] at hr
        cases hr
  · rintro ⟨hk, pits⟩
    exact pits.route hk

/-- A member of a match is never without a peer. -/
theorem Shaped.route_ne_noPeer (h : r.Shaped) : r.route x k ≠ .drop .noPeer := by
  intro hr
  have hpeer : r.other? x = none ∧ r.phase = .ready ∧ x ∈ r.members := by
    unfold Room.route at hr
    split at hr
    · cases hr
    split at hr
    · cases hr
    next hready =>
    split at hr
    · cases hr
    next hm =>
    split at hr
    · cases hr
    next ho => exact ⟨ho, by simpa using hready, isMember_iff.mp (by simpa using hm)⟩
  obtain ⟨y, pits⟩ := h.pits hpeer.2.1 hpeer.2.2
  exact nomatch hpeer.1.symm.trans pits.other?

theorem Shaped.ruling_iff (h : r.Shaped) :
    (r.arbitrate x).1 = some v ↔ v.loser = x ∧ r.Pits x v.winner := by
  constructor
  · intro hv
    by_cases hp : r.phase = .ready ∧ x ∈ r.members
    · obtain ⟨y, pits⟩ := h.playing_iff.mp hp
      rw [pits.arbitrate] at hv
      cases hv
      exact ⟨rfl, pits⟩
    · rw [(disregards_of_not_playing hp).ruling] at hv
      cases hv
  · rintro ⟨rfl, pits⟩
    rw [pits.arbitrate]

/-- Whoever plays in a room that was empty has been paired up since. -/
theorem pairsUp_of_playing (hr : (fresh.grantAll since).phase = .ready)
    (hm : id ∈ (fresh.grantAll since).members) : fresh.PairsUp since id := by
  rcases exists_since fresh since with hsame | ⟨before, q, hsince, hne⟩
  · have hfresh : fresh = fresh.grantAll since := hsame [] List.nil_prefix
    rw [← hfresh] at hr
    cases hr
  · obtain ⟨who, hturn⟩ := hsince.turn .empty
    obtain ⟨_, _, -, hidle, -⟩ := hturn.of_ready hne hr
    have hnow : fresh.grantAll (before ++ [q]) = fresh.grantAll since := by
      rw [grantAll_append]
      exact hsince.grant
    obtain ⟨behind, hsplit, -⟩ := hsince
    rw [← hnow] at hr hm
    exact ⟨before, q, behind, hsplit, hidle, hr, hm⟩

/-- Whatever was asked of a room: a report is forwarded if its kind is relayed, a match is running and the
sender is in it, and only then; it goes to the other member, whose reports come back, and a peer is never
missing. A match is decided if it is running and the loser is in it, and only then; the winner is the one who
heard the loser's reports, and the room is empty, without members and without a seed. Otherwise the room stays
as it is. After a ruling everybody is disregarded, the former members too, until the room has been made ready
with that player in it. -/
theorem routes_and_rulings (rs : List Request) :
    let r := fresh.grantAll rs
    (∀ id k, ((∃ p, r.route id k = .forward p) ↔
        k.relayed = true ∧ r.phase = .ready ∧ id ∈ r.members) ∧
      (∀ p, r.route id k = .forward p → r.Pits id p ∧ r.route p k = .forward id) ∧
      r.route id k ≠ .drop .noPeer) ∧
    (∀ loser, ((∃ v, (r.arbitrate loser).1 = some v) ↔ r.phase = .ready ∧ loser ∈ r.members) ∧
      (∀ v, (r.arbitrate loser).1 = some v → v.loser = loser ∧
        (∀ k, k.relayed = true → r.route loser k = .forward v.winner) ∧
        (r.arbitrate loser).2.phase = .empty ∧ (r.arbitrate loser).2.members = [] ∧
        (r.arbitrate loser).2.seed = none) ∧
      ((r.arbitrate loser).1 = none → (r.arbitrate loser).2 = r)) ∧
    ∀ loser v since id, (r.arbitrate loser).1 = some v →
      ¬ (r.grant (.arbitrate loser)).PairsUp since id →
      (r.grantAll (.arbitrate loser :: since)).Disregards id := by
  intro r
  have h : r.Shaped := Shaped.empty.grantAll rs
  clear_value r
  refine ⟨fun id k => ⟨?_, ?_, h.route_ne_noPeer⟩, fun loser => ⟨?_, ?_, ?_⟩, ?_⟩
  · rw [h.playing_iff, ← exists_and_left]
    exact exists_congr fun _ => h.route_eq_forward_iff
  · intro p hp
    obtain ⟨hk, pits⟩ := h.route_eq_forward_iff.mp hp
    exact ⟨pits, pits.symm.route hk⟩
  · rw [h.playing_iff]
    constructor
    · rintro ⟨v, hv⟩
      exact ⟨_, (h.ruling_iff.mp hv).2⟩
    · rintro ⟨y, pits⟩
      exact ⟨⟨y, loser⟩, h.ruling_iff.mpr ⟨rfl, pits⟩⟩
  · intro v hv
    obtain ⟨hl, pits⟩ := h.ruling_iff.mp hv
    rw [pits.arbitrate]
    exact ⟨hl, fun k hk => pits.route hk, rfl, rfl, rfl⟩
  · intro hn
    by_cases hp : r.phase = .ready ∧ loser ∈ r.members
    · obtain ⟨y, pits⟩ := h.playing_iff.mp hp
      rw [pits.arbitrate] at hn
      cases hn
    · rw [(disregards_of_not_playing hp).ruling]
  · intro loser v since id hv hunpaired
    have hempty : r.grant (.arbitrate loser) = fresh := (h.of_arbitrate hv).2
    change ((r.grant (.arbitrate loser)).grantAll since).Disregards id
    rw [hempty] at hunpaired ⊢
    exact disregards_of_not_playing fun hp => hunpaired (pairsUp_of_playing hp.1 hp.2)

/-- The winner waits again but leaves, and then the loser plays with somebody else: a match is running, and
the winner is not in it. -/
theorem winner_disregarded :
    let r := fresh.grantAll [.join 10000 1, .join 10001 2]
    let since : List Request := [.join 10001 3, .leave 10001, .join 10000 4, .join 10002 5]
    (r.arbitrate 10000).1 = some ⟨10001, 10000⟩ ∧ ¬ (r.grant (.arbitrate 10000)).PairsUp since 10001 ∧
      (r.grantAll (.arbitrate 10000 :: since)).phase = .ready ∧
      (r.grantAll (.arbitrate 10000 :: since)).Disregards 10001 := by
  intro r since
  have hruling : (r.arbitrate 10000).1 = some ⟨10001, 10000⟩ := by decide
  have hunpaired : ¬ (r.grant (.arbitrate 10000)).PairsUp since 10001 := by
    rintro ⟨before, q, behind, h, -, hready, hm⟩
    rcases before with _ | ⟨_, _ | ⟨_, _ | ⟨_, _ | ⟨_, before⟩⟩⟩⟩ <;>
      simp only [since, List.nil_append, List.cons_append, List.cons.injEq, List.nil_eq,
        List.append_eq_nil_iff, reduceCtorEq, and_false] at h
    · obtain ⟨rfl, -⟩ := h
      exact absurd hready (by decide)
    · obtain ⟨rfl, rfl, -⟩ := h
      exact absurd hready (by decide)
    · obtain ⟨rfl, rfl, rfl, -⟩ := h
      exact absurd hready (by decide)
    · obtain ⟨rfl, rfl, rfl, rfl, -⟩ := h
      exact absurd hm (by decide)
  obtain ⟨-, -, hlater⟩ := routes_and_rulings [.join 10000 1, .join 10001 2]
  exact ⟨hruling, hunpaired, by decide, hlater 10000 _ since 10001 hruling hunpaired⟩

end Room
end BlockDuel.Hall
