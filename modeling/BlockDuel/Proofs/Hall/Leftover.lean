import BlockDuel.Proofs.Hall.Tenancy

/-!
The seed that a room has. The join that starts a match brings it, and a room without members has none. But
when a member leaves a running match, the seed stays behind with the other member until somebody joins or
that member leaves too. Main statement: the seed of a room tells how the room came to be as it is.
-/
namespace BlockDuel.Hall
namespace Room

/-- The room is as `q` has made it behind `before`: nothing that was asked since has changed it. -/
def Since (r : Room) (rs before : List Request) (q : Request) : Prop :=
  ∃ since, rs = before ++ q :: since ∧
    ∀ p, p <+: since → r.grantAll (before ++ q :: p) = r.grantAll rs

variable {r r' : Room} {q : Request} {who : Option PlayerId} {seed : UInt64} {rs before : List Request}

theorem Since.grant (h : r.Since rs before q) : (r.grantAll before).grant q = r.grantAll rs := by
  obtain ⟨since, -, hsame⟩ := h
  have hq := hsame [] List.nil_prefix
  rw [grantAll_append] at hq
  exact hq

theorem Since.turn (h : r.Since rs before q) (hr : r.Shaped) :
    ∃ who, Turn (r.grantAll before) q who (r.grantAll rs) := by
  rw [← h.grant]
  exact ⟨_, (hr.grantAll before).turn q⟩

/-- Either nothing has changed a room, or some request was the last to change it. -/
theorem exists_since (r : Room) (rs : List Request) :
    (∀ p, p <+: rs → r.grantAll p = r.grantAll rs) ∨
      ∃ before q, r.Since rs before q ∧ r.grantAll before ≠ r.grantAll rs := by
  induction rs generalizing r with
  | nil =>
    refine .inl fun p hp => ?_
    rw [List.prefix_nil.mp hp]
  | cons q rs ih =>
    rcases ih (r.grant q) with hsame | ⟨before, q', ⟨since, rfl, hsince⟩, hne⟩
    · by_cases hr : r = r.grantAll (q :: rs)
      · refine .inl fun p hp => ?_
        cases p with
        | nil => exact hr
        | cons q' p =>
          obtain ⟨rfl, hrest⟩ := List.cons_prefix_cons.mp hp
          exact hsame p hrest
      · exact .inr ⟨[], q, ⟨rs, rfl, hsame⟩, hr⟩
    · exact .inr ⟨q :: before, q', ⟨since, rfl, hsince⟩, hne⟩

theorem Turn.of_ready (h : Turn r q who r') (hne : r ≠ r') (hr' : r'.phase = .ready) :
    ∃ id seed, q = .join id seed ∧ r.phase ≠ .ready ∧ r'.seed = some seed := by
  cases h with
  | stays => exact absurd rfl hne
  | @pairs a id left seed ne => exact ⟨id, seed, rfl, nofun, rfl⟩
  | _ => cases hr'

/-- Only from a match that was left can a member who waits have a seed. -/
theorem Turn.of_waiting (h : Turn r q who r') (hne : r ≠ r') (hr' : r'.phase = .waitingForSecond)
    (hs : r'.seed = some seed) : ∃ id, q = .leave id ∧ r.phase = .ready ∧ r.seed = some seed := by
  cases h with
  | stays => exact absurd rfl hne
  | enters => cases hs
  | @deserts r x y pits => exact ⟨x, rfl, pits.ready, hs⟩
  | _ => cases hr'

theorem Turn.seed_of_leave {id : PlayerId} (h : Turn r (.leave id) who r') (hr : r.phase = .ready)
    (hr' : r'.phase = .waitingForSecond) : r'.seed = r.seed := by
  cases h with
  | stays => exact nomatch hr.symm.trans hr'
  | empties => cases hr
  | deserts pits => rfl

theorem Shaped.seed_of_empty (h : r.Shaped) (hr : r.phase = .empty) : r.seed = none := by
  cases h with
  | empty => rfl
  | waiting => cases hr
  | playing => cases hr

/-- A room that is ready has the seed of the join that made it so, and it has been as it is since. An empty
room has none. A member who waits has one exactly if the wait began with the other one leaving a match, and
then it is the seed of that match. -/
theorem seed_since (rs : List Request) :
    let r := fresh.grantAll rs
    (r.phase = .ready → ∃ before id seed, fresh.Since rs before (.join id seed) ∧
      (fresh.grantAll before).phase ≠ .ready ∧ r.seed = some seed) ∧
    (r.phase = .empty → r.seed = none) ∧
    (r.phase = .waitingForSecond → ∀ seed, r.seed = some seed ↔
      ∃ before id, fresh.Since rs before (.leave id) ∧
        (fresh.grantAll before).phase = .ready ∧ (fresh.grantAll before).seed = some seed) := by
  intro r
  have h : r.Shaped := Shaped.empty.grantAll rs
  have hlast : r.phase ≠ .empty →
      ∃ before q, fresh.Since rs before q ∧ fresh.grantAll before ≠ r := by
    intro hr
    refine (exists_since fresh rs).resolve_left fun hsame => hr ?_
    have hfresh : fresh = r := hsame [] List.nil_prefix
    rw [← hfresh]
    rfl
  refine ⟨fun hr => ?_, h.seed_of_empty, fun hr seed => ⟨fun hs => ?_, ?_⟩⟩
  · obtain ⟨before, q, hsince, hne⟩ := hlast (by rw [hr]; nofun)
    obtain ⟨who, hturn⟩ := hsince.turn .empty
    obtain ⟨id, seed, rfl, hbefore, hs⟩ := hturn.of_ready hne hr
    exact ⟨before, id, seed, hsince, hbefore, hs⟩
  · obtain ⟨before, q, hsince, hne⟩ := hlast (by rw [hr]; nofun)
    obtain ⟨who, hturn⟩ := hsince.turn .empty
    obtain ⟨id, rfl, hbefore, hseed⟩ := hturn.of_waiting hne hr hs
    exact ⟨before, id, hsince, hbefore, hseed⟩
  · rintro ⟨before, id, hsince, hbefore, hseed⟩
    obtain ⟨who, hturn⟩ := hsince.turn .empty
    rw [hturn.seed_of_leave hbefore hr, hseed]

/-- One of two players leaves a match, and the other one waits with its seed. -/
theorem seed_left_behind :
    let rs : List Request := [.join 10000 3, .join 10001 7, .leave 10000]
    (fresh.grantAll rs).phase = .waitingForSecond ∧ (fresh.grantAll rs).seed = some 7 := by
  intro rs
  obtain ⟨-, -, hwaiting⟩ := seed_since rs
  have hphase : (fresh.grantAll rs).phase = .waitingForSecond := by decide
  have hsince : fresh.Since rs [.join 10000 3, .join 10001 7] (.leave 10000) := by
    refine ⟨[], rfl, fun p hp => ?_⟩
    rw [List.prefix_nil.mp hp]
    rfl
  exact ⟨hphase, (hwaiting hphase 7).mpr ⟨_, _, hsince, by decide, by decide⟩⟩

/-- Not only a match has a seed. -/
theorem seed_without_match :
    ¬ ∀ rs, (fresh.grantAll rs).seed.isSome ↔ (fresh.grantAll rs).phase = .ready := by
  intro h
  have hready := (h [.join 10000 3, .join 10001 7, .leave 10000]).mp (by decide)
  exact absurd hready (by decide)

end Room
end BlockDuel.Hall
