import BlockDuel.Proofs.Hall.Coherence

/-!
The seeds of the matches. A fresh seed is made for each match that begins and for nothing else, and
goes to the two members of this match, to each of them once.
-/
namespace BlockDuel.Hall
open Wire

/-- A message of kind `k` is handed over for sending. -/
def Deed.carries (k : Kind) (d : Deed) : Bool := d.sent?.any fun e => e.2.kind = k

/-- How the members of a match get their seed. -/
def Pairing.dealt (p : Pairing) : List Deed := p.members.map fun id => .post id (.bagSeed p.seed)

/-- What happens to seeds in one occasion that has `seed` for a match: nothing, or one match of two
begins with it. -/
inductive Deals (seed : UInt64) (ds : List Deed) : Prop
  | nothing (pairings : ds.filterMap Deed.pairing? = [])
      (dealt : ds.filter (Deed.carries .sendBagSeed) = [])
  | once (p : Pairing) (fresh : p.seed = seed) (two : ∃ a b, a ≠ b ∧ p.members = [a, b])
      (pairings : ds.filterMap Deed.pairing? = [p])
      (dealt : ds.filter (Deed.carries .sendBagSeed) = p.dealt)

namespace State

variable {s s' : State} {seed : UInt64} {o : Occasion} {ds : List Deed} {id : PlayerId}

theorem checkLiveness_deals_nothing {now : Time} {order : List PlayerId} :
    (s.checkLiveness now order).2.filter (Deed.carries .sendBagSeed) = [] := by
  rw [List.filter_eq_nil_iff]
  intro d hd
  obtain ⟨id, rfl | ⟨-, rfl⟩⟩ := checkLiveness_deeds hd
  · unfold send
    split <;> exact Bool.false_ne_true
  · exact Bool.false_ne_true

theorem Leaves.deals_nothing {tell : Message → Deed} {r r' : Room} (h : Leaves tell id r r' ds)
    (ht : tell = .post id ∨ tell = .miss id) :
    ds.filterMap Deed.pairing? = [] ∧ ds.filter (Deed.carries .sendBagSeed) = [] := by
  cases h with
  | stranger out => exact ⟨rfl, rfl⟩
  | alone => exact ⟨rfl, rfl⟩
  | concedes pits => rcases ht with rfl | rfl <;> exact ⟨rfl, rfl⟩

theorem Moves.deals (hm : Moves s seed o s' ds) : Deals seed ds := by
  cases hm with
  | idles => exact .nothing rfl rfl
  | admits => exact .nothing rfl rfl
  | registers => exact .nothing rfl rfl
  | hearsPong => exact .nothing rfl rfl
  | answersPing => exact .nothing rfl rfl
  | acknowledges => exact .nothing rfl rfl
  | seats => exact .nothing rfl rfl
  | @pairs now a id m ga g waiting registered kind ne room =>
    exact .once ⟨[a, id], seed⟩ rfl ⟨a, id, ne, rfl⟩ rfl rfl
  | @relays now x y m pits kind =>
    refine .nothing rfl ?_
    have hc : Deed.carries .sendBagSeed (.post y m) = false := by
      have hk : m.kind ≠ .sendBagSeed := by
        intro hk
        rw [hk] at kind
        cases kind
      simp [Deed.carries, Deed.sent?, hk]
    rw [List.filter_cons_of_neg (by simp [hc])]
    rfl
  | rules => exact .nothing rfl rfl
  | dismisses registered kind leaves =>
    obtain ⟨hp, hd⟩ := leaves.deals_nothing (.inl rfl)
    refine .nothing ?_ ?_
    · rw [List.filterMap_append, hp]
      rfl
    · rw [List.filter_append, hd]
      rfl
  | loses link leaves =>
    obtain ⟨hp, hd⟩ := leaves.deals_nothing (.inr rfl)
    exact .nothing hp hd
  | losesNothing => exact .nothing rfl rfl
  | checks => exact .nothing (checkLiveness_opens_nothing _) checkLiveness_deals_nothing

end State

namespace Course

/-- The `k`-th match has the `k`-th seed that was made, it has two members, and nobody else and
nothing else was sent a seed. -/
structure Seeded (seeds : Nat → UInt64) (c : Course) : Prop where
  made : c.made = c.pairings.length
  fresh : c.pairings.map Pairing.seed = (List.range c.made).map seeds
  two : ∀ p ∈ c.pairings, ∃ a b, a ≠ b ∧ p.members = [a, b]
  dealt : c.deeds.filter (Deed.carries .sendBagSeed) = c.pairings.flatMap Pairing.dealt

variable {seeds : Nat → UInt64} {c : Course} {s : State} {ds : List Deed}

theorem Seeded.step (h : c.Seeded seeds) (hd : Deals (seeds c.made) ds) :
    Seeded seeds ⟨s, c.made + (ds.filterMap Deed.pairing?).length, c.deeds ++ ds⟩ := by
  obtain ⟨made, fresh, two, dealt⟩ := h
  unfold pairings at made fresh two dealt
  cases hd with
  | nothing hpairings hdealt =>
    have happend : (c.deeds ++ ds).filterMap Deed.pairing? = c.deeds.filterMap Deed.pairing? := by
      rw [List.filterMap_append, hpairings, List.append_nil]
    constructor
    · rw [pairings, happend, hpairings]
      exact made
    · rw [pairings, happend, hpairings]
      exact fresh
    · rw [pairings, happend]
      exact two
    · rw [pairings, happend, List.filter_append, hdealt, List.append_nil]
      exact dealt
  | once p hseed htwo hpairings hdealt =>
    have happend : (c.deeds ++ ds).filterMap Deed.pairing? =
        c.deeds.filterMap Deed.pairing? ++ [p] := by
      rw [List.filterMap_append, hpairings]
    constructor
    · rw [pairings, happend, hpairings, List.length_append, ← made]
    · rw [pairings, happend, hpairings, List.map_append, fresh]
      change _ = (List.range (c.made + 1)).map seeds
      rw [List.range_succ, List.map_append, List.map_singleton, List.map_singleton, hseed]
    · rw [pairings, happend]
      intro q hq
      rcases List.mem_append.mp hq with hq | hq
      · exact two q hq
      · rw [List.mem_singleton.mp hq]
        exact htwo
    · rw [pairings, happend, List.filter_append, hdealt, dealt, List.flatMap_append,
        List.flatMap_singleton]

theorem seeded_run (interval patience : Nat) (start : Time) (os : List Occasion) :
    ((opened interval patience start).run seeds os).Seeded seeds := by
  refine run_induction (P := fun _ c => c.Seeded seeds) ?_ ?_ os
  · exact ⟨rfl, rfl, (fun p hp => nomatch hp), rfl⟩
  · intro os c o s' ds ih _ hm
    exact ih.step hm.deals

end Course
end BlockDuel.Hall
