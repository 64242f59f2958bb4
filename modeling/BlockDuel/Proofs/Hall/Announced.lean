import BlockDuel.Proofs.Hall.Reports

/-!
Verdicts for one player. The verdicts that are sent to a player are among those that name the player, in
the order in which they were made, and each of these is about another match of the player.
-/
namespace BlockDuel.Hall
open Wire

/-- The verdict that a message brings. -/
def verdictIn? (m : Message) : Option Verdict :=
  if m.kind = .gameOver then m.read? Verdict else none

/-- The verdicts that some messages bring. -/
def decisions (ms : List Message) : List Verdict := ms.filterMap verdictIn?

/-- The verdicts that name `id`. -/
def verdictsOf (id : PlayerId) (ds : List Deed) : List Verdict :=
  (ds.filterMap Deed.verdict?).filter fun v => v.winner = id ∨ v.loser = id

variable {id : PlayerId} {v : Verdict} {m : Message} {p : Pairing} {ds : List Deed}

theorem verdictIn?_gameOver (v : Verdict) : verdictIn? (.gameOver v) = some v := by
  have hread : (Message.gameOver v).read? Verdict = some v := Message.read?_carrying _ _
  have hkind : (Message.gameOver v).kind = .gameOver := rfl
  unfold verdictIn?
  rw [if_pos hkind, hread]

theorem verdictIn?_eq_some (h : verdictIn? m = some v) :
    m.kind = .gameOver ∧ m.read? Verdict = some v := by
  unfold verdictIn? at h
  split at h
  · next hk => exact ⟨hk, h⟩
  · cases h

theorem decisions_of_undecided {ms : List Message} (h : ∀ m ∈ ms, m.kind ≠ .gameOver) :
    decisions ms = [] := by
  unfold decisions
  rw [List.filterMap_eq_nil_iff]
  intro m hm
  exact if_neg (h m hm)

theorem spoken_isPrefix_sends (cs : List Link.Call) : Link.spoken cs <+: sends cs := by
  induction cs with
  | nil => exact List.prefix_rfl
  | cons c cs ih =>
    cases c with
    | send m => exact List.cons_prefix_cons.mpr ⟨rfl, ih⟩
    | shutdown | disconnect => exact List.nil_prefix

/-- The verdict that is handed over for sending to `id`. -/
def announcedTo? (id : PlayerId) (e : PlayerId × Message) : Option Verdict :=
  if e.1 = id then verdictIn? e.2 else none

theorem filterMap_sublist {α β : Type} {f g : α → Option β} (h : ∀ a, f a = none ∨ f a = g a)
    (as : List α) : (as.filterMap f).Sublist (as.filterMap g) := by
  induction as with
  | nil => exact .slnil
  | cons a as ih =>
    rw [List.filterMap_cons, List.filterMap_cons]
    rcases h a with hn | he
    · rw [hn]
      cases g a with
      | none => exact ih
      | some b => exact ih.cons b
    · rw [he]
      cases g a with
      | none => exact ih
      | some b => exact ih.cons_cons b

/-- What is asked of a link was handed over; not all that is handed over finds a link. -/
theorem decisions_sublist (id : PlayerId) (ds : List Deed) :
    (decisions (sends (ds.filterMap (Deed.call? id)))).Sublist
      ((ds.filterMap Deed.announcement?).filterMap (announcedTo? id)) := by
  unfold decisions sends
  rw [List.filterMap_filterMap, List.filterMap_filterMap, List.filterMap_filterMap]
  apply filterMap_sublist
  intro d
  cases d with
  | opens | rules | miss => exact .inl rfl
  | finish other | cut other =>
    left
    by_cases ho : other = id <;> simp [Deed.call?, ho]
  | post other m =>
    by_cases ho : other = id
    · subst ho
      by_cases hk : m.kind = .gameOver
      · right
        simp [Deed.call?, Deed.announcement?, Deed.sent?, Option.filter, announcedTo?, hk]
      · left
        simp [Deed.call?, verdictIn?, hk]
    · left
      simp [Deed.call?, ho]

/-- Of the two to whom a verdict is announced, each is named once. -/
theorem announce_to (hne : v.winner ≠ v.loser) (id : PlayerId) :
    (announce v).filterMap (announcedTo? id) = [v].filter fun v => v.winner = id ∨ v.loser = id := by
  have hv := verdictIn?_gameOver v
  by_cases hw : v.winner = id
  · have hl : v.loser ≠ id := fun h => hne (hw.trans h.symm)
    simp [announce, announcedTo?, hv, hw, hl]
  · by_cases hl : v.loser = id
    · simp [announce, announcedTo?, hv, hw, hl]
    · simp [announce, announcedTo?, hw, hl]

theorem Pairing.SettledBy.mem_iff (h : p.SettledBy v) :
    id ∈ p.members ↔ v.winner = id ∨ v.loser = id := by
  rw [h.2.mem_iff]
  simp [eq_comm]

theorem Pairing.SettledBy.eq_or_eq {x y : PlayerId} (h : p.SettledBy v) (hp : p.members = [x, y]) :
    v = ⟨x, y⟩ ∨ v = ⟨y, x⟩ := by
  obtain ⟨winner, loser⟩ := v
  obtain ⟨-, hperm⟩ := h
  rw [hp] at hperm
  have hx : x = winner ∨ x = loser := by simpa using hperm.subset List.mem_cons_self
  rcases hx with rfl | rfl
  · left
    rw [List.singleton_perm_singleton.mp hperm.cons_inv]
  · right
    rw [List.singleton_perm_singleton.mp (hperm.trans (List.Perm.swap x winner [])).cons_inv]

theorem settled_filter {ps : List Pairing} {vs : List Verdict}
    (h : List.Forall₂ Pairing.SettledBy ps vs) (id : PlayerId) :
    List.Forall₂ Pairing.SettledBy (ps.filter fun p => id ∈ p.members)
      (vs.filter fun v => v.winner = id ∨ v.loser = id) := by
  induction h with
  | nil => exact .nil
  | @cons p v ps vs hp _ ih =>
    by_cases hm : id ∈ p.members
    · have hv : v.winner = id ∨ v.loser = id := hp.mem_iff.mp hm
      simp only [List.filter_cons, hm, hv, decide_true, if_true]
      exact .cons hp ih
    · have hv : ¬ (v.winner = id ∨ v.loser = id) := fun hv => hm (hp.mem_iff.mpr hv)
      simp only [List.filter_cons, hm, hv, decide_false, Bool.false_eq_true, if_false]
      exact ih

namespace Course

variable {c : Course}

/-- The matches of a player that are over are its first ones, and each has its verdict. -/
theorem Accounted.settled (h : c.Accounted) (id : PlayerId) :
    ∃ ended, ended <+: matchesOf id c.deeds ∧
      List.Forall₂ Pairing.SettledBy ended (verdictsOf id c.deeds) := by
  obtain ⟨decided, hpairings, hsettled⟩ := h.decided
  refine ⟨decided.filter fun p => id ∈ p.members, ?_, settled_filter hsettled id⟩
  have hprefix : decided <+: c.pairings := ⟨_, hpairings.symm⟩
  exact hprefix.filter _

theorem Accounted.announcedTo (h : c.Accounted) (id : PlayerId) :
    c.announcements.filterMap (announcedTo? id) = verdictsOf id c.deeds := by
  obtain ⟨decided, -, hsettled⟩ := h.decided
  change _ = c.verdicts.filter _
  rw [h.announced]
  generalize c.verdicts = vs at hsettled
  induction hsettled with
  | nil => rfl
  | @cons p v ps vs hp _ ih =>
    rw [List.flatMap_cons, List.filterMap_append, ih, announce_to hp.1, ← List.filter_append,
      List.singleton_append]

/-- The verdicts that a player is sent are among those that name it. -/
theorem Accounted.sent (h : c.Accounted) (id : PlayerId) :
    (decisions (sends (c.deeds.filterMap (Deed.call? id)))).Sublist (verdictsOf id c.deeds) := by
  rw [← h.announcedTo id]
  exact decisions_sublist id c.deeds

/-- A player who was in one match is named by one verdict at most, the one on this match. -/
theorem Accounted.only_verdict (h : c.Accounted) {q : Pairing} (hq : matchesOf id c.deeds = [q]) :
    verdictsOf id c.deeds = [] ∨ ∃ w, verdictsOf id c.deeds = [w] ∧ q.SettledBy w := by
  obtain ⟨ended, hended, hsettled⟩ := h.settled id
  rw [hq] at hended
  generalize verdictsOf id c.deeds = ws at hsettled
  cases hsettled with
  | nil => exact .inl rfl
  | @cons p w ps ws hp hrest =>
    obtain ⟨rfl, hnil⟩ := List.cons_prefix_cons.mp hended
    obtain rfl := List.prefix_nil.mp hnil
    cases hrest
    exact .inr ⟨w, rfl, hp⟩

/-- Verdicts stay on record. -/
theorem verdicts_run_isPrefix (seeds : Nat → UInt64) (id : PlayerId) (c : Course)
    (os : List Occasion) : verdictsOf id c.deeds <+: verdictsOf id (c.run seeds os).deeds :=
  ((run_deeds_isPrefix seeds c os).filterMap _).filter _

end Course
end BlockDuel.Hall
