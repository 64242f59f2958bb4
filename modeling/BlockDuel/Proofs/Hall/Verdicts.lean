import BlockDuel.Proofs.Hall.Coherence
import Mathlib.Data.List.Forall2

/-!
Every match that begins is decided once: by a verdict that names its two members, when one of them
gives up, and that is announced to these two and to nobody else. Until then the match is running.
-/
namespace BlockDuel.Hall
open Wire

/-- `id` gives up: it reports its death, leaves the hall, or its link is lost. -/
def Occasion.GivesUp (o : Occasion) (id : PlayerId) : Prop :=
  (∃ now m, o = .notice now (.message id m) ∧
    (m.kind = .playerDead ∨ m.kind = .unregisterWithServer)) ∨
  ∃ now, o = .notice now (.lost id)

/-- The verdict names the two members, one as the winner and one as the loser. -/
def Pairing.SettledBy (p : Pairing) (v : Verdict) : Prop :=
  v.winner ≠ v.loser ∧ p.members.Perm [v.winner, v.loser]

/-- The match that is being played. -/
def Room.running? (r : Room) : Option Pairing :=
  if r.phase = .ready then r.seed.map fun seed => ⟨r.members, seed⟩ else none

/-- A verdict that is handed over for sending. -/
def Deed.announcement? (d : Deed) : Option (PlayerId × Message) :=
  d.sent?.filter fun e => e.2.kind = .gameOver

/-- Who is to hear of a verdict. -/
def announce (v : Verdict) : List (PlayerId × Message) :=
  [(v.winner, .gameOver v), (v.loser, .gameOver v)]

/-- What becomes of the match in a room in one occasion: nothing, or it begins, or it ends. -/
inductive Progress (o : Occasion) (ds : List Deed) (r r' : Room) : Prop
  | same (room : r'.running? = r.running?) (pairings : ds.filterMap Deed.pairing? = [])
      (verdicts : ds.filterMap Deed.verdict? = [])
      (announcements : ds.filterMap Deed.announcement? = [])
  | begins (p : Pairing) (before : r.running? = none) (after : r'.running? = some p)
      (pairings : ds.filterMap Deed.pairing? = [p])
      (verdicts : ds.filterMap Deed.verdict? = [])
      (announcements : ds.filterMap Deed.announcement? = [])
  | ends (p : Pairing) (v : Verdict) (before : r.running? = some p) (after : r'.running? = none)
      (settled : p.SettledBy v) (gaveUp : o.GivesUp v.loser)
      (pairings : ds.filterMap Deed.pairing? = [])
      (verdicts : ds.filterMap Deed.verdict? = [v])
      (announcements : ds.filterMap Deed.announcement? = announce v)

namespace Room

variable {r : Room} {x y : PlayerId}

theorem Sound.running?_isSome (h : r.Sound) : r.running?.isSome ↔ r.phase = .ready := by
  cases h <;> simp [running?, fresh]

theorem Pits.running? (hs : r.Sound) (h : r.Pits x y) :
    ∃ seed, r.running? = some ⟨r.members, seed⟩ := by
  cases hs with
  | empty => cases h.ready
  | waiting a => cases h.ready
  | playing ne seed => exact ⟨seed, rfl⟩

theorem Pits.settledBy (h : r.Pits x y) (seed : UInt64) :
    Pairing.SettledBy ⟨r.members, seed⟩ ⟨y, x⟩ := by
  refine ⟨h.ne.symm, ?_⟩
  change r.members.Perm [y, x]
  rcases h.members with hm | hm
  · rw [hm]
    exact List.Perm.swap y x []
  · rw [hm]

end Room

variable {o : Occasion} {ds : List Deed} {r r' : Room}

/-- Closing a link has no bearing on the match. -/
theorem Progress.finish (h : Progress o ds r r') (id : PlayerId) :
    Progress o (ds ++ [.finish id]) r r' := by
  have hp : [Deed.finish id].filterMap Deed.pairing? = [] := rfl
  have hv : [Deed.finish id].filterMap Deed.verdict? = [] := rfl
  have ha : [Deed.finish id].filterMap Deed.announcement? = [] := rfl
  cases h with
  | same room pairings verdicts announcements =>
    apply Progress.same room <;> simp [*]
  | begins p before after pairings verdicts announcements =>
    apply Progress.begins p before after <;> simp [*]
  | ends p v before after settled gaveUp pairings verdicts announcements =>
    apply Progress.ends p v before after settled gaveUp <;> simp [*]

/-- When a room becomes ready, its match begins. -/
theorem Progress.forms (h : Progress o ds r r') (hs : r.Sound) (hs' : r'.Sound)
    (hr : r.phase ≠ .ready) (hr' : r'.phase = .ready) :
    ∃ p, r'.running? = some p ∧ ds.filterMap Deed.pairing? = [p] := by
  have hnone : r.running? = none := by
    rw [← Option.not_isSome_iff_eq_none, hs.running?_isSome]
    exact hr
  have hsome : r'.running?.isSome := hs'.running?_isSome.mpr hr'
  cases h with
  | same room =>
    rw [room, hnone] at hsome
    cases hsome
  | begins p before after pairings => exact ⟨p, after, pairings⟩
  | ends p v before after =>
    rw [after] at hsome
    cases hsome

/-- At no other time does a match begin. -/
theorem Progress.forms_nothing (h : Progress o ds r r') (hs : r.Sound) (hs' : r'.Sound)
    (hr : ¬ (r.phase ≠ .ready ∧ r'.phase = .ready)) : ds.filterMap Deed.pairing? = [] := by
  cases h with
  | same room pairings => exact pairings
  | begins p before after =>
    have hp : r.phase ≠ .ready := by
      rw [ne_eq, ← hs.running?_isSome, before]
      exact Bool.false_ne_true
    have hp' : r'.phase = .ready := by
      rw [← hs'.running?_isSome, after]
      rfl
    exact absurd ⟨hp, hp'⟩ hr
  | ends p v before after settled gaveUp pairings => exact pairings

namespace State

variable {s s' : State} {seed : UInt64} {id : PlayerId}

theorem Leaves.progress {tell : Message → Deed} (h : Leaves tell id r r' ds)
    (ht : tell = .post id ∨ tell = .miss id) (hr : r.Sound) (ho : o.GivesUp id) :
    Progress o ds r r' := by
  cases h with
  | stranger out => exact .same rfl rfl rfl rfl
  | alone => exact .same rfl rfl rfl rfl
  | @concedes r y pits =>
    obtain ⟨seed, hrun⟩ := pits.running? hr
    have hsettled := pits.settledBy seed
    rcases ht with rfl | rfl
    · exact .ends _ ⟨y, id⟩ hrun rfl hsettled ho rfl rfl rfl
    · exact .ends _ ⟨y, id⟩ hrun rfl hsettled ho rfl rfl rfl

theorem checkLiveness_same {now : Time} {order : List PlayerId} :
    Progress o (s.checkLiveness now order).2 r r := by
  have hq (d : Deed) (hd : d ∈ (s.checkLiveness now order).2) :
      d.pairing? = none ∧ d.verdict? = none ∧ d.announcement? = none := by
    obtain ⟨id, rfl | ⟨-, rfl⟩⟩ := checkLiveness_deeds hd
    · unfold send
      split <;> exact ⟨rfl, rfl, rfl⟩
    · exact ⟨rfl, rfl, rfl⟩
  refine .same rfl ?_ ?_ ?_
  · exact List.filterMap_eq_nil_iff.mpr fun d hd => (hq d hd).1
  · exact List.filterMap_eq_nil_iff.mpr fun d hd => (hq d hd).2.1
  · exact List.filterMap_eq_nil_iff.mpr fun d hd => (hq d hd).2.2

theorem Moves.progress (hm : Moves s seed o s' ds) (h : s.Coherent) :
    Progress o ds s.room s'.room := by
  cases hm with
  | idles => exact .same rfl rfl rfl rfl
  | admits => exact .same rfl rfl rfl rfl
  | registers => exact .same rfl rfl rfl rfl
  | hearsPong => exact .same rfl rfl rfl rfl
  | answersPing => exact .same rfl rfl rfl rfl
  | acknowledges => exact .same rfl rfl rfl rfl
  | seats registered kind room =>
    refine .same ?_ rfl rfl rfl
    rw [room]
    rfl
  | @pairs now a id m ga g waiting registered kind ne room =>
    refine .begins ⟨[a, id], seed⟩ ?_ rfl rfl rfl rfl
    rw [room]
    rfl
  | @relays now x y m pits kind =>
    have ha : (Deed.post y m).announcement? = none := by
      have hk : m.kind ≠ .gameOver := by
        intro hk
        rw [hk] at kind
        cases kind
      simp [Deed.announcement?, Deed.sent?, hk]
    refine .same rfl rfl rfl ?_
    rw [List.filterMap_cons, ha]
    rfl
  | @rules now x y m pits kind =>
    obtain ⟨seed, hrun⟩ := pits.running? h.room
    exact .ends _ ⟨y, x⟩ hrun rfl (pits.settledBy seed) (.inl ⟨now, m, rfl, .inl kind⟩) rfl rfl rfl
  | @dismisses now id m room ds registered kind leaves =>
    have ho : Occasion.GivesUp (.notice now (.message id m)) id := .inl ⟨now, m, rfl, .inr kind⟩
    exact (leaves.progress (.inl rfl) h.room ho).finish id
  | @loses now id room ds link leaves =>
    exact leaves.progress (.inr rfl) h.room (.inr ⟨now, rfl⟩)
  | losesNothing => exact .same rfl rfl rfl rfl
  | checks => exact checkLiveness_same

end State

namespace Course

/-- The verdicts that were handed over for sending, with the receivers. -/
def announcements (c : Course) : List (PlayerId × Message) := c.deeds.filterMap Deed.announcement?

/-- The matches that began are those that were decided, in the same order, and the running one. -/
structure Accounted (c : Course) : Prop where
  decided : ∃ decided, c.pairings = decided ++ c.hall.room.running?.toList ∧
    List.Forall₂ Pairing.SettledBy decided c.verdicts
  announced : c.announcements = c.verdicts.flatMap announce

variable {c : Course} {s : State} {made : Nat}

theorem Accounted.opened (interval patience : Nat) (start : Time) :
    (opened interval patience start).Accounted := by
  constructor
  · exact ⟨[], rfl, .nil⟩
  · rfl

theorem Accounted.step (h : c.Accounted) (hp : Progress o ds c.hall.room s.room) :
    Accounted ⟨s, made, c.deeds ++ ds⟩ := by
  obtain ⟨⟨decided, hpairings, hsettled⟩, hannounced⟩ := h
  unfold pairings at hpairings
  unfold verdicts at hsettled
  unfold announcements verdicts at hannounced
  cases hp with
  | same room pairings verdicts announcements =>
    refine ⟨⟨decided, ?_, ?_⟩, ?_⟩
    · simp only [Course.pairings, List.filterMap_append, pairings, hpairings, room, List.append_nil]
    · simpa only [Course.verdicts, List.filterMap_append, verdicts, List.append_nil] using hsettled
    · simp only [Course.announcements, Course.verdicts, List.filterMap_append, verdicts,
        announcements, hannounced, List.append_nil]
  | begins p before after pairings verdicts announcements =>
    refine ⟨⟨decided, ?_, ?_⟩, ?_⟩
    · simp only [Course.pairings, List.filterMap_append, pairings, hpairings, before, after,
        Option.toList_none, Option.toList_some, List.append_nil]
    · simpa only [Course.verdicts, List.filterMap_append, verdicts, List.append_nil] using hsettled
    · simp only [Course.announcements, Course.verdicts, List.filterMap_append, verdicts,
        announcements, hannounced, List.append_nil]
  | ends p v before after settled gaveUp pairings verdicts announcements =>
    refine ⟨⟨decided ++ [p], ?_, ?_⟩, ?_⟩
    · simp only [Course.pairings, List.filterMap_append, pairings, hpairings, before, after,
        Option.toList_none, Option.toList_some, List.append_nil]
    · simp only [Course.verdicts, List.filterMap_append, verdicts]
      exact List.rel_append hsettled (.cons settled .nil)
    · simp only [Course.announcements, Course.verdicts, List.filterMap_append, verdicts,
        announcements, hannounced, List.flatMap_append, List.flatMap_singleton]

theorem accounted_run (seeds : Nat → UInt64) (interval patience : Nat) (start : Time)
    (os : List Occasion) : ((opened interval patience start).run seeds os).Accounted := by
  refine run_induction (P := fun _ c => c.Accounted) (.opened interval patience start) ?_ os
  intro os c o s' ds ih hc hm
  exact ih.step (hm.progress hc)

theorem Accounted.count (h : c.Accounted) (hr : c.hall.room.Sound) :
    c.pairings.length = c.verdicts.length + if c.hall.room.phase = .ready then 1 else 0 := by
  obtain ⟨decided, hpairings, hsettled⟩ := h.decided
  have hrun := hr.running?_isSome
  rw [hpairings, List.length_append, hsettled.length_eq]
  congr 1
  cases hroom : c.hall.room.running? with
  | none =>
    rw [hroom] at hrun
    have hn : c.hall.room.phase ≠ .ready := fun hp => by simpa using hrun.mpr hp
    rw [if_neg hn]
    rfl
  | some p =>
    rw [hroom] at hrun
    rw [if_pos (hrun.mp rfl)]
    rfl

/-- After any course, the matches that began are those that were decided, one verdict for each and in
the same order, and the one that is running if the room is ready. All that was announced are these
verdicts, each to the two it names. And whatever the hall meets next, a running match goes on
unchanged or is decided against the one who gives up, and is then over. -/
theorem decided_once (seeds : Nat → UInt64) (interval patience : Nat) (start : Time)
    (os : List Occasion) (o : Occasion) :
    let c := (opened interval patience start).run seeds os
    let c' := c.next seeds o
    (c.hall.room.running?.isSome ↔ c.hall.room.phase = .ready) ∧
      (∃ decided, c.pairings = decided ++ c.hall.room.running?.toList ∧
        List.Forall₂ Pairing.SettledBy decided c.verdicts) ∧
      (c.pairings.length = c.verdicts.length + if c.hall.room.phase = .ready then 1 else 0) ∧
      c.announcements = c.verdicts.flatMap announce ∧
      ∃ ds, c'.deeds = c.deeds ++ ds ∧ Progress o ds c.hall.room c'.hall.room := by
  intro c c'
  have hc : c.hall.Coherent := coherent_run os
  have ha : c.Accounted := accounted_run seeds interval patience start os
  have hm := State.meet_moves hc (seeds c.made) o
  have hn : c' = _ := next_eq o
  refine ⟨hc.room.running?_isSome, ha.decided, ha.count hc.room, ha.announced,
    (c.hall.meet (seeds c.made) o).2, ?_, ?_⟩
  · rw [hn]
  · rw [hn]
    exact hm.progress hc

end Course
end BlockDuel.Hall
