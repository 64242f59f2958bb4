import BlockDuel.Proofs.Seat.Chronicle
import BlockDuel.Proofs.Seat.Sayings

/-!
The last word of a hall. An observer looks at the line before it takes the messages that wait. So a verdict that
has arrived comes into the log unless the line drops before the observer begins to take messages again; then it
leaves, and the verdict stays where it is.
-/
namespace BlockDuel.Seat
open Wire Hall

/-- Messages are being taken. -/
def Errand.isTaking : Errand → Bool
  | takes _ => true
  | _ => false

/-- The observer is on its way out, or gone. -/
def Stop.isOver : Stop → Bool
  | parts | ended _ => true
  | _ => false

namespace Duelist

/-- A verdict waits to be taken. -/
def Owed (c : Duelist) : Prop := decisions (c.session.takes c.session.inbox) ≠ []

/-- The player has heard no verdict, and takes no messages either. -/
def unaware (c : Duelist) : Bool := c.play.verdict.isNone && !c.errand.isTaking

variable {c c' : Duelist} {e : Event}

theorem unaware_iff : c.unaware = true ↔ c.play.verdict = none ∧ c.errand.isTaking = false := by
  simp [unaware]

theorem aware_iff : c.unaware = false ↔ c.play.verdict.isSome = true ∨ c.errand.isTaking = true := by
  cases hv : c.play.verdict <;> simp [unaware, hv]

/-- What waits goes on waiting while no messages are taken. -/
theorem Moves.owed (hm : Moves c e c') (ht : c.errand.isTaking = false) (hp : c.errand ≠ .parts)
    (ho : c.Owed) : c'.Owed := by
  have hconserves := hm.conserves hp
  have hheard : c'.heard = c.heard := by
    cases hm with
    | hears he => rw [he] at ht; cases ht
    | _ => rfl
  rw [hheard, List.append_assoc, List.append_cancel_left_eq] at hconserves
  unfold Owed decisions at ho ⊢
  rw [hconserves, List.filterMap_append]
  exact List.append_ne_nil_of_left_ne_nil ho _

/-- A verdict waits behind what arrives if one waited before, or if this is one. -/
theorem owed_arrives {n : Notice} : (c.next (.arrives n)).Owed ↔
    c.Owed ∨ ((c.session.accept n).bind verdictIn?).isSome = true := by
  have htakes : decisions (c.session.takes (c.session.inbox ++ [n])) =
      decisions (c.session.takes c.session.inbox) ++ ((c.session.accept n).bind verdictIn?).toList := by
    unfold decisions
    rw [Session.takes_append, Session.takes_singleton, List.filterMap_append]
    cases c.session.accept n with
    | none => rfl
    | some m => cases hv : verdictIn? m <;> simp [hv]
  change decisions (c.session.takes (c.session.inbox ++ [n])) ≠ [] ↔ _
  rw [htakes, Ne, List.append_eq_nil_iff, not_and_or]
  refine or_congr Iff.rfl ?_
  cases (c.session.accept n).bind verdictIn? <;> simp

/-- Only its own end and the goodbye bring a line down. -/
theorem Moves.still_linked (hm : Moves c e c') (hd : e ≠ .drops) (hp : c.errand ≠ .parts)
    (hc : c.session.isConnected = true) : c'.session.isConnected = true := by
  cases hm with
  | drops => exact absurd rfl hd
  | parts he => exact absurd he hp
  | _ => exact hc

/-- A verdict that waits while messages are taken is heard, or goes on waiting while they are. -/
theorem owed_goOn (ht : c.errand.isTaking = true) (ho : c.Owed) :
    c.goOn.play.verdict.isSome = true ∨ c.goOn.errand.isTaking = true ∧ c.goOn.Owed := by
  have hm := c.goOn_moves
  generalize c.goOn = d at hm ⊢
  generalize hgoes : Event.goesOn = e at hm
  cases hm with
  | skips he hi ha =>
    unfold Owed at ho
    rw [hi, Session.takes_cons_none ha] at ho
    exact .inr ⟨ht, ho⟩
  | @hears _ _ m rest he hi ha =>
    unfold Owed at ho
    rw [hi, Session.takes_cons_some ha] at ho
    cases hv : verdictIn? m with
    | some v =>
      refine .inl ?_
      change (c.play.receive m).verdict.isSome = true
      rw [receive_decided _ hv]
      rfl
    | none =>
      refine .inr ⟨rfl, ?_⟩
      unfold decisions at ho
      rw [List.filterMap_cons_none hv] at ho
      exact ho
  | took he hi =>
    unfold Owed at ho
    rw [hi] at ho
    exact absurd rfl ho
  | stays _ hi => rw [hi hgoes.symm] at ht; cases ht
  | shows he | showed he | parts he => rw [he] at ht; cases ht
  | turns | begins | hides | opens | reports | bids | arrives | drops => cases hgoes

/-- Who takes no messages goes on hearing nothing, unless it begins to take some. -/
theorem Moves.unaware (hm : Moves c e c') (he : e ≠ .process) (hu : c.unaware = true) :
    c'.unaware = true := by
  obtain ⟨hv, ht⟩ := unaware_iff.mp hu
  rw [unaware_iff]
  cases hm with
  | begins => exact absurd rfl he
  | hears he' | took he' => rw [he'] at ht; cases ht
  | opens | shows | showed | bids | parts => exact ⟨hv, rfl⟩
  | _ => exact ⟨hv, ht⟩

end Duelist

namespace Vigil

variable {w : Vigil} {c c' : Duelist} {stop stop' : Stop} {seen log : List Report} {es : List Event}

/-- Where the observer drains its inbox and is not done, messages are taken. -/
theorem taking_of_drains {before : Half} (hf : fits (.drains before) c.errand = true)
    (he : c.errand ≠ .idle) : c.errand.isTaking = true := by
  cases hc : c.errand <;> simp_all [fits, Errand.isTaking]

/-- What every move of a player keeps, and what stays when the line is given up, is kept by a step. To take
messages is only begun over a line. -/
theorem Steps.lasts {P : Duelist → Prop} (hs : Steps c stop c' stop' seen)
    (hmoves : ∀ {c c' : Duelist} {e : Duelist.Event}, Duelist.Moves c e c' →
      (e = .process → c.session.isConnected = true) → P c → P c')
    (hcut : P c → P { c with session := c.session.disconnect }) (h : P c) : P c' := by
  have hnext {c : Duelist} {e : Duelist.Event} (he : e ≠ .process) : P c → P (c.next e) :=
    hmoves (Duelist.next_moves c e) fun h => absurd h he
  cases hs with
  | opens hc => exact hmoves (Duelist.next_moves c .process) (fun _ => hc) h
  | closes | judges | reports | keeps => exact hnext (by nofun) h
  | takes | shows | parts => exact hmoves c.goOn_moves (by nofun) h
  | spawns => exact hnext (by nofun) (hnext (by nofun) h)
  | fails => exact hcut h
  | compares | lives | showed | parted | ended => exact h

theorem Steps.decided (hs : Steps c stop c' stop' seen) (hv : c.play.verdict.isSome = true) :
    c'.play.verdict.isSome = true :=
  hs.lasts (P := fun c => c.play.verdict.isSome = true) (fun hm _ hv => hm.decided hv) id hv

/-- Who is on its way out knows a verdict or has no line. -/
def Excused (c : Duelist) (stop : Stop) : Prop :=
  stop.isOver = true → c.play.verdict.isSome = true ∨ c.session.isConnected = false

theorem Excused.step (h : Excused c stop) (hs : Steps c stop c' stop' seen) : Excused c' stop' := by
  have hkeeps : (c.play.verdict.isSome = true ∨ c.session.isConnected = false) →
      c'.play.verdict.isSome = true ∨ c'.session.isConnected = false :=
    hs.lasts (P := fun c => c.play.verdict.isSome = true ∨ c.session.isConnected = false)
      (fun hm _ => Or.imp hm.decided hm.unlinked) (fun _ => .inr rfl)
  intro hover
  cases hs with
  | closes hc => exact hkeeps (.inr hc)
  | judges _ _ hv => exact hkeeps (.inl (by rw [hv]; rfl))
  | fails => exact .inr rfl
  | parts | parted | ended => exact hkeeps (h rfl)
  | opens | takes | compares | reports | lives | spawns | keeps | shows | showed => cases hover

/-- A verdict will be logged, unless the line drops before it is looked at. -/
inductive Hopes (c : Duelist) (stop : Stop) : Prop
  | heard (hv : c.play.verdict.isSome = true)
  | takes (ht : c.errand.isTaking = true) (ho : c.Owed)
  | waits (hs : stop.isOver = false) (hc : c.session.isConnected = true) (ho : c.Owed)

/-- No verdict will be logged: none was heard, and nothing is taken any more. -/
def Misses (c : Duelist) : Prop := c.unaware = true ∧ c.session.isConnected = false

theorem Misses.step (h : Misses c) (hs : Steps c stop c' stop' seen) : Misses c' := by
  refine hs.lasts (P := Misses) (fun hm hp h => ?_) (fun h => ⟨h.1, rfl⟩) h
  exact ⟨hm.unaware (fun he => absurd ((hp he).symm.trans h.2) nofun) h.1, hm.unlinked h.2⟩

theorem Hopes.goOn (ht : c.errand.isTaking = true) (ho : c.Owed) (stop : Stop) : Hopes c.goOn stop := by
  obtain hv | ⟨ht', ho'⟩ := Duelist.owed_goOn ht ho
  · exact .heard hv
  · exact .takes ht' ho'

theorem Hopes.step (h : Hopes c stop) (hf : fits stop c.errand = true)
    (hs : Steps c stop c' stop' seen) : Hopes c' stop' := by
  cases h with
  | heard hv => exact .heard (hs.decided hv)
  | takes ht ho =>
    obtain ⟨n, he⟩ : ∃ n, c.errand = .takes n := by
      cases he : c.errand <;> first | exact ⟨_, rfl⟩ | (rw [he] at ht; cases ht)
    obtain ⟨before, rfl⟩ := drains_of_takes (he ▸ hf)
    cases hs with
    | takes => exact .goOn ht ho _
    | judges _ hidle | compares _ hidle => rw [hidle] at he; cases he
  | waits hover hc ho =>
    have hquiet {c c' : Duelist} {e : Duelist.Event} (hm : Duelist.Moves c e c') (he : e ≠ .drops)
        (ht : c.errand.isTaking = false) (hp : c.errand ≠ .parts) (ho : c.Owed)
        (hc : c.session.isConnected = true) : c'.Owed ∧ c'.session.isConnected = true :=
      ⟨hm.owed ht hp ho, hm.still_linked he hp hc⟩
    have hidle (he : c.errand = .idle) : c.errand.isTaking = false ∧ c.errand ≠ .parts := by
      simp [he, Errand.isTaking]
    cases hs with
    | opens =>
      have he := idle_of_fits hf (.inl rfl)
      rw [Duelist.next_process he]
      exact .takes rfl ho
    | closes hc' => rw [hc] at hc'; cases hc'
    | takes before he =>
      exact .goOn (taking_of_drains hf he) ho _
    | judges _ _ hv =>
      exact .heard ((Duelist.next_moves c .leaves).decided (by rw [hv]; rfl))
    | compares | lives | showed => exact .waits rfl hc ho
    | reports =>
      have he := hidle (idle_of_fits hf (.inr (.inl rfl)))
      have h := hquiet (Duelist.next_moves c .reports) (by simp) he.1 he.2 ho hc
      exact .waits rfl h.2 h.1
    | @fails f hf' =>
      rw [Duelist.reportDeath_eq, hc] at hf'
      cases hd : c.play.deathReported <;> simp [hd] at hf'
    | spawns =>
      have hi := idle_of_fits hf (.inr (.inr rfl))
      have he := hidle hi
      have h := hquiet (Duelist.next_moves c (.turns c.play.arena.spawn.2)) (by simp) he.1 he.2 ho hc
      have he' : (c.next (.turns c.play.arena.spawn.2)).errand = .idle := by
        simp only [Duelist.next, hi, if_true]
      have h' := hquiet (Duelist.next_moves _ .sync) (by simp) (by rw [he']; rfl) (by simp [he']) h.1 h.2
      exact .waits rfl h'.2 h'.1
    | keeps =>
      have he := hidle (idle_of_fits hf (.inr (.inr rfl)))
      have h := hquiet (Duelist.next_moves c .sync) (by simp) he.1 he.2 ho hc
      exact .waits rfl h.2 h.1
    | shows =>
      have he : c.errand.isTaking = false ∧ c.errand ≠ .parts := by
        cases hc : c.errand <;> simp_all [fits, Errand.isTaking]
      have h := hquiet c.goOn_moves (by simp) he.1 he.2 ho hc
      exact .waits rfl h.2 h.1
    | parts | parted | ended => cases hover

/-- The observer is in a match, has heard no verdict and takes no messages. -/
def unaware (w : Vigil) : Bool :=
  match w.phase with
  | .plays c _ => c.unaware
  | _ => false

/-- In the course of `es` the line drops at a moment when the observer has heard no verdict and takes no
messages. -/
def Slips (w : Vigil) (es : List Event) : Prop :=
  ∃ before after, es = before ++ .drops :: after ∧ (w.run before).unaware = true

theorem not_slips_nil (w : Vigil) : ¬ w.Slips [] := by
  rintro ⟨before, after, hes, -⟩
  cases before <;> cases hes

theorem slips_cons {e : Event} :
    w.Slips (e :: es) ↔ e = .drops ∧ w.unaware = true ∨ (w.next e).Slips es := by
  constructor
  · rintro ⟨before, after, hes, hu⟩
    cases before with
    | nil =>
      cases hes
      exact .inl ⟨rfl, hu⟩
    | cons first before =>
      cases hes
      exact .inr ⟨before, after, rfl, hu⟩
  · rintro (⟨rfl, hu⟩ | ⟨before, after, rfl, hu⟩)
    · exact ⟨[], es, rfl, hu⟩
    · exact ⟨e :: before, after, rfl, hu⟩

instance decidableSlips : (w : Vigil) → (es : List Event) → Decidable (w.Slips es)
  | w, [] => .isFalse (not_slips_nil w)
  | w, e :: es =>
    have : Decidable ((w.next e).Slips es) := decidableSlips _ es
    decidable_of_iff' _ slips_cons

theorem Hopes.arrives (h : Hopes c stop) (n : Notice) : Hopes (c.next (.arrives n)) stop := by
  have howed (ho : c.Owed) : (c.next (.arrives n)).Owed := Duelist.owed_arrives.mpr (.inl ho)
  cases h with
  | heard hv => exact .heard hv
  | takes ht ho => exact .takes ht (howed ho)
  | waits hs hc ho => exact .waits hs hc (howed ho)

theorem Hopes.drops (h : Hopes c stop) (hu : c.unaware = false) : Hopes (c.next .drops) stop := by
  obtain hv | ht := Duelist.aware_iff.mp hu
  · exact .heard hv
  · have hends := c.session.lineEnds_spec.2.2.2
    have howed (ho : c.Owed) : (c.next .drops).Owed := by
      change decisions (c.session.lineEnds.takes c.session.lineEnds.inbox) ≠ []
      rwa [hends]
    cases h with
    | heard hv => exact .heard hv
    | takes _ ho | waits _ _ ho => exact .takes ht (howed ho)

theorem Misses.arrives (h : Misses c) (n : Notice) : Misses (c.next (.arrives n)) := h

theorem Misses.drops (hu : c.unaware = true) : Misses (c.next .drops) :=
  ⟨hu, c.session.lineEnds_unlinked⟩

/-- The observer is in a match, and stands as `P` says. -/
def Stands (w : Vigil) (P : Duelist → Stop → Prop) : Prop :=
  ∃ c stop, w.phase = .plays c stop ∧ fits stop c.errand = true ∧ P c stop

/-- What every step brings about, and what arrives and the end of the line, holds after an event. -/
theorem Stands.next {P Q : Duelist → Stop → Prop} (h : w.Stands P) (e : Event)
    (hstep : ∀ {c stop c' stop' seen}, e.isStep = true → P c stop → fits stop c.errand = true →
      Steps c stop c' stop' seen → Q c' stop')
    (harrives : ∀ {c stop} n, e = .arrives n → P c stop → Q (c.next (.arrives n)) stop)
    (hdrops : ∀ {c stop}, e = .drops → w.phase = .plays c stop → P c stop → Q (c.next .drops) stop) :
    (w.next e).Stands Q := by
  obtain ⟨phase, log⟩ := w
  obtain ⟨c, stop, hphase, hf, hp⟩ := h
  obtain rfl : phase = .plays c stop := hphase
  cases e with
  | goesOn now beat =>
    have hs := play_steps c beat stop
    exact ⟨_, _, rfl, hs.fits hf, hstep rfl hp hf hs⟩
  | arrives n => exact ⟨_, _, rfl, hf, harrives n rfl hp⟩
  | drops => exact ⟨_, _, rfl, hf, hdrops rfl rfl hp⟩

theorem Stands.misses_run (h : w.Stands fun c _ => Misses c) (es : List Event) :
    (w.run es).Stands fun c _ => Misses c := by
  induction es generalizing w with
  | nil => exact h
  | cons e es ih =>
    exact ih (h.next e (fun _ h _ hs => h.step hs) (fun n _ h => h.arrives n) fun _ _ h => .drops h.1)

/-- A verdict that waits while the line is up is missed if the line drops at the wrong time, and only then. -/
theorem Stands.hopes_run (h : w.Stands Hopes) (es : List Event) :
    (w.Slips es → (w.run es).Stands fun c _ => Misses c) ∧
      (¬ w.Slips es → (w.run es).Stands Hopes) := by
  induction es generalizing w with
  | nil => exact ⟨fun hslips => absurd hslips (not_slips_nil w), fun _ => h⟩
  | cons e es ih =>
    rw [slips_cons]
    by_cases hnow : e = .drops ∧ w.unaware = true
    · refine ⟨fun _ => ?_, fun hnot => absurd (.inl hnow) hnot⟩
      obtain ⟨rfl, hu⟩ := hnow
      have hmissed : (w.next .drops).Stands fun c _ => Misses c := by
        refine h.next .drops (fun he => nomatch he) (fun _ he => nomatch he) fun _ hphase _ => ?_
        simp only [unaware, hphase] at hu
        exact .drops hu
      exact hmissed.misses_run es
    · have hlater : (w.next e).Stands Hopes := by
        refine h.next e (fun _ h hf hs => h.step hf hs) (fun n _ h => h.arrives n)
          fun he hphase h => h.drops ?_
        by_contra hu
        exact hnow ⟨he, by simpa only [unaware, hphase, Bool.not_eq_false] using hu⟩
      rw [or_iff_right hnow]
      exact ih hlater

theorem excused_next (h : ∀ c stop, w.phase = .plays c stop → Excused c stop) (e : Event) :
    ∀ c stop, (w.next e).phase = .plays c stop → Excused c stop := by
  obtain ⟨phase, log⟩ := w
  intro c stop hphase
  cases phase with
  | plays c₀ stop₀ =>
    have h : Excused c₀ stop₀ := h c₀ stop₀ rfl
    cases e with
    | goesOn now beat =>
      cases hphase
      exact h.step (play_steps c₀ beat stop₀)
    | arrives n =>
      cases hphase
      exact h
    | drops =>
      cases hphase
      exact fun _ => .inr c₀.session.lineEnds_unlinked
  | fails s => cases e <;> cases hphase
  | joins d =>
    cases e with
    | goesOn now beat =>
      -- a match begins in front of the first look at the line
      have hjoin : (join d now).1 = .plays c stop := hphase
      have htop : stop = .top := by
        unfold join at hjoin
        split at hjoin
        · cases hjoin
        · cases hjoin
        · split at hjoin <;> cases hjoin
          rfl
      rw [htop]
      exact nofun
    | arrives n => cases hphase
    | drops => cases hphase

theorem excused_run (o : Observer.Options) (now : Nat) (s : Session) (es : List Event) :
    ∀ c stop, ((start o now s).run es).phase = .plays c stop → Excused c stop := by
  induction es using List.reverseRecOn with
  | nil =>
    intro c stop hphase
    simp [run, start] at hphase
  | append_singleton es e ih =>
    rw [run_concat]
    exact excused_next ih e

/-- How many steps it is at most from the next look at the line to the end of the log, if nothing arrives. -/
def fromTop (c : Duelist) : Nat := c.session.inbox.length + 5

/-- How many steps it is at most to the end of the log. A verdict waits, or none comes any more. -/
def toGo (c : Duelist) : Stop → Nat
  | .top => fromTop c
  | .drains _ => if c.unaware then maxChanges + 5 + fromTop c else todo c + 2
  | .reports => maxChanges + 4 + fromTop c
  | .spawns => maxChanges + 3 + fromTop c
  | .shows =>
    match c.errand with
    | .shows _ rest => rest.length + 2 + fromTop c
    | _ => 1 + fromTop c
  | .parts => if c.errand = .idle then 1 else 2
  | .ended _ => 0

theorem ended_of_toGo (h : toGo c stop = 0) : ∃ code, stop = .ended code := by
  unfold toGo fromTop todo at h
  cases stop with
  | ended code => exact ⟨code, rfl⟩
  | top | reports | spawns => dsimp only at h; omega
  | drains | parts | shows => dsimp only at h; split at h <;> omega

theorem toGo_parts_lt (he : c.errand = .idle) (hs : 2 < toGo c stop) :
    toGo (c.next .leaves) .parts < toGo c stop := by
  have hnext : (c.next .leaves).errand = .parts := by
    simp only [Duelist.next, he, if_true]
  unfold toGo at hs ⊢
  rw [hnext]
  exact hs

/-- To show what has changed takes no longer than it was expected to. -/
theorem toGo_shows_le (he : c.errand = .idle) :
    toGo (c.next .sync) .shows ≤ maxChanges + 2 + fromTop c := by
  have hpending := length_pending_le c.play
  simp only [Duelist.next, he, if_true]
  split
  · simp only [toGo, fromTop]
    omega
  · simp only [toGo, fromTop]
    omega

/-- A step brings the observer nearer to the end. -/
theorem toGo_step (h : Hopes c stop ∨ Misses c) (hf : fits stop c.errand = true)
    (hs : Steps c stop c' stop' seen) (hover : ∀ code, stop ≠ .ended code) :
    toGo c' stop' < toGo c stop := by
  cases hs with
  | opens =>
    have he := idle_of_fits hf (.inl rfl)
    rw [Duelist.next_process he]
    simp [toGo, fromTop, todo, Duelist.unaware, Errand.isTaking]
  | closes =>
    refine toGo_parts_lt (idle_of_fits hf (.inl rfl)) ?_
    simp only [toGo, fromTop]
    omega
  | takes before he =>
    have ht : c.errand.isTaking = true := taking_of_drains hf he
    have hless := todo_goOn hf he
    have hlater : c.goOn.unaware = false := by
      obtain hhopes | hmiss := h
      · cases hhopes with
        | heard hv => exact Duelist.aware_iff.mpr (.inl (c.goOn_moves.decided hv))
        | takes _ ho | waits _ _ ho =>
          obtain hv | ⟨ht', -⟩ := Duelist.owed_goOn ht ho
          · exact Duelist.aware_iff.mpr (.inl hv)
          · exact Duelist.aware_iff.mpr (.inr ht')
      · rw [(Duelist.unaware_iff.mp hmiss.1).2] at ht
        cases ht
    have hnow : c.unaware = false := Duelist.aware_iff.mpr (.inr ht)
    simp only [toGo, hlater, hnow, Bool.false_eq_true, if_false]
    omega
  | judges before he hv =>
    refine toGo_parts_lt he ?_
    have hnow : c.unaware = false := Duelist.aware_iff.mpr (.inl (by rw [hv]; rfl))
    simp [toGo, hnow, todo, he]
  | compares before he hv =>
    have hnow : c.unaware = true := Duelist.unaware_iff.mpr ⟨hv, by rw [he]; rfl⟩
    simp only [toGo, hnow, if_true]
    omega
  | reports =>
    have hinbox : (c.next .reports).session.inbox = c.session.inbox := by
      have hm := Duelist.next_moves c .reports
      generalize c.next .reports = d at hm
      cases hm <;> rfl
    simp only [toGo, fromTop, hinbox]
    omega
  | lives =>
    simp only [toGo]
    omega
  | fails =>
    simp only [toGo]
    omega
  | spawns =>
    have he := idle_of_fits hf (.inr (.inr rfl))
    have hnext : c.next (.turns c.play.arena.spawn.2) =
        { c with play := { c.play with arena := c.play.arena.spawn.2 } } := if_pos he
    rw [hnext]
    refine (toGo_shows_le (c := { c with play := { c.play with arena := c.play.arena.spawn.2 } })
      he).trans_lt ?_
    simp only [toGo, fromTop]
    omega
  | keeps =>
    refine (toGo_shows_le (idle_of_fits hf (.inr (.inr rfl)))).trans_lt ?_
    simp only [toGo]
    omega
  | shows he =>
    have hm := c.goOn_moves
    generalize c.goOn = d at hm ⊢
    generalize hgoes : Duelist.Event.goesOn = e at hm
    cases hm with
    | shows he' => simp [toGo, he', fromTop]
    | showed he' => simp [toGo, he', fromTop]
    | stays _ hi => exact absurd (hi hgoes.symm) he
    | skips he' | hears he' | took he' | parts he' =>
      rw [he'] at hf
      cases hf
    | turns | begins | hides | opens | reports | bids | arrives | drops => cases hgoes
  | showed he =>
    simp only [toGo, he]
    omega
  | parts he =>
    have hgone : c.goOn.errand = .idle := by
      cases hc : c.errand <;> simp_all [fits, Duelist.goOn]
    simp [toGo, he, hgone]
  | parted he => simp [toGo, he]
  | ended code => exact absurd rfl (hover code)

/-- What arrives takes one step more at most. -/
theorem toGo_meanwhile {s : Session} (hs : s.inbox.length ≤ c.session.inbox.length + 1)
    (stop : Stop) : toGo { c with session := s } stop ≤ toGo c stop + 1 := by
  have hsame : ({ c with session := s } : Duelist).unaware = c.unaware := rfl
  unfold toGo fromTop todo
  rw [hsame]
  cases stop with
  | drains => dsimp only; split <;> (try split) <;> omega
  | shows => dsimp only; split <;> omega
  | parts => dsimp only; split <;> omega
  | top | reports | spawns | ended => dsimp only; omega

/-- `es` has enough steps for the observer to come to its end. -/
def Suffices (c : Duelist) (stop : Stop) (es : List Event) : Prop :=
  (∃ code, stop = .ended code) ∨
    toGo c stop + es.countP (!·.isStep) ≤ es.countP (·.isStep)

theorem Suffices.meanwhile {e : Event} {s : Session} (h : Suffices c stop (e :: es))
    (he : e.isStep = false) (hs : s.inbox.length ≤ c.session.inbox.length + 1) :
    Suffices { c with session := s } stop es := by
  refine h.imp_right fun hn => ?_
  have hless := toGo_meanwhile hs stop
  have hothers : (e :: es).countP (!·.isStep) = es.countP (!·.isStep) + 1 := by simp [he]
  have hsteps : (e :: es).countP (·.isStep) = es.countP (·.isStep) := by simp [he]
  omega

theorem Suffices.step {e : Event} (h : Suffices c stop (e :: es)) (he : e.isStep = true)
    (hp : Hopes c stop ∨ Misses c) (hf : fits stop c.errand = true)
    (hs : Steps c stop c' stop' seen) : Suffices c' stop' es := by
  by_cases hover : ∃ code, stop = .ended code
  · obtain ⟨code, rfl⟩ := hover
    cases hs
    exact .inl ⟨code, rfl⟩
  · have hless := toGo_step hp hf hs (not_exists.mp hover)
    have hothers : (e :: es).countP (!·.isStep) = es.countP (!·.isStep) := by simp [he]
    have hsteps : (e :: es).countP (·.isStep) = es.countP (·.isStep) + 1 := by simp [he]
    have hn := h.resolve_left hover
    exact .inr (by omega)

/-- An observer who goes on comes to its end. -/
theorem Stands.ends
    (h : w.Stands fun c stop => (Hopes c stop ∨ Misses c) ∧ Suffices c stop es) :
    ∃ c code, (w.run es).phase = .plays c (.ended code) := by
  induction es generalizing w with
  | nil =>
    obtain ⟨c, stop, hphase, -, -, hn⟩ := h
    obtain ⟨code, rfl⟩ := hn.elim id fun hn => ended_of_toGo (Nat.le_zero.mp hn)
    exact ⟨c, code, hphase⟩
  | cons e es ih =>
    refine ih (h.next e ?_ ?_ ?_)
    · intro c stop c' stop' seen he h hf hs
      exact ⟨h.1.imp (·.step hf hs) (·.step hs), h.2.step he h.1 hf hs⟩
    · rintro c stop n rfl h
      exact ⟨h.1.imp (·.arrives n) (·.arrives n), h.2.meanwhile rfl (by simp [Session.hear])⟩
    · rintro c stop rfl - h
      refine ⟨?_, h.2.meanwhile rfl (Duelist.length_lineEnds c.session)⟩
      cases hu : c.unaware with
      | true => exact .inr (.drops hu)
      | false => exact h.1.imp (·.drops hu) fun h => .drops h.1

theorem Hopes.verdict (h : Hopes c stop) (hf : fits stop c.errand = true) (hs : stop.isOver = true) :
    c.play.verdict.isSome = true := by
  cases h with
  | heard hv => exact hv
  | takes ht => cases stop <;> cases he : c.errand <;> simp_all [fits, Errand.isTaking, Stop.isOver]
  | waits hs' => rw [hs] at hs'; cases hs'

/-- The log has the verdict that was heard, and none if none was. -/
theorem Chronicle.verdict (h : Chronicle c stop log) :
    (c.play.verdict = none → ∀ v won, .gameOver v won ∉ log) ∧
      (draining stop = false → ∀ v, c.play.verdict = some v →
        ∃ won, log.getLast? = some (.gameOver v won)) := by
  obtain ⟨seed, roster, news, rfl, htracks⟩ := h.entries
  constructor
  · intro hv v won hmem
    rw [ending_of_undecided hv, List.append_nil, List.mem_cons] at hmem
    obtain hready | hnews := hmem
    · cases hready
    · cases htracks.only _ hnews
  · intro hs v hv
    rw [(seen_of_drained hs c).2, verdictReports_some hv, ← List.cons_append, List.getLast?_concat]
    exact ⟨_, rfl⟩

/-- A frame that begins with the line up logs a verdict if one waits. -/
theorem frame_of_owed (p : Play) (beat : Observer.Beat) {s : Session} (hc : s.isConnected = true)
    (ho : decisions (s.takes s.inbox) ≠ []) :
    ∃ v won, (Observer.frame p s beat).1.getLast? = some (.gameOver v won) := by
  have hplay : (p.process s).2.1 = (s.takes s.inbox).foldl Play.receive p :=
    (processAll_spec s.inbox p s).2.1
  have hsome : (p.process s).2.1.verdict.isSome = true := by
    rw [hplay]
    exact receiveAll_decides ho
  obtain ⟨v, hv⟩ := Option.isSome_iff_exists.mp hsome
  rw [Observer.frame_decided hc rfl hv, verdictReports_some hv, List.getLast?_concat]
  exact ⟨_, _, rfl⟩

/-- A verdict arrives while the line is up. The observer leaves without having logged any if the line drops
while it takes no messages and has heard no verdict; otherwise a verdict is the last entry of its log when it
is done. And it is done some time, if it goes on. An observer that is run look by look and frame by frame is one
of these: a frame that begins with the line still up logs a verdict, and one that begins when the line has
dropped logs nothing. -/
theorem logged_unless_slips (o : Observer.Options) (now : Nat) (s : Session) (es : List Event)
    (c : Duelist) (stop : Stop) (n : Notice) (v : Verdict)
    (playing : ((start o now s).run es).phase = .plays c stop)
    (linked : c.session.isConnected = true)
    (told : (c.session.accept n).bind verdictIn? = some v) :
    let w := ((start o now s).run es).next (.arrives n)
    (∀ es', w.Slips es' → ∀ v won, .gameOver v won ∉ (w.run es').log) ∧
      (∀ es', ¬ w.Slips es' → ∀ c' code, (w.run es').phase = .plays c' (.ended code) →
        ∃ v won, (w.run es').log.getLast? = some (.gameOver v won)) ∧
      (∃ k, ∀ es' : List Event, k + es'.countP (!·.isStep) ≤ es'.countP (·.isStep) →
        ∃ c' code, (w.run es').phase = .plays c' (.ended code)) ∧
      (∀ looks : List Event, ∃ es',
        Agrees ((start o now s).run es') ((Lookout.start o now s).run looks)) ∧
      ∀ (p : Play) (beat : Observer.Beat),
        (∃ v won, (Observer.frame p (c.session.hear n) beat).1.getLast? = some (.gameOver v won)) ∧
        (Observer.frame p (c.session.hear n).lineEnds beat).1 = [] := by
  intro w
  have hkept : ((start o now s).run es).Kept := Kept.run (w := start o now s) rfl es
  have hexcused := excused_run o now s es c stop playing
  have hkeptAll (es' : List Event) : (w.run es').Kept := (hkept.next _).run es'
  have howed : (c.next (.arrives n)).Owed :=
    Duelist.owed_arrives.mpr (.inr (Option.isSome_iff_exists.mpr ⟨v, told⟩))
  have hhopes : w.Stands Hopes := by
    have hw : w.phase = .plays (c.next (.arrives n)) stop := by
      simp only [w, next, playing]
    refine ⟨_, _, hw, (hkept.plays playing).2, ?_⟩
    cases hover : stop.isOver with
    | false => exact .waits hover linked howed
    | true => exact .heard ((hexcused hover).resolve_right (by simp [linked]))
  refine ⟨fun es' hslips => ?_, fun es' hslips c' code hphase => ?_, ?_, run_agrees o now s,
    fun p beat => ⟨frame_of_owed p beat linked howed, ?_⟩⟩
  · obtain ⟨c', stop', hphase, -, hmiss⟩ := (hhopes.hopes_run es').1 hslips
    exact ((hkeptAll es').plays hphase).1.verdict.1 (Duelist.unaware_iff.mp hmiss.1).1
  · obtain ⟨c'', stop', hphase', hf, hhopes'⟩ := (hhopes.hopes_run es').2 hslips
    rw [hphase] at hphase'
    cases hphase'
    obtain ⟨v', hv'⟩ := Option.isSome_iff_exists.mp (hhopes'.verdict hf rfl)
    exact ⟨v', ((hkeptAll es').plays hphase).1.verdict.2 rfl v' hv'⟩
  · obtain ⟨c₁, stop₁, hphase, hf, hh⟩ := hhopes
    refine ⟨toGo c₁ stop₁, fun es' hn => ?_⟩
    exact Stands.ends ⟨c₁, stop₁, hphase, hf, .inl hh, .inr hn⟩
  · rw [Observer.frame_unlinked (c.session.hear n).lineEnds_unlinked]

/-- The verdict arrives while the observer shows its half, and the line drops as the next frame takes it. -/
theorem logged_in_last_frame :
    let told := List.map fun m => Event.arrives (.message 1 m)
    let steps (n : Nat) := List.replicate n (Event.goesOn 0 ⟨false, false⟩)
    let es := told [.accepted, .assignId 7, .roomJoinAccepted, .bagSeed 5, .allPlayersReady] ++ steps 13
    let es' := steps 4 ++ .drops :: steps 6
    let w := ((start ⟨0, none⟩ 0 Session.fresh.connect).run es).next
      (.arrives (.message 1 (.gameOver ⟨7, 9⟩)))
    ¬ w.Slips es' ∧ ∃ v won, (w.run es').log.getLast? = some (.gameOver v won) := by
  intro told steps es es' w
  let w₀ := (start ⟨0, none⟩ 0 Session.fresh.connect).run es
  have hslips : ¬ w.Slips es' := by decide +kernel
  have hends : (match (w.run es').phase with
      | .plays _ (.ended _) => true
      | _ => false) = true := by decide +kernel
  have hplays : (match w₀.phase with
      | .plays c _ => decide (c.session.isConnected = true ∧
          (c.session.accept (.message 1 (.gameOver ⟨7, 9⟩))).bind verdictIn? = some ⟨7, 9⟩)
      | _ => false) = true := by decide +kernel
  have hlogged := logged_unless_slips ⟨0, none⟩ 0 Session.fresh.connect es
  refine ⟨hslips, ?_⟩
  cases hphase : w₀.phase with
  | joins | fails => rw [hphase] at hplays; cases hplays
  | plays c stop =>
    rw [hphase] at hplays
    obtain ⟨hc, hv⟩ := of_decide_eq_true hplays
    cases hphase' : (w.run es').phase with
    | joins | fails => rw [hphase'] at hends; cases hends
    | plays c' stop' =>
      rw [hphase'] at hends
      cases stop' with
      | ended code => exact (hlogged c stop _ ⟨7, 9⟩ hphase hc hv).2.1 es' hslips c' code hphase'
      | _ => cases hends

/-- Not every verdict that arrives before the end of the line is logged, although no death is reported: between
two frames both may come, and the next frame finds the line down and looks no further. -/
theorem verdict_left_unread :
    (Observer.frame (.start (Arena.start 5).spawn.2 7)
        (Session.fresh.connect.hear (.message 1 (.gameOver ⟨7, 9⟩))).lineEnds ⟨false, false⟩).1 = [] ∧
    ¬ ∀ (o : Observer.Options) (now : Nat) (s : Session) (es es' : List Event) (c c' : Duelist)
      (stop : Stop) (n : Notice) (v : Verdict) (code : Nat),
      ((start o now s).run es).phase = .plays c stop → c.session.isConnected = true →
      (c.session.accept n).bind verdictIn? = some v →
      (∀ t spawns, Event.goesOn t ⟨true, spawns⟩ ∉ es ++ es') →
      ((((start o now s).run es).next (.arrives n)).run es').phase = .plays c' (.ended code) →
      ∃ v won, .gameOver v won ∈ ((((start o now s).run es).next (.arrives n)).run es').log := by
  refine ⟨by decide, fun hall => ?_⟩
  let told := List.map fun m => Event.arrives (.message 1 m)
  let steps (n : Nat) := List.replicate n (Event.goesOn 0 ⟨false, false⟩)
  let es := told [.accepted, .assignId 7, .roomJoinAccepted, .bagSeed 5, .allPlayersReady] ++ steps 16
  let es' := .drops :: steps 4
  let n : Notice := .message 1 (.gameOver ⟨7, 9⟩)
  let w₀ := (start ⟨0, none⟩ 0 Session.fresh.connect).run es
  let w := (w₀.next (.arrives n)).run es'
  have hends : (match w.phase with
      | .plays _ (.ended _) => true
      | _ => false) = true := by decide +kernel
  have hplays : (match w₀.phase with
      | .plays c _ => decide (c.session.isConnected = true ∧
          (c.session.accept n).bind verdictIn? = some ⟨7, 9⟩)
      | _ => false) = true := by decide +kernel
  have hunlogged : (w.log.any fun r => match r with
      | .gameOver _ _ => true
      | _ => false) = false := by decide +kernel
  have hlives : ∀ t spawns, Event.goesOn t ⟨true, spawns⟩ ∉ es ++ es' := by
    intro t spawns
    simp [es, es', told, steps]
  cases hphase : w₀.phase with
  | joins | fails => rw [hphase] at hplays; cases hplays
  | plays c stop =>
    rw [hphase] at hplays
    obtain ⟨hc, hv⟩ := of_decide_eq_true hplays
    cases hphase' : w.phase with
    | joins | fails => rw [hphase'] at hends; cases hends
    | plays c' stop' =>
      rw [hphase'] at hends
      cases stop' with
      | ended code =>
        obtain ⟨v, won, hmem⟩ := hall ⟨0, none⟩ 0 Session.fresh.connect es es' c c' stop n ⟨7, 9⟩ code
          hphase hc hv hlives hphase'
        exact absurd rfl (List.any_eq_false.mp hunlogged _ hmem)
      | _ => cases hends

end Vigil
end BlockDuel.Seat
