import BlockDuel.Proofs.Link.Passage
import BlockDuel.Proofs.Wire.Chunks

/-!
What a link tells its owner. It greets with its peer if that was asked for, reports the messages of what
it has read, and says once, and last, that it is lost, which is when it is closed. The phase never goes
back.
-/
namespace BlockDuel
namespace Link
open Wire

/-- The first notice of a link that announces itself. -/
def greeting (id : PlayerId) (announce : Bool) : List Notice := if announce then [.connected id] else []

/-- The last notice of a link that is closed. -/
def farewell (id : PlayerId) (p : Phase) : List Notice := if p = .closed then [.lost id] else []

/-- The owner has been told of just the messages `ms`, and of the end if it has come. -/
structure Tells (id : PlayerId) (announce : Bool) (l : Link) (ms : List Message) : Prop where
  own : l.id = id
  notices : l.notices = greeting id announce ++ ms.map (.message id) ++ farewell id l.phase
  reported : l.reported = decide (l.phase = .closed)

/-- The owner has been told of the messages in what was read, and a reader that waits holds the rest. -/
structure Reports (id : PlayerId) (announce : Bool) (l : Link) (heard : Bytes) : Prop where
  tells : l.Tells id announce (drain heard).messages
  waiting : ∀ pending, l.reader = .waiting pending →
    pending = (drain heard).rest ∧ (drain heard).fault? = none
  stopped : l.reader = .stopped → l.phase = .closed

variable {id : PlayerId} {announce : Bool} {l l' : Link} {heard bs out : Bytes} {ms : List Message}

theorem farewell_live (live : l.phase ≠ .closed) : farewell id l.phase = [] := if_neg live

theorem farewell_closed (closed : l.phase = .closed) : farewell id l.phase = [.lost id] :=
  if_pos closed

theorem spawn_phase (id : PlayerId) (limit : Nat) (announce : Bool) :
    (spawn id limit announce).phase = .opened := rfl

theorem spawn_reports (id : PlayerId) (limit : Nat) (announce : Bool) :
    (spawn id limit announce).Reports id announce [] := by
  have hd : drain [] = ⟨[], none, []⟩ := drain_nil
  refine ⟨⟨rfl, ?_, rfl⟩, ?_, fun h => nomatch h⟩
  · rw [hd, farewell_live (by simp [spawn_phase])]
    simp [spawn, greeting]
  · intro pending hr
    cases hr
    rw [hd]
    exact ⟨rfl, rfl⟩

theorem Tells.finish (h : l.Tells id announce ms) : l.finish.Tells id announce ms := by
  refine ⟨h.own, ?_, ?_⟩
  · rw [farewell_closed finish_phase]
    change (if l.reported then l.notices else l.notices ++ [.lost l.id]) = _
    rw [h.reported, h.notices, h.own]
    by_cases hp : l.phase = .closed
    · rw [farewell_closed hp]
      simp [hp]
    · rw [farewell_live hp]
      simp [hp]
  · rw [finish_phase]
    rfl

theorem Reports.finish (h : l.Reports id announce heard) : l.finish.Reports id announce heard :=
  ⟨h.tells.finish, h.waiting, fun _ => finish_phase⟩

/-- The reader stops for good and the link ends. -/
theorem Tells.stop (h : l.Tells id announce (drain heard).messages) :
    { l with reader := .stopped }.finish.Reports id announce heard := by
  have hstop : { l with reader := .stopped }.Tells id announce (drain heard).messages :=
    ⟨h.own, h.notices, h.reported⟩
  exact ⟨hstop.finish, (fun _ hr => nomatch hr), fun _ => finish_phase⟩

/-- The same as far as the owner is told, and the reader. -/
structure Alike (l l' : Link) : Prop where
  id : l'.id = l.id
  closed : l'.phase = .closed ↔ l.phase = .closed
  reported : l'.reported = l.reported
  notices : l'.notices = l.notices
  reader : l'.reader = l.reader

theorem Reports.of_alike (h : l.Reports id announce heard) (same : Alike l l') :
    l'.Reports id announce heard := by
  have hfarewell : farewell id l'.phase = farewell id l.phase := by
    unfold farewell
    simp only [same.closed]
  refine ⟨⟨same.id.trans h.tells.own, ?_, ?_⟩, ?_, ?_⟩
  · rw [same.notices, h.tells.notices, hfarewell]
  · rw [same.reported, h.tells.reported]
    simp only [same.closed]
  · rw [same.reader]
    exact h.waiting
  · rw [same.reader, same.closed]
    exact h.stopped

theorem alike_writerStops (l : Link) : Alike l l.writerStops := by
  rw [writerStops_eq]
  exact ⟨rfl, Iff.rfl, rfl, rfl, rfl⟩

theorem alike_send (l : Link) (m : Message) : Alike l (l.send m) := by
  unfold send
  split <;> exact ⟨rfl, Iff.rfl, rfl, rfl, rfl⟩

theorem alike_shutdown (l : Link) : Alike l l.shutdown := by
  unfold shutdown
  split
  · next h =>
    have hp : l.phase = .opened := isOpen_iff.mp h
    refine ⟨rfl, ?_, rfl, rfl, rfl⟩
    change l.phase.raise .closing = .closed ↔ _
    rw [hp]
    decide
  · exact ⟨rfl, Iff.rfl, rfl, rfl, rfl⟩

theorem alike_takeOrder (l : Link) (now : Nat) : Alike l (l.takeOrder now) := by
  unfold takeOrder
  split <;> exact ⟨rfl, Iff.rfl, rfl, rfl, rfl⟩

theorem alike_wrote (l : Link) (n : Nat) : Alike l (l.wrote n) := by
  unfold wrote
  split
  · split <;> exact ⟨rfl, Iff.rfl, rfl, rfl, rfl⟩
  · exact ⟨rfl, Iff.rfl, rfl, rfl, rfl⟩

theorem Reports.disconnect (h : l.Reports id announce heard) :
    l.disconnect.Reports id announce heard := by
  unfold Link.disconnect
  split
  · exact h
  · next hp =>
    have hclosing : Alike l { l with phase := l.phase.raise .closing } := by
      refine ⟨rfl, ?_, rfl, rfl, rfl⟩
      change l.phase.raise .closing = .closed ↔ _
      cases hl : l.phase with
      | closed => exact absurd hl hp
      | connecting | opened | closing => decide
    exact (h.of_alike hclosing).finish

theorem Reports.received (h : l.Reports id announce heard) {pending : Bytes}
    (hr : l.reader = .waiting pending) (live : l.phase ≠ .closed) (bs : Bytes) :
    (l.received bs).Reports id announce (heard ++ bs) := by
  obtain ⟨rfl, hfault⟩ := h.waiting pending hr
  have happend := drain_append heard bs
  let d := drain ((drain heard).rest ++ bs)
  let told : Link := { l with notices := l.notices ++ d.messages.map (Notice.message l.id) }
  have htold : told.Tells id announce (drain (heard ++ bs)).messages := by
    refine ⟨h.tells.own, ?_, h.tells.reported⟩
    have hend : farewell id told.phase = [] := farewell_live live
    rw [hend, happend]
    change l.notices ++ d.messages.map (Notice.message l.id) = _
    rw [h.tells.notices, h.tells.own, farewell_live live]
    simp [d]
  unfold Link.received
  rw [hr]
  dsimp only
  split
  · exact htold.stop
  · next hd =>
    refine ⟨⟨htold.own, htold.notices, htold.reported⟩, ?_, fun hs => nomatch hs⟩
    intro pending' hr'
    cases hr'
    rw [happend]
    exact ⟨rfl, hd⟩

theorem Reports.turn (h : l.Reports id announce heard) {t : Turn} (due : t.Due l bs out) :
    (t.run l).Reports id announce (heard ++ bs) := by
  cases due with
  | received waiting live bs => exact h.received waiting live bs
  | readerStops closed =>
    rw [List.append_nil]
    exact ⟨⟨h.tells.own, h.tells.notices, h.tells.reported⟩, (fun _ hr => nomatch hr), fun _ => closed⟩
  | readEnded waiting live =>
    rw [List.append_nil]
    change l.readEnded.Reports id announce heard
    unfold readEnded
    rw [waiting]
    exact h.tells.stop
  | takeOrder _ _ _ now =>
    rw [List.append_nil]
    exact h.of_alike (alike_takeOrder l now)
  | wrote _ _ n =>
    rw [List.append_nil]
    exact h.of_alike (alike_wrote l n)
  | writeFailed writing live =>
    rw [List.append_nil]
    change l.writeFailed.Reports id announce heard
    unfold writeFailed
    rw [writing]
    exact h.finish.of_alike (alike_writerStops _)
  | @closeEnded ticket _ closing o =>
    rw [List.append_nil]
    change (l.closeEnded o).Reports id announce heard
    unfold closeEnded
    rw [closing]
    have hsettled : Alike l.finish (l.finish.settleTicket ticket o) :=
      ⟨rfl, Iff.rfl, rfl, rfl, rfl⟩
    exact (h.finish.of_alike hsettled).of_alike (alike_writerStops _)
  | writerStops =>
    rw [List.append_nil]
    exact h.of_alike (alike_writerStops l)

theorem Reports.step (h : l.Reports id announce heard) (hs : Step l bs out ms l') :
    l'.Reports id announce (heard ++ bs) := by
  cases hs with
  | turn due => exact h.turn due
  | rests =>
    rw [List.append_nil]
    exact h
  | call c =>
    rw [List.append_nil]
    cases c with
    | send m => exact h.of_alike (alike_send l m)
    | shutdown => exact h.of_alike (alike_shutdown l)
    | disconnect => exact h.disconnect

/-- The phase never goes back. -/
theorem Step.rank_le (hs : Step l bs out ms l') : l.phase.rank ≤ l'.phase.rank := by
  have htop (p : Phase) : p.rank ≤ Phase.closed.rank := by cases p <;> decide
  have hraise (p : Phase) : p.rank ≤ (p.raise .closing).rank := by cases p <;> decide
  cases hs with
  | rests => exact Nat.le_refl _
  | @turn t bs out due =>
    rcases t.run_phase (l := l) with ht | ht
    · exact Nat.le_of_eq (congrArg Phase.rank ht.symm)
    · rw [ht]
      exact htop _
  | call c =>
    cases c with
    | send m => exact Nat.le_of_eq (congrArg Phase.rank (send_phase m).symm)
    | shutdown =>
      change _ ≤ l.shutdown.phase.rank
      unfold shutdown
      split
      · exact hraise _
      · exact Nat.le_refl _
    | disconnect =>
      change _ ≤ l.disconnect.phase.rank
      unfold disconnect
      split
      · exact Nat.le_refl _
      · rw [finish_phase]
        exact htop _

theorem finish_notices (l : Link) : l.notices <+: l.finish.notices := by
  change l.notices <+: if l.reported then l.notices else l.notices ++ [.lost l.id]
  split
  · exact List.prefix_rfl
  · exact List.prefix_append _ _

theorem received_notices (l : Link) (bs : Bytes) : l.notices <+: (l.received bs).notices := by
  unfold Link.received
  split
  · exact List.prefix_rfl
  · dsimp only
    split
    · refine List.IsPrefix.trans ?_ (finish_notices _)
      exact List.prefix_append _ _
    · exact List.prefix_append _ _

/-- What the owner has been told stays told. -/
theorem Step.notices_isPrefix (hs : Step l bs out ms l') : l.notices <+: l'.notices := by
  have hsame {l'' : Link} (same : Alike l l'') : l.notices <+: l''.notices :=
    ⟨[], (List.append_nil _).trans same.notices.symm⟩
  cases hs with
  | rests => exact List.prefix_rfl
  | call c =>
    cases c with
    | send m => exact hsame (alike_send l m)
    | shutdown => exact hsame (alike_shutdown l)
    | disconnect =>
      change l.notices <+: l.disconnect.notices
      unfold Link.disconnect
      split
      · exact List.prefix_rfl
      · exact finish_notices { l with phase := l.phase.raise .closing }
  | turn due =>
    cases due with
    | readerStops => exact List.prefix_rfl
    | received _ _ bs => exact received_notices l bs
    | readEnded waiting =>
      change l.notices <+: l.readEnded.notices
      unfold readEnded
      rw [waiting]
      exact finish_notices { l with reader := .stopped }
    | takeOrder _ _ _ now => exact hsame (alike_takeOrder l now)
    | wrote _ _ n => exact hsame (alike_wrote l n)
    | writeFailed writing =>
      change l.notices <+: l.writeFailed.notices
      unfold writeFailed
      rw [writing]
      dsimp only
      rw [(alike_writerStops l.finish).notices]
      exact finish_notices l
    | @closeEnded ticket _ closing o =>
      change l.notices <+: (l.closeEnded o).notices
      unfold closeEnded
      rw [closing]
      dsimp only
      rw [(alike_writerStops (l.finish.settleTicket ticket o)).notices]
      exact finish_notices l
    | writerStops => exact hsame (alike_writerStops l)

namespace Passage

variable {p : Passage}

theorem run_reports (h : p.link.Reports id announce p.heard) (es : List Event) :
    (p.run es).link.Reports id announce (p.run es).heard :=
  run_induction (P := fun l heard _ _ => l.Reports id announce heard)
    (fun _ _ _ _ _ _ _ _ h hs => h.step hs) h es

/-- A link goes through its life once. At every moment its owner has been told of the peer, if that was
asked for, then of messages, and then, if and only if it is closed, of its end. Its phase and what the
owner has been told only ever go on from there. -/
theorem lifecycle (id : PlayerId) (limit : Nat) (announce : Bool) (capacity now : Nat)
    (es : List Event) :
    let p := (opened id limit announce capacity now).run es
    (∃ ms : List Message, p.link.notices =
      (if announce then [.connected id] else []) ++ ms.map (.message id) ++
        if p.link.phase = .closed then [.lost id] else []) ∧
    (p.link.notices.head? = some (.connected id) ↔ announce = true) ∧
    (p.link.phase = .closed ↔ .lost id ∈ p.link.notices) ∧
    ∀ es', p.link.phase.rank ≤ (p.run es').link.phase.rank ∧
      p.link.notices <+: (p.run es').link.notices := by
  intro p
  have hreports : p.link.Reports id announce p.heard :=
    run_reports (spawn_reports id limit announce) es
  have hnotices := hreports.tells.notices
  refine ⟨⟨_, hnotices⟩, ?_, ?_, ?_⟩
  · rw [hnotices]
    cases announce with
    | true => simp [greeting]
    | false =>
      cases (drain p.heard).messages with
      | nil => by_cases hp : p.link.phase = .closed <;> simp [greeting, farewell, hp]
      | cons m ms => simp [greeting]
  · rw [hnotices]
    cases announce <;> simp [greeting, farewell]
  · intro es'
    apply run_induction (p := p) (P := fun l _ _ _ =>
      p.link.phase.rank ≤ l.phase.rank ∧ p.link.notices <+: l.notices) ?_
      ⟨Nat.le_refl _, List.prefix_rfl⟩
    rintro l _ _ _ _ _ _ l' ⟨hrank, htold⟩ hs
    exact ⟨Nat.le_trans hrank hs.rank_le, htold.trans hs.notices_isPrefix⟩

end Passage
end Link
end BlockDuel
