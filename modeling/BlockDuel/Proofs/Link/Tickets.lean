import BlockDuel.Proofs.Link.Passage

/-!
The closes that the owner asks for. The first one that is asked for while the link is open is queued
behind all that was sent, and all others are refused. What calls and turns do on the writer's side is said
once. It follows that a ticket is settled for good, that only a close which the writer has reached can be
carried out, and that this is never another than the first.
-/
namespace BlockDuel
namespace Link
open Wire

/-- The writer waits for an order or carries out one for a frame. -/
def Writer.Busy : Writer → Prop
  | .idle => True
  | .writing _ _ => True
  | _ => False

variable {l l' : Link} {bs out : Bytes} {ms : List Message} {o : Outcome} {t d : Nat}

/-- The writer's side is the same, except that the link may have ended. -/
structure Aside (l l' : Link) : Prop where
  queue : l'.queue = l.queue
  writer : l'.writer = l.writer
  tickets : l'.tickets = l.tickets
  phase : l'.phase = l.phase ∨ l'.phase = .closed

theorem Aside.refl (l : Link) : Aside l l := ⟨rfl, rfl, rfl, .inl rfl⟩

theorem aside_finish (l : Link) : Aside l l.finish := ⟨rfl, rfl, rfl, .inr finish_phase⟩

theorem aside_received (l : Link) (bs : Bytes) : Aside l (l.received bs) := by
  unfold Link.received
  split
  · exact .refl l
  · dsimp only
    split
    · exact ⟨rfl, rfl, rfl, .inr finish_phase⟩
    · exact ⟨rfl, rfl, rfl, .inl rfl⟩

theorem aside_readEnded (l : Link) : Aside l l.readEnded := by
  unfold readEnded
  split
  · exact .refl l
  · exact ⟨rfl, rfl, rfl, .inr finish_phase⟩

theorem aside_disconnect (l : Link) : Aside l l.disconnect := by
  unfold Link.disconnect
  split
  · exact .refl l
  · exact ⟨rfl, rfl, rfl, .inr finish_phase⟩

/-- What a step does on the writer's side, with the octets that the stream takes and the messages that are
queued. -/
inductive Work (l : Link) : Bytes → List Message → Link → Prop
  | aside {l' : Link} (same : Aside l l') : Work l [] [] l'
  | queues (m : Message) (opened : l.phase = .opened) : Work l [] [m] (l.send m)
  | orders (opened : l.phase = .opened) : Work l [] [] l.shutdown
  | refuses (shut : l.phase ≠ .opened) : Work l [] [] l.shutdown
  | takes {r : Order} {rest : List Order} (idle : l.writer = .idle) (live : l.phase ≠ .closed)
      (queue : l.queue = r :: rest) (now : Nat) : Work l [] [] (l.takeOrder now)
  | writes {bs : Bytes} {d : Nat} (writing : l.writer = .writing bs d) (live : l.phase ≠ .closed)
      (n : Nat) : Work l (bs.take n) [] (l.wrote n)
  | stops {l' : Link} (same : Aside l l') (closed : l'.phase = .closed)
      (unreached : ∀ t d, l.writer ≠ .closing t d) : Work l [] [] l'.writerStops
  | closes {t d : Nat} (closing : l.writer = .closing t d) (o : Outcome) :
      Work l [] [] (l.closeEnded o)

theorem Step.work (hs : Step l bs out ms l') : Work l out ms l' := by
  cases hs with
  | rests => exact .aside (.refl l)
  | call c =>
    cases c with
    | send m =>
      by_cases hp : l.phase = .opened
      · have hposts : l.posts (.send m) = [m] := if_pos (isOpen_iff.mpr hp)
        rw [hposts]
        exact .queues m hp
      · have hclosed : ¬ l.isOpen = true := mt isOpen_iff.mp hp
        have hposts : l.posts (.send m) = [] := if_neg hclosed
        have hsend : Call.run l (.send m) = l := if_neg hclosed
        rw [hposts, hsend]
        exact .aside (.refl l)
    | shutdown =>
      by_cases hp : l.phase = .opened
      · exact .orders hp
      · exact .refuses hp
    | disconnect => exact .aside (aside_disconnect l)
  | turn due =>
    cases due with
    | readerStops => exact .aside ⟨rfl, rfl, rfl, .inl rfl⟩
    | received _ _ bs => exact .aside (aside_received l bs)
    | readEnded => exact .aside (aside_readEnded l)
    | takeOrder idle live queue now => exact .takes idle live queue now
    | wrote writing live n => exact .writes writing live n
    | writeFailed writing =>
      have hfailed : Turn.run l .writeFailed = l.finish.writerStops := by
        change l.writeFailed = _
        unfold writeFailed
        rw [writing]
      rw [hfailed]
      exact .stops (aside_finish l) finish_phase (by simp [writing])
    | closeEnded closing o => exact .closes closing o
    | writerStops closed unreached => exact .stops (.refl l) closed unreached

theorem send_of_opened (h : l.phase = .opened) (m : Message) :
    l.send m = { l with queue := l.queue ++ [.frame (encode m)] } :=
  if_pos (isOpen_iff.mpr h)

theorem shutdown_of_opened (h : l.phase = .opened) :
    l.shutdown =
      { l with
        phase := .closing
        queue := l.queue ++ [.close l.tickets.length]
        tickets := l.tickets ++ [none] } := by
  have hraise : l.phase.raise .closing = .closing := by
    rw [h]
    rfl
  rw [← hraise]
  exact if_pos (isOpen_iff.mpr h)

theorem shutdown_of_shut (h : l.phase ≠ .opened) :
    l.shutdown = { l with tickets := l.tickets ++ [some (.error .closed)] } :=
  if_neg (mt isOpen_iff.mp h)

theorem takeOrder_frame {rest : List Order} (idle : l.writer = .idle)
    (queue : l.queue = .frame bs :: rest) (now : Nat) :
    l.takeOrder now = { l with queue := rest, writer := .writing bs (now + l.limit) } := by
  unfold takeOrder
  rw [idle, queue]

theorem takeOrder_close {rest : List Order} (idle : l.writer = .idle)
    (queue : l.queue = .close t :: rest) (now : Nat) :
    l.takeOrder now = { l with queue := rest, writer := .closing t (now + l.limit) } := by
  unfold takeOrder
  rw [idle, queue]

theorem wrote_eq (writing : l.writer = .writing bs d) (n : Nat) :
    l.wrote n = { l with writer := if bs.drop n = [] then .idle else .writing (bs.drop n) d } := by
  unfold wrote
  rw [writing]
  dsimp only
  split
  · next hdrop => rw [if_pos hdrop]
  · next hdrop => rw [if_neg hdrop]

theorem closeEnded_eq (closing : l.writer = .closing t d) (o : Outcome) :
    l.closeEnded o =
      { l.finish with
        queue := []
        writer := .stopped
        tickets := abandon (unreached l.queue) (l.tickets.modify t fun r => r.or (some o)) } := by
  unfold closeEnded
  rw [closing]
  exact writerStops_eq _

/-- Tickets are settled for good: those that `may` be in any way, and the others as given up. -/
structure Settles (may : Nat → Prop) (ts ts' : List (Option Outcome)) : Prop where
  issued : ts.length ≤ ts'.length
  keeps : ∀ (t : Nat) (o : Outcome), ts[t]? = some (some o) → ts'[t]? = some (some o)
  news : ∀ (t : Nat) (o : Outcome), ts'[t]? = some (some o) →
    ts[t]? = some (some o) ∨ o = .error .closed ∨ may t

section Settles

variable {may : Nat → Prop} {ts ts' ts'' : List (Option Outcome)}

theorem Settles.refl (may : Nat → Prop) (ts : List (Option Outcome)) : Settles may ts ts :=
  ⟨Nat.le_refl _, fun _ _ h => h, fun _ _ h => .inl h⟩

theorem Settles.trans (h : Settles may ts ts') (h' : Settles may ts' ts'') : Settles may ts ts'' := by
  refine ⟨Nat.le_trans h.issued h'.issued, fun t o ht => h'.keeps t o (h.keeps t o ht), ?_⟩
  intro t o ht
  rcases h'.news t o ht with ht | hnew
  · exact h.news t o ht
  · exact .inr hnew

theorem settles_append {r : Option Outcome} (hr : ∀ o, r = some o → o = .error .closed) :
    Settles may ts (ts ++ [r]) := by
  constructor
  · rw [List.length_append]
    exact Nat.le_add_right _ _
  · intro t o ht
    have hlt : t < ts.length := (List.getElem?_eq_some_iff.mp ht).1
    rw [List.getElem?_append_left hlt]
    exact ht
  · intro t o ht
    by_cases hlt : t < ts.length
    · rw [List.getElem?_append_left hlt] at ht
      exact .inl ht
    · rw [List.getElem?_append_right (Nat.le_of_not_lt hlt)] at ht
      have hmem := List.mem_singleton.mp (List.mem_of_getElem? ht)
      exact .inr (.inl (hr o hmem.symm))

theorem settles_modify (hu : o = .error .closed ∨ may t) :
    Settles may ts (ts.modify t fun r => r.or (some o)) := by
  constructor
  · exact Nat.le_of_eq (List.length_modify _ _ _).symm
  · intro t' o' ht
    rw [List.getElem?_modify, ht]
    split <;> rfl
  · intro t' o' ht
    rw [List.getElem?_modify] at ht
    cases hr : ts[t']? with
    | none =>
      rw [hr] at ht
      cases ht
    | some r =>
      rw [hr] at ht
      by_cases he : t = t'
      · subst he
        cases r with
        | some o'' =>
          left
          simpa using ht
        | none =>
          simp only [if_pos, Option.map_eq_map, Option.map_some, Option.none_or,
            Option.some.injEq] at ht
          rw [← ht]
          exact .inr hu
      · left
        simpa [he] using ht

theorem settles_abandon (us : List Nat) (ts : List (Option Outcome)) :
    Settles may ts (abandon us ts) := by
  induction us generalizing ts with
  | nil => exact .refl may ts
  | cons u us ih => exact (settles_modify (.inl rfl)).trans (ih _)

end Settles

/-- A ticket is settled once; and if the writer is not at its close, as given up. -/
theorem Work.settles (w : Work l out ms l') :
    Settles (fun t => ∃ d, l.writer = .closing t d) l.tickets l'.tickets := by
  cases w with
  | aside same =>
    rw [same.tickets]
    exact .refl _ _
  | queues m opened =>
    rw [send_of_opened opened]
    exact .refl _ _
  | orders opened =>
    rw [shutdown_of_opened opened]
    exact settles_append fun _ h => nomatch h
  | refuses shut =>
    rw [shutdown_of_shut shut]
    refine settles_append ?_
    rintro o ⟨⟩
    rfl
  | @takes r _ idle _ queue now =>
    cases r with
    | frame bs =>
      rw [takeOrder_frame idle queue now]
      exact .refl _ _
    | close t =>
      rw [takeOrder_close idle queue now]
      exact .refl _ _
  | writes writing _ n =>
    rw [wrote_eq writing n]
    exact .refl _ _
  | @stops l'' same =>
    rw [writerStops_eq, ← same.tickets]
    exact settles_abandon _ _
  | @closes t d closing o =>
    rw [closeEnded_eq closing o]
    exact (settles_modify (.inr ⟨d, closing⟩)).trans (settles_abandon _ _)

/-- A close that is not carried out. -/
def refusal : Option Outcome := some (.error .closed)

/-- How far the close that was queued has come. All others are refused. -/
inductive Stage (l : Link) : Prop
  | opened (phase : l.phase = .opened) (frames : unreached l.queue = []) (busy : l.writer.Busy)
      (unasked : l.tickets = [])
  | ordered {q : List Order} {ts : List (Option Outcome)} (shut : l.phase ≠ .opened)
      (queue : l.queue = q ++ [.close 0]) (frames : unreached q = []) (busy : l.writer.Busy)
      (tickets : l.tickets = none :: ts) (refused : ∀ r ∈ ts, r = refusal)
  | reached {d : Nat} {ts : List (Option Outcome)} (shut : l.phase ≠ .opened) (queue : l.queue = [])
      (writer : l.writer = .closing 0 d) (tickets : l.tickets = none :: ts)
      (refused : ∀ r ∈ ts, r = refusal)
  | ended (closed : l.phase = .closed) (frames : unreached l.queue = [])
      (done : ∀ t d, l.writer ≠ .closing t d) (settled : none ∉ l.tickets)
      (refused : ∀ r ∈ l.tickets.tail, r = refusal)

theorem unreached_append (q q' : List Order) : unreached (q ++ q') = unreached q ++ unreached q' :=
  List.filterMap_append

theorem Writer.Busy.not_closing {w : Writer} (h : w.Busy) (t d : Nat) : w ≠ .closing t d := by
  rintro rfl
  exact h

theorem Writer.Busy.not_stopped {w : Writer} (h : w.Busy) : w ≠ .stopped := by
  rintro rfl
  exact h

theorem stage_spawn (id : PlayerId) (limit : Nat) (announce : Bool) :
    (spawn id limit announce).Stage :=
  .opened rfl rfl trivial rfl

theorem Stage.aside (h : l.Stage) (same : Aside l l') : l'.Stage := by
  obtain ⟨hqueue, hwriter, htickets, hphase⟩ := same
  have hshut (shut : l.phase ≠ .opened) : l'.phase ≠ .opened := by
    rcases hphase with hp | hp
    · rw [hp]
      exact shut
    · rw [hp]
      decide
  cases h with
  | opened phase frames busy unasked =>
    rcases hphase with hp | hp
    · exact .opened (hp.trans phase) (hqueue ▸ frames) (hwriter ▸ busy) (htickets.trans unasked)
    · refine .ended hp (hqueue ▸ frames) (hwriter ▸ busy.not_closing) ?_ ?_
      · rw [htickets, unasked]
        exact List.not_mem_nil
      · rw [htickets, unasked]
        exact fun _ hr => nomatch hr
  | ordered shut queue frames busy tickets refused =>
    exact .ordered (hshut shut) (hqueue.trans queue) frames (hwriter ▸ busy) (htickets.trans tickets)
      refused
  | reached shut queue writer tickets refused =>
    exact .reached (hshut shut) (hqueue.trans queue) (hwriter.trans writer) (htickets.trans tickets)
      refused
  | ended closed frames done settled refused =>
    have hp : l'.phase = .closed := by
      rcases hphase with hp | hp
      · exact hp.trans closed
      · exact hp
    exact .ended hp (hqueue ▸ frames) (hwriter ▸ done) (htickets ▸ settled) (htickets ▸ refused)

/-- A writer that stops before a close gives it up. -/
theorem Stage.stops (h : l.Stage) (closed : l.phase = .closed)
    (unreached : ∀ t d, l.writer ≠ .closing t d) : l.writerStops.Stage := by
  rw [writerStops_eq]
  cases h with
  | opened phase => exact absurd (phase.symm.trans closed) (by decide)
  | reached _ _ writer => exact absurd writer (unreached _ _)
  | @ordered q ts _ queue frames _ tickets refused =>
    have habandon : abandon (Link.unreached l.queue) l.tickets = refusal :: ts := by
      have horders : Link.unreached l.queue = [0] := by
        rw [queue, unreached_append, frames]
        rfl
      rw [horders, tickets]
      rfl
    refine .ended closed rfl (fun t d hw => nomatch hw) ?_ ?_
    · rw [habandon]
      intro hmem
      rcases List.mem_cons.mp hmem with hnone | hmem
      · cases hnone
      · cases refused none hmem
    · rw [habandon]
      exact refused
  | ended _ frames _ settled refused =>
    rw [frames]
    exact .ended closed rfl (fun t d hw => nomatch hw) settled refused

theorem Stage.of_opened (h : l.Stage) (opened : l.phase = .opened) :
    unreached l.queue = [] ∧ l.writer.Busy ∧ l.tickets = [] := by
  cases h with
  | opened _ frames busy unasked => exact ⟨frames, busy, unasked⟩
  | ordered shut => exact absurd opened shut
  | reached shut => exact absurd opened shut
  | ended closed => exact absurd (opened.symm.trans closed) (by decide)

theorem Stage.of_live (h : l.Stage) (live : l.phase ≠ .closed) (busy : l.writer.Busy) :
    l.phase = .opened ∧ unreached l.queue = [] ∧ l.tickets = [] ∨
      l.phase ≠ .opened ∧ ∃ q ts, l.queue = q ++ [.close 0] ∧ unreached q = [] ∧
        l.tickets = none :: ts ∧ ∀ r ∈ ts, r = refusal := by
  cases h with
  | opened phase frames _ unasked => exact .inl ⟨phase, frames, unasked⟩
  | ordered shut queue frames _ tickets refused =>
    exact .inr ⟨shut, _, _, queue, frames, tickets, refused⟩
  | reached _ _ writer => exact absurd writer (busy.not_closing _ _)
  | ended closed => exact absurd closed live

/-- A close that is asked for too late is refused at once. -/
theorem Stage.refuses (h : l.Stage) (shut : l.phase ≠ .opened) : l.shutdown.Stage := by
  have hmore {ts : List (Option Outcome)} (refused : ∀ r ∈ ts, r = refusal) :
      ∀ r ∈ ts ++ [refusal], r = refusal := by
    intro r hr
    rcases List.mem_append.mp hr with hr | hr
    · exact refused r hr
    · exact List.mem_singleton.mp hr
  rw [shutdown_of_shut shut]
  cases h with
  | opened phase => exact absurd phase shut
  | ordered _ queue frames busy tickets refused =>
    refine .ordered shut queue frames busy ?_ (hmore refused)
    change l.tickets ++ [refusal] = _
    rw [tickets]
    rfl
  | reached _ queue writer tickets refused =>
    refine .reached shut queue writer ?_ (hmore refused)
    change l.tickets ++ [refusal] = _
    rw [tickets]
    rfl
  | ended closed frames done settled refused =>
    refine .ended closed frames done ?_ ?_
    · intro hmem
      rcases List.mem_append.mp hmem with hmem | hmem
      · exact settled hmem
      · cases List.mem_singleton.mp hmem
    · change ∀ r ∈ (l.tickets ++ [refusal]).tail, r = refusal
      cases htickets : l.tickets with
      | nil => exact fun _ hr => nomatch hr
      | cons r ts =>
        rw [htickets] at refused
        exact hmore refused

/-- The writer takes frames until it comes to the close. -/
theorem Stage.takes (h : l.Stage) {r : Order} {rest : List Order} (idle : l.writer = .idle)
    (live : l.phase ≠ .closed) (queue : l.queue = r :: rest) (now : Nat) : (l.takeOrder now).Stage := by
  have hbusy : l.writer.Busy := by
    rw [idle]
    trivial
  rcases h.of_live live hbusy with ⟨phase, frames, unasked⟩ |
    ⟨shut, q, ts, hq, frames, tickets, refused⟩
  · rw [queue] at frames
    cases r with
    | close t => cases frames
    | frame bs =>
      rw [takeOrder_frame idle queue now]
      exact .opened phase frames trivial unasked
  · rw [queue] at hq
    cases q with
    | nil =>
      cases hq
      rw [takeOrder_close idle queue now]
      exact .reached shut rfl rfl tickets refused
    | cons r' q =>
      cases hq
      cases r with
      | close t => cases frames
      | frame bs =>
        rw [takeOrder_frame idle queue now]
        exact .ordered shut rfl frames trivial tickets refused

theorem Stage.writes (h : l.Stage) (writing : l.writer = .writing bs d) (live : l.phase ≠ .closed)
    (n : Nat) : (l.wrote n).Stage := by
  have hbusy : l.writer.Busy := by
    rw [writing]
    trivial
  have hstill : (if bs.drop n = [] then Writer.idle else .writing (bs.drop n) d).Busy := by
    split <;> trivial
  rw [wrote_eq writing n]
  rcases h.of_live live hbusy with ⟨phase, frames, unasked⟩ |
    ⟨shut, q, ts, hq, frames, tickets, refused⟩
  · exact .opened phase frames hstill unasked
  · exact .ordered shut hq frames hstill tickets refused

/-- The close is over, however it went. -/
theorem Stage.closes (h : l.Stage) (closing : l.writer = .closing t d) (o : Outcome) :
    (l.closeEnded o).Stage := by
  cases h with
  | opened _ _ busy => exact absurd closing (busy.not_closing _ _)
  | ordered _ _ _ busy => exact absurd closing (busy.not_closing _ _)
  | ended _ _ done => exact absurd closing (done _ _)
  | reached _ queue writer tickets refused =>
    cases writer.symm.trans closing
    rw [closeEnded_eq closing o, queue, tickets]
    refine .ended finish_phase rfl (fun t d hw => nomatch hw) ?_ refused
    intro hmem
    rcases List.mem_cons.mp hmem with hnone | hmem
    · cases hnone
    · cases refused none hmem

theorem Stage.work (h : l.Stage) (w : Work l out ms l') : l'.Stage := by
  cases w with
  | aside same => exact h.aside same
  | queues m opened =>
    obtain ⟨frames, busy, unasked⟩ := h.of_opened opened
    rw [send_of_opened opened]
    refine .opened opened ?_ busy unasked
    change unreached (l.queue ++ [.frame (encode m)]) = []
    rw [unreached_append, frames]
    rfl
  | orders opened =>
    obtain ⟨frames, busy, unasked⟩ := h.of_opened opened
    rw [shutdown_of_opened opened, unasked]
    exact .ordered (fun hp => nomatch hp) rfl frames busy rfl (fun _ hr => nomatch hr)
  | refuses shut => exact h.refuses shut
  | takes idle live queue now => exact h.takes idle live queue now
  | writes writing live n => exact h.writes writing live n
  | stops same closed unreached =>
    refine (h.aside same).stops closed ?_
    rw [same.writer]
    exact unreached
  | closes closing o => exact h.closes closing o

theorem Stage.refused_behind (h : l.Stage) : ∀ r ∈ l.tickets.tail, r = refusal := by
  cases h with
  | opened _ _ _ unasked =>
    rw [unasked]
    exact fun _ hr => nomatch hr
  | ordered _ _ _ _ tickets refused =>
    rw [tickets]
    exact refused
  | reached _ _ _ tickets refused =>
    rw [tickets]
    exact refused
  | ended _ _ _ _ refused => exact refused

/-- Only the first close can be carried out. -/
theorem Stage.first_of_ok (h : l.Stage) (ht : l.tickets[t]? = some (some (.ok ()))) : t = 0 := by
  cases t with
  | zero => rfl
  | succ t =>
    rw [← List.getElem?_tail] at ht
    cases h.refused_behind _ (List.mem_of_getElem? ht)

/-- A close is carried out at the end. -/
theorem Stage.closed_of_ok (h : l.Stage) (ht : l.tickets[t]? = some (some (.ok ()))) :
    l.phase = .closed := by
  cases h.first_of_ok ht
  cases h with
  | opened _ _ _ unasked =>
    rw [unasked] at ht
    cases ht
  | ordered _ _ _ _ tickets =>
    rw [tickets] at ht
    cases ht
  | reached _ _ _ tickets =>
    rw [tickets] at ht
    cases ht
  | ended closed => exact closed

/-- When the writer has stopped every ticket is settled. -/
theorem Stage.settled_of_stopped (h : l.Stage) (stopped : l.writer = .stopped) : none ∉ l.tickets := by
  cases h with
  | opened _ _ busy => exact absurd stopped busy.not_stopped
  | ordered _ _ _ busy => exact absurd stopped busy.not_stopped
  | reached _ _ writer => cases stopped.symm.trans writer
  | ended _ _ _ settled => exact settled

end Link
end BlockDuel
