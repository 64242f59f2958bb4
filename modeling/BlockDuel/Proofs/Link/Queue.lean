import BlockDuel.Link.Basic

/-!
What a link queues. Its owner's calls come between turns of its reader and its writer, which may end
the link at any time. Whatever they do, the link queues what its owner sends up to some point, which is
not after the owner's first close, and nothing from there on.
-/
namespace BlockDuel
namespace Link
open Wire

/-- A call of the owner. -/
inductive Call
  | send (m : Message)
  | shutdown
  | disconnect
  deriving DecidableEq, Repr

/-- Anything else that happens to a link. -/
inductive Turn
  | readerStops
  | received (chunk : Bytes)
  | readEnded
  | takeOrder (now : Nat)
  | wrote (n : Nat)
  | writeFailed
  | closeEnded (o : Outcome)
  | writerStops
  /-- The owner takes what it has been told. -/
  | collected

inductive Act
  | call (c : Call)
  | turn (t : Turn)

def Call.run (l : Link) : Call → Link
  | .send m => l.send m
  | .shutdown => l.shutdown
  | .disconnect => l.disconnect

def Turn.run (l : Link) : Turn → Link
  | .readerStops => l.readerStops
  | .received chunk => l.received chunk
  | .readEnded => l.readEnded
  | .takeOrder now => l.takeOrder now
  | .wrote n => l.wrote n
  | .writeFailed => l.writeFailed
  | .closeEnded o => l.closeEnded o
  | .writerStops => l.writerStops
  | .collected => { l with notices := [] }

def Act.call? : Act → Option Call
  | .call c => some c
  | .turn _ => none

/-- The messages that are queued while the link is open. -/
def queued (l : Link) : List Act → List Message
  | [] => []
  | .call (.send m) :: as =>
    if l.isOpen then m :: (l.send m).queued as else (l.send m).queued as
  | .call c :: as => (c.run l).queued as
  | .turn t :: as => (t.run l).queued as

/-- The messages before the first close. -/
def spoken : List Call → List Message
  | .send m :: cs => m :: spoken cs
  | _ => []

theorem spoken_send (ms : List Message) (cs : List Call) :
    spoken (ms.map .send ++ cs) = ms ++ spoken cs := by
  induction ms with
  | nil => rfl
  | cons m ms ih =>
    change m :: spoken (ms.map .send ++ cs) = m :: (ms ++ spoken cs)
    rw [ih]

theorem spoken_map_send (ms : List Message) : spoken (ms.map .send) = ms := by
  have h := spoken_send ms []
  rw [List.append_nil] at h
  rw [h]
  exact List.append_nil ms

/-- What comes after a close is not spoken. -/
theorem spoken_closed {c : Call} {cs : List Call} (hc : c ∈ cs) (hn : ∀ m, c ≠ .send m)
    (cs' : List Call) : spoken (cs ++ cs') = spoken cs := by
  induction cs with
  | nil => cases hc
  | cons d cs ih =>
    cases d with
    | send m =>
      have hc' : c ∈ cs := by
        rcases List.mem_cons.mp hc with rfl | hc
        · exact absurd rfl (hn m)
        · exact hc
      change m :: spoken (cs ++ cs') = m :: spoken cs
      rw [ih hc']
    | shutdown => rfl
    | disconnect => rfl

variable {l : Link}

theorem isOpen_iff : l.isOpen = true ↔ l.phase = .opened := by
  simp [isOpen]

theorem finish_phase : l.finish.phase = .closed := by
  change l.phase.raise .closed = .closed
  cases l.phase <;> rfl

theorem settleTickets_phase (l : Link) (ts : List Nat) (o : Outcome) :
    (ts.foldl (fun l t => l.settleTicket t o) l).phase = l.phase := by
  induction ts generalizing l with
  | nil => rfl
  | cons t ts ih => exact ih (l.settleTicket t o)

theorem writerStops_phase : l.writerStops.phase = l.phase :=
  settleTickets_phase _ _ _

theorem received_phase (chunk : Bytes) :
    (l.received chunk).phase = l.phase ∨ (l.received chunk).phase = .closed := by
  unfold received
  split
  · exact .inl rfl
  · dsimp only
    split
    · exact .inr finish_phase
    · exact .inl rfl

theorem readEnded_phase : l.readEnded.phase = l.phase ∨ l.readEnded.phase = .closed := by
  unfold readEnded
  split
  · exact .inl rfl
  · exact .inr finish_phase

theorem takeOrder_phase (now : Nat) : (l.takeOrder now).phase = l.phase := by
  unfold takeOrder
  split <;> rfl

theorem wrote_phase (n : Nat) : (l.wrote n).phase = l.phase := by
  unfold wrote
  split
  · split <;> rfl
  · rfl

theorem writeFailed_phase : l.writeFailed.phase = l.phase ∨ l.writeFailed.phase = .closed := by
  unfold writeFailed
  split
  · right
    rw [writerStops_phase, finish_phase]
  · exact .inl rfl

theorem closeEnded_phase (o : Outcome) :
    (l.closeEnded o).phase = l.phase ∨ (l.closeEnded o).phase = .closed := by
  unfold closeEnded
  split
  · right
    rw [writerStops_phase]
    exact finish_phase
  · exact .inl rfl

/-- A turn leaves the phase alone or ends the link. -/
theorem Turn.run_phase (t : Turn) : (t.run l).phase = l.phase ∨ (t.run l).phase = .closed := by
  cases t with
  | readerStops => exact .inl rfl
  | received chunk => exact received_phase chunk
  | readEnded => exact readEnded_phase
  | takeOrder now => exact .inl (takeOrder_phase now)
  | wrote n => exact .inl (wrote_phase n)
  | writeFailed => exact writeFailed_phase
  | closeEnded o => exact closeEnded_phase o
  | writerStops => exact .inl writerStops_phase
  | collected => exact .inl rfl

theorem send_phase (m : Message) : (l.send m).phase = l.phase := by
  unfold send
  split <;> rfl

theorem shutdown_not_open : l.shutdown.phase ≠ .opened := by
  unfold shutdown
  split
  · change l.phase.raise .closing ≠ .opened
    cases l.phase <;> decide
  · next h =>
    intro hp
    exact h (isOpen_iff.mpr hp)

theorem disconnect_not_open : l.disconnect.phase ≠ .opened := by
  unfold disconnect
  split
  · next h =>
    rw [h]
    decide
  · rw [finish_phase]
    decide

theorem Turn.run_not_open (t : Turn) (h : l.phase ≠ .opened) : (t.run l).phase ≠ .opened := by
  rcases t.run_phase (l := l) with ht | ht
  · rw [ht]
    exact h
  · rw [ht]
    decide

theorem Call.run_not_open (c : Call) (h : l.phase ≠ .opened) : (c.run l).phase ≠ .opened := by
  cases c with
  | send m =>
    change (l.send m).phase ≠ .opened
    rw [send_phase]
    exact h
  | shutdown => exact shutdown_not_open
  | disconnect => exact disconnect_not_open

/-- A link that is not open never opens again, and queues nothing. -/
theorem queued_not_open (h : l.phase ≠ .opened) (as : List Act) : l.queued as = [] := by
  induction as generalizing l with
  | nil => rfl
  | cons a as ih =>
    cases a with
    | turn t => exact ih (t.run_not_open h)
    | call c =>
      have hc := ih (c.run_not_open h)
      cases c with
      | send m =>
        unfold queued
        rw [if_neg (mt isOpen_iff.mp h)]
        exact hc
      | shutdown => exact hc
      | disconnect => exact hc

/-- All that is queued was sent before the first close, and nothing in between is left out. -/
theorem queued_isPrefix (l : Link) (as : List Act) :
    l.queued as <+: spoken (as.filterMap Act.call?) := by
  induction as generalizing l with
  | nil => exact List.prefix_rfl
  | cons a as ih =>
    cases a with
    | turn t => exact ih (t.run l)
    | call c =>
      cases c with
      | send m =>
        change (if l.isOpen then m :: (l.send m).queued as else (l.send m).queued as) <+:
          m :: spoken (as.filterMap Act.call?)
        split
        · exact List.cons_prefix_cons.mpr ⟨rfl, ih (l.send m)⟩
        · next h =>
          have hn : (l.send m).phase ≠ .opened := by
            rw [send_phase]
            exact mt isOpen_iff.mpr h
          rw [queued_not_open hn]
          exact List.nil_prefix
      | shutdown =>
        exact List.prefix_nil.mpr (queued_not_open shutdown_not_open as)
      | disconnect =>
        exact List.prefix_nil.mpr (queued_not_open disconnect_not_open as)

end Link
end BlockDuel
