import BlockDuel.Proofs.House.Basic
import BlockDuel.Proofs.Wire.Frame

/-!
What a line does to messages. Messages that were put into a stream come out in their order, all those
whose octets have arrived and no others; and what goes down a line is the beginning of what the hall
said over it before the first close, and all of it while the line takes messages.
-/
namespace BlockDuel
open Wire Hall Seat

namespace Stream

variable {s : Stream} {ms : List Message}

/-- Only messages were put in, and what came out is the beginning of them. -/
structure Carries (s : Stream) : Prop where
  fits : ∀ m ∈ s.sent, m.Fits
  order : ∃ rest, s.sent = s.got ++ rest ∧ s.intake.pending ++ s.flight = rest.flatMap encode

theorem Carries.empty : Stream.empty.Carries := ⟨(fun _ hm => nomatch hm), [], rfl, rfl⟩

theorem Carries.put (h : s.Carries) (hms : ∀ m ∈ ms, m.Fits) : (s.put ms).Carries := by
  obtain ⟨rest, hsent, hoctets⟩ := h.order
  constructor
  · intro m hm
    rcases List.mem_append.mp hm with hm | hm
    · exact h.fits m hm
    · exact hms m hm
  · refine ⟨rest ++ ms, ?_, ?_⟩
    · change s.sent ++ ms = s.got ++ (rest ++ ms)
      rw [hsent, List.append_assoc]
    · change s.intake.pending ++ (s.flight ++ ms.flatMap encode) = _
      rw [← List.append_assoc, hoctets, List.flatMap_append]

theorem Carries.got_isPrefix (h : s.Carries) : s.got <+: s.sent := by
  obtain ⟨rest, hsent, -⟩ := h.order
  exact ⟨rest, hsent.symm⟩

theorem got_arrive (n : Nat) : (s.arrive n).2.2.got = s.got ++ (s.arrive n).1 := rfl

/-- Messages arrive without a fault. -/
theorem Carries.arrive (h : s.Carries) (n : Nat) :
    (s.arrive n).2.1 = none ∧ (s.arrive n).2.2.Carries := by
  obtain ⟨rest, hsent, hoctets⟩ := h.order
  have hrest : ∀ m ∈ rest, m.Fits := by
    intro m hm
    exact h.fits m (by rw [hsent]; exact List.mem_append_right _ hm)
  have hcut : (s.intake.pending ++ s.flight.take n) ++ s.flight.drop n = rest.flatMap encode := by
    rw [List.append_assoc, List.take_append_drop, hoctets]
  obtain ⟨read, unread, hsplit, hread, hfault, hleft⟩ := drain_encoded hrest hcut
  refine ⟨hfault, h.fits, unread, ?_, hleft⟩
  change s.sent = (s.got ++ (drain (s.intake.pending ++ s.flight.take n)).messages) ++ unread
  rw [hread, hsent, hsplit, List.append_assoc]

end Stream

theorem Link.spoken_isPrefix (cs cs' : List Link.Call) :
    Link.spoken cs <+: Link.spoken (cs ++ cs') := by
  induction cs with
  | nil => exact List.nil_prefix
  | cons c cs ih =>
    cases c with
    | send m => exact List.cons_prefix_cons.mpr ⟨rfl, ih⟩
    | shutdown | disconnect => exact List.nil_prefix

namespace Visit

variable {v : Visit} {cs cs' : List Link.Call}

/-- What was put down the line, if the hall asked `cs` of it. -/
structure Queued (v : Visit) (cs : List Link.Call) : Prop where
  down : v.down.Carries
  said : v.down.sent <+: Link.spoken cs
  taken : v.takes = true → cs = v.down.sent.map .send

theorem Queued.obeys (h : v.Queued cs) {c : Link.Call} (hc : ∀ m, c = .send m → m.Fits) :
    (v.obeys c).Queued (cs ++ [c]) := by
  have hsaid := h.said.trans (Link.spoken_isPrefix cs [c])
  cases c with
  | shutdown | disconnect => exact ⟨h.down, hsaid, fun ht => nomatch ht⟩
  | send m =>
    unfold Visit.obeys
    dsimp only
    split
    · next ht =>
      have hfits : ∀ m' ∈ [m], m'.Fits := by
        intro m' hm'
        rw [List.mem_singleton.mp hm']
        exact hc m rfl
      have hcalls : cs ++ [.send m] = (v.down.sent ++ [m]).map .send := by
        rw [List.map_append, ← h.taken ht]
        rfl
      refine ⟨h.down.put hfits, ?_, fun _ => hcalls⟩
      rw [hcalls, Link.spoken_map_send]
      exact List.prefix_rfl
    · next ht => exact ⟨h.down, hsaid, fun ht' => absurd ht' ht⟩

theorem Queued.obeysAll (h : v.Queued cs) (hf : ∀ m, .send m ∈ cs' → m.Fits) :
    (cs'.foldl Visit.obeys v).Queued (cs ++ cs') := by
  induction cs' generalizing v cs with
  | nil =>
    rw [List.append_nil]
    exact h
  | cons c cs' ih =>
    have hc := h.obeys (c := c) fun m hm => hf m (hm ▸ List.mem_cons_self)
    rw [List.append_cons]
    exact ih hc fun m hm => hf m (List.mem_cons_of_mem c hm)

/-- The hall touches nothing but its own end. -/
theorem obeysAll_same (v : Visit) (cs : List Link.Call) :
    let v' := cs.foldl Visit.obeys v
    v'.guest = v.guest ∧ v'.up = v.up ∧ v'.waiting = v.waiting ∧ v'.broken = v.broken ∧
      v'.down.got = v.down.got := by
  induction cs generalizing v with
  | nil => exact ⟨rfl, rfl, rfl, rfl, rfl⟩
  | cons c cs ih =>
    have hc : (v.obeys c).guest = v.guest ∧ (v.obeys c).up = v.up ∧
        (v.obeys c).waiting = v.waiting ∧ (v.obeys c).broken = v.broken ∧
        (v.obeys c).down.got = v.down.got := by
      cases c with
      | shutdown | disconnect => exact ⟨rfl, rfl, rfl, rfl, rfl⟩
      | send m =>
        unfold Visit.obeys
        dsimp only
        split <;> exact ⟨rfl, rfl, rfl, rfl, rfl⟩
    have hcs := ih (v.obeys c)
    rw [hc.1, hc.2.1, hc.2.2.1, hc.2.2.2.1, hc.2.2.2.2] at hcs
    exact hcs

end Visit
end BlockDuel
