import BlockDuel.Link.Basic

/-!
Streams that a link can run over without a network: a pipe in memory that holds a limited number of
octets each way, and a stream with scripted faults and no peer.
-/
namespace BlockDuel.Link

structure Pipe where
  capacity : Nat
  /-- Written by the peer and not read yet. -/
  toLink : Bytes
  /-- Written by the link and not read yet. -/
  toPeer : Bytes
  peerGone : Bool
  /-- The link has closed its direction. -/
  ended : Bool
  deriving DecidableEq, Repr

/-- A stream that misbehaves as told. -/
structure Script where
  /-- What the first read yields. -/
  data : Bytes
  readFails : Bool
  writeFails : Bool
  closeFails : Bool
  closeHangs : Bool
  deriving DecidableEq, Repr

inductive Carrier
  | pipe (p : Pipe)
  | script (s : Script)
  deriving DecidableEq, Repr

namespace Carrier

inductive Read
  | chunk (bs : Bytes) (rest : Carrier)
  | ended
  | waits
  deriving DecidableEq, Repr

def read : Carrier → Read
  | .pipe p =>
    match p.toLink with
    | [] => if p.peerGone then .ended else .waits
    | b :: bs =>
      let all := b :: bs
      .chunk (all.take readChunk) (.pipe { p with toLink := all.drop readChunk })
  | .script s =>
    match s.data with
    | [] => if s.readFails then .ended else .waits
    | b :: bs =>
      let all := b :: bs
      .chunk (all.take readChunk) (.script { s with data := all.drop readChunk })

inductive Write
  | took (n : Nat) (rest : Carrier)
  | failed
  | waits
  deriving DecidableEq, Repr

def write (bs : Bytes) : Carrier → Write
  | .pipe p =>
    let space := p.capacity - p.toPeer.length
    if p.peerGone then .failed
    else if space = 0 then .waits
    else
      let taken := bs.take space
      .took taken.length (.pipe { p with toPeer := p.toPeer ++ taken })
  | .script s => if s.writeFails then .failed else .took bs.length (.script s)

inductive Close
  | done (rest : Carrier)
  | failed
  | waits
  deriving DecidableEq, Repr

def close : Carrier → Close
  | .pipe p => .done (.pipe { p with ended := true })
  | .script s => if s.closeHangs then .waits else if s.closeFails then .failed else .done (.script s)

/-- Octets that a link can still read. -/
def incoming : Carrier → Nat
  | .pipe p => p.toLink.length
  | .script s => s.data.length

/-- Octets that a peer can still read. -/
def outgoing : Carrier → Nat
  | .pipe p => p.toPeer.length
  | .script _ => 0

theorem read_chunk {c rest : Carrier} {bs : Bytes} (h : c.read = .chunk bs rest) :
    rest.incoming < c.incoming ∧ rest.outgoing = c.outgoing := by
  cases c with
  | pipe p =>
    simp only [read] at h
    split at h
    · split at h <;> cases h
    · next hd =>
      cases h
      simp only [incoming, outgoing, hd, readChunk, List.length_drop, List.length_cons, and_true]
      omega
  | script s =>
    simp only [read] at h
    split at h
    · split at h <;> cases h
    · next hd =>
      cases h
      simp only [incoming, outgoing, hd, readChunk, List.length_drop, List.length_cons, and_true]
      omega

/-- A write moves octets to the peer and never takes none of some. -/
theorem write_took {c rest : Carrier} {bs : Bytes} {n : Nat} (h : c.write bs = .took n rest) :
    n ≤ bs.length ∧ (n = 0 → bs = []) ∧ rest.incoming = c.incoming ∧
      rest.outgoing ≤ c.outgoing + n := by
  cases c with
  | pipe p =>
    simp only [write] at h
    split at h
    · cases h
    · split at h
      · cases h
      · cases h
        simp only [List.length_take, incoming, outgoing, List.length_append]
        refine ⟨by omega, fun h0 => ?_, trivial, Nat.le_refl _⟩
        apply List.length_eq_zero_iff.mp
        omega
  | script s =>
    simp only [write] at h
    split at h
    · cases h
    · cases h
      exact ⟨Nat.le_refl _, fun h0 => List.length_eq_zero_iff.mp h0, rfl, Nat.le_add_right _ _⟩

theorem close_done {c rest : Carrier} (h : c.close = .done rest) :
    rest.incoming = c.incoming ∧ rest.outgoing = c.outgoing := by
  cases c with
  | pipe p =>
    cases h
    exact ⟨rfl, rfl⟩
  | script s =>
    simp only [close] at h
    split at h
    · cases h
    · split at h <;> cases h
      exact ⟨rfl, rfl⟩

end Carrier
end BlockDuel.Link
