import BlockDuel.Text.Elapsed

/-!
The ways in which a link fails, and their wording. Octets that are no message never show up here: they
end the link, and its owner hears only that it is lost.
-/
namespace BlockDuel.Link

inductive Fault
  | noWorkers (reason : String)
  | unreachable (address reason : String)
  | connectTimeout (address : String) (limit : Text.Nanos)
  | notConnected
  /-- The link ended before everything queued was written. -/
  | closed
  | writeTimeout (limit : Text.Nanos)
  | io (reason : String)
  deriving DecidableEq, Repr

def Fault.message : Fault → String
  | noWorkers reason => s!"failed to start network runtime: {reason}"
  | unreachable address reason => s!"failed to connect to {address}: {reason}"
  | connectTimeout address limit =>
    s!"connecting to {address} timed out after {Text.elapsed limit}"
  | notConnected => "not connected"
  | closed => "connection closed before queued writes were flushed"
  | writeTimeout limit => s!"write timed out after {Text.elapsed limit}"
  | io reason => s!"i/o error: {reason}"

end BlockDuel.Link
