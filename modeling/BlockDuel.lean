import BlockDuel.Arena
import BlockDuel.Bag
import BlockDuel.Board
import BlockDuel.Environment
import BlockDuel.Generator
import BlockDuel.Hall.Heartbeat
import BlockDuel.Hall.Roll
import BlockDuel.Hall.Room
import BlockDuel.Hall.Ruling
import BlockDuel.Hall.Settings
import BlockDuel.Hall.State
import BlockDuel.Link.Basic
import BlockDuel.Link.Bench
import BlockDuel.Link.Carrier
import BlockDuel.Link.Fault
import BlockDuel.Link.Notice
import BlockDuel.Mailbox
import BlockDuel.Main
import BlockDuel.Piece
import BlockDuel.Rehearsal.Desk
import BlockDuel.Rehearsal.Evening
import BlockDuel.Rehearsal.RollCall
import BlockDuel.Rehearsal.Watch
import BlockDuel.Seat.Joining
import BlockDuel.Seat.Observer
import BlockDuel.Seat.Play
import BlockDuel.Seat.Session
import BlockDuel.Snapshot
import BlockDuel.Table
import BlockDuel.Tcp.Host
import BlockDuel.Tcp.Peer
import BlockDuel.Tcp.Spectator
import BlockDuel.Text.Address
import BlockDuel.Text.Blank
import BlockDuel.Text.Elapsed
import BlockDuel.Text.Json
import BlockDuel.Text.Json.Reader
import BlockDuel.Text.Records
import BlockDuel.Text.Unsigned
import BlockDuel.Wire.Digits
import BlockDuel.Wire.Fault
import BlockDuel.Wire.Frame
import BlockDuel.Wire.Kind
import BlockDuel.Wire.Layout
import BlockDuel.Wire.Message
import BlockDuel.Wire.Payload
import BlockDuel.Proofs.Hall.Course
import BlockDuel.Proofs.Hall.Room
import BlockDuel.Proofs.Hall.Moves
import BlockDuel.Proofs.Hall.Coherence
import BlockDuel.Proofs.Hall.Roll
import BlockDuel.Proofs.Hall.Verdicts
import BlockDuel.Proofs.Hall.Seeds
import BlockDuel.Proofs.Hall.Transcript
import BlockDuel.Proofs.Hall.Hearing
import BlockDuel.Proofs.Hall.Unregister
import BlockDuel.Proofs.Link.Queue
import BlockDuel.Proofs.Wire.Layout
import BlockDuel.Proofs.Wire.Frame
import BlockDuel.Proofs.Hall.Relay
import BlockDuel.Proofs.Hall.Outsiders
import BlockDuel.Proofs.Hall.Briefing
import BlockDuel.Proofs.Hall.Reports
import BlockDuel.Proofs.Seat.Joining
import BlockDuel.Proofs.Seat.Receiving
import BlockDuel.Proofs.House.Basic
import BlockDuel.Proofs.House.Lines
import BlockDuel.Proofs.House.Guests
import BlockDuel.Proofs.House.Keeping
import BlockDuel.Proofs.House.Agreement
import BlockDuel.Proofs.House.Replication
import BlockDuel.Proofs.Wire.Whole
import BlockDuel.Proofs.Wire.Chunks
import BlockDuel.Proofs.Hall.Departure
import BlockDuel.Proofs.House.Settlement
import BlockDuel.Proofs.Hall.Heartbeat
import BlockDuel.Proofs.Hall.Pacing
import BlockDuel.Proofs.Hall.Silence
import BlockDuel.Proofs.Hall.Timeout
import BlockDuel.Proofs.Seat.Reconnect
import BlockDuel.Proofs.Link.Lifecycle
import BlockDuel.Proofs.Link.Reading
import BlockDuel.Proofs.Link.Flush
import BlockDuel.Proofs.Hall.Refusals
import BlockDuel.Proofs.Bag.Dealing
import BlockDuel.Proofs.Bag.Rounds
import BlockDuel.Proofs.Bag.Period
import BlockDuel.Proofs.Arena.Spawning
import BlockDuel.Proofs.Wire.Values
import BlockDuel.Proofs.Wire.Alone
import BlockDuel.Proofs.Hall.Leftover
import BlockDuel.Proofs.Hall.Routing
import BlockDuel.Proofs.Seat.Handling
import BlockDuel.Proofs.Seat.Candidate
import BlockDuel.Proofs.Seat.Handshake
import BlockDuel.Proofs.Seat.Record
import BlockDuel.Proofs.Seat.Stages
import BlockDuel.Proofs.Seat.Handover
import BlockDuel.Proofs.Seat.Duelist
import BlockDuel.Proofs.Seat.Lateness
import BlockDuel.Proofs.Seat.Taking
import BlockDuel.Proofs.Seat.Sayings
import BlockDuel.Proofs.Seat.Bout
import BlockDuel.Proofs.Seat.Vigil
import BlockDuel.Proofs.Seat.Chronicle
import BlockDuel.Proofs.Seat.LastWord
import BlockDuel.Proofs.Seat.Lookout
