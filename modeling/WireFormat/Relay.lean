/-
# Relays

A relay knows no field: it keeps every entry and passes all of them on. It may
claim to be longer or shorter than it is, by its surplus; no claim is below
zero.

Key definitions: `Relay`.
-/
import WireFormat.Message

namespace WireFormat

/-- A message that keeps everything and knows nothing. -/
structure Relay where
  /-- How many bytes more than it has the relay claims. -/
  surplus : Int := 0
  entries : List Entry := []
  deriving DecidableEq

instance : Message Relay where
  name := "relay"
  empty := {}
  known? _ _ := none
  keep relay entry := { relay with entries := relay.entries ++ [entry] }
  chunks relay := relay.entries.map Entry.raw
  claimedLength relay := (Entry.totalLength relay.entries + relay.surplus).toNat

end WireFormat
