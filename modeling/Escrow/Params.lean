import Escrow.Amount

/-!
# Parameters

The numbers that every node must agree on: the fee and the value of markers, how
long blocks take and offers last, and the limits on names, memos, payloads and
event chains.

A block takes the same time always, so the age of an offer is the number of
blocks since it was mined times that time.
-/

namespace Escrow

/-- The agreed numbers. -/
structure Params where
  /-- What a transaction must leave to the miner. -/
  txFee : Amount := 10000
  /-- The value of a marker or baton, and the least deposit or dispute fee. -/
  markerValue : Amount := 10000
  /-- The seconds from one block to the next. -/
  blockTime : UInt64 := 60
  /-- The seconds that an offer stays acceptable. -/
  offerExpiry : UInt64 := 7776000
  /-- The most bytes of a name. -/
  maxName : Nat := 64
  /-- The most bytes of a memo. -/
  maxMemo : Nat := 2048
  /-- The most bytes of a payload. -/
  maxPayload : Nat := 10000
  /-- The most events followed along one agreement. -/
  maxEvents : Nat := 1000
  deriving DecidableEq

/-- Why parameters are not usable. -/
inductive ParamsError
  | notPositive (name : String) (found : Amount)
  | zeroBlockTime
  | zeroNameLength
  | zeroEventChain
  deriving DecidableEq

/-- The wording of an error. -/
def ParamsError.message : ParamsError → String
  | .notPositive name found => s!"invalid parameter {name}: must be positive, got " ++ found.text
  | .zeroBlockTime => "invalid parameter block_time_secs: must be non-zero"
  | .zeroNameLength => "invalid parameter max_name_len: must allow at least one byte"
  | .zeroEventChain => "invalid parameter max_event_chain: must be non-zero"

namespace Params

/-- Whether parameters are usable, and otherwise the first thing wrong. -/
def check (p : Params) : Except ParamsError Unit := do
  if p.txFee ≤ 0 then throw (.notPositive "tx_fee" p.txFee)
  if p.markerValue ≤ 0 then throw (.notPositive "marker_value" p.markerValue)
  if p.blockTime = 0 then throw .zeroBlockTime
  if p.maxName = 0 then throw .zeroNameLength
  if p.maxEvents = 0 then throw .zeroEventChain

/-- The greatest number of seconds that an age may have. -/
def maxSeconds : Nat := 0xffffffffffffffff

/-- The seconds from the block at height `g` to the one at height `h`: none if
    `h` is lower, and never more than `maxSeconds`. -/
def elapsed (p : Params) (g h : Nat) : Nat :=
  min ((h - g) * p.blockTime.toNat) maxSeconds

/-- Whether an offer mined at height `g` is too old at height `h`. -/
def expired (p : Params) (g h : Nat) : Bool :=
  p.offerExpiry.toNat < p.elapsed g h

/-- The number of whole blocks that an offer lasts. -/
def expiryBlocks (p : Params) : Nat :=
  p.offerExpiry.toNat / p.blockTime.toNat

end Params

/-- The eval code of agreements, which locks them to their rules. -/
def evalCode : UInt8 := 0xf8

/-- The version of payloads. -/
def payloadVersion : UInt8 := 1

end Escrow
