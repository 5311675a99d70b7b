import Escrow.Agreement.Flags
import Escrow.Amount
import Escrow.Key

/-!
# Operations on agreements

What a transaction does to an agreement, as its payload says. Two parties make
an agreement: the *source* offers terms to the *destination*, who accepts them
and thereby puts a *deposit* into escrow. Either may offer new terms, or to close
the agreement; either may open a *dispute*, which an *arbitrator* resolves by
dividing the deposit, unless the claimant or the arbitrator withdraws it.
-/

namespace Escrow

/-- Who takes part in an agreement: a public key, or bytes of a script. -/
inductive Party
  | key (key : PublicKey)
  | script (bytes : Bytes)
  deriving DecidableEq

namespace Party

/-- The party that bytes stand for: none if there are none, a key if there are
    as many as a key has. -/
def ofBytes? (bs : Bytes) : Option Party :=
  if bs.isEmpty then none
  else
    match Octets.ofBytes? 32 bs with
    | some o => some (.key ⟨o⟩)
    | none => some (.script bs)

def bytes : Party → Bytes
  | .key k => k.bytes
  | .script bs => bs

/-- The key of a party that is one. -/
def key? : Party → Option PublicKey
  | .key k => some k
  | .script _ => none

/-- Whether a party is a key. -/
def isKey (key : PublicKey) (p : Party) : Bool :=
  p = .key key

def hex (p : Party) : String :=
  Hex.encode p.bytes

end Party

/-- The terms of an offer. -/
structure Offer where
  source : Party
  destination : Party
  arbitrator : Option Party
  flags : OfferFlags
  /-- The agreement that the offer amends or closes. -/
  amends : Option TxId
  /-- What is held in escrow. -/
  deposit : Amount
  /-- What the source is paid when the offer is accepted. -/
  payment : Amount
  /-- What opening a dispute costs. -/
  disputeFee : Amount
  name : String
  memo : String
  unlockConditions : List Bytes
  deriving DecidableEq

/-- The party of an offer that someone is against: the destination for the source,
    the source for everyone else. -/
def Offer.opponent (o : Offer) (p : Party) : Party :=
  if p = o.source then o.destination else o.source

/-- A dispute about an agreement. -/
structure Dispute where
  agreement : TxId
  claimant : Party
  flags : DisputeFlags
  memo : String
  deriving DecidableEq

/-- What a transaction does. -/
inductive Operation
  | offer (terms : Offer)
  | stopOffer (offer : TxId) (memo : String)
  | accept (offer : TxId)
  | close (agreement offer : TxId) (payout : Amount)
  | dispute (dispute : Dispute)
  | stopDispute (agreement dispute : TxId) (memo : String)
  | resolve (agreement dispute : TxId) (payout : Amount) (memo : String)
  | unlock (agreement : TxId) (conditions : List Bytes)
  deriving DecidableEq

/-- The kinds of operations. -/
inductive FunctionId
  | offer
  | stopOffer
  | accept
  | close
  | dispute
  | stopDispute
  | resolve
  | unlock
  deriving DecidableEq

namespace FunctionId

/-- All kinds, in order. -/
def all : List FunctionId :=
  [offer, stopOffer, accept, close, dispute, stopDispute, resolve, unlock]

/-- The letter of a kind. -/
def letter : FunctionId → Char
  | offer => 'o'
  | stopOffer => 's'
  | accept => 'c'
  | close => 't'
  | dispute => 'd'
  | stopDispute => 'x'
  | resolve => 'r'
  | unlock => 'u'

/-- The byte of a kind in a payload, which is its letter. -/
def tag (f : FunctionId) : UInt8 :=
  UInt8.ofNat f.letter.toNat

def name : FunctionId → String
  | offer => "offer"
  | stopOffer => "stop_offer"
  | accept => "accept"
  | close => "close"
  | dispute => "dispute"
  | stopDispute => "stop_dispute"
  | resolve => "resolve"
  | unlock => "unlock"

/-- Whether an agreement ends with an operation of this kind. -/
def isTerminal : FunctionId → Bool
  | close | resolve | unlock => true
  | _ => false

/-- The kind of a byte. -/
def ofTag? (b : UInt8) : Option FunctionId :=
  all.find? (·.tag = b)

/-- The kind of a name or letter. -/
def ofText? (s : String) : Option FunctionId :=
  all.find? fun f => f.name = s || s = f.letter.toString

/-- What is said of a text that is no kind. -/
def unknownMessage (s : String) : String :=
  s!"unknown event type: {s}"

end FunctionId

namespace Operation

/-- The kind of an operation. -/
def function : Operation → FunctionId
  | offer _ => .offer
  | stopOffer .. => .stopOffer
  | accept _ => .accept
  | close .. => .close
  | dispute _ => .dispute
  | stopDispute .. => .stopDispute
  | resolve .. => .resolve
  | unlock .. => .unlock

/-- The agreement that an operation names. -/
def agreement? : Operation → Option TxId
  | close agreement .. => some agreement
  | dispute d => some d.agreement
  | stopDispute agreement .. => some agreement
  | resolve agreement .. => some agreement
  | unlock agreement _ => some agreement
  | offer _ | stopOffer .. | accept _ => none

end Operation

end Escrow
