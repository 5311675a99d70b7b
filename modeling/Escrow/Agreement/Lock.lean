import Escrow.Lock
import Escrow.Params

/-!
# The locks of agreements

What is held in escrow is locked with conditions of the agreements' eval code:
markers of offers and deposits with one on the global key, which anyone can make,
and the batons of an agreement with one on the global key and a key of the offer
that it accepted. So what protects them is not the keys but the rules, which the
host applies to every transaction that spends or makes such an output.
-/

namespace Escrow

/-- The condition on markers and deposits. -/
def globalCondition : Condition :=
  .oneOfOne evalCode KeyPair.global.publicKey

/-- The lock of markers and deposits. -/
def globalLock : Lock :=
  .condition globalCondition

/-- Where markers and deposits are found. -/
def globalAddress : Address :=
  .ofCondition globalCondition

/-- The key that belongs to an offer. -/
def eventKey (offer : TxId) : PublicKey :=
  (KeyPair.tweaked KeyPair.global.publicKey offer).publicKey

/-- The condition on the batons of the agreement that an offer led to. -/
def eventCondition (offer : TxId) : Condition :=
  .oneOfTwo evalCode KeyPair.global.publicKey (eventKey offer)

/-- The lock of the batons of the agreement that an offer led to. -/
def eventLock (offer : TxId) : Lock :=
  .condition (eventCondition offer)

/-- Where the batons of the agreement that an offer led to are found. -/
def eventAddress (offer : TxId) : Address :=
  .ofCondition (eventCondition offer)

/-- Whether a lock is one of agreements. -/
def Lock.isEscrow (lock : Lock) : Bool :=
  lock.isOf evalCode

end Escrow
