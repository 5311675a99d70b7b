import Escrow.Agreement.History

/-!
# Violations

The ways in which a transaction can break the rules of agreements, in four
categories: how it is laid out, what it refers to, who may do it and when, and
the amounts involved.
-/

namespace Escrow

/-- A rule that a transaction breaks. -/
inductive Violation
  -- How a transaction is laid out.
  | noOutputs
  | missingPayload
  | extraPayload (vout : Nat)
  | payloadTooLarge (size max : Nat)
  | malformedPayload (cause : DecodeError)
  | unsupportedVersion (version : UInt8)
  | missingInput (vin : Nat) (what : String)
  | unexpectedInput (vin : Nat) (what : String) (expected found : Outpoint)
  | foreignInput (vin : Nat)
  | missingOutput (vout : Nat) (what : String)
  | wrongOutputLock (vout : Nat) (what : String)
  | foreignOutput (vout : Nat)
  | wrongEventLock (vin : Nat)
  | unknownFlags (bits : UInt8)
  | closeWithoutAmendment
  | invalidName (length max : Nat)
  | memoTooLong (length max : Nat)
  | emptyMemo
  | unlockConditions
  | unlockOperation
  -- What it refers to.
  | missingPrevout (vin : Nat) (outpoint : Outpoint)
  | reference (what : String) (cause : LookupError)
  | referenceMismatch (what : String)
  | invalidPreviousEvent
  | previousEventUnconfirmed (id : TxId)
  | agreementDisputed
  | agreementClosed (id : TxId)
  | missingReference
  | unexpectedReference
  | notACloseOffer (id : TxId)
  | closeOfferNotAcceptable (id : TxId)
  -- Who may do it, and when.
  | notSignedBy (role : String)
  | scriptKey (role : String)
  | invalidPartyKey (role : String)
  | sameParty
  | arbitratorIsParty
  | partiesMismatch
  | claimantNotParty
  | noArbitrator
  | disputesDisabled
  | disputeFinal
  | offerNotCancellable
  | offerExpired (age max : Nat)
  | notNotarized (what : String)
  -- The amounts involved.
  | feeNotCovered (inputs outputs fee : Amount)
  | negativeOutput (vout : Nat)
  | valueOverflow (what : String)
  | amountTooLow (what : String) (amount min : Amount)
  | negativePayment (amount : Amount)
  | wrongOutputValue (vout : Nat) (what : String) (expected found : Amount)
  | outputValueTooLow (vout : Nat) (what : String) (min found : Amount)
  | payoutMismatch (offered recorded : Amount)
  | payoutOutOfRange (payout deposit : Amount)
  /-- The inputs of one key have no sum in the range of amounts. -/
  | keySumOverflow
  deriving DecidableEq

/-- What a violation is about. -/
inductive Violation.Category
  | structural
  | referential
  | eligibility
  | amount
  deriving DecidableEq

def Violation.Category.name : Category → String
  | structural => "structural"
  | referential => "referential"
  | eligibility => "eligibility"
  | amount => "amount"

namespace Violation

def category : Violation → Category
  | noOutputs | missingPayload | extraPayload _ | payloadTooLarge .. | malformedPayload _
  | unsupportedVersion _ | missingInput .. | unexpectedInput .. | foreignInput _
  | missingOutput .. | wrongOutputLock .. | foreignOutput _ | wrongEventLock _ | unknownFlags _
  | closeWithoutAmendment | invalidName .. | memoTooLong .. | emptyMemo | unlockConditions
  | unlockOperation => .structural
  | missingPrevout .. | reference .. | referenceMismatch _ | invalidPreviousEvent
  | previousEventUnconfirmed _ | agreementDisputed | agreementClosed _ | missingReference
  | unexpectedReference | notACloseOffer _ | closeOfferNotAcceptable _ => .referential
  | notSignedBy _ | scriptKey _ | invalidPartyKey _ | sameParty | arbitratorIsParty
  | partiesMismatch | claimantNotParty | noArbitrator | disputesDisabled | disputeFinal
  | offerNotCancellable | offerExpired .. | notNotarized _ => .eligibility
  | feeNotCovered .. | negativeOutput _ | valueOverflow _ | amountTooLow .. | negativePayment _
  | wrongOutputValue .. | outputValueTooLow .. | payoutMismatch .. | payoutOutOfRange ..
  | keySumOverflow => .amount

/-- The wording of a violation. -/
def message : Violation → String
  | noOutputs => "transaction has no outputs"
  | missingPayload => "last output must carry the agreements payload"
  | extraPayload vout => s!"unexpected op_return at vout {vout}"
  | payloadTooLarge size max => s!"op_return of {size} bytes exceeds limit of {max}"
  | malformedPayload cause => "invalid agreements payload: " ++ cause.message
  | unsupportedVersion version => s!"unsupported payload version {version}"
  | missingInput vin what => s!"missing {what} input at vin {vin}"
  | unexpectedInput vin what expected found =>
    s!"vin {vin} must spend {what} {expected}, found {found}"
  | foreignInput vin => s!"vin {vin} spends agreements escrow outside its fixed position"
  | missingOutput vout what => s!"missing {what} output at vout {vout}"
  | wrongOutputLock vout what => s!"{what} output at vout {vout} has the wrong lock"
  | foreignOutput vout => s!"vout {vout} creates agreements escrow outside its fixed position"
  | wrongEventLock vin => s!"vin {vin} does not spend the agreement's event output"
  | unknownFlags bits => "unknown flag bits " ++ Hex.ofByte bits
  | closeWithoutAmendment => "close flag requires the amendment flag"
  | invalidName length max => s!"name length {length} outside 1..={max}"
  | memoTooLong length max => s!"memo length {length} exceeds {max}"
  | emptyMemo => "dispute memo must not be empty"
  | unlockConditions => "unlock conditions are not supported"
  | unlockOperation => "unlock is not supported"
  | missingPrevout vin outpoint => s!"vin {vin} spends unknown output {outpoint}"
  | reference what cause => cause.message what
  | referenceMismatch what => s!"{what} references a different agreement"
  | invalidPreviousEvent => "attempting to spend an invalid previous event"
  | previousEventUnconfirmed id => s!"previous event {id} is not confirmed"
  | agreementDisputed => "agreement is under dispute"
  | agreementClosed id => s!"agreement {id} is no longer active"
  | missingReference => "amendment offer must reference an agreement"
  | unexpectedReference => "only amendment offers may reference an agreement"
  | notACloseOffer id => s!"offer {id} is not a closing offer"
  | closeOfferNotAcceptable id => s!"closing offer {id} must be accepted by a close transaction"
  | notSignedBy role => s!"transaction is not signed by the {role}"
  | scriptKey role => s!"{role} is a script key, which is not supported yet"
  | invalidPartyKey role => s!"invalid {role} public key"
  | sameParty => "source and destination must differ"
  | arbitratorIsParty => "arbitrator must differ from source and destination"
  | partiesMismatch => "offer parties do not match the referenced agreement"
  | claimantNotParty => "claimant is not a party of the agreement"
  | noArbitrator => "agreement has no arbitrator"
  | disputesDisabled => "disputes are disabled for this agreement"
  | disputeFinal => "dispute is final and cannot be cancelled"
  | offerNotCancellable => "offer source cannot cancel a no-cancel offer"
  | offerExpired age max => s!"offer has expired: {age}s old, limit {max}s"
  | notNotarized what => s!"{what} is not notarized yet"
  | feeNotCovered inputs outputs fee =>
    "inputs " ++ inputs.text ++ " do not cover outputs " ++ outputs.text ++ " plus fee " ++ fee.text
  | negativeOutput vout => s!"output at vout {vout} has a negative value"
  | valueOverflow what => s!"sum of {what} values overflows"
  | amountTooLow what amount min => s!"{what} " ++ amount.text ++ " is below minimum " ++ min.text
  | negativePayment amount => "payment must not be negative, got " ++ amount.text
  | wrongOutputValue vout what expected found =>
    s!"{what} output at vout {vout} must hold exactly " ++ expected.text ++ ", found " ++ found.text
  | outputValueTooLow vout what min found =>
    s!"{what} output at vout {vout} must hold at least " ++ min.text ++ ", found " ++ found.text
  | payoutMismatch offered recorded =>
    "close payout " ++ recorded.text ++ " differs from offer payment " ++ offered.text
  | payoutOutOfRange payout deposit =>
    "claimant payout " ++ payout.text ++ " outside 0..=" ++ deposit.text
  | keySumOverflow => "sum of input values of one key overflows"

end Violation

end Escrow
