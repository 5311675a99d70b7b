import Escrow.Params
import Escrow.Yaml.Number

/-!
# Parameters from settings

Settings name parameters and give them as words. A parameter may be left out,
which stands for its default, but not given twice.
-/

namespace Escrow.Params

/-- An amount in a word. -/
def amountOf? (word : String) : Option Amount :=
  (Yaml.signed? word).bind Amount.ofInt?

/-- A natural number of 64 bits in a word. -/
def sizeOf? (word : String) : Option Nat :=
  (Yaml.unsigned? word).filter (· < 0x10000000000000000)

/-- Parameters with the one of a name set to the number in a word. -/
def set? (p : Params) (name word : String) : Option Params :=
  match name with
  | "tx_fee" => (amountOf? word).map fun n => { p with txFee := n }
  | "marker_value" => (amountOf? word).map fun n => { p with markerValue := n }
  | "block_time_secs" => (sizeOf? word).map fun n => { p with blockTime := UInt64.ofNat n }
  | "offer_expiry_secs" => (sizeOf? word).map fun n => { p with offerExpiry := UInt64.ofNat n }
  | "max_name_len" => (sizeOf? word).map fun n => { p with maxName := n }
  | "max_memo_len" => (sizeOf? word).map fun n => { p with maxMemo := n }
  | "max_opret_size" => (sizeOf? word).map fun n => { p with maxPayload := n }
  | "max_event_chain" => (sizeOf? word).map fun n => { p with maxEvents := n }
  | _ => none

/-- The parameters that settings make of the default ones. -/
def ofSettings? (settings : List (String × String)) : Option Params :=
  if (settings.map Prod.fst).Nodup then
    settings.foldlM (fun p (name, word) => p.set? name word) {}
  else none

end Escrow.Params
