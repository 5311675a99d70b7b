import Escrow.Key
import Escrow.Json.Reading

/-!
# Keys and signatures as JSON

Both are their hexadecimal text.
-/

namespace Escrow

def PublicKey.toJson (k : PublicKey) : Json :=
  .str k.hex

def PublicKey.ofJson? (j : Json) : Option PublicKey := do
  (PublicKey.ofHex (← j.text?)).toOption

def Signature.toJson (s : Signature) : Json :=
  .str s.hex

def Signature.ofJson? (j : Json) : Option Signature := do
  (Signature.ofHex (← j.text?)).toOption

end Escrow
