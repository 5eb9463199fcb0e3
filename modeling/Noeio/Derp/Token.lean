import Mathlib.Tactic.Common

/-!
# Report tokens

`noeio-derp/src/token.rs`. The signature check and the decoding of the payload belong to a
JWT library, so they are the parameter `decode` (token and secret to claims); the expiry is
checked here.
-/

namespace Noeio.Derp

structure Claims where
  iss : String
  sub : String
  iat : UInt64
  exp : Option UInt64
  deriving DecidableEq

/-- The errors of the JWT library, as far as `verify` tells them apart. -/
inductive JwtError where
  | invalidSignature
  | invalidToken
  | base64
  | json
  | utf8
  | missingRequiredClaim
  | other (reason : String)
  deriving DecidableEq

inductive VerifyError where
  | expired (claims : Claims)
  | invalidSignature
  | malformed
  | other (reason : String)
  deriving DecidableEq

def VerifyError.ofJwt : JwtError → VerifyError
  | .invalidSignature => .invalidSignature
  | .invalidToken | .base64 | .json | .utf8 | .missingRequiredClaim => .malformed
  | .other reason => .other reason

/-- Verify a token's signature and expiry at the time `now`. -/
def verify (decode : String → String → Except JwtError Claims) (now : UInt64)
    (secret token : String) : Except VerifyError Claims :=
  match decode token secret with
  | .error err => .error (.ofJwt err)
  | .ok claims =>
    match claims.exp with
    | some exp => if exp < now then .error (.expired claims) else .ok claims
    | none => .ok claims

end Noeio.Derp
