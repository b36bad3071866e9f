import IceCube.Failure
import IceCube.Schema.Check
import IceCube.Text.Blank

/-!
# The environment

Two variables of the environment matter: one turns the caches of all configurations on or off, the
other holds the secret that signs the state of components.
-/

namespace IceCube

/-- The variables that are set. -/
structure Environment where
  cache : Option String
  secretKey : Option String
deriving DecidableEq, Repr, Inhabited

namespace Environment

/-- The variable that overrides the cache setting. -/
def cacheVariable : String := "ICECUBE_CACHE"

/-- The variable of the secret. -/
def secretVariable : String := "ICECUBE_SECRET_KEY"

/-- What a value of the cache variable says, if it says anything. -/
def switch? (value : String) : Option Bool :=
  let word := Schema.lowerAscii (Text.strip value)
  if ["1", "true", "yes", "on"].contains word then some true
  else if ["0", "false", "no", "off"].contains word then some false
  else none

/-- The override of the cache setting, none where the variable is not set or empty. -/
def cacheOverride (env : Environment) : Except Failure (Option Bool) :=
  match env.cache with
  | none | some "" => .ok none
  | some value =>
    match switch? value with
    | some b => .ok (some b)
    | none =>
      .error (.configuration ("Invalid " ++ cacheVariable ++ " value '" ++ value ++ "'") none none)

/-- The secret, which has to be set and not empty. -/
def secret (env : Environment) : Except Failure String :=
  match env.secretKey with
  | none | some "" =>
    .error (.configuration (secretVariable ++ " must be set to sign component state") none none)
  | some key => .ok key

end Environment

end IceCube
