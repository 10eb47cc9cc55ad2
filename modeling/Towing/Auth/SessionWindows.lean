import Towing.Auth.Rotation

namespace Towing.Auth

open Towing.Process

variable {env : Env} {s₀ w : World} {cs : List (Call Step World Refusal)} {es : List (ℕ × Event Step World)}
  {F i j k m n t t₀ now activeAt : ℕ} {e e₀ f g : Event Step World} {row : RefreshToken} {new new₀ : NewToken}

/-- What a commit shows of the sessions. -/
inductive Seen
  | drawn (family : ℕ)
  | minted (t family : ℕ) (realm : Realm) (at_ : ℕ)
  | claimed (t family at_ : ℕ)
  | looked
  | nothing
deriving DecidableEq

def seen (e : Event Step World) : Seen :=
  match e.label with
  | .randomUUID => .drawn e.before.nextFamily
  | .insert t new => if (e.before.tokens t).isNone then .minted t new.familyId new.realm e.before.now else .nothing
  | .claim t realms now =>
    match e.before.claimable t realms now with
    | some row => .claimed t row.familyId now
    | none => .nothing
  | .graceGet _ => .looked
  | _ => .nothing

end Towing.Auth
