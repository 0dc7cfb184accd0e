import Maruhi.Chain.Scope

/-!
# Device keys and effective permission (`chain-device.ts`)
-/

namespace Maruhi.Chain

def roleRank : Role → Nat
  | .reader => 0
  | .member => 1
  | .admin => 2
  | .owner => 3

def minRole (a b : Role) : Role := if roleRank a ≤ roleRank b then a else b

def firstDeviceCap : DeviceCap := { roleCap := .owner, scope := .all }

/-- The permission a signing device holds. -/
structure EffectivePermission where
  role : Role
  scope : MemberScope
  deriving DecidableEq, Repr

def intersectScopes : MemberScope → MemberScope → MemberScope
  | .all, b => b
  | .listed as, .all => .listed as
  | .listed as, .listed bs => .listed (as.filter fun id => bs.contains id)

/-- What a device grants under a person's role and scope. -/
def permissionUnder (role : Role) (scope : MemberScope) (device : DeviceCap) : EffectivePermission where
  role := minRole role device.roleCap
  scope := intersectScopes scope device.scope

def effectivePermissionOf (person : ChainMember) (device : DeviceCap) : EffectivePermission :=
  permissionUnder person.role person.scope device

def capWithinCap (candidate signer : DeviceCap) : Bool :=
  if roleRank candidate.roleCap > roleRank signer.roleCap then false
  else match signer.scope, candidate.scope with
    | .all, _ => true
    | .listed _, .all => false
    | .listed allowed, .listed ids => ids.all fun id => allowed.contains id

/-- The member's only device, or none when the member holds none or several. -/
def soleDeviceOf (member : ChainMember) : Option ChainDevice :=
  if member.devices.size ≠ 1 then none else member.devices.values.head?

/-! ## What they compute -/

theorem minRole_eq_owner_iff (a b : Role) : minRole a b = .owner ↔ a = .owner ∧ b = .owner := by
  cases a <;> cases b <;> simp [minRole, roleRank]

theorem has_intersectScopes (a b : MemberScope) (e : EnvironmentId) :
    (intersectScopes a b).Has e ↔ a.Has e ∧ b.Has e := by
  cases a <;> cases b <;> simp [intersectScopes]

theorem capWithinCap_iff (candidate signer : DeviceCap) :
    capWithinCap candidate signer = true ↔
      roleRank candidate.roleCap ≤ roleRank signer.roleCap ∧ candidate.scope.Within signer.scope := by
  unfold capWithinCap MemberScope.Within
  split_ifs with h
  · simp only [false_iff, not_and]
    intro hle; omega
  · have hle : roleRank candidate.roleCap ≤ roleRank signer.roleCap := by omega
    cases hs : signer.scope <;> cases hc : candidate.scope <;> simp [hle]

theorem has_effectiveScope (m : ChainMember) (d : DeviceCap) (e : EnvironmentId) :
    (effectivePermissionOf m d).scope.Has e ↔ m.scope.Has e ∧ d.scope.Has e := has_intersectScopes _ _ e

theorem effectiveRole_owner_iff (m : ChainMember) (d : DeviceCap) :
    (effectivePermissionOf m d).role = .owner ↔ m.role = .owner ∧ d.roleCap = .owner :=
  minRole_eq_owner_iff _ _

end Maruhi.Chain
