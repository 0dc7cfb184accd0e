import Maruhi.Lib.OrderedMap
import Maruhi.Lib.Text

/-!
# Rotation flags and the value lineage

The flag derivation of `rotation-detect.ts`: one pass over the recommended, dismissed and pushed rows in
seq order, grouped by (variable × environment).
-/

open Text

namespace Maruhi.Rotation

/-- A value in a payload, as the derivation sees it. -/
inductive PayloadValue
  | text (value : JsString)
  | number (value : Rat)
  | other
  deriving DecidableEq

/-- The properties of a payload that the derivation reads. -/
structure FlagPayload where
  basis : Option PayloadValue
  trigger : Option PayloadValue
  triggerChainSeq : Option PayloadValue
  sameValueAs : Option PayloadValue
  deriving DecidableEq

inductive FlagEvent
  | recommended
  | dismissed
  | versionPushed
  deriving DecidableEq, Repr

structure RotationFlagSourceRow where
  seq : Nat
  serverTs : Nat
  event : FlagEvent
  environmentId : JsString
  variableId : JsString
  version : Option Nat
  epoch : Option Nat
  targetUserId : Option JsString
  targetKeyFingerprintHex : Option JsString
  payload : Option FlagPayload
  deriving DecidableEq

inductive RotationBasis
  | read
  | readable
  deriving DecidableEq, Repr

inductive RotationTrigger
  | removeMember
  | changeRole
  | revokeServer
  | revokeDevice
  deriving DecidableEq, Repr

structure EffectiveRotationFlag where
  environmentId : JsString
  variableId : JsString
  basis : RotationBasis
  targetUserId : Option JsString
  targetServerKeyFingerprintHex : Option JsString
  recommendedAtMs : Nat
  triggerChainSeq : Rat
  trigger : RotationTrigger
  reopenedByVersion : Option Nat
  deriving DecidableEq

/-- `rotation.recommended row has no valid trigger`, with the trigger read. -/
structure InvalidTrigger where
  trigger : Option PayloadValue
  deriving DecidableEq

/-! ## Reading a row -/

def pairKey (environmentId variableId : JsString) : JsString := environmentId ++ [0] ++ variableId

def triggerNamed (name : JsString) : Option RotationTrigger :=
  if name = lit "remove_member" then some .removeMember
  else if name = lit "change_role" then some .changeRole
  else if name = lit "revoke_server" then some .revokeServer
  else if name = lit "revoke_device" then some .revokeDevice
  else none

def triggerOf (row : RotationFlagSourceRow) : Except InvalidTrigger RotationTrigger :=
  match row.payload.bind (·.trigger) with
  | some (.text name) => (triggerNamed name).elim (.error ⟨some (.text name)⟩) .ok
  | trigger => .error ⟨trigger⟩

def basisOf (row : RotationFlagSourceRow) : RotationBasis :=
  if row.payload.bind (·.basis) = some (.text (lit "read")) then .read else .readable

def triggerChainSeqOf (row : RotationFlagSourceRow) : Rat :=
  match row.payload.bind (·.triggerChainSeq) with
  | some (.number value) => if 1 ≤ value then value else 1
  | _ => 1

def flagOf (row : RotationFlagSourceRow) : Except InvalidTrigger EffectiveRotationFlag :=
  (triggerOf row).map fun trigger =>
    { environmentId := row.environmentId
      variableId := row.variableId
      basis := basisOf row
      targetUserId := row.targetUserId
      targetServerKeyFingerprintHex := row.targetKeyFingerprintHex
      recommendedAtMs := row.serverTs
      triggerChainSeq := triggerChainSeqOf row
      trigger := trigger
      reopenedByVersion := none }

/-- The version that a push declares its value the same as: a number, an integer, and at least 1. -/
def sameValueAs (row : RotationFlagSourceRow) : Option Nat :=
  match row.payload.bind (·.sameValueAs) with
  | some (.number value) => if value.isInt ∧ 1 ≤ value then some value.num.toNat else none
  | _ => none

def originEpochOf (row : RotationFlagSourceRow) (origins : OrderedMap Nat Nat) : Nat :=
  match sameValueAs row with
  | some version => (origins.get? version).getD 0
  | none => row.epoch.getD 0

/-! ## The fold -/

/-- An origin is at or below an exposure bound. An absent bound is `+Infinity`. -/
def within (origin : Nat) (epochBound : Option Nat) : Bool := epochBound.elim true fun bound => origin ≤ bound

structure FlagState where
  flag : EffectiveRotationFlag
  epochBound : Option Nat
  dismissed : Bool
  resolved : Bool
  reopenedByVersion : Option Nat
  deriving DecidableEq

structure PairState where
  flags : List FlagState
  origins : OrderedMap Nat Nat
  liveOrigin : Option Nat

def emptyPair : PairState := ⟨[], OrderedMap.empty, none⟩

/-- A push moves a flag that is not dismissed between resolved and effective. -/
def moveFlag (origin : Nat) (version : Option Nat) (flag : FlagState) : FlagState :=
  if flag.dismissed then flag
  else
    { flag with
      reopenedByVersion :=
        if within origin flag.epochBound then (if flag.resolved then version else flag.reopenedByVersion) else none
      resolved := !within origin flag.epochBound }

def applyPush (pair : PairState) (row : RotationFlagSourceRow) : PairState :=
  let origin := originEpochOf row pair.origins
  { flags := pair.flags.map (moveFlag origin row.version)
    origins := row.version.elim pair.origins fun version => pair.origins.set version origin
    liveOrigin := some origin }

/-- A new flag starts effective unless the live value's origin is above its bound already. -/
def newFlag (pair : PairState) (row : RotationFlagSourceRow) (flag : EffectiveRotationFlag) : FlagState where
  flag := flag
  epochBound := row.epoch
  dismissed := false
  resolved := pair.liveOrigin.elim false fun origin => !within origin row.epoch
  reopenedByVersion := none

/-- A dismissal covers the flags that are effective then. -/
def dismiss (flag : FlagState) : FlagState := { flag with dismissed := flag.dismissed || !flag.resolved }

def foldPair (pair : PairState) (row : RotationFlagSourceRow) : Except InvalidTrigger PairState :=
  match row.event with
  | .recommended => (flagOf row).map fun flag => { pair with flags := pair.flags ++ [newFlag pair row flag] }
  | .dismissed => .ok { pair with flags := pair.flags.map dismiss }
  | .versionPushed => .ok (applyPush pair row)

def foldRow (pairs : OrderedMap JsString PairState) (row : RotationFlagSourceRow) :
    Except InvalidTrigger (OrderedMap JsString PairState) :=
  let key := pairKey row.environmentId row.variableId
  (foldPair ((pairs.get? key).getD emptyPair) row).map (pairs.set key)

def foldPairs (rows : List RotationFlagSourceRow) : Except InvalidTrigger (OrderedMap JsString PairState) :=
  rows.foldlM foldRow OrderedMap.empty

/-- What is reported of a flag. -/
def reportOf (state : FlagState) : Option EffectiveRotationFlag :=
  if state.dismissed || state.resolved then none
  else
    some (match state.reopenedByVersion with
      | none => state.flag
      | some version => { state.flag with reopenedByVersion := some version })

def deriveEffectiveFlags (rows : List RotationFlagSourceRow) : Except InvalidTrigger (List EffectiveRotationFlag) :=
  (foldPairs rows).map fun pairs => pairs.values.flatMap fun pair => pair.flags.filterMap reportOf

/-- For each listed version, the flags not dismissed that are effective while its value is the live one. -/
def flagsIfCurrentByVersion (rows : List RotationFlagSourceRow) (versions : List Nat) :
    Except InvalidTrigger (OrderedMap Nat Nat) :=
  (foldPairs rows).map fun pairs =>
    let pair := pairs.values.head?
    let live := (pair.elim [] PairState.flags).filter fun flag => !flag.dismissed
    OrderedMap.ofEntries (versions.map fun version =>
      let origin := (pair.bind fun p => p.origins.get? version).getD 0
      (version, (live.filter fun flag => within origin flag.epochBound).length))

end Maruhi.Rotation
