import Maruhi.Lib.Json
import Maruhi.Lib.Sharing

/-!
# Guardian shares (`master-wrap.ts`)

A group key goes to every guardian whole, or split so that all of them are needed.
-/

open Sharing

namespace Maruhi.MasterWrap

def kekBytes : Nat := 32

def maxShares : Nat := 5

/-- `other` is a text that names no mode. -/
inductive GuardianMode
  | any
  | all
  | other (text : JsString)
  deriving DecidableEq

/-- A result, or the name of the input that is refused. -/
abbrev CryptoResult (α : Type) := Except String α

def xorInto (target source : Bytes) : Bytes := target.mapIdx fun i b => b ^^^ source.getD i 0

def countRefused (count : Nat) : Bool := !(count ≤ Json.maxSafeInteger) || count < 1 || maxShares < count

/-- `last` and the shares after the loop over what `getRandomValues` returns. -/
def drawShares (last : Bytes) (draws : List Bytes) : Bytes × List Bytes :=
  draws.foldl (fun state share => (xorInto state.1 share, state.2 ++ [share])) (last, [])

/-- `random` is what the calls to `getRandomValues` return, one for each share but the last. -/
def splitGuardianKek (kek : Bytes) (mode : GuardianMode) (count : Nat) (random : Fin (count - 1) → XorBytes kekBytes) :
    CryptoResult (List Bytes) :=
  if kek.length ≠ kekBytes then .error "kek length"
  else if countRefused count then .error "share count"
  else match mode with
  | .any => .ok (List.replicate count kek)
  | .other _ => .error "mode"
  | .all =>
    if count < 2 then .error "share count"
    else
      let drawn := drawShares kek (List.ofFn fun i => (random i).val)
      .ok (drawn.2 ++ [drawn.1])

def joinGuardianShares (mode : GuardianMode) (shares : List Bytes) (expectedCount : Nat) : CryptoResult Bytes :=
  if countRefused expectedCount then .error "share count"
  else if shares.any fun share => share.length ≠ kekBytes then .error "share length"
  else match mode with
  | .any =>
    match shares with
    | [only] => .ok only
    | _ => .error "share count"
  | .other _ => .error "mode"
  | .all =>
    if shares.length ≠ expectedCount || expectedCount < 2 then .error "share count"
    else .ok (shares.foldl xorInto (List.replicate kekBytes 0))

/-! ## The loops add up shares -/

/-- The counts a mode takes. -/
def CountAllowed (mode : GuardianMode) (count : Nat) : Prop :=
  match mode with
  | .any => 1 ≤ count ∧ count ≤ maxShares
  | .all => 2 ≤ count ∧ count ≤ maxShares
  | .other _ => False

theorem countRefused_eq_false {count : Nat} : countRefused count = false ↔ 1 ≤ count ∧ count ≤ maxShares := by
  unfold countRefused maxShares Json.maxSafeInteger
  rw [← Bool.not_eq_true]
  simp only [Bool.or_eq_true, Bool.not_eq_true', decide_eq_true_eq, decide_eq_false_iff_not]
  omega

theorem xorInto_val {n : Nat} (a b : XorBytes n) : xorInto a.val b.val = (a + b).val := by
  have hlength : (xorInto a.val b.val).length = n := by rw [xorInto, List.length_mapIdx, a.length_val]
  refine List.ext_getElem (hlength.trans (a + b).length_val.symm) fun i hi hi' => ?_
  have hsum : (a + b).val[i] = a.val.getD i 0 ^^^ b.val.getD i 0 := by
    rw [List.getElem_eq_getD 0]
    exact XorBytes.get_xor a b (hlength ▸ hi)
  simp only [xorInto, List.getElem_mapIdx]
  rw [hsum, List.getElem_eq_getD 0]

theorem foldl_xorInto {n : Nat} (a : XorBytes n) (l : List (XorBytes n)) :
    (l.map XorBytes.val).foldl xorInto a.val = (a + l.sum).val := by
  induction l generalizing a with
  | nil => simp
  | cons b rest ih => rw [List.map_cons, List.foldl_cons, xorInto_val, ih, List.sum_cons, add_assoc]

theorem drawShares_eq (last : Bytes) (draws : List Bytes) : drawShares last draws = (draws.foldl xorInto last, draws) := by
  have hloop : ∀ (last : Bytes) (shares draws : List Bytes),
      draws.foldl (fun state share => (xorInto state.1 share, state.2 ++ [share])) (last, shares) =
        (draws.foldl xorInto last, shares ++ draws) := by
    intro last shares draws
    induction draws generalizing last shares with
    | nil => simp
    | cons share rest ih => rw [List.foldl_cons, ih, List.foldl_cons, List.append_assoc, List.singleton_append]
  exact hloop last [] draws

theorem splitGuardianKek_all (kek : XorBytes kekBytes) {count : Nat} (hcount : CountAllowed .all count)
    (random : Fin (count - 1) → XorBytes kekBytes) :
    splitGuardianKek kek.val .all count random = .ok ((split kek random).map XorBytes.val) := by
  obtain ⟨hlow, hhigh⟩ := hcount
  unfold splitGuardianKek
  rw [if_neg (not_not.mpr kek.length_val), if_neg (by rw [(countRefused_eq_false).mpr ⟨by omega, hhigh⟩]; decide)]
  dsimp only
  rw [if_neg (by omega), drawShares_eq]
  have hdraws : (List.ofFn fun i => (random i).val) = (List.ofFn random).map XorBytes.val := by rw [List.map_ofFn]; rfl
  rw [hdraws]
  dsimp only
  rw [foldl_xorInto, List.sum_ofFn, split, List.map_append]
  rfl

theorem splitGuardianKek_any (kek : XorBytes kekBytes) {count : Nat} (hcount : CountAllowed .any count)
    (random : Fin (count - 1) → XorBytes kekBytes) :
    splitGuardianKek kek.val .any count random = .ok (List.replicate count kek.val) := by
  unfold splitGuardianKek
  rw [if_neg (not_not.mpr kek.length_val), if_neg (by rw [(countRefused_eq_false).mpr hcount]; decide)]

theorem splitGuardianKek_ok_iff (kek : XorBytes kekBytes) (mode : GuardianMode) (count : Nat)
    (random : Fin (count - 1) → XorBytes kekBytes) :
    (∃ shares, splitGuardianKek kek.val mode count random = .ok shares) ↔ CountAllowed mode count := by
  constructor
  · rintro ⟨shares, h⟩
    unfold splitGuardianKek at h
    rw [if_neg (not_not.mpr kek.length_val)] at h
    cases hrefused : countRefused count with
    | true =>
      rw [hrefused, if_pos rfl] at h
      cases h
    | false =>
      rw [hrefused, if_neg (by decide)] at h
      have hrange := (countRefused_eq_false).mp hrefused
      cases mode with
      | any => exact hrange
      | other text => cases h
      | all =>
        dsimp only at h
        split_ifs at h with hfew
        exact ⟨by omega, hrange.2⟩
  · intro hcount
    cases mode with
    | any => exact ⟨_, splitGuardianKek_any kek hcount random⟩
    | all => exact ⟨_, splitGuardianKek_all kek hcount random⟩
    | other text => exact hcount.elim

theorem joinGuardianShares_all {count : Nat} (hcount : CountAllowed .all count) (shares : List (XorBytes kekBytes))
    (hlength : shares.length = count) :
    joinGuardianShares .all (shares.map XorBytes.val) count = .ok shares.sum.val := by
  obtain ⟨hlow, hhigh⟩ := hcount
  have hsize : ((shares.map XorBytes.val).any fun share => share.length ≠ kekBytes) = false := by
    simp [List.any_eq_false, XorBytes.length_val]
  unfold joinGuardianShares
  rw [if_neg (by rw [(countRefused_eq_false).mpr ⟨by omega, hhigh⟩]; decide), hsize, if_neg (by decide)]
  dsimp only
  rw [if_neg (by simp [hlength]; omega)]
  have hzero : List.replicate kekBytes (0 : UInt8) = (0 : XorBytes kekBytes).val := rfl
  rw [hzero, foldl_xorInto, zero_add]

theorem joinGuardianShares_any {expectedCount : Nat} (hcount : CountAllowed .any expectedCount) (share : XorBytes kekBytes) :
    joinGuardianShares .any [share.val] expectedCount = .ok share.val := by
  unfold joinGuardianShares
  rw [if_neg (by rw [(countRefused_eq_false).mpr hcount]; decide), if_neg (by simp [share.length_val])]

/-! ## All shares and all but one -/

/-- The key comes back from what its mode asks for, and short of one share every key looks the same. -/
theorem guardian_sharing (kek : XorBytes kekBytes) (count : Nat) :
    (∀ mode random, (∃ shares, splitGuardianKek kek.val mode count random = .ok shares) ↔ CountAllowed mode count) ∧
    (∀ random shares, splitGuardianKek kek.val .any count random = .ok shares → shares.length = count ∧
      ∀ share ∈ shares, ∀ expectedCount, CountAllowed .any expectedCount →
        joinGuardianShares .any [share] expectedCount = .ok kek.val) ∧
    (∀ random shares, splitGuardianKek kek.val .all count random = .ok shares → shares.length = count ∧
      ∀ given, given.Perm shares → joinGuardianShares .all given count = .ok kek.val) ∧
    ∀ kek' : XorBytes kekBytes, CountAllowed .all count → ∀ known ⊆ Finset.range count, known.card = count - 1 →
      ∃ swap : (Fin (count - 1) → XorBytes kekBytes) ≃ (Fin (count - 1) → XorBytes kekBytes), ∀ random,
        ∃ shares shares', splitGuardianKek kek.val .all count random = .ok shares ∧
          splitGuardianKek kek'.val .all count (swap random) = .ok shares' ∧ ∀ i ∈ known, shares'[i]? = shares[i]? := by
  refine ⟨fun mode random => splitGuardianKek_ok_iff kek mode count random, fun random shares h => ?_,
    fun random shares h => ?_, fun kek' hcount known hknown hcard => ?_⟩
  · have hcount := (splitGuardianKek_ok_iff kek .any count random).mp ⟨shares, h⟩
    rw [splitGuardianKek_any kek hcount random] at h
    cases h
    refine ⟨List.length_replicate, fun share hshare expectedCount hexpected => ?_⟩
    rw [(List.mem_replicate.mp hshare).2]
    exact joinGuardianShares_any hexpected kek
  · have hcount := (splitGuardianKek_ok_iff kek .all count random).mp ⟨shares, h⟩
    rw [splitGuardianKek_all kek hcount random] at h
    cases h
    have hlength : (split kek random).length = count := by
      rw [length_split]
      have := hcount.1
      omega
    refine ⟨by rw [List.length_map, hlength], fun given hgiven => ?_⟩
    have hcomp : Relation.Comp (fun l l' => l = l'.map XorBytes.val) List.Perm given (split kek random) := by
      rw [List.eq_map_comp_perm]
      exact hgiven
    obtain ⟨shares, rfl, hperm⟩ := hcomp
    rw [joinGuardianShares_all hcount shares (hperm.length_eq.trans hlength), hperm.sum_eq, sum_split XorBytes.add_self]
  · have hmissing : ∃ missing ∈ Finset.range count, missing ∉ known := by
      refine Finset.exists_mem_notMem_of_card_lt_card ?_
      rw [hcard, Finset.card_range]
      have := hcount.1
      omega
    obtain ⟨missing, hrange, hnot⟩ := hmissing
    rw [Finset.mem_range] at hrange
    refine ⟨remask missing (kek - kek'), fun random => ⟨_, _, splitGuardianKek_all kek hcount random,
      splitGuardianKek_all kek' hcount _, fun i hi => ?_⟩⟩
    have hne : i ≠ missing := fun heq => hnot (heq ▸ hi)
    rw [List.getElem?_map, List.getElem?_map, split_remask (by omega) hne]

def exampleKek : XorBytes kekBytes := ⟨List.replicate kekBytes 7, rfl⟩

def exampleRandom (i : Fin 2) : XorBytes kekBytes := ⟨List.replicate kekBytes (UInt8.ofNat (i.val + 1)), rfl⟩

/-- Three guardians, in the other order. -/
theorem guardian_sharing_example : ∃ shares, splitGuardianKek exampleKek.val .all 3 exampleRandom = .ok shares ∧
    joinGuardianShares .all shares.reverse 3 = .ok exampleKek.val := by
  obtain ⟨hallowed, -, hall, -⟩ := guardian_sharing exampleKek 3
  obtain ⟨shares, hshares⟩ := (hallowed .all exampleRandom).mpr ⟨by decide, by decide⟩
  exact ⟨shares, hshares, (hall exampleRandom shares hshares).2 shares.reverse shares.reverse_perm⟩

end Maruhi.MasterWrap
