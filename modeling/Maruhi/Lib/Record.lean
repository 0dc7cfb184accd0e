import Maruhi.Lib.OrderedMap
import Maruhi.Lib.Text

/-!
# Objects used as records

An object enumerates its own keys in one fixed order: the array indices first, ascending, and then
the other keys as they were added. A record holds its entries in that order.
-/

open Text

/-- A type of property keys: each is written as one text. -/
class PropertyKey (K : Type) where
  text : K → JsString
  text_inj : ∀ k k', text k = text k' → k = k'

instance : PropertyKey JsString := ⟨id, fun _ _ h => h⟩

namespace Record

/-- The value of a decimal numeral. -/
def numeral (s : JsString) : Nat := s.foldl (fun n u => 10 * n + (u.toNat - 48)) 0

/-- The array index a text is, if it is one: a canonical numeral below 2^32 - 1. -/
def arrayIndex? (s : JsString) : Option Nat :=
  if decimal (numeral s) = s ∧ numeral s < 4294967295 then some (numeral s) else none

/-- An index goes before the larger indices and before every key that is none. -/
def indexBefore : Option Nat → Option Nat → Bool
  | some m, some n => m < n
  | some _, none => true
  | none, _ => false

variable {K V : Type} [PropertyKey K]

def precedes (k k' : K) : Bool :=
  indexBefore (arrayIndex? (PropertyKey.text k)) (arrayIndex? (PropertyKey.text k'))

theorem precedes_asymm {k k' : K} (h : precedes k k' = true) : precedes k' k = false := by
  unfold precedes at h ⊢
  cases hk : arrayIndex? (PropertyKey.text k) <;> cases hk' : arrayIndex? (PropertyKey.text k') <;>
    simp [hk, hk', indexBefore] at h ⊢
  omega

theorem precedes_trans {a b c : K} (h : precedes a b = true) (h' : precedes c b = false) : precedes a c = true := by
  unfold precedes at h h' ⊢
  cases ha : arrayIndex? (PropertyKey.text a) <;> cases hb : arrayIndex? (PropertyKey.text b) <;>
    cases hc : arrayIndex? (PropertyKey.text c) <;> simp [ha, hb, hc, indexBefore] at h h' ⊢
  omega

variable [DecidableEq K]

/-- `object[k] = v` on the entries: in place if `k` is there, at the place of an index, or at the end. -/
def assign (k : K) (v : V) : List (K × V) → List (K × V)
  | [] => [(k, v)]
  | e :: rest =>
    if e.1 = k then (k, v) :: rest
    else if precedes k e.1 then (k, v) :: e :: rest
    else e :: assign k v rest

attribute [grind =] assign

/-- No key stands after one that it should precede. -/
def InOrder (keys : List K) : Prop := keys.Pairwise fun k k' => precedes k' k = false

theorem lookup_assign (k k' : K) (v : V) (l : List (K × V)) :
    (assign k v l).lookup k' = if k' = k then some v else l.lookup k' := by
  induction l with
  | nil => simp [assign, lookup_cons_if]
  | cons e rest ih =>
    unfold assign
    by_cases he : e.1 = k
    · rw [if_pos he, lookup_cons_if, lookup_cons_if, he]
      split_ifs <;> rfl
    · rw [if_neg he]
      by_cases hp : precedes k e.1 = true
      · rw [if_pos hp, lookup_cons_if]
      · rw [if_neg hp, lookup_cons_if, lookup_cons_if, ih]
        by_cases h : k' = k
        · simp [h, Ne.symm he]
        · simp [h]

/-- The keys of an assignment do not depend on the values. -/
def place (k : K) : List K → List K
  | [] => [k]
  | e :: rest => if e = k then k :: rest else if precedes k e then k :: e :: rest else e :: place k rest

attribute [grind =] place

theorem assign_keys (k : K) (v : V) (l : List (K × V)) : (assign k v l).map Prod.fst = place k (l.map Prod.fst) := by
  induction l with
  | nil => rfl
  | cons e rest ih =>
    unfold assign
    rw [List.map_cons, place]
    split_ifs
    · simp
    · simp
    · simp [ih]

theorem mem_place (k a : K) (keys : List K) : a ∈ place k keys ↔ a = k ∨ a ∈ keys := by
  induction keys with
  | nil => simp [place]
  | cons e rest ih =>
    unfold place
    split_ifs with he hp
    · simp [he]
    · simp
    · simp only [List.mem_cons, ih]
      tauto

theorem place_of_mem {k : K} {keys : List K} (h : InOrder keys) (hk : k ∈ keys) : place k keys = keys := by
  induction keys with
  | nil => simp at hk
  | cons e rest ih =>
    unfold place
    by_cases he : e = k
    · simp [he]
    · have hrest : k ∈ rest := (List.mem_cons.mp hk).resolve_left (Ne.symm he)
      have hp : precedes k e = false := (List.pairwise_cons.mp h).1 k hrest
      rw [if_neg he, hp, ih (List.pairwise_cons.mp h).2 hrest]
      simp

theorem place_last {k : K} {keys : List K} (hk : k ∉ keys) (h : ∀ e ∈ keys, precedes k e = false) :
    place k keys = keys ++ [k] := by
  induction keys with
  | nil => rfl
  | cons e rest ih =>
    rw [List.mem_cons, not_or] at hk
    unfold place
    rw [if_neg (Ne.symm hk.1), h e (by simp), ih hk.2 fun a ha => h a (by simp [ha])]
    simp

theorem place_inOrder {k : K} {keys : List K} (h : InOrder keys) : InOrder (place k keys) := by
  induction keys with
  | nil => simp [place, InOrder]
  | cons e rest ih =>
    obtain ⟨hhead, htail⟩ := List.pairwise_cons.mp h
    unfold place
    split_ifs with he hp
    · exact he ▸ h
    · refine List.pairwise_cons.mpr ⟨fun a ha => ?_, h⟩
      rcases List.mem_cons.mp ha with rfl | ha
      · exact precedes_asymm hp
      · exact precedes_asymm (precedes_trans hp (hhead a ha))
    · refine List.pairwise_cons.mpr ⟨fun a ha => ?_, ih htail⟩
      rcases (mem_place k a rest).mp ha with rfl | ha
      · simpa using hp
      · exact hhead a ha

theorem place_nodup {k : K} {keys : List K} (h : InOrder keys) (hn : keys.Nodup) : (place k keys).Nodup := by
  by_cases hk : k ∈ keys
  · rw [place_of_mem h hk]
    exact hn
  · clear h
    induction keys with
    | nil => simp [place]
    | cons e rest ih =>
      rw [List.mem_cons, not_or] at hk
      rw [List.nodup_cons] at hn
      unfold place
      split_ifs with he hp
      · exact absurd he.symm hk.1
      · simp [hk.1, hk.2, hn.1, hn.2]
      · refine List.nodup_cons.mpr ⟨fun hm => ?_, ih hn.2 hk.2⟩
        rcases (mem_place k e rest).mp hm with rfl | hm
        · exact he rfl
        · exact hn.1 hm

end Record

structure Record (K V : Type) [PropertyKey K] where
  entries : List (K × V)
  nodup : (entries.map Prod.fst).Nodup
  inOrder : Record.InOrder (entries.map Prod.fst)

namespace Record
variable {K V : Type} [PropertyKey K]

@[ext]
theorem ext {r r' : Record K V} (h : r.entries = r'.entries) : r = r' := by
  cases r; cases r'; cases h; rfl

def keys (r : Record K V) : List K := r.entries.map Prod.fst

/-- The object without properties. -/
def empty : Record K V := ⟨[], List.nodup_nil, by simp [InOrder]⟩

variable [DecidableEq K]

instance [DecidableEq V] : DecidableEq (Record K V) := fun r r' =>
  decidable_of_iff (r.entries = r'.entries) ⟨ext, fun h => h ▸ rfl⟩

/-- An own property. -/
def get? (r : Record K V) (k : K) : Option V := r.entries.lookup k

def set (r : Record K V) (k : K) (v : V) : Record K V :=
  ⟨assign k v r.entries, by rw [assign_keys]; exact place_nodup r.inOrder r.nodup,
    by rw [assign_keys]; exact place_inOrder r.inOrder⟩

/-- The object of a list of assignments. -/
def ofEntries (l : List (K × V)) : Record K V := l.foldl (fun r e => r.set e.1 e.2) empty

@[simp] theorem get?_empty (k : K) : (empty : Record K V).get? k = none := rfl

theorem get?_set (r : Record K V) (k k' : K) (v : V) :
    (r.set k v).get? k' = if k' = k then some v else r.get? k' := lookup_assign k k' v r.entries

@[simp] theorem get?_set_self (r : Record K V) (k : K) (v : V) : (r.set k v).get? k = some v := by simp [get?_set]

theorem mem_entries (r : Record K V) (k : K) (v : V) : (k, v) ∈ r.entries ↔ r.get? k = some v :=
  (lookup_eq_some_iff_mem k v r.entries r.nodup).symm

theorem mem_keys (r : Record K V) (k : K) : k ∈ r.keys ↔ ∃ v, r.get? k = some v := by
  rw [← Option.isSome_iff_exists]
  exact (lookup_isSome_iff k r.entries).symm

theorem keys_set (r : Record K V) (k : K) (v : V) : (r.set k v).keys = place k r.keys := assign_keys k v r.entries

theorem keys_set_of_mem {r : Record K V} {k : K} (v : V) (h : k ∈ r.keys) : (r.set k v).keys = r.keys := by
  rw [keys_set]
  exact place_of_mem r.inOrder h

omit [PropertyKey K] in
theorem entries_of_keys (l l' : List (K × V)) (hkeys : l.map Prod.fst = l'.map Prod.fst) (hn : (l.map Prod.fst).Nodup)
    (hget : ∀ k, l.lookup k = l'.lookup k) : l = l' := by
  induction l generalizing l' with
  | nil => exact (List.map_eq_nil_iff.mp hkeys.symm).symm
  | cons e rest ih =>
    cases l' with
    | nil => cases hkeys
    | cons e' rest' =>
      obtain ⟨k, v⟩ := e
      obtain ⟨k', v'⟩ := e'
      simp only [List.map_cons, List.cons.injEq] at hkeys
      rw [List.map_cons, List.nodup_cons] at hn
      obtain ⟨rfl, htail⟩ := hkeys
      have hv : v = v' := by simpa using hget k
      rw [hv, ih rest' htail hn.2]
      intro a
      by_cases ha : a = k
      · have hout : ∀ l : List (K × V), k ∉ l.map Prod.fst → l.lookup k = none := fun l hl => by
          rw [← Option.not_isSome_iff_eq_none, lookup_isSome_iff]
          exact hl
        rw [ha, hout rest hn.1, hout rest' (htail ▸ hn.1)]
      · simpa [lookup_cons_if, ha] using hget a

theorem ext_keys {r r' : Record K V} (hkeys : r.keys = r'.keys) (hget : ∀ k, r.get? k = r'.get? k) : r = r' :=
  ext (entries_of_keys r.entries r'.entries hkeys r.nodup hget)

theorem set_set (r : Record K V) (k : K) (v w : V) : (r.set k v).set k w = r.set k w := by
  have hmem : k ∈ (r.set k v).keys := (mem_keys _ _).mpr ⟨v, get?_set_self r k v⟩
  apply ext_keys
  · rw [keys_set_of_mem w hmem, keys_set, keys_set]
  · intro a
    simp only [get?_set]
    split_ifs <;> rfl

theorem set_comm {r : Record K V} {k k' : K} (v v' : V) (h : k ∈ r.keys) (hne : k ≠ k') :
    (r.set k' v').set k v = (r.set k v).set k' v' := by
  have hmem : k ∈ (r.set k' v').keys := by
    rw [keys_set, mem_place]
    exact Or.inr h
  apply ext_keys
  · rw [keys_set_of_mem v hmem, keys_set, keys_set, keys_set_of_mem v h]
  · intro a
    simp only [get?_set]
    split_ifs with h₁ h₂ <;> first | rfl | exact absurd (h₁.symm.trans h₂) hne

theorem foldl_set_comm (l : List (K × V)) {r : Record K V} {k : K} (v : V) (h : k ∈ r.keys)
    (hl : k ∉ l.map Prod.fst) :
    (l.foldl (fun r e => r.set e.1 e.2) r).set k v = l.foldl (fun r e => r.set e.1 e.2) (r.set k v) := by
  induction l generalizing r with
  | nil => rfl
  | cons e rest ih =>
    rw [List.map_cons, List.mem_cons, not_or] at hl
    rw [List.foldl_cons, List.foldl_cons, ih (by rw [keys_set, mem_place]; exact Or.inr h) hl.2,
      set_comm v e.2 h hl.1]

theorem entries_foldl_set (l : List (K × V)) (r : Record K V) (hn : ((r.entries ++ l).map Prod.fst).Nodup)
    (ho : InOrder ((r.entries ++ l).map Prod.fst)) :
    (l.foldl (fun r e => r.set e.1 e.2) r).entries = r.entries ++ l := by
  induction l generalizing r with
  | nil => simp
  | cons e rest ih =>
    have hlast : (r.set e.1 e.2).entries = r.entries ++ [e] := by
      rw [List.map_append, List.map_cons] at hn ho
      have hout : e.1 ∉ r.keys := fun hm => (List.nodup_append.mp hn).2.2 e.1 hm e.1 (by simp) rfl
      have hpre : ∀ a ∈ r.keys, precedes e.1 a = false := fun a ha =>
        (List.pairwise_append.mp ho).2.2 a ha e.1 (by simp)
      refine entries_of_keys _ _ ?_ (r.set e.1 e.2).nodup fun k => ?_
      · rw [show (r.set e.1 e.2).entries.map Prod.fst = place e.1 r.keys from keys_set r e.1 e.2,
          place_last hout hpre, List.map_append]
        rfl
      · have hget := get?_set r e.1 k e.2
        unfold get? at hget
        have hnone : r.entries.lookup e.1 = none := by
          rw [← Option.not_isSome_iff_eq_none, lookup_isSome_iff]
          exact hout
        rw [hget, List.lookup_append, lookup_cons_if]
        by_cases hk : k = e.1
        · simp [hk, hnone]
        · simp [hk]
    rw [List.foldl_cons, ih (r.set e.1 e.2) (by rw [hlast]; simpa using hn) (by rw [hlast]; simpa using ho), hlast,
      List.append_assoc, List.singleton_append]

theorem entries_ofEntries {l : List (K × V)} (hn : (l.map Prod.fst).Nodup) (ho : InOrder (l.map Prod.fst)) :
    (ofEntries l).entries = l := entries_foldl_set l empty hn ho

@[simp] theorem ofEntries_entries (r : Record K V) : ofEntries r.entries = r :=
  ext (entries_ofEntries r.nodup r.inOrder)

/-! ## Records of maps -/

/-- `Object.fromEntries(map)` -/
def fromEntries (m : OrderedMap K V) : Record K V := ofEntries m.entries

omit [PropertyKey K] in
theorem upsert_split (k : K) (v : V) (l : List (K × V)) (h : k ∈ l.map Prod.fst) (hn : (l.map Prod.fst).Nodup) :
    ∃ pre w post, l = pre ++ (k, w) :: post ∧ upsert k v l = pre ++ (k, v) :: post ∧ k ∉ post.map Prod.fst := by
  induction l with
  | nil => simp at h
  | cons e rest ih =>
    rw [List.map_cons, List.nodup_cons] at hn
    by_cases he : e.1 = k
    · exact ⟨[], e.2, rest, by simp [← he], by simp [upsert, he], he ▸ hn.1⟩
    · have hrest : k ∈ rest.map Prod.fst := (List.mem_cons.mp h).resolve_left (Ne.symm he)
      obtain ⟨pre, w, post, hl, hup, hpost⟩ := ih hrest hn.2
      exact ⟨e :: pre, w, post, by rw [hl]; rfl, by rw [upsert, if_neg he, hup]; rfl, hpost⟩

theorem fromEntries_set (m : OrderedMap K V) (k : K) (v : V) : fromEntries (m.set k v) = (fromEntries m).set k v := by
  unfold fromEntries ofEntries
  by_cases hk : k ∈ m.entries.map Prod.fst
  · obtain ⟨pre, w, post, hl, hup, hpost⟩ := upsert_split k v m.entries hk m.nodup
    have hset : (m.set k v).entries = pre ++ (k, v) :: post := hup
    have hmem : k ∈ ((pre.foldl (fun r e => r.set e.1 e.2) (empty : Record K V)).set k w).keys :=
      (mem_keys _ _).mpr ⟨w, get?_set_self _ k w⟩
    rw [hset, hl, List.foldl_append, List.foldl_append, List.foldl_cons, List.foldl_cons,
      foldl_set_comm post v hmem hpost, set_set]
  · have hnone : m.get? k = none := OrderedMap.get?_eq_none_of_not_mem_keys hk
    rw [OrderedMap.entries_set_of_get?_none v hnone, List.foldl_append]
    rfl

theorem get?_fromEntries (m : OrderedMap K V) (k : K) : (fromEntries m).get? k = m.get? k := by
  have hfold : ∀ (l : List (K × V)) (r : Record K V), (l.map Prod.fst).Nodup →
      (l.foldl (fun r e => r.set e.1 e.2) r).get? k = (l.lookup k).or (r.get? k) := by
    intro l
    induction l with
    | nil => intro r _; rfl
    | cons e rest ih =>
      intro r hn
      rw [List.map_cons, List.nodup_cons] at hn
      rw [List.foldl_cons, ih _ hn.2, get?_set, lookup_cons_if]
      by_cases hk : k = e.1
      · have hout : rest.lookup k = none := by
          rw [← Option.not_isSome_iff_eq_none, lookup_isSome_iff, hk]
          exact hn.1
        simp [hk, hk ▸ hout]
      · simp [hk]
  have := hfold m.entries empty m.nodup
  rw [get?_empty, Option.or_none] at this
  exact this

/-- `new Map(Object.entries(record))` -/
def toMap (r : Record K V) : OrderedMap K V := ⟨r.entries, r.nodup⟩

@[simp] theorem fromEntries_toMap (r : Record K V) : fromEntries r.toMap = r := ofEntries_entries r

end Record
