import Mathlib.Tactic.Common
import Mathlib.Data.List.Nodup
import Mathlib.Data.List.Basic
import Mathlib.Data.List.Induction
import Mathlib.Data.List.Perm.Subperm
import Mathlib.Logic.Embedding.Basic

/-!
# A map that remembers insertion order

`set` on a key that is there rewrites its value in place; a new key goes to the end.
Every map carries the proof that its keys are distinct, so a lookup and a scan of the
entries always agree.
-/

/-- The entries with `k` bound to `v`: in place if `k` is there, at the end if not. -/
def upsert {α β : Type} [DecidableEq α] (k : α) (v : β) : List (α × β) → List (α × β)
  | [] => [(k, v)]
  | e :: rest => if e.1 = k then (k, v) :: rest else e :: upsert k v rest

attribute [grind =] upsert

section Upsert
variable {α β : Type} [DecidableEq α]

theorem upsert_keys (k : α) (v : β) (l : List (α × β)) :
    (upsert k v l).map Prod.fst =
      if k ∈ l.map Prod.fst then l.map Prod.fst else l.map Prod.fst ++ [k] := by
  induction l with
  | nil => simp [upsert]
  | cons e rest ih =>
    by_cases he : e.1 = k
    · simp [upsert, he]
    · have hk : k ≠ e.1 := fun h => he h.symm
      by_cases hm : k ∈ rest.map Prod.fst
      · simp [upsert, he, ih, hm]
      · rw [if_neg hm] at ih
        simp [upsert, he, ih, hk, hm]

theorem upsert_nodup (k : α) (v : β) (l : List (α × β)) (h : (l.map Prod.fst).Nodup) :
    ((upsert k v l).map Prod.fst).Nodup := by
  rw [upsert_keys]
  split_ifs with hk
  · exact h
  · exact List.nodup_append.mpr ⟨h, by simp, by simp only [List.mem_singleton]; rintro a ha b rfl rfl; exact hk ha⟩

theorem lookup_cons_if (k : α) (e : α × β) (rest : List (α × β)) :
    (e :: rest).lookup k = if k = e.1 then some e.2 else rest.lookup k := by
  obtain ⟨e1, e2⟩ := e
  by_cases h : k = e1
  · simp [h]
  · have hb : (k == e1) = false := by simpa using h
    simp [List.lookup_cons, hb, h]

theorem lookup_upsert (k k' : α) (v : β) (l : List (α × β)) :
    (upsert k v l).lookup k' = if k' = k then some v else l.lookup k' := by
  induction l with
  | nil => simp [upsert, lookup_cons_if]
  | cons e rest ih =>
    by_cases he : e.1 = k
    · by_cases h : k' = k <;> simp [upsert, lookup_cons_if, he, h]
    · by_cases h : k' = e.1
      · have hk : k' ≠ k := fun hh => he (h ▸ hh)
        simp [upsert, he, lookup_cons_if, h]
      · simp [upsert, he, lookup_cons_if, h, ih]

theorem upsert_upsert (k : α) (v w : β) (l : List (α × β)) : upsert k w (upsert k v l) = upsert k w l := by
  induction l with
  | nil => simp [upsert]
  | cons e rest ih => by_cases he : e.1 = k <;> simp [upsert, he, ih]

theorem lookup_isSome_iff (k : α) (l : List (α × β)) :
    (l.lookup k).isSome ↔ k ∈ l.map Prod.fst := by
  induction l with
  | nil => simp
  | cons e rest ih =>
    rw [lookup_cons_if]
    by_cases h : k = e.1
    · simp [h]
    · rw [if_neg h, ih, List.map_cons, List.mem_cons]
      simp [h]

theorem lookup_eq_some_iff_mem (k : α) (v : β) (l : List (α × β)) (h : (l.map Prod.fst).Nodup) :
    l.lookup k = some v ↔ (k, v) ∈ l := by
  induction l with
  | nil => simp
  | cons e rest ih =>
    obtain ⟨e1, e2⟩ := e
    rw [List.map_cons, List.nodup_cons] at h
    rw [lookup_cons_if]
    by_cases hk : k = e1
    · subst hk
      have hrest : (k, v) ∉ rest := fun hm => h.1 (List.mem_map.mpr ⟨_, hm, rfl⟩)
      simp [hrest, eq_comm]
    · simp [ih h.2, hk]

theorem lookup_filter_ne (k k' : α) (l : List (α × β)) :
    (l.filter fun e => e.1 ≠ k).lookup k' = if k' = k then none else l.lookup k' := by
  induction l with
  | nil => simp
  | cons e rest ih =>
    rw [List.filter_cons, lookup_cons_if]
    by_cases he : e.1 = k
    · rw [if_neg (by simp [he]), ih]
      by_cases h : k' = k <;> simp [h, he]
    · rw [if_pos (by simpa using he), lookup_cons_if, ih]
      by_cases h : k' = e.1
      · simp [h, he]
      · simp [h]

theorem lookup_map_snd {γ : Type} (f : β → γ) (k : α) (l : List (α × β)) :
    (l.map fun e => (e.1, f e.2)).lookup k = (l.lookup k).map f := by
  induction l with
  | nil => simp
  | cons e rest ih =>
    rw [List.map_cons, lookup_cons_if, lookup_cons_if, ih]
    by_cases h : k = e.1 <;> simp [h]

end Upsert

structure OrderedMap (α β : Type) where
  entries : List (α × β)
  nodup : (entries.map Prod.fst).Nodup

namespace OrderedMap
variable {α β γ δ : Type}

@[ext]
theorem ext {m m' : OrderedMap α β} (h : m.entries = m'.entries) : m = m' := by
  cases m; cases m'; cases h; rfl

instance [DecidableEq α] [DecidableEq β] : DecidableEq (OrderedMap α β) := fun m m' =>
  decidable_of_iff (m.entries = m'.entries) ⟨ext, fun h => h ▸ rfl⟩

def empty : OrderedMap α β := ⟨[], by simp⟩

instance : Inhabited (OrderedMap α β) := ⟨empty⟩

def keys (m : OrderedMap α β) : List α := m.entries.map Prod.fst

def values (m : OrderedMap α β) : List β := m.entries.map Prod.snd

def size (m : OrderedMap α β) : Nat := m.entries.length

/-- The same keys in the same order, each value through `f`. -/
def mapValues (f : β → γ) (m : OrderedMap α β) : OrderedMap α γ :=
  ⟨m.entries.map fun e => (e.1, f e.2), by simpa [Function.comp_def] using m.nodup⟩

/-- The map under other names for its keys, each value through `g`. -/
def relabel (f : α ↪ γ) (g : β → δ) (m : OrderedMap α β) : OrderedMap γ δ :=
  ⟨m.entries.map (Prod.map f g), by
    have hkeys : (m.entries.map (Prod.map f g)).map Prod.fst = (m.entries.map Prod.fst).map f := by
      simp [Function.comp_def]
    rw [hkeys]
    exact m.nodup.map f.injective⟩

variable [DecidableEq α]

def get? (m : OrderedMap α β) (k : α) : Option β := m.entries.lookup k

def has (m : OrderedMap α β) (k : α) : Bool := (m.get? k).isSome

def set (m : OrderedMap α β) (k : α) (v : β) : OrderedMap α β :=
  ⟨upsert k v m.entries, upsert_nodup k v m.entries m.nodup⟩

def delete (m : OrderedMap α β) (k : α) : OrderedMap α β :=
  ⟨m.entries.filter fun e => e.1 ≠ k, m.nodup.sublist (List.filter_sublist.map _)⟩

/-- The entries of the other keys, in their order. -/
def without (m : OrderedMap α β) (ks : List α) : OrderedMap α β :=
  ⟨m.entries.filter fun e => e.1 ∉ ks, m.nodup.sublist (List.filter_sublist.map _)⟩

/-- The map of a list of entries, a later entry of a key replacing the earlier value. -/
def ofEntries (l : List (α × β)) : OrderedMap α β := l.foldl (fun m e => m.set e.1 e.2) empty

/-- The set of the elements of a list, in the order of their first occurrence. -/
def setOf (l : List α) : OrderedMap α Unit := l.foldl (fun m a => m.set a ()) empty

/-! ## Lookups -/

@[simp] theorem get?_empty (k : α) : (empty : OrderedMap α β).get? k = none := rfl

@[grind =] theorem get?_set (m : OrderedMap α β) (k k' : α) (v : β) :
    (m.set k v).get? k' = if k' = k then some v else m.get? k' := lookup_upsert k k' v m.entries

@[simp] theorem get?_set_self (m : OrderedMap α β) (k : α) (v : β) : (m.set k v).get? k = some v := by
  simp [get?_set]

theorem set_set (m : OrderedMap α β) (k : α) (v w : β) : (m.set k v).set k w = m.set k w :=
  ext (upsert_upsert k v w m.entries)

theorem get?_set_ne (m : OrderedMap α β) {k k' : α} (v : β) (h : k' ≠ k) :
    (m.set k v).get? k' = m.get? k' := by
  simp [get?_set, h]

@[grind =] theorem get?_delete (m : OrderedMap α β) (k k' : α) :
    (m.delete k).get? k' = if k' = k then none else m.get? k' := lookup_filter_ne k k' m.entries

@[simp] theorem get?_delete_self (m : OrderedMap α β) (k : α) : (m.delete k).get? k = none := by
  simp [get?_delete]

@[simp, grind =] theorem get?_mapValues (f : β → γ) (m : OrderedMap α β) (k : α) :
    (m.mapValues f).get? k = (m.get? k).map f := lookup_map_snd f k m.entries

theorem find?_entries (m : OrderedMap α β) (k : α) :
    (m.entries.find? fun e => e.1 = k).map Prod.snd = m.get? k := by
  rw [get?]
  induction m.entries with
  | nil => rfl
  | cons e rest ih =>
    rw [lookup_cons_if, List.find?_cons, ← ih]
    by_cases h : e.1 = k
    · simp [h]
    · simp [h, Ne.symm h]

theorem entries_without (m : OrderedMap α β) (ks : List α) :
    (m.without ks).entries = m.entries.filter fun e => e.1 ∉ ks := rfl

theorem get?_without (m : OrderedMap α β) (ks : List α) (k : α) :
    (m.without ks).get? k = if k ∈ ks then none else m.get? k := by
  simp only [get?, without]
  induction m.entries with
  | nil => simp
  | cons e rest ih =>
    rw [List.filter_cons, lookup_cons_if]
    by_cases he : e.1 ∈ ks
    · rw [if_neg (by simpa using he), ih]
      by_cases h : k = e.1 <;> simp [h, he]
    · rw [if_pos (by simpa using he), lookup_cons_if, ih]
      by_cases h : k = e.1 <;> simp [h, he]

theorem has_iff (m : OrderedMap α β) (k : α) : m.has k = true ↔ ∃ v, m.get? k = some v :=
  Option.isSome_iff_exists

theorem has_set (m : OrderedMap α β) (k k' : α) (v : β) : (m.set k v).has k' = true ↔ k' = k ∨ m.has k' = true := by
  rw [has_iff, has_iff, get?_set]
  split_ifs with hk
  · simp [hk]
  · simp [hk]

theorem has_eq_false_iff (m : OrderedMap α β) (k : α) : m.has k = false ↔ m.get? k = none := by
  simp [has]

theorem mem_keys (m : OrderedMap α β) (k : α) : k ∈ m.keys ↔ ∃ v, m.get? k = some v := by
  rw [← Option.isSome_iff_exists]; exact (lookup_isSome_iff k m.entries).symm

theorem mem_entries (m : OrderedMap α β) (k : α) (v : β) : (k, v) ∈ m.entries ↔ m.get? k = some v :=
  (lookup_eq_some_iff_mem k v m.entries m.nodup).symm

theorem mem_values (m : OrderedMap α β) (v : β) : v ∈ m.values ↔ ∃ k, m.get? k = some v := by
  simp only [values, List.mem_map, ← mem_entries]
  constructor
  · rintro ⟨⟨k, v'⟩, hm, rfl⟩; exact ⟨k, hm⟩
  · rintro ⟨k, hm⟩; exact ⟨(k, v), hm, rfl⟩

omit [DecidableEq α] in
theorem keys_nodup (m : OrderedMap α β) : m.keys.Nodup := m.nodup

omit [DecidableEq α] in
theorem length_keys (m : OrderedMap α β) : m.keys.length = m.size := List.length_map _

theorem get?_foldl_set_eq {ι : Type} (f : ι → α) (g : ι → β) (l : List ι) (m : OrderedMap α β) (k : α) :
    (l.foldl (fun m i => m.set (f i) (g i)) m).get? k =
      ((l.reverse.find? fun i => f i = k).map g).or (m.get? k) := by
  induction l using List.reverseRecOn with
  | nil => rfl
  | append_singleton l i ih =>
    rw [List.foldl_append, List.foldl_cons, List.foldl_nil, get?_set, ih, List.reverse_append,
      List.reverse_singleton, List.singleton_append, List.find?_cons]
    by_cases h : k = f i
    · simp [h]
    · rw [if_neg h]
      have : decide (f i = k) = false := by simpa using fun heq : f i = k => h heq.symm
      rw [this]

theorem mem_keys_foldl_set {ι : Type} (f : ι → α) (g : ι → β) (l : List ι) (m : OrderedMap α β) (k : α) :
    k ∈ (l.foldl (fun m i => m.set (f i) (g i)) m).keys ↔ k ∈ m.keys ∨ ∃ i ∈ l, f i = k := by
  induction l generalizing m with
  | nil => simp
  | cons i rest ih =>
    have hset : ∀ v, k ∈ (m.set (f i) v).keys ↔ k ∈ m.keys ∨ f i = k := by
      intro v
      simp only [mem_keys, get?_set]
      by_cases hk : k = f i <;> simp [hk, eq_comm]
    rw [List.foldl_cons, ih, hset]
    simp [or_assoc]

/-! ## Counting -/

/-- The keys whose value satisfies `p`. -/
def keysWhere (p : β → Bool) (m : OrderedMap α β) : List α := (m.entries.filter fun e => p e.2).map Prod.fst

omit [DecidableEq α] in
theorem nodup_keysWhere (p : β → Bool) (m : OrderedMap α β) : (m.keysWhere p).Nodup :=
  m.nodup.sublist (List.filter_sublist.map _)

theorem mem_keysWhere {p : β → Bool} {m : OrderedMap α β} {k : α} :
    k ∈ m.keysWhere p ↔ ∃ v, m.get? k = some v ∧ p v = true := by
  simp only [keysWhere, List.mem_map, List.mem_filter]
  constructor
  · rintro ⟨⟨k, v⟩, ⟨hm, hp⟩, rfl⟩; exact ⟨v, (mem_entries m k v).mp hm, hp⟩
  · rintro ⟨v, hv, hp⟩; exact ⟨(k, v), ⟨(mem_entries m k v).mpr hv, hp⟩, rfl⟩

omit [DecidableEq α] in
theorem length_keysWhere (p : β → Bool) (m : OrderedMap α β) : (m.keysWhere p).length = m.values.countP p := by
  rw [keysWhere, List.length_map, values, List.countP_map, List.countP_eq_length_filter]
  rfl

omit [DecidableEq α] in
theorem length_keysWhere_le {γ : Type} {p : β → Bool} {q : γ → Bool} {m : OrderedMap α β} {m' : OrderedMap α γ}
    (h : ∀ k ∈ m.keysWhere p, k ∈ m'.keysWhere q) : (m.keysWhere p).length ≤ (m'.keysWhere q).length :=
  (List.subperm_of_subset (nodup_keysWhere p m) h).length_le

theorem length_keysWhere_le_succ {γ : Type} {p : β → Bool} {q : γ → Bool} {m : OrderedMap α β}
    {m' : OrderedMap α γ} (k₀ : α) (h : ∀ k ∈ m.keysWhere p, k ≠ k₀ → k ∈ m'.keysWhere q) :
    (m.keysWhere p).length ≤ (m'.keysWhere q).length + 1 := by
  have hsub : (m.keysWhere p) ⊆ k₀ :: m'.keysWhere q := by
    intro k hk
    by_cases hk₀ : k = k₀
    · simp [hk₀]
    · simp [h k hk hk₀]
  exact (List.subperm_of_subset (nodup_keysWhere p m) hsub).length_le

/-! ## Loops over a map -/

theorem foldl_delete_map {ι : Type} (f : ι → α) (l : List ι) (m : OrderedMap α β) :
    l.foldl (fun m i => m.delete (f i)) m = (l.map f).foldl (fun m k => m.delete k) m :=
  (List.foldl_map (f := f) (g := fun (m : OrderedMap α β) k => m.delete k)).symm

theorem delete_without (m : OrderedMap α β) (k : α) (ks : List α) :
    (m.delete k).without ks = m.without (k :: ks) := by
  ext1
  simp only [delete, without, List.filter_filter, List.mem_cons, not_or]
  congr 1
  funext e
  by_cases h : e.1 = k <;> simp [h]

theorem foldl_delete (m : OrderedMap α β) (ks : List α) :
    ks.foldl (fun m k => m.delete k) m = m.without ks := by
  induction ks generalizing m with
  | nil => ext1; simp [without]
  | cons k rest ih => rw [List.foldl_cons, ih, delete_without]

theorem delete_of_get?_none {m : OrderedMap α β} {k : α} (h : m.get? k = none) : m.delete k = m := by
  ext1
  rw [delete, List.filter_eq_self]
  intro e he
  have hk : k ∉ m.keys := by rw [mem_keys, h]; simp
  simpa using fun heq : e.1 = k => hk (heq ▸ List.mem_map_of_mem he)

theorem upsert_append (k : α) (v : β) (pre l : List (α × β)) (h : k ∉ pre.map Prod.fst) :
    upsert k v (pre ++ l) = pre ++ upsert k v l := by
  induction pre with
  | nil => rfl
  | cons e rest ih =>
    rw [List.map_cons, List.mem_cons, not_or] at h
    rw [List.cons_append, upsert, if_neg (Ne.symm h.1), ih h.2, List.cons_append]

theorem entries_set_of_get?_none {m : OrderedMap α β} {k : α} (v : β) (h : m.get? k = none) :
    (m.set k v).entries = m.entries ++ [(k, v)] := by
  have hk : k ∉ m.entries.map Prod.fst := fun hm => by
    obtain ⟨w, hw⟩ := (mem_keys m k).mp hm
    rw [h] at hw
    cases hw
  have := upsert_append k v m.entries [] hk
  rwa [List.append_nil] at this

theorem keys_set_of_get?_none {m : OrderedMap α β} {k : α} (v : β) (h : m.get? k = none) :
    (m.set k v).keys = m.keys ++ [k] := by
  rw [keys, entries_set_of_get?_none v h, List.map_append]; rfl

@[simp] theorem set_empty_set (k : α) (v w : β) : ((empty : OrderedMap α β).set k v).set k w = empty.set k w :=
  ext (by simp [set, empty, upsert])

@[simp] theorem values_empty_set (k : α) (v : β) : ((empty : OrderedMap α β).set k v).values = [v] := rfl

theorem values_set_of_get?_none {m : OrderedMap α β} {k : α} (v : β) (h : m.get? k = none) :
    (m.set k v).values = m.values ++ [v] := by
  rw [values, entries_set_of_get?_none v h, List.map_append]; rfl

theorem get?_eq_none_of_not_mem_keys {m : OrderedMap α β} {k : α} (h : k ∉ m.keys) : m.get? k = none := by
  rw [mem_keys] at h
  cases hk : m.get? k with
  | none => rfl
  | some v => exact absurd ⟨v, hk⟩ h

theorem set_self {m : OrderedMap α β} {k : α} {v : β} (h : m.get? k = some v) : m.set k v = m := by
  ext1
  have hupsert : ∀ l : List (α × β), l.lookup k = some v → upsert k v l = l := by
    intro l
    induction l with
    | nil => simp
    | cons e rest ih =>
      intro hl
      obtain ⟨k', v'⟩ := e
      rw [lookup_cons_if] at hl
      unfold upsert
      by_cases hk : k = k'
      · simp only [hk, if_true, Option.some.injEq] at hl ⊢
        rw [hl]
      · rw [if_neg hk] at hl
        simp [Ne.symm hk, ih hl]
  exact hupsert m.entries h

theorem foldl_upsert_values (key : β → α) (f : β → β) (l pre : List (α × β))
    (hkey : ∀ e ∈ l, key e.2 = e.1) (hnodup : ((pre ++ l).map Prod.fst).Nodup) :
    (l.map Prod.snd).foldl (fun acc v => upsert (key v) (f v) acc) (pre ++ l) =
      pre ++ l.map fun e => (e.1, f e.2) := by
  induction l generalizing pre with
  | nil => simp
  | cons e rest ih =>
    obtain ⟨k, v⟩ := e
    have hk : key v = k := hkey (k, v) (by simp)
    rw [List.map_append, List.map_cons, List.nodup_append] at hnodup
    have hpre : k ∉ pre.map Prod.fst := fun hm => hnodup.2.2 k hm k (by simp) rfl
    have hstep : upsert (key v) (f v) (pre ++ (k, v) :: rest) = (pre ++ [(k, f v)]) ++ rest := by
      rw [hk, upsert_append _ _ _ _ hpre, upsert, if_pos rfl]
      simp
    rw [List.map_cons, List.foldl_cons, hstep, ih]
    · simp
    · exact fun e he => hkey e (by simp [he])
    · simpa [List.nodup_append] using hnodup

theorem entries_foldl_set {ι : Type} (key : ι → α) (f : ι → β) (l : List ι) (m : OrderedMap α β) :
    (l.foldl (fun acc v => acc.set (key v) (f v)) m).entries =
      l.foldl (fun acc v => upsert (key v) (f v) acc) m.entries := by
  induction l generalizing m with
  | nil => rfl
  | cons v rest ih => rw [List.foldl_cons, ih, List.foldl_cons]; rfl

theorem entries_ofEntries {l : List (α × β)} (h : (l.map Prod.fst).Nodup) : (ofEntries l).entries = l := by
  have hfold : ∀ pre : OrderedMap α β, ((pre.entries ++ l).map Prod.fst).Nodup →
      (l.foldl (fun m e => m.set e.1 e.2) pre).entries = pre.entries ++ l := by
    clear h
    induction l with
    | nil => simp
    | cons e rest ih =>
      intro pre hnodup
      have hfresh : pre.get? e.1 = none := by
        refine get?_eq_none_of_not_mem_keys fun hmem => ?_
        rw [List.map_append, List.map_cons, List.nodup_append] at hnodup
        exact hnodup.2.2 e.1 hmem e.1 (by simp) rfl
      have hset := entries_set_of_get?_none e.2 hfresh
      rw [List.foldl_cons, ih (pre.set e.1 e.2) (by rw [hset]; simpa using hnodup), hset]
      simp
  simpa [ofEntries, empty] using hfold empty (by simpa [empty] using h)

theorem ofEntries_entries (m : OrderedMap α β) : ofEntries m.entries = m := ext (entries_ofEntries m.nodup)

theorem mem_of_get?_ofEntries {l : List (α × β)} {k : α} {v : β}
    (h : (ofEntries l).get? k = some v) : (k, v) ∈ l := by
  rw [ofEntries, get?_foldl_set_eq (fun e : α × β => e.1) (fun e => e.2), get?_empty, Option.or_none,
    Option.map_eq_some_iff] at h
  obtain ⟨e, he, rfl⟩ := h
  have hkey := List.find?_some he
  have hmem := List.mem_of_find?_eq_some he
  rw [List.mem_reverse] at hmem
  simp only [decide_eq_true_eq] at hkey
  rw [← hkey]
  exact hmem

theorem get?_ofEntries_map (f : α → β → γ) (m : OrderedMap α β) (k : α) :
    (ofEntries (m.entries.map fun e => (e.1, f e.1 e.2))).get? k = (m.get? k).map (f k) := by
  unfold get?
  rw [entries_ofEntries]
  · induction m.entries with
    | nil => rfl
    | cons e rest ih =>
      rw [List.map_cons, List.lookup_cons, List.lookup_cons, ih]
      cases hkey : k == e.1 with
      | true => rw [eq_of_beq hkey]; rfl
      | false => rfl
  · rw [List.map_map]
    exact m.nodup

theorem foldl_set_values (key : β → α) (f : β → β) (m : OrderedMap α β)
    (hkey : ∀ k v, m.get? k = some v → key v = k) :
    m.values.foldl (fun acc v => acc.set (key v) (f v)) m = m.mapValues f := by
  ext1
  rw [entries_foldl_set, mapValues]
  have h := foldl_upsert_values key f m.entries [] (fun e he => hkey e.1 e.2 ((mem_entries m e.1 e.2).mp he))
    (by simpa using m.nodup)
  simpa [values] using h

theorem mem_keys_setOf (l : List α) (a : α) : a ∈ (setOf l).keys ↔ a ∈ l := by
  rw [setOf, mem_keys_foldl_set (fun a => a) (fun _ => ())]
  simp [keys, empty]

/-! ## Maps carried along -/

omit [DecidableEq α] in
theorem values_mapValues {g : β → γ} (m : OrderedMap α β) : (m.mapValues g).values = m.values.map g := by
  simp [values, mapValues, Function.comp_def]

omit [DecidableEq α] in
theorem size_mapValues {g : β → γ} (m : OrderedMap α β) : (m.mapValues g).size = m.size := List.length_map _

omit [DecidableEq α] in
theorem mapValues_mapValues {g : β → γ} (h : γ → δ) (m : OrderedMap α β) :
    (m.mapValues g).mapValues h = m.mapValues (h ∘ g) := by
  ext1
  simp [mapValues]

@[simp] theorem has_mapValues {g : β → γ} (m : OrderedMap α β) (k : α) : (m.mapValues g).has k = m.has k := by
  simp [has]

theorem mapValues_set {g : β → γ} (m : OrderedMap α β) (k : α) (v : β) :
    (m.set k v).mapValues g = (m.mapValues g).set k (g v) := by
  ext1
  simp only [set, mapValues]
  induction m.entries with
  | nil => rfl
  | cons e rest ih => by_cases h : e.1 = k <;> simp [upsert, h, ih]

theorem mapValues_delete {g : β → γ} (m : OrderedMap α β) (k : α) :
    (m.delete k).mapValues g = (m.mapValues g).delete k := by
  ext1
  simp [delete, mapValues, List.filter_map, Function.comp_def]

section Relabel
variable [DecidableEq γ] {f : α ↪ γ} {g : β → δ}

omit [DecidableEq α] [DecidableEq γ] in
theorem values_relabel (m : OrderedMap α β) : (m.relabel f g).values = m.values.map g := by
  simp [values, relabel]

omit [DecidableEq α] [DecidableEq γ] in
theorem size_relabel (m : OrderedMap α β) : (m.relabel f g).size = m.size := List.length_map _

@[simp] theorem get?_relabel (m : OrderedMap α β) (k : α) : (m.relabel f g).get? (f k) = (m.get? k).map g := by
  simp only [get?, relabel]
  induction m.entries with
  | nil => rfl
  | cons e rest ih =>
    rw [List.map_cons, lookup_cons_if, lookup_cons_if, ih]
    by_cases h : k = e.1 <;> simp [h]

@[simp] theorem has_relabel (m : OrderedMap α β) (k : α) : (m.relabel f g).has (f k) = m.has k := by
  simp [has]

theorem upsert_relabel (k : α) (v : β) (l : List (α × β)) :
    (upsert k v l).map (Prod.map f g) = upsert (f k) (g v) (l.map (Prod.map f g)) := by
  induction l with
  | nil => rfl
  | cons e rest ih => by_cases h : e.1 = k <;> simp [upsert, h, ih]

@[simp] theorem relabel_set (m : OrderedMap α β) (k : α) (v : β) :
    (m.set k v).relabel f g = (m.relabel f g).set (f k) (g v) := ext (upsert_relabel k v m.entries)

@[simp] theorem relabel_delete (m : OrderedMap α β) (k : α) :
    (m.delete k).relabel f g = (m.relabel f g).delete (f k) := by
  ext1
  simp [delete, relabel, List.filter_map, Function.comp_def]

theorem relabel_setOf (l : List α) : (setOf l).relabel f id = setOf (l.map f) := by
  rw [setOf, setOf, List.foldl_map]
  exact (List.foldl_hom (relabel f id) fun m a => (relabel_set m a ()).symm).symm

end Relabel

end OrderedMap
