import Mathlib.Data.List.Nodup
import Mathlib.Tactic.Common

/-!
# Tables with unique columns

The rows in the order they were inserted, and the conditional statements on them. What `changes()` says
after `update … WHERE p` is `count p` of the table before.
-/

/-- A table whose column `col i` holds no value twice, for every `i`. -/
structure SqlTable {R ι κ : Type} (col : ι → R → κ) where
  rows : List R
  unique : ∀ i, (rows.map (col i)).Nodup

namespace SqlTable
variable {R ι κ : Type} {col : ι → R → κ}

def empty : SqlTable col := ⟨[], fun _ => List.nodup_nil⟩

/-- `SELECT count(*) … WHERE p` -/
def count (table : SqlTable col) (p : R → Bool) : Nat := table.rows.countP p

/-- `UPDATE … SET f WHERE p`, where `f` keeps the unique columns. -/
def update (table : SqlTable col) (p : R → Bool) (f : R → R) (hf : ∀ i row, col i (f row) = col i row) :
    SqlTable col where
  rows := table.rows.map fun row => if p row then f row else row
  unique i := by
    rw [List.map_map]
    have hsame : (col i ∘ fun row => if p row then f row else row) = col i := by
      funext row
      simp only [Function.comp_apply]
      split_ifs
      · exact hf i row
      · rfl
    rw [hsame]
    exact table.unique i

theorem eq_of_col {table : SqlTable col} {i : ι} {row other : R} (hrow : row ∈ table.rows) (hother : other ∈ table.rows)
    (h : col i row = col i other) : row = other :=
  List.inj_on_of_nodup_map (table.unique i) hrow hother h

theorem count_update_le (table : SqlTable col) {p q : R → Bool} {f : R → R} (hf : ∀ i row, col i (f row) = col i row)
    (hq : ∀ row, p row = true → q (f row) = true → q row = true) : (table.update p f hf).count q ≤ table.count q := by
  unfold count update
  rw [List.countP_map]
  refine List.countP_mono_left fun row _ h => ?_
  simp only [Function.comp_apply] at h
  split_ifs at h with hrow
  · exact hq row hrow h
  · exact h

theorem update_of_count_zero (table : SqlTable col) {p : R → Bool} {f : R → R} (hf : ∀ i row, col i (f row) = col i row)
    (h : table.count p = 0) : table.update p f hf = table := by
  have hnone := List.countP_eq_zero.mp h
  have hrows : (table.rows.map fun row => if p row then f row else row) = table.rows := by
    rw [List.map_congr_left fun row hm => if_neg (hnone row hm), List.map_id']
  unfold update
  congr

variable [DecidableEq κ]

/-- A stored row holds this row's value of the column. -/
def taken (table : SqlTable col) (row : R) (i : ι) : Bool := table.rows.any fun other => col i other = col i row

theorem not_taken {table : SqlTable col} {row : R} {i : ι} :
    table.taken row i = false ↔ ∀ other ∈ table.rows, col i other ≠ col i row := by
  unfold taken
  rw [List.any_eq_false]
  simp only [decide_eq_true_eq, ne_eq]

/-- `INSERT` of a row that no unique column refuses. -/
def insert (table : SqlTable col) (row : R) (h : ∀ i, table.taken row i = false) : SqlTable col where
  rows := table.rows ++ [row]
  unique i := by
    rw [List.map_append, List.map_singleton]
    refine List.nodup_append.mpr ⟨table.unique i, List.nodup_singleton _, ?_⟩
    intro a ha b hb
    obtain ⟨other, hother, rfl⟩ := List.mem_map.mp ha
    rw [List.mem_singleton.mp hb]
    exact not_taken.mp (h i) other hother

/-- `SELECT … WHERE col i = k` -/
def find? (table : SqlTable col) (i : ι) (k : κ) : Option R := table.rows.find? fun row => col i row = k

/-! ## Lookups -/

theorem find?_eq_some {table : SqlTable col} {i : ι} {k : κ} {row : R} :
    table.find? i k = some row ↔ row ∈ table.rows ∧ col i row = k := by
  unfold find?
  constructor
  · intro h
    exact ⟨List.mem_of_find?_eq_some h, by simpa using List.find?_some h⟩
  · rintro ⟨hm, rfl⟩
    cases hfind : table.rows.find? fun other => col i other = col i row with
    | none => exact absurd (List.find?_eq_none.mp hfind row hm) (by simp)
    | some other =>
      have hcol : col i other = col i row := by simpa using List.find?_some hfind
      rw [eq_of_col (List.mem_of_find?_eq_some hfind) hm hcol]

theorem find?_eq_none {table : SqlTable col} {i : ι} {k : κ} :
    table.find? i k = none ↔ ∀ row ∈ table.rows, col i row ≠ k := by
  unfold find?
  rw [List.find?_eq_none]
  simp only [decide_eq_true_eq, ne_eq]

@[simp] theorem find?_empty (i : ι) (k : κ) : (empty : SqlTable col).find? i k = none := rfl

theorem find?_insert (table : SqlTable col) {row : R} (h : ∀ i, table.taken row i = false) (i : ι) (k : κ) :
    (table.insert row h).find? i k = if k = col i row then some row else table.find? i k := by
  split_ifs with hk
  · subst hk
    exact find?_eq_some.mpr ⟨by simp [insert], rfl⟩
  · unfold find? insert
    rw [List.find?_append]
    have hne : col i row ≠ k := fun heq => hk heq.symm
    simp [hne]

theorem find?_update (table : SqlTable col) (p : R → Bool) {f : R → R} (hf : ∀ i row, col i (f row) = col i row) (i : ι)
    (k : κ) : (table.update p f hf).find? i k = (table.find? i k).map fun row => if p row then f row else row := by
  unfold find? update
  rw [List.find?_map]
  congr 2
  funext row
  simp only [Function.comp_apply]
  split_ifs
  · rw [hf]
  · rfl

/-! ## Counts -/

theorem count_insert (table : SqlTable col) {row : R} (h : ∀ i, table.taken row i = false) (q : R → Bool) :
    (table.insert row h).count q = table.count q + if q row then 1 else 0 := by
  unfold count insert
  rw [List.countP_append, List.countP_singleton]

theorem filter_col (table : SqlTable col) (i : ι) (k : κ) :
    (table.rows.filter fun row => col i row = k) = (table.find? i k).toList := by
  cases hfind : table.find? i k with
  | none =>
    rw [Option.toList_none, List.filter_eq_nil_iff]
    intro row hm
    simpa using find?_eq_none.mp hfind row hm
  | some row =>
    obtain ⟨hm, hcol⟩ := find?_eq_some.mp hfind
    have hnodup : (table.rows.filter fun other => col i other = k).Nodup :=
      (List.Nodup.of_map _ (table.unique i)).filter _
    refine List.perm_singleton.mp ((List.perm_ext_iff_of_nodup hnodup (List.nodup_singleton row)).mpr fun other => ?_)
    rw [List.mem_filter, List.mem_singleton, decide_eq_true_eq]
    constructor
    · rintro ⟨hother, hk⟩
      exact eq_of_col hother hm (hk.trans hcol.symm)
    · rintro rfl
      exact ⟨hm, hcol⟩

theorem count_named (table : SqlTable col) {p : R → Bool} {i : ι} {k : κ} (hp : ∀ row, p row = true → col i row = k) :
    table.count p = if (table.find? i k).any p then 1 else 0 := by
  have hsub : table.count p = (table.find? i k).toList.countP p := by
    rw [← filter_col, List.countP_filter]
    refine List.countP_congr fun row _ => ?_
    simp only [Bool.and_eq_true, decide_eq_true_eq]
    exact ⟨fun h => ⟨h, hp row h⟩, fun h => h.1⟩
  rw [hsub]
  cases table.find? i k with
  | none => rfl
  | some row => exact List.countP_singleton

end SqlTable
