import Mathlib.Data.List.Sort

/-!
# Tables by an integer key

The rows of a table whose primary key is their sequence number, in its order.
-/

structure SeqTable (R : Type) (seq : R → Nat) where
  rows : List R
  ordered : rows.Pairwise fun row later => seq row < seq later

namespace SeqTable
variable {R : Type} {seq : R → Nat}

def empty : SeqTable R seq := ⟨[], List.Pairwise.nil⟩

/-- `WHERE seq > ? ORDER BY seq` -/
def after (table : SeqTable R seq) (n : Nat) : List R := table.rows.filter fun row => n < seq row

/-- `COALESCE(MAX(seq), 0)` -/
def maxSeq (table : SeqTable R seq) : Nat := (table.rows.getLast?.map seq).getD 0

/-- `INSERT`: none where the key is taken. -/
def insert? (table : SeqTable R seq) (row : R) : Option (SeqTable R seq) :=
  if h : ∀ other ∈ table.rows, seq other ≠ seq row then
    some {
      rows := table.rows.filter (fun other => seq other < seq row) ++ row ::
        table.rows.filter fun other => seq row < seq other
      ordered := by
        refine List.pairwise_append.mpr ⟨table.ordered.filter _, List.pairwise_cons.mpr ⟨?_, table.ordered.filter _⟩, ?_⟩
        · intro other hother
          simpa using (List.mem_filter.mp hother).2
        · intro a ha b hb
          have hlow : seq a < seq row := by simpa using (List.mem_filter.mp ha).2
          rcases List.mem_cons.mp hb with rfl | hb
          · exact hlow
          · have hhigh : seq row < seq b := by simpa using (List.mem_filter.mp hb).2
            omega }
  else none

theorem le_maxSeq (table : SeqTable R seq) {row : R} (hm : row ∈ table.rows) : seq row ≤ table.maxSeq := by
  obtain ⟨rows, hordered⟩ := table
  have hlast := List.getLast?_eq_getLast_of_ne_nil (List.ne_nil_of_mem hm)
  generalize rows.getLast _ = last at hlast
  obtain ⟨init, rfl⟩ := List.getLast?_eq_some_iff.mp hlast
  unfold maxSeq
  rw [hlast]
  rcases List.mem_append.mp hm with hm | hm
  · exact ((List.pairwise_append.mp hordered).2.2 row hm last (List.mem_singleton_self last)).le
  · rw [List.mem_singleton.mp hm]
    exact Nat.le_refl _

theorem insert?_last (table : SeqTable R seq) (row : R) (h : ∀ other ∈ table.rows, seq other < seq row) :
    ∃ table', table.insert? row = some table' ∧ table'.rows = table.rows ++ [row] := by
  have hne : ∀ other ∈ table.rows, seq other ≠ seq row := fun other hm => (h other hm).ne
  have hlow : table.rows.filter (fun other => seq other < seq row) = table.rows := by
    rw [List.filter_eq_self]
    exact fun other hm => decide_eq_true (h other hm)
  have hhigh : table.rows.filter (fun other => seq row < seq other) = [] := by
    rw [List.filter_eq_nil_iff]
    intro other hm
    simpa using (h other hm).le
  refine ⟨_, dif_pos hne, ?_⟩
  dsimp only
  rw [hlow, hhigh]

end SeqTable
