import Maruhi.Lib.OrderedMap

/-!
# An index kept in step with a population

`current i` is what stands at `i`, if anything. An index of a key of the population is exact
when no two places share a key and the index holds just the keys in use.
-/

variable {ι β κ : Type} [DecidableEq κ]

structure Indexed (key : β → κ) (index : OrderedMap κ Unit) (current : ι → Option β) : Prop where
  unique : ∀ i j x y, current i = some x → current j = some y → key x = key y → i = j
  has_iff : ∀ k, index.has k = true ↔ ∃ i x, current i = some x ∧ key x = k

namespace Indexed
variable {key : β → κ} {index : OrderedMap κ Unit} {current current' : ι → Option β}

theorem empty (key : β → κ) : Indexed key .empty (fun _ : ι => none) :=
  ⟨fun _ _ _ _ h => (nomatch h), fun k => by simp [OrderedMap.has]⟩

theorem not_used (h : Indexed key index current) {k : κ} (hk : index.get? k = none) {i : ι} {x : β}
    (hx : current i = some x) : key x ≠ k := by
  intro heq
  have hhas := (h.has_iff k).mpr ⟨i, x, hx, heq⟩
  rw [(OrderedMap.has_eq_false_iff _ _).mpr hk] at hhas
  cases hhas

theorem add [DecidableEq ι] (h : Indexed key index current) {i₀ : ι} {x₀ : β} (hkey : index.get? (key x₀) = none)
    (hfree : current i₀ = none) (hcurrent : ∀ i, current' i = if i = i₀ then some x₀ else current i) :
    Indexed key (index.set (key x₀) ()) current' := by
  constructor
  · intro i j x y hx hy heq
    rw [hcurrent] at hx hy
    split_ifs at hx hy with hi hj hj
    · exact hi.trans hj.symm
    · cases hx; exact absurd heq.symm (h.not_used hkey hy)
    · cases hy; exact absurd heq (h.not_used hkey hx)
    · exact h.unique i j x y hx hy heq
  · intro k
    simp only [OrderedMap.has, OrderedMap.get?_set]
    constructor
    · intro hk
      split_ifs at hk with hk₀
      · exact ⟨i₀, x₀, by rw [hcurrent, if_pos rfl], hk₀.symm⟩
      · obtain ⟨i, x, hx, heq⟩ := (h.has_iff k).mp hk
        have hi : i ≠ i₀ := fun hi => by rw [hi, hfree] at hx; cases hx
        exact ⟨i, x, by rw [hcurrent, if_neg hi]; exact hx, heq⟩
    · rintro ⟨i, x, hx, heq⟩
      rw [hcurrent] at hx
      split_ifs at hx with hi
      · cases hx; rw [if_pos heq.symm]; rfl
      · split_ifs
        · rfl
        · exact (h.has_iff k).mpr ⟨i, x, hx, heq⟩

theorem remove (h : Indexed key index current) (gone : ι → Prop) [DecidablePred gone]
    (hcurrent : ∀ i, current' i = if gone i then none else current i) {ks : List κ}
    (hks : ∀ k, k ∈ ks ↔ ∃ i x, gone i ∧ current i = some x ∧ key x = k) :
    Indexed key (index.without ks) current' := by
  constructor
  · intro i j x y hx hy heq
    rw [hcurrent] at hx hy
    split_ifs at hx hy
    exact h.unique i j x y hx hy heq
  · intro k
    simp only [OrderedMap.has, OrderedMap.get?_without]
    constructor
    · intro hk
      split_ifs at hk with hmem
      · cases hk
      · obtain ⟨i, x, hx, heq⟩ := (h.has_iff k).mp hk
        have hi : ¬ gone i := fun hi => hmem ((hks k).mpr ⟨i, x, hi, hx, heq⟩)
        exact ⟨i, x, by rw [hcurrent, if_neg hi]; exact hx, heq⟩
    · rintro ⟨i, x, hx, heq⟩
      rw [hcurrent] at hx
      split_ifs at hx with hi
      have hmem : k ∉ ks := by
        intro hk
        obtain ⟨j, y, hj, hy, heq'⟩ := (hks k).mp hk
        exact hi (h.unique i j x y hx hy (heq.trans heq'.symm) ▸ hj)
      rw [if_neg hmem]
      exact (h.has_iff k).mpr ⟨i, x, hx, heq⟩

theorem map (h : Indexed key index current) (f : β → β) (hf : ∀ x, key (f x) = key x)
    (hcurrent : ∀ i, current' i = (current i).map f) : Indexed key index current' := by
  constructor
  · intro i j x y hx hy heq
    rw [hcurrent] at hx hy
    obtain ⟨x', hx', rfl⟩ := Option.map_eq_some_iff.mp hx
    obtain ⟨y', hy', rfl⟩ := Option.map_eq_some_iff.mp hy
    exact h.unique i j x' y' hx' hy' (by rwa [hf, hf] at heq)
  · intro k
    rw [h.has_iff]
    constructor
    · rintro ⟨i, x, hx, heq⟩
      exact ⟨i, f x, by rw [hcurrent, hx]; rfl, by rw [hf]; exact heq⟩
    · rintro ⟨i, x, hx, heq⟩
      rw [hcurrent] at hx
      obtain ⟨x', hx', rfl⟩ := Option.map_eq_some_iff.mp hx
      exact ⟨i, x', hx', by rw [← heq, hf]⟩

theorem congr (h : Indexed key index current) (hcurrent : ∀ i, current' i = current i) :
    Indexed key index current' := by
  rw [funext hcurrent]; exact h

end Indexed

/-! ## Where a taken place may be overwritten -/

/-- No two places share a key, and the index holds every key in use. -/
structure Covered (key : β → κ) (index : OrderedMap κ Unit) (current : ι → Option β) : Prop where
  unique : ∀ i j x y, current i = some x → current j = some y → key x = key y → i = j
  has : ∀ i x, current i = some x → index.get? (key x) = some ()

namespace Covered
variable {key : β → κ} {index : OrderedMap κ Unit} {current current' : ι → Option β}

theorem empty (key : β → κ) : Covered key .empty (fun _ : ι => none) :=
  ⟨fun _ _ _ _ h => (nomatch h), fun _ _ h => (nomatch h)⟩

theorem not_used (h : Covered key index current) {k : κ} (hk : index.get? k = none) {i : ι} {x : β}
    (hx : current i = some x) : key x ≠ k := by
  rintro rfl
  rw [h.has i x hx] at hk
  cases hk

theorem put [DecidableEq ι] (h : Covered key index current) {i₀ : ι} {x₀ : β} (hkey : index.get? (key x₀) = none)
    (hcurrent : ∀ i, current' i = if i = i₀ then some x₀ else current i) :
    Covered key (index.set (key x₀) ()) current' := by
  constructor
  · intro i j x y hx hy heq
    rw [hcurrent] at hx hy
    split_ifs at hx hy with hi hj hj
    · exact hi.trans hj.symm
    · cases hx; exact absurd heq.symm (h.not_used hkey hy)
    · cases hy; exact absurd heq (h.not_used hkey hx)
    · exact h.unique i j x y hx hy heq
  · intro i x hx
    rw [hcurrent] at hx
    rw [OrderedMap.get?_set]
    split_ifs at hx with hi
    · cases hx
      exact if_pos rfl
    · split_ifs
      · rfl
      · exact h.has i x hx

theorem remove (h : Covered key index current) (gone : ι → Prop) [DecidablePred gone]
    (hcurrent : ∀ i, current' i = if gone i then none else current i) {ks : List κ}
    (hks : ∀ k ∈ ks, ∃ i x, gone i ∧ current i = some x ∧ key x = k) : Covered key (index.without ks) current' := by
  constructor
  · intro i j x y hx hy heq
    rw [hcurrent] at hx hy
    split_ifs at hx hy
    exact h.unique i j x y hx hy heq
  · intro i x hx
    rw [hcurrent] at hx
    split_ifs at hx with hi
    have hmem : key x ∉ ks := by
      intro hk
      obtain ⟨j, y, hj, hy, heq⟩ := hks _ hk
      exact hi (h.unique i j x y hx hy heq.symm ▸ hj)
    rw [OrderedMap.get?_without, if_neg hmem]
    exact h.has i x hx

theorem map (h : Covered key index current) (f : β → β) (hf : ∀ x, key (f x) = key x)
    (hcurrent : ∀ i, current' i = (current i).map f) : Covered key index current' := by
  constructor
  · intro i j x y hx hy heq
    rw [hcurrent] at hx hy
    obtain ⟨x', hx', rfl⟩ := Option.map_eq_some_iff.mp hx
    obtain ⟨y', hy', rfl⟩ := Option.map_eq_some_iff.mp hy
    exact h.unique i j x' y' hx' hy' (by rwa [hf, hf] at heq)
  · intro i x hx
    rw [hcurrent] at hx
    obtain ⟨x', hx', rfl⟩ := Option.map_eq_some_iff.mp hx
    rw [hf]
    exact h.has i x' hx'

end Covered
