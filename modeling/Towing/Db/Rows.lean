import Mathlib.Data.List.Basic
import Mathlib.Data.List.Range
import Mathlib.Tactic.SplitIfs

namespace Towing.Db.Rows

variable {ρ : Type} {key : ρ → ℕ} {rows : List ρ} {row new : ρ} {id i : ℕ} {f : ρ → ρ}

/-! A table whose rows are numbered as they are inserted. -/

def Numbered (key : ρ → ℕ) (rows : List ρ) : Prop := rows.map key = List.range rows.length

def find (key : ρ → ℕ) (rows : List ρ) (id : ℕ) : Option ρ := rows.find? (key · = id)

def update (key : ρ → ℕ) (rows : List ρ) (id : ℕ) (f : ρ → ρ) : List ρ :=
  rows.map fun row ↦ if key row = id then f row else row

theorem Numbered.getElem (h : Numbered key rows) (hi : rows[i]? = some row) : key row = i := by
  have hmap : (rows.map key)[i]? = some (key row) := by simp [hi]
  rw [h, List.getElem?_range (List.getElem?_eq_some_iff.mp hi).1] at hmap
  exact (Option.some.inj hmap).symm

theorem Numbered.find_eq (h : Numbered key rows) (id : ℕ) : find key rows id = rows[id]? := by
  unfold find
  cases hi : rows[id]? with
  | some row =>
    refine (List.find?_eq_some_iff_getElem).mpr ⟨by simpa using h.getElem hi, id, ?_⟩
    obtain ⟨hlt, heq⟩ := List.getElem?_eq_some_iff.mp hi
    refine ⟨hlt, heq, fun j hj ↦ ?_⟩
    have hj' : rows[j]? = some rows[j] := List.getElem?_eq_getElem (by omega)
    have := h.getElem hj'
    simp only [this, Bool.not_eq_eq_eq_not, Bool.not_true, decide_eq_false_iff_not]
    omega
  | none =>
    rw [List.find?_eq_none]
    intro row hrow
    obtain ⟨j, hj⟩ := List.getElem?_of_mem hrow
    have hlt := (List.getElem?_eq_some_iff.mp hj).1
    have hle := List.getElem?_eq_none_iff.mp hi
    simp only [h.getElem hj, decide_eq_true_eq]
    omega

theorem Numbered.find_of_mem (h : Numbered key rows) (hrow : row ∈ rows) :
    find key rows (key row) = some row := by
  obtain ⟨j, hj⟩ := List.getElem?_of_mem hrow
  rw [h.find_eq, h.getElem hj, hj]

theorem mem_of_find (h : find key rows id = some row) : row ∈ rows ∧ key row = id :=
  ⟨List.mem_of_find?_eq_some h, by simpa using List.find?_some h⟩

theorem Numbered.update (hf : ∀ row, key row = id → key (f row) = key row) (h : Numbered key rows) :
    Numbered key (update key rows id f) := by
  have hmap : (Rows.update key rows id f).map key = rows.map key := by
    simp only [Rows.update, List.map_map]
    apply List.map_congr_left
    intro row _
    dsimp only [Function.comp]
    split_ifs with hid
    · exact hf row hid
    · rfl
  rw [Numbered, hmap, h]
  simp [Rows.update]

theorem find_update (hf : ∀ row, key row = id → key (f row) = key row) (i : ℕ) :
    find key (update key rows id f) i =
      (find key rows i).map fun row ↦ if key row = id then f row else row := by
  have hkey : ((fun row ↦ decide (key row = i)) ∘ fun row ↦
      if key row = id then f row else row) = fun row ↦ decide (key row = i) := by
    funext row
    dsimp only [Function.comp]
    split_ifs with hid
    · rw [hf row hid]
    · rfl
  simp only [find, update]
  rw [List.find?_map, hkey]

theorem Numbered.append (h : Numbered key rows) (hnew : key new = rows.length) :
    Numbered key (rows ++ [new]) := by
  rw [Numbered, List.map_append, h, List.length_append, List.length_singleton, List.range_succ]
  simp [hnew]

theorem Numbered.lt (h : Numbered key rows) (hi : find key rows id = some row) : id < rows.length := by
  rw [h.find_eq] at hi
  exact (List.getElem?_eq_some_iff.mp hi).1

theorem Numbered.find_append (h : Numbered key rows) (hnew : key new = rows.length) (i : ℕ) :
    find key (rows ++ [new]) i = if i = rows.length then some new else find key rows i := by
  rw [(h.append hnew).find_eq, h.find_eq, List.getElem?_append]
  split_ifs with hlt heq heq
  · omega
  · rfl
  · subst heq
    simp
  · rw [List.getElem?_eq_none_iff.mpr (by simp; omega), List.getElem?_eq_none_iff.mpr (by omega)]

end Towing.Db.Rows
