import Mathlib.Data.List.Induction
import Mathlib.Data.List.Nodup

namespace Towing.Process

/-- A map that remembers the order in which its keys came. -/
abbrev OrderedMap (κ ν : Type) := List (κ × ν)

namespace OrderedMap

variable {κ ν : Type} [DecidableEq κ]

def keys (m : OrderedMap κ ν) : List κ := m.map Prod.fst

def get? (k : κ) : OrderedMap κ ν → Option ν
  | [] => none
  | e :: m => if e.1 = k then some e.2 else get? k m

/-- A key that is there keeps its place. -/
def set (k : κ) (v : ν) : OrderedMap κ ν → OrderedMap κ ν
  | [] => [(k, v)]
  | e :: m => if e.1 = k then (k, v) :: m else e :: set k v m

def erase (k : κ) (m : OrderedMap κ ν) : OrderedMap κ ν := m.filter fun e ↦ e.1 ≠ k

/-- The elements in the order of their first appearance. -/
def firsts (ks : List κ) : List κ := ks.foldl (fun seen k ↦ if k ∈ seen then seen else seen ++ [k]) []

variable {m : OrderedMap κ ν} {k k' : κ} {v : ν}

theorem firsts_concat (ks : List κ) (k : κ) :
    firsts (ks ++ [k]) = if k ∈ firsts ks then firsts ks else firsts ks ++ [k] := by
  rw [firsts, List.foldl_concat]
  rfl

theorem mem_firsts {ks : List κ} : k ∈ firsts ks ↔ k ∈ ks := by
  induction ks using List.reverseRecOn with
  | nil => simp [firsts]
  | append_singleton ks x ih =>
    rw [firsts_concat]
    split_ifs with hx
    · rw [ih, List.mem_append, List.mem_singleton]
      refine ⟨Or.inl, ?_⟩
      rintro (h | rfl)
      · exact h
      · exact ih.mp hx
    · rw [List.mem_append, List.mem_append, ih]

theorem nodup_firsts (ks : List κ) : (firsts ks).Nodup := by
  induction ks using List.reverseRecOn with
  | nil => exact List.nodup_nil
  | append_singleton ks x ih =>
    rw [firsts_concat]
    split_ifs with hx
    · exact ih
    · rw [List.nodup_append]
      refine ⟨ih, List.nodup_singleton x, ?_⟩
      intro a ha b hb
      rw [List.mem_singleton] at hb
      rintro rfl
      exact hx (hb ▸ ha)

theorem get?_isSome_iff : (get? k m).isSome ↔ k ∈ keys m := by
  induction m with
  | nil => simp [get?, keys]
  | cons e m ih =>
    by_cases he : e.1 = k
    · simp [get?, keys, he]
    · have hne : ¬k = e.1 := fun h ↦ he h.symm
      simpa [get?, keys, he, hne] using ih

theorem keys_set : keys (set k v m) = if k ∈ keys m then keys m else keys m ++ [k] := by
  induction m with
  | nil => rfl
  | cons e m ih =>
    by_cases he : e.1 = k
    · simp [set, keys, he]
    · have hne : ¬k = e.1 := fun h ↦ he h.symm
      have hcons : ∀ rest : OrderedMap κ ν, keys (e :: rest) = e.1 :: keys rest := fun _ ↦ rfl
      rw [set, if_neg he, hcons, hcons, ih]
      by_cases hk : k ∈ keys m
      · rw [if_pos hk, if_pos (List.mem_cons_of_mem _ hk)]
      · rw [if_neg hk, if_neg (by simp [hne, hk]), List.cons_append]

theorem get?_set : get? k' (set k v m) = if k' = k then some v else get? k' m := by
  induction m with
  | nil =>
    by_cases h : k' = k
    · simp [set, get?, h]
    · simp [set, get?, h, Ne.symm h]
  | cons e m ih =>
    by_cases he : e.1 = k
    · by_cases h : k' = k
      · simp [set, get?, he, h]
      · have hne : ¬k = k' := fun h' ↦ h h'.symm
        simp [set, get?, he, h, hne]
    · by_cases h : e.1 = k'
      · have hne : ¬k' = k := fun h' ↦ he (h.trans h')
        simp [set, get?, h, hne]
      · simp [set, get?, he, h, ih]

theorem get?_erase : get? k' (erase k m) = if k' = k then none else get? k' m := by
  induction m with
  | nil => simp [erase, get?]
  | cons e m ih =>
    rw [erase] at ih ⊢
    by_cases he : e.1 = k
    · rw [List.filter_cons_of_neg (by simpa using he), ih]
      split_ifs with h
      · rfl
      · rw [get?, if_neg (he ▸ Ne.symm h)]
    · rw [List.filter_cons_of_pos (by simpa using he), get?, get?, ih]
      by_cases h : e.1 = k'
      · rw [if_pos h, if_neg (h ▸ he), if_pos h]
      · rw [if_neg h, if_neg h]

theorem nodup_set (h : (keys m).Nodup) : (keys (set k v m)).Nodup := by
  rw [keys_set]
  split_ifs with hk
  · exact h
  · rw [List.nodup_append]
    refine ⟨h, List.nodup_singleton k, ?_⟩
    intro a ha b hb
    rw [List.mem_singleton] at hb
    rintro rfl
    exact hk (hb ▸ ha)

theorem get?_of_mem (h : (keys m).Nodup) {e : κ × ν} (he : e ∈ m) : get? e.1 m = some e.2 := by
  induction m with
  | nil => exact absurd he (by simp)
  | cons x m ih =>
    simp only [keys, List.map_cons, List.nodup_cons] at h
    rcases List.mem_cons.mp he with rfl | he
    · simp [get?]
    · have hne : ¬x.1 = e.1 := fun heq ↦ h.1 (heq ▸ List.mem_map_of_mem he)
      rw [get?, if_neg hne]
      exact ih h.2 he

theorem mem_of_get? (h : get? k m = some v) : (k, v) ∈ m := by
  induction m with
  | nil => exact absurd h (by simp [get?])
  | cons e m ih =>
    rw [get?] at h
    split_ifs at h with he
    · rw [Option.some_inj] at h
      rw [← he, ← h]
      exact List.mem_cons_self
    · exact List.mem_cons_of_mem e (ih h)

/-- Going through the map is going through its keys. -/
theorem flatMap_keys {β : Type} (h : (keys m).Nodup) (f : κ → ν → List β) :
    (m.flatMap fun e ↦ f e.1 e.2) = (keys m).flatMap fun k ↦ (get? k m).elim [] (f k) := by
  rw [keys, List.flatMap_map]
  apply List.flatMap_congr
  intro e he
  rw [get?_of_mem h he]
  rfl

theorem filter_key (h : (keys m).Nodup) (k : κ) :
    (m.filter fun e ↦ e.1 = k).map Prod.snd = (get? k m).toList := by
  induction m with
  | nil => rfl
  | cons e m ih =>
    simp only [keys, List.map_cons, List.nodup_cons] at h
    by_cases he : e.1 = k
    · have hnone : get? k m = none := by
        rw [← Option.not_isSome_iff_eq_none, get?_isSome_iff, ← he]
        exact h.1
      have hrest := ih h.2
      rw [hnone] at hrest
      rw [List.filter_cons_of_pos (by simpa using he), List.map_cons, hrest, get?, if_pos he]
      rfl
    · rw [List.filter_cons_of_neg (by simpa using he), ih h.2, get?, if_neg he]

end OrderedMap

end Towing.Process
