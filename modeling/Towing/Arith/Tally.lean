import Mathlib.Algebra.BigOperators.Group.List.Basic
import Mathlib.Algebra.Ring.Nat
import Mathlib.Data.List.Nodup

namespace Towing.Arith

/-! Counting by kind, with a sample of what was counted. -/

structure TallyEntry (κ ι : Type) where
  kind : κ
  count : ℕ
  sample : List ι
  deriving DecidableEq

variable {κ ι : Type} [DecidableEq κ]

/-- One more of the kind, in an entry of its own where it is the first; the sample grows up
to the cap. -/
def note (cap : ℕ) (tally : List (TallyEntry κ ι)) (kind : κ) (item : ι) : List (TallyEntry κ ι) :=
  match tally with
  | [] => [⟨kind, 1, [item].take cap⟩]
  | entry :: tally =>
    if entry.kind = kind then
      ⟨kind, entry.count + 1, if entry.sample.length < cap then entry.sample ++ [item] else entry.sample⟩ :: tally
    else entry :: note cap tally kind item

def noteAll (cap : ℕ) (tally : List (TallyEntry κ ι)) (items : List (κ × ι)) : List (TallyEntry κ ι) :=
  items.foldl (fun tally x ↦ note cap tally x.1 x.2) tally

variable {cap : ℕ} {tally : List (TallyEntry κ ι)} {kind : κ} {item : ι} {items : List (κ × ι)} {entry : TallyEntry κ ι}

/-- What an entry of the kind should be, of the items that were counted. -/
def Counted (cap : ℕ) (items : List (κ × ι)) (entry : TallyEntry κ ι) : Prop :=
  let own := items.filter (·.1 = entry.kind)
  entry.count = own.length ∧ entry.sample = (own.map (·.2)).take cap

theorem note_kinds : (note cap tally kind item).map (·.kind) =
    if kind ∈ tally.map (·.kind) then tally.map (·.kind) else tally.map (·.kind) ++ [kind] := by
  induction tally with
  | nil => simp [note]
  | cons first tally ih =>
    rw [note]
    by_cases hfirst : first.kind = kind
    · simp [hfirst]
    · have hcons : kind ∈ (first :: tally).map (·.kind) ↔ kind ∈ tally.map (·.kind) := by
        rw [List.map_cons, List.mem_cons, or_iff_right fun h ↦ hfirst h.symm]
      rw [if_neg hfirst, List.map_cons, ih]
      by_cases hmem : kind ∈ tally.map (·.kind)
      · rw [if_pos hmem, if_pos (hcons.mpr hmem), List.map_cons]
      · rw [if_neg hmem, if_neg (mt hcons.mp hmem), List.map_cons, List.cons_append]

theorem sum_note : ((note cap tally kind item).map (·.count)).sum = (tally.map (·.count)).sum + 1 := by
  induction tally with
  | nil => rfl
  | cons first tally ih =>
    rw [note]
    by_cases hfirst : first.kind = kind
    · rw [if_pos hfirst, List.map_cons, List.sum_cons, List.map_cons, List.sum_cons]
      dsimp only
      omega
    · rw [if_neg hfirst, List.map_cons, List.sum_cons, ih, List.map_cons, List.sum_cons]
      omega

theorem sum_noteAll : ((noteAll cap tally items).map (·.count)).sum = (tally.map (·.count)).sum + items.length := by
  induction items generalizing tally with
  | nil => rfl
  | cons x items ih =>
    have hnext := @ih (note cap tally x.1 x.2)
    rw [noteAll, List.foldl_cons, ← noteAll, hnext, sum_note, List.length_cons]
    omega

theorem note_eq (h : kind ∉ tally.map (·.kind)) : note cap tally kind item = tally ++ [⟨kind, 1, [item].take cap⟩] := by
  induction tally with
  | nil => rfl
  | cons first tally ih =>
    simp only [List.map_cons, List.mem_cons, not_or] at h
    rw [note, if_neg fun heq ↦ h.1 heq.symm, ih h.2]
    rfl

theorem noteAll_append (xs ys : List (κ × ι)) :
    noteAll cap (noteAll cap tally xs) ys = noteAll cap tally (xs ++ ys) := by
  rw [noteAll, noteAll, noteAll, List.foldl_append]

/-- A tally of the items: each kind that occurs has one entry, which is right. -/
structure TallyOf (cap : ℕ) (items : List (κ × ι)) (tally : List (TallyEntry κ ι)) : Prop where
  nodup : (tally.map (·.kind)).Nodup
  counted : ∀ entry ∈ tally, Counted cap items entry
  kinds : ∀ kind, kind ∈ tally.map (·.kind) ↔ ∃ x ∈ items, x.1 = kind

theorem counted_other (h : Counted cap items entry) (hne : entry.kind ≠ kind) : Counted cap (items ++ [(kind, item)]) entry := by
  have hown : (items ++ [(kind, item)]).filter (·.1 = entry.kind) = items.filter (·.1 = entry.kind) := by
    rw [List.filter_append]
    simp [hne.symm]
  unfold Counted at h ⊢
  rwa [hown]

theorem take_concat (ds : List ι) (d : ι) (cap : ℕ) : (ds ++ [d]).take cap =
    if (ds.take cap).length < cap then ds.take cap ++ [d] else ds.take cap := by
  by_cases hlt : ds.length < cap
  · rw [List.take_of_length_le (by rw [List.length_append, List.length_singleton]; omega),
      List.take_of_length_le (by omega), if_pos hlt]
  · have hle : cap ≤ ds.length := by omega
    rw [List.take_append_of_le_length hle, List.length_take, Nat.min_eq_left hle, if_neg (by omega)]

/-- The entry of the kind goes on being right. -/
theorem counted_own (h : Counted cap items entry) : Counted cap (items ++ [(entry.kind, item)])
    ⟨entry.kind, entry.count + 1, if entry.sample.length < cap then entry.sample ++ [item] else entry.sample⟩ := by
  obtain ⟨hcount, hsample⟩ := h
  have hown : (items ++ [(entry.kind, item)]).filter (·.1 = entry.kind) =
      items.filter (·.1 = entry.kind) ++ [(entry.kind, item)] := by
    rw [List.filter_append]
    simp
  constructor
  · rw [hown, List.length_append, ← hcount]
    rfl
  · dsimp only
    rw [hown, List.map_append, List.map_singleton, take_concat, ← hsample]

theorem mem_note (hnodup : (tally.map (·.kind)).Nodup) (h : entry ∈ note cap tally kind item) :
    entry ∈ tally ∧ entry.kind ≠ kind ∨
      (∃ own ∈ tally, own.kind = kind ∧ entry = ⟨own.kind, own.count + 1,
        if own.sample.length < cap then own.sample ++ [item] else own.sample⟩) ∨
      kind ∉ tally.map (·.kind) ∧ entry = ⟨kind, 1, [item].take cap⟩ := by
  by_cases hkind : kind ∈ tally.map (·.kind)
  · induction tally with
    | nil => cases hkind
    | cons first tally ih =>
      obtain ⟨hfirst, hrest⟩ := List.nodup_cons.mp hnodup
      rw [note] at h
      by_cases heq : first.kind = kind
      · rw [if_pos heq] at h
        rcases List.mem_cons.mp h with rfl | hmem
        · exact .inr (.inl ⟨first, List.mem_cons_self, heq, by rw [heq]⟩)
        · refine .inl ⟨List.mem_cons_of_mem _ hmem, fun hsame ↦ hfirst ?_⟩
          have hin : entry.kind ∈ tally.map (·.kind) := List.mem_map_of_mem hmem
          rwa [hsame, ← heq] at hin
      · rw [if_neg heq] at h
        rcases List.mem_cons.mp h with rfl | hmem
        · exact .inl ⟨List.mem_cons_self, heq⟩
        · have hkind' : kind ∈ tally.map (·.kind) := (List.mem_cons.mp hkind).resolve_left fun h ↦ heq h.symm
          rcases ih hrest hmem hkind' with ⟨hold, hne⟩ | ⟨own, hown, hbump⟩ | ⟨hcontra, -⟩
          · exact .inl ⟨List.mem_cons_of_mem _ hold, hne⟩
          · exact .inr (.inl ⟨own, List.mem_cons_of_mem _ hown, hbump⟩)
          · exact absurd hkind' hcontra
  · rw [note_eq hkind] at h
    rcases List.mem_append.mp h with hold | hnew
    · exact .inl ⟨hold, fun hsame ↦ hkind (hsame ▸ List.mem_map_of_mem hold)⟩
    · exact .inr (.inr ⟨hkind, List.mem_singleton.mp hnew⟩)

theorem TallyOf.concat (h : TallyOf cap items tally) (kind : κ) (item : ι) : TallyOf cap (items ++ [(kind, item)]) (note cap tally kind item) where
  nodup := by
    rw [note_kinds]
    split_ifs with hkind
    · exact h.nodup
    · exact List.nodup_append.mpr ⟨h.nodup, List.nodup_singleton _, by simpa using hkind⟩
  counted := by
    intro entry hmem
    rcases mem_note h.nodup hmem with ⟨hold, hne⟩ | ⟨own, hown, rfl, rfl⟩ | ⟨hnew, rfl⟩
    · exact counted_other (h.counted entry hold) hne
    · exact counted_own (h.counted own hown)
    · have hnone : items.filter (·.1 = kind) = [] := by
        rw [List.filter_eq_nil_iff]
        intro x hx heq
        exact hnew ((h.kinds kind).mpr ⟨x, hx, of_decide_eq_true heq⟩)
      have hown : (items ++ [(kind, item)]).filter (·.1 = kind) = [(kind, item)] := by
        rw [List.filter_append, hnone]
        simp
      exact ⟨by rw [hown]; rfl, by rw [hown]; rfl⟩
  kinds := by
    intro k
    rw [note_kinds]
    have hk := h.kinds k
    by_cases hkind : kind ∈ tally.map (·.kind)
    · rw [if_pos hkind, hk]
      constructor
      · rintro ⟨x, hx, rfl⟩
        exact ⟨x, List.mem_append_left _ hx, rfl⟩
      · rintro ⟨x, hx, rfl⟩
        rcases List.mem_append.mp hx with hx | hx
        · exact ⟨x, hx, rfl⟩
        · cases List.mem_singleton.mp hx
          exact (h.kinds kind).mp hkind
    · rw [if_neg hkind, List.mem_append, hk]
      constructor
      · rintro (⟨x, hx, rfl⟩ | hlast)
        · exact ⟨x, List.mem_append_left _ hx, rfl⟩
        · exact ⟨(kind, item), List.mem_append_right _ List.mem_cons_self, (List.mem_singleton.mp hlast).symm⟩
      · rintro ⟨x, hx, rfl⟩
        rcases List.mem_append.mp hx with hx | hx
        · exact .inl ⟨x, hx, rfl⟩
        · cases List.mem_singleton.mp hx
          exact .inr List.mem_cons_self

theorem TallyOf.noteAll {old : List (κ × ι)} (h : TallyOf cap old tally) (items : List (κ × ι)) :
    TallyOf cap (old ++ items) (Arith.noteAll cap tally items) := by
  induction items generalizing old tally with
  | nil => simpa [Arith.noteAll] using h
  | cons x items ih =>
    have hnext := ih (h.concat x.1 x.2)
    rwa [List.append_assoc] at hnext

theorem tallyOf_nil : TallyOf cap ([] : List (κ × ι)) [] := ⟨List.nodup_nil, by simp, by simp⟩

end Towing.Arith
