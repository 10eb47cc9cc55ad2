import Towing.Process.Moments

namespace Towing.Process

variable {ℓ σ ε α : Type} {es : List (ℕ × Event ℓ σ)} {p q : Event ℓ σ → Bool}

/-- The commits of all requests but one. -/
def others (n : ℕ) (es : List (ℕ × Event ℓ σ)) : List (ℕ × Event ℓ σ) := es.filter fun x ↦ !decide (x.1 = n)

theorem countP_own (p : Event ℓ σ → Bool) (n : ℕ) (es : List (ℕ × Event ℓ σ)) :
    (es.map (·.2)).countP p = (own n es).countP p + ((others n es).map (·.2)).countP p := by
  rw [own, others, List.countP_map, List.countP_map, List.countP_map]
  exact List.countP_eq_countP_filter_add es _ _

theorem own_others_ne {m n : ℕ} (h : m ≠ n) : own m (others n es) = own m es := by
  rw [own, own, others, List.filter_filter]
  congr 1
  apply List.filter_congr
  intro x _
  by_cases hx : x.1 = m
  · simp [hx, h]
  · simp [hx]

theorem own_others_self {n : ℕ} : own n (others n es) = [] := by
  rw [own, others, List.filter_filter, List.map_eq_nil_iff, List.filter_eq_nil_iff]
  simp

theorem length_others_cons (x : ℕ × Event ℓ σ) (es : List (ℕ × Event ℓ σ)) :
    (others x.1 (x :: es)).length ≤ es.length := by
  have hle := List.length_filter_le (fun y : ℕ × Event ℓ σ ↦ !decide (y.1 = x.1)) es
  simpa [others] using hle

/-- What no request does more often than something else, all of them together do not either. -/
theorem countP_le_of_own (h : ∀ n, (own n es).countP p ≤ (own n es).countP q) :
    (es.map (·.2)).countP p ≤ (es.map (·.2)).countP q := by
  suffices H : ∀ k, ∀ es : List (ℕ × Event ℓ σ), es.length ≤ k →
      (∀ n, (own n es).countP p ≤ (own n es).countP q) → (es.map (·.2)).countP p ≤ (es.map (·.2)).countP q from
    H es.length es le_rfl h
  intro k
  induction k with
  | zero =>
    intro es hlen _
    obtain rfl := List.length_eq_zero_iff.mp (Nat.le_zero.mp hlen)
    simp
  | succ k ih =>
    intro es hlen hown
    cases es with
    | nil => simp
    | cons x es =>
      rw [countP_own p x.1, countP_own q x.1]
      apply Nat.add_le_add (hown x.1)
      apply ih
      · exact (length_others_cons x es).trans (Nat.le_of_succ_le_succ hlen)
      · intro n
        by_cases hn : n = x.1
        · rw [hn, own_others_self]
          simp
        · rw [own_others_ne hn]
          exact hown n

/-- Where the run makes what a request does after `past`. -/
theorem makes_of_own_eq {n : ℕ} {e : Event ℓ σ} {past rest : List (Event ℓ σ)} (h : own n es = past ++ e :: rest) :
    ∃ i, Makes es i n e ∧ own n (es.take i) = past := by
  obtain ⟨pre, post, rfl, hpost⟩ := own_split h
  have hpre : own n pre = past := by
    rw [show (n, e) :: post = [(n, e)] ++ post from rfl, own_append, own_append, own_self, hpost] at h
    exact List.append_inj_left' h rfl
  refine ⟨pre.length, by simp [Makes], ?_⟩
  rw [List.take_left' rfl, hpre]

/-- What a request does once at most, and only with a permit of its own, is done no more often than
permits are given. -/
theorem countP_le_permits
    (h : ∀ i n e, Makes es i n e → p e = true →
      (∃ f ∈ own n (es.take i), q f = true) ∧ ∀ f ∈ own n (es.take i), p f = false) :
    (es.map (·.2)).countP p ≤ (es.map (·.2)).countP q := by
  apply countP_le_of_own
  intro n
  have hat : ∀ past e rest, own n es = past ++ e :: rest → p e = true →
      (∃ f ∈ past, q f = true) ∧ ∀ f ∈ past, p f = false := by
    intro past e rest hown hp
    obtain ⟨i, he, rfl⟩ := makes_of_own_eq hown
    exact h i n e he hp
  by_cases hany : ∃ e ∈ own n es, p e = true
  · obtain ⟨e, he, hp⟩ := hany
    obtain ⟨past, rest, hown⟩ := List.append_of_mem he
    obtain ⟨f, hf, hq⟩ := (hat past e rest hown hp).1
    calc (own n es).countP p ≤ 1 := countP_le_one fun past e rest hown hp ↦ (hat past e rest hown hp).2
      _ ≤ (own n es).countP q := by
        apply List.countP_pos_iff.mpr
        exact ⟨f, by rw [hown]; exact List.mem_append_left _ hf, hq⟩
  · rw [List.countP_eq_zero.mpr fun e he hp ↦ hany ⟨e, he, hp⟩]
    exact Nat.zero_le _

theorem countP_or {δ : Type} {p q : δ → Bool} {xs : List δ} (h : ∀ x ∈ xs, p x = true → q x = false) :
    xs.countP (fun x ↦ p x || q x) = xs.countP p + xs.countP q := by
  induction xs with
  | nil => rfl
  | cons x xs ih =>
    rw [List.countP_cons, List.countP_cons, List.countP_cons, ih fun y hy ↦ h y (List.mem_cons_of_mem x hy)]
    cases hp : p x with
    | false => simp [Nat.add_assoc]
    | true =>
      simp only [h x List.mem_cons_self hp, Bool.or_false, if_true, Bool.false_eq_true, if_false]
      omega

/-- What happens once at most happens at one place. -/
theorem Makes.unique_of_countP (h : (es.map (·.2)).countP p ≤ 1) {i j m n : ℕ} {e f : Event ℓ σ} (he : Makes es i m e)
    (hf : Makes es j n f) (hpe : p e = true) (hpf : p f = true) : i = j := by
  have hearlier {i j m n : ℕ} {e f : Event ℓ σ} (he : Makes es i m e) (hf : Makes es j n f) (hpe : p e = true)
      (hpf : p f = true) : ¬i < j := by
    intro hij
    have hsplit : es.map (·.2) = (es.take (i + 1)).map (·.2) ++ (es.drop (i + 1)).map (·.2) := by
      rw [← List.map_append, List.take_append_drop]
    have hbefore : 0 < ((es.take (i + 1)).map (·.2)).countP p := by
      refine List.countP_pos_iff.mpr ⟨e, ?_, hpe⟩
      exact List.mem_map.mpr ⟨(m, e), List.mem_of_getElem? (he.take (Nat.lt_succ_self i)), rfl⟩
    have hafter : 0 < ((es.drop (i + 1)).map (·.2)).countP p := List.countP_pos_iff.mpr ⟨f, hf.later hij, hpf⟩
    rw [hsplit, List.countP_append] at h
    omega
  have hij := hearlier he hf hpe hpf
  have hji := hearlier hf he hpf hpe
  omega

/-- What a request has committed stays committed. -/
theorem Proc.Heeds.grows [Store ℓ σ] {Φ : List (Event ℓ σ) → ℓ → Prop} {Q : Except ε α → List (Event ℓ σ) → Prop}
    {p : Proc ℓ σ ε α} {past : List (Event ℓ σ)} (h : p.Heeds Φ Q past) :
    p.Heeds Φ (fun r past' ↦ Q r past' ∧ past ⊆ past') past := by
  suffices H : ∀ old, old ⊆ past → p.Heeds Φ (fun r past' ↦ Q r past' ∧ old ⊆ past') past from
    H past (List.Subset.refl past)
  intro old hold
  induction p generalizing past with
  | done r => exact ⟨h, hold⟩
  | step l next ih =>
    exact ⟨h.1, fun s ↦ ih s (h.2 s) (List.Subset.trans hold (List.subset_append_left _ _))⟩

/-- A meter that never runs back, is moved on by every permit and gives none from `k` on. -/
theorem Chained.countP_le {s t : σ} {es : List (Event ℓ σ)} (h : Chained s es t) {meter : σ → ℕ} {k : ℕ}
    (hmono : ∀ e ∈ es, meter e.before ≤ meter e.after)
    (hpermit : ∀ e ∈ es, q e = true → meter e.before < meter e.after ∧ meter e.before < k) :
    es.countP q ≤ k := by
  have hJ := h.history (J := fun es t ↦ es.countP q ≤ meter t ∧ es.countP q ≤ k) (by simp) fun pre e he hpre ↦ by
    obtain ⟨hmeter, hk⟩ := hpre
    rw [List.countP_append, List.countP_singleton]
    have hle := hmono e he
    split_ifs with hq
    · obtain ⟨hlt, hroom⟩ := hpermit e he hq
      omega
    · omega
  exact hJ.2

section Precedes

variable [Store ℓ σ] {R : σ → σ → Prop} {Req : Proc ℓ σ ε Unit → Prop} {s₀ s : σ} {cs : List (Call ℓ σ ε)}
  {i j m n : ℕ} {e f : Event ℓ σ} (hrefl : ∀ s, R s s) (htrans : ∀ s t u, R s t → R t u → R s u)
  (hcommit : ∀ (l : ℓ) s, R s (Store.commit l s)) (hrun : Calls Req s₀ cs s es)
include hrefl htrans hcommit hrun

omit hrefl htrans in
theorem Calls.rel_commit : ∀ g ∈ es.map (·.2), R g.before g.after := by
  intro g hg
  obtain ⟨x, hx, rfl⟩ := List.mem_map.mp hg
  rw [hrun.committed x hx]
  exact hcommit _ _

/-- A preorder that every step respects relates what a step finds to what a later one finds, … -/
theorem Calls.rel_later (hij : i ≤ j) (he : Makes es i m e) (hf : Makes es j n f) : R e.before f.before :=
  hrun.chained.rel_later hrefl htrans (hrun.rel_commit hcommit) hij he.event hf.event

theorem Calls.rel_after (hij : i < j) (he : Makes es i m e) (hf : Makes es j n f) : R e.after f.before :=
  hrun.chained.rel_after hrefl htrans (hrun.rel_commit hcommit) hij he.event hf.event

/-- … what a request has seen to what it sees, … -/
theorem Calls.rel_own (he : Makes es i n e) (hf : f ∈ own n (es.take i)) : R f.before e.before := by
  obtain ⟨j, hji, hf⟩ := makes_of_own hf
  exact hrun.rel_later hrefl htrans hcommit hji.le hf he

/-- … and to the end of the run. -/
theorem Calls.rel_end (he : Makes es i n e) : R e.before s := by
  have hall := hrun.rel_commit hcommit
  have hmem := List.mem_of_getElem? he.event
  exact htrans _ _ _ (hall e hmem) (hrun.chained.rel_last hrefl htrans hall e hmem)

end Precedes

end Towing.Process
