import Towing.Process.Calls
import Mathlib.Data.Nat.Find
import Mathlib.Data.Nat.Init
import Mathlib.Data.List.NodupEquivFin

namespace Towing.Process

variable {ℓ σ ε : Type} {s t : σ} {fs : List (Event ℓ σ)}

theorem Chained.first (h : Chained s fs t) {e : Event ℓ σ} (he : fs[0]? = some e) : e.before = s := by
  cases fs with
  | nil => simp at he
  | cons f fs =>
    obtain rfl := Option.some.inj he
    exact h.1

/-- An event finds what the one before it has left. -/
theorem Chained.next (h : Chained s fs t) {i : ℕ} {e f : Event ℓ σ} (he : fs[i]? = some e)
    (hf : fs[i + 1]? = some f) : f.before = e.after := by
  induction fs generalizing s i with
  | nil => simp at he
  | cons g fs ih =>
    cases i with
    | zero =>
      obtain rfl := Option.some.inj he
      exact h.2.first hf
    | succ i => exact ih h.2 he hf

theorem getElem?_earlier {δ : Type} {xs : List δ} {i j : ℕ} {y : δ} (hij : i ≤ j)
    (hj : xs[j]? = some y) : ∃ x, xs[i]? = some x := by
  obtain ⟨hlt, -⟩ := List.getElem?_eq_some_iff.mp hj
  exact ⟨xs[i], List.getElem?_eq_getElem (by omega)⟩

/-- What holds at an event but not at the start has been brought about by an earlier
one, and has held since. -/
theorem Chained.origin {R : σ → Prop} (h : Chained s fs t) (hs : ¬R s) {j : ℕ} {f : Event ℓ σ}
    (hf : fs[j]? = some f) (hR : R f.before) :
    ∃ i e, i < j ∧ fs[i]? = some e ∧ ¬R e.before ∧ R e.after ∧
      ∀ k g, i < k → k ≤ j → fs[k]? = some g → R g.before := by
  induction j generalizing f with
  | zero => exact absurd (h.first hf ▸ hR) hs
  | succ j ih =>
    obtain ⟨e, he⟩ := getElem?_earlier (Nat.le_succ j) hf
    have hafter : R e.after := h.next he hf ▸ hR
    have hlast {k : ℕ} {g : Event ℓ σ} (hk : k = j + 1) (hg : fs[k]? = some g) : R g.before := by
      subst hk
      obtain rfl := Option.some.inj (hf.symm.trans hg)
      exact hR
    by_cases hbefore : R e.before
    · obtain ⟨i, x, hi, hx, hnot, hbrings, hsince⟩ := ih he hbefore
      refine ⟨i, x, by omega, hx, hnot, hbrings, fun k g hik hkj hg ↦ ?_⟩
      rcases Nat.lt_or_ge j k with hlt | hle
      · exact hlast (by omega) hg
      · exact hsince k g hik hle hg
    · exact ⟨j, e, by omega, he, hbefore, hafter, fun k g hjk hkj hg ↦ hlast (by omega) hg⟩

/-- A preorder that every step respects relates an event to the later ones. -/
theorem Chained.rel_later {R : σ → σ → Prop} (hrefl : ∀ s, R s s)
    (htrans : ∀ s t u, R s t → R t u → R s u) (h : Chained s fs t)
    (hes : ∀ e ∈ fs, R e.before e.after) {i j : ℕ} {e f : Event ℓ σ} (hij : i ≤ j)
    (he : fs[i]? = some e) (hf : fs[j]? = some f) : R e.before f.before := by
  induction j, hij using Nat.le_induction generalizing f with
  | base =>
    obtain rfl := Option.some.inj (he.symm.trans hf)
    exact hrefl _
  | succ j hij ih =>
    obtain ⟨g, hg⟩ := getElem?_earlier (Nat.le_succ j) hf
    rw [h.next hg hf]
    exact htrans _ _ _ (ih hg) (hes g (List.mem_of_getElem? hg))

/-- The same of what the earlier event leaves. -/
theorem Chained.rel_after {R : σ → σ → Prop} (hrefl : ∀ s, R s s)
    (htrans : ∀ s t u, R s t → R t u → R s u) (h : Chained s fs t)
    (hes : ∀ e ∈ fs, R e.before e.after) {i j : ℕ} {e f : Event ℓ σ} (hij : i < j)
    (he : fs[i]? = some e) (hf : fs[j]? = some f) : R e.after f.before := by
  obtain ⟨g, hg⟩ := getElem?_earlier hij hf
  rw [← h.next he hg]
  exact h.rel_later hrefl htrans hes hij hg hf

/-- What every step adds to a list of the state, the run adds in its order. -/
theorem Chained.gathered {δ : Type} {f : σ → List δ} {g : Event ℓ σ → Option δ} (h : Chained s fs t)
    (hes : ∀ e ∈ fs, f e.after = f e.before ++ (g e).toList) : f t = f s ++ fs.filterMap g := by
  induction fs generalizing s with
  | nil =>
    obtain rfl : s = t := h
    simp
  | cons e fs ih =>
    have hhere := hes e List.mem_cons_self
    rw [h.1] at hhere
    rw [ih h.2 fun x hx ↦ hes x (List.mem_cons_of_mem _ hx), hhere]
    cases hg : g e <;> simp [hg]

variable [Store ℓ σ] {Req : Proc ℓ σ ε Unit → Prop} {cs : List (Call ℓ σ ε)}
  {es : List (ℕ × Event ℓ σ)}

theorem forall_mem_concat {δ : Type} {P : δ → Prop} {xs : List δ} {x : δ} (hxs : ∀ y ∈ xs, P y) (hx : P x) :
    ∀ y ∈ xs ++ [x], P y :=
  List.forall_mem_append.mpr ⟨hxs, List.forall_mem_singleton.mpr hx⟩

/-- `Heeds.of_only`, where what justifies a step speaks of the labels of those before it. -/
theorem Proc.Heeds.of_labels {α : Type} {Φ : List (Event ℓ σ) → ℓ → Prop} {P : ℓ → Prop}
    {p : Proc ℓ σ ε α} {past : List (Event ℓ σ)} (h : p.Only P)
    (hP : ∀ past l, (∀ r ∈ past, P r.label) → P l → Φ past l) (hpast : ∀ r ∈ past, P r.label) :
    p.Heeds Φ (fun _ past ↦ ∀ r ∈ past, P r.label) past :=
  of_kept h hP (fun _ _ hpast hl ↦ forall_mem_concat hpast hl) hpast

/-- Request `n` makes commit `i`, which is `e`. -/
def Makes (es : List (ℕ × Event ℓ σ)) (i n : ℕ) (e : Event ℓ σ) : Prop := es[i]? = some (n, e)

omit [Store ℓ σ] in
theorem Makes.event {i n : ℕ} {e : Event ℓ σ} (h : Makes es i n e) : (es.map (·.2))[i]? = some e := by
  unfold Makes at h
  simp [h]

omit [Store ℓ σ] in
theorem makes_of_event {i : ℕ} {e : Event ℓ σ} (h : (es.map (·.2))[i]? = some e) :
    ∃ n, Makes es i n e := by
  rw [List.getElem?_map, Option.map_eq_some_iff] at h
  obtain ⟨⟨n, f⟩, hx, rfl⟩ := h
  exact ⟨n, hx⟩

omit [Store ℓ σ] in
theorem Makes.unique {i m n : ℕ} {e f : Event ℓ σ} (h : Makes es i m e) (h' : Makes es i n f) :
    m = n ∧ e = f :=
  Prod.mk.inj (Option.some.inj (h.symm.trans h'))

omit [Store ℓ σ] in
/-- The first commit of a request that has made one. -/
theorem Makes.first {i n : ℕ} {e : Event ℓ σ} (h : Makes es i n e) :
    ∃ j f, j ≤ i ∧ Makes es j n f ∧ ∀ k g, Makes es k n g → j ≤ k := by
  classical
  have hany : ∃ j, ∃ f, Makes es j n f := ⟨i, e, h⟩
  obtain ⟨f, hf⟩ := Nat.find_spec hany
  exact ⟨Nat.find hany, f, Nat.find_le ⟨e, h⟩, hf, fun k g hg ↦ Nat.find_le ⟨g, hg⟩⟩

omit [Store ℓ σ] in
theorem Makes.take {i j n : ℕ} {e : Event ℓ σ} (hij : i < j) (h : Makes es i n e) : Makes (es.take j) i n e := by
  unfold Makes
  rw [List.getElem?_take, if_pos hij]
  exact h

omit [Store ℓ σ] in
theorem Makes.of_take {i j n : ℕ} {e : Event ℓ σ} (h : Makes (es.take j) i n e) : i < j ∧ Makes es i n e := by
  unfold Makes at h
  rw [List.getElem?_take] at h
  split_ifs at h with hij
  exact ⟨hij, h⟩

omit [Store ℓ σ] in
theorem Makes.split {i n : ℕ} {e : Event ℓ σ} (h : Makes es i n e) :
    es = es.take i ++ (n, e) :: es.drop (i + 1) := by
  obtain ⟨hlt, hget⟩ := List.getElem?_eq_some_iff.mp h
  rw [← hget, ← List.drop_eq_getElem_cons hlt, List.take_append_drop]

omit [Store ℓ σ] in
theorem makes_of_own {i n : ℕ} {e : Event ℓ σ} (h : e ∈ own n (es.take i)) : ∃ j < i, Makes es j n e := by
  obtain ⟨pre, post, heq⟩ := of_mem_own h
  have hget : (es.take i)[pre.length]? = some (n, e) := by simp [heq]
  rw [List.getElem?_take] at hget
  split_ifs at hget with hlt
  exact ⟨pre.length, hlt, hget⟩

omit [Store ℓ σ] in
/-- What a request has done, by its own places, stands in the run in the same order. -/
theorem makes_of_own_at (es : List (ℕ × Event ℓ σ)) (n i : ℕ) : ∃ φ : ℕ ↪o ℕ, ∀ j e, (own n (es.take i))[j]? = some e →
    φ j < i ∧ Makes es (φ j) n e := by
  obtain ⟨φ, hφ⟩ := List.sublist_iff_exists_orderEmbedding_getElem?_eq.mp
    (List.filter_sublist (p := fun x : ℕ × Event ℓ σ ↦ decide (x.1 = n)) (l := es.take i))
  refine ⟨φ, fun j e he ↦ ?_⟩
  obtain ⟨⟨m, f⟩, hx, rfl⟩ := Option.map_eq_some_iff.mp ((List.getElem?_map ..).symm.trans he)
  have hm : m = n := by
    have := (List.mem_filter.mp (List.mem_of_getElem? hx)).2
    simpa using this
  subst hm
  rw [hφ j, List.getElem?_take] at hx
  split_ifs at hx with hlt
  exact ⟨hlt, hx⟩

omit [Store ℓ σ] in
theorem mem_own_of_makes {i j n : ℕ} {e : Event ℓ σ} (hij : i < j) (h : Makes es i n e) :
    e ∈ own n (es.take j) := by
  have hget : (es.take j)[i]? = some (n, e) := by
    rw [List.getElem?_take, if_pos hij]
    exact h
  exact List.mem_map.mpr ⟨(n, e), List.mem_filter.mpr ⟨List.mem_of_getElem? hget, by simp⟩, rfl⟩

omit [Store ℓ σ] in
theorem own_split {n : ℕ} {past rest : List (Event ℓ σ)} {e : Event ℓ σ}
    (h : own n es = past ++ e :: rest) : ∃ pre post, es = pre ++ (n, e) :: post ∧ own n post = rest := by
  obtain ⟨xs, ys, hfilter, -, hys⟩ := List.map_eq_append_iff.mp h
  obtain ⟨x, zs, rfl, rfl, hzs⟩ := List.map_eq_cons_iff.mp hys
  obtain ⟨es₁, es₂, rfl, -, hes₂⟩ := List.filter_eq_append_iff.mp hfilter
  obtain ⟨pre, post, rfl, -, hx, hpost⟩ := List.filter_eq_cons_iff.mp hes₂
  obtain rfl : x.1 = n := by simpa using hx
  exact ⟨es₁ ++ pre, post, by simp, by rw [own, hpost, hzs]⟩

omit [Store ℓ σ] in
/-- What a request has done before in some order, it has done in that order. -/
theorem makes_of_own_split {n i : ℕ} {past mid rest : List (Event ℓ σ)}
    {e f : Event ℓ σ} (h : own n (es.take i) = past ++ e :: (mid ++ f :: rest)) :
    ∃ j k, j < k ∧ k < i ∧ Makes es j n e ∧ Makes es k n f := by
  obtain ⟨pre, post, htake, hown⟩ := own_split h
  obtain ⟨pre', post', rfl, -⟩ := own_split hown
  have hlen : (es.take i).length ≤ i := List.length_take_le i es
  rw [htake] at hlen
  have hget {j : ℕ} {x : ℕ × Event ℓ σ} (hx : (es.take i)[j]? = some x) : es[j]? = some x := by
    rw [List.getElem?_take] at hx
    split_ifs at hx
    exact hx
  refine ⟨pre.length, pre.length + 1 + pre'.length, by omega, ?_, hget ?_, hget ?_⟩
  · simp at hlen
    omega
  · simp [htake]
  · rw [htake, List.getElem?_append_right (by omega)]
    have : pre.length + 1 + pre'.length - pre.length = pre'.length + 1 := by omega
    simp [this]
omit [Store ℓ σ] in
theorem makes_snoc {x : ℕ × Event ℓ σ} {i n : ℕ} {e : Event ℓ σ} :
    Makes (es ++ [x]) i n e ↔ Makes es i n e ∨ i = es.length ∧ x = (n, e) := by
  unfold Makes
  rcases Nat.lt_trichotomy i es.length with hlt | rfl | hgt
  · rw [List.getElem?_append_left hlt]
    simp [Nat.ne_of_lt hlt]
  · rw [List.getElem?_concat_length]
    simp
  · rw [List.getElem?_eq_none (by simp; omega), List.getElem?_eq_none (by omega)]
    simp
    omega

omit [Store ℓ σ] in
theorem Makes.lt {i n : ℕ} {e : Event ℓ σ} (h : Makes es i n e) : i < es.length :=
  (List.getElem?_eq_some_iff.mp h).1

/-- What a request heeds, at the commits by their place in the run. -/
theorem Calls.heeds_at {Φ : Proc ℓ σ ε Unit → List (Event ℓ σ) → ℓ → Prop}
    (hreq : ∀ p, Req p → p.Heeds (Φ p) (fun _ _ ↦ True) []) (h : Calls Req s cs t es) {i n : ℕ}
    {e : Event ℓ σ} (he : Makes es i n e) :
    ∃ c, cs[n]? = some c ∧ Φ c.asked (own n (es.take i)) e.label :=
  (h.heeds hreq).1 _ n e _ he.split

/-- The same where it does not matter who asks. -/
theorem Calls.heeds_own {Φ : List (Event ℓ σ) → ℓ → Prop}
    (hreq : ∀ p, Req p → p.Heeds Φ (fun _ _ ↦ True) []) (h : Calls Req s cs t es) {i n : ℕ}
    {e : Event ℓ σ} (he : Makes es i n e) : Φ (own n (es.take i)) e.label := by
  obtain ⟨c, -, hheeds⟩ := h.heeds_at (Φ := fun _ ↦ Φ) hreq he
  exact hheeds

theorem Calls.commit_at (h : Calls Req s cs t es) {i n : ℕ} {e : Event ℓ σ} (he : Makes es i n e) :
    e.after = Store.commit e.label e.before := h.committed _ (List.mem_of_getElem? he)

omit [Store ℓ σ] in
theorem makes_of_later {i : ℕ} {f : Event ℓ σ} (h : f ∈ (es.drop (i + 1)).map (·.2)) :
    ∃ j n, i < j ∧ Makes es j n f := by
  obtain ⟨⟨n, f⟩, hmem, rfl⟩ := List.mem_map.mp h
  obtain ⟨k, hk⟩ := List.getElem?_of_mem hmem
  rw [List.getElem?_drop] at hk
  exact ⟨i + 1 + k, n, by omega, hk⟩

omit [Store ℓ σ] in
theorem Makes.later {i j n : ℕ} {f : Event ℓ σ} (hij : i < j) (h : Makes es j n f) :
    f ∈ (es.drop (i + 1)).map (·.2) := by
  refine List.mem_map.mpr ⟨(n, f), List.mem_of_getElem? (i := j - (i + 1)) ?_, rfl⟩
  rw [List.getElem?_drop, show i + 1 + (j - (i + 1)) = j by omega]
  exact h

/-- What holds at first, and every commit keeps, holds throughout. -/
theorem Calls.kept {I : σ → Prop} (h : Calls Req s cs t es) (hI : I s)
    (hkeep : ∀ j m f, Makes es j m f → I f.before → I f.after) :
    I t ∧ ∀ j m f, Makes es j m f → I f.before ∧ I f.after := by
  obtain ⟨hlast, hall⟩ := h.chained.invariant hI fun f hf ↦ by
    obtain ⟨j, hj⟩ := List.getElem?_of_mem hf
    obtain ⟨m, hf⟩ := makes_of_event hj
    exact hkeep j m f hf
  exact ⟨hlast, fun j m f hf ↦ hall f (List.mem_of_getElem? hf.event)⟩

/-- What a commit brings about, and the later ones keep, holds after it. -/
theorem Calls.kept_after {I : σ → Prop} (h : Calls Req s cs t es) {i n : ℕ} {e : Event ℓ σ}
    (he : Makes es i n e) (hI : I e.after)
    (hkeep : ∀ j m f, i < j → Makes es j m f → I f.before → I f.after) :
    I t ∧ ∀ j m f, i < j → Makes es j m f → I f.before := by
  have hchain := h.chained
  rw [he.split, List.map_append, List.map_cons] at hchain
  obtain ⟨u, -, rfl, hlater⟩ := hchain.of_append
  obtain ⟨hlast, hall⟩ := hlater.invariant hI fun f hf ↦ by
    obtain ⟨j, m, hij, hf⟩ := makes_of_later hf
    exact hkeep j m f hij hf
  exact ⟨hlast, fun j m f hij hf ↦ (hall f (hf.later hij)).1⟩

/-- The same, where what keeps it may depend on its having held all along. -/
theorem Calls.kept_since {I : σ → Prop} (h : Calls Req s cs t es) {i n : ℕ} {e : Event ℓ σ}
    (he : Makes es i n e) (hI : I e.after)
    (hkeep : ∀ j m f, i < j → Makes es j m f →
      (∀ k o g, i < k → k ≤ j → Makes es k o g → I g.before) → I f.after) :
    I t ∧ ∀ j m f, i < j → Makes es j m f → I f.before := by
  have hbefore : ∀ j m f, i < j → Makes es j m f → I f.before := by
    intro j
    induction j using Nat.strong_induction_on with
    | _ j ih =>
      intro m f hij hf
      obtain ⟨j, rfl⟩ := Nat.exists_eq_succ_of_ne_zero (Nat.ne_zero_of_lt hij)
      obtain ⟨g, hg⟩ := getElem?_earlier (Nat.le_succ j) hf.event
      obtain ⟨o, hg⟩ := makes_of_event hg
      rw [h.chained.next hg.event hf.event]
      rcases Nat.eq_or_lt_of_le (Nat.le_of_lt_succ hij) with rfl | hlt
      · obtain ⟨-, rfl⟩ := hg.unique he
        exact hI
      · refine hkeep j o g hlt hg fun k o' g' hik hkj hg' ↦ ?_
        exact ih k (Nat.lt_succ_of_le hkj) o' g' hik hg'
  refine ⟨(h.kept_after he hI fun j m f hij hf _ ↦ ?_).1, hbefore⟩
  exact hkeep j m f hij hf fun k o g hik _ hg ↦ hbefore k o g hik hg

theorem Calls.mono {Req' : Proc ℓ σ ε Unit → Prop} (hreq : ∀ p, Req p → Req' p) (h : Calls Req s cs t es) :
    Calls Req' s cs t es := by
  induction h with
  | start => exact .start
  | ask _ hp ih => exact ih.ask (hreq _ hp)
  | commit _ hn ih => exact ih.commit hn

/-- A run up to one of its commits is a run. -/
theorem Calls.before (h : Calls Req s cs t es) {i n : ℕ} {e : Event ℓ σ} (he : Makes es i n e) :
    ∃ cs', Calls Req s cs' e.before (es.take i) := by
  induction h with
  | start => simp [Makes] at he
  | ask _ _ ih => exact ih he
  | commit h hn ih =>
    rcases makes_snoc.mp he with he | ⟨rfl, heq⟩
    · rw [List.take_append_of_le_length (Nat.le_of_lt he.lt)]
      exact ih he
    · obtain ⟨-, rfl⟩ := Prod.mk.inj heq
      rw [List.take_left]
      exact ⟨_, h⟩

/-- What a commit brings about, and those up to another one keep, that one finds. -/
theorem Calls.kept_between {I : σ → Prop} (h : Calls Req s cs t es) {i j m n : ℕ} {e f : Event ℓ σ}
    (he : Makes es i m e) (hf : Makes es j n f) (hij : i < j) (hI : I e.after)
    (hkeep : ∀ k o g, i < k → k < j → Makes es k o g → I g.before → I g.after) : I f.before := by
  obtain ⟨cs', hbefore⟩ := h.before hf
  refine (hbefore.kept_after (he.take hij) hI fun k o g hik hg ↦ ?_).1
  obtain ⟨hkj, hg⟩ := hg.of_take
  exact hkeep k o g hik hkj hg

/-- What holds in every state after a commit holds in the one that it leaves. -/
theorem Calls.state_after {P : σ → Prop} (h : Calls Req s cs t es) {i n : ℕ} {e : Event ℓ σ}
    (he : Makes es i n e) (hlater : ∀ j m f, i < j → Makes es j m f → P f.before) (hlast : P t) : P e.after := by
  rcases Nat.lt_or_ge (i + 1) es.length with hlt | hge
  · obtain ⟨⟨m, f⟩, hf⟩ : ∃ x, es[i + 1]? = some x := ⟨_, List.getElem?_eq_getElem hlt⟩
    have hf : Makes es (i + 1) m f := hf
    rw [← h.chained.next he.event hf.event]
    exact hlater (i + 1) m f (Nat.lt_succ_self i) hf
  · have hchain := h.chained
    rw [he.split, List.drop_eq_nil_of_le hge, List.map_append, List.map_cons] at hchain
    obtain ⟨u, -, rfl, hnil⟩ := hchain.of_append
    exact hnil ▸ hlast

/-- Turns do not change what was asked. -/
theorem takeTurns_asked (turns : List ℕ) (cs : List (Call ℓ σ ε)) (s : σ) :
    (takeTurns turns cs s).1.map (·.asked) = cs.map (·.asked) := by
  induction turns generalizing cs s with
  | nil => rfl
  | cons n turns ih =>
    unfold takeTurns
    split
    · rename_i p l next hn
      dsimp only
      rw [ih, List.map_set]
      obtain ⟨hlt, hget⟩ := List.getElem?_eq_some_iff.mp hn
      refine List.ext_getElem? fun m ↦ ?_
      by_cases hnm : n = m
      · subst hnm
        simp [hlt, hget]
      · rw [List.getElem?_set_ne hnm]
    · exact ih cs s

end Towing.Process
