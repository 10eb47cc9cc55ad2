import Towing.Process.Contract
import Towing.Process.Runs
import Towing.Process.Lift
import Mathlib.Data.List.Forall2
import Mathlib.Data.List.Induction

namespace Towing.Process

variable {ℓ σ ε α β : Type} [Store ℓ σ]

/-- Every step of the request is justified by the steps it has itself committed
before, and so is the answer it ends with. -/
def Proc.Heeds (Φ : List (Event ℓ σ) → ℓ → Prop) (Q : Except ε α → List (Event ℓ σ) → Prop) :
    List (Event ℓ σ) → Proc ℓ σ ε α → Prop
  | past, .done r => Q r past
  | past, .step l next =>
    Φ past l ∧ ∀ s, Heeds Φ Q (past ++ [⟨l, s, Store.commit l s⟩]) (next s)

namespace Proc.Heeds

variable {Φ Ψ : List (Event ℓ σ) → ℓ → Prop} {past : List (Event ℓ σ)}

theorem mono {Q R : Except ε α → List (Event ℓ σ) → Prop} {p : Proc ℓ σ ε α} (h : p.Heeds Φ Q past)
    (hΦ : ∀ past l, Φ past l → Ψ past l) (hQ : ∀ r past, Q r past → R r past) : p.Heeds Ψ R past := by
  induction p generalizing past with
  | done r => exact hQ r past h
  | step l next ih => exact ⟨hΦ past l h.1, fun s ↦ ih s (h.2 s)⟩

theorem bind {Q : Except ε α → List (Event ℓ σ) → Prop} {R : Except ε β → List (Event ℓ σ) → Prop}
    {p : Proc ℓ σ ε α} {f : α → Proc ℓ σ ε β} (hp : p.Heeds Φ Q past)
    (hok : ∀ a past, Q (.ok a) past → (f a).Heeds Φ R past)
    (herror : ∀ e past, Q (.error e) past → R (.error e) past) : (p.bind f).Heeds Φ R past := by
  induction p generalizing past with
  | done r =>
    cases r with
    | ok a => exact hok a past hp
    | error e => exact herror e past hp
  | step l next ih => exact ⟨hp.1, fun s ↦ ih s (hp.2 s)⟩

theorem handle {Q R : Except ε α → List (Event ℓ σ) → Prop} {p : Proc ℓ σ ε α}
    {h : ε → Proc ℓ σ ε α} (hp : p.Heeds Φ Q past)
    (hok : ∀ a past, Q (.ok a) past → R (.ok a) past)
    (herror : ∀ e past, Q (.error e) past → (h e).Heeds Φ R past) : (p.handle h).Heeds Φ R past := by
  induction p generalizing past with
  | done r =>
    cases r with
    | ok a => exact hok a past hp
    | error e => exact herror e past hp
  | step l next ih => exact ⟨hp.1, fun s ↦ ih s (hp.2 s)⟩

theorem follow {Q : Except ε α → List (Event ℓ σ) → Prop} {R : Except ε β → List (Event ℓ σ) → Prop}
    {p : Proc ℓ σ ε α} {k : Except ε α → Proc ℓ σ ε β} (hp : p.Heeds Φ Q past)
    (hk : ∀ r past, Q r past → (k r).Heeds Φ R past) : (p.follow k).Heeds Φ R past := by
  induction p generalizing past with
  | done r => exact hk r past hp
  | step l next ih => exact ⟨hp.1, fun s ↦ ih s (hp.2 s)⟩

theorem when {Q : Except ε Unit → List (Event ℓ σ) → Prop} {c : Prop} [Decidable c]
    {p : Proc ℓ σ ε Unit} (hp : c → p.Heeds Φ Q past) (hc : ¬c → Q (.ok ()) past) :
    (Proc.when c p).Heeds Φ Q past := by
  unfold Proc.when
  split_ifs with h
  · exact hp h
  · exact hc h

/-- Steps that `R` justifies, by a request that takes no step to forget it. -/
theorem of_kept {P : ℓ → Prop} {R : List (Event ℓ σ) → Prop} {p : Proc ℓ σ ε α} (h : p.Only P)
    (hP : ∀ past l, R past → P l → Φ past l) (hR : ∀ past e, R past → P e.label → R (past ++ [e]))
    (hpast : R past) : p.Heeds Φ (fun _ ↦ R) past := by
  induction p generalizing past with
  | done r => exact hpast
  | step l next ih => exact ⟨hP past l hpast h.1, fun s ↦ ih s (h.2 s) (hR past _ hpast h.1)⟩

/-- The same, of what is never forgotten. -/
theorem of_only {P : ℓ → Prop} {R : List (Event ℓ σ) → Prop} {p : Proc ℓ σ ε α} (h : p.Only P)
    (hP : ∀ past l, R past → P l → Φ past l) (hR : ∀ past e, R past → R (past ++ [e])) (hpast : R past) :
    p.Heeds Φ (fun _ ↦ R) past := of_kept h hP (fun past e hr _ ↦ hR past e hr) hpast

/-- What a request does after such steps, it does with `R` in mind. -/
theorem kept_then {P : ℓ → Prop} {R : List (Event ℓ σ) → Prop} {p : Proc ℓ σ ε α} {f : α → Proc ℓ σ ε β}
    (h : p.Only P) (hP : ∀ past l, R past → P l → Φ past l)
    (hR : ∀ past e, R past → P e.label → R (past ++ [e])) (hpast : R past)
    (hf : ∀ a past, R past → (f a).Heeds Φ (fun _ _ ↦ True) past) :
    (p.bind f).Heeds Φ (fun _ _ ↦ True) past :=
  (of_kept h hP hR hpast).bind (fun a past hr ↦ hf a past hr) fun _ _ _ ↦ trivial

end Proc.Heeds

/-- A step of the whole store that is one of a part of it. -/
structure Event.Embeds {ℓ' σ' : Type} (inj : ℓ → ℓ') (view : σ' → σ) (e : Event ℓ σ)
    (e' : Event ℓ' σ') : Prop where
  label : e'.label = inj e.label
  before : e.before = view e'.before

/-- What justifies the steps on a part of the store justifies them on the whole. -/
theorem Proc.Heeds.lift {ℓ' σ' : Type} [Store ℓ' σ'] {inj : ℓ → ℓ'} {view : σ' → σ}
    {Φ : List (Event ℓ σ) → ℓ → Prop} {Φ' : List (Event ℓ' σ') → ℓ' → Prop}
    {Q : Except ε α → List (Event ℓ σ) → Prop} {Q' : Except ε α → List (Event ℓ' σ') → Prop}
    {p : Proc ℓ σ ε α} {past : List (Event ℓ σ)} {past' : List (Event ℓ' σ')}
    (h : p.Heeds Φ Q past) (hpast : List.Forall₂ (Event.Embeds inj view) past past')
    (hΦ : ∀ past past' l, List.Forall₂ (Event.Embeds inj view) past past' → Φ past l → Φ' past' (inj l))
    (hQ : ∀ r past past', List.Forall₂ (Event.Embeds inj view) past past' → Q r past → Q' r past') :
    (p.lift inj view : Proc ℓ' σ' ε α).Heeds Φ' Q' past' := by
  induction p generalizing past past' with
  | done r => exact hQ r past past' hpast h
  | step l next ih =>
    refine ⟨hΦ past past' l hpast h.1, fun s ↦ ih (view s) (h.2 (view s)) ?_⟩
    exact List.rel_append hpast (.cons ⟨rfl, rfl⟩ .nil)

/-- A request in flight, as it was asked and as far as it has come. -/
structure Call (ℓ σ ε : Type) where
  asked : Proc ℓ σ ε Unit
  rest : Proc ℓ σ ε Unit

/-- `Runs` in which every commit names the request that makes it, by the order in
which they came; one that has died is not heard of again. -/
inductive Calls (Req : Proc ℓ σ ε Unit → Prop) (s₀ : σ) :
    List (Call ℓ σ ε) → σ → List (ℕ × Event ℓ σ) → Prop
  | start : Calls Req s₀ [] s₀ []
  | ask {cs : List (Call ℓ σ ε)} {s : σ} {es : List (ℕ × Event ℓ σ)} {p : Proc ℓ σ ε Unit} :
      Calls Req s₀ cs s es → Req p → Calls Req s₀ (cs ++ [⟨p, p⟩]) s es
  | commit {cs : List (Call ℓ σ ε)} {s : σ} {es : List (ℕ × Event ℓ σ)} {n : ℕ}
      {p : Proc ℓ σ ε Unit} {l : ℓ} {next : σ → Proc ℓ σ ε Unit} :
      Calls Req s₀ cs s es → cs[n]? = some ⟨p, .step l next⟩ →
      Calls Req s₀ (cs.set n ⟨p, next s⟩) (Store.commit l s) (es ++ [(n, ⟨l, s, Store.commit l s⟩)])

/-- The commits of one request. -/
def own (n : ℕ) (es : List (ℕ × Event ℓ σ)) : List (Event ℓ σ) := (es.filter (·.1 = n)).map (·.2)

omit [Store ℓ σ] in
theorem own_append (n : ℕ) (es es' : List (ℕ × Event ℓ σ)) : own n (es ++ es') = own n es ++ own n es' := by
  simp [own]

omit [Store ℓ σ] in
theorem own_self (n : ℕ) (e : Event ℓ σ) : own n [(n, e)] = [e] := by simp [own]

omit [Store ℓ σ] in
theorem own_other {m n : ℕ} (h : m ≠ n) (e : Event ℓ σ) : own n [(m, e)] = [] := by simp [own, h]

omit [Store ℓ σ] in
theorem of_mem_own {n : ℕ} {es : List (ℕ × Event ℓ σ)} {e : Event ℓ σ} (h : e ∈ own n es) :
    ∃ pre post, es = pre ++ (n, e) :: post := by
  obtain ⟨⟨m, e'⟩, hm, rfl⟩ := List.mem_map.mp h
  obtain ⟨hmem, heq⟩ := List.mem_filter.mp hm
  obtain rfl : m = n := by simpa using heq
  exact List.append_of_mem hmem

theorem countP_le_one {δ : Type} {p : δ → Bool} {xs : List δ}
    (h : ∀ pre x post, xs = pre ++ x :: post → p x = true → ∀ y ∈ pre, p y = false) :
    xs.countP p ≤ 1 := by
  induction xs using List.reverseRecOn with
  | nil => simp
  | append_singleton xs x ih =>
    have hxs : xs.countP p ≤ 1 := ih fun pre y post heq ↦ h pre y (post ++ [x]) (by simp [heq])
    rw [List.countP_append, List.countP_singleton]
    split_ifs with hx
    · have hnone : xs.countP p = 0 :=
        List.countP_eq_zero.mpr fun y hy ↦ by simp [h xs x [] rfl hx y hy]
      omega
    · exact hxs

variable {Req : Proc ℓ σ ε Unit → Prop} {s₀ s : σ} {cs : List (Call ℓ σ ε)}
  {es : List (ℕ × Event ℓ σ)}

theorem Calls.chained (h : Calls Req s₀ cs s es) : Chained s₀ (es.map (·.2)) s := by
  induction h with
  | start => rfl
  | ask _ _ ih => exact ih
  | @commit cs s es n p l next _ _ ih =>
    rw [List.map_append]
    exact ih.append (show Chained s [⟨l, s, Store.commit l s⟩] (Store.commit l s) from ⟨rfl, rfl⟩)

theorem Calls.committed (h : Calls Req s₀ cs s es) :
    ∀ e ∈ es, e.2.after = Store.commit e.2.label e.2.before := by
  induction h with
  | start => simp
  | ask _ _ ih => exact ih
  | commit _ _ ih =>
    intro e he
    rcases List.mem_append.mp he with he | he
    · exact ih e he
    · cases List.mem_singleton.mp he
      rfl

/-- What a commit finds has been made by the commits before it. -/
theorem Calls.upto (h : Calls Req s₀ cs s es) {pre post : List (ℕ × Event ℓ σ)} {n : ℕ}
    {e : Event ℓ σ} (heq : es = pre ++ (n, e) :: post) : Chained s₀ (pre.map (·.2)) e.before := by
  have hchain := h.chained
  rw [heq, List.map_append, List.map_cons] at hchain
  obtain ⟨t, hpre, ht, -⟩ := hchain.of_append
  exact ht ▸ hpre

theorem Calls.unheard (h : Calls Req s₀ cs s es) : ∀ n, cs.length ≤ n → own n es = [] := by
  induction h with
  | start => intro n _; rfl
  | @ask cs s es p _ _ ih => exact fun n hn ↦ ih n (by simp at hn; omega)
  | @commit cs s es n p l next _ hcs ih =>
    intro m hm
    rw [List.length_set] at hm
    have hlt : n < cs.length := (List.getElem?_eq_some_iff.mp hcs).1
    rw [own_append, ih m hm, own_other (by omega)]
    rfl

/-- If every request heeds `Φ`, every commit of the run is justified by what its
request has committed before. -/
theorem Calls.heeds {Φ : Proc ℓ σ ε Unit → List (Event ℓ σ) → ℓ → Prop}
    (hreq : ∀ p, Req p → p.Heeds (Φ p) (fun _ _ ↦ True) []) (h : Calls Req s₀ cs s es) :
    (∀ pre n e post, es = pre ++ (n, e) :: post →
      ∃ c, cs[n]? = some c ∧ Φ c.asked (own n pre) e.label) ∧
    ∀ (n : ℕ) (c : Call ℓ σ ε), cs[n]? = some c → c.rest.Heeds (Φ c.asked) (fun _ _ ↦ True) (own n es) := by
  induction h with
  | start => simp
  | @ask cs s es p h hp ih =>
    refine ⟨fun pre n e post heq ↦ ?_, fun n c hn ↦ ?_⟩
    · obtain ⟨c, hc, hΦ⟩ := ih.1 pre n e post heq
      refine ⟨c, ?_, hΦ⟩
      rwa [List.getElem?_append_left (List.getElem?_eq_some_iff.mp hc).1]
    · rcases Nat.lt_or_ge n cs.length with hlt | hge
      · rw [List.getElem?_append_left hlt] at hn
        exact ih.2 n c hn
      · rw [List.getElem?_append_right hge, List.getElem?_singleton] at hn
        split_ifs at hn
        cases hn
        rw [h.unheard n hge]
        exact hreq p hp
  | @commit cs s es n p l next h hn ih =>
    have hhere := ih.2 n _ hn
    have hlt : n < cs.length := (List.getElem?_eq_some_iff.mp hn).1
    have hstays {m : ℕ} {c : Call ℓ σ ε} (hm : cs[m]? = some c) :
        ∃ c', (cs.set n ⟨p, next s⟩)[m]? = some c' ∧ c'.asked = c.asked := by
      by_cases hnm : n = m
      · subst hnm
        obtain rfl : ⟨p, .step l next⟩ = c := Option.some.inj (hn.symm.trans hm)
        exact ⟨⟨p, next s⟩, by simp [hlt], rfl⟩
      · exact ⟨c, by simp [List.getElem?_set_ne hnm, hm], rfl⟩
    refine ⟨fun pre m e post heq ↦ ?_, fun m c hm ↦ ?_⟩
    · rcases List.eq_nil_or_concat post with rfl | ⟨post, x, rfl⟩
      · obtain ⟨rfl, hlast⟩ := List.append_inj' heq rfl
        obtain ⟨rfl, rfl⟩ := Prod.mk.inj (List.cons.inj hlast).1
        exact ⟨⟨p, next s⟩, by simp [hlt], hhere.1⟩
      · rw [List.concat_eq_append, ← List.cons_append, ← List.append_assoc] at heq
        obtain ⟨hpre, -⟩ := List.append_inj' heq rfl
        obtain ⟨c, hc, hΦ⟩ := ih.1 pre m e post hpre
        obtain ⟨c', hc', hasked⟩ := hstays hc
        exact ⟨c', hc', hasked ▸ hΦ⟩
    · by_cases hnm : n = m
      · subst hnm
        rw [List.getElem?_set_self hlt] at hm
        cases hm
        rw [own_append, own_self]
        exact hhere.2 s
      · rw [List.getElem?_set_ne hnm] at hm
        rw [own_append, own_other hnm, List.append_nil]
        exact ih.2 m c hm

/-- What the requests of a run end with, by what they have committed. -/
theorem Calls.rest_heeds {Φ : List (Event ℓ σ) → ℓ → Prop}
    {Q : Proc ℓ σ ε Unit → Except ε Unit → List (Event ℓ σ) → Prop}
    (hreq : ∀ p, Req p → p.Heeds Φ (Q p) []) (h : Calls Req s₀ cs s es) :
    ∀ (n : ℕ) (c : Call ℓ σ ε), cs[n]? = some c → c.rest.Heeds Φ (Q c.asked) (own n es) := by
  induction h with
  | start => simp
  | @ask cs s es p h hp ih =>
    intro n c hn
    rcases Nat.lt_or_ge n cs.length with hlt | hge
    · rw [List.getElem?_append_left hlt] at hn
      exact ih n c hn
    · rw [List.getElem?_append_right hge, List.getElem?_singleton] at hn
      split_ifs at hn
      cases hn
      rw [h.unheard n hge]
      exact hreq p hp
  | @commit cs s es n p l next h hn ih =>
    intro m c hm
    by_cases hnm : n = m
    · subst hnm
      rw [List.getElem?_set_self (List.getElem?_eq_some_iff.mp hn).1] at hm
      cases hm
      rw [own_append, own_self]
      exact (ih n _ hn).2 s
    · rw [List.getElem?_set_ne hnm] at hm
      rw [own_append, own_other hnm, List.append_nil]
      exact ih m c hm

theorem Calls.runs (h : Calls Req s₀ cs s es) :
    Runs Req s₀ (cs.map (·.rest)) s (es.map (·.2)) := by
  induction h with
  | start => exact .start
  | ask _ hp ih =>
    rw [List.map_append]
    exact ih.issue hp
  | @commit cs s es n p l next _ hn ih =>
    obtain ⟨hlt, hget⟩ := List.getElem?_eq_some_iff.mp hn
    have hsplit : cs.map (·.rest) =
        (cs.take n).map (·.rest) ++ .step l next :: (cs.drop (n + 1)).map (·.rest) := by
      conv_lhs => rw [← List.take_append_drop n cs, List.drop_eq_getElem_cons hlt, hget]
      simp
    rw [hsplit] at ih
    have hnext := ih.commit
    rw [List.map_append, List.set_eq_take_append_cons_drop, if_pos hlt]
    simpa using hnext

/-- The requests in flight after each of `turns` has committed one step, if it has
one left. -/
def takeTurns : List ℕ → List (Call ℓ σ ε) → σ → List (Call ℓ σ ε) × σ × List (ℕ × Event ℓ σ)
  | [], cs, s => (cs, s, [])
  | n :: turns, cs, s =>
    match cs[n]? with
    | some ⟨p, .step l next⟩ =>
      let rest := takeTurns turns (cs.set n ⟨p, next s⟩) (Store.commit l s)
      (rest.1, rest.2.1, (n, ⟨l, s, Store.commit l s⟩) :: rest.2.2)
    | _ => takeTurns turns cs s

theorem Calls.takeTurns (turns : List ℕ) (h : Calls Req s₀ cs s es) :
    Calls Req s₀ (takeTurns turns cs s).1 (takeTurns turns cs s).2.1
      (es ++ (takeTurns turns cs s).2.2) := by
  induction turns generalizing cs s es with
  | nil => simpa [Process.takeTurns] using h
  | cons n turns ih =>
    unfold Process.takeTurns
    split
    · rename_i p l next hn
      simpa using ih (h.commit hn)
    · exact ih h

theorem Calls.askAll {ps : List (Proc ℓ σ ε Unit)} (h : Calls Req s₀ cs s es)
    (hps : ∀ p ∈ ps, Req p) : Calls Req s₀ (cs ++ ps.map fun p ↦ ⟨p, p⟩) s es := by
  induction ps generalizing cs with
  | nil => simpa using h
  | cons p ps ih =>
    have := ih (h.ask (hps p List.mem_cons_self)) fun q hq ↦ hps q (List.mem_cons_of_mem _ hq)
    simpa using this

end Towing.Process
