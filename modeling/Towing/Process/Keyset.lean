import Mathlib.Data.List.Sort
import Mathlib.Data.List.TakeDrop

namespace Towing.Process.Keyset

variable {α γ : Type}

/-- What a cursor is for: `below c` are the rows after it, in an order that `cursorOf` reads off a row. -/
structure Order (α γ : Type) where
  before : α → α → Prop
  below : γ → α → Prop
  cursorOf : α → γ
  trans : ∀ {a b c}, before a b → before b c → before a c
  irrefl : ∀ a, ¬before a a
  /-- A row below the cursor of another comes after it. -/
  after : ∀ {a b}, below (cursorOf a) b → before a b
  /-- What comes after a row below the cursor is below it. -/
  closed : ∀ {c a b}, below c a → before a b → below c b
  decidable : ∀ c, DecidablePred (below c)

variable (o : Order α γ)

instance (c : γ) : DecidablePred (o.below c) := o.decidable c

/-- The rows from a cursor on, or all of them. -/
def rest (rows : List α) : Option γ → List α
  | none => rows
  | some c => rows.filter fun r ↦ o.below c r

/-- One page: one row more than it holds is looked at to see whether there is a next one. -/
def page (rows : List α) (limit : ℕ) (cursor : Option γ) : List α × Option γ :=
  let fetched := (rest o rows cursor).take (limit + 1)
  let items := fetched.take limit
  (items, if fetched.length > limit then items.getLast?.map o.cursorOf else none)

/-- Following the cursors from one on to the last page. -/
inductive Walk (fetch : Option γ → List α × Option γ) : Option γ → List α → Prop
  | last {c : Option γ} : (fetch c).2 = none → Walk fetch c (fetch c).1
  | next {c : Option γ} {c' : γ} {items : List α} : (fetch c).2 = some c' → Walk fetch (some c') items →
      Walk fetch c ((fetch c).1 ++ items)

theorem Walk.unique {fetch : Option γ → List α × Option γ} {c : Option γ} {xs ys : List α}
    (hx : Walk fetch c xs) (hy : Walk fetch c ys) : xs = ys := by
  induction hx generalizing ys with
  | last hc =>
    cases hy with
    | last _ => rfl
    | next hc' _ => exact absurd (hc.symm.trans hc') (by simp)
  | @next c c' items hc _ ih =>
    cases hy with
    | last hc' => exact absurd (hc'.symm.trans hc) (by simp)
    | next hc' hrest =>
      rw [hc, Option.some_inj] at hc'
      subst hc'
      rw [ih hrest]

/-- At the end of each page, the row that follows is below the cursor of the last one. -/
def Clean (limit : ℕ) (rows : List α) : Prop :=
  ∀ k last next, rows[k * limit + (limit - 1)]? = some last → rows[(k + 1) * limit]? = some next →
    o.below (o.cursorOf last) next

variable {o} {rows : List α} {limit : ℕ} {c : Option γ}

theorem page_items : (page o rows limit c).1 = (rest o rows c).take limit := by
  simp only [page, List.take_take, Nat.min_eq_left (Nat.le_succ limit)]

theorem page_end (h : (rest o rows c).length ≤ limit) : (page o rows limit c).2 = none := by
  simp only [page]
  rw [if_neg]
  rw [List.length_take]
  omega

theorem page_more (hlimit : 0 < limit) (h : limit < (rest o rows c).length) :
    ∃ last, (rest o rows c)[limit - 1]? = some last ∧ (page o rows limit c).2 = some (o.cursorOf last) := by
  refine ⟨(rest o rows c)[limit - 1], List.getElem?_eq_getElem (by omega), ?_⟩
  have hlast : ((rest o rows c).take limit).getLast? = some (rest o rows c)[limit - 1] := by
    rw [List.getLast?_take, if_neg (by omega), List.getElem?_eq_getElem (by omega), Option.some_or]
  simp only [page, List.take_take, Nat.min_eq_left (Nat.le_succ limit)]
  rw [if_pos (by rw [List.length_take]; omega), hlast]
  rfl

theorem rest_pairwise (hrows : rows.Pairwise o.before) : (rest o rows c).Pairwise o.before := by
  cases c with
  | none => exact hrows
  | some c => exact hrows.filter _

/-- Below the cursor of a row there are only rows from behind it. -/
theorem rest_next (hrows : rows.Pairwise o.before) (hlimit : 0 < limit) {last : α}
    (hlast : (rest o rows c)[limit - 1]? = some last) :
    rest o rows (some (o.cursorOf last)) =
      ((rest o rows c).drop limit).filter fun r ↦ o.below (o.cursorOf last) r := by
  have hpair := rest_pairwise (c := c) hrows
  have hsame : rest o rows (some (o.cursorOf last)) =
      (rest o rows c).filter fun r ↦ o.below (o.cursorOf last) r := by
    cases c with
    | none => rfl
    | some c =>
      simp only [rest, List.filter_filter] at hlast ⊢
      apply List.filter_congr
      intro r _
      have hmem := List.mem_of_getElem? hlast
      have hlast := of_decide_eq_true (List.mem_filter.mp hmem).2
      by_cases hbelow : o.below (o.cursorOf last) r
      · simp [hbelow, o.closed hlast (o.after hbelow)]
      · simp [hbelow]
  have hnone : ((rest o rows c).take limit).filter (fun r ↦ o.below (o.cursorOf last) r) = [] := by
    rw [List.filter_eq_nil_iff]
    intro r hr hbelow
    have hafter := o.after (of_decide_eq_true hbelow)
    obtain ⟨i, hi, rfl⟩ := List.getElem_of_mem hr
    obtain ⟨hlt, hget⟩ := List.getElem?_eq_some_iff.mp hlast
    rw [List.length_take] at hi
    rw [List.getElem_take, ← hget] at hafter
    rcases Nat.lt_or_ge i (limit - 1) with hlt' | hge
    · exact o.irrefl _ (o.trans hafter (List.pairwise_iff_getElem.mp hpair i (limit - 1) _ hlt hlt'))
    · obtain rfl : i = limit - 1 := by omega
      exact o.irrefl _ hafter
  rw [hsame]
  conv_lhs => rw [← List.take_append_drop limit (rest o rows c), List.filter_append, hnone, List.nil_append]

theorem clean_of_short {rows : List α} (h : rows.length ≤ limit) : Clean o limit rows := by
  intro k last next _ hnext
  obtain ⟨hlt, -⟩ := List.getElem?_eq_some_iff.mp hnext
  rw [Nat.succ_mul] at hlt
  omega

/-- The condition at the first page, and that of the pages behind it. -/
theorem clean_drop {rows : List α} {last : α} (hlast : rows[limit - 1]? = some last) :
    Clean o limit rows ↔
      (∀ next, rows[limit]? = some next → o.below (o.cursorOf last) next) ∧ Clean o limit (rows.drop limit) := by
  constructor
  · intro h
    refine ⟨fun next hnext ↦ h 0 last next (by simpa using hlast) (by simpa using hnext), ?_⟩
    intro k last' next hlast' hnext
    rw [List.getElem?_drop] at hlast' hnext
    refine h (k + 1) last' next ?_ ?_
    · rw [← hlast', Nat.succ_mul]
      congr 1
      omega
    · rw [← hnext, Nat.succ_mul (k + 1)]
      congr 1
      omega
  · rintro ⟨hfirst, hrest⟩ k last' next hlast' hnext
    cases k with
    | zero =>
      rw [Nat.zero_mul, Nat.zero_add] at hlast'
      rw [hlast, Option.some_inj] at hlast'
      subst hlast'
      exact hfirst next (by simpa using hnext)
    | succ k =>
      refine hrest k last' next ?_ ?_
      · rw [List.getElem?_drop, ← hlast', Nat.succ_mul]
        congr 1
        omega
      · rw [List.getElem?_drop, ← hnext, Nat.succ_mul (k + 1)]
        congr 1
        omega

/-- Following the cursors comes to an end, and gives the rows in their order if and only if no page
ends inside what its cursor cannot tell apart. -/
theorem walk_iff (hrows : rows.Pairwise o.before) (hlimit : 0 < limit) (n : ℕ) : ∀ c : Option γ,
    (rest o rows c).length ≤ n → ∃ items, Walk (page o rows limit) c items ∧ items.length ≤ (rest o rows c).length ∧
      (items = rest o rows c ↔ Clean o limit (rest o rows c)) := by
  induction n with
  | zero =>
    intro c hn
    refine ⟨_, .last (page_end (by omega)), by rw [page_items, List.length_take]; omega, ?_⟩
    rw [page_items, List.take_of_length_le (by omega)]
    exact iff_of_true rfl (clean_of_short (by omega))
  | succ n ih =>
    intro c hn
    by_cases hmore : limit < (rest o rows c).length
    · obtain ⟨last, hlast, hcursor⟩ := page_more hlimit hmore
      have hnext := rest_next hrows hlimit hlast
      have hlen : (rest o rows (some (o.cursorOf last))).length ≤ ((rest o rows c).drop limit).length := by
        rw [hnext]
        exact List.length_filter_le _ _
      have hdrop : ((rest o rows c).drop limit).length = (rest o rows c).length - limit := List.length_drop
      obtain ⟨items, hwalk, hitems, hiff⟩ := ih (some (o.cursorOf last)) (by omega)
      refine ⟨_, .next hcursor hwalk, ?_, ?_⟩
      · rw [page_items, List.length_append, List.length_take]
        omega
      · have hcancel : (rest o rows c).take limit ++ items = rest o rows c ↔ items = (rest o rows c).drop limit := by
          constructor
          · intro h
            exact List.append_cancel_left (h.trans (List.take_append_drop limit _).symm)
          · intro h
            rw [h, List.take_append_drop]
        rw [page_items, clean_drop hlast, hcancel]
        by_cases hfirst : ∀ next, (rest o rows c)[limit]? = some next → o.below (o.cursorOf last) next
        · have hall : rest o rows (some (o.cursorOf last)) = (rest o rows c).drop limit := by
            rw [hnext, List.filter_eq_self]
            intro r hr
            apply decide_eq_true
            obtain ⟨i, hi, rfl⟩ := List.getElem_of_mem hr
            rw [List.getElem_drop]
            have hhead := hfirst _ (List.getElem?_eq_getElem hmore)
            cases i with
            | zero => exact hhead
            | succ i =>
              refine o.closed hhead (List.pairwise_iff_getElem.mp (rest_pairwise hrows) limit _ hmore _ ?_)
              omega
          rw [← hall, hiff]
          exact (and_iff_right hfirst).symm
        · refine iff_of_false (fun heq ↦ ?_) fun h ↦ hfirst h.1
          apply hfirst
          intro next hget
          -- The row after the page is among those visited only if its cursor lets it through.
          obtain ⟨hlt, rfl⟩ := List.getElem?_eq_some_iff.mp hget
          have hsub : rest o rows (some (o.cursorOf last)) = (rest o rows c).drop limit := by
            rw [hnext]
            apply List.Sublist.eq_of_length_le List.filter_sublist
            rw [← hnext, ← heq]
            exact hitems
          have hmem : (rest o rows c)[limit] ∈ rest o rows (some (o.cursorOf last)) := by
            rw [hsub, List.drop_eq_getElem_cons hlt]
            exact List.mem_cons_self
          exact of_decide_eq_true (List.mem_filter.mp hmem).2
    · refine ⟨_, .last (page_end (by omega)), by rw [page_items, List.length_take]; omega, ?_⟩
      rw [page_items, List.take_of_length_le (by omega)]
      exact iff_of_true rfl (clean_of_short (by omega))

end Towing.Process.Keyset
