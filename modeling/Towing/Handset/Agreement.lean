import Towing.Handset.Justified

namespace Towing.Handset

open Towing.Process Towing.Presence
open Towing.Money (Failure)

variable {distanceKm haversineMeters : GeoPoint → GeoPoint → ℚ} {s s' : System}

/-- The fixes are numbered in the order in which they are taken, session by session. -/
def Taken.before (x y : Taken) : Prop := x.session < y.session ∨ x.session = y.session ∧ x.ping.seq < y.ping.seq

/-- What holds of the phone whatever it is answered. -/
structure Ordered (s : System) : Prop where
  short : s.phone.buffer.length ≤ MAX_BUFFERED
  buffered : s.phone.buffer.Sublist (s.taken.drop s.dropped)
  dropped : s.dropped ≤ s.taken.length
  inOrder : s.taken.Pairwise Taken.before
  positive : ∀ x ∈ s.taken, 0 < x.ping.seq
  upTo : ∀ x ∈ s.taken, x.session ≤ s.phone.session ∧ (x.session = s.phone.session → x.ping.seq ≤ s.phone.seq)

/-- The fix in a hash that a flush has put there has been applied. -/
def Tracked (s : System) : Prop :=
  ∀ d p session, s.server.fix d = some p → s.origin d = some session → ⟨session, p⟩ ∈ s.applied

/-- A fix of the session with no smaller number has been applied. -/
def Superseded (s : System) (x : Taken) : Prop := ∃ y ∈ s.applied, y.session = x.session ∧ x.ping.seq ≤ y.ping.seq

/-- A fix in the window is still buffered, or it has been applied or superseded. -/
def Kept (s : System) : Prop :=
  ∀ pre x post, s.taken = pre ++ x :: post → s.dropped ≤ pre.length → post.length < MAX_BUFFERED →
    x ∈ s.phone.buffer ∨ Superseded s x

/-- No step lets numbers of two sessions meet: no flush carries fixes of both, no number that
is read and no answer that clears is of the other. -/
def Step.Same (s : System) : Step → Prop
  | .startFlush => s.phone.awaiting = none → ∀ x ∈ s.phone.buffer, ∀ y ∈ s.phone.buffer, x.session = y.session
  | .server session (.currentSeq d) => (s.server.fix d).isSome = true → s.origin d = some session
  | .acknowledge flush session seq => s.phone.awaiting = some flush →
      ∀ x ∈ s.phone.buffer, x.ping.seq ≤ seq → x.session = session
  | _ => True

theorem Taken.before_irrefl (x : Taken) : ¬x.before x := by
  rintro (h | ⟨-, h⟩) <;> exact Nat.lt_irrefl _ h

theorem Ordered.nodup (h : Ordered s) : s.taken.Nodup := by
  refine h.inOrder.imp fun {x y} hxy heq ↦ ?_
  subst heq
  exact x.before_irrefl hxy

/-- Steps that leave the fixes and the buffer as they are, and set no number back. -/
theorem Ordered.of_same (h : Ordered s) (htaken : s'.taken = s.taken) (hdropped : s'.dropped = s.dropped)
    (hbuffer : s'.phone.buffer.Sublist s.phone.buffer) (hsession : s'.phone.session = s.phone.session)
    (hseq : s'.phone.seq = s.phone.seq) : Ordered s' where
  short := Nat.le_trans hbuffer.length_le h.short
  buffered := by
    rw [htaken, hdropped]
    exact hbuffer.trans h.buffered
  dropped := by
    rw [htaken, hdropped]
    exact h.dropped
  inOrder := htaken ▸ h.inOrder
  positive := htaken ▸ h.positive
  upTo := by
    rw [htaken, hsession, hseq]
    exact h.upTo

theorem ordered_run (h : Ordered s) (l : Step) : Ordered (s.run l) := by
  cases l with
  | enqueue location =>
    refine ⟨?_, ?_, ?_, ?_, ?_, ?_⟩
    · simp only [System.run, Phone.bufferPing, List.length_drop]
      have := h.short
      simp only [List.length_append, List.length_singleton]
      unfold MAX_BUFFERED at this ⊢
      omega
    · simp only [System.run, Phone.bufferPing]
      rw [List.drop_append_of_le_length h.dropped]
      exact (List.drop_sublist _ _).trans (h.buffered.append (List.Sublist.refl _))
    · simp only [System.run, List.length_append, List.length_singleton]
      have := h.dropped
      omega
    · simp only [System.run]
      refine List.pairwise_append.mpr ⟨h.inOrder, List.pairwise_singleton _ _, fun x hx y hy ↦ ?_⟩
      cases List.mem_singleton.mp hy
      obtain ⟨hsession, hseq⟩ := h.upTo x hx
      rcases Nat.lt_or_eq_of_le hsession with hlt | heq
      · exact .inl hlt
      · exact .inr ⟨heq, Nat.lt_succ_of_le (hseq heq)⟩
    · simp only [System.run]
      exact forall_mem_concat h.positive (Nat.succ_pos _)
    · intro x hx
      simp only [System.run, List.mem_append, List.mem_singleton] at hx
      simp only [System.run, Phone.bufferPing]
      rcases hx with hx | rfl
      · obtain ⟨hsession, hseq⟩ := h.upTo x hx
        exact ⟨hsession, fun heq ↦ Nat.le_succ_of_le (hseq heq)⟩
      · exact ⟨Nat.le_refl _, fun _ ↦ Nat.le_refl _⟩
  | startFlush =>
    simp only [System.run]
    cases s.phone.starts with
    | none => exact h
    | some batch => exact h.of_same rfl rfl (List.Sublist.refl _) rfl rfl
  | server session l =>
    simp only [System.run]
    cases s.applies session l with
    | none => exact h.of_same rfl rfl (List.Sublist.refl _) rfl rfl
    | some x => exact h.of_same rfl rfl (List.Sublist.refl _) rfl rfl
  | acknowledge flush session seq =>
    simp only [System.run]
    split_ifs
    · exact h.of_same rfl rfl List.filter_sublist rfl rfl
    · exact h
  | failed flush =>
    simp only [System.run]
    split_ifs
    · exact h.of_same rfl rfl (List.Sublist.refl _) rfl rfl
    · exact h
  | giveUp => exact h.of_same rfl rfl (List.Sublist.refl _) rfl rfl
  | resetSeq seq =>
    refine ⟨h.short, h.buffered, h.dropped, h.inOrder, h.positive, fun x hx ↦ ?_⟩
    have hle := (h.upTo x hx).1
    simp only [System.run]
    exact ⟨Nat.le_succ_of_le hle, fun heq ↦ by omega⟩
  | clearLocationState =>
    refine ⟨Nat.zero_le _, List.nil_sublist _, Nat.le_refl _, h.inOrder, h.positive, fun x hx ↦ ?_⟩
    have hle := (h.upTo x hx).1
    simp only [System.run]
    exact ⟨Nat.le_succ_of_le hle, fun heq ↦ by omega⟩
  | signIn driver => exact h.of_same rfl rfl (List.Sublist.refl _) rfl rfl
  | token => exact h

/-- What has been applied stays so, and so do the fixes that have been taken. -/
theorem grows_run (s : System) (l : Step) : s.applied ⊆ (s.run l).applied ∧ s.taken ⊆ (s.run l).taken := by
  cases l with
  | enqueue location =>
    simp only [System.run]
    exact ⟨List.Subset.refl _, List.subset_append_left _ _⟩
  | startFlush =>
    simp only [System.run]
    cases s.phone.starts with
    | none => exact ⟨List.Subset.refl _, List.Subset.refl _⟩
    | some batch => exact ⟨List.Subset.refl _, List.Subset.refl _⟩
  | server session l =>
    simp only [System.run]
    cases s.applies session l with
    | none => exact ⟨List.Subset.refl _, List.Subset.refl _⟩
    | some x => exact ⟨List.subset_append_left _ _, List.Subset.refl _⟩
  | acknowledge flush session seq =>
    simp only [System.run]
    split_ifs <;> exact ⟨List.Subset.refl _, List.Subset.refl _⟩
  | failed flush =>
    simp only [System.run]
    split_ifs <;> exact ⟨List.Subset.refl _, List.Subset.refl _⟩
  | _ => exact ⟨List.Subset.refl _, List.Subset.refl _⟩

theorem applies_iff {session d : ℕ} {l : Presence.Step} {x : Taken} : s.applies session l = some (d, x) ↔
    x.session = session ∧ l = .applyPing d x.ping ∧ s.server.takes d x.ping = true := by
  cases l with
  | applyPing d' p =>
    simp only [System.applies]
    constructor
    · intro h
      split_ifs at h with htakes
      cases h
      exact ⟨rfl, rfl, htakes⟩
    · rintro ⟨hsession, hl, htakes⟩
      cases hl
      rw [if_pos htakes, ← hsession]
  | _ => simp [System.applies]

theorem tracked_run (h : Tracked s) (l : Step) : Tracked (s.run l) := by
  have hsame {s' : System} (hserver : s'.server = s.server) (horigin : s'.origin = s.origin)
      (happlied : s'.applied = s.applied) : Tracked s' := by
    intro d p session hfix horigin'
    rw [hserver] at hfix
    rw [horigin] at horigin'
    exact happlied ▸ h d p session hfix horigin'
  cases l with
  | enqueue location =>
    simp only [System.run]
    exact hsame rfl rfl rfl
  | startFlush =>
    simp only [System.run]
    cases s.phone.starts <;> exact hsame rfl rfl rfl
  | acknowledge flush session seq =>
    simp only [System.run]
    split_ifs <;> exact hsame rfl rfl rfl
  | failed flush =>
    simp only [System.run]
    split_ifs <;> exact hsame rfl rfl rfl
  | server session l =>
    intro d p session' hfix horigin
    simp only [System.run] at hfix horigin ⊢
    cases happlies : s.applies session l with
    | none =>
      simp only [happlies] at hfix horigin ⊢
      rcases fix_run hfix with ⟨rfl, htakes⟩ | ⟨hold, -⟩
      · rw [(applies_iff (x := ⟨session, p⟩)).mpr ⟨rfl, rfl, htakes⟩] at happlies
        cases happlies
      · exact h d p session' hold horigin
    | some dx =>
      obtain ⟨d', x⟩ := dx
      simp only [happlies] at hfix horigin ⊢
      obtain ⟨hx, rfl, htakes⟩ := applies_iff.mp happlies
      by_cases hd : d = d'
      · subst hd
        rw [Function.update_self] at horigin
        cases horigin
        rcases fix_run hfix with ⟨hl, -⟩ | ⟨-, hnot⟩
        · cases hl
          exact List.mem_append_right _ (List.mem_singleton.mpr (by rw [← hx]))
        · exact absurd (hnot _ rfl) (by simp [htakes])
      · rw [Function.update_of_ne hd] at horigin
        rcases fix_run hfix with ⟨hl, -⟩ | ⟨hold, -⟩
        · cases hl
          exact absurd rfl hd
        · exact List.mem_append_left _ (h d p session' hold horigin)
  | _ => exact hsame rfl rfl rfl

theorem sublist_of_cons {α : Type} {x : α} {xs pre post : List α} (h : (x :: xs).Sublist (pre ++ x :: post))
    (hx : x ∉ pre) : xs.Sublist post := by
  induction pre with
  | nil => exact List.cons_sublist_cons.mp h
  | cons y pre ih =>
    rw [List.mem_cons, not_or] at hx
    rcases List.sublist_cons_iff.mp h with h | ⟨_, heq, -⟩
    · exact ih h hx.2
    · exact absurd (List.cons.inj heq).1 hx.1

/-- The fixes behind one in the buffer are behind it where they were taken. -/
theorem Ordered.behind (h : Ordered s) {x : Taken} {pre post front back : List Taken} (htaken : s.taken = pre ++ x :: post)
    (hbuffer : s.phone.buffer = front ++ x :: back) : back.length ≤ post.length := by
  have hnodup := h.nodup
  rw [htaken] at hnodup
  have hpre : x ∉ pre := fun hx ↦ (List.nodup_append.mp hnodup).2.2 x hx x List.mem_cons_self rfl
  have hsub := h.buffered.trans (List.drop_sublist _ _)
  rw [htaken, hbuffer] at hsub
  exact (sublist_of_cons ((List.sublist_append_right _ _).trans hsub) hpre).length_le

theorem Superseded.run {x : Taken} (h : Superseded s x) (l : Step) : Superseded (s.run l) x := by
  obtain ⟨y, hy, hsession, hle⟩ := h
  exact ⟨y, (grows_run s l).1 hy, hsession, hle⟩

/-- What is cleared by an answer has to be superseded. -/
def Clears (s : System) : Step → Prop
  | .acknowledge flush _ seq => s.phone.awaiting = some flush → ∀ x ∈ s.phone.buffer, x.ping.seq ≤ seq → Superseded s x
  | _ => True

theorem kept_enqueue (h : Kept s) (ho : Ordered s) (location : LocationObject) : Kept (s.run (.enqueue location)) := by
  intro pre x post htaken hdropped hpost
  simp only [System.run] at htaken hdropped
  suffices hs : x ∈ (s.run (.enqueue location)).phone.buffer ∨ Superseded s x from hs.imp_right fun hx ↦ hx.run _
  simp only [System.run, Phone.bufferPing]
  have hbuffer (z : Taken) (front back : List Taken) (hsplit : s.phone.buffer ++ [z] = front ++ x :: back)
      (hback : back.length < MAX_BUFFERED) :
      x ∈ (s.phone.buffer ++ [z]).drop ((s.phone.buffer ++ [z]).length - MAX_BUFFERED) := by
    rw [hsplit, List.drop_append_of_le_length]
    · exact List.mem_append_right _ List.mem_cons_self
    · simp only [List.length_append, List.length_cons]
      omega
  rcases List.eq_nil_or_concat post with rfl | ⟨post, z, rfl⟩
  · obtain ⟨-, hlast⟩ := List.append_inj' htaken rfl
    have hx := (List.cons.inj hlast).1
    rw [hx]
    exact .inl (hbuffer x s.phone.buffer [] rfl (by simp [MAX_BUFFERED]))
  · rw [List.concat_eq_append, ← List.cons_append, ← List.append_assoc] at htaken
    obtain ⟨htaken, -⟩ := List.append_inj' htaken rfl
    rw [List.length_concat] at hpost
    rcases h pre x post htaken hdropped (by omega) with hx | hx
    · obtain ⟨front, back, hsplit⟩ := List.append_of_mem hx
      have hbehind := ho.behind htaken hsplit
      refine .inl (hbuffer _ front (back ++ [_]) (by rw [hsplit, List.append_assoc, List.cons_append]) ?_)
      rw [List.length_append, List.length_singleton]
      omega
    · exact .inr hx

theorem kept_run (h : Kept s) (ho : Ordered s) (l : Step) (hl : Clears s l) : Kept (s.run l) := by
  have hsame (htaken : (s.run l).taken = s.taken) (hdropped : (s.run l).dropped = s.dropped)
      (hbuffer : ∀ x ∈ s.phone.buffer, x ∈ (s.run l).phone.buffer ∨ Superseded s x) : Kept (s.run l) := by
    intro pre x post hsplit hle hpost
    rw [htaken] at hsplit
    rw [hdropped] at hle
    rcases h pre x post hsplit hle hpost with hx | hx
    · exact (hbuffer x hx).imp_right fun hx ↦ hx.run l
    · exact .inr (hx.run l)
  cases l with
  | enqueue location => exact kept_enqueue h ho location
  | startFlush =>
    simp only [System.run] at hsame ⊢
    cases hstarts : s.phone.starts with
    | none => exact h
    | some batch =>
      rw [hstarts] at hsame
      exact hsame rfl rfl fun x hx ↦ .inl hx
  | server session l =>
    simp only [System.run] at hsame ⊢
    cases happlies : s.applies session l with
    | none =>
      rw [happlies] at hsame
      exact hsame rfl rfl fun x hx ↦ .inl hx
    | some x =>
      rw [happlies] at hsame
      exact hsame rfl rfl fun x hx ↦ .inl hx
  | acknowledge flush session seq =>
    simp only [System.run] at hsame ⊢
    split_ifs with hawaiting
    · rw [if_pos hawaiting] at hsame
      refine hsame rfl rfl fun x hx ↦ ?_
      rcases Nat.lt_or_ge seq x.ping.seq with hlt | hge
      · exact .inl (List.mem_filter.mpr ⟨hx, decide_eq_true hlt⟩)
      · exact .inr (hl hawaiting x hx hge)
    · exact h
  | failed flush =>
    simp only [System.run] at hsame ⊢
    split_ifs with hawaiting
    · rw [if_pos hawaiting] at hsame
      exact hsame rfl rfl fun x hx ↦ .inl hx
    · exact h
  | clearLocationState =>
    intro pre x post hsplit hle hpost
    simp only [System.run] at hsplit hle
    rw [hsplit, List.length_append, List.length_cons] at hle
    omega
  | giveUp => exact hsame rfl rfl fun x hx ↦ .inl hx
  | resetSeq seq => exact hsame rfl rfl fun x hx ↦ .inl hx
  | signIn driver => exact hsame rfl rfl fun x hx ↦ .inl hx
  | token => exact h

end Towing.Handset
