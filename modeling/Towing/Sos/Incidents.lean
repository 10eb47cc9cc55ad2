import Towing.Sos.SosService

namespace Towing.Sos

open Towing.Process

namespace World

variable (w : World)

/-- The status changes of an alert that its timeline tells of. -/
def told (id : ℕ) : List SosStatus :=
  w.timeline.filterMap fun e ↦ if e.alertId = id then e.kind.tells else none

/-- The status that an alert is left in, where a step has changed it. -/
def change (id : ℕ) (w' : World) : Option SosStatus := if w'.status id = w.status id then none else w'.status id

/-- No subject has two open alerts. -/
def OneOpen : Prop :=
  ∀ (i j : ℕ) (a b : Alert), w.alerts[i]? = some a → w.alerts[j]? = some b → a.subject = b.subject → a.status.isOpen = true →
    b.status.isOpen = true → i = j

variable {w} {id id' : ℕ} {f : Alert → Alert} {event : AlertEvent} {input : Incident} {subject : SosRequester}

@[simp] theorem told_insertEvent : (w.insertEvent event).told id =
    w.told id ++ (if event.alertId = id then event.kind.tells else none).toList := by
  simp only [told, insertEvent, List.filterMap_append]
  congr 1

@[simp] theorem status_insertEvent : (w.insertEvent event).status id = w.status id := rfl

@[simp] theorem told_updateAlert : (w.updateAlert id f).told id' = w.told id' := rfl

theorem status_updateAlert : (w.updateAlert id f).status id' =
    if id' = id then (w.alerts[id]?).map fun a ↦ (f a).status else w.status id' := by
  simp only [status, updateAlert, List.getElem?_modify]
  split_ifs with h h' h'
  · subst h
    exact Option.map_map _ _ _
  · exact absurd h.symm h'
  · exact absurd h'.symm h
  · simp

theorem status_moved {s t : SosStatus} (hs : w.status id = some s) (hf : ∀ a, (f a).status = t) :
    (w.updateAlert id f).status id' = if id' = id then some t else w.status id' := by
  obtain ⟨a, ha, -⟩ := Option.map_eq_some_iff.mp hs
  rw [status_updateAlert, ha, Option.map_some, hf]

theorem status_here {s t : SosStatus} (hs : w.status id = some s) (hf : ∀ a, (f a).status = t) :
    (w.updateAlert id f).status id = some t := by
  rw [status_moved hs hf, if_pos rfl]

theorem told_opening (contacts : List Contact) :
    ((opening id input contacts).filterMap fun e ↦ if e.alertId = id' then e.kind.tells else none) =
      if id = id' then [.triggered] else [] := by
  unfold opening
  cases input.note <;> cases input.noteActor <;> dsimp only <;> split_ifs <;>
    simp_all [EventKind.tells]

theorem status_insertAlert : (w.insertAlert input).status id' =
    if id' = w.alerts.length then some .triggered else w.status id' := by
  unfold status insertAlert
  dsimp only
  rcases Nat.lt_trichotomy id' w.alerts.length with hlt | rfl | hgt
  · rw [List.getElem?_append_left hlt, if_neg (by omega)]
  · simp
  · rw [List.getElem?_eq_none (by simp; omega), if_neg (by omega), List.getElem?_eq_none (by omega)]

theorem status_length : w.status w.alerts.length = none := by simp [status]

theorem lt_of_status {s : SosStatus} (h : w.status id = some s) : id < w.alerts.length := by
  obtain ⟨a, ha, -⟩ := Option.map_eq_some_iff.mp h
  exact (List.getElem?_eq_some_iff.mp ha).1

theorem openAlert_some {a : Alert} (h : w.openAlert subject = some (id, a)) :
    w.alerts[id]? = some a ∧ a.subject = subject ∧ a.status.isOpen = true := by
  obtain ⟨x, hx, heq⟩ := Option.map_eq_some_iff.mp h
  cases heq
  have hmem := List.mem_of_find?_eq_some hx
  have hp := List.find?_some hx
  rw [Bool.and_eq_true, decide_eq_true_iff] at hp
  exact ⟨List.mem_zipIdx_iff_getElem?.mp hmem, hp⟩

theorem openAlert_none (h : w.openAlert subject = none) {a : Alert} (ha : a ∈ w.alerts) (hs : a.subject = subject) :
    a.status.isOpen = false := by
  rw [openAlert, Option.map_eq_none_iff, List.find?_eq_none] at h
  obtain ⟨i, hi⟩ := List.getElem?_of_mem ha
  have := h (a, i) (List.mem_zipIdx_iff_getElem?.mpr hi)
  simpa [hs] using this

/-- A change of a row that opens none keeps the subjects apart. -/
theorem OneOpen.update (h : w.OneOpen) (hf : ∀ a, w.alerts[id]? = some a →
    (f a).subject = a.subject ∧ ((f a).status.isOpen = true → a.status.isOpen = true)) : (w.updateAlert id f).OneOpen := by
  have hold {i : ℕ} {a : Alert} (ha : (w.updateAlert id f).alerts[i]? = some a) :
      ∃ b, w.alerts[i]? = some b ∧ a.subject = b.subject ∧ (a.status.isOpen = true → b.status.isOpen = true) := by
    simp only [updateAlert, List.getElem?_modify] at ha
    obtain ⟨b, hb, rfl⟩ := Option.map_eq_some_iff.mp ha
    refine ⟨b, hb, ?_⟩
    split_ifs with hi
    · subst hi
      exact hf b hb
    · exact ⟨rfl, fun h ↦ h⟩
  intro i j a b ha hb hab hopen hopen'
  obtain ⟨a', ha', has, hao⟩ := hold ha
  obtain ⟨b', hb', hbs, hbo⟩ := hold hb
  exact h i j a' b' ha' hb' (has ▸ hbs ▸ hab) (hao hopen) (hbo hopen')

theorem OneOpen.insert (h : w.OneOpen) (hnone : w.openAlert input.requester = none) :
    (w.insertAlert input).OneOpen := by
  have hold {i : ℕ} {a : Alert} (ha : (w.insertAlert input).alerts[i]? = some a) :
      w.alerts[i]? = some a ∨ i = w.alerts.length ∧ a.subject = input.requester := by
    simp only [insertAlert] at ha
    rcases Nat.lt_or_ge i w.alerts.length with hlt | hge
    · rw [List.getElem?_append_left hlt] at ha
      exact .inl ha
    · rw [List.getElem?_append_right hge, List.getElem?_singleton] at ha
      split_ifs at ha with hi
      cases ha
      exact .inr ⟨by omega, rfl⟩
  intro i j a b ha hb hab hopen hopen'
  rcases hold ha with ha' | ⟨hi, hai⟩
  · rcases hold hb with hb' | ⟨hj, hbj⟩
    · exact h i j a b ha' hb' hab hopen hopen'
    · rw [openAlert_none hnone (List.mem_of_getElem? ha') (hab.trans hbj)] at hopen
      cases hopen
  · rcases hold hb with hb' | ⟨hj, -⟩
    · rw [openAlert_none hnone (List.mem_of_getElem? hb') (hab ▸ hai)] at hopen'
      cases hopen'
    · omega

theorem snapshotOf_insertAlert (hid : id < w.alerts.length) : (w.insertAlert input).snapshotOf id = w.snapshotOf id := by
  simp only [snapshotOf, insertAlert, List.zipIdx_append, List.filter_append]
  have hnone : (((w.contactsOf input.requester).map fun contact ↦ (w.alerts.length, contact)).zipIdx
      (0 + w.snapshots.length)).filter (fun row ↦ row.1.1 = id) = [] := by
    refine List.filter_eq_nil_iff.mpr fun row hrow ↦ ?_
    have hmem : row.1 ∈ (w.contactsOf input.requester).map fun contact ↦ (w.alerts.length, contact) := by
      have := List.mem_map_of_mem (f := Prod.fst) hrow
      rwa [List.zipIdx_map_fst] at this
    obtain ⟨contact, -, hcontact⟩ := List.mem_map.mp hmem
    simp [← hcontact]
    omega
  rw [hnone, List.append_nil]

end World

/-- What a step is relied on for: a line added beside the transactions tells of no
change, and `resolve` expects an open alert. -/
def Step.Sound : Step → Prop
  | .insertEvent event => event.kind.tells = none
  | .resolve _ _ _ _ expected => expected.isOpen = true
  | _ => True

variable {w : World} {l : Step}

/-- An alert that is there keeps its status, or is left in a later one. -/
inductive Later : SosStatus → SosStatus → Prop
  | stays (s : SosStatus) : Later s s
  | leaves {t : SosStatus} : t ≠ .triggered → Later .triggered t
  | resolves : Later .acknowledged .resolved

theorem Later.trans {s t u : SosStatus} (h : Later s t) (h' : Later t u) : Later s u := by
  cases h with
  | stays => exact h'
  | leaves ht =>
    cases h' with
    | stays => exact .leaves ht
    | leaves hu => exact absurd rfl ht
    | resolves => exact .leaves (by simp)
  | resolves =>
    cases h' with
    | stays => exact .resolves

theorem status_later (hl : l.Sound) {id : ℕ} {s : SosStatus} (h : w.status id = some s) :
    ∃ t, (w.run l).status id = some t ∧ Later s t := by
  have hmoved {id' : ℕ} {f : Alert → Alert} {u t : SosStatus} (hu : w.status id' = some u) (hf : ∀ a, (f a).status = t)
      (hut : Later u t) : ∃ t, (w.updateAlert id' f).status id = some t ∧ Later s t := by
    rw [World.status_moved hu hf]
    split_ifs with hid
    · subst hid
      obtain rfl := Option.some.inj (h.symm.trans hu)
      exact ⟨t, rfl, hut⟩
    · exact ⟨s, h, .stays s⟩
  cases l with
  | insertAlert input =>
    simp only [World.run]
    split_ifs
    · exact ⟨s, h, .stays s⟩
    · rw [World.status_insertAlert, if_neg (Nat.ne_of_lt (World.lt_of_status h))]
      exact ⟨s, h, .stays s⟩
  | cancel id' subjectId now age =>
    simp only [World.run, World.status_insertEvent]
    split_ifs with ht
    · exact hmoved ht (fun _ ↦ rfl) (.leaves (by simp))
    · exact ⟨s, h, .stays s⟩
  | acknowledge id' admin now =>
    simp only [World.run]
    split_ifs with ht
    · exact hmoved ht (fun _ ↦ rfl) (.leaves (by simp))
    · exact ⟨s, h, .stays s⟩
  | resolve id' admin now resolution expected =>
    simp only [World.run]
    split_ifs with ht
    · refine hmoved ht (fun _ ↦ rfl) ?_
      cases expected with
      | triggered => exact .leaves (by simp)
      | acknowledged => exact .resolves
      | resolved => cases hl
      | cancelled => cases hl
    · exact ⟨s, h, .stays s⟩
  | emitTriggered id' contacts taken =>
    simp only [World.run]
    split_ifs <;> exact ⟨s, h, .stays s⟩
  | _ => exact ⟨s, h, .stays s⟩

/-- A cancellation that finds its alert triggered still. -/
def Step.InTime (w : World) : Step → Prop
  | .cancel id _ _ _ => w.status id = some .triggered
  | _ => True

/-- A step tells of the change that it makes, and of no other. -/
theorem told_run (hl : l.Sound) (htime : l.InTime w) (id : ℕ) :
    (w.run l).told id = w.told id ++ (w.change id (w.run l)).toList := by
  have hsame {w' : World} (htold : w'.told id = w.told id) (hstatus : w'.status id = w.status id) :
      w'.told id = w.told id ++ (w.change id w').toList := by
    simp [World.change, htold, hstatus]
  have hmoved {id' : ℕ} {f : Alert → Alert} {u t : SosStatus} {event : AlertEvent} (hu : w.status id' = some u)
      (hf : ∀ a, (f a).status = t) (hut : u ≠ t) (hid : event.alertId = id') (htells : event.kind.tells = some t) :
      ((w.updateAlert id' f).insertEvent event).told id =
        w.told id ++ (w.change id ((w.updateAlert id' f).insertEvent event)).toList := by
    rw [World.told_insertEvent, World.told_updateAlert, World.change, World.status_insertEvent,
      World.status_moved hu hf, hid, htells]
    by_cases h : id' = id
    · subst h
      simp [hu, Ne.symm hut]
    · simp [h, Ne.symm h]
  cases l with
  | insertAlert input =>
    simp only [World.run]
    split_ifs
    · exact hsame rfl rfl
    · have htold : (w.insertAlert input).told id = w.told id ++ if w.alerts.length = id then [.triggered] else [] := by
        simp only [World.told, World.insertAlert, List.filterMap_append, World.told_opening]
      rw [htold, World.change, World.status_insertAlert]
      by_cases h : w.alerts.length = id
      · subst h
        simp [World.status_length]
      · simp [h, Ne.symm h]
  | insertEvent event =>
    refine hsame ?_ rfl
    have htells : event.kind.tells = none := hl
    simp [World.run, htells]
  | cancel id' subjectId now age =>
    have ht : w.status id' = some .triggered := htime
    simp only [World.run, if_pos ht]
    exact hmoved ht (fun _ ↦ rfl) (by simp) rfl rfl
  | acknowledge id' admin now =>
    simp only [World.run]
    split_ifs with ht
    · exact hmoved ht (fun _ ↦ rfl) (by simp) rfl rfl
    · exact hsame rfl rfl
  | resolve id' admin now resolution expected =>
    simp only [World.run]
    split_ifs with ht
    · refine hmoved ht (fun _ ↦ rfl) ?_ rfl rfl
      intro heq
      rw [Step.Sound, heq] at hl
      cases hl
    · exact hsame rfl rfl
  | emitTriggered id' contacts taken =>
    simp only [World.run]
    split_ifs <;> exact hsame rfl rfl
  | _ => exact hsame rfl rfl

theorem oneOpen_run (hl : l.Sound) (h : w.OneOpen) : (w.run l).OneOpen := by
  have hmoved {id : ℕ} {f : Alert → Alert} {s : SosStatus} (hs : w.status id = some s) (hsubject : ∀ a, (f a).subject = a.subject)
      (hopen : ∀ a, (f a).status.isOpen = true → s.isOpen = true) : (w.updateAlert id f).OneOpen := by
    refine h.update fun a ha ↦ ⟨hsubject a, fun hf ↦ ?_⟩
    obtain rfl : a.status = s := by simpa [World.status, ha] using hs
    exact hopen a hf
  cases l with
  | insertAlert input =>
    simp only [World.run]
    split_ifs with hopen
    · exact h
    · exact h.insert (by simpa using hopen)
  | cancel id subjectId now age =>
    simp only [World.run]
    split_ifs with ht
    · exact hmoved ht (fun _ ↦ rfl) fun _ _ ↦ rfl
    · exact h
  | acknowledge id admin now =>
    simp only [World.run]
    split_ifs with ht
    · exact hmoved ht (fun _ ↦ rfl) fun _ _ ↦ rfl
    · exact h
  | resolve id admin now resolution expected =>
    simp only [World.run]
    split_ifs with ht
    · exact hmoved ht (fun _ ↦ rfl) fun _ _ ↦ hl
    · exact h
  | emitTriggered id contacts taken =>
    simp only [World.run]
    split_ifs <;> exact h
  | _ => exact h

/-- The rows of the snapshots come with their alert, and stay. -/
theorem snapshots_run (l : Step) (w : World) : (w.run l).snapshots = w.snapshots ∧ (w.run l).alerts.length = w.alerts.length ∨
    ∃ input, l = .insertAlert input ∧ w.openAlert input.requester = none ∧ w.run l = w.insertAlert input := by
  cases l with
  | insertAlert input =>
    by_cases hopen : (w.openAlert input.requester).isSome
    · simp [World.run, hopen]
    · have hnone : w.openAlert input.requester = none := by simpa using hopen
      exact .inr ⟨input, rfl, hnone, by simp [World.run, hnone]⟩
  | cancel id subjectId now age =>
    simp only [World.run]
    split_ifs <;> exact .inl ⟨rfl, by simp [World.insertEvent, World.updateAlert]⟩
  | acknowledge id admin now =>
    simp only [World.run]
    split_ifs <;> exact .inl ⟨rfl, by simp [World.insertEvent, World.updateAlert]⟩
  | resolve id admin now resolution expected =>
    simp only [World.run]
    split_ifs <;> exact .inl ⟨rfl, by simp [World.insertEvent, World.updateAlert]⟩
  | emitTriggered id contacts taken =>
    simp only [World.run]
    split_ifs <;> exact .inl ⟨rfl, rfl⟩
  | _ => exact .inl ⟨rfl, rfl⟩

theorem snapshotOf_run {id : ℕ} (hid : id < w.alerts.length) :
    id < (w.run l).alerts.length ∧ (w.run l).snapshotOf id = w.snapshotOf id := by
  rcases snapshots_run l w with ⟨hrows, hlength⟩ | ⟨input, -, -, hrun⟩
  · exact ⟨hlength ▸ hid, by rw [World.snapshotOf, hrows, World.snapshotOf]⟩
  · rw [hrun]
    refine ⟨?_, World.snapshotOf_insertAlert hid⟩
    simp only [World.insertAlert, List.length_append, List.length_singleton]
    omega

theorem messages_run (l : Step) (w : World) : (w.run l).messages = w.messages ∨
    ∃ id contacts, l = .emitTriggered id contacts true ∧ (∀ m ∈ w.messages, m.1 ≠ id) ∧
      (w.run l).messages = w.messages ++ [(id, contacts)] := by
  cases l with
  | insertAlert input =>
    simp only [World.run]
    split_ifs <;> exact .inl rfl
  | cancel id subjectId now age =>
    simp only [World.run]
    split_ifs <;> exact .inl rfl
  | acknowledge id admin now =>
    simp only [World.run]
    split_ifs <;> exact .inl rfl
  | resolve id admin now resolution expected =>
    simp only [World.run]
    split_ifs <;> exact .inl rfl
  | emitTriggered id contacts taken =>
    simp only [World.run]
    split_ifs with htaken
    · obtain ⟨rfl, hnew⟩ : taken = true ∧ ∀ m ∈ w.messages, m.1 ≠ id := by simpa using htaken
      exact .inr ⟨id, contacts, rfl, hnew, rfl⟩
    · exact .inl rfl
  | _ => exact .inl rfl

end Towing.Sos
