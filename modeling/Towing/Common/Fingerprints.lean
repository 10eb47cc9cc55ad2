import Towing.Common.Idempotency
import Mathlib.Data.List.TakeDrop

namespace Towing.Common

variable {η : Type} {keep : String → Bool}

section Sorting

variable {α : Type} {r : α → α → Prop} [DecidableRel r]

theorem filter_orderedInsert (p : α → Bool) (hr : ∀ a b c, r a b → r b c → r a c) (a : α) {l : List α}
    (hl : l.Pairwise r) :
    (l.orderedInsert r a).filter p = if p a then (l.filter p).orderedInsert r a else l.filter p := by
  induction l with
  | nil => cases h : p a <;> simp [h]
  | cons b l ih =>
    obtain ⟨hb, hl⟩ := List.pairwise_cons.mp hl
    by_cases hab : r a b
    · rw [List.orderedInsert_cons_of_le r l hab]
      have hall : ∀ c ∈ (b :: l).filter p, r a c := by
        intro c hc
        rcases List.mem_cons.mp (List.mem_of_mem_filter hc) with rfl | hc
        · exact hab
        · exact hr a b c hab (hb c hc)
      cases hpa : p a with
      | false => simp [hpa]
      | true =>
        rw [List.filter_cons_of_pos hpa]
        cases hfilter : (b :: l).filter p with
        | nil => simp
        | cons c cs =>
          rw [if_pos rfl, List.orderedInsert_cons_of_le r cs (hall c (by rw [hfilter]; exact List.mem_cons_self))]
    · rw [List.orderedInsert_of_not_le r l hab]
      cases hpb : p b with
      | false => rw [List.filter_cons_of_neg (by simp [hpb]), List.filter_cons_of_neg (by simp [hpb]), ih hl]
      | true =>
        rw [List.filter_cons_of_pos hpb, List.filter_cons_of_pos hpb, ih hl]
        cases hpa : p a with
        | false => simp
        | true => simp [List.orderedInsert_of_not_le r _ hab]

/-- What is left of a sorted list is the sorted list of what is left. -/
theorem filter_insertionSort (p : α → Bool) (hr : ∀ a b c, r a b → r b c → r a c)
    (htotal : ∀ a b, r a b ∨ r b a) (l : List α) :
    (l.insertionSort r).filter p = (l.filter p).insertionSort r := by
  have : Std.Total r := ⟨htotal⟩
  have : IsTrans α r := ⟨hr⟩
  induction l with
  | nil => rfl
  | cons a l ih =>
    rw [List.insertionSort_cons, filter_orderedInsert p hr a (List.pairwise_insertionSort r l), ih]
    cases hpa : p a <;> simp [hpa]

end Sorting

theorem Member.ordered_key (m : Member) : (m.ordered keep).key = m.key := by
  cases m
  rfl

theorem orderedMembers_eq (members : List Member) :
    orderedMembers keep members = (members.filter (keep ·.key)).map (Member.ordered keep) := by
  induction members with
  | nil => rfl
  | cons m members ih =>
    unfold orderedMembers
    split_ifs with hm <;> simp [hm, ih]

/-- Members in order, by their keys. -/
abbrev inOrderOfKeys (m n : Member) : Prop := m.key ≤ n.key

theorem map_insertionSort_of_key {f : Member → Member} (hf : ∀ m, (f m).key = m.key) (members : List Member) :
    (members.insertionSort inOrderOfKeys).map f = (members.map f).insertionSort inOrderOfKeys :=
  List.map_insertionSort inOrderOfKeys inOrderOfKeys f members fun m _ n _ ↦ by
    unfold inOrderOfKeys
    rw [hf, hf]

theorem orderedMembers_insertionSort (members : List Member) :
    orderedMembers keep (members.insertionSort inOrderOfKeys) =
      (orderedMembers keep members).insertionSort inOrderOfKeys := by
  rw [orderedMembers_eq, orderedMembers_eq,
    filter_insertionSort (r := inOrderOfKeys) _ (fun a b c ↦ String.le_trans) fun a b ↦ String.le_total a.key b.key,
    map_insertionSort_of_key Member.ordered_key]

/-- Ordering the members first makes no difference. -/
theorem Json.ordered_ordered (value : Json) : (value.ordered fun _ ↦ true).ordered keep = value.ordered keep := by
  refine @Json.rec (fun value ↦ (value.ordered fun _ ↦ true).ordered keep = value.ordered keep)
    (fun m ↦ (m.ordered fun _ ↦ true).ordered keep = m.ordered keep)
    (fun items ↦ orderedItems keep (orderedItems (fun _ ↦ true) items) = orderedItems keep items)
    (fun members ↦ orderedMembers keep (orderedMembers (fun _ ↦ true) members) = orderedMembers keep members)
    rfl (fun _ ↦ rfl) (fun _ ↦ rfl) (fun _ ↦ rfl) (fun _ ↦ rfl) ?_ ?_ ?_ rfl ?_ rfl ?_ value
  · intro items ih
    exact congrArg Json.array ih
  · intro members ih
    refine congrArg Json.object ?_
    have htotal : Std.Total inOrderOfKeys := ⟨fun a b ↦ String.le_total a.key b.key⟩
    have htrans : IsTrans Member inOrderOfKeys := ⟨fun a b c ↦ String.le_trans⟩
    calc (orderedMembers keep ((orderedMembers (fun _ ↦ true) members).insertionSort inOrderOfKeys)).insertionSort
          inOrderOfKeys
        = ((orderedMembers keep members).insertionSort inOrderOfKeys).insertionSort inOrderOfKeys := by
          rw [orderedMembers_insertionSort, ih]
      _ = (orderedMembers keep members).insertionSort inOrderOfKeys :=
          (List.pairwise_insertionSort inOrderOfKeys _).insertionSort_eq
  · intro key value ih
    exact congrArg (Member.mk key) ih
  · intro item items ihitem ih
    simp only [orderedItems, ihitem, ih]
  · intro m members ihm ih
    simp only [orderedMembers, if_true, Member.ordered_key, ihm, ih]

theorem canonicalize_of_same {value value' : Json} (h : value.Same value') : canonicalize value = canonicalize value' := by
  unfold canonicalize
  rw [← Json.ordered_ordered value, ← Json.ordered_ordered value', h]

theorem onRequest_of_same {body body' : Body} (h : body.Same body') :
    canonicalize body.onRequest = canonicalize body'.onRequest := by
  cases body with
  | parsed value =>
    cases body' with
    | parsed value' => exact canonicalize_of_same h
    | unparsed bytes => exact h.elim
  | unparsed bytes =>
    cases body' with
    | parsed value' => exact h.elim
    | unparsed bytes' => rfl

/-- What is the same in content is written alike. -/
theorem text_of_same {req req' : HttpRequest} (h : req.Same req') : req.text = req'.text := by
  obtain ⟨hquery, hbody⟩ := h
  unfold HttpRequest.text
  rw [canonicalize_of_same hquery, onRequest_of_same hbody]

/-- What stands before the first colon, and what after it. -/
theorem split_at_colon {xs ys xs' ys' : List Char} (hxs : ':' ∉ xs) (hxs' : ':' ∉ xs')
    (h : xs ++ ':' :: ys = xs' ++ ':' :: ys') : xs = xs' ∧ ys = ys' := by
  induction xs generalizing xs' with
  | nil =>
    cases xs' with
    | nil => exact ⟨rfl, List.tail_eq_of_cons_eq h⟩
    | cons c cs => exact absurd ((List.cons.inj h).1 ▸ List.mem_cons_self) hxs'
  | cons c cs ih =>
    cases xs' with
    | nil => exact absurd ((List.cons.inj h).1 ▸ List.mem_cons_self) hxs
    | cons c' cs' =>
      obtain ⟨rfl, htail⟩ := List.cons.inj h
      obtain ⟨rfl, hys⟩ := ih (List.not_mem_of_not_mem_cons hxs) (List.not_mem_of_not_mem_cons hxs') htail
      exact ⟨rfl, hys⟩

/-- The same at the last colon. -/
theorem split_at_last_colon {xs ys xs' ys' : List Char} (hys : ':' ∉ ys) (hys' : ':' ∉ ys')
    (h : xs ++ ':' :: ys = xs' ++ ':' :: ys') : xs = xs' ∧ ys = ys' := by
  have hrev : ys.reverse ++ ':' :: xs.reverse = ys'.reverse ++ ':' :: xs'.reverse := by
    have := congrArg List.reverse h
    simpa using this
  obtain ⟨hleft, hright⟩ := split_at_colon (by simpa using hys) (by simpa using hys') hrev
  exact ⟨List.reverse_inj.mp hright, List.reverse_inj.mp hleft⟩

theorem Method.name_colon (m : Method) : ':' ∉ m.name.toList := by
  cases m <;> decide +kernel

theorem Method.name_inj {m m' : Method} (h : m.name = m'.name) : m = m' := by
  cases m <;> cases m' <;> first | rfl | exact absurd h (by decide +kernel)

variable {shaKey : String → String} {shaBody : Json × Json → η} {Asks : HttpRequest → Prop}

theorem slot_eq_some {req : HttpRequest} {key : List Char} (h : req.slot shaKey = some key) :
    ∃ clientKey, req.clientKey = some clientKey ∧ req.method.mutating = true ∧ buildKey shaKey req clientKey = key := by
  unfold HttpRequest.slot at h
  cases hkey : req.clientKey with
  | none => simp [hkey] at h
  | some clientKey =>
    rw [hkey] at h
    dsimp only at h
    split_ifs at h with hmutating
    exact ⟨clientKey, rfl, hmutating, Option.some.inj h⟩

/-- Requests share a slot only where their tenant, method, path and key are the same. -/
theorem slot_inj {req req' : HttpRequest} {key : List Char} (hdigests : Digests shaKey shaBody Asks)
    (hreq : Asks req) (hreq' : Asks req') (htenant : ':' ∉ req.tenant.toList) (htenant' : ':' ∉ req'.tenant.toList)
    (h : req.slot shaKey = some key) (h' : req'.slot shaKey = some key) :
    req.tenant = req'.tenant ∧ req.method = req'.method ∧ req.path = req'.path ∧ req.clientKey = req'.clientKey := by
  obtain ⟨clientKey, hclient, -, rfl⟩ := slot_eq_some h
  obtain ⟨clientKey', hclient', -, hkey⟩ := slot_eq_some h'
  unfold buildKey at hkey
  simp only [List.append_assoc, List.cons_append, List.append_cancel_left_eq] at hkey
  obtain ⟨htenants, hrest⟩ := split_at_colon htenant' htenant hkey
  obtain ⟨hmethods, hrest⟩ := split_at_colon req'.method.name_colon req.method.name_colon hrest
  obtain ⟨hpaths, hkeys⟩ := split_at_last_colon (hdigests.hex _) (hdigests.hex _) hrest
  refine ⟨(String.toList_inj.mp htenants).symm, (Method.name_inj (String.toList_inj.mp hmethods)).symm, hpaths.symm, ?_⟩
  rw [hclient, hclient', hdigests.key req req' clientKey clientKey' hreq hreq' hclient hclient'
    (String.toList_inj.mp hkeys).symm]

end Towing.Common
