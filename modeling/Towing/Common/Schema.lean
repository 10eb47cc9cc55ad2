import Towing.Common.Idempotency
import Mathlib.Data.List.Chain
import Mathlib.Data.Rat.Defs

namespace Towing.Common

/-! Reading JSON values through a schema, which answers nothing for a value that it refuses. -/

variable {α β κ : Type}

def Member.value : Member → Json
  | .mk _ value => value

def Json.members : Json → List Member
  | .object members => members
  | _ => []

/-- What the object has under the key. -/
def Json.member (json : Json) (key : String) : Option Json := (json.members.find? (·.key = key)).map (·.value)

/-- The object with the value under the key. -/
def Json.put (json : Json) (key : String) (value : Json) : Json :=
  .object (.mk key value :: json.members.filter (·.key ≠ key))

/-- What there is at the end of the keys. -/
def Json.path (json : Json) : List String → Option Json
  | [] => some json
  | key :: keys => (json.member key).bind (·.path keys)

/-- The object with the value at the end of the keys, and objects on the way where there were none. -/
def Json.putAt (json : Json) (keys : List String) (value : Json) : Json :=
  match keys with
  | [] => value
  | key :: keys => json.put key (((json.member key).getD (.object [])).putAt keys value)

/-- A key that may be left out. -/
def optional (schema : Json → Option α) : Option Json → Option (Option α)
  | none => some none
  | some value => (schema value).map some

/-- An integer between the bounds. -/
abbrev Within (lo hi : ℕ) := {n : ℕ // lo ≤ n ∧ n ≤ hi}

def integerSchema (lo hi : ℕ) : Json → Option (Within lo hi)
  | .number x =>
    if h : x.den = 1 ∧ 0 ≤ x.num ∧ lo ≤ x.num.toNat ∧ x.num.toNat ≤ hi then some ⟨x.num.toNat, h.2.2⟩ else none
  | _ => none

def numberSchema : Json → Option ℚ
  | .number x => some x
  | _ => none

def arraySchema (schema : Json → Option α) : Json → Option (List α)
  | .array items => items.mapM schema
  | _ => none

/-- An object all of whose keys and values are known, none of which has to be there. -/
def partialRecord (key : String → Option κ) (schema : Json → Option α) : Json → Option (List (κ × α))
  | .object members => members.mapM fun m ↦ (key m.key).bind fun k ↦ (schema m.value).map (k, ·)
  | _ => none

theorem optional_eq {schema : Json → Option α} {value : Option Json} {x : Option α} (h : optional schema value = some x) :
    x = value.bind schema := by
  cases value with
  | none =>
    cases h
    rfl
  | some value =>
    obtain ⟨y, hy, rfl⟩ := Option.map_eq_some_iff.mp h
    exact hy.symm

theorem optional_some {schema : Json → Option α} {value : Json} {x : Option α}
    (h : optional schema (some value) = some x) : x.isSome = true := by
  obtain ⟨y, hy, rfl⟩ := Option.map_eq_some_iff.mp h
  rfl

theorem member_put_self (json : Json) (key : String) (value : Json) : (json.put key value).member key = some value := by
  simp [Json.member, Json.put, Json.members, Member.key, Member.value]

theorem find?_filter_ne (members : List Member) {key other : String} (h : other ≠ key) :
    (members.filter (·.key ≠ key)).find? (·.key = other) = members.find? (·.key = other) := by
  induction members with
  | nil => rfl
  | cons m members ih =>
    by_cases hother : m.key = other
    · have hkey : m.key ≠ key := fun hkey ↦ h (hother.symm.trans hkey)
      rw [List.filter_cons_of_pos (by simpa using hkey), List.find?_cons_of_pos (by simpa using hother),
        List.find?_cons_of_pos (by simpa using hother)]
    · rw [List.find?_cons_of_neg (by simpa using hother), ← ih, List.filter_cons]
      split_ifs
      · rw [List.find?_cons_of_neg (by simpa using hother)]
      · rfl

/-- The other keys keep their values. -/
theorem member_put_ne (json : Json) {key other : String} (value : Json) (h : other ≠ key) :
    (json.put key value).member other = json.member other := by
  have hfind := find?_filter_ne json.members h
  rw [Json.member, Json.member, ← hfind]
  unfold Json.put
  have hkey : key ≠ other := h.symm
  rw [Json.members, List.find?_cons_of_neg (by simp [Member.key, hkey])]

theorem path_empty {keys : List String} (h : keys ≠ []) : (Json.object []).path keys = none := by
  cases keys with
  | nil => exact absurd rfl h
  | cons key keys => rfl

/-- Setting what is at the end of the keys leaves what is elsewhere. -/
theorem path_putAt {keys others : List String} (json value : Json) (h : ¬keys <+: others) (h' : ¬others <+: keys) :
    (json.putAt keys value).path others = json.path others := by
  induction keys generalizing json others with
  | nil => exact absurd List.nil_prefix h
  | cons key keys ih =>
    cases others with
    | nil => exact absurd List.nil_prefix h'
    | cons other others =>
      rw [Json.putAt, Json.path, Json.path]
      by_cases hkey : other = key
      · subst hkey
        rw [List.cons_prefix_cons, not_and] at h h'
        have hothers : others ≠ [] := fun hnil ↦ h' rfl (hnil ▸ List.nil_prefix)
        rw [member_put_self, Option.bind_some, ih _ (h rfl) (h' rfl)]
        cases json.member other with
        | none => exact path_empty hothers
        | some inner => rfl
      · rw [member_put_ne _ _ hkey]

/-- What a record has for a key is what the schema makes of the value under its name. -/
theorem lookup_partialRecord [DecidableEq κ] {key : String → Option κ} {schema : Json → Option α} {json : Json}
    {record : List (κ × α)} (h : partialRecord key schema json = some record)
    (hinj : ∀ n n' k, key n = some k → key n' = some k → n = n') {name : String} {k : κ} (hname : key name = some k) :
    record.lookup k = (json.member name).bind schema := by
  cases json with
  | object members =>
    rw [partialRecord] at h
    rw [Json.member, Json.members]
    induction members generalizing record with
    | nil =>
      rw [List.mapM_nil] at h
      cases h
      rfl
    | cons m members ih =>
      rw [List.mapM_cons] at h
      obtain ⟨first, hfirst, h⟩ := Option.bind_eq_some_iff.mp h
      obtain ⟨rest, hrest, h⟩ := Option.bind_eq_some_iff.mp h
      cases h
      obtain ⟨k', hk', hpair⟩ := Option.bind_eq_some_iff.mp hfirst
      obtain ⟨value, hvalue, rfl⟩ := Option.map_eq_some_iff.mp hpair
      by_cases hsame : m.key = name
      · rw [hsame, hname] at hk'
        cases hk'
        rw [List.find?_cons_of_pos (by simpa using hsame), List.lookup_cons_self]
        rw [Option.map_some, Option.bind_some, hvalue]
      · have hne : k ≠ k' := fun heq ↦ hsame (hinj _ _ k (heq ▸ hk') hname)
        rw [List.find?_cons_of_neg (by simpa using hsame), List.lookup_cons, beq_false_of_ne hne]
        exact ih hrest
  | _ => cases h

theorem mapM_mem {f : α → Option β} {xs : List α} {ys : List β} (h : xs.mapM f = some ys) {x : α} (hx : x ∈ xs) :
    ∃ y, f x = some y := by
  induction xs generalizing ys with
  | nil => cases hx
  | cons first xs ih =>
    rw [List.mapM_cons] at h
    obtain ⟨y, hy, h⟩ := Option.bind_eq_some_iff.mp h
    obtain ⟨rest, hrest, -⟩ := Option.bind_eq_some_iff.mp h
    rcases List.mem_cons.mp hx with rfl | hx
    · exact ⟨y, hy⟩
    · exact ih hrest hx

theorem partialRecord_value {key : String → Option κ} {schema : Json → Option α} {json : Json}
    {record : List (κ × α)} (h : partialRecord key schema json = some record) {name : String} {value : Json}
    (hvalue : json.member name = some value) : (schema value).isSome = true := by
  obtain ⟨m, hfind, rfl⟩ := Option.map_eq_some_iff.mp hvalue
  cases json with
  | object members =>
    obtain ⟨pair, hpair⟩ := mapM_mem h (List.mem_of_find?_eq_some hfind)
    obtain ⟨k, -, hk⟩ := Option.bind_eq_some_iff.mp hpair
    obtain ⟨y, hy, -⟩ := Option.map_eq_some_iff.mp hk
    rw [hy]
    rfl
  | _ => cases h

end Towing.Common
