import Mathlib.Data.List.Forall2
import Mathlib.Tactic.Tauto

namespace Towing.Rfc4180

/-- The four characters that carry structure in a file of comma-separated values. -/
structure Marks (α : Type) where
  quote : α
  comma : α
  lf : α
  cr : α
  distinct : [quote, comma, lf, cr].Nodup

abbrev Field (α : Type) := List α
abbrev Record (α : Type) := List (Field α)

inductive Mode where
  | fresh
  | bare
  | quoted
  | closed
  deriving DecidableEq, Repr

structure Reader (α : Type) where
  records : List (Record α)
  fields : Record α
  field : Field α
  mode : Mode
  deriving DecidableEq, Repr

namespace Reader

variable {α : Type}

def push (r : Reader α) (mode : Mode) (c : α) : Reader α :=
  { r with field := r.field ++ [c], mode := mode }

def endField (r : Reader α) : Reader α :=
  { r with fields := r.fields ++ [r.field], field := [], mode := .fresh }

def endRecord (r : Reader α) : Reader α :=
  { r with records := r.records ++ [r.fields], fields := [] }

/-- A field has been read to its end, with or without quotes around it. -/
structure Holds (r : Reader α) (records : List (Record α)) (fields : Record α)
    (field : Field α) : Prop where
  records : r.records = records
  fields : r.fields = fields
  field : r.field = field
  outside : r.mode ≠ .quoted

/-- Nothing of the next field has been read. -/
def between (records : List (Record α)) (fields : Record α) : Reader α :=
  ⟨records, fields, [], .fresh⟩

def start : Reader α := between [] []

end Reader

namespace Marks

section Distinct

variable {α : Type} (m : Marks α)

theorem quote_ne_comma : m.quote ≠ m.comma := by
  have := m.distinct
  simp only [List.nodup_cons, List.mem_cons] at this
  tauto

theorem quote_ne_lf : m.quote ≠ m.lf := by
  have := m.distinct
  simp only [List.nodup_cons, List.mem_cons] at this
  tauto

theorem lf_ne_comma : m.lf ≠ m.comma := by
  have := m.distinct
  simp only [List.nodup_cons, List.mem_cons] at this
  tauto

end Distinct

variable {α : Type} [DecidableEq α] (m : Marks α)

def step (r : Reader α) (c : α) : Option (Reader α) :=
  match r.mode with
  | .quoted => if c = m.quote then some { r with mode := .closed } else some (r.push .quoted c)
  | mode =>
    if c = m.comma then some r.endField
    else if c = m.lf then some r.endField.endRecord
    else if c = m.quote then
      match mode with
      | .fresh => some { r with mode := .quoted }
      | .closed => some (r.push .quoted c)
      | _ => none
    else if c = m.cr ∨ mode = .closed then none
    else some (r.push .bare c)

def run (r : Reader α) (text : List α) : Option (Reader α) := text.foldlM m.step r

/-- The last record may lack its line end; a quoted field may not lack its quote. -/
def finish (r : Reader α) : Option (List (Record α)) :=
  if r.mode = .quoted then none
  else if r.mode = .fresh ∧ r.fields = [] then some r.records
  else some r.endField.endRecord.records

def parse (text : List α) : Option (List (Record α)) := (m.run .start text).bind finish

/-- No character of the field has to be quoted. -/
def Plain (field : Field α) : Prop :=
  ∀ c ∈ field, c ≠ m.quote ∧ c ≠ m.comma ∧ c ≠ m.lf ∧ c ≠ m.cr

instance (field : Field α) : Decidable (m.Plain field) :=
  inferInstanceAs (Decidable (∀ c ∈ field, _))

end Marks

/-- Every `c` of the text replaced by `by_`. -/
def replaceAll {α : Type} [DecidableEq α] (c : α) (by_ text : List α) : List α :=
  text.flatMap fun x ↦ if x = c then by_ else [x]

namespace Marks

variable {α : Type} [DecidableEq α] (m : Marks α)

def quotedField (field : Field α) : List α :=
  m.quote :: replaceAll m.quote [m.quote, m.quote] field ++ [m.quote]

/-- The text is one way of writing the field, whatever stands before it. -/
def Writes (text : List α) (field : Field α) : Prop :=
  ∀ records fields, ∃ r, m.run (.between records fields) text = some r ∧
    r.Holds records fields field

theorem run_nil (r : Reader α) : m.run r [] = some r := rfl

theorem run_cons (r : Reader α) (c : α) (text : List α) :
    m.run r (c :: text) = (m.step r c).bind fun r' ↦ m.run r' text :=
  List.foldlM_cons

theorem run_append (r : Reader α) (xs ys : List α) :
    m.run r (xs ++ ys) = (m.run r xs).bind fun r' ↦ m.run r' ys :=
  List.foldlM_append

variable {m}

section Steps

variable {r : Reader α} {c : α}

theorem step_quoted (h : r.mode = .quoted) (hc : c ≠ m.quote) :
    m.step r c = some (r.push .quoted c) := by
  simp [step, h, hc]

theorem step_closing (h : r.mode = .quoted) : m.step r m.quote = some { r with mode := .closed } := by
  simp [step, h]

theorem step_doubled (h : r.mode = .closed) : m.step r m.quote = some (r.push .quoted m.quote) := by
  simp [step, h, m.quote_ne_comma, m.quote_ne_lf]

theorem step_opening (h : r.mode = .fresh) : m.step r m.quote = some { r with mode := .quoted } := by
  simp [step, h, m.quote_ne_comma, m.quote_ne_lf]

theorem step_plain (h : r.mode = .fresh ∨ r.mode = .bare)
    (hc : c ≠ m.quote ∧ c ≠ m.comma ∧ c ≠ m.lf ∧ c ≠ m.cr) : m.step r c = some (r.push .bare c) := by
  obtain ⟨hq, hcomma, hlf, hcr⟩ := hc
  rcases h with h | h <;> simp [step, h, hq, hcomma, hlf, hcr]

theorem step_comma (h : r.mode ≠ .quoted) : m.step r m.comma = some r.endField := by
  cases hmode : r.mode with
  | quoted => exact absurd hmode h
  | fresh | bare | closed => simp [step, hmode]

theorem step_lf (h : r.mode ≠ .quoted) : m.step r m.lf = some r.endField.endRecord := by
  cases hmode : r.mode with
  | quoted => exact absurd hmode h
  | fresh | bare | closed => simp [step, hmode, m.lf_ne_comma]

end Steps

theorem run_plain {field : Field α} (hp : m.Plain field) :
    ∀ r : Reader α, r.mode = .fresh ∨ r.mode = .bare →
      ∃ r', m.run r field = some r' ∧ r'.Holds r.records r.fields (r.field ++ field) := by
  induction field with
  | nil =>
    intro r hr
    refine ⟨r, rfl, rfl, rfl, by simp, ?_⟩
    rcases hr with hr | hr <;> simp [hr]
  | cons c field ih =>
    intro r hr
    have hrest : m.Plain field := fun x hx ↦ hp x (List.mem_cons_of_mem c hx)
    obtain ⟨r', hrun, hholds⟩ := ih hrest (r.push .bare c) (Or.inr rfl)
    refine ⟨r', ?_, ?_⟩
    · rw [run_cons, step_plain hr (hp c List.mem_cons_self)]
      exact hrun
    · simpa [Reader.push] using hholds

theorem writes_plain {field : Field α} (hp : m.Plain field) : m.Writes field field := by
  intro records fields
  obtain ⟨r, hrun, hholds⟩ := run_plain hp (.between records fields) (Or.inl rfl)
  exact ⟨r, hrun, hholds⟩

/-- Inside quotes, every character comes back and a doubled quote comes back once. -/
theorem run_replaceAll (field : Field α) :
    ∀ r : Reader α, r.mode = .quoted →
      m.run r (replaceAll m.quote [m.quote, m.quote] field) =
        some { r with field := r.field ++ field } := by
  induction field with
  | nil =>
    intro r hr
    simp [replaceAll, run_nil]
  | cons c field ih =>
    intro r hr
    by_cases hc : c = m.quote
    · subst hc
      have hgo := ih (({ r with mode := .closed } : Reader α).push .quoted m.quote) rfl
      simp only [replaceAll, List.flatMap_cons, if_pos, List.cons_append, List.nil_append, run_cons,
        step_closing hr, Option.bind_some]
      rw [step_doubled rfl, Option.bind_some]
      rw [replaceAll] at hgo
      rw [hgo]
      simp [Reader.push, hr]
    · have hgo := ih (r.push .quoted c) rfl
      simp only [replaceAll, List.flatMap_cons, if_neg hc, List.cons_append, List.nil_append, run_cons,
        step_quoted hr hc, Option.bind_some]
      rw [replaceAll] at hgo
      rw [hgo]
      simp [Reader.push, hr]

theorem writes_quotedField (field : Field α) : m.Writes (m.quotedField field) field := by
  intro records fields
  refine ⟨⟨records, fields, field, .closed⟩, ?_, rfl, rfl, rfl, by simp⟩
  rw [quotedField, List.cons_append, run_cons, step_opening rfl, Option.bind_some, run_append,
    run_replaceAll _ _ rfl, Option.bind_some, run_cons, step_closing rfl]
  simp [run_nil, Reader.between]

theorem Writes.comma {text : List α} {field : Field α} (h : m.Writes text field)
    (records : List (Record α)) (fields : Record α) :
    m.run (.between records fields) (text ++ [m.comma]) = some (.between records (fields ++ [field])) := by
  obtain ⟨r, hrun, rfl, rfl, rfl, hout⟩ := h records fields
  rw [run_append, hrun, Option.bind_some, run_cons, step_comma hout]
  rfl

theorem Writes.lf {text : List α} {field : Field α} (h : m.Writes text field)
    (records : List (Record α)) (fields : Record α) :
    m.run (.between records fields) (text ++ [m.lf]) = some (.between (records ++ [fields ++ [field]]) []) := by
  obtain ⟨r, hrun, rfl, rfl, rfl, hout⟩ := h records fields
  rw [run_append, hrun, Option.bind_some, run_cons, step_lf hout]
  rfl

/-- Texts joined by commas and closed by a line end are one record. -/
theorem run_line {texts : List (List α)} {record : Record α}
    (h : List.Forall₂ m.Writes texts record) (hne : record ≠ []) (records : List (Record α)) :
    ∀ fields, m.run (.between records fields) (List.intercalate [m.comma] texts ++ [m.lf]) =
      some (.between (records ++ [fields ++ record]) []) := by
  induction h with
  | nil => exact absurd rfl hne
  | @cons text field texts record hw hrest ih =>
    intro fields
    cases hrest with
    | nil => simpa using hw.lf records fields
    | @cons text' field' texts' record' hw' hrest' =>
      have hgo := ih (by simp) (fields ++ [field])
      rw [List.intercalate_cons_cons, List.append_assoc, List.append_assoc, ← List.append_assoc text,
        run_append, hw.comma, Option.bind_some, hgo]
      simp

/-- Lines joined by line ends and closed by one are their records. -/
theorem run_lines {lines : List (List α)} {rows : List (Record α)}
    (h : List.Forall₂ (fun line row ↦ ∀ records,
      m.run (.between records []) (line ++ [m.lf]) = some (.between (records ++ [row]) [])) lines rows)
    (hne : rows ≠ []) :
    ∀ records, m.run (.between records []) (List.intercalate [m.lf] lines ++ [m.lf]) =
      some (.between (records ++ rows) []) := by
  induction h with
  | nil => exact absurd rfl hne
  | @cons line row lines rows hl hrest ih =>
    intro records
    cases hrest with
    | nil => simpa using hl records
    | @cons line' row' lines' rows' hl' hrest' =>
      have hgo := ih (by simp) (records ++ [row])
      rw [List.intercalate_cons_cons, List.append_assoc, List.append_assoc, ← List.append_assoc line,
        run_append, hl, Option.bind_some, hgo]
      simp

theorem parse_of_run {text : List α} {records : List (Record α)}
    (h : m.run .start text = some (.between records [])) : m.parse text = some records := by
  rw [parse, h]
  simp [finish, Reader.between]

end Marks

end Towing.Rfc4180
