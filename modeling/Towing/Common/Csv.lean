import Towing.Common.Rfc4180

namespace Towing.Csv

open Rfc4180

/-- A string of the program is its UTF-16 code units. -/
abbrev Text := List UInt16

def quote : UInt16 := 0x22
def comma : UInt16 := 0x2C
def lf : UInt16 := 0x0A
def cr : UInt16 := 0x0D
def apostrophe : UInt16 := 0x27

/-- `=`, `+`, `-` and `@`: what a spreadsheet executes on open. -/
def formulaLeads : List UInt16 := [0x3D, 0x2B, 0x2D, 0x40]

def rfc4180 : Marks UInt16 where
  quote := quote
  comma := comma
  lf := lf
  cr := cr
  distinct := by decide

def StartsFormula (value : Text) : Prop := ∃ lead ∈ formulaLeads, value.head? = some lead

instance (value : Text) : Decidable (StartsFormula value) :=
  inferInstanceAs (Decidable (∃ lead ∈ formulaLeads, _))

def neutralise (value : Text) : Text :=
  if StartsFormula value then apostrophe :: value else value

def csvEscape (value : Text) : Text :=
  let cell := neutralise value
  if ∃ c ∈ cell, c ∈ [quote, comma, lf, cr] then
    quote :: replaceAll quote [quote, quote] cell ++ [quote]
  else cell

def join (separator : Text) (parts : List Text) : Text := List.intercalate separator parts

def csvLine (cells : List Text) : Text := join [comma] (cells.map csvEscape)

abbrev Batch := List (List Text)

inductive Closing where
  | streaming
  | ended
  | destroyed
  deriving DecidableEq, Repr

structure Response where
  written : List Text
  closing : Closing
  deriving DecidableEq, Repr

def Response.write (res : Response) (chunk : Text) : Response :=
  { res with written := res.written ++ [chunk] }

def Response.body (res : Response) : Text := res.written.flatten

def headerLine (header : List Text) : Text := join [comma] header ++ [lf]

/-- The loop of `streamCsv`, on what its calls of `produceBatch` come to so far; `none` is a call
that throws. -/
def pump (res : Response) : List (Option Batch) → Response
  | [] => res
  | none :: _ => { res with closing := .destroyed }
  | some rows :: rest =>
    if rows.length = 0 then { res with closing := .ended }
    else pump (res.write (join [lf] (rows.map csvLine) ++ [lf])) rest

def streamCsv (header : List Text) (produceBatch : List (Option Batch)) : Response :=
  pump (Response.write ⟨[], .streaming⟩ (headerLine header)) produceBatch

/-- The rows of the batches that came before the first empty one. -/
def delivered : List (Option Batch) → List (List Text)
  | some rows :: rest => if rows.length = 0 then [] else rows ++ delivered rest
  | _ => []

/-- The cell as it was, or with one apostrophe in front of what would have been a formula. -/
def Faithful (cell parsed : Text) : Prop :=
  (StartsFormula cell ∧ parsed = apostrophe :: cell) ∨ (¬ StartsFormula cell ∧ parsed = cell)

theorem neutralise_faithful (cell : Text) : Faithful cell (neutralise cell) := by
  by_cases h : StartsFormula cell
  · exact Or.inl ⟨h, if_pos h⟩
  · exact Or.inr ⟨h, if_neg h⟩

theorem neutralise_inert (cell : Text) : ¬ StartsFormula (neutralise cell) := by
  by_cases h : StartsFormula cell
  · rw [neutralise, if_pos h]
    rintro ⟨lead, hlead, heq⟩
    rw [List.head?_cons, Option.some_inj] at heq
    subst heq
    revert hlead
    decide
  · rw [neutralise, if_neg h]
    exact h

theorem csvEscape_writes (value : Text) : rfc4180.Writes (csvEscape value) (neutralise value) := by
  rw [csvEscape]
  split_ifs with h
  · exact Marks.writes_quotedField (m := rfc4180) (neutralise value)
  · apply Marks.writes_plain
    intro c hc
    have hnot : c ∉ [quote, comma, lf, cr] := fun hmem ↦ h ⟨c, hc, hmem⟩
    simpa [rfc4180] using hnot

theorem run_csvLine {row : List Text} (hne : row ≠ []) (records : List (Record UInt16)) :
    rfc4180.run (.between records []) (csvLine row ++ [lf]) =
      some (.between (records ++ [row.map neutralise]) []) := by
  have hwrites : List.Forall₂ rfc4180.Writes (row.map csvEscape) (row.map neutralise) := by
    rw [List.forall₂_map_left_iff, List.forall₂_map_right_iff, List.forall₂_same]
    intro value _
    exact csvEscape_writes value
  exact Marks.run_line hwrites (by simpa using hne) records []

theorem run_batch {rows : Batch} (hrows : rows ≠ []) (hne : ∀ row ∈ rows, row ≠ [])
    (records : List (Record UInt16)) :
    rfc4180.run (.between records []) (join [lf] (rows.map csvLine) ++ [lf]) =
      some (.between (records ++ rows.map fun row ↦ row.map neutralise) []) := by
  refine Marks.run_lines (m := rfc4180) ?_ (by simpa using hrows) records
  rw [List.forall₂_map_left_iff, List.forall₂_map_right_iff, List.forall₂_same]
  intro row hrow
  exact run_csvLine (hne row hrow)

/-- Whatever was written before, the loop adds a text that reads as the delivered rows. -/
theorem pump_body (batches : List (Option Batch)) :
    ∀ res : Response, (∀ row ∈ delivered batches, row ≠ []) →
      ∃ text, (pump res batches).body = res.body ++ text ∧ ∀ records,
        rfc4180.run (.between records []) text =
          some (.between (records ++ (delivered batches).map fun row ↦ row.map neutralise) []) := by
  induction batches with
  | nil =>
    intro res _
    exact ⟨[], by simp [pump], fun records ↦ by simp [delivered, Marks.run_nil]⟩
  | cons batch rest ih =>
    intro res hne
    cases batch with
    | none => exact ⟨[], by simp [pump, Response.body], fun records ↦ by simp [delivered, Marks.run_nil]⟩
    | some rows =>
      by_cases hlen : rows.length = 0
      · refine ⟨[], ?_, fun records ↦ ?_⟩
        · simp [pump, hlen, Response.body]
        · simp [delivered, hlen, Marks.run_nil]
      · have hrows : rows ≠ [] := fun h ↦ hlen (by simp [h])
        rw [delivered, if_neg hlen] at hne
        obtain ⟨text, hbody, hrun⟩ := ih (res.write (join [lf] (rows.map csvLine) ++ [lf]))
          fun row hrow ↦ hne row (List.mem_append_right _ hrow)
        refine ⟨(join [lf] (rows.map csvLine) ++ [lf]) ++ text, ?_, fun records ↦ ?_⟩
        · rw [pump, if_neg hlen, hbody]
          simp [Response.body, Response.write]
        · rw [Marks.run_append,
            run_batch hrows fun row hrow ↦ hne row (List.mem_append_left _ hrow), Option.bind_some,
            hrun, delivered, if_neg hlen]
          simp

theorem csv_round_trip (header : List Text) (batches : List (Option Batch))
    (hne : ∀ row ∈ delivered batches, row ≠ []) :
    ∃ text parsed, (streamCsv header batches).body = headerLine header ++ text ∧
      rfc4180.parse text = some parsed ∧
      List.Forall₂ (List.Forall₂ Faithful) (delivered batches) parsed ∧
      ∀ record ∈ parsed, ∀ cell ∈ record, ¬ StartsFormula cell := by
  obtain ⟨text, hbody, hrun⟩ :=
    pump_body batches (Response.write ⟨[], .streaming⟩ (headerLine header)) hne
  refine ⟨text, (delivered batches).map fun row ↦ row.map neutralise, ?_, ?_, ?_, ?_⟩
  · simpa [streamCsv, Response.body, Response.write] using hbody
  · apply Marks.parse_of_run
    have hread := hrun []
    rwa [List.nil_append] at hread
  · rw [List.forall₂_map_right_iff, List.forall₂_same]
    intro row _
    rw [List.forall₂_map_right_iff, List.forall₂_same]
    intro cell _
    exact neutralise_faithful cell
  · intro record hrecord cell hcell
    obtain ⟨row, _, rfl⟩ := List.mem_map.mp hrecord
    obtain ⟨value, _, rfl⟩ := List.mem_map.mp hcell
    exact neutralise_inert value

/-- The cells `=1`, `a,"LF` and the empty one in a batch, a row of one empty cell in the next. -/
def sampleBatches : List (Option Batch) :=
  [some [[[0x3D, 0x31], [0x61, comma, quote, lf], []]], some [[[]]], some []]

theorem csv_round_trip_sample :
    ∃ text parsed, (streamCsv [[0x41]] sampleBatches).body = headerLine [[0x41]] ++ text ∧
      rfc4180.parse text = some parsed ∧
      List.Forall₂ (List.Forall₂ Faithful) (delivered sampleBatches) parsed ∧
      ∀ record ∈ parsed, ∀ cell ∈ record, ¬ StartsFormula cell :=
  csv_round_trip [[0x41]] sampleBatches (by decide)

end Towing.Csv
