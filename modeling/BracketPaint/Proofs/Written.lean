import Mathlib.Data.List.Nodup
import BracketPaint.Toml.Writer
/-!
# The order of written entries

A document shows the plain entries of a table before its tables, so this is the order in which they
are met again. It is all that writing changes about a document: under each key stands what stood
there before (`lookup_asWritten`).
-/

namespace BracketPaint.Toml

variable {entries : Entries} {items : List Value} {v : Value} {key : String}

/-- The plain entries of a table. -/
def plainOf (entries : Entries) : Entries := entries.filter fun (_, v) => v.isPlain

mutual

/-- The value with the entries of its tables in the order in which they are written. -/
def Value.asWritten : Value → Value
  | .table entries => .table (plainOf entries ++ tablesAsWritten entries)
  | .array items =>
    if (Value.array items).isPlain then .array items else .array (itemsAsWritten items)
  | v => v

/-- The values of an array, each as it is written. -/
def itemsAsWritten : List Value → List Value
  | [] => []
  | v :: vs => v.asWritten :: itemsAsWritten vs

/-- The tables among the entries of a table, each as it is written. -/
def tablesAsWritten : Entries → Entries
  | [] => []
  | (name, v) :: entries =>
    if v.isPlain then tablesAsWritten entries else (name, v.asWritten) :: tablesAsWritten entries

end

/-- The entries of a table in the order in which they are written. -/
def entriesAsWritten (entries : Entries) : Entries := plainOf entries ++ tablesAsWritten entries

theorem asWritten_table (entries : Entries) :
    (Value.table entries).asWritten = .table (entriesAsWritten entries) := by
  rw [Value.asWritten, entriesAsWritten]

theorem plainOf_cons_of_isPlain (h : v.isPlain) :
    plainOf ((key, v) :: entries) = (key, v) :: plainOf entries :=
  List.filter_cons_of_pos h

theorem plainOf_cons_of_not_isPlain (h : ¬ v.isPlain) :
    plainOf ((key, v) :: entries) = plainOf entries :=
  List.filter_cons_of_neg h

theorem itemsAsWritten_eq_map (items : List Value) :
    itemsAsWritten items = items.map Value.asWritten := by
  induction items with
  | nil => rw [itemsAsWritten, List.map_nil]
  | cons v items ih => rw [itemsAsWritten, ih, List.map_cons]

/-- A plain value has no tables that could change their order. -/
theorem asWritten_of_isPlain (h : v.isPlain) : v.asWritten = v := by
  cases v with
  | table entries => simp [Value.isPlain, Value.entries?] at h
  | array items => rw [Value.asWritten, if_pos h]
  | _ => simp [Value.asWritten]

theorem not_isPlain_map_table {tables : List Entries} (h : tables ≠ []) :
    ¬ (Value.array (tables.map .table)).isPlain := by
  have hentries : (tables.map Value.table).mapM Value.entries? = some tables := by
    clear h
    induction tables with
    | nil => rfl
    | cons entries tables ih =>
        rw [List.map_cons, List.mapM_cons, ih]
        rfl
  cases tables with
  | nil => exact absurd rfl h
  | cons entries tables =>
      rw [List.map_cons] at hentries ⊢
      simp [Value.isPlain, Value.tables?, hentries]

theorem asWritten_map_table (tables : List Entries) :
    (Value.array (tables.map .table)).asWritten =
      .array (tables.map fun entries => (Value.table entries).asWritten) := by
  rw [Value.asWritten, itemsAsWritten_eq_map, List.map_map]
  by_cases hne : tables = []
  · rw [hne]
    exact ite_self _
  · exact if_neg (not_isPlain_map_table hne)

/-! ### What stands under a key -/

theorem mem_of_mem_plainOf {entry : String × Value} (h : entry ∈ plainOf entries) :
    entry ∈ entries :=
  List.mem_of_mem_filter h

theorem exists_of_mem_tablesAsWritten {entry : String × Value}
    (h : entry ∈ tablesAsWritten entries) :
    ∃ v, (entry.1, v) ∈ entries ∧ entry.2 = v.asWritten := by
  induction entries with
  | nil => simp [tablesAsWritten] at h
  | cons other entries ih =>
      obtain ⟨name, v⟩ := other
      rw [tablesAsWritten] at h
      split at h
      · obtain ⟨w, hw, heq⟩ := ih h
        exact ⟨w, List.mem_cons_of_mem _ hw, heq⟩
      · rcases List.mem_cons.mp h with rfl | h
        · exact ⟨v, List.mem_cons_self, rfl⟩
        · obtain ⟨w, hw, heq⟩ := ih h
          exact ⟨w, List.mem_cons_of_mem _ hw, heq⟩

/-- Each entry that is written is one of the table. -/
theorem exists_of_mem_entriesAsWritten {entry : String × Value}
    (h : entry ∈ entriesAsWritten entries) :
    ∃ v, (entry.1, v) ∈ entries := by
  rcases List.mem_append.mp h with h | h
  · exact ⟨entry.2, mem_of_mem_plainOf h⟩
  · obtain ⟨v, hv, -⟩ := exists_of_mem_tablesAsWritten h
    exact ⟨v, hv⟩

/-- Under each key stands what stood there before. -/
theorem lookup_asWritten (hnodup : (entries.map Prod.fst).Nodup) :
    (entriesAsWritten entries).lookup key = (entries.lookup key).map Value.asWritten := by
  induction entries with
  | nil => simp [entriesAsWritten, plainOf, tablesAsWritten]
  | cons entry entries ih =>
      obtain ⟨name, v⟩ := entry
      rw [List.map_cons, List.nodup_cons] at hnodup
      have ih' := ih hnodup.2
      rw [entriesAsWritten, List.lookup_append] at ih' ⊢
      by_cases hplain : v.isPlain
      · rw [plainOf_cons_of_isPlain hplain, tablesAsWritten, if_pos hplain,
          List.lookup_cons, List.lookup_cons]
        by_cases hkey : key = name
        · simp [hkey, asWritten_of_isPlain hplain]
        · have hne : (key == name) = false := beq_false_of_ne hkey
          rw [hne]
          exact ih'
      · rw [plainOf_cons_of_not_isPlain hplain, tablesAsWritten, if_neg hplain,
          List.lookup_cons, List.lookup_cons]
        by_cases hkey : key = name
        · -- The name does not stand among the plain entries.
          have hnone : (plainOf entries).lookup key = none := by
            rw [List.lookup_eq_none_iff]
            intro entry hentry
            rw [bne_iff_ne, hkey]
            intro hname
            exact hnodup.1 (List.mem_map.mpr ⟨entry, mem_of_mem_plainOf hentry, hname.symm⟩)
          rw [hnone, hkey]
          simp
        · have hne : (key == name) = false := beq_false_of_ne hkey
          rw [hne]
          exact ih'

end BracketPaint.Toml
