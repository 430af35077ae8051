import BracketPaint.Proofs.Growth
/-!
# Written documents

A document that is written is read back, but for the order of the entries in its tables
(`read?_write`).

Not everything that a value of the model may say can be written: an integer has 64 bits, no name
stands twice in a table, the depth of a document is limited, and the written form of a float or of a
date is what it happens to be. So the theorem is about values that can be stored
(`Value.Storable`); tables on one line, which are needed only where an array holds tables and other
values, are left out as well.
-/

namespace BracketPaint.Toml

variable {v : Value} {room depth : Nat} {key : List String} {entries : Entries} {items : List Value}

/-- The greatest number of arrays one in the other. -/
abbrev arrayLimit : Nat := nestingLimit - 1

/-- The value can be written and read back. `room` is the number of names that its key and those of
the tables in it may have beyond the key of the table around it. -/
inductive Value.Storable : Nat → Value → Prop
  | flat (room : Nat) {v : Value} (h : v.Flat arrayLimit) : Storable room v
  | table {room : Nat} {entries : Entries} (hnodup : (entries.map Prod.fst).Nodup)
      (h : ∀ entry ∈ entries, Storable room entry.2) : Storable (room + 1) (.table entries)
  | tables {room : Nat} {tables : List Entries}
      (hnodup : ∀ entries ∈ tables, (entries.map Prod.fst).Nodup)
      (h : ∀ entries ∈ tables, ∀ entry ∈ entries, Storable room entry.2) :
      Storable (room + 1) (.array (tables.map .table))

theorem Value.Flat.isPlain (h : v.Flat depth) : v.isPlain := by
  cases h with
  | @array depth items h =>
      cases items with
      | nil => rfl
      | cons w items =>
          have hw : w.entries? = none := by
            cases h w List.mem_cons_self <;> rfl
          have htables : (Value.array (w :: items)).tables? = none := by
            rw [tables?, List.mapM_cons, hw]
            rfl
          rw [Value.isPlain, htables]
          rfl
  | _ => rfl

/-- What can be stored and is plain holds no tables. -/
theorem Value.Storable.flat_of_isPlain (h : v.Storable room) (hplain : v.isPlain) :
    v.Flat arrayLimit := by
  cases h with
  | flat _ h => exact h
  | table => simp [Value.isPlain, Value.entries?] at hplain
  | @tables room tables =>
      by_cases hne : tables = []
      · subst hne
        have hnil : (Value.array []).Flat (78 + 1) := .array fun v hv => by cases hv
        exact hnil
      · exact absurd hplain (not_isPlain_map_table hne)

theorem plainFlat_of_storable (h : ∀ entry ∈ entries, entry.2.Storable room) :
    PlainFlat arrayLimit entries :=
  fun entry hentry hplain => (h entry hentry).flat_of_isPlain hplain

/-! ### Blocks and statements -/

/-- The blocks of a value are read as its statements. -/
def BlocksRead (room : Nat) (v : Value) : Prop :=
  ∀ {key}, key ≠ [] → key.length + room < nestingLimit →
    ReadsAll (value? arrayLimit) (blocksOf key v) (statementsOf key v)

theorem blocksOf_of_isPlain (h : v.isPlain) (key : List String) : blocksOf key v = [] := by
  cases v with
  | table entries => simp [Value.isPlain, Value.entries?] at h
  | array items => rw [blocksOf, if_pos h]
  | _ => rw [blocksOf] <;> simp

theorem readsAll_blocksOfEntries (h : ∀ entry ∈ entries, BlocksRead room entry.2)
    (hlength : key.length + 1 + room < nestingLimit) :
    ReadsAll (value? arrayLimit) (blocksOfEntries key entries) (statementsOfEntries key entries) := by
  induction entries with
  | nil =>
      rw [blocksOfEntries, statementsOfEntries]
      exact .nil
  | cons entry entries ih =>
      obtain ⟨name, v⟩ := entry
      rw [blocksOfEntries, statementsOfEntries]
      have hv : ReadsAll (value? arrayLimit) (blocksOf (key ++ [name]) v)
          (statementsOf (key ++ [name]) v) :=
        h (name, v) List.mem_cons_self (by simp) (by simpa using hlength)
      exact hv.append (ih fun entry hentry => h entry (List.mem_cons_of_mem _ hentry))

theorem readsAll_blocksOfElements {tables : List Entries}
    (hplain : ∀ entries ∈ tables, PlainFlat arrayLimit entries)
    (h : ∀ entries ∈ tables, ∀ entry ∈ entries, BlocksRead room entry.2) (hkey : key ≠ [])
    (hlength : key.length + 1 + room < nestingLimit) :
    ReadsAll (value? arrayLimit) (blocksOfElements key (tables.map .table))
      (statementsOfElements key (tables.map .table)) := by
  induction tables with
  | nil =>
      rw [List.map_nil, blocksOfElements, statementsOfElements]
      exact .nil
  | cons entries tables ih =>
      rw [List.map_cons, blocksOfElements, statementsOfElements]
      have hblock := reads_arrayBlock (hplain entries List.mem_cons_self) hkey (by omega)
      have hentries := readsAll_blocksOfEntries (h entries List.mem_cons_self) hlength
      exact (ReadsAll.cons hblock hentries).append
        (ih (fun entries hentries => hplain entries (List.mem_cons_of_mem _ hentries))
          fun entries hentries => h entries (List.mem_cons_of_mem _ hentries))

theorem Value.Storable.blocksRead (h : v.Storable room) : BlocksRead room v := by
  induction h with
  | flat room h =>
      intro key _ _
      rw [blocksOf_of_isPlain h.isPlain, statementsOf_of_isPlain h.isPlain]
      exact .nil
  | @table room entries hnodup h ih =>
      intro key hkey hlength
      rw [blocksOf, statementsOf]
      refine ReadsAll.append ?_ (readsAll_blocksOfEntries ih (by omega))
      split
      · have hblock := ReadsAll.cons (reads_block (plainFlat_of_storable h) hkey (by omega)) .nil
        rwa [List.append_nil] at hblock
      · exact .nil
  | @tables room tables hnodup h ih =>
      intro key hkey hlength
      rw [blocksOf, statementsOf]
      split
      · exact .nil
      · exact readsAll_blocksOfElements
          (fun entries hentries => plainFlat_of_storable (h entries hentries)) ih hkey (by omega)

theorem Value.Storable.grows (h : v.Storable room) : Grows v := by
  induction h with
  | flat room h => exact fun _ _ _ hplain _ => absurd h.isPlain hplain
  | table hnodup _ ih => exact grows_table ih hnodup
  | tables hnodup _ ih =>
      refine grows_tables fun v hv => ?_
      obtain ⟨entries, hentries, rfl⟩ := List.mem_map.mp hv
      exact ⟨entries, rfl, hnodup entries hentries, ih entries hentries⟩

/-! ### Whole documents -/

/-- The mark of an encoding is no statement. -/
theorem statements?_mark {α : Type} {item : List Char → Option (α × List Char)} {cs : List Char} :
    statements? item ('\ufeff' :: cs) = none := by
  have hsolid : IsSolid '\ufeff' := by decide
  have hname : name? ('\ufeff' :: cs) = none := by
    rw [name?.eq_def]
    rfl
  have hpair : pair? item ('\ufeff' :: cs) = none := by
    rw [pair?, key?, names?, skipSpaces_of_isSolid hsolid, hname]
    rfl
  rw [statements?, line?, skipSpaces_of_isSolid hsolid,
    if_pos (startsStatement_of_isSolid hsolid), statement?_of_ne (by decide), hpair]
  rfl

theorem plainStatements_of_isEmpty (h : (renderPlain entries).isEmpty) :
    plainStatements entries = [] := by
  rw [renderPlain, List.isEmpty_iff, List.flatMap_eq_nil_iff] at h
  rw [plainStatements]
  cases hplain : plainOf entries with
  | nil => rfl
  | cons entry plain =>
      have hmem : entry ∈ plainOf entries := hplain ▸ List.mem_cons_self
      rw [renderPairs_eq_map] at h
      have hline := h _ (List.mem_map_of_mem hmem)
      simp at hline

/-- **Documents are read back.** What is read from a written document is what was written, with the
entries of each table in the order in which they are written. -/
theorem read?_write (hnodup : (entries.map Prod.fst).Nodup)
    (h : ∀ entry ∈ entries, entry.2.Storable room) (hroom : 1 + room < nestingLimit) :
    read? (write entries) = some (entriesAsWritten entries) := by
  have hplain : ReadsAll (value? arrayLimit)
      (if (renderPlain entries).isEmpty then [] else [renderPlain entries])
      (plainStatements entries) := by
    split
    · rename_i hempty
      rw [plainStatements_of_isEmpty hempty]
      exact .nil
    · have hblock := ReadsAll.cons (reads_renderPlain (plainFlat_of_storable h)) .nil
      rwa [List.append_nil] at hblock
  have htables : ReadsAll (value? arrayLimit) (blocksOfEntries [] entries)
      (statementsOfEntries [] entries) :=
    readsAll_blocksOfEntries (fun entry hentry => (h entry hentry).blocksRead) (by simpa using hroom)
  have hread := (hplain.append htables).intercalate []
  rw [List.append_nil] at hread
  have hstatements : statements? (value? arrayLimit) (write entries).toList =
      some (plainStatements entries ++ statementsOfEntries [] entries) := by
    rw [write, String.toList_ofList, hread, statements?]
    simp
  have hmark : withoutMark (write entries).toList = (write entries).toList := by
    unfold withoutMark
    split
    · rename_i heq
      rw [heq, statements?_mark] at hstatements
      cases hstatements
    · rfl
  obtain ⟨inner, current, hfold, hinner⟩ :=
    exists_foldlM_table (fun entry hentry => (h entry hentry).grows) hnodup context_root
  rw [read?, hmark, hstatements]
  simp only [Option.bind_eq_bind, Option.bind_some]
  rw [← hinner]
  exact congrArg (Option.bind · fun reading => some (toEntries reading.nodes)) hfold

end BracketPaint.Toml
