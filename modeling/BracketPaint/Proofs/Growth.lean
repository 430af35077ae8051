import BracketPaint.Proofs.WrittenLines
/-!
# Growing documents

The statements of a written document build the document up again.

A statement changes one table of the document and leaves the rest of it alone. So what matters about
the rest is only how it is put around the entries of that table (`Context`). The tables inside a
table come in turn: each is added behind those that are there already, and is then filled.
-/

namespace BracketPaint.Toml

variable {made origin : Origin} {act : Origin → Nodes → Option Nodes} {name : String}
variable {key : List String} {nodes inner : Nodes} {put : Nodes → Nodes} {v : Value}

/-! ### Changing one table -/

/-- What is added under a new name comes last. -/
theorem alter?_of_not_mem {f : Option Node → Option Node} (h : name ∉ nodes.map Prod.fst) :
    alter? name f nodes = (f none).map fun node => nodes ++ [(name, node)] := by
  induction nodes with
  | nil =>
      rw [alter?]
      cases f none <;> rfl
  | cons entry nodes ih =>
      obtain ⟨other, node⟩ := entry
      rw [List.map_cons, List.mem_cons, not_or] at h
      rw [alter?, if_neg (Ne.symm h.1), ih h.2]
      cases f none <;> rfl

/-- What stands last under a name is replaced. -/
theorem alter?_append {f : Option Node → Option Node} {node : Node}
    (h : name ∉ nodes.map Prod.fst) :
    alter? name f (nodes ++ [(name, node)]) =
      (f (some node)).map fun node => nodes ++ [(name, node)] := by
  induction nodes with
  | nil =>
      rw [List.nil_append, alter?, if_pos rfl]
      cases f (some node) <;> rfl
  | cons entry nodes ih =>
      obtain ⟨other, node'⟩ := entry
      rw [List.map_cons, List.mem_cons, not_or] at h
      rw [List.cons_append, alter?, if_neg (Ne.symm h.1), ih h.2]
      cases f (some node) <;> rfl

theorem alterLast?_append {α : Type} {f : α → Option α} (as : List α) (a : α) :
    alterLast? f (as ++ [a]) = (f a).map fun a => as ++ [a] := by
  induction as with
  | nil =>
      rw [List.nil_append, alterLast?]
      cases f a <;> rfl
  | cons b as ih =>
      rw [List.cons_append, alterLast?, ih]
      · cases f a <;> rfl
      · simp

/-- The way to a table inside another one leads through that one. -/
theorem within?_append (made : Origin) (act : Origin → Nodes → Option Nodes) (key : List String)
    (name : String) (origin : Origin) (nodes : Nodes) :
    within? made act (key ++ [name]) origin nodes =
      within? made (fun origin nodes => within? made act [name] origin nodes) key origin nodes := by
  induction key generalizing origin nodes with
  | nil => rw [List.nil_append, within?.eq_def made _ []]
  | cons other key ih =>
      have ih' : within? made act (key ++ [name]) = within? made
          (fun origin nodes => within? made act [name] origin nodes) key :=
        funext fun origin => funext fun nodes => ih origin nodes
      rw [List.cons_append, within?, within?, ih']

/-- The document has a table under the key, with such entries, and is put together from what is made
of them. A table that is not there yet counts as empty. -/
def Shows (key : List String) (nodes : Nodes) (origin : Origin) (inner : Nodes)
    (put : Nodes → Nodes) : Prop :=
  ∀ act, within? .passage act key .header nodes = (act origin inner).map put

/-- The rest of a document around the table under a key. -/
def Context (key : List String) (origin : Origin) (put : Nodes → Nodes) : Prop :=
  ∀ inner, Shows key (put inner) origin inner put

theorem context_root : Context [] .header id := by
  intro inner act
  rw [within?, Option.map_id]
  rfl

theorem Shows.within_child (h : Shows key nodes origin inner put) (name : String)
    (act : Origin → Nodes → Option Nodes) :
    within? .passage act (key ++ [name]) .header nodes =
      (within? .passage act [name] origin inner).map put := by
  rw [within?_append, h]

/-- A table that is not there yet comes about on the way into it. -/
theorem Shows.child_new (h : Shows key nodes origin inner put) (hname : name ∉ inner.map Prod.fst) :
    Shows (key ++ [name]) nodes .passage []
      fun entries => put (inner ++ [(name, .table .passage entries)]) := by
  intro act
  rw [h.within_child, within?, alter?_of_not_mem hname]
  simp only [within?]
  cases act .passage [] <;> rfl

theorem Context.child (h : Context key origin put) (hname : name ∉ inner.map Prod.fst)
    (made : Origin) :
    Context (key ++ [name]) made fun entries => put (inner ++ [(name, .table made entries)]) := by
  intro entries act
  rw [(h _).within_child, within?, alter?_append hname]
  simp only [within?]
  rw [if_neg (by simp)]
  cases act made entries <;> rfl

/-- The way into an array of tables leads into its last element. -/
theorem Context.element (h : Context key origin put) (hname : name ∉ inner.map Prod.fst)
    (elements : List Nodes) :
    Context (key ++ [name]) .header
      fun entries => put (inner ++ [(name, .tables (elements ++ [entries]))]) := by
  intro entries act
  rw [(h _).within_child, within?, alter?_append hname]
  have hact : within? .passage act [] .header = act .header := funext fun nodes => by rw [within?]
  simp only [hact, alterLast?_append]
  cases act .header entries <;> rfl

/-! ### Statements -/

theorem openTable?_of_shows (h : Shows key nodes origin inner put)
    (hname : name ∉ inner.map Prod.fst) :
    openTable? (key ++ [name]) nodes = some (put (inner ++ [(name, .table .header [])])) := by
  rw [openTable?, List.getLast?_concat]
  dsimp only
  rw [List.dropLast_concat, h, alter?_of_not_mem hname]
  rfl

theorem openElement?_of_shows (h : Shows key nodes origin inner put)
    (hname : name ∉ inner.map Prod.fst) :
    openElement? (key ++ [name]) nodes = some (put (inner ++ [(name, .tables [[]])])) := by
  rw [openElement?, List.getLast?_concat]
  dsimp only
  rw [List.dropLast_concat, h, alter?_of_not_mem hname]
  rfl

theorem openElement?_append (h : Context key origin put) (hname : name ∉ inner.map Prod.fst)
    (elements : List Nodes) :
    openElement? (key ++ [name]) (put (inner ++ [(name, .tables elements)])) =
      some (put (inner ++ [(name, .tables (elements ++ [[]]))])) := by
  rw [openElement?, List.getLast?_concat]
  dsimp only
  rw [List.dropLast_concat, h, alter?_append hname]
  rfl

theorem addEntry?_of_not_mem (hname : name ∉ nodes.map Prod.fst) :
    addEntry? [name] v nodes = some (nodes ++ [(name, .leaf v)]) := by
  unfold addEntry?
  simp only [List.getLast?_singleton, List.dropLast_singleton, within?]
  rw [if_pos (by simp), alter?_of_not_mem hname]
  rfl

/-- An entry goes to the table of the last header. -/
theorem add?_entry (h : Context key origin put) (hname : name ∉ inner.map Prod.fst) (v : Value) :
    Reading.add? ⟨put inner, key⟩ (.entry [name] v) = some ⟨put (inner ++ [(name, .leaf v)]), key⟩ := by
  rw [Reading.add?]
  simp only [h _ _, addEntry?_of_not_mem hname]
  rfl

/-! ### The statements of a document -/

mutual

/-- The statements of the tables inside a value, from the value of the given key on. -/
def statementsOf (key : List String) : Value → List (Statement Value)
  | .table entries =>
    (if needsHeader entries then .header key :: plainStatements entries else []) ++
      statementsOfEntries key entries
  | .array items =>
    if (Value.array items).isPlain then [] else statementsOfElements key items
  | _ => []

/-- The statements of the tables inside the entries of a table. -/
def statementsOfEntries (key : List String) : Entries → List (Statement Value)
  | [] => []
  | (name, v) :: entries => statementsOf (key ++ [name]) v ++ statementsOfEntries key entries

/-- The statements of the elements of an array of tables. -/
def statementsOfElements (key : List String) : List Value → List (Statement Value)
  | [] => []
  | .table entries :: items =>
    .arrayHeader key :: plainStatements entries ++ statementsOfEntries key entries ++
      statementsOfElements key items
  | _ :: items => statementsOfElements key items

end

theorem statementsOf_of_isPlain (h : v.isPlain) (key : List String) : statementsOf key v = [] := by
  cases v with
  | table entries => simp [Value.isPlain, Value.entries?] at h
  | array items => rw [statementsOf, if_pos h]
  | _ => rw [statementsOf] <;> simp

/-- The nodes of plain entries. -/
def leaves (entries : Entries) : Nodes := (plainOf entries).map fun (name, v) => (name, .leaf v)

theorem toEntries_leaves (entries : Entries) : toEntries (leaves entries) = plainOf entries := by
  rw [leaves]
  induction plainOf entries with
  | nil => rw [List.map_nil, toEntries]
  | cons entry plain ih => rw [List.map_cons, toEntries, ih, Node.toValue]

theorem toEntries_append (nodes nodes' : Nodes) :
    toEntries (nodes ++ nodes') = toEntries nodes ++ toEntries nodes' := by
  induction nodes with
  | nil => rw [toEntries, List.nil_append, List.nil_append]
  | cons entry nodes ih =>
      obtain ⟨name, node⟩ := entry
      rw [List.cons_append, toEntries, ih, toEntries, List.cons_append]

theorem names_leaves (entries : Entries) :
    (leaves entries).map Prod.fst = (plainOf entries).map Prod.fst := by
  simp [leaves, Function.comp_def]

/-- The plain entries of a table are added one behind the other. -/
theorem foldlM_plainStatements {entries : Entries} (h : Context key origin put)
    (hnodup : (entries.map Prod.fst).Nodup) :
    (plainStatements entries).foldlM Reading.add? ⟨put [], key⟩ = some ⟨put (leaves entries), key⟩ := by
  have hfold : ∀ (plain : Entries) (inner : Nodes),
      (inner.map Prod.fst ++ plain.map Prod.fst).Nodup →
        (plain.map fun (name, v) => Statement.entry [name] v).foldlM Reading.add? ⟨put inner, key⟩ =
          some ⟨put (inner ++ plain.map fun (name, v) => (name, .leaf v)), key⟩ := by
    intro plain
    induction plain with
    | nil =>
        intro inner _
        rw [List.map_nil, List.map_nil, List.append_nil]
        rfl
    | cons entry plain ih =>
        intro inner hnodup
        obtain ⟨name, v⟩ := entry
        have hname : name ∉ inner.map Prod.fst := fun hmem =>
          (List.nodup_append.mp hnodup).2.2 name hmem name List.mem_cons_self rfl
        have ih' := ih (inner ++ [(name, .leaf v)]) (by simpa using hnodup)
        rw [List.map_cons, List.foldlM_cons, add?_entry h hname]
        simpa using ih'
  have hplain : ((plainOf entries).map Prod.fst).Nodup :=
    hnodup.sublist (List.filter_sublist.map _)
  exact hfold (plainOf entries) [] (by simpa using hplain)

/-! ### Growth -/

variable {entries : Entries} {items : List Value} {current : List String}

/-- The statements of a value that is not plain add it to the table around it. -/
def Grows (v : Value) : Prop :=
  ∀ {key name nodes origin inner put}, Shows key nodes origin inner put → Context key origin put →
    name ∉ inner.map Prod.fst → ¬ v.isPlain → ∀ current, ∃ node current',
      (statementsOf (key ++ [name]) v).foldlM Reading.add? ⟨nodes, current⟩ =
          some ⟨put (inner ++ [(name, node)]), current'⟩ ∧
        node.toValue = v.asWritten

/-- The tables of a table are added one behind the other. If there are none, the document stays as
it is. -/
theorem exists_foldlM_statementsOfEntries (hgrows : ∀ entry ∈ entries, Grows entry.2)
    (hnodup : (entries.map Prod.fst).Nodup) (hshows : Shows key nodes origin inner put)
    (hcontext : Context key origin put)
    (hnew : ∀ entry ∈ entries, ¬ entry.2.isPlain → entry.1 ∉ inner.map Prod.fst)
    (current : List String) :
    ∃ nodes' more current',
      (statementsOfEntries key entries).foldlM Reading.add? ⟨nodes, current⟩ =
          some ⟨nodes', current'⟩ ∧
        toEntries more = tablesAsWritten entries ∧
        (more = [] ∧ nodes' = nodes ∨ nodes' = put (inner ++ more)) := by
  induction entries generalizing nodes inner current with
  | nil =>
      refine ⟨nodes, [], current, ?_, ?_, Or.inl ⟨rfl, rfl⟩⟩
      · rw [statementsOfEntries]
        rfl
      · rw [toEntries, tablesAsWritten]
  | cons entry entries ih =>
      obtain ⟨name, v⟩ := entry
      rw [List.map_cons, List.nodup_cons] at hnodup
      have hgrows' : ∀ entry ∈ entries, Grows entry.2 :=
        fun entry hentry => hgrows entry (List.mem_cons_of_mem _ hentry)
      rw [statementsOfEntries, tablesAsWritten]
      by_cases hplain : v.isPlain
      · rw [statementsOf_of_isPlain hplain, List.nil_append, if_pos hplain]
        exact ih hgrows' hnodup.2 hshows
          (fun entry hentry => hnew entry (List.mem_cons_of_mem _ hentry)) current
      · obtain ⟨node, current₁, hfold, hvalue⟩ := hgrows _ List.mem_cons_self hshows hcontext
          (hnew _ List.mem_cons_self hplain) hplain current
        have hnew' : ∀ entry ∈ entries, ¬ entry.2.isPlain →
            entry.1 ∉ (inner ++ [(name, node)]).map Prod.fst := by
          intro entry hentry hentry'
          rw [List.map_append, List.mem_append, not_or]
          refine ⟨hnew entry (List.mem_cons_of_mem _ hentry) hentry', fun hmem => ?_⟩
          rw [List.map_singleton, List.mem_singleton] at hmem
          exact hnodup.1 (hmem ▸ List.mem_map_of_mem hentry)
        obtain ⟨nodes', more, current', hfold', hmore, hnodes'⟩ :=
          ih hgrows' hnodup.2 (hcontext _) hnew' current₁
        refine ⟨nodes', (name, node) :: more, current', ?_, ?_, Or.inr ?_⟩
        · rw [List.foldlM_append, hfold]
          exact hfold'
        · rw [toEntries, hmore, hvalue, if_neg hplain]
        · rcases hnodes' with ⟨rfl, rfl⟩ | rfl
          · rfl
          · rw [List.append_assoc]
            rfl

/-- The entries of a table that has just got its header, and the tables in it. -/
theorem exists_foldlM_table (hgrows : ∀ entry ∈ entries, Grows entry.2)
    (hnodup : (entries.map Prod.fst).Nodup) (hcontext : Context key origin put) :
    ∃ inner current',
      (plainStatements entries ++ statementsOfEntries key entries).foldlM Reading.add?
          ⟨put [], key⟩ = some ⟨put inner, current'⟩ ∧
        toEntries inner = entriesAsWritten entries := by
  have hnew : ∀ entry ∈ entries, ¬ entry.2.isPlain → entry.1 ∉ (leaves entries).map Prod.fst := by
    intro entry hentry hentry' hmem
    rw [names_leaves] at hmem
    obtain ⟨other, hother, hname⟩ := List.mem_map.mp hmem
    obtain ⟨hother, hplain⟩ := List.mem_filter.mp hother
    have heq := List.inj_on_of_nodup_map hnodup hother hentry hname
    exact hentry' (heq ▸ hplain)
  obtain ⟨nodes', more, current', hfold, hmore, hnodes'⟩ :=
    exists_foldlM_statementsOfEntries hgrows hnodup (hcontext _) hcontext hnew key
  refine ⟨leaves entries ++ more, current', ?_, ?_⟩
  · rw [List.foldlM_append, foldlM_plainStatements hcontext hnodup]
    refine hfold.trans ?_
    rcases hnodes' with ⟨rfl, rfl⟩ | rfl
    · rw [List.append_nil]
    · rfl
  · rw [toEntries_append, toEntries_leaves, hmore, entriesAsWritten]

theorem grows_table (hgrows : ∀ entry ∈ entries, Grows entry.2)
    (hnodup : (entries.map Prod.fst).Nodup) : Grows (.table entries) := by
  intro key name nodes origin inner put hshows hcontext hname _ current
  rw [statementsOf, asWritten_table]
  by_cases hheader : needsHeader entries
  · obtain ⟨more, current', hfold, hmore⟩ :=
      exists_foldlM_table hgrows hnodup (hcontext.child hname .header)
    refine ⟨.table .header more, current', ?_, by rw [Node.toValue, hmore]⟩
    rw [if_pos hheader, List.cons_append, List.foldlM_cons, Reading.add?,
      openTable?_of_shows hshows hname]
    exact hfold
  · -- The table comes about by the header of the first table inside it.
    obtain ⟨nodes', more, current', hfold, hmore, hnodes'⟩ :=
      exists_foldlM_statementsOfEntries hgrows hnodup (hshows.child_new hname)
        (hcontext.child hname .passage) (fun _ _ _ h => by cases h) current
    have hplain : plainOf entries = [] := by
      rw [plainOf, List.filter_eq_nil_iff]
      intro entry hentry hplain
      exact hheader (by rw [needsHeader, Bool.or_eq_true, List.any_eq_true]
                        exact Or.inr ⟨entry, hentry, hplain⟩)
    have hne : more ≠ [] := by
      rintro rfl
      cases entries with
      | nil => exact hheader rfl
      | cons entry entries =>
          obtain ⟨other, v⟩ := entry
          have hv : ¬ v.isPlain := fun h => by simp [plainOf_cons_of_isPlain h] at hplain
          rw [tablesAsWritten, if_neg hv, toEntries] at hmore
          cases hmore
    refine ⟨.table .passage more, current', ?_, ?_⟩
    · rw [if_neg hheader, List.nil_append, hfold]
      rcases hnodes' with ⟨hnil, -⟩ | rfl
      · exact absurd hnil hne
      · rfl
    · rw [Node.toValue, hmore, entriesAsWritten, hplain, List.nil_append]

/-- The elements of an array of tables are added one behind the other. -/
theorem exists_foldlM_statementsOfElements {nodes : Nodes} {elements : List Nodes}
    (htables : ∀ v ∈ items, ∃ entries, v = .table entries ∧ (entries.map Prod.fst).Nodup ∧
      ∀ entry ∈ entries, Grows entry.2)
    (hcontext : Context key origin put) (hname : name ∉ inner.map Prod.fst) (hne : items ≠ [])
    (hopen : openElement? (key ++ [name]) nodes =
      some (put (inner ++ [(name, .tables (elements ++ [[]]))]))) (current : List String) :
    ∃ more current',
      (statementsOfElements (key ++ [name]) items).foldlM Reading.add? ⟨nodes, current⟩ =
          some ⟨put (inner ++ [(name, .tables (elements ++ more))]), current'⟩ ∧
        toTables more = itemsAsWritten items := by
  induction items generalizing nodes elements current with
  | nil => exact absurd rfl hne
  | cons v items ih =>
      obtain ⟨entries, rfl, hnodup, hgrows⟩ := htables v List.mem_cons_self
      obtain ⟨first, current₁, hfold, hfirst⟩ :=
        exists_foldlM_table hgrows hnodup (hcontext.element hname elements)
      have hfold₁ : (.arrayHeader (key ++ [name]) :: plainStatements entries ++
          statementsOfEntries (key ++ [name]) entries).foldlM Reading.add? ⟨nodes, current⟩ =
            some ⟨put (inner ++ [(name, .tables (elements ++ [first]))]), current₁⟩ := by
        rw [List.cons_append, List.foldlM_cons, Reading.add?, hopen]
        exact hfold
      rw [statementsOfElements, itemsAsWritten, asWritten_table, List.foldlM_append, hfold₁]
      cases items with
      | nil =>
          refine ⟨[first], current₁, ?_, ?_⟩
          · rw [statementsOfElements]
            rfl
          · rw [toTables, toTables, hfirst, itemsAsWritten]
      | cons w items =>
          obtain ⟨more, current', hfold', hmore⟩ := ih
            (fun v hv => htables v (List.mem_cons_of_mem _ hv)) (by simp)
            (openElement?_append hcontext hname (elements ++ [first])) current₁
          refine ⟨first :: more, current', ?_, by rw [toTables, hfirst, hmore]⟩
          rw [List.append_assoc] at hfold'
          exact hfold'

theorem grows_tables (htables : ∀ v ∈ items, ∃ entries, v = .table entries ∧
    (entries.map Prod.fst).Nodup ∧ ∀ entry ∈ entries, Grows entry.2) : Grows (.array items) := by
  intro key name nodes origin inner put hshows hcontext hname hplain current
  have hne : items ≠ [] := by
    rintro rfl
    exact hplain rfl
  have hopen : openElement? (key ++ [name]) nodes =
      some (put (inner ++ [(name, .tables ([] ++ [[]]))])) := openElement?_of_shows hshows hname
  obtain ⟨more, current', hfold, hmore⟩ :=
    exists_foldlM_statementsOfElements htables hcontext hname hne hopen current
  refine ⟨.tables more, current', ?_, ?_⟩
  · rw [statementsOf, if_neg hplain]
    exact hfold
  · rw [Node.toValue, Value.asWritten, if_neg hplain, hmore]

end BracketPaint.Toml
