import BracketPaint.Proofs.FlatValues
import BracketPaint.Proofs.Written
/-!
# Written lines

The lines of a written document are read back as statements: an entry for each plain value, and a
header for each table that needs one.

Since every line ends with a break, the block of a table is read as its statements whatever follows
it (`Reads`). So the blocks of a document are read one behind the other (`ReadsAll`), and the empty
lines between them say nothing.
-/

namespace BracketPaint.Toml

variable {α : Type} {c : Char} {cs rest : List Char} {item : List Char → Option (α × List Char)}

/-! ### Names and keys -/

/-- What stands behind a name cannot be taken for a part of it. -/
def EndsName (rest : List Char) : Prop := rest.head?.all (!isBareChar ·)

theorem isSolid_of_isBareChar (h : isBareChar c) : IsSolid c ∧ c ≠ '[' ∧ c ≠ '"' ∧ c ≠ '\'' := by
  have hscalar : isScalarChar c := by
    rw [isBareChar, Bool.or_eq_true, Bool.or_eq_true] at h
    rcases h with (h | h) | h <;> simp [isScalarChar, h]
  refine ⟨(isSolid_of_isScalarChar hscalar).1, ?_, ?_, ?_⟩
  all_goals
    rintro rfl
    exact absurd h (by decide)

/-- A written name starts with something that is no bracket. -/
theorem exists_renderName (name : String) :
    ∃ c more, renderName name = c :: more ∧ IsSolid c ∧ c ≠ '[' := by
  rw [renderName]
  split
  · rename_i h
    rw [Bool.and_eq_true, List.all_eq_true] at h
    cases hcs : name.toList with
    | nil =>
        have hname : name = "" := by
          rw [← String.toList_inj, hcs]
          rfl
        rw [hname] at h
        exact absurd h.1 (by decide)
    | cons c cs =>
        obtain ⟨hsolid, hbracket, -⟩ := isSolid_of_isBareChar (h.2 c (hcs ▸ List.mem_cons_self))
        exact ⟨c, cs, rfl, hsolid, hbracket⟩
  · exact ⟨'"', _, rfl, by decide, by decide⟩

theorem name?_of_isBareChar (h : isBareChar c) :
    name? (c :: cs) =
      some (String.ofList ((c :: cs).takeWhile isBareChar), (c :: cs).dropWhile isBareChar) := by
  obtain ⟨-, -, hquote, hapostrophe⟩ := isSolid_of_isBareChar h
  rw [name?.eq_def]
  split
  · rename_i heq
    cases heq
    exact absurd rfl hquote
  · rename_i heq
    cases heq
    exact absurd rfl hapostrophe
  · rw [if_neg (by simp [h])]

theorem name?_renderName (name : String) (hrest : EndsName rest) :
    name? (renderName name ++ rest) = some (name, rest) := by
  rw [renderName]
  split
  · rename_i h
    rw [Bool.and_eq_true, List.all_eq_true] at h
    obtain ⟨htake, hdrop⟩ := takeWhile_dropWhile_append h.2 hrest
    have hname : String.ofList name.toList = name := String.ofList_toList
    cases hcs : name.toList with
    | nil =>
        have hempty : name = "" := by rw [← hname, hcs]
        rw [hempty] at h
        exact absurd h.1 (by decide)
    | cons c cs =>
        rw [hcs] at htake hdrop hname
        rw [List.cons_append, name?_of_isBareChar (h.2 c (hcs ▸ List.mem_cons_self)),
          ← List.cons_append, htake, hdrop, hname]
  · have henclose : enclose "\"" false (name.toList.flatMap escaped) ++ rest =
        '"' :: (name.toList.flatMap escaped ++ '"' :: rest) := by simp [enclose]
    rw [henclose, name?, basic?_flatMap_escaped]
    simp

theorem renderKey_singleton (name : String) : renderKey [name] = renderName name := by
  simp [renderKey, List.intercalate]

theorem renderKey_cons_cons (name next : String) (key : List String) :
    renderKey (name :: next :: key) = renderName name ++ '.' :: renderKey (next :: key) := by
  simp [renderKey, List.intercalate]

theorem skipSpaces_renderName (name : String) :
    skipSpaces (renderName name ++ rest) = renderName name ++ rest := by
  obtain ⟨c, more, heq, hsolid, -⟩ := exists_renderName name
  rw [heq, List.cons_append, skipSpaces_of_isSolid hsolid]

/-- A key is read back, up to what is behind it and the blanks after it. -/
theorem names?_renderKey {key : List String} (hkey : key ≠ []) (hrest : EndsName rest)
    (hdot : (skipSpaces rest).head? ≠ some '.') :
    names? (renderKey key ++ rest) = some (key, skipSpaces rest) := by
  induction key with
  | nil => exact absurd rfl hkey
  | cons name key ih =>
      cases key with
      | nil =>
          rw [renderKey_singleton, names?, skipSpaces_renderName, name?_renderName name hrest]
          dsimp only
          split
          · rename_i heq
            rw [heq] at hdot
            exact absurd rfl hdot
          · rfl
      | cons next key =>
          have hends : EndsName ('.' :: (renderKey (next :: key) ++ rest)) := rfl
          rw [renderKey_cons_cons, List.append_assoc, List.cons_append, names?,
            skipSpaces_renderName, name?_renderName name hends]
          dsimp only
          rw [skipSpaces_of_isSolid (by decide)]
          simp only [ih (by simp)]
          rw [dif_pos (by simp; omega)]
          rfl

theorem key?_renderKey {key : List String} (hkey : key ≠ []) (hlength : key.length < nestingLimit)
    (hrest : EndsName rest) (hdot : (skipSpaces rest).head? ≠ some '.') :
    key? (renderKey key ++ rest) = some (key, skipSpaces rest) := by
  rw [key?, names?_renderKey hkey hrest hdot]
  simp [hlength]

/-! ### Lines -/

theorem startsStatement_of_isSolid (h : IsSolid c) : startsStatement (c :: cs) := by
  obtain ⟨-, hnewline, hreturn, hcomment⟩ := h
  simp [startsStatement, hnewline, hreturn, hcomment]

theorem statement?_of_ne (h : c ≠ '[') :
    statement? item (c :: cs) =
      (pair? item (c :: cs)).map fun ((key, value), rest) => (.entry key value, rest) := by
  rw [statement?.eq_def]
  split
  · rename_i heq
    cases heq
    exact absurd rfl h
  · rename_i heq
    cases heq
    exact absurd rfl h
  · rfl

/-- A line is read with the statement on it. -/
theorem line?_of_statement? {statement : Statement α} (hsolid : IsSolid c)
    (h : statement? item (c :: cs) = some (statement, '\n' :: rest)) :
    line? item (c :: cs) = some ([statement], rest) := by
  rw [line?, skipSpaces_of_isSolid hsolid, if_pos (startsStatement_of_isSolid hsolid), h]
  rfl

/-- An entry is read back if its value is. -/
theorem line?_entry (name : String) {x : List Char} {a : α} (hstarts : StartsItem x)
    (hitem : item (x ++ '\n' :: rest) = some (a, '\n' :: rest)) :
    line? item (renderName name ++ " = ".toList ++ x ++ '\n' :: rest) =
      some ([.entry [name] a], rest) := by
  obtain ⟨c, more, heq, hsolid, hbracket⟩ := exists_renderName name
  have hline : renderName name ++ " = ".toList ++ x ++ '\n' :: rest =
      renderName name ++ (' ' :: '=' :: ' ' :: (x ++ '\n' :: rest)) := by simp
  have hends : EndsName (' ' :: '=' :: ' ' :: (x ++ '\n' :: rest)) := rfl
  have hkey : key? (renderName name ++ (' ' :: '=' :: ' ' :: (x ++ '\n' :: rest))) =
      some ([name], '=' :: ' ' :: (x ++ '\n' :: rest)) := by
    rw [← renderKey_singleton]
    exact key?_renderKey (by simp) (by simp [nestingLimit]) hends (by simp [skipSpaces, isSpace])
  have hvalue : skipSpaces (' ' :: (x ++ '\n' :: rest)) = x ++ '\n' :: rest := by
    obtain ⟨d, more, rfl, hsolid, -⟩ := hstarts
    rw [skipSpaces, List.dropWhile_cons_of_pos rfl]
    exact skipSpaces_of_isSolid hsolid
  have hpair : pair? item (renderName name ++ (' ' :: '=' :: ' ' :: (x ++ '\n' :: rest))) =
      some (([name], a), '\n' :: rest) := by
    rw [pair?, hkey]
    simp [hvalue, hitem]
  rw [heq, List.cons_append] at hpair
  rw [hline, heq, List.cons_append]
  refine line?_of_statement? hsolid ?_
  rw [statement?_of_ne hbracket, hpair]
  rfl

theorem exists_renderKey {key : List String} (hkey : key ≠ []) :
    ∃ c more, renderKey key = c :: more ∧ IsSolid c ∧ c ≠ '[' := by
  cases key with
  | nil => exact absurd rfl hkey
  | cons name key =>
      obtain ⟨c, more, heq, hc⟩ := exists_renderName name
      cases key with
      | nil => exact ⟨c, more, by rw [renderKey_singleton, heq], hc⟩
      | cons next key => exact ⟨c, _, by rw [renderKey_cons_cons, heq]; rfl, hc⟩

/-- The header of a table is read back. -/
theorem line?_header {key : List String} (hkey : key ≠ []) (hlength : key.length < nestingLimit) :
    line? item ('[' :: (renderKey key ++ ']' :: '\n' :: rest)) = some ([.header key], rest) := by
  refine line?_of_statement? (by decide) ?_
  have hread : key? (renderKey key ++ ']' :: '\n' :: rest) = some (key, ']' :: '\n' :: rest) :=
    key?_renderKey hkey hlength rfl (by simp [skipSpaces, isSpace])
  obtain ⟨c, more, heq, -, hbracket⟩ := exists_renderKey hkey
  rw [heq, List.cons_append] at hread ⊢
  rw [statement?.eq_def]
  split
  · rename_i heq'
    cases heq'
    exact absurd rfl hbracket
  · rename_i heq'
    cases heq'
    rw [hread]
    rfl
  · rename_i h
    exact (h _ rfl).elim

/-- The header of an element of an array is read back. -/
theorem line?_arrayHeader {key : List String} (hkey : key ≠ []) (hlength : key.length < nestingLimit) :
    line? item ('[' :: '[' :: (renderKey key ++ ']' :: ']' :: '\n' :: rest)) =
      some ([.arrayHeader key], rest) := by
  refine line?_of_statement? (by decide) ?_
  have hread : key? (renderKey key ++ ']' :: ']' :: '\n' :: rest) =
      some (key, ']' :: ']' :: '\n' :: rest) :=
    key?_renderKey hkey hlength rfl (by simp [skipSpaces, isSpace])
  rw [statement?, hread]
  rfl

/-! ### Statements -/

/-- The text is read as the statements, whatever follows it. -/
def Reads (item : List Char → Option (α × List Char)) (cs : List Char)
    (statements : List (Statement α)) : Prop :=
  ∀ rest, statements? item (cs ++ rest) = (statements? item rest).map (statements ++ ·)

theorem reads_nil : Reads item [] [] := fun rest => by simp

theorem Reads.append {cs' : List Char} {s s' : List (Statement α)} (h : Reads item cs s)
    (h' : Reads item cs' s') : Reads item (cs ++ cs') (s ++ s') := by
  intro rest
  rw [List.append_assoc, h, h', Option.map_map]
  simp [Function.comp_def]

theorem statements?_of_line? {s : List (Statement α)} (h : line? item cs = some (s, rest))
    (hlt : rest.length < cs.length) :
    statements? item cs = (statements? item rest).map (s ++ ·) := by
  cases cs with
  | nil => exact absurd hlt (Nat.not_lt_zero _)
  | cons c cs =>
      rw [statements?, h]
      dsimp only
      rw [dif_pos hlt]

theorem reads_of_line? {s : List (Statement α)}
    (h : ∀ rest, line? item (cs ++ '\n' :: rest) = some (s, rest)) :
    Reads item (cs ++ ['\n']) s := by
  intro rest
  rw [List.append_assoc, List.singleton_append]
  exact statements?_of_line? (h rest) (by simp; omega)

theorem reads_newline : Reads item ['\n'] [] := by
  have h : Reads item ([] ++ ['\n']) [] := reads_of_line? fun _ => rfl
  exact h

/-- The texts are read as the statements, one behind the other. -/
inductive ReadsAll (item : List Char → Option (α × List Char)) :
    List (List Char) → List (Statement α) → Prop
  | nil : ReadsAll item [] []
  | cons {cs : List Char} {blocks : List (List Char)} {s s' : List (Statement α)}
      (h : Reads item cs s) (hrest : ReadsAll item blocks s') : ReadsAll item (cs :: blocks) (s ++ s')

theorem ReadsAll.append {blocks blocks' : List (List Char)} {s s' : List (Statement α)}
    (h : ReadsAll item blocks s) (h' : ReadsAll item blocks' s') :
    ReadsAll item (blocks ++ blocks') (s ++ s') := by
  induction h with
  | nil => exact h'
  | cons h _ ih =>
      rw [List.cons_append, List.append_assoc]
      exact .cons h ih

/-- The empty lines between the blocks of a document say nothing. -/
theorem ReadsAll.intercalate {blocks : List (List Char)} {s : List (Statement α)}
    (h : ReadsAll item blocks s) : Reads item (['\n'].intercalate blocks) s := by
  induction h with
  | nil => exact reads_nil
  | @cons cs blocks s s' h hrest ih =>
      cases hrest with
      | nil => simpa [List.intercalate] using h
      | cons h' hrest' =>
          have hnext := h.append (reads_newline.append ih)
          simpa [List.intercalate] using hnext

/-! ### Blocks -/

variable {depth : Nat} {entries : Entries}

/-- The statements of plain entries. -/
def plainStatements (entries : Entries) : List (Statement Value) :=
  (plainOf entries).map fun (name, v) => .entry [name] v

/-- The plain entries of a table can be read back. -/
def PlainFlat (depth : Nat) (entries : Entries) : Prop :=
  ∀ entry ∈ entries, entry.2.isPlain → entry.2.Flat depth

theorem renderPairs_eq_map (entries : Entries) :
    renderPairs entries =
      entries.map fun (name, v) => renderName name ++ " = ".toList ++ renderValue v := by
  induction entries with
  | nil => rw [renderPairs, List.map_nil]
  | cons entry entries ih =>
      obtain ⟨name, v⟩ := entry
      rw [renderPairs, ih, List.map_cons]

theorem reads_renderPlain (h : PlainFlat depth entries) :
    Reads (value? depth) (renderPlain entries) (plainStatements entries) := by
  have hflat : ∀ entry ∈ plainOf entries, entry.2.Flat depth := by
    intro entry hentry
    obtain ⟨hmem, hplain⟩ := List.mem_filter.mp hentry
    exact h entry hmem hplain
  rw [renderPlain, renderPairs_eq_map, plainStatements]
  show Reads _ (List.flatMap _ (List.map _ (plainOf entries))) _
  generalize plainOf entries = plain at hflat
  induction plain with
  | nil => exact reads_nil
  | cons entry plain ih =>
      obtain ⟨name, v⟩ := entry
      have hv := hflat (name, v) List.mem_cons_self
      have hline : Reads (value? depth) (renderName name ++ " = ".toList ++ renderValue v ++ ['\n'])
          [.entry [name] v] :=
        reads_of_line? fun rest => line?_entry name hv.startsItem
          (value?_renderValue hv ⟨'\n', rest, rfl, Or.inl rfl⟩)
      exact hline.append (ih fun entry hentry => hflat entry (List.mem_cons_of_mem _ hentry))

variable {key : List String}

/-- The block of a table is read back if its header is. -/
theorem reads_renderBlock {opening closing : String} {header : Statement Value}
    (hplain : PlainFlat depth entries)
    (hheader : ∀ rest, line? (value? depth)
      (opening.toList ++ renderKey key ++ closing.toList ++ '\n' :: rest) = some ([header], rest)) :
    Reads (value? depth) (renderBlock opening closing key entries)
      (header :: plainStatements entries) := by
  have hblock := (reads_of_line? hheader).append (reads_renderPlain hplain)
  simpa [renderBlock] using hblock

theorem reads_block (hplain : PlainFlat depth entries) (hkey : key ≠ [])
    (hlength : key.length < nestingLimit) :
    Reads (value? depth) (renderBlock "[" "]" key entries)
      (.header key :: plainStatements entries) := by
  refine reads_renderBlock hplain fun rest => ?_
  have hline : line? (value? depth) ('[' :: (renderKey key ++ ']' :: '\n' :: rest)) = _ :=
    line?_header hkey hlength
  simpa using hline

theorem reads_arrayBlock (hplain : PlainFlat depth entries) (hkey : key ≠ [])
    (hlength : key.length < nestingLimit) :
    Reads (value? depth) (renderBlock "[[" "]]" key entries)
      (.arrayHeader key :: plainStatements entries) := by
  refine reads_renderBlock hplain fun rest => ?_
  have hline : line? (value? depth)
      ('[' :: '[' :: (renderKey key ++ ']' :: ']' :: '\n' :: rest)) = _ :=
    line?_arrayHeader hkey hlength
  simpa using hline

end BracketPaint.Toml
