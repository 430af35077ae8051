import BracketPaint.Toml.Document
/-!
# Integers of documents

Every integer that is read from a document has 64 bits, wherever it stands (`fits_of_read?`).

The reader of scalars sees to that. All other readers pass on what the reader of items gives
(`Yields`), and the statements of a document move the values that they bring into its tables and
change none (`KeepsFit`).
-/

namespace BracketPaint.Toml

variable {α : Type} {P : α → Prop} {item : List Char → Option (α × List Char)}
variable {cs rest : List Char}

/-- All integers in the value have 64 bits. -/
inductive Value.Fits : Value → Prop
  | string (text : String) : Fits (.string text)
  | integer {k : Int} (h : fits k) : Fits (.integer k)
  | float (written : String) : Fits (.float written)
  | boolean (b : Bool) : Fits (.boolean b)
  | dateTime (written : String) : Fits (.dateTime written)
  | array {items : List Value} (h : ∀ v ∈ items, Fits v) : Fits (.array items)
  | table {entries : Entries} (h : ∀ entry ∈ entries, Fits entry.2) : Fits (.table entries)

/-- All that a reader gives has the property. -/
def Yields (item : List Char → Option (α × List Char)) (P : α → Prop) : Prop :=
  ∀ cs a rest, item cs = some (a, rest) → P a

/-! ### Lists of items -/

theorem forall_of_items? (hitem : Yields item P) {as : List α}
    (h : items? item cs = some (as, rest)) : ∀ a ∈ as, P a := by
  fun_induction items? item cs generalizing as rest with
  | case1 =>
      cases h
      exact List.forall_mem_nil _
  | case2 => cases h
  | case3 =>
      rename_i hread ih
      obtain ⟨⟨more, after⟩, hmore, heq⟩ := Option.map_eq_some_iff.mp h
      cases heq
      exact List.forall_mem_cons.mpr ⟨hitem _ _ _ hread, ih hmore⟩
  | case4 => cases h
  | case5 =>
      rename_i hread
      cases h
      exact List.forall_mem_singleton.mpr (hitem _ _ _ hread)
  | case6 => cases h

theorem yields_pair? (hitem : Yields item P) : Yields (pair? item) fun pair => P pair.2 := by
  intro cs pair rest h
  obtain ⟨⟨key, after⟩, -, h⟩ := Option.bind_eq_some_iff.mp h
  dsimp only at h
  split at h
  · obtain ⟨⟨a, after'⟩, ha, h⟩ := Option.bind_eq_some_iff.mp h
    cases h
    exact hitem _ _ _ ha
  · cases h

theorem forall_of_pairs? (hitem : Yields item P) {pairs : List (List String × α)}
    (h : pairs? item cs = some (pairs, rest)) : ∀ pair ∈ pairs, P pair.2 := by
  fun_induction pairs? item cs generalizing pairs rest with
  | case1 => cases h
  | case2 =>
      rename_i hread _ _ _ ih
      obtain ⟨⟨more, after⟩, hmore, heq⟩ := Option.map_eq_some_iff.mp h
      cases heq
      exact List.forall_mem_cons.mpr ⟨yields_pair? hitem _ _ _ hread, ih hmore⟩
  | case3 => cases h
  | case4 =>
      rename_i hread _ _
      cases h
      exact List.forall_mem_singleton.mpr (yields_pair? hitem _ _ _ hread)
  | case5 => cases h

theorem forall_of_inlinePairs? (hitem : Yields item P) {pairs : List (List String × α)}
    (h : inlinePairs? item cs = some (pairs, rest)) : ∀ pair ∈ pairs, P pair.2 := by
  unfold inlinePairs? at h
  split at h
  · cases h
    exact List.forall_mem_nil _
  · exact forall_of_pairs? hitem h

/-! ### Statements -/

/-- What a statement writes behind a key has the property. -/
def Statement.Forall (P : α → Prop) : Statement α → Prop
  | entry _ a => P a
  | header _ | arrayHeader _ => True

theorem yields_statement? (hitem : Yields item P) :
    Yields (statement? item) (Statement.Forall P) := by
  intro cs statement rest h
  unfold statement? at h
  split at h
  · obtain ⟨_, -, h⟩ := Option.bind_eq_some_iff.mp h
    split at h
    · cases h
      trivial
    · cases h
  · obtain ⟨_, -, h⟩ := Option.bind_eq_some_iff.mp h
    split at h
    · cases h
      trivial
    · cases h
  · obtain ⟨⟨⟨key, a⟩, after⟩, hread, heq⟩ := Option.map_eq_some_iff.mp h
    cases heq
    exact yields_pair? hitem _ _ _ hread

theorem yields_line? (hitem : Yields item P) :
    Yields (line? item) fun statements => ∀ s ∈ statements, s.Forall P := by
  intro cs statements rest h
  unfold line? at h
  split at h
  · obtain ⟨⟨statement, after⟩, hread, h⟩ := Option.bind_eq_some_iff.mp h
    obtain ⟨_, -, h⟩ := Option.bind_eq_some_iff.mp h
    cases h
    exact List.forall_mem_singleton.mpr (yields_statement? hitem _ _ _ hread)
  · obtain ⟨_, -, h⟩ := Option.bind_eq_some_iff.mp h
    cases h
    exact List.forall_mem_nil _

theorem forall_of_statements? (hitem : Yields item P) {statements : List (Statement α)}
    (h : statements? item cs = some statements) : ∀ s ∈ statements, s.Forall P := by
  fun_induction statements? item cs generalizing statements with
  | case1 =>
      cases h
      exact List.forall_mem_nil _
  | case2 => cases h
  | case3 =>
      rename_i hread _ ih
      obtain ⟨more, hmore, rfl⟩ := Option.map_eq_some_iff.mp h
      exact List.forall_mem_append.mpr ⟨yields_line? hitem _ _ _ hread, ih hmore⟩
  | case4 => cases h

/-! ### Growing documents -/

section Growing

variable {nodes nodes' : Nodes} {key : List String} {name : String} {v : Value}

/-- All integers in the part of a document have 64 bits. -/
inductive Node.Fits : Node → Prop
  | leaf {v : Value} (h : v.Fits) : Fits (.leaf v)
  | table (origin : Origin) {nodes : Nodes} (h : ∀ entry ∈ nodes, Fits entry.2) :
      Fits (.table origin nodes)
  | tables {elements : List Nodes} (h : ∀ nodes ∈ elements, ∀ entry ∈ nodes, Fits entry.2) :
      Fits (.tables elements)

/-- All integers in the parts of a table have 64 bits. -/
def NodesFit (nodes : Nodes) : Prop := ∀ entry ∈ nodes, entry.2.Fits

theorem nodesFit_nil : NodesFit [] := List.forall_mem_nil _

/-- The change of a table leaves its integers with 64 bits. -/
def KeepsFit (act : Nodes → Option Nodes) : Prop :=
  ∀ nodes nodes', NodesFit nodes → act nodes = some nodes' → NodesFit nodes'

/-- The change of a node leaves its integers with 64 bits, and so does the making of one. -/
def MakesFit (f : Option Node → Option Node) : Prop :=
  ∀ node? node, (∀ node ∈ node?, node.Fits) → f node? = some node → node.Fits

theorem keepsFit_alter? {f : Option Node → Option Node} (hf : MakesFit f) :
    KeepsFit (alter? name f) := by
  intro nodes
  induction nodes with
  | nil =>
      intro nodes' _ h
      obtain ⟨node, hnode, h⟩ := Option.bind_eq_some_iff.mp h
      cases h
      exact List.forall_mem_singleton.mpr (hf none node nofun hnode)
  | cons entry nodes ih =>
      obtain ⟨other, node⟩ := entry
      intro nodes' hnodes h
      obtain ⟨hfirst, hlater⟩ := List.forall_mem_cons.mp hnodes
      rw [alter?] at h
      split at h
      · obtain ⟨node', hnode', h⟩ := Option.bind_eq_some_iff.mp h
        cases h
        refine List.forall_mem_cons.mpr ⟨hf (some node) node' ?_ hnode', hlater⟩
        rintro _ ⟨⟩
        exact hfirst
      · obtain ⟨later, hread, h⟩ := Option.bind_eq_some_iff.mp h
        cases h
        exact List.forall_mem_cons.mpr ⟨hfirst, ih later hlater hread⟩

theorem forall_of_alterLast? {f : α → Option α} (hf : ∀ a b, P a → f a = some b → P b)
    {as bs : List α} (has : ∀ a ∈ as, P a) (h : alterLast? f as = some bs) : ∀ b ∈ bs, P b := by
  fun_induction alterLast? f as generalizing bs with
  | case1 => cases h
  | case2 a =>
      obtain ⟨b, hb, h⟩ := Option.bind_eq_some_iff.mp h
      cases h
      exact List.forall_mem_singleton.mpr (hf a b (has a List.mem_cons_self) hb)
  | case3 a as _ ih =>
      obtain ⟨hfirst, hlater⟩ := List.forall_mem_cons.mp has
      obtain ⟨more, hmore, h⟩ := Option.bind_eq_some_iff.mp h
      cases h
      exact List.forall_mem_cons.mpr ⟨hfirst, ih hlater hmore⟩

theorem keepsFit_within? {made : Origin} {act : Origin → Nodes → Option Nodes}
    (hact : ∀ origin, KeepsFit (act origin)) (key : List String) (origin : Origin) :
    KeepsFit (within? made act key origin) := by
  induction key generalizing origin with
  | nil => exact hact origin
  | cons name key ih =>
      refine keepsFit_alter? fun node? node hnode h => ?_
      match node? with
      | none =>
          obtain ⟨inner, hinner, h⟩ := Option.bind_eq_some_iff.mp h
          cases h
          exact .table made (ih made _ _ nodesFit_nil hinner)
      | some (.table origin' nodes) =>
          cases hnode _ rfl with
          | table _ hnodes =>
              dsimp only at h
              split at h
              · cases h
              · obtain ⟨inner, hinner, h⟩ := Option.bind_eq_some_iff.mp h
                cases h
                exact .table origin' (ih origin' _ _ hnodes hinner)
      | some (.tables elements) =>
          cases hnode _ rfl with
          | tables helements =>
              obtain ⟨inner, hinner, h⟩ := Option.bind_eq_some_iff.mp h
              cases h
              exact .tables (forall_of_alterLast? (ih .header) helements hinner)
      | some (.leaf v) => cases h

theorem keepsFit_addEntry? (hv : v.Fits) : KeepsFit <| addEntry? key v := by
  intro nodes nodes' hnodes h
  unfold addEntry? at h
  split at h
  · cases h
  · refine keepsFit_within? (fun origin nodes nodes' hnodes h => ?_) _ _ _ _ hnodes h
    split at h
    · refine keepsFit_alter? (fun node? node _ h => ?_) _ _ hnodes h
      split at h
      · cases h
        exact .leaf hv
      · cases h
    · cases h

theorem keepsFit_openTable? : KeepsFit (openTable? key) := by
  intro nodes nodes' hnodes h
  unfold openTable? at h
  split at h
  · cases h
  · refine keepsFit_within? (fun _ => keepsFit_alter? fun node? node hnode h => ?_) _ _ _ _ hnodes h
    split at h
    · cases h
      exact .table .header nodesFit_nil
    · cases h
      cases hnode _ rfl with
      | table _ hinner => exact .table .header hinner
    · cases h

theorem keepsFit_openElement? : KeepsFit (openElement? key) := by
  intro nodes nodes' hnodes h
  unfold openElement? at h
  split at h
  · cases h
  · refine keepsFit_within? (fun _ => keepsFit_alter? fun node? node hnode h => ?_) _ _ _ _ hnodes h
    split at h
    · cases h
      exact .tables (List.forall_mem_singleton.mpr nodesFit_nil)
    · cases h
      cases hnode _ rfl with
      | tables helements =>
          exact .tables (List.forall_mem_append.mpr
            ⟨helements, List.forall_mem_singleton.mpr nodesFit_nil⟩)
    · cases h

/-- A statement whose integers have 64 bits adds no others to a document. -/
theorem nodesFit_of_add? {r r' : Reading} {s : Statement Value} (hs : s.Forall Value.Fits)
    (hr : NodesFit r.nodes) (h : r.add? s = some r') : NodesFit r'.nodes := by
  cases s with
  | entry key v =>
      obtain ⟨nodes, hnodes, h⟩ := Option.bind_eq_some_iff.mp h
      cases h
      exact keepsFit_within? (fun _ => keepsFit_addEntry? hs) _ _ _ _ hr hnodes
  | header key =>
      obtain ⟨nodes, hnodes, h⟩ := Option.bind_eq_some_iff.mp h
      cases h
      exact keepsFit_openTable? _ _ hr hnodes
  | arrayHeader key =>
      obtain ⟨nodes, hnodes, h⟩ := Option.bind_eq_some_iff.mp h
      cases h
      exact keepsFit_openElement? _ _ hr hnodes

theorem mem_toEntries {entry : String × Value} (h : entry ∈ toEntries nodes) :
    ∃ node, (entry.1, node) ∈ nodes ∧ entry.2 = node.toValue := by
  induction nodes with
  | nil =>
      rw [toEntries] at h
      cases h
  | cons first nodes ih =>
      obtain ⟨name, node⟩ := first
      rw [toEntries] at h
      rcases List.mem_cons.mp h with rfl | h
      · exact ⟨node, List.mem_cons_self, rfl⟩
      · obtain ⟨node', hmem, heq⟩ := ih h
        exact ⟨node', List.mem_cons_of_mem _ hmem, heq⟩

theorem mem_toTables {elements : List Nodes} (h : v ∈ toTables elements) :
    ∃ nodes ∈ elements, v = .table (toEntries nodes) := by
  induction elements with
  | nil =>
      rw [toTables] at h
      cases h
  | cons nodes elements ih =>
      rw [toTables] at h
      rcases List.mem_cons.mp h with rfl | h
      · exact ⟨nodes, List.mem_cons_self, rfl⟩
      · obtain ⟨nodes', hmem, heq⟩ := ih h
        exact ⟨nodes', List.mem_cons_of_mem _ hmem, heq⟩

theorem Node.Fits.toValue {node : Node} (h : node.Fits) : node.toValue.Fits := by
  induction h with
  | leaf h => exact h
  | table origin _ ih =>
      refine .table fun entry hentry => ?_
      obtain ⟨node, hnode, heq⟩ := mem_toEntries hentry
      exact heq ▸ ih _ hnode
  | tables _ ih =>
      refine .array fun v hv => ?_
      obtain ⟨nodes, hnodes, rfl⟩ := mem_toTables hv
      refine .table fun entry hentry => ?_
      obtain ⟨node, hnode, heq⟩ := mem_toEntries hentry
      exact heq ▸ ih _ hnodes _ hnode

theorem fits_toEntries (h : NodesFit nodes) : (Value.table (toEntries nodes)).Fits :=
  (Node.Fits.table .header h).toValue

end Growing

/-! ### Values and documents -/

theorem foldlM_invariant {β : Type} (Q : β → Prop) {f : β → α → Option β} {as : List α} {b b' : β}
    (hstep : ∀ a ∈ as, ∀ b b', Q b → f b a = some b' → Q b') (hb : Q b)
    (h : as.foldlM f b = some b') : Q b' := by
  induction as generalizing b with
  | nil =>
      cases h
      exact hb
  | cons a as ih =>
      rw [List.foldlM_cons] at h
      obtain ⟨b₁, hb₁, h⟩ := Option.bind_eq_some_iff.mp h
      exact ih (fun a ha => hstep a (List.mem_cons_of_mem _ ha))
        (hstep a List.mem_cons_self _ _ hb hb₁) h

theorem fits_of_inlineTable? {pairs : List (List String × Value)} {v : Value}
    (hpairs : ∀ pair ∈ pairs, pair.2.Fits) (h : inlineTable? pairs = some v) : v.Fits := by
  obtain ⟨nodes, hnodes, h⟩ := Option.bind_eq_some_iff.mp h
  cases h
  exact fits_toEntries (foldlM_invariant NodesFit
    (fun pair hpair _ _ hb => keepsFit_addEntry? (hpairs pair hpair) _ _ hb) nodesFit_nil hnodes)

theorem fits_of_integer? {k : Int} (h : integer? cs = some k) : fits k :=
  (Option.filter_eq_some_iff.mp h).2

theorem fits_of_scalar? {v : Value} (h : scalar? cs = some v) : v.Fits := by
  unfold scalar? at h
  split at h
  · cases h
    exact .boolean true
  split at h
  · cases h
    exact .boolean false
  split at h
  · cases h
    exact .dateTime _
  split at h
  · cases h
    exact .float _
  obtain ⟨k, hk, rfl⟩ := Option.map_eq_some_iff.mp h
  exact .integer (fits_of_integer? hk)

theorem yields_value? (depth : Nat) : Yields (value? depth) Value.Fits := by
  induction depth using Nat.strongRecOn with
  | ind depth ih =>
      intro cs v rest h
      rw [value?.eq_def] at h
      dsimp only at h
      split at h
      · obtain ⟨_, -, heq⟩ := Option.map_eq_some_iff.mp h
        cases heq
        exact .string _
      · obtain ⟨_, -, heq⟩ := Option.map_eq_some_iff.mp h
        cases heq
        exact .string _
      · cases depth with
        | zero => cases h
        | succ depth =>
            obtain ⟨⟨items, after⟩, hitems, heq⟩ := Option.map_eq_some_iff.mp h
            cases heq
            exact .array (forall_of_items? (ih depth (Nat.lt_succ_self _)) hitems)
      · cases depth with
        | zero => cases h
        | succ depth =>
            obtain ⟨⟨pairs, after⟩, hpairs, h⟩ := Option.bind_eq_some_iff.mp h
            obtain ⟨w, hw, h⟩ := Option.bind_eq_some_iff.mp h
            cases h
            exact fits_of_inlineTable?
              (forall_of_inlinePairs? (ih depth (Nat.lt_succ_self _)) hpairs) hw
      · obtain ⟨w, hw, heq⟩ := Option.map_eq_some_iff.mp h
        cases heq
        exact fits_of_scalar? hw

/-- All integers of a document have 64 bits. -/
theorem fits_of_read? {text : String} {entries : Entries} (h : read? text = some entries) :
    (Value.table entries).Fits := by
  obtain ⟨statements, hstatements, h⟩ := Option.bind_eq_some_iff.mp h
  obtain ⟨reading, hreading, h⟩ := Option.bind_eq_some_iff.mp h
  cases h
  have hfit := forall_of_statements? (yields_value? _) hstatements
  exact fits_toEntries (foldlM_invariant (fun reading => NodesFit reading.nodes)
    (fun s hs _ _ hr => nodesFit_of_add? (hfit s hs) hr) nodesFit_nil hreading)

end BracketPaint.Toml
