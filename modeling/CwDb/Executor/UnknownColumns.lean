/-
  Executor/UnknownColumns.lean --- when SELECT, UPDATE and DELETE are rejected for a
  column that the table does not have.

  Nothing checks the names of a command before its rows are visited.  A name is looked up
  where its value is needed: those of WHERE on every candidate row, those of the select
  list and of SET on every row that passes.  So the same command is accepted or rejected
  according to the rows it meets.
-/
import CwDb.Executor.StatementAtomicity

set_option autoImplicit false

namespace CwDb.Executor

open CwDb.Cpp
open CwDb.Foundation
open CwDb.Sql
open CwDb.Storage

/-! ## The names of a command -/

/-- The column names that `evaluate_simple_condition` resolves. -/
def comparedNames (c : SimpleCondition) : List ByteString :=
  (if c.leftIsColumn then [c.left] else []) ++
    ((if c.rightIsColumn then [c.right] else []) ++
      if c.op = .between ∧ c.right2IsColumn = true then [c.right2] else [])

/-- The column names of a WHERE clause. -/
def whereNames : Option Condition → List ByteString
  | none => []
  | some condition => (treeAtoms condition).flatMap comparedNames

/-- One of the names is not the name of a column. -/
def Lacks (schema : TableSchema ByteString) (names : List ByteString) : Prop :=
  ∃ name ∈ names, schema.findIndex name = none

/-- The three commands that go through the stored rows. -/
inductive RowCommand where
  | select (cmd : SelectCmd)
  | update (cmd : UpdateCmd)
  | delete (cmd : DeleteCmd)

namespace RowCommand

def command : RowCommand → Command
  | select cmd => .select cmd
  | update cmd => .update cmd
  | delete cmd => .delete cmd

def dbName : RowCommand → ByteString
  | select cmd => cmd.dbName
  | update cmd => cmd.dbName
  | delete cmd => cmd.dbName

def tableName : RowCommand → ByteString
  | select cmd => cmd.tableName
  | update cmd => cmd.tableName
  | delete cmd => cmd.tableName

def where_ : RowCommand → Option Condition
  | select cmd => cmd.where_
  | update cmd => cmd.where_
  | delete cmd => cmd.where_

/-- The column names of the select list or of the SET list. -/
def listed : RowCommand → List ByteString
  | select cmd => if cmd.star then [] else cmd.columns.map (·.name)
  | update cmd => cmd.assignments.map (·.column)
  | delete _ => []

end RowCommand

section Names

variable {schema : TableSchema ByteString} {names names' : List ByteString}

theorem lacks_append :
    Lacks schema (names ++ names') ↔ Lacks schema names ∨ Lacks schema names' := by
  unfold Lacks
  simp only [List.mem_append, or_and_right, exists_or]

theorem not_lacks_nil : ¬ Lacks schema [] := by
  rintro ⟨name, h, -⟩
  cases h

theorem lacks_singleton {name : ByteString} :
    Lacks schema [name] ↔ schema.findIndex name = none := by
  simp [Lacks]

end Names

/-! ## The faults -/

/-- The exception for a name that is not the name of a column: `Table::require_column`
throws the first one, `TableSchema::index_of` the other. -/
def UnknownColumn (schema : TableSchema ByteString) (fault : Fault) : Prop :=
  ∃ name, schema.findIndex name = none ∧
    (fault = .throws .runtimeError
        (text "Table::require_column: unknown column '" ++ name ++ text "'") ∨
      fault = .throws .outOfRange (text "TableSchema: unknown column '" ++ name ++ text "'"))

/-- A regular expression, an index or a file can throw the fault. -/
inductive ThrownBelow (ι : Type) {ω : Type} [IIndex ι ω] [DataRoot ι ω]
    (regexMatch : RegexMatch) (fault : Fault) : Prop where
  | regex {pattern subject : ByteString} (h : regexMatch pattern subject = .error fault)
  | find {i : ι} {k : Value ByteString} {w : ω} (h : IIndex.find i k w = .error fault)
  | range {i : ι} {low high : Value ByteString} {w : ω}
      (h : IIndex.rangeSearch i low high w = .error fault)
  | hook {w' : ω} (h : IndexFault ι fault w')
  | file {w' : ω} (h : FileFault ι fault w')

section Faults

variable {schema : TableSchema ByteString}

theorem not_unknownColumn_invalidArgument {what : ByteString} :
    ¬ UnknownColumn schema (.throws .invalidArgument what) := by
  rintro ⟨name, -, h | h⟩
  · cases h
  · cases h

/-- The exceptions of the containers have another text. -/
theorem not_unknownColumn_outOfRange {what : ByteString}
    (other : ¬ text "TableSchema: unknown column '" <+: what) :
    ¬ UnknownColumn schema (.throws .outOfRange what) := by
  rintro ⟨name, -, h | h⟩
  · cases h
  · obtain rfl := (Fault.throws.inj h).2
    exact other ⟨name ++ text "'", by rw [List.append_assoc]⟩

theorem not_unknownColumn_vectorAt {α : Type} {v : List α} {i : Nat} {fault : Fault}
    (h : vectorAt v i = .error fault) : ¬ UnknownColumn schema fault := by
  unfold vectorAt at h
  split at h
  · cases h
  · cases h
    exact not_unknownColumn_outOfRange (by decide)

theorem not_unknownColumn_stoll {literal : ByteString} {fault : Fault}
    (h : stoll literal = .error fault) : ¬ UnknownColumn schema fault := by
  unfold stoll at h
  split at h
  · cases h
    exact not_unknownColumn_invalidArgument
  · split at h
    · cases h
    · cases h
      exact not_unknownColumn_outOfRange (by decide)

end Faults

/-! ## Looking names up -/

variable {ι ω : Type} [IIndex ι ω] [DataRoot ι ω]

/-- `P` says that a name is looked up which is not there: `x` returns only without, and
stops for an unknown column only because of it. -/
structure RejectsWhen (ι : Type) {ω α : Type} [IIndex ι ω] [DataRoot ι ω]
    (regexMatch : RegexMatch) (schema : TableSchema ByteString) (P : Prop)
    (x : Except Fault α) : Prop where
  returns : ∀ a, x = .ok a → ¬ P
  rejects : ∀ fault, x = .error fault → UnknownColumn schema fault →
    P ∨ ThrownBelow ι regexMatch fault

namespace RejectsWhen

variable {regexMatch : RegexMatch} {schema : TableSchema ByteString} {P : Prop} {α β : Type}
  {x : Except Fault α}

/-- What is looked up behind the point where `x` throws does not matter. -/
theorem extend {P' : Prop} (h : RejectsWhen ι regexMatch schema P x) (imp : P → P')
    (back : ∀ a, x = .ok a → P' → P) : RejectsWhen ι regexMatch schema P' x := by
  constructor
  · intro a ha hp
    exact h.returns a ha (back a ha hp)
  · intro fault hfault hunknown
    exact (h.rejects fault hfault hunknown).imp_left imp

theorem congr {P' : Prop} (h : RejectsWhen ι regexMatch schema P x) (iff : P ↔ P') :
    RejectsWhen ι regexMatch schema P' x := h.extend iff.mp fun _ _ => iff.mpr

theorem ok (a : α) : RejectsWhen ι regexMatch schema False (.ok a : Except Fault α) :=
  ⟨fun _ _ h => h, nofun⟩

/-- What cannot throw for an unknown column. -/
theorem never (h : ∀ fault, x = .error fault → UnknownColumn schema fault →
    ThrownBelow ι regexMatch fault) : RejectsWhen ι regexMatch schema False x :=
  ⟨fun _ _ h => h, fun fault hx hunknown => .inr (h fault hx hunknown)⟩

/-- The second part of a sequence looks up what it looks up after the value of the first. -/
theorem bind {f : α → Except Fault β} {P' : α → Prop} (hx : RejectsWhen ι regexMatch schema P x)
    (hf : ∀ a, x = .ok a → RejectsWhen ι regexMatch schema (P' a) (f a)) :
    RejectsWhen ι regexMatch schema (P ∨ ∃ a, x = .ok a ∧ P' a) (x >>= f) := by
  cases h : x with
  | error e =>
      constructor
      · intro b hb
        cases hb
      · intro fault hfault hunknown
        obtain rfl : e = fault := Except.error.inj hfault
        exact (hx.rejects e h hunknown).imp_left .inl
  | ok a =>
      constructor
      · rintro b hb (hp | ⟨a', ha', hp⟩)
        · exact hx.returns a h hp
        · obtain rfl : a = a' := Except.ok.inj ha'
          exact (hf a h).returns b hb hp
      · intro fault hfault hunknown
        refine ((hf a h).rejects fault hfault hunknown).imp_left ?_
        intro hp
        exact .inr ⟨a, rfl, hp⟩

/-- The second part looks up the same names after every value of the first. -/
theorem seq {f : α → Except Fault β} {P' : Prop} (hx : RejectsWhen ι regexMatch schema P x)
    (hf : ∀ a, x = .ok a → RejectsWhen ι regexMatch schema P' (f a)) :
    RejectsWhen ι regexMatch schema (P ∨ P') (x >>= f) := by
  refine (hx.bind hf).extend ?_ ?_
  · rintro (hp | ⟨-, -, hp⟩)
    · exact .inl hp
    · exact .inr hp
  · intro b hb hp
    obtain ⟨a, ha, -⟩ := exists_bind_ok.mp ⟨b, hb⟩
    exact hp.imp_right fun hp => ⟨a, ha, hp⟩

/-- Only the first part looks anything up. -/
theorem bind_ok {f : α → Except Fault β} (hx : RejectsWhen ι regexMatch schema P x)
    (hf : ∀ a, x = .ok a → RejectsWhen ι regexMatch schema False (f a)) :
    RejectsWhen ι regexMatch schema P (x >>= f) :=
  (hx.seq hf).congr (or_iff_left id)

theorem vectorAt (v : List α) (i : Nat) :
    RejectsWhen ι regexMatch schema False (Cpp.vectorAt v i) :=
  never fun _ h hunknown => absurd hunknown (not_unknownColumn_vectorAt h)

end RejectsWhen

/-! ## WHERE on one row -/

section Condition

variable {regexMatch : RegexMatch} {table : Table ByteString ι} {row : Row ByteString}

omit [IIndex ι ω] [DataRoot ι ω] in
theorem requireColumn_error {name : ByteString} {fault : Fault}
    (h : table.requireColumn name = .error fault) : table.schema.findIndex name = none := by
  unfold Table.requireColumn at h
  split at h
  · cases h
  · assumption

theorem rejectsWhen_requireColumn (name : ByteString) :
    RejectsWhen ι regexMatch table.schema (table.schema.findIndex name = none)
      (table.requireColumn name) := by
  constructor
  · intro column h missing
    unfold Table.requireColumn at h
    rw [missing] at h
    cases h
  · intro fault h _
    exact .inl (requireColumn_error h)

theorem rejectsWhen_resolveOperand (operand : ByteString) (isColumn : Bool) :
    RejectsWhen ι regexMatch table.schema
      (Lacks table.schema (if isColumn then [operand] else []))
      (resolveOperand operand isColumn table row) := by
  cases isColumn with
  | false => exact (RejectsWhen.ok _).congr (iff_of_false id not_lacks_nil)
  | true =>
      refine RejectsWhen.congr ?_ lacks_singleton.symm
      exact (rejectsWhen_requireColumn operand).bind_ok fun column _ => .vectorAt row column

/-- A comparison throws what the library of regular expressions throws. -/
theorem rejectsWhen_compareOperands (op : CompareOp) (left right right2 : Value ByteString) :
    RejectsWhen ι regexMatch table.schema False
      (compareOperands regexMatch op left right right2) := by
  refine .never fun fault h _ => ?_
  unfold compareOperands at h
  split at h
  · cases h
  · split at h
    · exact .regex h
    · cases h
  all_goals cases h

theorem rejectsWhen_evaluateSimpleCondition (c : SimpleCondition) :
    RejectsWhen ι regexMatch table.schema (Lacks table.schema (comparedNames c))
      (evaluateSimpleCondition regexMatch table row c) := by
  unfold evaluateSimpleCondition comparedNames
  refine RejectsWhen.congr ?_ lacks_append.symm
  refine (rejectsWhen_resolveOperand c.left c.leftIsColumn).seq fun left _ => ?_
  refine RejectsWhen.congr ?_ lacks_append.symm
  refine (rejectsWhen_resolveOperand c.right c.rightIsColumn).seq fun right _ => ?_
  by_cases hop : c.op = .between
  · rw [if_pos hop]
    simp only [hop, true_and]
    exact (rejectsWhen_resolveOperand c.right2 c.right2IsColumn).bind_ok fun right2 _ =>
      rejectsWhen_compareOperands .between left right right2
  · rw [if_neg hop, if_neg fun h => hop h.1]
    exact (rejectsWhen_compareOperands c.op left right .null).congr (iff_of_false id not_lacks_nil)

/-- Both sides of an operator are evaluated, so every name of the tree is looked up. -/
theorem rejectsWhen_evaluateCondition : ∀ condition : Condition,
    RejectsWhen ι regexMatch table.schema
      (Lacks table.schema ((treeAtoms condition).flatMap comparedNames))
      (evaluateCondition regexMatch table row condition)
  | .mk _ op none (some tree) _ => by
      unfold evaluateCondition evaluateConditionWith treeAtoms
      rw [List.append_nil]
      exact (rejectsWhen_evaluateCondition tree).bind_ok fun left _ =>
        (RejectsWhen.ok false).bind_ok fun right _ => .ok _
  | .mk _ op (some n) (some tree) _ => by
      unfold evaluateCondition evaluateConditionWith treeAtoms
      rw [List.flatMap_append]
      refine RejectsWhen.congr ?_ lacks_append.symm
      exact (rejectsWhen_evaluateCondition tree).seq fun left _ =>
        (rejectsWhen_evaluateCondition n).bind_ok fun right _ => .ok _
  | .mk cond op none none _ => by
      unfold evaluateCondition evaluateConditionWith treeAtoms
      rw [List.flatMap_singleton]
      exact (rejectsWhen_evaluateSimpleCondition cond).bind_ok fun current _ => .ok _
  | .mk cond op (some n) none _ => by
      unfold evaluateCondition evaluateConditionWith treeAtoms
      rw [List.flatMap_cons]
      refine RejectsWhen.congr ?_ lacks_append.symm
      exact (rejectsWhen_evaluateSimpleCondition cond).seq fun current _ =>
        (rejectsWhen_evaluateCondition n).bind_ok fun right _ => .ok _

theorem rejectsWhen_passes (where_ : Option Condition) :
    RejectsWhen ι regexMatch table.schema (Lacks table.schema (whereNames where_))
      (passes regexMatch table row where_) := by
  cases where_ with
  | none => exact (RejectsWhen.ok true).congr (iff_of_false id not_lacks_nil)
  | some condition => exact rejectsWhen_evaluateCondition condition

end Condition

/-! ## The rows of a command -/

/-- One comparison of a column with a literal looks its column up before any row. -/
def UpFront (schema : TableSchema ByteString) (where_ : Option Condition) : Prop :=
  ∃ condition, where_ = some condition ∧ Indexable condition ∧
    schema.findIndex condition.simple.left = none

/-- Among the stored rows of `ids` there is one on which a name is looked up that the table
does not have: one of WHERE on any row, a `listed` one on a row that passes. -/
def Meets (regexMatch : RegexMatch) (table : Table ByteString ι) (where_ : Option Condition)
    (listed : List ByteString) (ids : List RowId) : Prop :=
  ∃ id ∈ ids, ∃ row, table.rows.find? id = some row ∧
    (Lacks table.schema (whereNames where_) ∨
      passes regexMatch table row where_ = .ok true ∧ Lacks table.schema listed)

theorem upFront_some {schema : TableSchema ByteString} {condition : Condition} :
    UpFront schema (some condition) ↔
      Indexable condition ∧ schema.findIndex condition.simple.left = none := by
  unfold UpFront
  simp only [Option.some.injEq, exists_eq_left']

section Rows

variable {regexMatch : RegexMatch} {table : Table ByteString ι} {where_ : Option Condition}
  {listed : List ByteString} {ids : List RowId} {id : RowId} {row : Row ByteString}

omit [IIndex ι ω] [DataRoot ι ω] in
theorem meets_nil : ¬ Meets regexMatch table where_ listed [] := by
  rintro ⟨id, h, -⟩
  cases h

omit [IIndex ι ω] [DataRoot ι ω] in
/-- An id that is not stored is passed over. -/
theorem meets_cons_of_none (missing : table.rows.find? id = none) :
    Meets regexMatch table where_ listed (id :: ids) ↔
      Meets regexMatch table where_ listed ids := by
  unfold Meets
  rw [List.exists_mem_cons_iff]
  refine or_iff_right ?_
  rintro ⟨row, stored, -⟩
  rw [missing] at stored
  cases stored

omit [IIndex ι ω] [DataRoot ι ω] in
theorem meets_cons_of_some (stored : table.rows.find? id = some row) :
    Meets regexMatch table where_ listed (id :: ids) ↔
      (Lacks table.schema (whereNames where_) ∨
        passes regexMatch table row where_ = .ok true ∧ Lacks table.schema listed) ∨
      Meets regexMatch table where_ listed ids := by
  unfold Meets
  rw [List.exists_mem_cons_iff]
  refine or_congr_left ?_
  rw [stored]
  simp only [Option.some.injEq, exists_eq_left']

omit [IIndex ι ω] [DataRoot ι ω] in
theorem not_meets (known : ¬ Lacks table.schema (whereNames where_))
    (known' : ¬ Lacks table.schema listed) : ¬ Meets regexMatch table where_ listed ids := by
  rintro ⟨id, -, row, -, h | ⟨-, h⟩⟩
  · exact known h
  · exact known' h

/-- The literals of an index lookup are keys or not whatever the columns are. -/
theorem rejectsWhen_parseLiteralForColumn (schema : TableSchema ByteString)
    (literal : ByteString) (t : DataType) :
    RejectsWhen ι regexMatch schema False (parseLiteralForColumn literal t) := by
  refine .never fun fault h hunknown => absurd hunknown ?_
  unfold parseLiteralForColumn at h
  split at h
  · cases h
  · split at h
    · cases hn : stoll literal with
      | ok n =>
          rw [hn] at h
          cases h
      | error e =>
          rw [hn] at h
          obtain rfl : e = fault := Except.error.inj h
          exact not_unknownColumn_stoll hn
    · cases h

theorem rejectsWhen_collectCandidateRows (w : ω) :
    RejectsWhen ι regexMatch table.schema (UpFront table.schema where_)
      (collectCandidateRows table w where_) := by
  cases where_ with
  | none =>
      refine (RejectsWhen.ok _).congr (iff_of_false id ?_)
      rintro ⟨condition, h, -⟩
      cases h
  | some condition =>
      unfold collectCandidateRows
      dsimp only
      split
      · next h =>
          simp only [Bool.and_eq_true, Option.isNone_iff_eq_none, Bool.not_eq_true'] at h
          have single : Indexable condition := ⟨h.1.1.1, h.1.1.2, h.1.2, h.2⟩
          refine RejectsWhen.congr ?_ (upFront_some.trans (and_iff_right single)).symm
          refine (rejectsWhen_requireColumn condition.simple.left).bind_ok fun column _ => ?_
          cases table.indexes.find? column with
          | none => exact .ok _
          | some index =>
              refine (RejectsWhen.vectorAt table.schema.columns column).bind_ok fun c _ => ?_
              have key : ∀ literal, RejectsWhen ι regexMatch table.schema False
                  (parseLiteralForColumn literal c.type) :=
                fun literal => rejectsWhen_parseLiteralForColumn table.schema literal c.type
              split
              · refine (key _).bind_ok fun k _ => ?_
                refine RejectsWhen.bind_ok (.never fun _ h _ => .find h) fun found _ => .ok _
              · split
                · refine (key _).bind_ok fun low _ => (key _).bind_ok fun high _ => ?_
                  exact RejectsWhen.bind_ok (.never fun _ h _ => .range h) fun ids _ => .ok _
                · exact .ok _
      · next h =>
          refine (RejectsWhen.ok _).congr (iff_of_false id ?_)
          intro upFront
          have single := (upFront_some.mp upFront).1
          simp [single.noTree, single.noNext, single.leftColumn, single.rightLiteral] at h

theorem rejectsWhen_filterRows :
    RejectsWhen ι regexMatch table.schema (Meets regexMatch table where_ [] ids)
      (filterRows regexMatch table where_ ids) := by
  induction ids with
  | nil => exact (RejectsWhen.ok _).congr (iff_of_false id meets_nil)
  | cons id rest ih =>
      unfold filterRows
      cases stored : table.rows.find? id with
      | none => exact ih.congr (meets_cons_of_none stored).symm
      | some row =>
          refine RejectsWhen.congr ?_ (meets_cons_of_some stored).symm
          refine RejectsWhen.congr ?_ (or_congr_left (or_iff_left fun h => not_lacks_nil h.2)).symm
          exact (rejectsWhen_passes where_).seq fun kept _ => ih.bind_ok fun more _ => .ok _

/-! ## The select list -/

variable {cmd : SelectCmd}

theorem rejectsWhen_indexOf (schema : TableSchema ByteString) (name : ByteString) :
    RejectsWhen ι regexMatch schema (schema.findIndex name = none) (schema.indexOf name) := by
  unfold TableSchema.indexOf
  cases h : schema.findIndex name with
  | none => exact ⟨nofun, fun _ _ _ => .inl rfl⟩
  | some column => exact (RejectsWhen.ok column).congr (by simp)

/-- A list of steps looks up what its steps look up. -/
theorem RejectsWhen.mapM {schema : TableSchema ByteString} {α β : Type} {f : α → Except Fault β}
    {P : α → Prop} {l : List α} (h : ∀ a ∈ l, RejectsWhen ι regexMatch schema (P a) (f a)) :
    RejectsWhen ι regexMatch schema (∃ a ∈ l, P a) (l.mapM f) := by
  induction l with
  | nil => exact (RejectsWhen.ok _).congr (by simp)
  | cons a l ih =>
      rw [List.mapM_cons]
      refine RejectsWhen.congr ?_ (List.exists_mem_cons_iff P a l).symm
      refine (h a List.mem_cons_self).seq fun b _ => ?_
      exact (ih fun a' ha' => h a' (List.mem_cons_of_mem a ha')).bind_ok fun bs _ => .ok _

theorem rejectsWhen_rowToJsonObject (schema : TableSchema ByteString) (row : Row ByteString) :
    RejectsWhen ι regexMatch schema (Lacks schema (RowCommand.select cmd).listed)
      (rowToJsonObject schema cmd row) := by
  unfold rowToJsonObject
  refine RejectsWhen.bind_ok ?_ fun pairs _ => .ok _
  change RejectsWhen ι regexMatch schema
    (Lacks schema (if cmd.star then [] else cmd.columns.map (·.name))) _
  unfold rowPairs
  by_cases star : cmd.star
  · rw [if_pos star, if_pos star]
    refine RejectsWhen.congr (P := ∃ entry ∈ schema.columns.zipIdx, False) ?_ ?_
    · refine RejectsWhen.mapM fun entry _ => ?_
      exact (RejectsWhen.vectorAt row entry.2).bind_ok fun value _ => .ok _
    · refine iff_of_false ?_ not_lacks_nil
      rintro ⟨entry, -, h⟩
      exact h
  · rw [if_neg star, if_neg star]
    refine RejectsWhen.congr
      (P := ∃ col ∈ cmd.columns, schema.findIndex col.name = none) ?_ (by simp [Lacks])
    refine RejectsWhen.mapM fun col _ => ?_
    refine (rejectsWhen_indexOf schema col.name).bind_ok fun column _ => ?_
    exact (RejectsWhen.vectorAt row column).bind_ok fun value _ => .ok _

theorem rejectsWhen_selectObjects :
    RejectsWhen ι regexMatch table.schema
      (Meets regexMatch table cmd.where_ (RowCommand.select cmd).listed ids)
      (selectObjects regexMatch table cmd ids) := by
  induction ids with
  | nil => exact (RejectsWhen.ok _).congr (iff_of_false id meets_nil)
  | cons id rest ih =>
      unfold selectObjects
      cases stored : table.rows.find? id with
      | none => exact ih.congr (meets_cons_of_none stored).symm
      | some row =>
          refine RejectsWhen.congr ?_ (meets_cons_of_some stored).symm
          have hrow : ∀ kept, passes regexMatch table row cmd.where_ = .ok kept →
              RejectsWhen ι regexMatch table.schema
                ((kept = true ∧ Lacks table.schema (RowCommand.select cmd).listed) ∨
                  Meets regexMatch table cmd.where_ (RowCommand.select cmd).listed rest)
                (if kept then do
                    let object ← rowToJsonObject table.schema cmd row
                    let more ← selectObjects regexMatch table cmd rest
                    pure (object :: more)
                  else selectObjects regexMatch table cmd rest) := by
            intro kept _
            cases kept with
            | false => exact ih.congr (by simp)
            | true =>
                refine RejectsWhen.congr ?_ (by rw [and_iff_right rfl])
                exact (rejectsWhen_rowToJsonObject table.schema row).seq fun object _ =>
                  ih.bind_ok fun more _ => .ok _
          refine ((rejectsWhen_passes cmd.where_).bind hrow).extend ?_ ?_
          · rintro (hwhere | ⟨kept, hkept, ⟨rfl, hlisted⟩ | hrest⟩)
            · exact .inl (.inl hwhere)
            · exact .inl (.inr ⟨hkept, hlisted⟩)
            · exact .inr hrest
          · intro objects hobjects
            obtain ⟨kept, hkept, -⟩ := exists_bind_ok.mp ⟨objects, hobjects⟩
            rintro ((hwhere | ⟨htrue, hlisted⟩) | hrest)
            · exact .inl hwhere
            · exact .inr ⟨true, htrue, .inl ⟨rfl, hlisted⟩⟩
            · exact .inr ⟨kept, hkept, .inr hrest⟩

end Rows

/-! ## The changes of the rows -/

section Changes

variable {regexMatch : RegexMatch} {s : TableState ι ω}

theorem RejectsWhen.forM_never {schema : TableSchema ByteString} {α : Type}
    {f : α → Except Fault PUnit} (h : ∀ a, RejectsWhen ι regexMatch schema False (f a)) :
    ∀ l : List α, RejectsWhen ι regexMatch schema False (l.forM f)
  | [] => .ok _
  | a :: l => (h a).bind_ok fun _ _ => forM_never h l

theorem RejectsWhen.anyM_never {schema : TableSchema ByteString} {α : Type}
    {f : α → Except Fault Bool} (h : ∀ a, RejectsWhen ι regexMatch schema False (f a)) :
    ∀ l : List α, RejectsWhen ι regexMatch schema False (l.anyM f)
  | [] => .ok _
  | a :: l => by
      refine (h a).bind_ok fun b _ => ?_
      cases b with
      | true => exact .ok _
      | false => exact anyM_never h l

theorem rejectsWhen_valueExistsInColumn (w : ω) (table : Table ByteString ι) (column : Nat)
    (value : Value ByteString) (excludeId : Option RowId) (schema : TableSchema ByteString) :
    RejectsWhen ι regexMatch schema False
      (table.valueExistsInColumn w column value excludeId) := by
  unfold Table.valueExistsInColumn
  cases table.indexes.find? column with
  | some index =>
      refine RejectsWhen.bind_ok (.never fun _ h _ => .find h) fun found _ => ?_
      cases found with
      | none => exact .ok _
      | some id => exact .ok _
  | none =>
      refine RejectsWhen.anyM_never (fun entry => ?_) _
      dsimp only
      split
      · exact .ok _
      · exact (RejectsWhen.vectorAt entry.2 column).bind_ok fun stored _ => .ok _

/-- The exceptions of `Table::validate` are of another class. -/
theorem rejectsWhen_validate (table : Table ByteString ι) (w : ω) (row : Row ByteString)
    (existingId : Option RowId) (schema : TableSchema ByteString) :
    RejectsWhen ι regexMatch schema False (table.validate w row existingId) := by
  have refuse : ∀ (α : Type) (what : ByteString),
      RejectsWhen ι regexMatch schema False (raise .invalidArgument what : Except Fault α) := by
    intro α what
    refine .never fun fault h hunknown => absurd hunknown ?_
    cases h
    exact not_unknownColumn_invalidArgument
  unfold Table.validate
  split
  · exact refuse _ _
  refine RejectsWhen.forM_never (fun i => ?_) _
  unfold Table.validateColumn
  refine (RejectsWhen.vectorAt table.schema.columns i).bind_ok fun c _ => ?_
  refine (RejectsWhen.vectorAt row i).bind_ok fun value _ => ?_
  split
  · split
    · exact refuse _ _
    · exact .ok _
  · split
    · exact refuse _ _
    · split
      · refine (rejectsWhen_valueExistsInColumn w table i value existingId schema).bind_ok ?_
        intro found _
        split
        · exact refuse _ _
        · exact .ok _
      · exact .ok _

/-- The same of a computation on the table, which keeps the schema. -/
def RowsRejectWhen {α : Type} (regexMatch : RegexMatch) (P : Prop) (m : TableM ι ω α)
    (s : TableState ι ω) : Prop :=
  Ends m s (fun _ s' => s'.table.schema = s.table.schema ∧ ¬ P)
    (fun fault _ => UnknownColumn s.table.schema fault → P ∨ ThrownBelow ι regexMatch fault)

namespace RowsRejectWhen

variable {P P' : Prop} {α β : Type} {m : TableM ι ω α}

theorem congr (h : RowsRejectWhen regexMatch P m s) (iff : P ↔ P') :
    RowsRejectWhen regexMatch P' m s := by
  rw [← iff]
  exact h

/-- A computation that does not touch the state. -/
theorem fromExcept {x : Except Fault α} (h : RejectsWhen ι regexMatch s.table.schema P x) :
    RowsRejectWhen regexMatch P (Foundation.fromExcept x) s :=
  ends_fromExcept.mpr ⟨fun a ha => ⟨rfl, h.returns a ha⟩, h.rejects⟩

theorem bind {f : α → TableM ι ω β} (hm : RowsRejectWhen regexMatch P m s)
    (hf : ∀ a s', m s = .ok a s' → s'.table.schema = s.table.schema →
      RowsRejectWhen regexMatch P' (f a) s') :
    RowsRejectWhen regexMatch (P ∨ P') (m >>= f) s := by
  unfold RowsRejectWhen at *
  rw [ends_bind]
  unfold Ends at hm ⊢
  cases run : m s with
  | error e s' =>
      rw [run] at hm
      exact fun hunknown => (hm hunknown).imp_left .inl
  | ok a s' =>
      rw [run] at hm
      have hnext := hf a s' run hm.1
      unfold Ends at hnext
      dsimp only
      cases run' : f a s' with
      | ok b s'' =>
          rw [run'] at hnext
          exact ⟨hnext.1.trans hm.1, fun hp => hp.elim hm.2 hnext.2⟩
      | error e s'' =>
          rw [run'] at hnext
          intro hunknown
          exact (hnext (hm.1 ▸ hunknown)).imp_left .inr

end RowsRejectWhen

theorem rowsRejectWhen_update (id : RowId) (column : Nat) (newValue : Value ByteString) :
    RowsRejectWhen regexMatch False (Table.update id column newValue) s := by
  unfold RowsRejectWhen Table.update
  rw [ends_bind, ends_get]
  cases s.table.rows.find? id with
  | none => exact fun h => absurd h (not_unknownColumn_outOfRange (by decide))
  | some row =>
      dsimp only
      rw [ends_ite]
      split
      · exact fun h => absurd h (not_unknownColumn_outOfRange (by decide))
      rw [ends_bind, ends_fromExcept]
      refine ⟨fun oldValue _ => ?_, (RejectsWhen.vectorAt row column).rejects⟩
      rw [ends_bind, ends_fromExcept]
      refine ⟨fun _ _ => ?_, (rejectsWhen_validate s.table s.world _ _ _).rejects⟩
      rw [ends_bind]
      refine (ends_notifyIndexesUpdate_fault id column oldValue newValue).mono ?_
        fun _ _ h _ => .inr (.hook h)
      intro _ t ht
      have same : t.table.schema = s.table.schema := congrArg Table.schema ht
      exact ⟨same, not_false⟩

theorem rowsRejectWhen_erase (id : RowId) : RowsRejectWhen regexMatch False (Table.erase id) s := by
  unfold RowsRejectWhen Table.erase
  rw [ends_bind, ends_get]
  cases s.table.rows.find? id with
  | none => exact fun h => absurd h (not_unknownColumn_outOfRange (by decide))
  | some row =>
      dsimp only
      rw [ends_bind]
      refine (ends_notifyIndexesErase_fault row).mono ?_ fun _ _ h _ => .inr (.hook h)
      intro _ t ht
      have same : t.table.schema = s.table.schema := congrArg Table.schema ht
      exact ⟨same, not_false⟩

theorem rowsRejectWhen_assignColumn (id : RowId) (a : Assignment) :
    RowsRejectWhen regexMatch (s.table.schema.findIndex a.column = none) (assignColumn id a) s := by
  unfold assignColumn
  change RowsRejectWhen regexMatch _ (fromExcept (s.table.requireColumn a.column) >>= fun column =>
    Table.update id column (parserValueToStorage a.value)) s
  refine RowsRejectWhen.congr ?_ (or_iff_left not_false)
  exact (RowsRejectWhen.fromExcept (rejectsWhen_requireColumn a.column)).bind fun column s' _ _ =>
    rowsRejectWhen_update id column _

/-- The columns of SET are looked up one after the other. -/
theorem rowsRejectWhen_assignColumns (id : RowId) (assignments : List Assignment) :
    RowsRejectWhen regexMatch (Lacks s.table.schema (assignments.map (·.column)))
      (assignments.forM (assignColumn id)) s := by
  induction assignments generalizing s with
  | nil => exact ⟨rfl, not_lacks_nil⟩
  | cons a rest ih =>
      refine RowsRejectWhen.congr ?_ (List.exists_mem_cons_iff _ _ _).symm
      refine (rowsRejectWhen_assignColumn id a).bind fun _ s' _ same => ?_
      rw [← Lacks, ← same]
      exact ih

/-- The rows change under UPDATE, but not before one has passed and its SET list has been
gone through. -/
theorem rowsRejectWhen_updateRows (assignments : List Assignment) (where_ : Option Condition)
    (ids : List RowId) :
    RowsRejectWhen regexMatch
      (Meets regexMatch s.table where_ (assignments.map (·.column)) ids)
      (ids.forM (updateRow regexMatch assignments where_)) s := by
  induction ids generalizing s with
  | nil => exact ⟨rfl, meets_nil⟩
  | cons id rest ih =>
      change RowsRejectWhen regexMatch _ (updateRow regexMatch assignments where_ id >>= fun _ =>
        rest.forM (updateRow regexMatch assignments where_)) s
      cases stored : s.table.rows.find? id with
      | none =>
          have run : updateRow regexMatch assignments where_ id s = .ok ⟨⟩ s := by
            unfold updateRow
            rw [bind_ok get_run, stored]
            rfl
          refine RowsRejectWhen.congr ?_ (meets_cons_of_none stored).symm
          unfold RowsRejectWhen
          rw [ends_bind, ends_of_ok run]
          exact ih
      | some row =>
          have step : updateRow regexMatch assignments where_ id s =
              (fromExcept (passes regexMatch s.table row where_) >>= fun kept =>
                if kept then assignments.forM (assignColumn id) else pure ⟨⟩) s := by
            unfold updateRow
            rw [bind_ok get_run, stored]
          have hwhere : RejectsWhen ι regexMatch s.table.schema
              (Lacks s.table.schema (whereNames where_))
              (passes regexMatch s.table row where_) := rejectsWhen_passes where_
          refine RowsRejectWhen.congr ?_ (meets_cons_of_some stored).symm
          cases hkept : passes regexMatch s.table row where_ with
          | error fault =>
              rw [hkept] at step
              unfold RowsRejectWhen
              rw [ends_bind, ends_of_error step]
              intro hunknown
              exact (hwhere.rejects fault hkept hunknown).imp_left fun h => .inl (.inl h)
          | ok kept =>
              have known := hwhere.returns kept hkept
              rw [hkept] at step
              cases kept with
              | false =>
                  unfold RowsRejectWhen
                  rw [ends_bind, ends_of_ok step]
                  refine ih.congr (or_iff_right ?_).symm
                  rintro (h | ⟨h, -⟩)
                  · exact known h
                  · cases h
              | true =>
                  have assigned : RowsRejectWhen regexMatch
                      (Lacks s.table.schema (assignments.map (·.column)))
                      (updateRow regexMatch assignments where_ id) s := by
                    unfold RowsRejectWhen Ends
                    rw [step]
                    exact rowsRejectWhen_assignColumns id assignments
                  have both : RowsRejectWhen regexMatch
                      (Lacks s.table.schema (assignments.map (·.column)) ∨
                        Meets regexMatch s.table where_ (assignments.map (·.column)) rest)
                      (updateRow regexMatch assignments where_ id >>= fun _ =>
                        rest.forM (updateRow regexMatch assignments where_)) s := by
                    refine assigned.bind fun _ s' run same => ?_
                    -- all the names of the command are there, so none is missed later
                    have listed : ¬ Lacks s.table.schema (assignments.map (·.column)) :=
                      (assigned.of_ok run).2
                    refine ih.congr (iff_of_false ?_ ?_)
                    · exact not_meets (same ▸ known) (same ▸ listed)
                    · exact not_meets known listed
                  exact both.congr (by simp [known])

theorem rowsRejectWhen_eraseRows (ids : List RowId) :
    RowsRejectWhen regexMatch False (ids.forM Table.erase) s := by
  induction ids generalizing s with
  | nil => exact ⟨rfl, not_false⟩
  | cons id rest ih =>
      exact ((rowsRejectWhen_erase id).bind fun _ s' _ _ => ih).congr (or_self_iff)

end Changes

/-! ## A whole command -/

/-- A stored row is a candidate. -/
def StoresCandidate (table : Table ByteString ι) (w : ω) (where_ : Option Condition) : Prop :=
  ∃ ids usedIndex, collectCandidateRows table w where_ = .ok (ids, usedIndex) ∧
    ∃ id ∈ ids, (table.rows.find? id).isSome

/-- A stored row is a candidate and passes. -/
def StoresPassing (regexMatch : RegexMatch) (table : Table ByteString ι) (w : ω)
    (where_ : Option Condition) : Prop :=
  ∃ ids usedIndex, collectCandidateRows table w where_ = .ok (ids, usedIndex) ∧
    ∃ id ∈ ids, ∃ row, table.rows.find? id = some row ∧
      passes regexMatch table row where_ = .ok true

/-- Where the names of the command are looked up there is one that the table lacks. -/
def ReachesUnknown (regexMatch : RegexMatch) (table : Table ByteString ι) (w : ω)
    (cmd : RowCommand) : Prop :=
  UpFront table.schema cmd.where_ ∨
    (Lacks table.schema (whereNames cmd.where_) ∧ StoresCandidate table w cmd.where_) ∨
    (Lacks table.schema cmd.listed ∧ StoresPassing regexMatch table w cmd.where_)

/-- The call throws for a column that is not there. -/
def Rejects (regexMatch : RegexMatch) (query : ByteString) (schema : TableSchema ByteString)
    (e : EngineState ι ω) : Prop :=
  ∃ fault e', Engine.execute regexMatch query e = .error fault e' ∧ UnknownColumn schema fault

/-- The call throws for a column that is not there, or not at all. -/
def NoOtherError (regexMatch : RegexMatch) (query : ByteString)
    (schema : TableSchema ByteString) (e : EngineState ι ω) : Prop :=
  ∀ fault e', Engine.execute regexMatch query e = .error fault e' →
    UnknownColumn schema fault ∧ ¬ ThrownBelow ι regexMatch fault

section Commands

variable {regexMatch : RegexMatch} {table : Table ByteString ι} {w : ω} {cmd : RowCommand}
  {ids : List RowId} {usedIndex : Bool}

omit [DataRoot ι ω] in
theorem reachesUnknown_of_meets (cmd : RowCommand)
    (collected : collectCandidateRows table w cmd.where_ = .ok (ids, usedIndex))
    (meets : Meets regexMatch table cmd.where_ cmd.listed ids) :
    ReachesUnknown regexMatch table w cmd := by
  obtain ⟨id, hid, row, stored, hwhere | ⟨kept, hlisted⟩⟩ := meets
  · refine .inr (.inl ⟨hwhere, ids, usedIndex, collected, id, hid, ?_⟩)
    rw [stored]
    rfl
  · exact .inr (.inr ⟨hlisted, ids, usedIndex, collected, id, hid, row, stored, kept⟩)

theorem not_reachesUnknown (cmd : RowCommand)
    (collected : collectCandidateRows table w cmd.where_ = .ok (ids, usedIndex))
    (meets : ¬ Meets regexMatch table cmd.where_ cmd.listed ids) :
    ¬ ReachesUnknown regexMatch table w cmd := by
  have same : ∀ {ids' usedIndex'},
      collectCandidateRows table w cmd.where_ = .ok (ids', usedIndex') → ids' = ids := by
    intro ids' usedIndex' h
    exact (Prod.mk.inj (Except.ok.inj (h.symm.trans collected))).1
  rintro (upFront | ⟨hwhere, ids', _, h, id, hid, stored⟩ |
    ⟨hlisted, ids', _, h, id, hid, row, stored, kept⟩)
  · have lookup : RejectsWhen ι regexMatch table.schema (UpFront table.schema cmd.where_)
        (collectCandidateRows table w cmd.where_) := rejectsWhen_collectCandidateRows w
    exact lookup.returns _ collected upFront
  · obtain ⟨row, stored⟩ := Option.isSome_iff_exists.mp stored
    exact meets ⟨id, same h ▸ hid, row, stored, .inl hwhere⟩
  · exact meets ⟨id, same h ▸ hid, row, stored, .inr ⟨kept, hlisted⟩⟩

/-- The part of UPDATE and DELETE that works on the table. -/
theorem rowsRejectWhen_candidates (cmd : RowCommand) (f : List RowId → TableM ι ω PUnit)
    (rows : ∀ ids, RowsRejectWhen regexMatch (Meets regexMatch table cmd.where_ cmd.listed ids)
      (f ids) ⟨table, w⟩) :
    RowsRejectWhen regexMatch (ReachesUnknown regexMatch table w cmd)
      (fromExcept (collectCandidateRows table w cmd.where_) >>= fun r => f r.1) ⟨table, w⟩ := by
  cases collected : collectCandidateRows table w cmd.where_ with
  | error fault =>
      exact fun hunknown => ((rejectsWhen_collectCandidateRows w).rejects fault collected
        hunknown).imp_left .inl
  | ok r =>
      refine (rows r.1).mono ?_ ?_
      · exact fun _ _ h => ⟨h.1, not_reachesUnknown cmd collected h.2⟩
      · intro fault _ h hunknown
        exact (h hunknown).imp_left (reachesUnknown_of_meets cmd collected)

theorem rowsRejectWhen_update_command (cmd : UpdateCmd) :
    RowsRejectWhen regexMatch (ReachesUnknown regexMatch table w (.update cmd))
      (updateRows regexMatch cmd.assignments cmd.where_) ⟨table, w⟩ :=
  rowsRejectWhen_candidates (.update cmd)
    (fun ids => ids.forM (updateRow regexMatch cmd.assignments cmd.where_))
    (rowsRejectWhen_updateRows cmd.assignments cmd.where_)

theorem rowsRejectWhen_delete_command (cmd : DeleteCmd) :
    RowsRejectWhen regexMatch (ReachesUnknown regexMatch table w (.delete cmd))
      (deleteRows regexMatch cmd.where_) ⟨table, w⟩ :=
  rowsRejectWhen_candidates (.delete cmd)
    (fun ids => fromExcept (filterRows regexMatch table cmd.where_ ids) >>= fun toDelete =>
      toDelete.forM Table.erase) fun _ =>
    ((RowsRejectWhen.fromExcept rejectsWhen_filterRows).bind fun toDelete _ _ _ =>
      rowsRejectWhen_eraseRows toDelete).congr (or_iff_left not_false)

/-- What is said of the rows is true of the whole statement: resolving the table and saving
the databases look no column up. -/
theorem ends_executeOnTable_rejects {e : EngineState ι ω}
    {explicitDbName tableName dbName : ByteString} {m : TableM ι ω PUnit} {P : Prop}
    (resolved : Engine.resolveTable e.dbms explicitDbName tableName = .ok (dbName, table))
    (rows : RowsRejectWhen regexMatch P m ⟨table, e.world⟩) :
    Ends (Engine.executeOnTable explicitDbName tableName m) e (fun _ _ => ¬ P)
      (fun fault _ => UnknownColumn table.schema fault → P ∨ ThrownBelow ι regexMatch fault) := by
  unfold Engine.executeOnTable
  rw [Engine.onDbms, ends_zoom, ends_bind, ends_get, ends_bind, resolved, fromExcept_ok, ends_pure]
  dsimp only
  rw [ends_bind, Dbms.onTable, ends_zoom]
  refine rows.mono (fun _ s' h => ?_) fun _ _ h => h
  rw [ends_bind]
  exact ends_saveAll_fault.mono (fun _ _ _ => h.2) fun _ _ file _ => .inr (.file file)

theorem ends_executeSelect_rejects {e : EngineState ι ω} {dbName : ByteString} (cmd : SelectCmd)
    (resolved : Engine.resolveTable e.dbms cmd.dbName cmd.tableName = .ok (dbName, table)) :
    Ends (Engine.executeSelect regexMatch cmd) e
      (fun _ _ => ¬ ReachesUnknown regexMatch table e.world (.select cmd))
      (fun fault _ => UnknownColumn table.schema fault →
        ReachesUnknown regexMatch table e.world (.select cmd) ∨
          ThrownBelow ι regexMatch fault) := by
  unfold Engine.executeSelect
  rw [ends_bind, ends_get, ends_bind, resolved, fromExcept_ok, ends_pure]
  dsimp only
  cases collected : collectCandidateRows table e.world cmd.where_ with
  | error fault =>
      exact fun hunknown => ((rejectsWhen_collectCandidateRows e.world).rejects fault collected
        hunknown).imp_left .inl
  | ok r =>
      have rows : RejectsWhen ι regexMatch table.schema
          (Meets regexMatch table cmd.where_ (RowCommand.select cmd).listed r.1)
          (selectObjects regexMatch table cmd r.1) := rejectsWhen_selectObjects
      rw [fromExcept_ok, ends_bind, ends_pure, ends_bind, ends_modify, ends_bind, ends_fromExcept]
      constructor
      · intro objects h
        exact not_reachesUnknown (.select cmd) collected (rows.returns objects h)
      · intro fault h hunknown
        exact (rows.rejects fault h hunknown).imp_left
          (reachesUnknown_of_meets (.select cmd) collected)

theorem ends_execute_rejects (regexMatch : RegexMatch) {e : EngineState ι ω}
    {query dbName : ByteString} (parsed : parseQuery query = .ok cmd.command)
    (resolved : Engine.resolveTable e.dbms cmd.dbName cmd.tableName = .ok (dbName, table)) :
    Ends (Engine.execute regexMatch query) e
      (fun _ _ => ¬ ReachesUnknown regexMatch table e.world cmd)
      (fun fault _ => UnknownColumn table.schema fault →
        ReachesUnknown regexMatch table e.world cmd ∨ ThrownBelow ι regexMatch fault) := by
  unfold Engine.execute
  rw [ends_bind, parsed, fromExcept_ok, ends_pure]
  cases cmd with
  | select cmd => exact ends_executeSelect_rejects cmd resolved
  | update cmd => exact ends_executeOnTable_rejects resolved (rowsRejectWhen_update_command cmd)
  | delete cmd => exact ends_executeOnTable_rejects resolved (rowsRejectWhen_delete_command cmd)

/-- A run without another error throws where it comes upon a name that is not there. -/
theorem rejects_iff_reachesUnknown {e : EngineState ι ω} {query dbName : ByteString}
    (parsed : parseQuery query = .ok cmd.command)
    (resolved : Engine.resolveTable e.dbms cmd.dbName cmd.tableName = .ok (dbName, table))
    (noOther : NoOtherError regexMatch query table.schema e) :
    Rejects regexMatch query table.schema e ↔ ReachesUnknown regexMatch table e.world cmd := by
  have ends := ends_execute_rejects regexMatch parsed resolved
  constructor
  · rintro ⟨fault, e', run, hunknown⟩
    exact ((ends.of_error run) hunknown).resolve_right (noOther fault e' run).2
  · intro reaches
    cases run : Engine.execute regexMatch query e with
    | ok answer e' => exact absurd reaches (ends.of_ok run)
    | error fault e' => exact ⟨fault, e', run, (noOther fault e' run).1⟩

/-- Whether SELECT, UPDATE or DELETE is rejected for an unknown column depends on the
command, the schema and two facts about the rows: whether there is a candidate, and whether
one passes. -/
theorem rejection_depends_on_rows {e e' : EngineState ι ω} {table' : Table ByteString ι}
    {query dbName dbName' : ByteString} (parsed : parseQuery query = .ok cmd.command)
    (resolved : Engine.resolveTable e.dbms cmd.dbName cmd.tableName = .ok (dbName, table))
    (resolved' : Engine.resolveTable e'.dbms cmd.dbName cmd.tableName = .ok (dbName', table'))
    (sameSchema : table'.schema = table.schema)
    (noOther : NoOtherError regexMatch query table.schema e)
    (noOther' : NoOtherError regexMatch query table'.schema e') :
    (Rejects regexMatch query table.schema e ↔
      UpFront table.schema cmd.where_ ∨
      (Lacks table.schema (whereNames cmd.where_) ∧
        StoresCandidate table e.world cmd.where_) ∨
      (Lacks table.schema cmd.listed ∧
        StoresPassing regexMatch table e.world cmd.where_)) ∧
    ((StoresCandidate table e.world cmd.where_ ↔ StoresCandidate table' e'.world cmd.where_) →
      (StoresPassing regexMatch table e.world cmd.where_ ↔
        StoresPassing regexMatch table' e'.world cmd.where_) →
      (Rejects regexMatch query table.schema e ↔ Rejects regexMatch query table'.schema e')) := by
  have here := rejects_iff_reachesUnknown parsed resolved noOther
  have there := rejects_iff_reachesUnknown parsed resolved' noOther'
  refine ⟨here, fun candidate passing => ?_⟩
  rw [here, there]
  unfold ReachesUnknown
  rw [sameSchema, candidate, passing]

end Commands

section Instances

/-- `t(a INT)`. -/
private def oneColumn : TableSchema ByteString :=
  ⟨[{ name := text "a", type := .int }], by decide, by decide⟩

private def withoutRow : Table ByteString Nat := Table.ofSchema (text "t") oneColumn

private def withRow (n : Int64) : Table ByteString Nat :=
  { withoutRow with rows := UnorderedMap.empty.emplace 1 [.int n], order := [1], nextId := 2 }

/-- The table `d.t`, with `d` in use. -/
private def holding (table : Table ByteString Nat) : EngineState Nat MapStore :=
  { dbms :=
      { databases := UnorderedMap.empty.emplace (text "d")
          ⟨text "d", UnorderedMap.empty.emplace (text "t") table⟩
        active := text "d" }
    world := [] }

/-- A misspelt column. -/
private def misspelt : UpdateCmd := ⟨[], text "t", [⟨text "b", .int 1⟩], none⟩

private def misspeltTokens : List Token :=
  [⟨.kwUpdate, text "UPDATE", 1⟩, ⟨.identifier, text "t", 1⟩, ⟨.kwSet, text "SET", 1⟩,
    ⟨.identifier, text "b", 1⟩, ⟨.opAssign, text "=", 1⟩, ⟨.intLiteral, text "1", 1⟩,
    ⟨.semicolon, text ";", 1⟩, ⟨.end_, [], 1⟩]

private theorem parseQuery_misspelt :
    parseQuery (text "UPDATE t SET b = 1") = .ok (RowCommand.update misspelt).command :=
  parseQuery_ok (l := misspeltTokens) (by decide +kernel) rfl

private theorem resolveTable_holding (table : Table ByteString Nat) :
    Engine.resolveTable (holding table).dbms [] (text "t") = .ok (text "d", table) := rfl

/-- No pattern is looked at. -/
private def matchesNone : RegexMatch := fun _ _ => .ok false

/-- What a call throws. -/
private def thrownBy (query : ByteString) (e : EngineState Nat MapStore) : Option Fault :=
  match Engine.execute matchesNone query e with
  | .ok _ _ => none
  | .error fault _ => some fault

private theorem thrownBy_of_error {query : ByteString} {e e' : EngineState Nat MapStore}
    {fault : Fault} (run : Engine.execute matchesNone query e = .error fault e') :
    thrownBy query e = some fault := by
  unfold thrownBy
  rw [run]

private theorem thrownBy_withoutRow :
    thrownBy (text "UPDATE t SET b = 1") (holding withoutRow) = none := by decide +kernel

private theorem thrownBy_withRow (n : Int64) :
    thrownBy (text "UPDATE t SET b = 1") (holding (withRow n)) =
      some (.throws .runtimeError (text "Table::require_column: unknown column 'b'")) := by
  unfold thrownBy Engine.execute
  rw [bind_ok (b := (RowCommand.update misspelt).command) (by rw [parseQuery_misspelt]; rfl)]
  rfl

private theorem noOtherError_withoutRow :
    NoOtherError matchesNone (text "UPDATE t SET b = 1") oneColumn (holding withoutRow) := by
  intro fault e' run
  have := thrownBy_of_error run
  rw [thrownBy_withoutRow] at this
  cases this

/-- The maps in memory never throw a `runtime_error`. -/
private theorem not_thrownBelow_runtimeError {what : ByteString} :
    ¬ ThrownBelow Nat matchesNone (.throws .runtimeError what) := by
  intro h
  cases h with
  | regex h => cases h
  | find h => cases h
  | @range i low high w h =>
      change (if low = .null ∨ high = .null then
        raise .invalidArgument (text "NULL cannot be used as index key") else .ok _) = _ at h
      split at h
      · cases h
      · cases h
  | hook h =>
      obtain ⟨i, k, id, w, h⟩ | ⟨i, k, w, h⟩ := h
      · change (if (MapStore.get w i).contains k then
          throw (.throws .logicError (text "Duplicate index key"))
          else set (w.set i ((MapStore.get w i).emplace k id)) : EStateM Fault MapStore PUnit) w =
          _ at h
        split at h
        · cases h
        · cases h
      · cases h
  | file h =>
      obtain ⟨name, w, h⟩ | ⟨name, db, w, h⟩ | ⟨dbName, tableName, c, w, h⟩ := h
      · cases h
      · cases h
      · cases h

private theorem noOtherError_withRow (n : Int64) :
    NoOtherError matchesNone (text "UPDATE t SET b = 1") oneColumn (holding (withRow n)) := by
  intro fault e' run
  have thrown := thrownBy_of_error run
  rw [thrownBy_withRow] at thrown
  obtain rfl := Option.some.inj thrown
  exact ⟨⟨text "b", by decide, .inl (by decide)⟩, not_thrownBelow_runtimeError⟩

/-- The misspelt UPDATE on two tables with a row. -/
theorem rejection_depends_on_rows_of_row :
    (Rejects matchesNone (text "UPDATE t SET b = 1") oneColumn (holding (withRow 7)) ↔
      UpFront oneColumn none ∨
      (Lacks oneColumn (whereNames none) ∧ StoresCandidate (withRow 7) ([] : MapStore) none) ∨
      (Lacks oneColumn [text "b"] ∧
        StoresPassing matchesNone (withRow 7) ([] : MapStore) none)) ∧
    ((StoresCandidate (withRow 7) ([] : MapStore) none ↔
        StoresCandidate (withRow 9) ([] : MapStore) none) →
      (StoresPassing matchesNone (withRow 7) ([] : MapStore) none ↔
        StoresPassing matchesNone (withRow 9) ([] : MapStore) none) →
      (Rejects matchesNone (text "UPDATE t SET b = 1") oneColumn (holding (withRow 7)) ↔
        Rejects matchesNone (text "UPDATE t SET b = 1") oneColumn (holding (withRow 9)))) :=
  rejection_depends_on_rows parseQuery_misspelt (resolveTable_holding (withRow 7))
    (resolveTable_holding (withRow 9)) rfl (noOtherError_withRow 7) (noOtherError_withRow 9)

/-- The misspelt UPDATE is answered OK by the table without a row. -/
theorem empty_table_accepts_unknown_column :
    ¬ ∀ (e e' : EngineState Nat MapStore) (query : ByteString) (cmd : RowCommand)
      (dbName dbName' : ByteString) (table table' : Table ByteString Nat),
      parseQuery query = .ok cmd.command →
      Engine.resolveTable e.dbms cmd.dbName cmd.tableName = .ok (dbName, table) →
      Engine.resolveTable e'.dbms cmd.dbName cmd.tableName = .ok (dbName', table') →
      table'.schema = table.schema →
      NoOtherError matchesNone query table.schema e →
      NoOtherError matchesNone query table'.schema e' →
      (Rejects matchesNone query table.schema e ↔ Rejects matchesNone query table'.schema e') := by
  intro independent
  have same := independent (holding withoutRow) (holding (withRow 7)) (text "UPDATE t SET b = 1")
    (.update misspelt) (text "d") (text "d") withoutRow (withRow 7) parseQuery_misspelt
    (resolveTable_holding withoutRow) (resolveTable_holding (withRow 7)) rfl
    noOtherError_withoutRow (noOtherError_withRow 7)
  have rejected :
      Rejects matchesNone (text "UPDATE t SET b = 1") oneColumn (holding (withRow 7)) := by
    cases run : Engine.execute matchesNone (text "UPDATE t SET b = 1") (holding (withRow 7)) with
    | ok answer e' =>
        have thrown := thrownBy_withRow 7
        unfold thrownBy at thrown
        rw [run] at thrown
        cases thrown
    | error fault e' => exact ⟨fault, e', run, (noOtherError_withRow 7 fault e' run).1⟩
  obtain ⟨fault, e', run, -⟩ := same.mpr rejected
  have thrown := thrownBy_of_error run
  rw [thrownBy_withoutRow] at thrown
  cases thrown

end Instances

end CwDb.Executor
