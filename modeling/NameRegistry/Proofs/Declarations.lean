import Mathlib.Data.List.Induction
import NameRegistry.Proofs.Layout

/-! # Dialects that are put together from declarations

The tables that declarations add up to enumerate a built-in once, however often it has been
declared, and define every built-in that they enumerate. Nothing keeps a built-in from having
the label of a type, the empty label or a label that registries use themselves.
-/

namespace NameRegistry.Dialect

/-- A dialect that enumerates its built-ins once each and defines them under their labels. -/
structure Tabular (dialect : Dialect) : Prop where
  distinct : dialect.builtinLabels.Nodup
  defined : ∀ label ∈ dialect.builtinLabels,
    ∃ definition, dialect.builtin? label = some definition
  named : ∀ label definition, dialect.builtin? label = some definition →
    definition.name = label
  listed : ∀ label definition, dialect.builtin? label = some definition →
    label ∈ dialect.builtinLabels ∨ ∃ arity, Verbatim.ofLabel? label = some arity

/-! ## The last declaration -/

/-- What the last one says of the declarations that say anything about a matter. -/
def lastSaid? (about : Declaration → Option α) (declarations : List Declaration) : Option α :=
  declarations.reverse.findSome? about

private theorem lastSaid?_concat (about : Declaration → Option α) (declarations : List Declaration)
    (declaration : Declaration) :
    lastSaid? about (declarations ++ [declaration]) =
      (about declaration).or (lastSaid? about declarations) := by
  rw [lastSaid?, List.reverse_concat, List.findSome?_cons]
  cases about declaration <;> rfl

namespace Tables

theorem ofDeclarations_concat (declarations : List Declaration) (declaration : Declaration) :
    ofDeclarations (declarations ++ [declaration]) =
      (ofDeclarations declarations).declare declaration := by
  rw [ofDeclarations, List.foldl_concat, ofDeclarations]

/-- If every declaration puts what it says about a matter in the place of what has been known,
the tables tell in the end what the last one says. -/
theorem read_ofDeclarations (read : Tables → Option α) {about : Declaration → Option α}
    (nothing : read {} = none)
    (declared : ∀ tables declaration,
      read (tables.declare declaration) = (about declaration).or (read tables))
    (declarations : List Declaration) :
    read (ofDeclarations declarations) = lastSaid? about declarations := by
  induction declarations using List.reverseRecOn with
  | nil => exact nothing
  | append_singleton declarations declaration induction =>
      rw [ofDeclarations_concat, declared, lastSaid?_concat, induction]

end Tables

/-! ## Enumerated built-ins -/

namespace Tables

private theorem nodup_declare {tables : Tables} (distinct : (tables.builtins.map (·.name)).Nodup)
    (declaration : Declaration) :
    ((tables.declare declaration).builtins.map (·.name)).Nodup := by
  cases declaration with
  | builtin definition => exact Keyed.nodup_insert Builtin.name definition distinct
  | valueType | boolType | defaultType | reserve | negation | operation | verbatim =>
      exact distinct

theorem nodup_ofDeclarations (declarations : List Declaration) :
    ((ofDeclarations declarations).builtins.map (·.name)).Nodup := by
  induction declarations using List.reverseRecOn with
  | nil => exact List.nodup_nil
  | append_singleton declarations declaration induction =>
      rw [ofDeclarations_concat]
      exact nodup_declare induction declaration

private theorem exists_builtin? {tables : Tables} {label : Label}
    (enumerated : label ∈ tables.builtins.map (·.name)) :
    ∃ definition, tables.builtin? label = some definition := by
  rcases List.mem_map.mp enumerated with ⟨builtin, member, rfl⟩
  have declared : (tables.declaredBuiltin? builtin.name).isSome := by
    rw [declaredBuiltin?, Keyed.find?, List.find?_isSome]
    exact ⟨builtin, member, by simp⟩
  rcases Option.isSome_iff_exists.mp declared with ⟨definition, found⟩
  exact ⟨definition, by rw [builtin?, found, Option.some_or]⟩

end Tables

theorem tabular_ofDeclarations (declarations : List Declaration) :
    (ofDeclarations declarations).Tabular where
  distinct := Tables.nodup_ofDeclarations declarations
  defined := fun _ enumerated => Tables.exists_builtin? enumerated
  named := fun _ _ found => Tables.name_of_builtin? found
  listed := fun _ _ found => Tables.listed_of_builtin? found

/-! ## Labels that stand for two things -/

/-- The label of a built-in that a name before the built-ins has too: it is also a type's, or
it is the one that a registry gives the verbatim base. -/
structure Doubled (dialect : Dialect) (label : Label) : Prop where
  unread : Verbatim.ofLabel? label = none
  enumerated : label ∈ dialect.builtinLabels
  before : label = verbatimBaseLabel ∨ label ≠ "" ∧ label ∈ dialect.types

theorem not_doubled_empty (dialect : Dialect) : ¬dialect.Doubled "" := by
  intro doubled
  rcases doubled.before with base | ⟨nonempty, -⟩
  · exact absurd base (by decide)
  · exact nonempty rfl

namespace Tabular

variable {dialect : Dialect} (tabular : dialect.Tabular) {label : Label}

include tabular

theorem isVerbatim_eq {definition : Builtin}
    (found : dialect.builtin? label = some definition) :
    definition.isVerbatim = (Verbatim.ofLabel? label).isSome := by
  rw [Builtin.isVerbatim, tabular.named label definition found]

theorem ordinary_of_unread (unread : Verbatim.ofLabel? label = none) : dialect.Ordinary label := by
  intro definition found
  rw [tabular.isVerbatim_eq found, unread, Option.isSome_none]

theorem ordinary_empty : dialect.Ordinary "" :=
  tabular.ordinary_of_unread (by decide +kernel)

theorem isSome_builtin?_iff (ordinary : dialect.Ordinary label) :
    (dialect.builtin? label).isSome = true ↔ label ∈ dialect.builtinLabels := by
  rw [Option.isSome_iff_exists]
  constructor
  · intro given
    rcases given with ⟨definition, found⟩
    rcases tabular.listed label definition found with enumerated | ⟨arity, read⟩
    · exact enumerated
    · have unread := ordinary definition found
      rw [tabular.isVerbatim_eq found, read] at unread
      exact absurd unread (by simp)
  · exact tabular.defined label

private theorem ordinary_iff (enumerated : label ∈ dialect.builtinLabels) :
    dialect.Ordinary label ↔ Verbatim.ofLabel? label = none := by
  refine ⟨fun ordinary => ?_, tabular.ordinary_of_unread⟩
  rcases tabular.defined label enumerated with ⟨definition, found⟩
  have unread := ordinary definition found
  rw [tabular.isVerbatim_eq found] at unread
  simpa using unread

private theorem count_layout (enumerated : label ∈ dialect.builtinLabels) (nonempty : label ≠ "") :
    dialect.layout.count label =
      dialect.types.count label + (if verbatimBaseLabel = label then 1 else 0) + 1 := by
  have kept (labels : List Label) :
      (labels.filter (· ≠ "")).count label = labels.count label :=
    List.count_filter (by simpa using nonempty)
  have once := List.count_eq_one_of_mem tabular.distinct enumerated
  rw [layout, typeLabels, List.count_append, List.count_cons, List.count_cons, kept, kept, once]
  simp only [beq_iff_eq, Ne.symm nonempty, if_false]
  omega

omit tabular in
private theorem count_layout_empty : dialect.layout.count "" = 1 := by
  have dropped (labels : List Label) : (labels.filter (· ≠ "")).count "" = 0 :=
    List.count_eq_zero.mpr (by simp)
  have base : verbatimBaseLabel ≠ "" := by decide
  rw [layout, typeLabels, List.count_append, List.count_cons, List.count_cons, dropped, dropped]
  simp [base]

theorem doubled_iff :
    dialect.Doubled label ↔
      dialect.Ordinary label ∧ label ∈ dialect.builtinLabels ∧
        1 < dialect.layout.count label := by
  by_cases enumerated : label ∈ dialect.builtinLabels
  · rw [tabular.ordinary_iff enumerated]
    by_cases empty : label = ""
    · subst empty
      rw [count_layout_empty]
      exact ⟨fun doubled => absurd doubled dialect.not_doubled_empty,
        fun given => absurd given.2.2 (Nat.lt_irrefl 1)⟩
    · have declared : 0 < dialect.types.count label ↔ label ∈ dialect.types := List.count_pos_iff
      rw [tabular.count_layout enumerated empty]
      constructor
      · intro doubled
        refine ⟨doubled.unread, enumerated, ?_⟩
        rcases doubled.before with rfl | ⟨-, type⟩
        · rw [if_pos rfl]
          omega
        · have once := declared.mpr type
          omega
      · intro given
        rcases given with ⟨unread, -, twice⟩
        refine ⟨unread, enumerated, ?_⟩
        by_cases base : label = verbatimBaseLabel
        · exact .inl base
        · rw [if_neg (Ne.symm base)] at twice
          exact .inr ⟨empty, declared.mp (by omega)⟩
  · exact ⟨fun doubled => absurd doubled.enumerated enumerated,
      fun given => absurd given.2.1 enumerated⟩

end Tabular

end NameRegistry.Dialect
