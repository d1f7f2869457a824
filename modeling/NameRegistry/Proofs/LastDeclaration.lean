import Mathlib.Data.List.ProdSigma
import NameRegistry.Proofs.VerbatimContract

/-! # The declaration that counts

Whatever the order in which declarations come, the finished tables answer from the last one that
speaks of a matter, and labels are looked up when all of them are in. The tables can be told from
the declarations alone. Built-ins may as well be found by their place in the enumeration, and the
verbatim family be listed beforehand: the answers are the same.
-/

namespace NameRegistry.Dialect

namespace Declaration

def builtinLabel? : Declaration → Option Label
  | .builtin definition => some definition.name
  | _ => none

def negation? : Declaration → Option Label
  | .negation label => some label
  | _ => none

/-- The label that a declaration assigns to an operation of a type. -/
def assigned? (wanted : TypeOperation) (wantedType : Label) : Declaration → Option Label
  | .operation performed type label =>
      if performed = wanted ∧ type = wantedType then some label else none
  | _ => none

def limit? : Declaration → Option Nat
  | .verbatim limit => some limit
  | _ => none

end Declaration

/-- The verbatim built-in that a limit provides under a label: both counts are within the limit,
all types are left unspecified, and all effects are possible but those of a calculation. -/
def ProvidedWithin (limit : Nat) (label : Label) (definition : Builtin) : Prop :=
  ∃ parameters returns : UInt64, parameters.toNat ≤ limit ∧ returns.toNat ≤ limit ∧
    label = Verbatim.label ⟨parameters.toNat, returns.toNat⟩ ∧
    definition = .untyped label ⟨parameters.toNat, returns.toNat⟩
      (Effects.all \ Effects.calculation)

/-! ## What the tables hold -/

namespace Tables

variable (declarations : List Declaration)

private theorem negation_ofDeclarations :
    (ofDeclarations declarations).negation = lastSaid? Declaration.negation? declarations := by
  refine read_ofDeclarations Tables.negation rfl (fun tables declaration => ?_) _
  cases declaration <;> rfl

private theorem verbatimLimit_ofDeclarations :
    (ofDeclarations declarations).verbatimLimit = lastSaid? Declaration.limit? declarations := by
  refine read_ofDeclarations Tables.verbatimLimit rfl (fun tables declaration => ?_) _
  cases declaration <;> rfl

private theorem lookup_operations_ofDeclarations (operation : TypeOperation) (type : Label) :
    (ofDeclarations declarations).operations.lookup (operation, type) =
      lastSaid? (Declaration.assigned? operation type) declarations := by
  refine read_ofDeclarations (fun tables => tables.operations.lookup (operation, type)) rfl
    (fun tables declaration => ?_) _
  cases declaration with
  | operation other otherType builtin =>
      simp only [declare, List.lookup_cons, Declaration.assigned?]
      by_cases same : other = operation ∧ otherType = type
      · rcases same with ⟨rfl, rfl⟩
        simp
      · have different : ((operation, type) == (other, otherType)) = false := by
          rw [beq_eq_false_iff_ne]
          intro equal
          cases equal
          exact same ⟨rfl, rfl⟩
        rw [different, if_neg same]
        rfl
  | valueType | boolType | defaultType | builtin | reserve | negation | verbatim => rfl

private theorem mem_reserved_ofDeclarations (label : Label) :
    label ∈ (ofDeclarations declarations).reserved ↔ .reserve label ∈ declarations := by
  induction declarations using List.reverseRecOn with
  | nil => simp [ofDeclarations]
  | append_singleton declarations declaration induction =>
      rw [ofDeclarations_concat]
      cases declaration with
      | reserve word => simp [declare, induction, or_comm]
      | valueType | boolType | defaultType | builtin | negation | operation | verbatim =>
          simpa [declare] using induction

private theorem names_ofDeclarations :
    (ofDeclarations declarations).builtins.map (·.name) =
      (declarations.filterMap Declaration.builtinLabel?).eraseDups := by
  induction declarations using List.reverseRecOn with
  | nil => rfl
  | append_singleton declarations declaration induction =>
      rw [ofDeclarations_concat, List.filterMap_append]
      cases declaration with
      | builtin definition =>
          rw [declare, Keyed.map_insert, induction]
          simp only [List.mem_eraseDups]
          exact (Lists.eraseDups_concat _ definition.name).symm
      | valueType | boolType | defaultType | reserve | negation | operation | verbatim =>
          exact induction.trans (congrArg List.eraseDups (List.append_nil _).symm)

private theorem isSome_declaredBuiltin?_iff (label : Label) :
    ((ofDeclarations declarations).declaredBuiltin? label).isSome = true ↔
      ∃ definition, .builtin definition ∈ declarations ∧ definition.name = label := by
  rw [declaredBuiltin?_ofDeclarations, ← Option.ne_none_iff_isSome, ne_eq, lastBuiltin?_eq_none_iff]
  simp

end Tables

/-! ## What is found under a label -/

namespace Tables

private theorem verbatimBuiltin?_eq_some_iff {tables : Tables} {label : Label}
    {definition : Builtin} :
    tables.verbatimBuiltin? label = some definition ↔
      ∃ limit, tables.verbatimLimit = some limit ∧ ProvidedWithin limit label definition := by
  simp only [verbatimBuiltin?, Option.bind_eq_bind, Option.bind_eq_some_iff,
    Option.ite_none_right_eq_some, Option.some.injEq]
  constructor
  · rintro ⟨limit, held, arity, read, within, rfl⟩
    rcases Verbatim.ofLabel?_eq_some_iff.mp read with ⟨rfl, parametersFit, returnsFit⟩
    refine ⟨limit, held, .ofNat arity.parameters, .ofNat arity.returns, ?_⟩
    rw [UInt64.toNat_ofNat_of_lt' parametersFit, UInt64.toNat_ofNat_of_lt' returnsFit]
    exact ⟨within.1, within.2, rfl, rfl⟩
  · rintro ⟨limit, held, parameters, returns, parametersWithin, returnsWithin, rfl, rfl⟩
    refine ⟨limit, held, ⟨parameters.toNat, returns.toNat⟩, ?_,
      ⟨parametersWithin, returnsWithin⟩, rfl⟩
    exact Verbatim.ofLabel?_eq_some_iff.mpr ⟨rfl, parameters.toNat_lt, returns.toNat_lt⟩

private theorem builtin?_eq_some_iff {declarations : List Declaration} {label : Label}
    {definition : Builtin} :
    (ofDeclarations declarations).builtin? label = some definition ↔
      lastBuiltin? declarations label = some definition ∨
        lastBuiltin? declarations label = none ∧
          ∃ limit, lastSaid? Declaration.limit? declarations = some limit ∧
            ProvidedWithin limit label definition := by
  rw [builtin?, Option.or_eq_some_iff, declaredBuiltin?_ofDeclarations,
    verbatimBuiltin?_eq_some_iff, verbatimLimit_ofDeclarations]

private theorem reserves_iff {declarations : List Declaration} {label : Label} :
    (ofDeclarations declarations).reserves label = true ↔
      (∃ definition, .builtin definition ∈ declarations ∧ definition.name = label) ∨
        (∃ rest, label = Verbatim.family ++ rest) ∨ .reserve label ∈ declarations := by
  have begins : Verbatim.family.toList.isPrefixOf label.toList = true ↔
      ∃ rest, label = Verbatim.family ++ rest := by
    rw [List.isPrefixOf_iff_prefix]
    constructor
    · rintro ⟨rest, same⟩
      refine ⟨String.ofList rest, String.toList_inj.mp ?_⟩
      simp [same]
    · rintro ⟨rest, rfl⟩
      exact ⟨rest.toList, String.toList_append.symm⟩
  rw [reserves, Bool.or_eq_true, Bool.or_eq_true, isSome_declaredBuiltin?_iff, begins,
    decide_eq_true_iff, mem_reserved_ofDeclarations, or_assoc]

private theorem reserves_of_builtin? {declarations : List Declaration} {label : Label}
    {definition : Builtin}
    (found : (ofDeclarations declarations).builtin? label = some definition) :
    (ofDeclarations declarations).reserves label = true := by
  rcases builtin?_cases found with declared | generated
  · simp [reserves, declared]
  · rcases of_verbatimBuiltin? generated with ⟨arity, read, -⟩
    refine reserves_iff.mpr (.inr (.inl ⟨"_" ++ toString arity.parameters ++ "i_" ++
      toString arity.returns ++ "o", ?_⟩))
    rw [← Verbatim.label_of_ofLabel? read, Verbatim.label]
    simp only [String.append_assoc]

end Tables

/-! ## Lookups by place -/

/-- Of the values that are noted for a label the last one counts. -/
def noted? (notes : List (Label × α)) (label : Label) : Option α := notes.reverse.lookup label

private theorem noted?_eq_some_iff {notes : List (Label × α)} (distinct : (notes.map (·.1)).Nodup)
    {label : Label} {value : α} : noted? notes label = some value ↔ (label, value) ∈ notes := by
  constructor
  · exact fun found => List.mem_reverse.mp (Keyed.mem_of_lookup found)
  · intro member
    apply Keyed.lookup_of_mem
    · rw [List.map_reverse]
      exact List.nodup_reverse.mpr distinct
    · exact List.mem_reverse.mpr member

/-- The counts up to a limit, as far as they fit into 64 bits. -/
def counts (limit : Nat) : List Nat := List.range (min (limit + 1) Verbatim.countLimit)

/-- The verbatim built-ins within a limit, each noted under its label: for every count of
parameters those with each count of returns. -/
def family (limit : Nat) : List (Label × Builtin) :=
  (counts limit ×ˢ counts limit).map fun count =>
    (Verbatim.label ⟨count.1, count.2⟩, Builtin.verbatim ⟨count.1, count.2⟩)

private theorem mem_counts {limit count : Nat} :
    count ∈ counts limit ↔ count ≤ limit ∧ count < Verbatim.countLimit := by
  rw [counts, List.mem_range]
  omega

private theorem nodup_family (limit : Nat) : ((family limit).map (·.1)).Nodup := by
  rw [family, List.map_map]
  refine List.Nodup.map_on ?_ (List.nodup_range.product List.nodup_range)
  -- Labels can be read back, so different counts are written differently.
  have read : ∀ count ∈ counts limit ×ˢ counts limit,
      Verbatim.ofLabel? (Verbatim.label ⟨count.1, count.2⟩) = some ⟨count.1, count.2⟩ := by
    intro count member
    rcases List.mem_product.mp member with ⟨parameters, returns⟩
    exact Verbatim.ofLabel?_eq_some_iff.mpr
      ⟨rfl, (mem_counts.mp parameters).2, (mem_counts.mp returns).2⟩
  rintro ⟨parameters, returns⟩ isLeft ⟨others, otherReturns⟩ isRight same
  have again := (read _ isLeft).symm.trans ((congrArg _ same).trans (read _ isRight))
  cases again
  rfl

private theorem noted?_family {limit : Nat} {label : Label} {definition : Builtin} :
    noted? (family limit) label = some definition ↔ ProvidedWithin limit label definition := by
  rw [noted?_eq_some_iff (nodup_family limit), family, List.mem_map]
  constructor
  · rintro ⟨⟨parameters, returns⟩, member, same⟩
    cases same
    rcases List.mem_product.mp member with ⟨isParameters, isReturns⟩
    rcases mem_counts.mp isParameters with ⟨parametersWithin, parametersFit⟩
    rcases mem_counts.mp isReturns with ⟨returnsWithin, returnsFit⟩
    refine ⟨.ofNat parameters, .ofNat returns, ?_⟩
    rw [UInt64.toNat_ofNat_of_lt' parametersFit, UInt64.toNat_ofNat_of_lt' returnsFit]
    exact ⟨parametersWithin, returnsWithin, rfl, rfl⟩
  · rintro ⟨parameters, returns, parametersWithin, returnsWithin, rfl, rfl⟩
    refine ⟨(parameters.toNat, returns.toNat), List.mem_product.mpr ⟨?_, ?_⟩, rfl⟩
    · exact mem_counts.mpr ⟨parametersWithin, parameters.toNat_lt⟩
    · exact mem_counts.mpr ⟨returnsWithin, returns.toNat_lt⟩

namespace Tables

/-- The labels of the enumerated built-ins, each noted with its place. -/
def places (tables : Tables) : List (Label × Nat) := (tables.builtins.map (·.name)).zipIdx

/-- Goes to the place that is noted for a label, and otherwise through the family within the
limit. -/
def builtinByPlace? (tables : Tables) (label : Label) : Option Builtin :=
  match noted? tables.places label with
  | some place => tables.builtins[place]?
  | none => tables.verbatimLimit.bind fun limit => noted? (family limit) label

section Distinct

variable {tables : Tables} (distinct : (tables.builtins.map (·.name)).Nodup) {label : Label}

include distinct

private theorem noted?_places {place : Nat} :
    noted? tables.places label = some place ↔
      ∃ definition, tables.builtins[place]? = some definition ∧ definition.name = label := by
  have keys : tables.places.map (·.1) = tables.builtins.map (·.name) := List.zipIdx_map_fst _ _
  rw [noted?_eq_some_iff (keys ▸ distinct), places, List.mk_mem_zipIdx_iff_getElem?,
    List.getElem?_map, Option.map_eq_some_iff]

private theorem declaredBuiltin?_of_mem {definition : Builtin}
    (member : definition ∈ tables.builtins) :
    tables.declaredBuiltin? definition.name = some definition := by
  cases found : tables.declaredBuiltin? definition.name with
  | none =>
      have missed := List.find?_eq_none.mp found definition member
      exact absurd missed (by simp)
  | some other =>
      have listed := List.mem_of_find?_eq_some found
      have same : other.name = definition.name := (name_of_declaredBuiltin? found).1
      rw [List.inj_on_of_nodup_map distinct listed member same]

private theorem builtinByPlace?_eq : tables.builtinByPlace? label = tables.builtin? label := by
  unfold builtinByPlace? builtin?
  cases noted : noted? tables.places label with
  | some place =>
      rcases (noted?_places distinct).mp noted with ⟨definition, placed, rfl⟩
      have member := List.mem_of_getElem? placed
      rw [declaredBuiltin?_of_mem distinct member, Option.some_or]
      exact placed
  | none =>
      have undeclared : tables.declaredBuiltin? label = none := by
        rw [Option.eq_none_iff_forall_ne_some]
        intro definition found
        rcases List.getElem?_of_mem (List.mem_of_find?_eq_some found) with ⟨place, placed⟩
        have known := (noted?_places distinct).mpr
          ⟨definition, placed, (name_of_declaredBuiltin? found).1⟩
        exact absurd (noted.symm.trans known) (by simp)
      rw [undeclared, Option.none_or]
      refine Option.ext fun definition => ?_
      rw [verbatimBuiltin?_eq_some_iff, Option.bind_eq_some_iff]
      simp only [noted?_family]

end Distinct

end Tables

/-- A dialect that is put together from declarations enumerates the labels of its built-ins in
the order of their first declaration. Under a label it finds the last built-in declared with it,
and otherwise the verbatim one that the last limit provides. What it finds has the label and is
reserved; beside these labels, those that begin like the verbatim family and the reserved words
are. Operations and the negation are found under the label that was assigned last. The tables
answer as if each built-in were looked up by its place and the family were listed beforehand. -/
theorem last_declaration_counts (declarations : List Declaration) :
    (ofDeclarations declarations).builtinLabels =
      (declarations.filterMap Declaration.builtinLabel?).eraseDups ∧
    (∀ label definition, (ofDeclarations declarations).builtin? label = some definition ↔
      lastBuiltin? declarations label = some definition ∨
        lastBuiltin? declarations label = none ∧
          ∃ limit, lastSaid? Declaration.limit? declarations = some limit ∧
            ProvidedWithin limit label definition) ∧
    (∀ label definition, (ofDeclarations declarations).builtin? label = some definition →
      definition.name = label ∧ (ofDeclarations declarations).reserves label = true) ∧
    (∀ label, (ofDeclarations declarations).reserves label = true ↔
      (∃ definition, .builtin definition ∈ declarations ∧ definition.name = label) ∨
        (∃ rest, label = Verbatim.family ++ rest) ∨ .reserve label ∈ declarations) ∧
    (∀ operation type, (ofDeclarations declarations).operation? operation type =
      (lastSaid? (Declaration.assigned? operation type) declarations).bind
        (ofDeclarations declarations).builtin?) ∧
    (ofDeclarations declarations).negation? =
      (lastSaid? Declaration.negation? declarations).bind
        (ofDeclarations declarations).builtin? ∧
    ∀ label, (ofDeclarations declarations).builtin? label =
      (Tables.ofDeclarations declarations).builtinByPlace? label := by
  refine ⟨Tables.names_ofDeclarations declarations, ?_, ?_, ?_, ?_, ?_, ?_⟩
  · exact fun label definition => Tables.builtin?_eq_some_iff
  · exact fun label definition found =>
      ⟨Tables.name_of_builtin? found, Tables.reserves_of_builtin? found⟩
  · exact fun label => Tables.reserves_iff
  · intro operation type
    rw [← Tables.lookup_operations_ofDeclarations]
    rfl
  · rw [← Tables.negation_ofDeclarations]
    rfl
  · exact fun label =>
      (Tables.builtinByPlace?_eq (Tables.nodup_ofDeclarations declarations)).symm

/-- The negation is assigned before its built-in is declared, the built-in is declared twice,
and so is the limit of the verbatim family. -/
theorem last_declaration_counts_of_repetitions :
    ∃ declarations, declarations =
        [.negation "not", .builtin (.untyped "not" ⟨1, 0⟩), .verbatim 0,
          .builtin (.untyped "add" ⟨2, 1⟩), .builtin (.untyped "not" ⟨1, 1⟩), .verbatim 2] ∧
      (ofDeclarations declarations).builtinLabels = ["not", "add"] ∧
      (ofDeclarations declarations).negation? = some (.untyped "not" ⟨1, 1⟩) ∧
      (ofDeclarations declarations).builtin? "verbatim_0i_2o" = some (.verbatim ⟨0, 2⟩) ∧
      (Builtin.verbatim ⟨0, 2⟩).name = "verbatim_0i_2o" ∧
      (ofDeclarations declarations).reserves "verbatim_0i_2o" = true := by
  refine ⟨_, rfl, ?_⟩
  rcases last_declaration_counts
    [.negation "not", .builtin (.untyped "not" ⟨1, 0⟩), .verbatim 0,
      .builtin (.untyped "add" ⟨2, 1⟩), .builtin (.untyped "not" ⟨1, 1⟩), .verbatim 2] with
    ⟨labels, found, named, -, -, negated, -⟩
  have provided := (found "verbatim_0i_2o" (.verbatim ⟨0, 2⟩)).mpr
    (.inr ⟨by decide +kernel, 2, rfl, 0, 2, by decide, by decide, by decide +kernel, rfl⟩)
  refine ⟨labels.trans (by decide +kernel), negated.trans ?_, provided, named _ _ provided⟩
  exact (found "not" (.untyped "not" ⟨1, 1⟩)).mpr (.inl (by decide +kernel))

end NameRegistry.Dialect
