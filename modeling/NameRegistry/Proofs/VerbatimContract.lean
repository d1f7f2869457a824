import NameRegistry.Proofs.Declarations
import NameRegistry.Proofs.VerbatimFamily

/-! # The verbatim contract of declared dialects

A dialect owes two things to its verbatim family: the arity of a member is the one that its
label states, and members are not enumerated. The members that come from a limit are generated
so. A built-in that is declared is taken as it is, whatever its label.
-/

namespace NameRegistry.Dialect

/-- What a dialect owes to a label of the verbatim family. -/
structure VerbatimContract (dialect : Dialect) (label : Label) : Prop where
  arity : ∀ definition, dialect.builtin? label = some definition →
    definition.isVerbatim = true → Verbatim.ofLabel? label = some definition.arity
  hidden : ∀ definition, dialect.builtin? label = some definition →
    definition.isVerbatim = true → label ∉ dialect.builtinLabels

/-! ## The declaration that counts -/

/-- The built-in that a declaration defines under a label. -/
def Declaration.defined? (label : Label) : Declaration → Option Builtin
  | .builtin definition => if definition.name = label then some definition else none
  | _ => none

private theorem Declaration.defined?_eq_some_iff {declaration : Declaration} {label : Label}
    {definition : Builtin} :
    declaration.defined? label = some definition ↔
      declaration = .builtin definition ∧ definition.name = label := by
  cases declaration with
  | builtin other =>
      simp only [defined?, Option.ite_none_right_eq_some, Option.some.injEq, builtin.injEq]
      constructor
      · rintro ⟨same, rfl⟩
        exact ⟨rfl, same⟩
      · rintro ⟨rfl, same⟩
        exact ⟨same, rfl⟩
  | valueType | boolType | defaultType | reserve | negation | operation | verbatim =>
      simp [defined?]

/-- The last built-in that is declared with a label. -/
def lastBuiltin? (declarations : List Declaration) (label : Label) : Option Builtin :=
  declarations.reverse.findSome? (Declaration.defined? label)

theorem lastBuiltin?_eq_none_iff {declarations : List Declaration} {label : Label} :
    lastBuiltin? declarations label = none ↔
      ∀ definition, .builtin definition ∈ declarations → definition.name ≠ label := by
  simp only [lastBuiltin?, List.findSome?_eq_none_iff, List.mem_reverse]
  constructor
  · intro undefined definition member same
    have defined := Declaration.defined?_eq_some_iff.mpr ⟨rfl, same⟩
    exact absurd (defined.symm.trans (undefined _ member)) (by simp)
  · intro others declaration member
    cases defined : declaration.defined? label with
    | none => rfl
    | some definition =>
        rcases Declaration.defined?_eq_some_iff.mp defined with ⟨rfl, same⟩
        exact absurd same (others definition member)

namespace Tables

private theorem declaredBuiltin?_declare (tables : Tables) (declaration : Declaration)
    (label : Label) :
    (tables.declare declaration).declaredBuiltin? label =
      (declaration.defined? label).or (tables.declaredBuiltin? label) := by
  cases declaration with
  | builtin definition =>
      simp only [declare, declaredBuiltin?, Keyed.find?_insert, Declaration.defined?]
      split <;> rfl
  | valueType | boolType | defaultType | reserve | negation | operation | verbatim => rfl

theorem declaredBuiltin?_ofDeclarations (declarations : List Declaration) (label : Label) :
    (ofDeclarations declarations).declaredBuiltin? label = lastBuiltin? declarations label :=
  read_ofDeclarations (fun tables => tables.declaredBuiltin? label) rfl
    (fun tables declaration => tables.declaredBuiltin?_declare declaration label) declarations

end Tables

section Declared

variable {declarations : List Declaration} {label : Label} {definition : Builtin}

private theorem builtin?_of_declared (last : lastBuiltin? declarations label = some definition) :
    (ofDeclarations declarations).builtin? label = some definition ∧
      label ∈ (ofDeclarations declarations).builtinLabels := by
  have declared := (Tables.declaredBuiltin?_ofDeclarations declarations label).trans last
  refine ⟨?_, (Tables.name_of_declaredBuiltin? declared).2⟩
  simp only [ofDeclarations, Tables.toDialect, Tables.builtin?, declared, Option.some_or]

private theorem arity_of_undeclared (undeclared : lastBuiltin? declarations label = none)
    (found : (ofDeclarations declarations).builtin? label = some definition) :
    Verbatim.ofLabel? label = some definition.arity := by
  have declared := (Tables.declaredBuiltin?_ofDeclarations declarations label).trans undeclared
  rcases Tables.builtin?_cases found with listed | generated
  · exact absurd (declared.symm.trans listed) (by simp)
  · rcases Tables.of_verbatimBuiltin? generated with ⟨arity, read, rfl⟩
    rw [read, Tables.arity_verbatim]

private theorem not_mem_builtinLabels (undeclared : lastBuiltin? declarations label = none) :
    label ∉ (ofDeclarations declarations).builtinLabels := by
  intro enumerated
  rcases List.mem_map.mp enumerated with ⟨builtin, member, rfl⟩
  have listed := Tables.declaredBuiltin?_ofDeclarations declarations builtin.name
  rw [undeclared, Tables.declaredBuiltin?, Keyed.find?, List.find?_eq_none] at listed
  exact listed builtin member (by simp)

private theorem isVerbatim_of_builtin?
    (found : (ofDeclarations declarations).builtin? label = some definition) :
    definition.isVerbatim = true ↔ ∃ arity, Verbatim.ofLabel? label = some arity := by
  rw [(tabular_ofDeclarations declarations).isVerbatim_eq found, Option.isSome_iff_exists]

/-! ## The exact condition -/

private theorem verbatimContract_iff :
    (ofDeclarations declarations).VerbatimContract label ↔
      Verbatim.ofLabel? label = none ∨ lastBuiltin? declarations label = none := by
  constructor
  · intro keeps
    cases last : lastBuiltin? declarations label with
    | none => exact .inr rfl
    | some definition =>
        rcases builtin?_of_declared last with ⟨found, enumerated⟩
        cases read : Verbatim.ofLabel? label with
        | none => exact .inl rfl
        | some arity =>
            have verbatim := (isVerbatim_of_builtin? found).mpr ⟨arity, read⟩
            exact absurd enumerated (keeps.hidden definition found verbatim)
  · rintro (unread | undeclared)
    · have never {definition : Builtin}
          (found : (ofDeclarations declarations).builtin? label = some definition)
          (verbatim : definition.isVerbatim = true) : False := by
        rcases (isVerbatim_of_builtin? found).mp verbatim with ⟨arity, read⟩
        exact absurd (unread.symm.trans read) (by simp)
      exact ⟨fun _ found verbatim => (never found verbatim).elim,
        fun _ found verbatim => (never found verbatim).elim⟩
    · exact ⟨fun _ found _ => arity_of_undeclared undeclared found,
        fun _ _ _ => not_mem_builtinLabels undeclared⟩

/-- Only the last built-in that is declared with a label can have another arity. -/
theorem arity_stated_iff :
    (∀ definition, (ofDeclarations declarations).builtin? label = some definition →
        definition.isVerbatim = true → Verbatim.ofLabel? label = some definition.arity) ↔
      ∀ arity definition, Verbatim.ofLabel? label = some arity →
        lastBuiltin? declarations label = some definition → definition.arity = arity := by
  constructor
  · intro stated arity definition read last
    have found := (builtin?_of_declared last).1
    have again := stated definition found ((isVerbatim_of_builtin? found).mpr ⟨arity, read⟩)
    exact Option.some.inj (again.symm.trans read)
  · intro fits definition found verbatim
    cases last : lastBuiltin? declarations label with
    | none => exact arity_of_undeclared last found
    | some declared =>
        cases found.symm.trans (builtin?_of_declared last).1
        rcases (isVerbatim_of_builtin? found).mp verbatim with ⟨arity, read⟩
        rw [read, fits arity definition read last]

end Declared

/-- A dialect that is put together from declarations keeps the contract for a label exactly if
the label is none of the family or no built-in is declared with it. The arity is the one that
the label states exactly if the last built-in that is declared with it, if any, has that arity. -/
theorem verbatim_contract_of_declarations (declarations : List Declaration) (label : Label) :
    ((ofDeclarations declarations).VerbatimContract label ↔
      Verbatim.ofLabel? label = none ∨
        ∀ definition, .builtin definition ∈ declarations → definition.name ≠ label) ∧
    ((∀ definition, (ofDeclarations declarations).builtin? label = some definition →
        definition.isVerbatim = true → Verbatim.ofLabel? label = some definition.arity) ↔
      ∀ arity definition, Verbatim.ofLabel? label = some arity →
        lastBuiltin? declarations label = some definition → definition.arity = arity) := by
  rw [← lastBuiltin?_eq_none_iff]
  exact ⟨verbatimContract_iff, arity_stated_iff⟩

end NameRegistry.Dialect

namespace NameRegistry.Registry

private theorem internVerbatim?_of_made {registry : Registry} {arity : Arity} {definition : Builtin}
    {name : Name} (found : registry.dialect.verbatim? arity = some definition)
    (made : registry.instances.lookup definition.arity = some name) :
    internVerbatim? arity registry = .ok (some name) registry := by
  rcases verbatimInstance_cases definition registry with ⟨known, same, done⟩ | ⟨new, -⟩
  · cases made.symm.trans same
    exact internVerbatim?_of_ok found done
  · exact absurd (made.symm.trans new) (by simp)

/-- A built-in is declared with a label of the family and another arity than it states. The
registry has a single name for this arity and for the one that is stated. -/
theorem verbatim_contract_broken_by_declared_builtin :
    ∃ dialect registry, dialect = .ofDeclarations
        [.builtin (.untyped "verbatim_1i_1o" ⟨2, 0⟩), .verbatim 2] ∧
      ofDialect dialect = .ok registry ∧ ¬dialect.VerbatimContract "verbatim_1i_1o" ∧
      dialect.VerbatimContract "verbatim_2i_0o" ∧
      internVerbatim? ⟨1, 1⟩ registry = .ok (some ⟨2⟩) registry ∧
      internVerbatim? ⟨2, 0⟩ registry = .ok (some ⟨2⟩) registry := by
  have passed : reaches (.ofDeclarations
      [.builtin (.untyped "verbatim_1i_1o" ⟨2, 0⟩), .verbatim 2]) []
      (fun registry => decide (registry.instances.lookup ⟨2, 0⟩ = some ⟨2⟩)) = true := by
    decide +kernel
  rcases exists_of_reaches passed with ⟨registry, built, tested⟩
  have made : registry.instances.lookup ⟨2, 0⟩ = some ⟨2⟩ := of_decide_eq_true tested
  have dialect := (Reachable.start built).sound.1
  have contract := Dialect.verbatim_contract_of_declarations
    [.builtin (.untyped "verbatim_1i_1o" ⟨2, 0⟩), .verbatim 2]
  refine ⟨_, registry, rfl, built, ?_, ?_, ?_, ?_⟩
  · intro keeps
    rcases (contract "verbatim_1i_1o").1.mp keeps with unread | undeclared
    · exact absurd unread (by decide +kernel)
    · exact undeclared _ List.mem_cons_self rfl
  · refine (contract "verbatim_2i_0o").1.mpr (.inr ?_)
    simp [Builtin.untyped]
  · have found : registry.dialect.verbatim? ⟨1, 1⟩ =
        some (.untyped "verbatim_1i_1o" ⟨2, 0⟩) := by
      rw [dialect]
      decide +kernel
    exact internVerbatim?_of_made found made
  · have found : registry.dialect.verbatim? ⟨2, 0⟩ = some (.verbatim ⟨2, 0⟩) := by
      rw [dialect]
      decide +kernel
    exact internVerbatim?_of_made found made

end NameRegistry.Registry
