import Mathlib.Data.List.Basic
import Mathlib.Data.Option.Basic
import NameRegistry.Label.Suffix
import NameRegistry.Label.Verbatim

/-! # What verbatim labels look like

An arity whose counts fit is read from the label that it is written as, and from no other.
Such a label ends in a letter, so a label with a counter is never one. Reading takes the digits
off the front of each count; cutting the text at the separator first comes to the same.
-/

namespace NameRegistry

/-! ## Numerals -/

namespace Numeral

private theorem digitChar_of_isDigit {digit : Char} (isDigit : digit.isDigit = true) :
    digit.toNat - '0'.toNat < 10 ∧ Nat.digitChar (digit.toNat - '0'.toNat) = digit := by
  have range : 48 ≤ digit.toNat ∧ digit.toNat ≤ 57 := by
    simpa [Char.isDigit, UInt32.le_iff_toNat_le] using isDigit
  have zero : '0'.toNat = 48 := rfl
  have small : digit.toNat - '0'.toNat < 10 := by omega
  refine ⟨small, Char.toNat_inj.mp ?_⟩
  rw [Nat.toNat_digitChar_of_lt_ten small]
  omega

private theorem toDigits_ofDigitChars {digits : List Char} {start : Nat} (positive : 0 < start)
    (allDigits : ∀ digit ∈ digits, digit.isDigit = true) :
    Nat.toDigits 10 (Nat.ofDigitChars 10 digits start) = Nat.toDigits 10 start ++ digits := by
  induction digits generalizing start with
  | nil => simp
  | cons digit digits induction =>
      rcases digitChar_of_isDigit (allDigits digit List.mem_cons_self) with ⟨small, same⟩
      have appended := Nat.toDigits_append_toDigits (b := 10) (by decide) positive small
      rw [Nat.toDigits_of_lt_base small, same] at appended
      have stillPositive : 0 < 10 * start + (digit.toNat - '0'.toNat) := by omega
      rw [Nat.ofDigitChars_cons, induction stillPositive
        (fun other member => allDigits other (List.mem_cons_of_mem digit member)), ← appended]
      simp

private theorem write_of_read? {digits : List Char} {value : Nat}
    (read : read? digits = some value) : write value = digits := by
  unfold read? at read
  split at read
  · exact absurd read (by simp)
  · next rest =>
      split at read
      · next empty =>
          cases read
          rw [List.isEmpty_iff.mp empty]
          rfl
      · exact absurd read (by simp)
  · next notEmpty notZero =>
      split at read
      · next allDigits =>
          cases read
          rw [List.all_eq_true] at allDigits
          cases digits with
          | nil => exact absurd rfl notEmpty
          | cons first rest =>
              rcases digitChar_of_isDigit (allDigits first List.mem_cons_self) with ⟨small, same⟩
              have positive : 0 < first.toNat - '0'.toNat := by
                apply Nat.pos_of_ne_zero
                intro zero
                rw [zero] at same
                exact notZero rest (by rw [← same]; rfl)
              rw [write, Nat.ofDigitChars_cons, Nat.mul_zero, Nat.zero_add,
                toDigits_ofDigitChars positive
                  (fun digit member => allDigits digit (List.mem_cons_of_mem first member)),
                Nat.toDigits_of_lt_base small, same]
              rfl
      · exact absurd read (by simp)

private theorem isDigit_of_mem_write {value : Nat} {digit : Char} (member : digit ∈ write value) :
    digit.isDigit = true :=
  Nat.isDigit_of_mem_toDigits (by decide) (by decide) member

private theorem head?_write_ne_zero {value : Nat} (positive : 0 < value) :
    (write value).head? ≠ some '0' := by
  induction value using Nat.strongRecOn with
  | ind value induction =>
      rw [write, Nat.toDigits_eq_if (by decide)]
      split
      · next small =>
          intro zero
          have same : (Nat.digitChar value).toNat = '0'.toNat :=
            congrArg Char.toNat (Option.some.inj zero)
          have zeroValue : '0'.toNat = 48 := rfl
          rw [Nat.toNat_digitChar_of_lt_ten small] at same
          omega
      · next large =>
          rw [List.head?_append, Option.or_of_isSome (by simp [Nat.toDigits_ne_nil])]
          exact induction (value / 10) (by omega) (by omega)

private theorem read?_write (value : Nat) : read? (write value) = some value := by
  rcases Nat.eq_zero_or_pos value with rfl | positive
  · rfl
  · have leading := head?_write_ne_zero positive
    unfold read?
    split
    · next empty => exact absurd empty Nat.toDigits_ne_nil
    · next rest zero => exact absurd (congrArg List.head? zero) leading
    · have allDigits : (write value).all Char.isDigit = true :=
        List.all_eq_true.mpr fun digit member => isDigit_of_mem_write member
      rw [if_pos allDigits, write, Nat.ofDigitChars_ten_toDigits]

end Numeral

/-! ## Labels -/

namespace Verbatim

private theorem toList_label (arity : Arity) :
    (label arity).toList = (family ++ "_").toList ++ ((toString arity.parameters).toList ++
      ("i_".toList ++ ((toString arity.returns).toList ++ ['o']))) := by
  simp [label, List.append_assoc]

private theorem of_count? {digits : List Char} {value : Nat}
    (counted : count? digits = some value) :
    (toString value).toList = digits ∧ value < countLimit := by
  rcases Option.filter_eq_some_iff.mp counted with ⟨read, fits⟩
  rw [Nat.toString_eq_repr, Nat.toList_repr]
  exact ⟨Numeral.write_of_read? read, by simpa using fits⟩

theorem label_of_ofLabel? {label : Label} {arity : Arity} (read : ofLabel? label = some arity) :
    Verbatim.label arity = label := by
  unfold ofLabel? ofChars? at read
  rcases Option.bind_eq_some_iff.mp read with ⟨counts, opening, read⟩
  rcases Option.bind_eq_some_iff.mp read with ⟨returns, middle, read⟩
  rcases Option.bind_eq_some_iff.mp read with ⟨_, guarded, read⟩
  rcases Option.bind_eq_some_iff.mp read with ⟨parameterCount, parameters, read⟩
  rcases Option.bind_eq_some_iff.mp read with ⟨returnCount, results, read⟩
  cases read
  have closing : returns.dropWhile Char.isDigit = ['o'] := by
    unfold guard at guarded
    split at guarded
    · assumption
    · exact absurd guarded (by simp [failure])
  have text : label.toList = (family ++ "_").toList ++ (counts.takeWhile Char.isDigit ++
      ("i_".toList ++ (returns.takeWhile Char.isDigit ++ ['o']))) := by
    rw [← closing, List.takeWhile_append_dropWhile, List.append_eq_of_isPrefixOf?_eq_some middle,
      List.takeWhile_append_dropWhile, List.append_eq_of_isPrefixOf?_eq_some opening]
  apply String.toList_inj.mp
  rw [text, toList_label, (of_count? parameters).1, (of_count? results).1]

private theorem count?_toString (value : Nat) :
    count? (toString value).toList = if value < countLimit then some value else none := by
  rw [count?, Nat.toString_eq_repr, Nat.toList_repr]
  have read := Numeral.read?_write value
  rw [Numeral.write] at read
  rw [read, Option.filter_some]
  simp only [decide_eq_true_eq]

private theorem isDigit_of_mem_toString {value : Nat} {digit : Char}
    (member : digit ∈ (toString value).toList) : digit.isDigit = true := by
  rw [Nat.toString_eq_repr, Nat.toList_repr] at member
  exact Numeral.isDigit_of_mem_write member

private theorem span_toString (value : Nat) (letter : Char) (rest : List Char)
    (notDigit : letter.isDigit = false) :
    ((toString value).toList ++ letter :: rest).takeWhile Char.isDigit =
        (toString value).toList ∧
      ((toString value).toList ++ letter :: rest).dropWhile Char.isDigit = letter :: rest := by
  have allDigits : ∀ digit ∈ (toString value).toList, digit.isDigit = true :=
    fun digit member => isDigit_of_mem_toString member
  constructor
  · rw [List.takeWhile_append_of_pos allDigits, List.takeWhile_cons_of_neg (by simp [notDigit]),
      List.append_nil]
  · rw [List.dropWhile_append_of_pos allDigits, List.dropWhile_cons_of_neg (by simp [notDigit])]

theorem ofLabel?_label (arity : Arity) :
    ofLabel? (label arity) =
      if arity.parameters < countLimit ∧ arity.returns < countLimit then some arity else none := by
  have opened : (family ++ "_").toList.isPrefixOf? (label arity).toList =
      some ((toString arity.parameters).toList ++ 'i' :: '_' ::
        ((toString arity.returns).toList ++ ['o'])) :=
    List.isPrefixOf?_eq_some_iff_append_eq.mpr (toList_label arity).symm
  rcases span_toString arity.parameters 'i' ('_' :: ((toString arity.returns).toList ++ ['o']))
    (by decide) with ⟨parameters, middle⟩
  rcases span_toString arity.returns 'o' [] (by decide) with ⟨returns, closing⟩
  have inside : "i_".toList.isPrefixOf? ('i' :: '_' :: ((toString arity.returns).toList ++ ['o'])) =
      some ((toString arity.returns).toList ++ ['o']) := rfl
  rw [ofLabel?, ofChars?, opened]
  simp only [Option.bind_eq_bind, Option.bind_some, middle, inside, closing, parameters, returns,
    count?_toString]
  by_cases parametersFit : arity.parameters < countLimit <;>
    by_cases returnsFit : arity.returns < countLimit <;>
      simp [parametersFit, returnsFit]

theorem ofLabel?_candidate (base : Label) (bump : Nat) :
    ofLabel? (Suffix.candidate base (bump + 1)) = none := by
  cases read : ofLabel? (Suffix.candidate base (bump + 1)) with
  | none => rfl
  | some arity =>
      -- A counter ends in a digit, and a label of the family in a letter.
      have ends := congrArg (fun label => label.toList.getLast?) (label_of_ofLabel? read)
      have letter : (Verbatim.label arity).toList.getLast? = some 'o' := by
        rw [Verbatim.label, String.toList_append]
        exact List.getLast?_concat
      have digit : 'o' ∈ Nat.toDigits 10 (bump + 1) := by
        simp only [letter, Suffix.candidate, String.toList_append, Nat.toString_eq_repr,
          Nat.toList_repr, List.getLast?_append] at ends
        have nonempty : (Nat.toDigits 10 (bump + 1)).getLast?.isSome :=
          List.getLast?_isSome.mpr Nat.toDigits_ne_nil
        rcases Option.isSome_iff_exists.mp nonempty with ⟨last, found⟩
        rw [found, Option.some_or] at ends
        exact Option.some.inj ends ▸ List.mem_of_getLast? found
      have wrong := Nat.isDigit_of_mem_toDigits (by decide) (by decide) digit
      exact absurd wrong (by decide)

/-! ## What is read is what can be written -/

theorem ofLabel?_eq_some_iff {text : Label} {arity : Arity} :
    ofLabel? text = some arity ↔
      text = label arity ∧ arity.parameters < countLimit ∧ arity.returns < countLimit := by
  constructor
  · intro read
    have written := label_of_ofLabel? read
    rw [← written, ofLabel?_label] at read
    split at read
    · next fits => exact ⟨written.symm, fits⟩
    · exact absurd read (by simp)
  · rintro ⟨rfl, fits⟩
    rw [ofLabel?_label, if_pos fits]

/-- The parts of a text around the first place where a separator stands in it. -/
def splitOnce? (separator : List Char) (text : List Char) : Option (List Char × List Char) :=
  match separator.isPrefixOf? text, text with
  | some rest, _ => some ([], rest)
  | none, [] => none
  | none, letter :: text =>
      (splitOnce? separator text).map fun parts => (letter :: parts.1, parts.2)

/-- Another way to read a label: cut it at the separator and at the ends, then count. -/
def ofParts? (text : List Char) : Option Arity := do
  let counts ← (family ++ "_").toList.isPrefixOf? text
  let parts ← splitOnce? "i_".toList counts
  let returns ← "o".toList.isSuffixOf? parts.2
  return {
    parameters := ← count? parts.1
    returns := ← count? returns }

private theorem append_of_splitOnce? {separator text before after : List Char}
    (split : splitOnce? separator text = some (before, after)) :
    before ++ (separator ++ after) = text := by
  fun_induction splitOnce? separator text generalizing before with
  | case1 text rest front =>
      simp only [front] at split
      cases split
      rw [List.nil_append]
      exact List.append_eq_of_isPrefixOf?_eq_some front
  | case2 absent => simp [absent] at split
  | case3 letter text absent induction =>
      simp only [absent] at split
      rcases Option.map_eq_some_iff.mp split with ⟨parts, found, same⟩
      cases same
      rw [List.cons_append, induction found]

private theorem splitOnce?_digits {digits rest : List Char}
    (allDigits : ∀ digit ∈ digits, digit.isDigit = true) :
    splitOnce? "i_".toList (digits ++ ("i_".toList ++ rest)) = some (digits, rest) := by
  induction digits with
  | nil => rfl
  | cons digit digits induction =>
      have notLetter : digit ≠ 'i' := by
        rintro rfl
        exact absurd (allDigits 'i' List.mem_cons_self) (by decide)
      have front : "i_".toList.isPrefixOf? (digit :: (digits ++ ("i_".toList ++ rest))) = none := by
        simp [List.isPrefixOf?, Ne.symm notLetter]
      rw [List.cons_append, splitOnce?.eq_def, front]
      simp only [induction fun other member => allDigits other (List.mem_cons_of_mem digit member),
        Option.map_some]

private theorem ofParts?_eq_some_iff {text : Label} {arity : Arity} :
    ofParts? text.toList = some arity ↔
      text = label arity ∧ arity.parameters < countLimit ∧ arity.returns < countLimit := by
  constructor
  · intro read
    unfold ofParts? at read
    rcases Option.bind_eq_some_iff.mp read with ⟨counts, opening, read⟩
    rcases Option.bind_eq_some_iff.mp read with ⟨⟨before, after⟩, split, read⟩
    rcases Option.bind_eq_some_iff.mp read with ⟨results, closing, read⟩
    rcases Option.bind_eq_some_iff.mp read with ⟨parameterCount, parameters, read⟩
    rcases Option.bind_eq_some_iff.mp read with ⟨returnCount, returns, read⟩
    cases read
    rcases of_count? parameters with ⟨parametersWritten, parametersFit⟩
    rcases of_count? returns with ⟨returnsWritten, returnsFit⟩
    have ending : results ++ ['o'] = after := List.isSuffixOf?_eq_some_iff_append_eq.mp closing
    refine ⟨String.toList_inj.mp ?_, parametersFit, returnsFit⟩
    rw [toList_label, parametersWritten, returnsWritten, ending, append_of_splitOnce? split,
      List.append_eq_of_isPrefixOf?_eq_some opening]
  · rintro ⟨rfl, parametersFit, returnsFit⟩
    have opening := List.isPrefixOf?_eq_some_iff_append_eq.mpr (toList_label arity).symm
    have closing : "o".toList.isSuffixOf? ((toString arity.returns).toList ++ ['o']) =
        some (toString arity.returns).toList :=
      List.isSuffixOf?_eq_some_iff_append_eq.mpr rfl
    rw [ofParts?, opening]
    simp only [Option.bind_eq_bind, Option.bind_some, closing, count?_toString,
      splitOnce?_digits fun digit member => isDigit_of_mem_toString member]
    simp [parametersFit, returnsFit]

private theorem ofParts?_eq_ofLabel? (text : Label) : ofParts? text.toList = ofLabel? text := by
  apply Option.ext
  intro arity
  rw [ofParts?_eq_some_iff, ofLabel?_eq_some_iff]

/-- The labels that are read are those that two counts of 64 bits are written as, each is read
as the counts that it is written for, and it does not matter where reading looks for the
separator. -/
theorem read_iff_written :
    (∀ parameters returns : UInt64,
      ofLabel? (label ⟨parameters.toNat, returns.toNat⟩) =
        some ⟨parameters.toNat, returns.toNat⟩) ∧
    (∀ text arity, ofLabel? text = some arity ↔
      text = label arity ∧ arity.parameters < countLimit ∧ arity.returns < countLimit) ∧
    (∀ text, ofLabel? text = none ↔
      ¬ ∃ parameters returns : UInt64, text = label ⟨parameters.toNat, returns.toNat⟩) ∧
    (∀ text, ofParts? text.toList = ofLabel? text) := by
  have fits : ∀ parameters returns : UInt64,
      ofLabel? (label ⟨parameters.toNat, returns.toNat⟩) =
        some ⟨parameters.toNat, returns.toNat⟩ := by
    intro parameters returns
    exact ofLabel?_eq_some_iff.mpr ⟨rfl, parameters.toNat_lt, returns.toNat_lt⟩
  refine ⟨fits, fun text arity => ofLabel?_eq_some_iff, ?_, ofParts?_eq_ofLabel?⟩
  intro text
  constructor
  · rintro unread ⟨parameters, returns, rfl⟩
    exact absurd ((fits parameters returns).symm.trans unread) (by simp)
  · intro unwritten
    cases read : ofLabel? text with
    | none => rfl
    | some arity =>
        rcases ofLabel?_eq_some_iff.mp read with ⟨rfl, parametersFit, returnsFit⟩
        refine absurd ⟨.ofNat arity.parameters, .ofNat arity.returns, ?_⟩ unwritten
        rw [UInt64.toNat_ofNat_of_lt' parametersFit, UInt64.toNat_ofNat_of_lt' returnsFit]

end Verbatim

end NameRegistry
