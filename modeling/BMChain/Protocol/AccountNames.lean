import BMChain.Protocol.Authority

/-!
# The grammar of account names

The scanner of account names goes through a name by offsets.  It accepts the
names of the right length whose labels between dots are all well formed, and it
is the test of names which the operations use.
-/

namespace BMChain.Protocol

variable {name label rest : List Char} {start : Nat}

/-! ## The scanner -/

/-- Where the label which begins at `start` ends: at a dot or with the name. -/
def labelEnd (name : List Char) (start : Nat) : Nat :=
  start + ((name.drop start).takeWhile (· ≠ '.')).length

/-- The tests of one round on the offsets from `start` to `finish`. -/
def labelPasses (name : List Char) (start finish : Nat) : Bool :=
  !(finish - start < 3) && name[start]?.any isNameLetter &&
    name[finish - 1]?.any isNameEnd &&
      (List.range' (start + 1) (finish - 1 - (start + 1))).all fun index =>
        name[index]?.any isNameInner

theorem lt_of_labelPasses
    {start finish : Nat}
    (passes : labelPasses name start finish = true) :
    start < name.length := by
  simp only [labelPasses, Bool.and_eq_true] at passes
  have first := passes.1.1.2
  rw [Option.any_eq_true] at first
  rcases first with ⟨char, found, -⟩
  exact (List.getElem?_eq_some_iff.1 found).1

/-- The endless loop of `is_valid_account_name` from an offset on. -/
def scanLabels (name : List Char) (start : Nat) : Bool :=
  if labelPasses name start (labelEnd name start) = true then
    if labelEnd name start = name.length then true
    else scanLabels name (labelEnd name start + 1)
  else false
termination_by name.length - start
decreasing_by
  have inside : start < name.length := lt_of_labelPasses (by assumption)
  have later : start ≤ labelEnd name start := Nat.le_add_right _ _
  omega

/-- `is_valid_account_name`, by offsets. -/
def scanAccountName (name : List Char) : Bool :=
  if name.length < minAccountNameLength then false
  else if maxAccountNameLength < name.length then false
  else scanLabels name 0

/-! ## The grammar -/

/-- A lower-case letter. -/
def IsLower (char : Char) : Prop :=
  'a' ≤ char ∧ char ≤ 'z'

/-- A decimal digit. -/
def IsDigit (char : Char) : Prop :=
  '0' ≤ char ∧ char ≤ '9'

/-- A part of a name between dots. -/
structure IsLabel (label : List Char) : Prop where
  long : minAccountNameLength ≤ label.length
  first : ∃ char, label.head? = some char ∧ IsLower char
  last : ∃ char, label.getLast? = some char ∧ (IsLower char ∨ IsDigit char)
  all : ∀ char ∈ label, IsLower char ∨ IsDigit char ∨ char = '-'

/-- Labels which are separated by single dots. -/
structure IsAccountName (name : List Char) : Prop where
  long : minAccountNameLength ≤ name.length
  short : name.length ≤ maxAccountNameLength
  labels : ∃ labels, labels ≠ [] ∧ name = ['.'].intercalate labels ∧
    ∀ label ∈ labels, IsLabel label

section Characters

variable (char : Char)

theorem isNameLetter_iff :
    isNameLetter char = true ↔ IsLower char := by
  rw [isNameLetter, decide_eq_true_iff, IsLower]

theorem isNameEnd_iff :
    isNameEnd char = true ↔ IsLower char ∨ IsDigit char := by
  rw [isNameEnd, Bool.or_eq_true, isNameLetter_iff, decide_eq_true_iff, IsDigit]

theorem isNameInner_iff :
    isNameInner char = true ↔
      IsLower char ∨ IsDigit char ∨ char = '-' := by
  rw [isNameInner, Bool.or_eq_true, isNameEnd_iff, decide_eq_true_iff, or_assoc]

end Characters

/-- A label has no dot inside. -/
theorem IsLabel.dot_notMem
    (isLabel : IsLabel label) :
    '.' ∉ label := by
  intro member
  have allowed := (isNameInner_iff '.').2 (isLabel.all '.' member)
  revert allowed
  decide

/-! ## One label -/

/-- A label whose first, last and other characters pass their tests. -/
theorem isLabel_iff
    (label : List Char) :
    IsLabel label ↔
      minAccountNameLength ≤ label.length ∧
        (∃ char, label[0]? = some char ∧ isNameLetter char = true) ∧
        (∃ char, label[label.length - 1]? = some char ∧
          isNameEnd char = true) ∧
          ∀ index, 0 < index → index < label.length - 1 →
            ∃ char, label[index]? = some char ∧ isNameInner char = true := by
  simp only [isNameLetter_iff, isNameEnd_iff]
  rw [← List.head?_eq_getElem?, ← List.getLast?_eq_getElem?]
  constructor
  · intro isLabel
    refine ⟨isLabel.long, isLabel.first, isLabel.last, ?_⟩
    intro index _ below
    have inside : index < label.length := by
      omega
    refine ⟨label[index], List.getElem?_eq_getElem inside, ?_⟩
    exact (isNameInner_iff _).2 (isLabel.all _ (List.getElem_mem inside))
  · rintro ⟨long, first, last, inner⟩
    refine ⟨long, first, last, ?_⟩
    intro char member
    rcases List.mem_iff_getElem?.1 member with ⟨index, found⟩
    have inside : index < label.length :=
      (List.getElem?_eq_some_iff.1 found).1
    by_cases zero : index = 0
    · rcases first with ⟨letter, there, lower⟩
      rw [zero, ← List.head?_eq_getElem?, there] at found
      cases found
      exact .inl lower
    · by_cases final : index = label.length - 1
      · rcases last with ⟨ending, there, allowed⟩
        rw [final, ← List.getLast?_eq_getElem?, there] at found
        cases found
        exact or_assoc.1 (.inl allowed)
      · rcases inner index (by omega) (by omega) with ⟨other, there, allowed⟩
        rw [there] at found
        cases found
        exact (isNameInner_iff _).1 allowed

/-- The tests on the offsets are those on the label which stands there. -/
theorem labelPasses_iff
    (cut : name.drop start = label ++ rest) :
    labelPasses name start (start + label.length) = true ↔ IsLabel label := by
  have read : ∀ index, index < label.length →
      name[start + index]? = label[index]? := by
    intro index inside
    rw [← List.getElem?_drop, cut, List.getElem?_append_left inside]
  simp only [labelPasses, isLabel_iff, Bool.and_eq_true, Bool.not_eq_true',
    decide_eq_false_iff_not, Nat.not_lt, Nat.add_sub_cancel_left,
    Option.any_eq_true, List.all_eq_true, List.mem_range'_1, and_assoc,
    minAccountNameLength]
  refine and_congr_right fun long => ?_
  have last : start + label.length - 1 = start + (label.length - 1) := by
    omega
  rw [last, read (label.length - 1) (by omega), ← Nat.add_zero start,
    read 0 (by omega), Nat.add_zero]
  refine and_congr_right fun _ => and_congr_right fun _ => ?_
  constructor
  · intro inner index positive below
    rw [← read index (by omega)]
    exact inner (start + index) (by omega)
  · intro inner offset between
    have place : offset = start + (offset - start) := by
      omega
    rw [place, read (offset - start) (by omega)]
    exact inner (offset - start) (by omega) (by omega)

theorem isValidLabel_ends
    (first last : Char)
    (middle : List Char) :
    isValidLabel (first :: (middle ++ [last])) =
      (isNameLetter first && isNameEnd last && middle.all isNameInner) := by
  simp only [isValidLabel, List.reverse_append, List.reverse_cons,
    List.reverse_nil, List.nil_append, List.singleton_append, List.all_reverse]

/-- The tests on a list of characters are the same. -/
theorem isValidLabel_iff
    (label : List Char) :
    ¬ label.length < 3 ∧ isValidLabel label = true ↔ IsLabel label := by
  rw [isLabel_iff, Nat.not_lt]
  refine and_congr_right fun long => ?_
  have ends : ∃ first middle last, label = first :: (middle ++ [last]) := by
    cases label with
    | nil => simp at long
    | cons first rest =>
        rcases List.eq_nil_or_concat rest with none | ⟨middle, last, rfl⟩
        · simp [none] at long
        · exact ⟨first, middle, last, by rw [List.concat_eq_append]⟩
  rcases ends with ⟨first, middle, last, rfl⟩
  have final : (first :: (middle ++ [last])).length - 1 = middle.length + 1 := by
    simp
  rw [isValidLabel_ends, final, Bool.and_eq_true, Bool.and_eq_true, and_assoc,
    List.all_eq_true]
  simp only [List.getElem?_cons_zero, List.getElem?_cons_succ,
    List.getElem?_append_right (Nat.le_refl middle.length), Nat.sub_self,
    Option.some.injEq, exists_eq_left']
  refine and_congr_right fun _ => and_congr_right fun _ => ?_
  constructor
  · intro all index positive below
    rcases Nat.exists_eq_succ_of_ne_zero (Nat.ne_of_gt positive) with
      ⟨place, rfl⟩
    have inside : place < middle.length := Nat.lt_of_succ_lt_succ below
    refine ⟨middle[place], ?_, all _ (List.getElem_mem inside)⟩
    rw [List.getElem?_cons_succ, List.getElem?_append_left inside,
      List.getElem?_eq_getElem inside]
  · intro all char member
    rcases List.mem_iff_getElem?.1 member with ⟨place, found⟩
    have inside : place < middle.length :=
      (List.getElem?_eq_some_iff.1 found).1
    rcases all (place + 1) (Nat.succ_pos place) (Nat.succ_lt_succ inside) with
      ⟨other, there, allowed⟩
    rw [List.getElem?_cons_succ, List.getElem?_append_left inside, found]
      at there
    cases there
    exact allowed

/-! ## All labels -/

/-- The first label, and what comes after its dot. -/
theorem first_label
    (chars : List Char) :
    (chars.dropWhile (· ≠ '.') = [] ∧
        chars.splitOn '.' = [chars.takeWhile (· ≠ '.')]) ∨
      ∃ next, chars.dropWhile (· ≠ '.') = '.' :: next ∧
        chars.splitOn '.' =
          chars.takeWhile (· ≠ '.') :: next.splitOn '.' := by
  have whole : chars.takeWhile (· ≠ '.') ++ chars.dropWhile (· ≠ '.') = chars :=
    List.takeWhile_append_dropWhile
  have free : '.' ∉ chars.takeWhile (· ≠ '.') := by
    intro member
    have passed := List.all_eq_true.1 List.all_takeWhile '.' member
    exact of_decide_eq_true passed rfl
  cases rest : chars.dropWhile (· ≠ '.') with
  | nil =>
      refine .inl ⟨rfl, ?_⟩
      rw [rest, List.append_nil] at whole
      rw [whole] at free ⊢
      exact List.splitOn_eq_singleton free
  | cons dot next =>
      have stops : dot = '.' := by
        have head := List.head?_dropWhile_not (· ≠ '.') chars
        rw [rest] at head
        exact of_not_not fun other => by simp [other] at head
      subst stops
      refine .inr ⟨next, rfl, ?_⟩
      rw [rest] at whole
      rw [← List.splitOn_append_cons_self_of_not_mem free next, whole]

theorem drop_labelEnd
    (name : List Char)
    (start : Nat) :
    name.drop (labelEnd name start) =
      (name.drop start).dropWhile (· ≠ '.') := by
  rw [labelEnd, ← List.drop_drop]
  generalize name.drop start = chars
  calc chars.drop (chars.takeWhile (· ≠ '.')).length
      = (chars.takeWhile (· ≠ '.') ++ chars.dropWhile (· ≠ '.')).drop
          (chars.takeWhile (· ≠ '.')).length := by
        rw [List.takeWhile_append_dropWhile]
    _ = chars.dropWhile (· ≠ '.') := List.drop_left

theorem labelEnd_passes_iff
    {start : Nat} :
    labelPasses name start (labelEnd name start) = true ↔
      IsLabel ((name.drop start).takeWhile (· ≠ '.')) :=
  labelPasses_iff List.takeWhile_append_dropWhile.symm

/-- The loop accepts what remains when all its labels are well formed. -/
theorem scanLabels_iff
    (name : List Char)
    (start : Nat) :
    scanLabels name start = true ↔
      ∀ label ∈ (name.drop start).splitOn '.', IsLabel label := by
  induction start using scanLabels.induct name with
  | case1 start passes finished =>
      have rest := drop_labelEnd name start
      rw [finished, List.drop_length] at rest
      rw [scanLabels, if_pos passes, if_pos finished]
      rcases first_label (name.drop start) with ⟨-, single⟩ | ⟨next, some, -⟩
      · rw [single, List.forall_mem_singleton, ← labelEnd_passes_iff]
        exact ⟨fun _ => passes, fun _ => rfl⟩
      · rw [some] at rest
        cases rest
  | case2 start passes more induction =>
      have rest := drop_labelEnd name start
      rw [scanLabels, if_pos passes, if_neg more, induction]
      rcases first_label (name.drop start) with ⟨none, -⟩ | ⟨next, some, split⟩
      · rw [none, List.drop_eq_nil_iff] at rest
        have inside := lt_of_labelPasses passes
        have bounded : labelEnd name start ≤ name.length := by
          have taken := (List.takeWhile_sublist (· ≠ '.')
            (l := name.drop start)).length_le
          rw [List.length_drop] at taken
          unfold labelEnd
          omega
        exact absurd (Nat.le_antisymm bounded rest) more
      · have after : name.drop (labelEnd name start + 1) = next := by
          rw [← List.drop_drop, rest, some, List.drop_one, List.tail_cons]
        rw [after, split, List.forall_mem_cons, ← labelEnd_passes_iff]
        exact ⟨fun all => ⟨passes, all⟩, fun all => all.2⟩
  | case3 start fails =>
      rw [scanLabels, if_neg fails]
      constructor
      · intro accepted
        cases accepted
      · intro all
        refine absurd (labelEnd_passes_iff.2 (all _ ?_)) fails
        rcases first_label (name.drop start) with ⟨-, split⟩ | ⟨_, -, split⟩
        · rw [split]
          exact List.mem_cons_self
        · rw [split]
          exact List.mem_cons_self

/-- The loop over the list of characters accepts the same. -/
theorem validLabels_iff
    {rounds : Nat}
    (enough : rest.length < rounds) :
    validLabels rounds rest = true ↔
      ∀ label ∈ rest.splitOn '.', IsLabel label := by
  induction rounds generalizing rest with
  | zero => cases enough
  | succ rounds induction =>
      have checks := isValidLabel_iff (rest.takeWhile (· ≠ '.'))
      rw [validLabels]
      rcases first_label rest with ⟨none, split⟩ | ⟨next, some, split⟩
      · rw [none, split, List.forall_mem_singleton, ← checks]
        split <;> simp_all
      · have fewer : next.length < rounds := by
          have total := (List.dropWhile_sublist (· ≠ '.')
            (l := rest)).length_le
          rw [some, List.length_cons] at total
          omega
        rw [some, split, List.forall_mem_cons, ← checks, ← induction fewer]
        split <;> simp_all

/-! ## Names -/

/-- A name is one of the grammar when the labels between its dots are. -/
theorem isAccountName_iff
    (name : List Char) :
    IsAccountName name ↔
      minAccountNameLength ≤ name.length ∧
        name.length ≤ maxAccountNameLength ∧
          ∀ label ∈ name.splitOn '.', IsLabel label := by
  constructor
  · rintro ⟨long, short, labels, some, rfl, all⟩
    refine ⟨long, short, ?_⟩
    rw [List.splitOn_intercalate '.' (fun label listed =>
      (all label listed).dot_notMem) some]
    exact all
  · rintro ⟨long, short, all⟩
    exact ⟨long, short, name.splitOn '.', List.splitOn_ne_nil '.' name,
      (List.intercalate_splitOn '.').symm, all⟩

theorem scanAccountName_iff
    (name : List Char) :
    scanAccountName name = true ↔ IsAccountName name := by
  rw [isAccountName_iff, scanAccountName]
  split
  case isTrue short =>
    exact ⟨fun accepted => (nomatch accepted),
      fun within => absurd short (Nat.not_lt.2 within.1)⟩
  case isFalse enough =>
    split
    case isTrue long =>
      exact ⟨fun accepted => (nomatch accepted),
        fun within => absurd long (Nat.not_lt.2 within.2.1)⟩
    case isFalse within =>
      rw [scanLabels_iff, List.drop_zero]
      exact ⟨fun all => ⟨Nat.not_lt.1 enough, Nat.not_lt.1 within, all⟩,
        fun name => name.2.2⟩

theorem isValidAccountName_iff
    (name : AccountName) :
    isValidAccountName name = true ↔ IsAccountName name.toList := by
  rw [← scanAccountName_iff, scanAccountName, isValidAccountName]
  split
  · rfl
  · split
    · rfl
    · rw [scanLabels_iff, List.drop_zero,
        validLabels_iff (Nat.lt_succ_self _)]

/--
The scanner, and with it the test of names, accepts exactly the names of the
grammar.
-/
theorem account_name_grammar
    (name : AccountName) :
    (scanAccountName name.toList = true ↔ IsAccountName name.toList) ∧
      isValidAccountName name = scanAccountName name.toList := by
  refine ⟨scanAccountName_iff _, Bool.eq_iff_iff.2 ?_⟩
  rw [isValidAccountName_iff, scanAccountName_iff]

end BMChain.Protocol
