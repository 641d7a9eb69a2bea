import EventSchema.Column.Expression
import Mathlib.Data.List.Basic

namespace EventSchema.Expression

mutual

def readSegments : List Char → Option (List (List Char))
  | [] => some []
  | '.' :: rest => readPlain [] rest
  | '[' :: '\'' :: rest => readQuoted [] rest
  | _ => none

def readPlain (name : List Char) : List Char → Option (List (List Char))
  | [] => some [name]
  | '.' :: rest => (name :: ·) <$> readPlain [] rest
  | '[' :: '\'' :: rest => (name :: ·) <$> readQuoted [] rest
  | char :: rest => readPlain (name ++ [char]) rest

def readQuoted (name : List Char) : List Char → Option (List (List Char))
  | [] => none
  | '\\' :: char :: rest => readQuoted (name ++ [char]) rest
  | '\'' :: ']' :: rest => (name :: ·) <$> readSegments rest
  | char :: rest => readQuoted (name ++ [char]) rest

end

/-- The names that an expression selects by. -/
def names? (text : String) : Option (List String) :=
  match text.toList with
  | '$' :: rest => (·.map String.ofList) <$> readSegments rest
  | _ => none

theorem inner_of_identifier {name : List Char} (identifier : isIdentifier name = true) :
    name.all isInner = true := by
  cases name with
  | nil => rfl
  | cons first rest =>
      obtain ⟨initial, inner⟩ := Bool.and_eq_true_iff.mp identifier
      simp [isInner, initial, inner]

theorem readPlain_append {name : List Char} (inner : name.all isInner = true)
    (front rest : List Char) : readPlain front (name ++ rest) = readPlain (front ++ name) rest := by
  induction name generalizing front with
  | nil => rw [List.nil_append, List.append_nil]
  | cons char later ih =>
      obtain ⟨own, others⟩ := Bool.and_eq_true_iff.mp inner
      have noDot : char ≠ '.' := by
        rintro rfl
        cases own
      have noBracket : char ≠ '[' := by
        rintro rfl
        cases own
      have taken : readPlain front (char :: (later ++ rest)) =
          readPlain (front ++ [char]) (later ++ rest) := by
        rw [readPlain.eq_def]
        split <;> simp_all
      rw [List.cons_append, taken, ih others, List.append_assoc, List.singleton_append]

theorem readPlain_segments (name : List Char) (names : List (List Char)) :
    readPlain name (names.flatMap segment) =
      (name :: ·) <$> readSegments (names.flatMap segment) := by
  cases names with
  | nil => rfl
  | cons next later =>
      rw [List.flatMap_cons, segment]
      split <;> rfl

theorem readQuoted_escape (front name rest : List Char) :
    readQuoted front (escape name ++ '\'' :: ']' :: rest) =
      ((front ++ name) :: ·) <$> readSegments rest := by
  fun_induction escape name generalizing front with
  | case1 =>
      rw [List.append_nil]
      rfl
  | case2 later ih =>
      have taken := ih (front ++ ['\\'])
      rwa [List.append_assoc] at taken
  | case3 later ih =>
      have taken := ih (front ++ ['\''])
      rwa [List.append_assoc] at taken
  | case4 char later noBackslash noQuote ih =>
      have taken := ih (front ++ [char])
      rw [List.append_assoc] at taken
      rw [List.cons_append, readQuoted.eq_def]
      split <;> simp_all

theorem readSegments_segments (names : List (List Char)) :
    readSegments (names.flatMap segment) = some names := by
  induction names with
  | nil => rfl
  | cons name later ih =>
      rw [List.flatMap_cons, segment]
      split
      · rename_i identifier
        have inner := inner_of_identifier identifier
        calc
          readSegments ('.' :: name ++ later.flatMap segment) =
              readPlain [] (name ++ later.flatMap segment) := rfl
          _ = readPlain name (later.flatMap segment) := readPlain_append inner [] _
          _ = some (name :: later) := by
            rw [readPlain_segments, ih]
            rfl
      · calc
          readSegments ('[' :: '\'' :: (escape name ++ ['\'', ']']) ++ later.flatMap segment) =
              readQuoted [] (escape name ++ '\'' :: ']' :: later.flatMap segment) := by
            simp [readSegments]
          _ = some (name :: later) := by
            rw [readQuoted_escape, ih]
            rfl

/-- The names can be read back from an expression, so different lists of names are selected by
different expressions. -/
theorem select_injective :
    (∀ names, names? (select names) = some names) ∧ Function.Injective select := by
  have recovered : ∀ names, names? (select names) = some names := by
    intro names
    have segments : (names.flatMap fun name => segment name.toList) =
        (names.map String.toList).flatMap segment := by rw [List.flatMap_map]
    rw [names?, select, String.toList_ofList, segments]
    simp [readSegments_segments]
  refine ⟨recovered, ?_⟩
  intro names names' same
  have read := recovered names
  rw [same, recovered names'] at read
  exact (Option.some.inj read).symm

example : names? "$.a['it\\'s']['']" = some ["a", "it's", ""] := by cbv

end EventSchema.Expression
