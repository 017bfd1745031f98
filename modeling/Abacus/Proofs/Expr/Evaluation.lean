import Abacus.Expr.Evaluation
import Abacus.Expr.Leaves

/-!
# The order of evaluation

An expression is evaluated literal by literal, from left to right, up to the first literal without a
value. So it has a value if all of its literals have one, `Expr.value_of_forall_leaves`, and its
error is that of the first literal that has none, `Expr.value_of_first_error`. The names asked for
are those of the constants among the literals up to there, and the other names have no influence,
`Expr.value_congr`.
-/

namespace Abacus.Expr

variable (constants : Constants)

/-! ### The steps of an evaluation -/

/-- The value of a leaf. -/
def leafValue (leaf : Token.Kind × String) : Except EvalError Float :=
  (literal leaf.1 leaf.2).value constants

/-- The name that the evaluation of a leaf asks for: a constant asks for its text without the
sign, and no other leaf asks for anything. -/
def nameAsked? (leaf : Token.Kind × String) : Option String :=
  match leaf.1 with
  | .constant => some (String.ofList (splitSign leaf.2.toList).2)
  | _ => none

/-- The names that the evaluation of an expression asks for, in order. -/
def namesAsked (e : Expr) : List String :=
  (e.valueAndNames constants).2

theorem value_binary (op : Operator) (left right : Expr) :
  (binary op left right).value constants =
    match left.value constants with
    | .error e => .error e
    | .ok x =>
      match right.value constants with
      | .error e => .error e
      | .ok y => .ok (op.compute x y)
  := rfl

/-- The operands are evaluated one after the other, the right one in the state that the left one
leaves, and only if that one has a value. -/
theorem run_valueM_binary {σ : Type} (lookup : String → StateM σ (Option Float)) (op : Operator)
    (left right : Expr) (s : σ) :
  ((binary op left right).valueM lookup).run s =
    match (left.valueM lookup).run s with
    | (.error e, s) => (.error e, s)
    | (.ok x, s) =>
      match (right.valueM lookup).run s with
      | (.error e, s) => (.error e, s)
      | (.ok y, s) => (.ok (op.compute x y), s)
  := by
  rw [valueM]
  simp only [StateT.run, bind, StateT.bind]
  rcases left.valueM lookup s with ⟨_ | x, s⟩
  · rfl
  · dsimp only [StateT.bind]
    rcases right.valueM lookup s with ⟨_ | y, s⟩ <;> rfl

/-- A constant has the value of the name behind its sign, or the opposite one. -/
theorem value_constant_eq (text : String) :
  (literal .constant text).value constants =
    match constants (String.ofList (splitSign text.toList).2) with
    | some value => .ok (if (splitSign text.toList).1 then -value else value)
    | none => .error (.unknownConstant (String.ofList (splitSign text.toList).2))
  := by
  rw [value, valueM, literalValueM]
  rcases splitSign text.toList with ⟨negative, chars⟩
  cases hname : constants (String.ofList chars) <;> simp [hname]

/-- A leaf asks for its name, and has the value that it has without a record of the names. -/
theorem run_valueM_literal (kind : Token.Kind) (text : String) (names : List String) :
  ((literal kind text).valueM (recordingLookup constants)).run names
    = (leafValue constants (kind, text), names ++ (nameAsked? (kind, text)).toList)
  := by
  cases kind with
  | number =>
    rw [leafValue, value, valueM, valueM, literalValueM, literalValueM]
    cases numeral? text with
    | none => exact Prod.ext rfl (List.append_nil names).symm
    | some v => exact Prod.ext rfl (List.append_nil names).symm
  | constant =>
    rw [leafValue, value, valueM, valueM, literalValueM, literalValueM]
    simp [recordingLookup, nameAsked?]
    cases constants (String.ofList (splitSign text.toList).2) <;> rfl
  | operator | parenthesis | finish | unknown => exact Prod.ext rfl (List.append_nil names).symm

/-- The evaluation of an expression adds names to those asked for before. -/
theorem run_valueM (e : Expr) (names : List String) :
  (e.valueM (recordingLookup constants)).run names
    = (e.value constants, names ++ e.namesAsked constants)
  := by
  have hrun : ∃ asked, ∀ names, (e.valueM (recordingLookup constants)).run names
      = (e.value constants, names ++ asked) := by
    induction e with
    | literal kind text => exact ⟨_, run_valueM_literal constants kind text⟩
    | binary op left right ihleft ihright =>
      obtain ⟨askedLeft, hleft⟩ := ihleft
      obtain ⟨askedRight, hright⟩ := ihright
      simp only [run_valueM_binary, hleft, value_binary]
      cases left.value constants with
      | error e => exact ⟨askedLeft, fun names => rfl⟩
      | ok x =>
        simp only [hright, List.append_assoc]
        cases right.value constants with
        | error e | ok y => exact ⟨askedLeft ++ askedRight, fun names => rfl⟩
  obtain ⟨asked, hasked⟩ := hrun
  rw [hasked, namesAsked, valueAndNames, hasked, List.nil_append]

theorem valueAndNames_eq (e : Expr) :
  e.valueAndNames constants = (e.value constants, e.namesAsked constants)
  := by
  rw [valueAndNames, run_valueM, List.nil_append]

theorem namesAsked_literal (kind : Token.Kind) (text : String) :
  (literal kind text).namesAsked constants = (nameAsked? (kind, text)).toList
  := by
  rw [namesAsked, valueAndNames, run_valueM_literal, List.nil_append]

/-- The right operand asks for names after the left one, and only if that one has a value. -/
theorem namesAsked_binary (op : Operator) (left right : Expr) :
  (binary op left right).namesAsked constants = left.namesAsked constants ++
    match left.value constants with
    | .error _ => []
    | .ok _ => right.namesAsked constants
  := by
  rw [namesAsked, valueAndNames, run_valueM_binary, run_valueM, List.nil_append]
  cases left.value constants with
  | error e => exact (List.append_nil _).symm
  | ok x =>
    simp only [run_valueM]
    cases right.value constants with
    | error e | ok y => rfl

/-! ### The literals that are evaluated -/

theorem filterMap_singleton_nameAsked? (leaf : Token.Kind × String) :
  [leaf].filterMap nameAsked? = (nameAsked? leaf).toList
  := by
  cases h : nameAsked? leaf with
  | none => rw [List.filterMap_cons_none h, List.filterMap_nil, Option.toList_none]
  | some name => rw [List.filterMap_cons_some h, List.filterMap_nil, Option.toList_some]

/-- An element of an append is one of the first part or one of the second. -/
theorem append_cases {α : Type} {xs ys before after : List α} {a : α}
    (h : xs ++ ys = before ++ a :: after) :
  (∃ after', xs = before ++ a :: after' ∧ after = after' ++ ys)
    ∨ ∃ before', before = xs ++ before' ∧ ys = before' ++ a :: after
  := by
  rcases List.append_eq_append_iff.mp h with ⟨before', hbefore, hys⟩ | ⟨_ | ⟨b, after'⟩, hxs, hafter⟩
  · exact .inr ⟨before', hbefore, hys⟩
  · right
    exact ⟨[], by simpa using hxs.symm, hafter.symm⟩
  · obtain ⟨rfl, rfl⟩ := List.cons.inj hafter
    exact .inl ⟨after', hxs, rfl⟩

variable {constants} {e : Expr}

/-- If all literals have values, the expression has one, and all constants are asked for. -/
theorem value_of_forall_leaves (h : ∀ leaf ∈ e.leaves, ∃ v, leafValue constants leaf = .ok v) :
  (∃ v, e.value constants = .ok v)
    ∧ e.namesAsked constants = e.leaves.filterMap nameAsked?
  := by
  induction e with
  | literal kind text =>
    constructor
    · apply h _ (List.mem_singleton_self _)
    · rw [namesAsked_literal, leaves, filterMap_singleton_nameAsked?]
  | binary op left right ihleft ihright =>
    rw [leaves, List.forall_mem_append] at h
    obtain ⟨⟨x, hx⟩, hleft⟩ := ihleft h.1
    obtain ⟨⟨y, hy⟩, hright⟩ := ihright h.2
    rw [value_binary, namesAsked_binary, hx, hy, hleft, hright, leaves, List.filterMap_append]
    exact ⟨⟨_, rfl⟩, rfl⟩

/-- The first literal without a value gives its error to the expression, and the constants up to it
are asked for. -/
theorem value_of_first_error {before after : List (Token.Kind × String)} {leaf : Token.Kind × String}
    {error : EvalError} (hsplit : e.leaves = before ++ leaf :: after)
    (hbefore : ∀ l ∈ before, ∃ v, leafValue constants l = .ok v)
    (herror : leafValue constants leaf = .error error) :
  e.value constants = .error error
    ∧ e.namesAsked constants = (before ++ [leaf]).filterMap nameAsked?
  := by
  induction e generalizing before after with
  | literal kind text =>
    obtain ⟨rfl, rfl, rfl⟩ : before = [] ∧ leaf = (kind, text) ∧ after = [] := by
      simpa [leaves, List.singleton_eq_append_iff] using hsplit
    constructor
    · apply herror
    · rw [namesAsked_literal, List.nil_append, filterMap_singleton_nameAsked?]
  | binary op left right ihleft ihright =>
    rw [leaves] at hsplit
    rw [value_binary, namesAsked_binary]
    rcases append_cases hsplit with ⟨after', hleft, -⟩ | ⟨before', rfl, hright⟩
    · obtain ⟨hvalue, hnames⟩ := ihleft hleft hbefore
      rw [hvalue, hnames, List.append_nil]
      exact ⟨rfl, rfl⟩
    · rw [List.forall_mem_append] at hbefore
      obtain ⟨⟨x, hx⟩, hleft⟩ := value_of_forall_leaves hbefore.1
      obtain ⟨hvalue, hnames⟩ := ihright hright hbefore.2
      rw [hx, hvalue, hleft, hnames, List.append_assoc, ← List.filterMap_append]
      exact ⟨rfl, rfl⟩

/-- All leaves have values, or there is a first one that has none. -/
theorem forall_or_first_error (leaves : List (Token.Kind × String)) :
  (∀ leaf ∈ leaves, ∃ v, leafValue constants leaf = .ok v)
    ∨ ∃ before leaf after error, leaves = before ++ leaf :: after
      ∧ (∀ l ∈ before, ∃ v, leafValue constants l = .ok v)
      ∧ leafValue constants leaf = .error error
  := by
  induction leaves with
  | nil => exact .inl (List.forall_mem_nil _)
  | cons leaf leaves ih =>
    cases hleaf : leafValue constants leaf with
    | error error => exact .inr ⟨[], leaf, leaves, error, rfl, List.forall_mem_nil _, hleaf⟩
    | ok v =>
      rcases ih with ih | ⟨before, leaf', after, error, rfl, hbefore, herror⟩
      · exact .inl (List.forall_mem_cons.mpr ⟨⟨v, hleaf⟩, ih⟩)
      · exact .inr ⟨leaf :: before, leaf', after, error, rfl,
          List.forall_mem_cons.mpr ⟨⟨v, hleaf⟩, hbefore⟩, herror⟩

/-- An expression has a value exactly if all of its literals have one. -/
theorem exists_value_iff :
  (∃ v, e.value constants = .ok v) ↔ ∀ leaf ∈ e.leaves, ∃ v, leafValue constants leaf = .ok v
  := by
  constructor
  · rintro ⟨v, hv⟩
    rcases forall_or_first_error e.leaves with h | ⟨before, leaf, after, error, hsplit, hbefore, herror⟩
    · apply h
    · rw [(value_of_first_error hsplit hbefore herror).1] at hv
      cases hv
  · intro h
    apply (value_of_forall_leaves h).1

/-! ### The errors of literals -/

/-- The error of a leaf without a value. -/
def leafError (leaf : Token.Kind × String) : EvalError :=
  match leaf.1 with
  | .number => .invalidNumber leaf.2
  | .constant => .unknownConstant (String.ofList (splitSign leaf.2.toList).2)
  | kind => .meaninglessLiteral kind

section

variable {σ : Type} {lookup : String → StateM σ (Option Float)} {s : σ} {error : EvalError}

theorem leafError_of_run_valueM_literal {kind : Token.Kind} {text : String}
    (h : (((literal kind text).valueM lookup).run s).1 = .error error) :
  leafError (kind, text) = error
  := by
  cases kind with
  | number =>
    rw [valueM, literalValueM] at h
    cases hnumeral : numeral? text with
    | none =>
      rw [hnumeral] at h
      cases h
      rfl
    | some v =>
      rw [hnumeral] at h
      cases h
  | constant =>
    rw [valueM, literalValueM] at h
    simp only [StateT.run, bind, StateT.bind] at h
    rcases hname : lookup (String.ofList (splitSign text.toList).2) s with ⟨_ | v, s'⟩
    · rw [hname] at h
      cases h
      rfl
    · rw [hname] at h
      cases h
  | operator | parenthesis | finish | unknown =>
    cases h
    rfl

/-- The error of an expression is that of one of its literals, whatever the look-up does. -/
theorem exists_leafError_of_run_valueM (h : ((e.valueM lookup).run s).1 = .error error) :
  ∃ leaf ∈ e.leaves, leafError leaf = error
  := by
  induction e generalizing s with
  | literal kind text =>
    exact ⟨(kind, text), List.mem_singleton_self _, leafError_of_run_valueM_literal h⟩
  | binary op left right ihleft ihright =>
    rw [run_valueM_binary] at h
    rcases hleft : (left.valueM lookup).run s with ⟨_ | x, s'⟩
    · rw [hleft] at h
      cases h
      obtain ⟨leaf, hleaf, herror⟩ := ihleft (congrArg Prod.fst hleft)
      exact ⟨leaf, List.mem_append_left _ hleaf, herror⟩
    · rw [hleft] at h
      rcases hright : (right.valueM lookup).run s' with ⟨_ | y, s''⟩
      · simp only [hright] at h
        cases h
        obtain ⟨leaf, hleaf, herror⟩ := ihright (congrArg Prod.fst hright)
        exact ⟨leaf, List.mem_append_right _ hleaf, herror⟩
      · simp only [hright] at h
        cases h

end

/-! ### Look-ups that agree -/

theorem leafValue_congr {constants' : Constants} {leaf : Token.Kind × String}
    (h : ∀ name, nameAsked? leaf = some name → constants' name = constants name) :
  leafValue constants' leaf = leafValue constants leaf
  := by
  obtain ⟨kind, text⟩ := leaf
  cases kind with
  | constant =>
    have hname := h _ rfl
    simp only at hname
    rw [leafValue, leafValue, value, value, valueM, valueM, literalValueM, literalValueM]
    dsimp only
    rw [hname]
  | number | operator | parenthesis | finish | unknown => rfl

/-- A look-up that agrees on the names asked for gives the same value and is asked for the same
names. -/
theorem value_congr {constants' : Constants}
    (h : ∀ name ∈ e.namesAsked constants, constants' name = constants name) :
  e.value constants' = e.value constants ∧ e.namesAsked constants' = e.namesAsked constants
  := by
  induction e with
  | literal kind text =>
    rw [namesAsked_literal] at h
    rw [namesAsked_literal, namesAsked_literal]
    have hleaf : leafValue constants' (kind, text) = leafValue constants (kind, text) := by
      apply leafValue_congr
      intro name hname
      apply h name
      rw [hname]
      apply List.mem_singleton_self
    exact ⟨hleaf, rfl⟩
  | binary op left right ihleft ihright =>
    rw [namesAsked_binary, List.forall_mem_append] at h
    obtain ⟨hvalue, hnames⟩ := ihleft h.1
    rw [value_binary, value_binary, namesAsked_binary, namesAsked_binary, hvalue, hnames]
    cases hleft : left.value constants with
    | error e => exact ⟨rfl, rfl⟩
    | ok x =>
      rw [hleft] at h
      obtain ⟨hvalue', hnames'⟩ := ihright h.2
      rw [hvalue', hnames']
      exact ⟨rfl, rfl⟩

end Abacus.Expr
