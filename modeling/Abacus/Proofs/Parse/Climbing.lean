import Abacus.Parse.Climbing
import Abacus.Proofs.Parse.Course
import Abacus.Proofs.Parse.Transition

/-!
# Drafts and nested calls

A draft stands for the calls of a reading by precedence climbing that have begun and not ended.
Each waiting operator is a call that is reading the right operand of the operator, `unwind`, and
each open group is a call that is to find the end of the group, `leave`; what these calls have
yet to do is `Draft.rest`. A token takes the draft to one that stands for the calls behind the
token, `Draft.runOn_rest_of_front`, since settling an operator is ending its call,
`runOn_unwind_settle`. By induction on its course a reading from a draft thus ends as the calls
do, `Course.runOn_rest`. So the drafts read what precedence climbing reads: the same expression or
error, the same tokens left and the same events, `Goal.report_climbing`.
-/

namespace Abacus

open ReadM

/-! ### Running readings -/

namespace ReadM

variable {σ α β : Type} {p q : ReadM σ α} {f : α → ReadM σ β} {a : α} {e : ParseError}
  {l l' : Buffered σ} {log log' : List Event} {t : Token}

theorem runOn_pure (a : α) (l : Buffered σ) (log : List Event) :
  (pure a : ReadM σ α).runOn l log = some (.ok a, l, log)
  := rfl

theorem runOn_throw (e : ParseError) (l : Buffered σ) (log : List Event) :
  (throw e : ReadM σ α).runOn l log = some (.error e, l, log)
  := rfl

theorem runOn_bind (p : ReadM σ α) (f : α → ReadM σ β) (l : Buffered σ) (log : List Event) :
  (p >>= f).runOn l log
    = (p.runOn l log).bind fun
      | (.ok a, l', log') => (f a).runOn l' log'
      | (.error e, l', log') => some (.error e, l', log')
  := by
  change (p.run.run (l, log)).bind _ = _
  congr 1
  funext ⟨result, l', log'⟩
  cases result <;> rfl

theorem runOn_bind_of_ok (h : p.runOn l log = some (.ok a, l', log')) :
  (p >>= f).runOn l log = (f a).runOn l' log'
  := by
  rw [runOn_bind, h, Option.bind_some]

theorem runOn_bind_of_error (h : p.runOn l log = some (.error e, l', log')) :
  (p >>= f).runOn l log = some (.error e, l', log')
  := by
  rw [runOn_bind, h, Option.bind_some]

/-- Readings that do the same may go on in the same way. -/
theorem runOn_bind_congr (h : p.runOn l log = q.runOn l' log') :
  (p >>= f).runOn l log = (q >>= f).runOn l' log'
  := by
  rw [runOn_bind, runOn_bind, h]

theorem runOn_build (op : Operator) (left right : Expr) (l : Buffered σ) (log : List Event) :
  (build op left right).runOn l log
    = some (.ok (.binary op left right), l, log ++ [.built (.binary op left right)])
  := rfl

variable [TokenSupply σ]

theorem runOn_look (l : Buffered σ) (log : List Event) :
  look.runOn l log
    = match l.look with
      | .ok t l' => some (.ok t, l', log ++ l.lookEvents t)
      | .error e l' => some (.error e, l', log)
  := by
  change (match l.look with | .ok t l' => _ | .error e l' => _ : ReadM σ Token).runOn l log = _
  cases l.look <;> rfl

/-- A token that was looked at before is looked at again, without an event. -/
theorem runOn_look_of_front (hfront : l.front = some t) (log : List Event) :
  look.runOn l log = some (.ok t, l, log)
  := by
  simp only [runOn_look, Buffered.look_of_front hfront, Buffered.lookEvents, hfront,
    Option.isSome_some, Bool.true_or, if_true, List.append_nil]

theorem runOn_take_of_front (hfront : l.front = some t) (log : List Event) :
  take.runOn l log = some (.ok t, l.dropFront, log)
  := by
  rw [take, runOn_bind_of_ok (runOn_look_of_front hfront log)]
  rfl

/-! ### Readings that look at the next token -/

/-- The reading begins with a look at the next token. -/
def Asks (p : ReadM σ α) : Prop :=
  ∃ f : Token → ReadM σ α, p = look >>= f

theorem Asks.bind (h : Asks p) (f : α → ReadM σ β) :
  Asks (p >>= f)
  := by
  obtain ⟨g, rfl⟩ := h
  rw [bind_assoc]
  exact ⟨_, rfl⟩

theorem asks_take :
  Asks (take : ReadM σ Token)
  := ⟨_, rfl⟩

theorem Asks.runOn_of_error (h : Asks p) (hlook : l.look = .error e l') (log : List Event) :
  p.runOn l log = some (.error e, l', log)
  := by
  obtain ⟨f, rfl⟩ := h
  apply runOn_bind_of_error
  rw [runOn_look, hlook]

/-- The look may come before the reading. -/
theorem Asks.runOn_of_ok (h : Asks p) (hlook : l.look = .ok t l') (log : List Event) :
  p.runOn l log = p.runOn l' (log ++ l.lookEvents t)
  := by
  obtain ⟨f, rfl⟩ := h
  have hfirst : look.runOn l log = some (.ok t, l', log ++ l.lookEvents t) := by
    rw [runOn_look, hlook]
  have hagain := runOn_look_of_front (Buffered.front_of_look_ok hlook) (log ++ l.lookEvents t)
  rw [runOn_bind_of_ok hfirst, runOn_bind_of_ok hagain]

end ReadM

/-! ### Calls that wait -/

section

variable {σ : Type} [TokenSupply σ]

theorem run_expression (minimum : Nat) :
  (Routine.expression minimum).run
    = Routine.factor.run >>= fun e => ((Routine.climb minimum e).run : ReadM σ Expr)
  := by
  rw [Routine.run]

/-- The calls for the waiting operators and, around them, the call with the minimum, behind the
operand `e`: each takes the operators that it may take, and gives the operator that it was for its
operands. -/
def unwind (minimum : Nat) (e : Expr) : List Pending → ReadM σ Expr
  | [] => (Routine.climb minimum e).run
  | p :: pending => do
    let right ← (Routine.climb p.op.rightMinimum e).run
    let whole ← build p.op p.left right
    unwind minimum whole pending

/-- The least precedence of an operator that the reading takes outside parentheses. A reading of one
operand takes none there, and `0` is for drafts that it does not come to. -/
def Goal.minimum : Goal → Nat
  | .factor => 0
  | .expression minimum => minimum
  | .whole => leastPrecedence

/-- What is to be read behind the expression `e`. -/
def Goal.ending (goal : Goal) (e : Expr) : ReadM σ Expr :=
  if goal = .whole then endSource e else pure e

/-- The calls for the waiting operators and the open groups, behind the operand `e`. -/
def leave (goal : Goal) (e : Expr) (pending : List Pending) : List (List Pending) → ReadM σ Expr
  | [] =>
    match (⟨.after e, pending, []⟩ : Draft).result? goal with
    | some e => pure e
    | none => do
      let whole ← unwind goal.minimum e pending
      goal.ending whole
  | group :: groups => do
    let inner ← unwind leastPrecedence e pending
    let inner ← closeGroup inner
    leave goal inner group groups

/-- What the calls that the draft stands for have yet to do. -/
def Draft.rest (goal : Goal) (d : Draft) : ReadM σ Expr :=
  match d.phase with
  | .operand => do
    let e ← Routine.factor.run
    leave goal e d.pending d.groups
  | .signed negative => do
    let e ← (Routine.signed negative).run
    leave goal e d.pending d.groups
  | .after e => leave goal e d.pending d.groups

/-- No call has begun before the first token. -/
theorem Draft.rest_start (goal : Goal) :
  ({} : Draft).rest goal = goal.climbing (σ := σ)
  := by
  cases goal with
  | factor =>
    change Routine.factor.run >>= pure = _
    rw [bind_pure]
    rfl
  | expression minimum =>
    change (Routine.factor.run >>= fun e => (Routine.climb minimum e).run >>= pure)
      = (Routine.expression minimum).run
    simp only [bind_pure, run_expression]
  | whole =>
    change (Routine.factor.run >>= fun e => (Routine.climb leastPrecedence e).run >>= endSource)
      = (Routine.expression leastPrecedence).run >>= endSource
    rw [run_expression, bind_assoc]

/-! ### Operators behind an operand -/

variable {t : Token} {l : Buffered σ} {op : Operator} {minimum : Nat}

theorem runOn_climb_of_ne (hfront : l.front = some t) (hkind : t.kind ≠ .operator) (e : Expr)
    (log : List Event) :
  (Routine.climb minimum e).run.runOn l log = some (.ok e, l, log)
  := by
  rw [Routine.run, runOn_bind_of_ok (runOn_look_of_front hfront log), if_neg hkind]
  apply runOn_pure

theorem runOn_climb_of_lt (hfront : l.front = some t) (ht : t.isOperator op)
    (hlt : op.precedence < minimum) (e : Expr) (log : List Event) :
  (Routine.climb minimum e).run.runOn l log = some (.ok e, l, log)
  := by
  rw [Routine.run, runOn_bind_of_ok (runOn_look_of_front hfront log), if_pos ht.1,
    Operator.ofSymbol?_eq_some_iff.mpr ht.2]
  simp only [if_pos hlt]
  apply runOn_pure

theorem runOn_climb_of_unknown (hfront : l.front = some t) (hkind : t.kind = .operator)
    (hop : Operator.ofSymbol? t.text = none) (e : Expr) (log : List Event) :
  (Routine.climb minimum e).run.runOn l log = some (.error (.unknownOperator t), l, log)
  := by
  rw [Routine.run, runOn_bind_of_ok (runOn_look_of_front hfront log), if_pos hkind, hop]
  apply runOn_throw

/-- An operator that a call may take is taken, and its call begins. -/
theorem runOn_climb_of_le (hfront : l.front = some t) (ht : t.isOperator op)
    (hle : minimum ≤ op.precedence) (e : Expr) (log : List Event) :
  (Routine.climb minimum e).run.runOn l log
    = (Routine.factor.run >>= fun first => unwind minimum first [⟨op, e⟩]).runOn l.dropFront log
  := by
  rw [Routine.run, runOn_bind_of_ok (runOn_look_of_front hfront log), if_pos ht.1,
    Operator.ofSymbol?_eq_some_iff.mpr ht.2]
  simp only [if_neg (Nat.not_lt.mpr hle)]
  rw [runOn_bind_of_ok (runOn_take_of_front hfront log), run_expression, bind_assoc]
  rfl

/-! ### Settling is ending calls -/

/-- An innermost operator that is not settled binds no more tightly than the bound. -/
theorem rightMinimum_le_of_settle {bound : Nat} {e : Expr} {pending rest : List Pending}
    {p : Pending} (h : (settle bound e pending).pending = p :: rest) :
  p.op.rightMinimum ≤ bound
  := by
  induction pending generalizing e with
  | nil => cases h
  | cons q pending ih =>
    rw [settle] at h
    split at h
    · apply ih h
    · next hle =>
      cases h
      apply Nat.le_of_not_lt hle

/-- Calls that a token stops end, and give their operators their operands. -/
theorem runOn_unwind_settle {bound : Nat}
    (hstops : ∀ m (e : Expr) log, bound < m →
      (Routine.climb m e).run.runOn l log = some (.ok e, l, log))
    (e : Expr) (pending : List Pending) (log : List Event) :
  (unwind minimum e pending).runOn l log
    = (unwind minimum (settle bound e pending).operand (settle bound e pending).pending).runOn l
        (log ++ (settle bound e pending).built.map .built)
  := by
  induction pending generalizing e log with
  | nil => rw [settle, List.map_nil, List.append_nil]
  | cons p pending ih =>
    rw [settle]
    split
    · next hlt =>
      rw [unwind, runOn_bind_of_ok (hstops _ e log hlt), runOn_bind_of_ok (runOn_build ..), ih,
        List.append_assoc]
      rfl
    · rw [List.map_nil, List.append_nil]

/-- An unknown operator is refused by the innermost call. -/
theorem runOn_unwind_of_unknown (hfront : l.front = some t) (hkind : t.kind = .operator)
    (hop : Operator.ofSymbol? t.text = none) (e : Expr) (pending : List Pending)
    (log : List Event) :
  (unwind minimum e pending).runOn l log = some (.error (.unknownOperator t), l, log)
  := by
  cases pending with
  | nil => apply runOn_climb_of_unknown hfront hkind hop
  | cons p pending => apply runOn_bind_of_error (runOn_climb_of_unknown hfront hkind hop e log)

/-- A token other than an operator ends all calls. -/
theorem runOn_unwind_of_ne (hfront : l.front = some t) (hkind : t.kind ≠ .operator) (e : Expr)
    (pending : List Pending) (log : List Event) :
  (unwind minimum e pending).runOn l log
    = some (.ok (settle 0 e pending).operand, l, log ++ (settle 0 e pending).built.map .built)
  := by
  rw [runOn_unwind_settle (fun _ e log _ => runOn_climb_of_ne hfront hkind e log),
    (settle_zero e pending).2]
  apply runOn_climb_of_ne hfront hkind

/-- A known operator that no call may take ends all calls. -/
theorem runOn_unwind_of_lt (hfront : l.front = some t) (ht : t.isOperator op) {e : Expr}
    {pending : List Pending} (hpending : (settle op.precedence e pending).pending = [])
    (hlt : op.precedence < minimum) (log : List Event) :
  (unwind minimum e pending).runOn l log
    = some (.ok (settle op.precedence e pending).operand, l,
      log ++ (settle op.precedence e pending).built.map .built)
  := by
  rw [runOn_unwind_settle fun _ e log hlt => runOn_climb_of_lt hfront ht hlt e log, hpending]
  apply runOn_climb_of_lt hfront ht hlt

/-- Any other known operator is taken by the innermost call that may take it. -/
theorem runOn_unwind_of_not (hfront : l.front = some t) (ht : t.isOperator op) {e : Expr}
    {pending : List Pending}
    (h : (settle op.precedence e pending).pending = [] → minimum ≤ op.precedence)
    (log : List Event) :
  (unwind minimum e pending).runOn l log
    = (Routine.factor.run >>= fun first => unwind minimum first
        (⟨op, (settle op.precedence e pending).operand⟩
          :: (settle op.precedence e pending).pending)).runOn l.dropFront
      (log ++ (settle op.precedence e pending).built.map .built)
  := by
  rw [runOn_unwind_settle fun _ e log hlt => runOn_climb_of_lt hfront ht hlt e log]
  cases hpending : (settle op.precedence e pending).pending with
  | nil => apply runOn_climb_of_le hfront ht (h hpending)
  | cons p rest =>
    have hle : p.op.rightMinimum ≤ op.precedence := rightMinimum_le_of_settle hpending
    rw [unwind, runOn_bind_congr (runOn_climb_of_le hfront ht hle _ _)]
    simp only [bind_assoc, unwind]

/-! ### One token -/

/-- What is left of a reading behind a token that does the step: it ends, or the calls that the next
draft stands for go on. -/
def Step.rest (goal : Goal) (step : Step) (l : Buffered σ) (log : List Event) :
    Option (Except ParseError Expr × Buffered σ × List Event) :=
  let log := log ++ step.built.map .built
  match step.move with
  | .take next => (next.rest goal).runOn l.dropFront log
  | .finish e => some (.ok e, l, log)
  | .reject error taken => some (.error error, if taken then l.dropFront else l, log)

variable {pending : List Pending} {groups : List (List Pending)} {goal : Goal}

/-- Where an operand has to begin. -/
theorem runOn_rest_operand (hfront : l.front = some t) (log : List Event) :
  ((⟨.operand, pending, groups⟩ : Draft).rest goal).runOn l log
    = ((⟨.operand, pending, groups⟩ : Draft).step goal t).rest goal l log
  := by
  change (Routine.factor.run >>= fun e => leave goal e pending groups).runOn l log = _
  rw [Routine.run, bind_assoc, runOn_bind_of_ok (runOn_take_of_front hfront log)]
  simp only [Draft.step, Draft.stepOperand, Step.rest, List.map_nil, List.append_nil]
  cases t.sign? with
  | some negative => rfl
  | none =>
    by_cases hliteral : t.isLiteral
    · simp only [if_pos hliteral]
      rfl
    · by_cases hopening : t.isOpening
      · simp only [if_neg hliteral, if_pos hopening, run_expression, bind_assoc]
        rfl
      · simp only [if_neg hliteral, if_neg hopening]
        rfl

/-- Behind the signs of an operand. -/
theorem runOn_rest_signed (hfront : l.front = some t) (negative : Bool) (log : List Event) :
  ((⟨.signed negative, pending, groups⟩ : Draft).rest goal).runOn l log
    = ((⟨.signed negative, pending, groups⟩ : Draft).step goal t).rest goal l log
  := by
  change ((Routine.signed negative).run >>= fun e => leave goal e pending groups).runOn l log = _
  rw [Routine.run, bind_assoc, runOn_bind_of_ok (runOn_take_of_front hfront log)]
  simp only [Draft.step, Draft.stepSigned, Step.rest, List.map_nil, List.append_nil]
  cases t.sign? with
  | some more => rfl
  | none =>
    by_cases hliteral : t.isLiteral
    · simp only [if_pos hliteral]
      rfl
    · simp only [if_neg hliteral]
      rfl

/-- An unknown operator behind an operand is refused and left. -/
theorem rest_step_of_unknown (hkind : t.kind = .operator)
    (hop : Operator.ofSymbol? t.text = none) (e : Expr) (log : List Event) :
  ((⟨.after e, pending, groups⟩ : Draft).step goal t).rest goal l log
    = some (.error (.unknownOperator t), l, log)
  := by
  simp only [Draft.step, Draft.stepAfter, if_pos hkind, hop, Step.rest, List.map_nil,
    List.append_nil]
  rfl

/-- Behind an operand in a group. -/
theorem runOn_leave_in_group (hfront : l.front = some t) (e : Expr) (group : List Pending)
    (log : List Event) :
  (leave goal e pending (group :: groups)).runOn l log
    = ((⟨.after e, pending, group :: groups⟩ : Draft).step goal t).rest goal l log
  := by
  rw [leave]
  by_cases hkind : t.kind = .operator
  · cases hop : Operator.ofSymbol? t.text with
    | none =>
      rw [runOn_bind_of_error (runOn_unwind_of_unknown hfront hkind hop e pending log),
        rest_step_of_unknown hkind hop]
    | some op =>
      have ht : t.isOperator op := ⟨hkind, Operator.ofSymbol?_eq_some_iff.mp hop⟩
      have hle : leastPrecedence ≤ op.precedence := op.precedence_pos
      rw [Draft.step_of_isOperator ht, Draft.stepOperator_in_group,
        runOn_bind_congr (runOn_unwind_of_not hfront ht (fun _ => hle) log), bind_assoc]
      rfl
  · rw [runOn_bind_of_ok (runOn_unwind_of_ne hfront hkind e pending log), closeGroup, bind_assoc,
      runOn_bind_of_ok (runOn_take_of_front hfront _)]
    simp only [Draft.step, Draft.stepAfter, if_neg hkind, Draft.stepEnd, Step.rest]
    by_cases hclosing : t.isClosing
    · simp only [if_pos hclosing, pure_bind]
      rfl
    · simp only [if_neg hclosing]
      rfl

/-- Behind an operand outside all groups. -/
theorem runOn_leave_outermost (hfront : l.front = some t) {e : Expr}
    (hgoal : (⟨.after e, pending, []⟩ : Draft).result? goal = none) (log : List Event) :
  (leave goal e pending []).runOn l log
    = ((⟨.after e, pending, []⟩ : Draft).step goal t).rest goal l log
  := by
  simp only [leave, hgoal]
  by_cases hkind : t.kind = .operator
  · cases hop : Operator.ofSymbol? t.text with
    | none =>
      rw [runOn_bind_of_error (runOn_unwind_of_unknown hfront hkind hop e pending log),
        rest_step_of_unknown hkind hop]
    | some op =>
      have ht : t.isOperator op := ⟨hkind, Operator.ofSymbol?_eq_some_iff.mp hop⟩
      rw [Draft.step_of_isOperator ht]
      obtain ⟨m, rfl, hpending, hlt⟩ | hle := Draft.stepOperator_cases goal e pending op
      · have hminimum : op.precedence < (Goal.expression m).minimum := hlt
        rw [runOn_bind_of_ok (runOn_unwind_of_lt hfront ht hpending hminimum log),
          Draft.stepOperator_of_lt hpending hlt, operand_settle_of_pending_eq_nil hpending]
        rfl
      · have hminimum : (settle op.precedence e pending).pending = [] →
            goal.minimum ≤ op.precedence := by
          intro hpending
          cases goal with
          | factor => apply Nat.zero_le
          | expression m => apply hle m rfl hpending
          | whole => apply op.precedence_pos
        rw [runOn_bind_congr (runOn_unwind_of_not hfront ht hminimum log), bind_assoc,
          Draft.stepOperator_of_not hle]
        rfl
  · rw [runOn_bind_of_ok (runOn_unwind_of_ne hfront hkind e pending log)]
    simp only [Draft.step, Draft.stepAfter, if_neg hkind, Draft.stepEnd, Step.rest, Goal.ending]
    by_cases hwhole : goal = .whole
    · rw [if_pos hwhole, endSource, runOn_bind_of_ok (runOn_look_of_front hfront _)]
      by_cases hfinish : t.isFinish
      · simp only [hfinish, hwhole, if_true, not_true, and_false, if_false]
        apply runOn_pure
      · simp only [hfinish, hwhole]
        apply runOn_throw
    · simp only [hwhole, false_and, if_false]
      apply runOn_pure

/-- The calls that a draft stands for do with a token what the draft does with it. -/
theorem Draft.runOn_rest_of_front {d : Draft} (hgoal : d.result? goal = none)
    (hfront : l.front = some t) (log : List Event) :
  (d.rest goal).runOn l log = (d.step goal t).rest goal l log
  := by
  rcases d with ⟨_ | negative | e, pending, _ | ⟨group, groups⟩⟩
  · apply runOn_rest_operand hfront
  · apply runOn_rest_operand hfront
  · apply runOn_rest_signed hfront
  · apply runOn_rest_signed hfront
  · apply runOn_leave_outermost hfront hgoal
  · apply runOn_leave_in_group hfront

/-! ### Looking at the next token -/

theorem asks_climb (minimum : Nat) (e : Expr) :
  Asks ((Routine.climb minimum e).run : ReadM σ Expr)
  := by
  rw [Routine.run]
  exact ⟨_, rfl⟩

theorem asks_unwind (minimum : Nat) (e : Expr) (pending : List Pending) :
  Asks (unwind minimum e pending : ReadM σ Expr)
  := by
  cases pending with
  | nil => apply asks_climb
  | cons p pending => apply (asks_climb p.op.rightMinimum e).bind

/-- The calls that a draft stands for begin with a look at the next token, unless they have
ended. -/
theorem Draft.asks_rest {d : Draft} (hgoal : d.result? goal = none) :
  Asks (d.rest goal : ReadM σ Expr)
  := by
  rcases d with ⟨_ | negative | e, pending, _ | ⟨group, groups⟩⟩
  case operand.nil | operand.cons | signed.nil | signed.cons =>
    apply Asks.bind
    rw [Routine.run]
    apply asks_take.bind
  case after.nil =>
    simp only [rest, leave, hgoal]
    apply (asks_unwind goal.minimum e pending).bind
  case after.cons => apply (asks_unwind leastPrecedence e pending).bind

/-! ### All tokens -/

/-- The calls that a draft stands for end as the reading from the draft does. -/
theorem Course.runOn_rest {d : Draft} {tokens : List Token} {r : Report σ}
    (h : Course goal d l tokens r) (log : List Event) :
  (d.rest goal).runOn l log = some (r.result, r.rest, log ++ r.log)
  := by
  induction h generalizing log with
  | met hgoal =>
    obtain ⟨rfl, rfl⟩ := Draft.result?_eq_some_iff.mp hgoal
    rw [List.append_nil]
    rfl
  | failed hgoal hlook => rw [(Draft.asks_rest hgoal).runOn_of_error hlook, List.append_nil]
  | finished hgoal hlook hmove | rejected hgoal hlook hmove =>
    rw [(Draft.asks_rest hgoal).runOn_of_ok hlook,
      Draft.runOn_rest_of_front hgoal (Buffered.front_of_look_ok hlook), Step.rest]
    simp only [hmove, List.append_assoc]
  | taken hgoal hlook hmove _ ih =>
    rw [(Draft.asks_rest hgoal).runOn_of_ok hlook,
      Draft.runOn_rest_of_front hgoal (Buffered.front_of_look_ok hlook), Step.rest]
    simp only [hmove, ih, Report.prepend, List.append_assoc]

/-- A reading that ends has the report of precedence climbing. -/
theorem Goal.Ends.report_climbing {tokens : List Token} {r : Report σ} (h : goal.Ends l tokens r) :
  goal.climbing.report l = some r
  := by
  rw [report, ← Draft.rest_start, (ends_iff_course.mp h).runOn_rest]
  rfl

end

/-- Precedence climbing ends on every finite supply, and what it reads is what drafts read. -/
theorem Goal.report_climbing {σ : Type} [FiniteSupply σ] (goal : Goal) (l : Buffered σ) :
  goal.climbing.report l = some (goal.read l)
  := (goal.ends_read l).report_climbing

end Abacus
