import Abacus.Expr.Leaves
import Abacus.Proofs.Parse.Streaming

/-!
# The log of a reading

A log records the tokens that are read, `tokensRead`, and the operators that are given their
operands, each at a count of tokens read before, `builtAt`. The log of a reading is the one of the
tokens that its draft takes, `Draft.trace`, with what the end builds, `GivesUntil.log_eq`. An
operator waits for its right operand until the token behind that has been looked at: `Completes`
lists the operators of a derivation with the count of tokens up to that one, and
`Draft.builds_of_completes` says that these are the counts of the log.
-/

namespace Abacus

/-! ### Logs -/

namespace Event

/-- The token that the event reads. -/
def token? : Event → Option Token
  | token t => some t
  | built _ => none
  | evaluated _ _ => none

/-- The expression that the event builds. -/
def built? : Event → Option Expr
  | token _ => none
  | built e => some e
  | evaluated _ _ => none

/-- The expression that the event evaluates, and its value. -/
def evaluated? : Event → Option (Expr × Float)
  | token _ => none
  | built _ => none
  | evaluated e value => some (e, value)

end Event

/-- The tokens that a log records. -/
def tokensRead (log : List Event) : List Token :=
  log.filterMap Event.token?

/-- The expressions that a log records as built, each with the count of the tokens read before,
`count` of them before the log. -/
def builtAt (count : Nat) : List Event → List (Expr × Nat)
  | [] => []
  | .token _ :: log => builtAt (count + 1) log
  | .built e :: log => (e, count) :: builtAt count log
  | .evaluated _ _ :: log => builtAt count log

theorem tokensRead_append (log log' : List Event) :
  tokensRead (log ++ log') = tokensRead log ++ tokensRead log'
  := List.filterMap_append

theorem tokensRead_map_built (es : List Expr) :
  tokensRead (es.map .built) = []
  := by
  induction es with
  | nil => rfl
  | cons e es ih => apply ih

theorem builtAt_map_token (count : Nat) (tokens : List Token) :
  builtAt count (tokens.map .token) = []
  := by
  induction tokens generalizing count with
  | nil => rfl
  | cons t tokens ih => apply ih

theorem builtAt_map_built (count : Nat) (es : List Expr) :
  builtAt count (es.map .built) = es.map (·, count)
  := by
  induction es with
  | nil => rfl
  | cons e es ih => rw [List.map_cons, List.map_cons, builtAt, ih]

theorem builtAt_append (count : Nat) (log log' : List Event) :
  builtAt count (log ++ log')
    = builtAt count log ++ builtAt (count + (tokensRead log).length) log'
  := by
  induction log generalizing count with
  | nil => rfl
  | cons event log ih =>
    cases event with
    | token t =>
      have hlength : (tokensRead (.token t :: log)).length = 1 + (tokensRead log).length := by
        rw [Nat.add_comm]
        rfl
      rw [List.cons_append, builtAt, builtAt, ih, hlength, Nat.add_assoc]
    | built e =>
      have hread : tokensRead (.built e :: log) = tokensRead log := rfl
      rw [List.cons_append, builtAt, builtAt, ih, hread, List.cons_append]
    | evaluated e value =>
      have hread : tokensRead (.evaluated e value :: log) = tokensRead log := rfl
      rw [List.cons_append, builtAt, builtAt, ih, hread]

theorem map_fst_builtAt (count : Nat) (log : List Event) :
  (builtAt count log).map Prod.fst = log.filterMap Event.built?
  := by
  induction log generalizing count with
  | nil => rfl
  | cons event log ih =>
    cases event with
    | token t | evaluated e value => apply ih
    | built e =>
      rw [builtAt, List.map_cons, ih]
      rfl

/-- No expression is built behind more tokens than are read. -/
theorem le_of_mem_builtAt {count : Nat} {log : List Event} :
  ∀ entry ∈ builtAt count log, entry.2 ≤ count + (tokensRead log).length
  := by
  induction log generalizing count with
  | nil => nofun
  | cons event log ih =>
    intro entry hentry
    cases event with
    | token t =>
      have hle := ih entry hentry
      rwa [Nat.add_assoc, Nat.add_comm 1] at hle
    | built e =>
      rcases List.mem_cons.mp hentry with rfl | hentry
      · apply Nat.le_add_right
      · apply ih entry hentry
    | evaluated e value => apply ih entry hentry

/-! ### The log of a draft -/

namespace Draft

/-- The events of reading tokens, up to the first one that the draft does not take. -/
def trace : Draft → List Token → List Event
  | _, [] => []
  | d, t :: tokens =>
    .token t :: ((d.step .whole t).built.map .built ++
      match (d.step .whole t).move with
      | .take next => next.trace tokens
      | _ => [])

theorem trace_cons_of_take {d next : Draft} {t : Token} (tokens : List Token)
    (h : (d.step .whole t).move = .take next) :
  d.trace (t :: tokens)
    = .token t :: ((d.step .whole t).built.map .built ++ next.trace tokens)
  := by
  rw [trace, h]

theorem trace_singleton (d : Draft) (t : Token) :
  d.trace [t] = .token t :: (d.step .whole t).built.map .built
  := by
  rw [trace]
  cases (d.step .whole t).move with
  | take next | finish e | reject error taken => simp only [trace, List.append_nil]

/-- Behind a token that is refused nothing is read. -/
theorem trace_cons_of_reject {d : Draft} {t : Token} {error : ParseError} {taken : Bool}
    (h : (d.step .whole t).move = .reject error taken) (tokens : List Token) :
  d.trace (t :: tokens) = d.trace [t]
  := by
  rw [trace_singleton, trace, h]
  simp only [List.append_nil]

theorem trace_append {d d' : Draft} {tokens : List Token} (tokens' : List Token)
    (h : d.extend .whole tokens = some d') :
  d.trace (tokens ++ tokens') = d.trace tokens ++ d'.trace tokens'
  := by
  induction tokens generalizing d with
  | nil =>
    obtain rfl := Option.some.inj h
    rfl
  | cons t tokens ih =>
    cases hmove : (d.step .whole t).move with
    | take next =>
      rw [extend_cons_of_take _ hmove] at h
      rw [List.cons_append, trace_cons_of_take _ hmove, trace_cons_of_take _ hmove, ih h,
        List.cons_append, List.append_assoc]
    | finish e | reject error taken => simp [extend, hmove] at h

/-- A draft that takes all tokens has them in its log. -/
theorem tokensRead_trace {d d' : Draft} {tokens : List Token}
    (h : d.extend .whole tokens = some d') :
  tokensRead (d.trace tokens) = tokens
  := by
  induction tokens generalizing d with
  | nil => rfl
  | cons t tokens ih =>
    cases hmove : (d.step .whole t).move with
    | take next =>
      rw [extend_cons_of_take _ hmove] at h
      rw [trace_cons_of_take _ hmove, ← List.singleton_append, tokensRead_append,
        tokensRead_append, tokensRead_map_built, ih h]
      rfl
    | finish e | reject error taken => simp [extend, hmove] at h

/-- What is built by two portions of tokens. -/
theorem builtAt_trace_append {d d' : Draft} {tokens : List Token} (count : Nat)
    (tokens' : List Token) (h : d.extend .whole tokens = some d') :
  builtAt count (d.trace (tokens ++ tokens'))
    = builtAt count (d.trace tokens) ++ builtAt (count + tokens.length) (d'.trace tokens')
  := by
  rw [trace_append tokens' h, builtAt_append, tokensRead_trace h]

/-- What a token builds. -/
theorem builtAt_trace_singleton (d : Draft) (count : Nat) (t : Token) :
  builtAt count (d.trace [t]) = (d.step .whole t).built.map (·, count + 1)
  := by
  rw [trace_singleton, builtAt, builtAt_map_built]

end Draft

/-- The log of reading on from a draft with an empty look-ahead. -/
theorem log_goOn_eq {σ : Type} [FiniteSupply σ] (d : Draft) (s : σ) :
  (d.goOn .whole { supply := s }).log =
    match TokenSupply.pull s with
    | .error _ _ => []
    | .ok t s' =>
      (if t.isFinish then [] else [.token t]) ++ ((d.step .whole t).built.map .built ++
        match (d.step .whole t).move with
        | .take next => (next.goOn .whole { supply := s' }).log
        | _ => [])
  := by
  rw [Draft.goOn_eq, Draft.result?_whole]
  simp only [Buffered.look]
  cases TokenSupply.pull s with
  | error e s' => rfl
  | ok t s' =>
    simp only [Buffered.lookEvents, Option.isSome_none, Bool.false_or]
    cases (d.step .whole t).move with
    | take next => apply List.append_assoc
    | finish e | reject error taken => simp only [List.append_nil]

/-- The log of reading a supply is that of its tokens, followed by what the end builds if all of
them are taken. -/
theorem GivesUntil.log_eq {σ : Type} [FiniteSupply σ] {position : Nat} {s : σ}
    {tokens : List Token} (h : GivesUntil position s tokens) (d : Draft) :
  (d.goOn .whole { supply := s }).log = d.trace tokens ++
    match d.extend .whole tokens with
    | some d' => (d'.step .whole (.finish position)).built.map .built
    | none => []
  := by
  induction h generalizing d with
  | finish hpull =>
    rw [log_goOn_eq, hpull]
    dsimp only
    cases hmove : (d.step .whole (.finish position)).move with
    | take next => apply absurd rfl (not_isFinish_of_take hmove)
    | finish e | reject error taken => apply List.append_nil
  | @cons s s' t tokens hpull ht _ ih =>
    rw [log_goOn_eq, hpull]
    dsimp only
    rw [if_neg ht, List.singleton_append]
    cases hmove : (d.step .whole t).move with
    | take next =>
      rw [Draft.trace_cons_of_take _ hmove, Draft.extend_cons_of_take _ hmove]
      dsimp only
      rw [ih, List.cons_append, List.append_assoc]
    | finish e => apply absurd (Draft.isFinish_of_move hmove) ht
    | reject error taken =>
      rw [Draft.extend_cons_of_reject hmove, Draft.trace_cons_of_reject hmove,
        Draft.trace_singleton]
      simp only [List.append_nil]

/-! ### Readings evaluate nothing -/

theorem filterMap_evaluated?_map_built (es : List Expr) :
  (es.map Event.built).filterMap Event.evaluated? = []
  := by
  induction es with
  | nil => rfl
  | cons e es ih => apply ih

theorem Draft.filterMap_evaluated?_trace (d : Draft) (tokens : List Token) :
  (d.trace tokens).filterMap Event.evaluated? = []
  := by
  induction tokens generalizing d with
  | nil => rfl
  | cons t tokens ih =>
    have htoken : (Event.token t).evaluated? = none := rfl
    rw [trace, List.filterMap_cons_none htoken, List.filterMap_append,
      filterMap_evaluated?_map_built, List.nil_append]
    cases (d.step .whole t).move with
    | take next => apply ih
    | finish e | reject error taken => rfl

theorem GivesUntil.filterMap_evaluated?_log {σ : Type} [FiniteSupply σ] {position : Nat} {s : σ}
    {tokens : List Token} (h : GivesUntil position s tokens) :
  (Goal.whole.read { supply := s }).log.filterMap Event.evaluated? = []
  := by
  rw [Goal.read_eq_goOn, h.log_eq, List.filterMap_append, Draft.filterMap_evaluated?_trace,
    List.nil_append]
  cases ({} : Draft).extend .whole tokens with
  | some d => apply filterMap_evaluated?_map_built
  | none => rfl

/-! ### When operators have their operands -/

/-- The tokens, `count` of which are in front of them, derive the expression at the level, and
`built` lists its operators in the order in which their operands are complete, each with the count
of the tokens up to the one behind its right operand. -/
inductive Completes : Nat → Level → List Token → Expr → List (Expr × Nat) → Prop
  | literal {count : Nat} {t : Token} (ht : t.isLiteral) :
      Completes count .factor [t] (.literal t.kind t.text) []
  | signed {count : Nat} {signs : List Token} {t : Token} (hne : signs ≠ [])
      (hsigns : ∀ s ∈ signs, s.sign?.isSome) (ht : t.isLiteral) :
      Completes count .factor (signs ++ [t])
        (.literal t.kind (signedText (negativeSigns signs) t.text)) []
  | group {count : Nat} {opening closing : Token} {tokens : List Token} {e : Expr}
      {built : List (Expr × Nat)} (hopening : opening.isOpening)
      (h : Completes (count + 1) .sum tokens e built) (hclosing : closing.isClosing) :
      Completes count .factor (opening :: tokens ++ [closing]) e built
  | binary {count : Nat} (op : Operator) {left right : List Token} {t : Token} {x y : Expr}
      {builtx builty : List (Expr × Nat)} (hx : Completes count op.leftLevel left x builtx)
      (ht : t.isOperator op) (hy : Completes (count + left.length + 1) op.rightLevel right y builty) :
      Completes count op.level (left ++ t :: right) (.binary op x y)
        (builtx ++ builty
          ++ [(.binary op x y, count + (left ++ t :: right).length + 1)])
  | loosen {count : Nat} {level level' : Level} {tokens : List Token} {e : Expr}
      {built : List (Expr × Nat)} (h : Completes count level tokens e built)
      (hle : level'.precedence ≤ level.precedence) : Completes count level' tokens e built

theorem Derives.exists_completes {level : Level} {tokens : List Token} {e : Expr}
    (h : Derives level tokens e) (count : Nat) :
  ∃ built, Completes count level tokens e built
  := by
  induction h using operatorInduction generalizing count with
  | literal ht => exact ⟨[], .literal ht⟩
  | signed hne hsigns ht => exact ⟨[], .signed hne hsigns ht⟩
  | group hopening _ hclosing ih =>
    obtain ⟨built, h⟩ := ih (count + 1)
    exact ⟨built, .group hopening h hclosing⟩
  | loosen _ hle ih =>
    obtain ⟨built, h⟩ := ih count
    exact ⟨built, .loosen h hle⟩
  | @binary op left _ _ _ _ _ ht _ ihx ihy =>
    obtain ⟨builtx, hx⟩ := ihx count
    obtain ⟨builty, hy⟩ := ihy (count + left.length + 1)
    exact ⟨_, .binary op hx ht hy⟩

/-- The operators are listed in the order of the tree: those of the left operand, those of the right
one, the operator itself. -/
theorem Completes.map_fst {count : Nat} {level : Level} {tokens : List Token} {e : Expr}
    {built : List (Expr × Nat)} (h : Completes count level tokens e built) :
  built.map Prod.fst = e.operations
  := by
  induction h with
  | literal | signed => rfl
  | group _ _ _ ih => apply ih
  | binary _ _ _ _ ihx ihy =>
    rw [List.map_append, List.map_append, ihx, ihy, Expr.operations]
    rfl
  | loosen _ _ ih => apply ih

/-! ### What a draft builds -/

/-- Settling begins with what closing the innermost operators builds, as long as they bind more
tightly than the bound. -/
theorem built_settle_append {bound : Nat} (operand : Expr) {inner : List Pending}
    (outer : List Pending) (h : ∀ p ∈ inner, bound < p.op.rightMinimum) :
  (settle bound operand (inner ++ outer)).built
    = (settle 0 operand inner).built ++ (settle bound (closeAll operand inner) outer).built
  := by
  induction inner generalizing operand with
  | nil => rfl
  | cons p inner ih =>
    have hpos : 0 < p.op.rightMinimum := Nat.lt_of_le_of_lt (Nat.zero_le bound) (h p List.mem_cons_self)
    rw [List.cons_append, settle, settle, if_pos (h p List.mem_cons_self), if_pos hpos]
    dsimp only
    rw [ih _ fun q hq => h q (List.mem_cons_of_mem p hq), List.cons_append]
    rfl

theorem built_settle_of_head {bound : Nat} (operand : Expr) {pending : List Pending}
    (h : ∀ p ∈ pending.head?, p.op.rightMinimum ≤ bound) :
  (settle bound operand pending).built = []
  := by
  cases pending with
  | nil => rfl
  | cons p pending => rw [settle, if_neg (Nat.not_lt.mpr (h p rfl))]

namespace Draft

variable {pending : List Pending} {groups : List (List Pending)} {t : Token}

/-- The end of a group or of the whole closes every operator that waits. -/
theorem built_of_kind_ne_operator (operand : Expr) (ht : t.kind ≠ .operator) :
  (step .whole ⟨.after operand, pending, groups⟩ t).built = (settle 0 operand pending).built
  := by
  simp only [step, stepAfter, if_neg ht, stepEnd]

/-- An operator closes the operators that bind more tightly than it. -/
theorem built_of_isOperator (operand : Expr) {inner : List Pending} {op : Operator}
    (ht : t.isOperator op) (hinner : ∀ p ∈ inner, op.leftLevel.precedence ≤ p.op.precedence)
    (hpending : ∀ p ∈ pending.head?, p.op.rightMinimum ≤ op.precedence) :
  (step .whole ⟨.after operand, inner ++ pending, groups⟩ t).built = (settle 0 operand inner).built
  := by
  have hop : Operator.ofSymbol? t.text = some op := Operator.ofSymbol?_eq_some_iff.mpr ht.2
  simp only [step, stepAfter, ht.1, hop, stepOperator, if_true]
  rw [built_settle_append operand pending fun p hp =>
      Operator.precedence_lt_rightMinimum (hinner p hp),
    built_settle_of_head _ hpending, List.append_nil]

theorem trace_signs_of_signed {signs : List Token} {negative : Bool}
    (hsigns : ∀ s ∈ signs, s.sign?.isSome) (t : Token) :
  trace ⟨.signed negative, pending, groups⟩ (signs ++ [t]) = (signs ++ [t]).map .token
  := by
  induction signs generalizing negative with
  | nil =>
    rw [List.nil_append, trace_singleton]
    rfl
  | cons s signs ih =>
    obtain ⟨more, hs⟩ := Option.isSome_iff_exists.mp (hsigns s List.mem_cons_self)
    have htake : (step .whole ⟨.signed negative, pending, groups⟩ s).move
        = .take ⟨.signed (negative ^^ more), pending, groups⟩ := by
      simp only [step, stepSigned, hs]
    rw [List.cons_append, trace_cons_of_take _ htake, ih fun u hu =>
      hsigns u (List.mem_cons_of_mem s hu)]
    rfl

/-- Signs and their literal build nothing. -/
theorem trace_signed {signs : List Token} (hne : signs ≠ [])
    (hsigns : ∀ s ∈ signs, s.sign?.isSome) (t : Token) :
  trace ⟨.operand, pending, groups⟩ (signs ++ [t]) = (signs ++ [t]).map .token
  := by
  obtain ⟨s, signs, rfl⟩ := List.exists_cons_of_ne_nil hne
  obtain ⟨negative, hs⟩ := Option.isSome_iff_exists.mp (hsigns s List.mem_cons_self)
  have htake : (step .whole ⟨.operand, pending, groups⟩ s).move
      = .take ⟨.signed negative, pending, groups⟩ := by
    simp only [step, stepOperand, hs]
  rw [List.cons_append, trace_cons_of_take _ htake,
    trace_signs_of_signed fun u hu => hsigns u (List.mem_cons_of_mem s hu)]
  rfl

/-- A draft that waits for an operand takes the tokens, as `Reads` says, and what it has built then
and will build of the tokens when it has looked at the next token is `built`. -/
def Builds (count : Nat) (level : Level) (tokens : List Token) (e : Expr)
    (built : List (Expr × Nat)) : Prop :=
  ∀ (pending : List Pending) (groups : List (List Pending)),
    (∀ p ∈ pending.head?, p.op.rightMinimum ≤ level.precedence) →
    ∃ operand inner,
      extend .whole ⟨.operand, pending, groups⟩ tokens
          = some ⟨.after operand, inner ++ pending, groups⟩
        ∧ closeAll operand inner = e ∧ (∀ p ∈ inner, level.precedence ≤ p.op.precedence)
        ∧ builtAt count (trace ⟨.operand, pending, groups⟩ tokens)
            ++ (settle 0 operand inner).built.map (·, count + tokens.length + 1) = built

namespace Builds

variable {count : Nat} {built : List (Expr × Nat)}

theorem literal (ht : t.isLiteral) :
  Builds count .factor [t] (.literal t.kind t.text) []
  := by
  intro pending groups _
  refine ⟨_, [], extend_literal ht, rfl, nofun, ?_⟩
  rw [builtAt_trace_singleton]
  rfl

theorem signed {signs : List Token} (hne : signs ≠ []) (hsigns : ∀ s ∈ signs, s.sign?.isSome)
    (ht : t.isLiteral) :
  Builds count .factor (signs ++ [t])
    (.literal t.kind (signedText (negativeSigns signs) t.text)) []
  := by
  intro pending groups _
  refine ⟨_, [], extend_signed hne hsigns ht, rfl, nofun, ?_⟩
  rw [trace_signed hne hsigns, builtAt_map_token]
  rfl

theorem group {opening closing : Token} {tokens : List Token} {e : Expr}
    (hopening : opening.isOpening) (h : Builds (count + 1) .sum tokens e built)
    (hclosing : closing.isClosing) :
  Builds count .factor (opening :: tokens ++ [closing]) e built
  := by
  intro pending groups _
  obtain ⟨operand, inner, hinner, rfl, -, rfl⟩ := h [] (pending :: groups) nofun
  rw [List.append_nil] at hinner
  have hfirst : extend .whole ⟨.operand, pending, groups⟩ [opening]
      = some ⟨.operand, [], pending :: groups⟩ := extend_opening hopening []
  have hkind : closing.kind ≠ .operator := by
    rw [kind_of_isClosing hclosing]
    nofun
  refine ⟨closeAll operand inner, [], ?_, rfl, nofun, ?_⟩
  · rw [List.cons_append, extend_opening hopening, extend_append_of_eq_some _ hinner,
      extend_closing hclosing, List.nil_append]
  · rw [List.cons_append, ← List.singleton_append, builtAt_trace_append _ _ hfirst,
      builtAt_trace_append _ _ hinner, builtAt_trace_singleton, builtAt_trace_singleton,
      built_of_kind_ne_operator operand hkind]
    simp [step, settle]

theorem loosen {level level' : Level} {tokens : List Token} {e : Expr}
    (h : Builds count level tokens e built) (hle : level'.precedence ≤ level.precedence) :
  Builds count level' tokens e built
  := by
  intro pending groups hpending
  obtain ⟨operand, inner, hextend, he, hinner, hbuilt⟩ :=
    h pending groups fun p hp => Nat.le_trans (hpending p hp) hle
  exact ⟨operand, inner, hextend, he, fun p hp => Nat.le_trans hle (hinner p hp), hbuilt⟩

/-- Closing one more operator builds one more expression. -/
theorem built_settle_concat (operand : Expr) (inner : List Pending) (p : Pending) :
  (settle 0 operand (inner ++ [p])).built
    = (settle 0 operand inner).built ++ [.binary p.op p.left (closeAll operand inner)]
  := by
  have hpos : ∀ q : Pending, 0 < q.op.rightMinimum := fun q =>
    Nat.lt_of_lt_of_le q.op.precedence_pos q.op.precedence_le_rightMinimum
  rw [built_settle_append operand [p] fun q _ => hpos q, settle, if_pos (hpos p)]
  rfl

/-- What the left part still has to build is built by the operator behind it, and the operator
itself when the right part is closed. -/
theorem binary (op : Operator) {left right : List Token} {x y : Expr}
    {builtx builty : List (Expr × Nat)} (hx : Builds count op.leftLevel left x builtx)
    (ht : t.isOperator op) (hy : Builds (count + left.length + 1) op.rightLevel right y builty) :
  Builds count op.level (left ++ t :: right) (.binary op x y)
    (builtx ++ builty ++ [(.binary op x y, count + (left ++ t :: right).length + 1)])
  := by
  intro pending groups hpending
  rw [Operator.precedence_level] at hpending ⊢
  obtain ⟨operand, inner, hleft, rfl, hinner, rfl⟩ :=
    hx pending groups fun p hp => Nat.le_trans (hpending p hp) op.precedence_le_leftLevel
  obtain ⟨operand', inner', hright, rfl, hinner', rfl⟩ :=
    hy (⟨op, closeAll operand inner⟩ :: pending) groups rightMinimum_le_of_mem_head?
  refine ⟨operand', inner' ++ [⟨op, closeAll operand inner⟩], ?_, ?_, ?_, ?_⟩
  · apply extend_binary hleft hinner ht hpending hright
  · apply closeAll_append_singleton
  · apply precedence_le_of_mem_append hinner'
  · have hop : extend .whole ⟨.after operand, inner ++ pending, groups⟩ [t]
        = some ⟨.operand, ⟨op, closeAll operand inner⟩ :: pending, groups⟩ :=
      extend_operator ht (fun p hp => Operator.precedence_lt_rightMinimum (hinner p hp)) hpending
    have hcount : count + (left ++ t :: right).length = count + left.length + 1 + right.length := by
      rw [List.length_append, List.length_cons]
      omega
    rw [← List.singleton_append, builtAt_trace_append _ _ hleft, builtAt_trace_append _ _ hop,
      builtAt_trace_singleton, built_of_isOperator operand ht hinner hpending,
      List.singleton_append, hcount, built_settle_concat, List.map_append, List.length_singleton]
    simp only [List.append_assoc, List.map_cons, List.map_nil]

end Builds

/-- A draft builds the operators of a derivation when it has looked at the tokens behind their right
operands. -/
theorem builds_of_completes {count : Nat} {level : Level} {tokens : List Token} {e : Expr}
    {built : List (Expr × Nat)} (h : Completes count level tokens e built) :
  Builds count level tokens e built
  := by
  induction h with
  | literal ht => apply Builds.literal ht
  | signed hne hsigns ht => apply Builds.signed hne hsigns ht
  | group hopening _ hclosing ih => apply Builds.group hopening ih hclosing
  | binary op _ ht _ ihx ihy => apply Builds.binary op ihx ht ihy
  | loosen _ hle ih => apply ih.loosen hle

end Draft

/-! ### The log of an expression -/

/-- The log of reading the tokens as the expression: it records the tokens in order, the operators
in the order in which their operands are complete, and each of these behind exactly the tokens up to
the one behind its right operand, or behind all tokens if there is none. -/
structure LogsReading (tokens : List Token) (e : Expr) (log : List Event) : Prop where
  tokensRead_eq : tokensRead log = tokens
  built_eq : log.filterMap Event.built? = e.operations
  exists_completes : ∃ built, Completes 0 .sum tokens e built
  builtAt_eq : ∀ built, Completes 0 .sum tokens e built →
    builtAt 0 log = built.map fun (node, count) => (node, min count tokens.length)

/-- The log of a supply that reads as an expression. -/
theorem GivesUntil.logsReading {σ : Type} [FiniteSupply σ] {position : Nat} {s : σ}
    {tokens : List Token} {e : Expr} (h : GivesUntil position s tokens)
    (he : Derives .sum tokens e) :
  LogsReading tokens e (Goal.whole.read { supply := s }).log
  := by
  have hcompletes := he.exists_completes 0
  have hlog : ∀ built, Completes 0 .sum tokens e built →
      tokensRead (Goal.whole.read { supply := s }).log = tokens
      ∧ builtAt 0 (Goal.whole.read { supply := s }).log
        = built.map fun (node, count) => (node, min count tokens.length) := by
    intro built hbuilt
    obtain ⟨operand, inner, hextend, -, -, rfl⟩ := Draft.builds_of_completes hbuilt [] [] nofun
    rw [List.append_nil] at hextend
    have hread := Draft.tokensRead_trace hextend
    have hfinish : (Token.finish position).kind ≠ .operator := nofun
    rw [Goal.read_eq_goOn, h.log_eq, hextend]
    dsimp only
    rw [Draft.built_of_kind_ne_operator operand hfinish]
    constructor
    · rw [tokensRead_append, hread, tokensRead_map_built, List.append_nil]
    · have hmin : ∀ entry ∈ builtAt 0 (Draft.trace {} tokens),
          (entry.1, min entry.2 tokens.length) = entry := by
        intro entry hentry
        have hle := le_of_mem_builtAt entry hentry
        rw [hread, Nat.zero_add] at hle
        rw [Nat.min_eq_left hle]
      rw [builtAt_append, hread, builtAt_map_built, List.map_append, List.map_map, Nat.zero_add,
        List.map_congr_left hmin, List.map_id']
      simp
  obtain ⟨built, hbuilt⟩ := hcompletes
  obtain ⟨hread, hbuiltAt⟩ := hlog built hbuilt
  refine ⟨hread, ?_, ⟨built, hbuilt⟩, fun built' h' => (hlog built' h').2⟩
  rw [← map_fst_builtAt 0, hbuiltAt, ← hbuilt.map_fst, List.map_map]
  rfl

/-- In `1 * (2 + 3)` the sum is built when the closing has been looked at, and the product when there
is nothing behind it. -/
example :
  (Goal.whole.read { supply := TokenList.ofTokens [⟨.number, "1", 0⟩, ⟨.operator, "*", 2⟩,
      ⟨.parenthesis, "(", 4⟩, ⟨.number, "2", 5⟩, ⟨.operator, "+", 7⟩, ⟨.number, "3", 9⟩,
      ⟨.parenthesis, ")", 10⟩] }).log
    = [.token ⟨.number, "1", 0⟩, .token ⟨.operator, "*", 2⟩, .token ⟨.parenthesis, "(", 4⟩,
      .token ⟨.number, "2", 5⟩, .token ⟨.operator, "+", 7⟩, .token ⟨.number, "3", 9⟩,
      .token ⟨.parenthesis, ")", 10⟩,
      .built (.binary .add (.literal .number "2") (.literal .number "3")),
      .built (.binary .mul (.literal .number "1")
        (.binary .add (.literal .number "2") (.literal .number "3")))]
  := rfl

/-- The log of a reading of the tokens that fails with the error: it records the tokens up to the
one that is the error, or all of them if the error is that of the end. -/
def LogsFailure (tokens : List Token) (error : ParseError) (log : List Event) : Prop :=
  (∃ position expected, error = .unexpectedEnd position expected ∧ tokensRead log = tokens)
    ∨ ∃ k t, tokens[k]? = some t ∧ error.Blames t ∧ tokensRead log = tokens.take (k + 1)

/-- The log of a supply of tokens that is no expression. -/
theorem GivesUntil.logsFailure {σ : Type} [FiniteSupply σ] {position : Nat} {s : σ}
    {tokens : List Token} {error : ParseError} (h : GivesUntil position s tokens)
    (herror : parse s = .error error) :
  LogsFailure tokens error (Goal.whole.read { supply := s }).log
  := by
  rw [parse, Goal.read_eq_goOn, h.result_eq] at herror
  rw [Goal.read_eq_goOn, h.log_eq]
  rcases Draft.extend_or_reject {} position h.not_isFinish_of_mem with
    ⟨d, hextend, hresult⟩ | ⟨k, t, d, error', taken, hk, hextend, hmove, hresult⟩
  · left
    obtain ⟨expected, rfl⟩ := Draft.error_of_result_nil (hresult.symm.trans herror)
    refine ⟨position, expected, rfl, ?_⟩
    rw [hextend, tokensRead_append, Draft.tokensRead_trace hextend]
    dsimp only
    rw [tokensRead_map_built, List.append_nil]
  · right
    obtain rfl : error' = error := Except.error.inj (hresult.symm.trans herror)
    have ht := h.not_isFinish_of_mem t (List.mem_of_getElem? hk)
    have hsplit : tokens = tokens.take k ++ t :: tokens.drop (k + 1) := by
      obtain ⟨hlt, rfl⟩ := List.getElem?_eq_some_iff.mp hk
      rw [List.cons_getElem_drop_succ, List.take_append_drop]
    have hnone : ({} : Draft).extend .whole tokens = none := by
      rw [hsplit, Draft.extend_append_of_eq_some _ hextend, Draft.extend_cons_of_reject hmove]
    have htrace : tokensRead (Draft.trace {} tokens) = tokens.take k ++ [t] := by
      rw [hsplit, Draft.trace_append _ hextend, Draft.trace_cons_of_reject hmove,
        tokensRead_append, Draft.tokensRead_trace hextend, Draft.trace_singleton,
        ← List.singleton_append, tokensRead_append, tokensRead_map_built, ← hsplit]
      rfl
    refine ⟨k, t, hk, Draft.blames_of_reject ht hmove, ?_⟩
    rw [hnone, List.append_nil, htrace, List.take_add_one, hk, Option.toList_some]

end Abacus
