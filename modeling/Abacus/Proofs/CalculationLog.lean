import Abacus.Calculation
import Abacus.Proofs.Parse.Log

/-!
# The log of a calculation

A calculation logs the reading of its text, and then the evaluation of the expression if it has a
value, `valueAndLog_events`. The messages say all of it: those about tokens and those about operators
begin with a word of their own, `tellsToken` and `tellsBuilt`, so the order in which tokens are read
and operators are given their operands is the order of the messages, `builtTold_map_message`. The
tokens of the text and the expression determine every message of a calculation,
`Calculation.valueAndLog_messages`.
-/

namespace Abacus

/-! ### Messages -/

/-- The message is about a token that was read. -/
def tellsToken (message : String) : Bool :=
  "scanned ".toList.isPrefixOf message.toList

/-- The message is about an operator that was given its operands. -/
def tellsBuilt (message : String) : Bool :=
  "built ".toList.isPrefixOf message.toList

/-- The messages about operators, each with the count of the messages about tokens before it, `count`
of them before all messages. -/
def builtTold (count : Nat) : List String → List (String × Nat)
  | [] => []
  | message :: messages =>
    if tellsToken message then builtTold (count + 1) messages
    else if tellsBuilt message then (message, count) :: builtTold count messages
    else builtTold count messages

namespace Event

theorem tellsToken_token (t : Token) :
  tellsToken (token t).message
  := by
  rw [tellsToken, message, String.append_assoc, String.append_assoc, String.toList_append,
    List.isPrefixOf_iff_prefix]
  apply List.prefix_append

theorem tellsBuilt_token (t : Token) :
  tellsBuilt (token t).message = false
  := by
  rw [tellsBuilt, message, String.append_assoc, String.append_assoc, String.toList_append]
  rfl

theorem tellsToken_built (e : Expr) :
  tellsToken (built e).message = false
  := by
  rw [tellsToken, message, String.toList_append]
  rfl

theorem tellsBuilt_built (e : Expr) :
  tellsBuilt (built e).message
  := by
  rw [tellsBuilt, message, String.toList_append, List.isPrefixOf_iff_prefix]
  apply List.prefix_append

end Event

section

variable {log : List Event} (h : log.filterMap Event.evaluated? = [])

include h

/-- The messages of a reading about tokens are those of the tokens read. -/
theorem filter_tellsToken_map_message :
  (log.map Event.message).filter tellsToken
    = (tokensRead log).map fun t => "scanned " ++ t.describe ++ " at " ++ toString t.position
  := by
  induction log with
  | nil => rfl
  | cons event log ih =>
    cases event with
    | token t =>
      rw [List.map_cons, List.filter_cons_of_pos (Event.tellsToken_token t), ih h]
      rfl
    | built e =>
      rw [List.map_cons, List.filter_cons_of_neg (by simp [Event.tellsToken_built]), ih h]
      rfl
    | evaluated e value => cases h

/-- The messages of a reading about operators are those of the expressions built. -/
theorem filter_tellsBuilt_map_message :
  (log.map Event.message).filter tellsBuilt
    = (log.filterMap Event.built?).map fun e => "built " ++ e.render
  := by
  induction log with
  | nil => rfl
  | cons event log ih =>
    cases event with
    | token t =>
      rw [List.map_cons, List.filter_cons_of_neg (by simp [Event.tellsBuilt_token]), ih h]
      rfl
    | built e =>
      rw [List.map_cons, List.filter_cons_of_pos (Event.tellsBuilt_built e), ih h]
      rfl
    | evaluated e value => cases h

/-- A reading tells nothing else. -/
theorem tells_of_mem_map_message :
  ∀ message ∈ log.map Event.message, tellsToken message ∨ tellsBuilt message
  := by
  intro message hmem
  obtain ⟨event, hevent, rfl⟩ := List.mem_map.mp hmem
  cases event with
  | token t =>
    left
    apply Event.tellsToken_token
  | built e =>
    right
    apply Event.tellsBuilt_built
  | evaluated e value => cases List.filterMap_eq_nil_iff.mp h _ hevent

/-- The messages of a reading have the order of its events. -/
theorem builtTold_map_message (count : Nat) :
  builtTold count (log.map Event.message)
    = (builtAt count log).map fun (e, n) => ("built " ++ e.render, n)
  := by
  induction log generalizing count with
  | nil => rfl
  | cons event log ih =>
    cases event with
    | token t =>
      rw [List.map_cons, builtTold, if_pos (Event.tellsToken_token t), ih h]
      rfl
    | built e =>
      rw [List.map_cons, builtTold, if_neg (by simp [Event.tellsToken_built]),
        if_pos (Event.tellsBuilt_built e), ih h]
      rfl
    | evaluated e value => cases h

end

/-- The messages of reading the tokens as the expression: those about tokens are about the tokens in
order, those about operators are about the operators in the order in which their operands are
complete, and each of these is behind the messages about exactly the tokens up to the one behind the
right operand, or behind those about all tokens if there is none. -/
structure TellsReading (tokens : List Token) (e : Expr) (messages : List String) : Prop where
  tokens_eq : messages.filter tellsToken
    = tokens.map fun t => "scanned " ++ t.describe ++ " at " ++ toString t.position
  built_eq : messages.filter tellsBuilt = e.operations.map fun node => "built " ++ node.render
  tells_of_mem : ∀ message ∈ messages, tellsToken message ∨ tellsBuilt message
  exists_completes : ∃ built, Completes 0 .sum tokens e built
  builtTold_eq : ∀ built, Completes 0 .sum tokens e built →
    builtTold 0 messages
      = built.map fun (node, count) => ("built " ++ node.render, min count tokens.length)

/-- The messages of a reading of the tokens that fails with the error: those about tokens are about
the tokens up to the one that is the error, or about all of them if the error is that of the end. -/
structure TellsFailure (tokens : List Token) (error : ParseError) (messages : List String) :
    Prop where
  tells_of_mem : ∀ message ∈ messages, tellsToken message ∨ tellsBuilt message
  tokens_eq : ∃ read : List Token,
    messages.filter tellsToken
        = read.map (fun t => "scanned " ++ t.describe ++ " at " ++ toString t.position)
      ∧ ((∃ position expected, error = .unexpectedEnd position expected ∧ read = tokens)
        ∨ ∃ k t, tokens[k]? = some t ∧ error.Blames t ∧ read = tokens.take (k + 1))

theorem LogsReading.tells {tokens : List Token} {e : Expr} {log : List Event}
    (h : LogsReading tokens e log) (hlog : log.filterMap Event.evaluated? = []) :
  TellsReading tokens e (log.map Event.message)
  := by
  constructor
  case tokens_eq => rw [filter_tellsToken_map_message hlog, h.tokensRead_eq]
  case built_eq => rw [filter_tellsBuilt_map_message hlog, h.built_eq]
  case tells_of_mem => apply tells_of_mem_map_message hlog
  case exists_completes => apply h.exists_completes
  case builtTold_eq =>
    intro built hbuilt
    rw [builtTold_map_message hlog, h.builtAt_eq built hbuilt, List.map_map]
    rfl

theorem LogsFailure.tells {tokens : List Token} {error : ParseError} {log : List Event}
    (h : LogsFailure tokens error log) (hlog : log.filterMap Event.evaluated? = []) :
  TellsFailure tokens error (log.map Event.message)
  := by
  constructor
  case tells_of_mem => apply tells_of_mem_map_message hlog
  case tokens_eq =>
    use tokensRead log
    constructor
    · apply filter_tellsToken_map_message hlog
    · apply h

/-! ### Calculations -/

namespace Calculation

variable (constants : Constants) (text : String)

/-- The log does not change the value. -/
theorem fst_valueAndLog :
  (valueAndLog constants text).1 = value constants text
  := by
  rw [valueAndLog, value, parseText, parse]
  cases (Goal.whole.read { supply := CharReader.ofText text }).result with
  | error error => rfl
  | ok e =>
    dsimp only
    cases e.value constants <;> rfl

variable {constants text}

/-- The log of a calculation from that of its reading: the evaluation comes last, if there is a
value. -/
theorem valueAndLog_of_ok {e : Expr} (h : parseText text = .ok e) :
  (valueAndLog constants text).2 = (Goal.whole.read { supply := CharReader.ofText text }).log ++
    match e.value constants with
    | .ok value => [.evaluated e value]
    | .error _ => []
  := by
  have hresult : (Goal.whole.read { supply := CharReader.ofText text }).result = .ok e := h
  simp only [valueAndLog, hresult]
  cases e.value constants with
  | ok value => rfl
  | error error => rw [List.append_nil]

theorem valueAndLog_of_error {error : ParseError} (h : parseText text = .error error) :
  (valueAndLog constants text).2 = (Goal.whole.read { supply := CharReader.ofText text }).log
  := by
  have hresult : (Goal.whole.read { supply := CharReader.ofText text }).result = .error error := h
  simp only [valueAndLog, hresult]

variable (constants text)

/-- The log of a calculation begins with the log of a reading, which evaluates nothing. If the text
is an expression, that log is the one of its tokens and of the expression, and the evaluation of the
expression follows it exactly if there is a value. If the text is none, that log records the tokens
up to the error, and nothing follows it. -/
theorem valueAndLog_events :
  ∃ tokens z log, (CharReader.ofText text).readTokens = .ok tokens z
    ∧ log.filterMap Event.evaluated? = []
    ∧ (∀ e, parseText text = .ok e →
      LogsReading tokens e log
      ∧ (valueAndLog constants text).2 = log ++
        match e.value constants with
        | .ok value => [.evaluated e value]
        | .error _ => [])
    ∧ ∀ error, parseText text = .error error →
      LogsFailure tokens error log ∧ (valueAndLog constants text).2 = log
  := by
  obtain ⟨z, htokens⟩ := CharReader.readTokens_ofText text
  have hgives := CharReader.givesUntil_of_readTokens htokens
  refine ⟨_, z, (Goal.whole.read { supply := CharReader.ofText text }).log, htokens,
    hgives.filterMap_evaluated?_log, ?_, ?_⟩
  · intro e he
    constructor
    · apply hgives.logsReading
      apply (parse_eq_ok_iff_derives hgives.gives e).mp he
    · apply valueAndLog_of_ok he
  · intro error herror
    constructor
    · apply hgives.logsFailure herror
    · apply valueAndLog_of_error herror

/-- A calculation with a log has the value of the calculation. Its messages begin with those of a
reading. If the text is an expression, these are the ones of its tokens and of the expression, and the
message of the evaluation follows them exactly if there is a value. If the text is none, they are about
the tokens up to the error, and nothing follows them. -/
theorem valueAndLog_messages :
  (valueAndLog constants text).1 = value constants text
    ∧ ∃ tokens z messages, (CharReader.ofText text).readTokens = .ok tokens z
      ∧ (∀ e, parseText text = .ok e →
        TellsReading tokens e messages
        ∧ (valueAndLog constants text).2.map Event.message = messages ++
          match e.value constants with
          | .ok value => [e.render ++ " evaluated to " ++ logStyle.write value]
          | .error _ => [])
      ∧ ∀ error, parseText text = .error error →
        TellsFailure tokens error messages
        ∧ (valueAndLog constants text).2.map Event.message = messages
  := by
  refine ⟨fst_valueAndLog constants text, ?_⟩
  obtain ⟨tokens, z, log, htokens, hlog, hok, herror⟩ := valueAndLog_events constants text
  refine ⟨tokens, z, log.map Event.message, htokens, ?_, ?_⟩
  · intro e he
    obtain ⟨hreading, hevents⟩ := hok e he
    refine ⟨hreading.tells hlog, ?_⟩
    rw [hevents, List.map_append]
    cases e.value constants <;> rfl
  · intro error he
    obtain ⟨hfailure, hevents⟩ := herror error he
    refine ⟨hfailure.tells hlog, ?_⟩
    rw [hevents]

end Calculation

end Abacus
