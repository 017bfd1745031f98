import Abacus.Input.Rechunking
import Abacus.Input.SourceReader
import Abacus.Parse.Session
import Abacus.Proofs.Token.View

/-!
# Readings of one source through another

A map of supplies that commutes with the requests for tokens commutes with everything that is done
with the tokens: with a look ahead, `Buffered.look_map`, with the readings of expressions,
`Goal.read_map`, and with all calls, `IsReaderView.sessionAnswers_eq`. The view of a source of characters
is such a map, `CharSource.isReaderView`. So sources with the same signals have the same answers, and scripts
that deliver the same bytes in different pieces do, `sessionAnswers_rechunked`.
-/

namespace Abacus

/-! ### Supplies -/

/-- The map commutes with the requests for tokens. -/
structure IsSupplyView {σ τ : Type} [FiniteSupply σ] [FiniteSupply τ] (f : σ → τ) : Prop where
  pull_map : ∀ s, TokenSupply.pull (f s) = mapState f (TokenSupply.pull s)
  size_map : ∀ s, FiniteSupply.size (f s) = FiniteSupply.size s

section

variable {σ τ : Type} {f : σ → τ}

/-- The supply mapped, behind the same token looked at. -/
def Buffered.map (f : σ → τ) (l : Buffered σ) : Buffered τ :=
  ⟨f l.supply, l.front⟩

/-- The report with the tokens left mapped. -/
def Report.map (f : σ → τ) (r : Report σ) : Report τ :=
  ⟨r.result, r.rest.map f, r.log⟩

variable [FiniteSupply σ] [FiniteSupply τ] (hf : IsSupplyView f)

include hf

namespace Buffered

theorem look_map (l : Buffered σ) :
  (l.map f).look = mapState (map f) l.look
  := by
  rcases l with ⟨supply, _ | t⟩
  · dsimp only [look, map]
    rw [hf.pull_map]
    cases TokenSupply.pull supply <;> rfl
  · rfl

theorem take_map (l : Buffered σ) :
  (l.map f).take = mapState (map f) l.take
  := by
  rw [take, take, look_map hf]
  cases l.look <;> rfl

theorem size_map (l : Buffered σ) :
  (l.map f).size = l.size
  := by
  rw [size, size, ← hf.size_map]
  rfl

end Buffered

theorem Draft.read_map (goal : Goal) (bound : Nat) (d : Draft) (l : Buffered σ) :
  Draft.read goal bound d (l.map f) = (Draft.read goal bound d l).map (Report.map f)
  := by
  induction bound generalizing d l with
  | zero => rfl
  | succ bound ih =>
    rw [Draft.read, Draft.read, Buffered.look_map hf]
    cases d.result? goal with
    | some e => rfl
    | none =>
      cases l.look with
      | error error l' => rfl
      | ok t l' =>
        simp only [mapState]
        cases (d.step goal t).move with
        | take next =>
          have hrest := ih next l'.dropFront
          simp only [Buffered.map, Buffered.dropFront] at hrest ⊢
          rw [hrest, Option.map_map, Option.map_map]
          rfl
        | finish e => rfl
        | reject error taken => cases taken <;> rfl

theorem Goal.read_map (goal : Goal) (l : Buffered σ) :
  goal.read (l.map f) = (goal.read l).map f
  := by
  have hread : Draft.read goal (l.size + 1) {} l = some (goal.read l) := (Option.some_get _).symm
  apply Option.some_inj.mp
  rw [read, Option.some_get, Buffered.size_map hf, Draft.read_map hf, hread]
  rfl

theorem parse_map (s : σ) :
  parse (f s) = parse s
  := congrArg Report.result (Goal.read_map hf .whole { supply := s })

namespace Buffered

theorem answer_map (l : Buffered σ) (call : Call) :
  (l.map f).answer call = (l.answer call).map id (map f)
  := by
  cases call with
  | look =>
    rw [answer, answer, look_map hf]
    cases l.look <;> rfl
  | take =>
    rw [answer, answer, take_map hf]
    cases l.take <;> rfl
  | read goal =>
    rw [answer, answer, Goal.read_map hf, Report.toAnswer, Report.toAnswer, Report.map]
    cases (goal.read l).result <;> rfl

theorem answers_map (calls : List Call) (l : Buffered σ) :
  (l.map f).answers calls = (l.answers calls).map id (map f)
  := by
  induction calls generalizing l with
  | nil => rfl
  | cons call calls ih =>
    rw [answers, answers, answer_map hf]
    simp only [Prod.map, ih, id]

end Buffered

end

/-! ### Readers -/

/-- The map commutes with all calls on a reader. -/
structure IsReaderView {ρ τ : Type} [TokenReader ρ] [TokenReader τ] (f : ρ → τ) : Prop
    extends IsSupplyView f where
  position_map : ∀ r, TokenReader.position (f r) = TokenReader.position r
  pullAll_map : ∀ r, TokenReader.pullAll (f r) = mapState f (TokenReader.pullAll r)

namespace IsReaderView

variable {ρ τ : Type} [TokenReader ρ] [TokenReader τ] {f : ρ → τ} (hf : IsReaderView f)

include hf

theorem answer_eq (r : ρ) (call : ReaderCall) :
  call.answer (f r) = (call.answer r).map id f
  := by
  cases call with
  | position =>
    rw [ReaderCall.answer, ReaderCall.answer, hf.position_map]
    rfl
  | token =>
    rw [ReaderCall.answer, ReaderCall.answer, hf.pull_map]
    cases TokenSupply.pull r <;> rfl
  | tokens =>
    rw [ReaderCall.answer, ReaderCall.answer, hf.pullAll_map]
    cases TokenReader.pullAll r <;> rfl

theorem readerAnswers_eq (calls : List ReaderCall) (r : ρ) :
  readerAnswers calls (f r) = (readerAnswers calls r).map id f
  := by
  induction calls generalizing r with
  | nil => rfl
  | cons call calls ih =>
    rw [readerAnswers, readerAnswers, hf.answer_eq]
    simp only [Prod.map, ih, id]

/-- All calls have the same answers. -/
theorem sessionAnswers_eq (readerCalls : List ReaderCall) (calls : List Call) (r : ρ) :
  sessionAnswers readerCalls calls (f r) = sessionAnswers readerCalls calls r
  := by
  have hanswers := Buffered.answers_map hf.toIsSupplyView calls
    { supply := (readerAnswers readerCalls r).2 }
  rw [sessionAnswers, sessionAnswers, hf.readerAnswers_eq]
  apply congrArg (Prod.mk (readerAnswers readerCalls r).1) (congrArg Prod.fst hanswers)

end IsReaderView

theorem Outcome.toPulled_mapState {σ τ α : Type} (f : σ → τ) (o : Outcome σ α) :
  toPulled (mapState f o) = mapState f o.toPulled
  := by
  cases o <;> rfl

/-- The view of a source of characters is a view of it as a reader of tokens. -/
theorem CharSource.isReaderView {ρ : Type} [CharSource ρ] :
  IsReaderView (view : ρ → CharReader)
  := by
  constructor
  case toIsSupplyView =>
    constructor
    · intro r
      have h : (readToken (view r)).toPulled = mapState view (readToken r).toPulled := by
        rw [readToken_view, Outcome.toPulled_mapState]
      apply h
    · exact fun _ => rfl
  case position_map => exact fun _ => rfl
  case pullAll_map =>
    intro r
    have h : (readTokens (view r)).toPulled = mapState view (readTokens r).toPulled := by
      rw [readTokens_view, Outcome.toPulled_mapState]
    apply h

/-! ### Scripts -/

/-- The calls on the reader of a script have the answers of those on the reader of its signals, and so
has the reading of an expression that takes up the whole script. -/
theorem sessionAnswers_ofScript (script : List Delivery) (readerCalls : List ReaderCall)
    (calls : List Call) :
  sessionAnswers readerCalls calls (SourceReader.ofScript script)
      = sessionAnswers readerCalls calls (CharReader.ofSignals (signals script))
    ∧ parse (SourceReader.ofScript script) = parse (CharReader.ofSignals (signals script))
  := by
  have hview : CharSource.view (SourceReader.ofScript script)
      = CharReader.ofSignals (signals script) := rfl
  rw [← hview, CharSource.isReaderView.sessionAnswers_eq,
    parse_map CharSource.isReaderView.toIsSupplyView]
  exact ⟨rfl, rfl⟩

/-- Scripts that differ only in how they deliver their bytes have the same answers to all calls, which
are those of the reader of the signals. -/
theorem sessionAnswers_rechunked {script script' : List Delivery} (h : Rechunked script script')
    (readerCalls : List ReaderCall) (calls : List Call) :
  sessionAnswers readerCalls calls (SourceReader.ofScript script)
      = sessionAnswers readerCalls calls (SourceReader.ofScript script')
    ∧ parse (SourceReader.ofScript script) = parse (SourceReader.ofScript script')
    ∧ sessionAnswers readerCalls calls (SourceReader.ofScript script')
      = sessionAnswers readerCalls calls (CharReader.ofSignals (signals script))
    ∧ parse (SourceReader.ofScript script') = parse (CharReader.ofSignals (signals script))
  := by
  obtain ⟨hanswers, hparse⟩ := sessionAnswers_ofScript script readerCalls calls
  obtain ⟨hanswers', hparse'⟩ := sessionAnswers_ofScript script' readerCalls calls
  rw [hanswers, hparse, hanswers', hparse', h.signals_eq]
  exact ⟨rfl, rfl, rfl, rfl⟩

/-- A letter of two bytes in two pieces, with an interruption between them. -/
theorem sessionAnswers_rechunked_within_letter :
  Rechunked [.data ([0x32, 0xCF] ++ [0x80]), .fault ⟨"gone"⟩, .endOfFile]
      [.data [0x32, 0xCF], .interrupted, .data [0x80], .fault ⟨"gone"⟩, .unexpectedEnd]
    ∧ sessionAnswers [.token, .position] [.look, .read .factor]
        (SourceReader.ofScript [.data ([0x32, 0xCF] ++ [0x80]), .fault ⟨"gone"⟩, .endOfFile])
      = sessionAnswers [.token, .position] [.look, .read .factor]
        (SourceReader.ofScript
          [.data [0x32, 0xCF], .interrupted, .data [0x80], .fault ⟨"gone"⟩, .unexpectedEnd])
  := by
  have h : Rechunked [.data ([0x32, 0xCF] ++ [0x80]), .fault ⟨"gone"⟩, .endOfFile]
      [.data [0x32, 0xCF], .interrupted, .data [0x80], .fault ⟨"gone"⟩, .unexpectedEnd] := by
    apply Rechunked.trans (.cut [] _ _ _)
    apply Rechunked.trans (.interruption [_] _)
    apply Rechunked.finish [_, _, _, _] []
  exact ⟨h, (sessionAnswers_rechunked h _ _).1⟩

end Abacus
