/-
What a batch writes into the journal.

A request writes down that it is started, then each stage that its text comes
through, and at last what its entry holds (`Request.entry_traced`). The stage
that fails writes nothing, nor does any after it. A batch writes these blocks
one after the other and nothing between them (`evaluateMany_traced`), so its
records can be told from its entries.
-/
import Abacus.Proofs.Batch
import Mathlib.Data.List.Forall2

namespace Abacus

/-! ## Blocks -/

/-- What is printed of an event. -/
def Event.record (event : Event) : Severity × String := (event.severity, event.message)

namespace Entry

/-- The events of an entry, by the stage that its text comes to. -/
inductive Traced (entry : Entry) : List Event → Prop
  | finished {e : Expr} {value : Binary64} (hread : Expr.ofText entry.expression = .ok e)
      (hvalue : e.value .standard = .ok value) (hout : entry.outcome = .value value) :
      Traced entry [.started entry.line.val entry.expression, .parsed entry.expression e,
        .evaluated e value, .finished entry.line.val value]
  | unevaluated {e : Expr} {error : EvaluationError}
      (hread : Expr.ofText entry.expression = .ok e) (hvalue : e.value .standard = .error error)
      (hout : entry.outcome = .failure error.message) :
      Traced entry [.started entry.line.val entry.expression, .parsed entry.expression e,
        .failed entry.line.val entry.expression error.message]
  | unread {error : ParseError} (hread : Expr.ofText entry.expression = .error error)
      (hout : entry.outcome = .failure error.message) :
      Traced entry [.started entry.line.val entry.expression,
        .failed entry.line.val entry.expression error.message]

/-- The last record of an entry: its result, or its reason and the text. -/
def closing (entry : Entry) : Severity × String :=
  match entry.outcome with
  | .value value =>
    (.info, "✅ Finished line " ++ toString entry.line.val ++ ": " ++ value.text)
  | .failure reason =>
    (.error, "❌ Failed on line " ++ toString entry.line.val ++ ": " ++ reason ++
      "\nInvalid arithmetic expression, could not evaluate: " ++ Text.quoted entry.expression)

/-- The records of an entry: one that it is started, one of its tree if there is one, one of the
tree's value if there is one, and the last. -/
def records (entry : Entry) : List (Severity × String) :=
  let stages : List (Severity × String) :=
    match Expr.ofText entry.expression with
    | .error _ => []
    | .ok e =>
      (.debug, "🌳 Parsed " ++ Text.quoted entry.expression ++ " into " ++ e.text) ::
        entry.result?.toList.map fun value =>
          (.debug, "🧮 Evaluated " ++ e.text ++ " to " ++ value.text)
  (.info, "🏁 Evaluating line " ++ toString entry.line.val ++ ": " ++ entry.expression) ::
    stages ++ [entry.closing]

variable {entry : Entry} {block : List Event}

theorem Traced.map_record (h : entry.Traced block) : block.map Event.record = entry.records := by
  cases h with
  | finished hread _ hout =>
    simp only [records, closing, result?, hread, hout]
    rfl
  | unevaluated hread _ hout =>
    simp only [records, closing, result?, hread, hout]
    rfl
  | unread hread hout =>
    simp only [records, closing, hread, hout]
    rfl

/-- Which records there are depends on how far the text comes. -/
theorem Traced.map_severity (h : entry.Traced block) : block.map Event.severity =
    if entry.succeeded then [.info, .debug, .debug, .info]
    else if (Expr.ofText entry.expression).isOk then [.info, .debug, .error]
    else [.info, .error] := by
  cases h with
  | finished hread _ hout => simp [succeeded, error?, hout, Event.severity]
  | unevaluated hread _ hout =>
    simp [succeeded, error?, hout, hread, Event.severity, Except.isOk, Except.toBool]
  | unread hread hout =>
    simp [succeeded, error?, hout, hread, Event.severity, Except.isOk, Except.toBool]

/-- What is noted for a text is the trace of its entry. -/
theorem traced_ofLine (line : String × Nat) : (ofLine line).Traced (Event.ofLine line) := by
  cases hread : Expr.ofText line.1 with
  | error error =>
    have hresult : (compute .standard line.1).result = (.error (.parsing error), []) := by
      simp only [Run.result, compute_apply, hread]
    simp only [Event.ofLine, ofLine, Outcome.ofText, hresult, Outcome.of]
    exact .unread hread rfl
  | ok e =>
    cases hvalue : e.value .standard with
    | error error =>
      have hresult : (compute .standard line.1).result =
          (.error (.evaluation error), [.parsed line.1 e]) := by
        simp only [Run.result, compute_apply, hread, hvalue, List.nil_append]
      simp only [Event.ofLine, ofLine, Outcome.ofText, hresult, Outcome.of]
      exact .unevaluated hread hvalue rfl
    | ok value =>
      have hresult : (compute .standard line.1).result =
          (.ok value, [.parsed line.1 e, .evaluated e value]) := by
        simp only [Run.result, compute_apply, hread, hvalue, List.nil_append]
      simp only [Event.ofLine, ofLine, Outcome.ofText, hresult, Outcome.of]
      exact .finished hread hvalue rfl

end Entry

/-- A request leaves the trace of its entry behind whatever was noted before it. -/
theorem Request.entry_traced (request : Request) (journal : List Event) : ∃ entry block,
    request.entry journal = .ok entry (journal ++ block) ∧
      entry.expression = request.expression ∧ entry.line = request.line ∧ entry.Traced block := by
  obtain ⟨text, ⟨line, hline⟩, hvisible⟩ := request
  obtain ⟨before, rfl⟩ := Nat.exists_eq_add_one.2 hline
  exact ⟨_, _, Request.entry_apply journal, rfl, rfl, Entry.traced_ofLine (text, before)⟩

/-! ## Batches -/

/-- **The journal of a batch is a faithful trace.** A batch adds one block of events for each of its
entries, in their order, and nothing else; there is one entry for each line that is not blank, with
its text and numbered from one. The block of an entry holds the tree and the value that were
computed, and its records can be told from the entry. They are four if it has a result, three if its
text was read and has no value, and two if its text could not be read. -/
theorem evaluateMany_traced (lines : List String) (journal : List Event) : ∃ entries blocks,
    evaluateMany lines journal = .ok entries (journal ++ blocks.flatten) ∧
      entries.map Entry.expression = visibleLines lines ∧
      (entries.map fun entry => entry.line.val) = List.range' 1 (visibleLines lines).length ∧
      List.Forall₂ (fun entry block => entry.Traced block ∧
        block.map Event.record = entry.records ∧
        block.map Event.severity =
          if entry.succeeded then [.info, .debug, .debug, .info]
          else if (Expr.ofText entry.expression).isOk then [.info, .debug, .error]
          else [.info, .error]) entries blocks := by
  refine ⟨_, (visibleLines lines).zipIdx.map Event.ofLine, evaluateMany_apply lines journal,
    Entry.map_expression_ofLine _, Entry.map_line_ofLine _, ?_⟩
  rw [List.forall₂_map_left_iff, List.forall₂_map_right_iff, List.forall₂_same]
  intro line _
  have h := Entry.traced_ofLine line
  exact ⟨h, h.map_record, h.map_severity⟩

example : (evaluateMany ["(1", "", "2"]).result.2.map Event.severity =
    [.info, .error, .info, .debug, .debug, .info] := by decide +kernel

end Abacus
