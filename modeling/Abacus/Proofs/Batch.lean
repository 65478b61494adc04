/-
Batches.

A request is always answered: its entry holds what became of its text, be it a
value or a failure, and it passes the checks that entries have to pass
(`Request.entry_apply`, `Entry.ofForm_form`). A batch makes a request of every
line that is not blank (`evaluateLines_apply`), so it has an entry for each of
these, in their order, and a batch of two parts is the one and then the other
with its numbers moved on (`evaluateMany_entries`).
-/
import Abacus.Batch
import Abacus.Proofs.Evaluation
import Mathlib.Data.List.DropRight

namespace Abacus

/-! ## Blank texts -/

/-- The characters without the blank ones at either end. -/
def Text.strip (cs : List Char) : List Char := (cs.dropWhile isBlank).rdropWhile isBlank

/-- A text is blank if nothing is left of it. -/
theorem Text.blank_iff {text : String} : Blank text ↔ strip text.toList = [] := by
  rw [strip, List.rdropWhile_eq_nil_iff]
  constructor
  · exact fun h c hc => h c (List.dropWhile_subset _ hc)
  · intro h
    unfold Blank
    rw [← List.dropWhile_eq_nil_iff]
    cases hrest : text.toList.dropWhile isBlank with
    | nil => rfl
    | cons c rest =>
      have hhead := List.head_dropWhile_not isBlank (l := text.toList) (by simp [hrest])
      simp only [hrest, List.head_cons] at hhead
      rw [h c (by simp [hrest])] at hhead
      cases hhead

/-! ## Entries -/

theorem LineNumber.read_integer (line : LineNumber) :
    LineNumber.read (.integer line.val) = .ok line := by
  have hpos : 0 < (line.val : Int).toNat := by simpa using line.property
  simp only [LineNumber.read, Raw.readInteger, bind, Except.bind, dif_pos hpos]
  rfl

namespace Entry

/-- The fields of an entry; only one of the last two is given. -/
def form (entry : Entry) : Form :=
  [("expression", .text entry.expression), ("line_number", .integer entry.line.val)] ++
    match entry.outcome with
    | .value result => [("result", .real result)]
    | .failure reason => [("error", .text reason)]

/-- The fields of an entry pass all checks, and they make the entry again. -/
theorem ofForm_form (entry : Entry) : ofForm entry.form = .ok entry := by
  obtain ⟨expression, line, outcome⟩ := entry
  cases outcome with
  | value result =>
    simp [form, ofForm, Form.field, List.lookup_cons, LineNumber.read_integer]
    rfl
  | failure reason =>
    simp [form, ofForm, Form.field, List.lookup_cons, LineNumber.read_integer]
    rfl

/-- The same entry on a later line. -/
def later (n : Nat) (entry : Entry) : Entry :=
  { entry with line := ⟨entry.line.val + n, Nat.add_pos_left entry.line.property n⟩ }

end Entry

/-! ## Requests -/

/-- What an entry keeps of a computation. -/
def Outcome.of : Except Failure Binary64 → Outcome
  | .ok result => .value result
  | .error error => .failure error.message

/-- What becomes of a text. -/
def Outcome.ofText (text : String) : Outcome := .of (compute .standard text).result.1

/-- What is noted when a line is finished. -/
def Outcome.event (line : Nat) (text : String) : Outcome → Event
  | .value result => .finished line result
  | .failure reason => .failed line text reason

/-- What a computation comes to and notes does not depend on what was noted before. -/
theorem compute_outcome (tolerance : Tolerance) (text : String) (journal : List Event) :
    (compute tolerance text).outcome journal =
      .ok (compute tolerance text).result.1 (journal ++ (compute tolerance text).result.2) := by
  simp only [Run.outcome, Run.result, compute_apply]
  cases Expr.ofText text with
  | error err => simp
  | ok e =>
    dsimp only
    cases e.value tolerance <;> simp

namespace Run

variable {α β : Type} {journal noted : List Event}

theorem record_bind (event : Event) (next : Run α) :
    (record event >>= fun _ => next) journal = next (journal ++ [event]) := rfl

theorem bind_ok {run : Run α} {next : α → Run β} {a : α}
    (h : run journal = .ok a (journal ++ noted)) :
    (run >>= next) journal = next a (journal ++ noted) := by
  simp only [bind, EStateM.bind, h]

end Run

/-- The entry of a text, with as many lines before it as are counted. -/
def Entry.ofLine (line : String × Nat) : Entry :=
  ⟨line.1, ⟨line.2 + 1, Nat.succ_pos line.2⟩, .ofText line.1⟩

/-- What is noted for a text, with as many lines before it as are counted. -/
def Event.ofLine (line : String × Nat) : List Event :=
  .started (line.2 + 1) line.1 :: (compute .standard line.1).result.2 ++
    [(Outcome.ofText line.1).event (line.2 + 1) line.1]

/-- A request is answered whatever becomes of its text. -/
theorem Request.entry_apply {text : String} {before : Nat} {h : ¬ Text.Blank text}
    (journal : List Event) : (Request.mk text ⟨before + 1, Nat.succ_pos before⟩ h).entry journal =
      .ok (.ofLine (text, before)) (journal ++ Event.ofLine (text, before)) := by
  rw [entry, Run.record_bind, Run.bind_ok (compute_outcome _ _ _)]
  simp only [Entry.ofLine, Event.ofLine, Outcome.ofText]
  cases (compute .standard text).result.1 with
  | ok value =>
    simp only [Run.record_bind, Outcome.of, Outcome.event]
    simp [pure, EStateM.pure]
  | error failure =>
    simp only [Run.record_bind, Outcome.of, Outcome.event]
    simp [pure, EStateM.pure]

/-- A text that is not blank makes a request, whatever its line. -/
theorem Request.ofForm_lineForm {text : String} (line : LineNumber) (h : ¬ Text.Blank text) :
    ofForm (lineForm text line.val) = .ok ⟨text, line, h⟩ := by
  have hread : readExpression (.text text) = .ok ⟨text, h⟩ := by
    simp only [readExpression, Raw.readText, bind, Except.bind, dif_neg h]
    rfl
  simp [ofForm, lineForm, Form.field, List.lookup_cons, LineNumber.read_integer, hread]
  rfl

/-! ## Lines -/

theorem evaluateLines_apply {lines : List String} (h : ∀ text ∈ lines, ¬ Text.Blank text)
    (before : Nat) (journal : List Event) :
    evaluateLines (before + 1) lines journal = .ok ((lines.zipIdx before).map Entry.ofLine)
      (journal ++ (lines.zipIdx before).flatMap Event.ofLine) := by
  induction lines generalizing before journal with
  | nil => simp [evaluateLines, pure, EStateM.pure]
  | cons text rest ih =>
    have hform := Request.ofForm_lineForm ⟨before + 1, Nat.succ_pos before⟩ (h text (by simp))
    have hentry : evaluateForm (lineForm text (before + 1)) journal =
        .ok (.ofLine (text, before)) (journal ++ Event.ofLine (text, before)) := by
      rw [evaluateForm, hform]
      exact Request.entry_apply journal
    have hrest := ih (fun text hm => h text (by simp [hm])) (before + 1)
    rw [evaluateLines, Run.bind_ok hentry, Run.bind_ok (hrest _)]
    simp [pure, EStateM.pure]

/-- The lines of which something is left when blanks are stripped. -/
def visibleLines (lines : List String) : List String :=
  lines.filter fun line => Text.strip line.toList ≠ []

/-- A batch always comes to an end, with an entry for each line that is not blank. -/
theorem evaluateMany_apply (lines : List String) (journal : List Event) :
    evaluateMany lines journal = .ok ((visibleLines lines).zipIdx.map Entry.ofLine)
      (journal ++ (visibleLines lines).zipIdx.flatMap Event.ofLine) := by
  have hlines : (lines.filter fun line => ¬ Text.Blank line) = visibleLines lines := by
    simp only [visibleLines, Text.blank_iff, ne_eq]
  rw [evaluateMany, hlines]
  exact evaluateLines_apply (by simp [visibleLines, Text.blank_iff]) 0 journal

theorem evaluateMany_result (lines : List String) : (evaluateMany lines).result.1 =
    .ok ((visibleLines lines).zipIdx.map Entry.ofLine) := by
  rw [Run.result, evaluateMany_apply]

theorem visibleLines_append (xs ys : List String) :
    visibleLines (xs ++ ys) = visibleLines xs ++ visibleLines ys :=
  List.filter_append ..

/-! ## Entries of a batch -/

theorem compute_isFinite {tolerance : Tolerance} {text : String} {value : Binary64}
    (h : (compute tolerance text).result.1 = .ok value) : value.isFinite = true := by
  rw [Run.result, compute_apply] at h
  cases hread : Expr.ofText text with
  | error err => rw [hread] at h; cases h
  | ok e =>
    cases hvalue : e.value tolerance with
    | error err => simp only [hread, hvalue] at h; cases h
    | ok v =>
      simp only [hread, hvalue, Except.ok.injEq] at h
      exact h ▸ Expr.isFinite_of_valueWithin hvalue

namespace Entry

/-- An entry holds what the computation of its text came to. -/
def Reports (entry : Entry) : Prop :=
  (∃ value, (compute .standard entry.expression).result.1 = .ok value ∧ value.isFinite = true ∧
    entry.result? = some value ∧ entry.error? = none) ∨
  ∃ failure, (compute .standard entry.expression).result.1 = .error failure ∧
    entry.result? = none ∧ entry.error? = some failure.message

theorem reports_ofLine (line : String × Nat) : (ofLine line).Reports := by
  cases h : (compute .standard line.1).result.1 with
  | ok value =>
    have hout : (ofLine line).outcome = .value value := by
      simp only [ofLine, Outcome.ofText, h, Outcome.of]
    exact .inl ⟨value, h, compute_isFinite h, by simp only [result?, hout],
      by simp only [error?, hout]⟩
  | error failure =>
    have hout : (ofLine line).outcome = .failure failure.message := by
      simp only [ofLine, Outcome.ofText, h, Outcome.of]
    exact .inr ⟨failure, h, by simp only [result?, hout], by simp only [error?, hout]⟩

theorem map_expression_ofLine (lines : List String) :
    (lines.zipIdx.map ofLine).map Entry.expression = lines := by
  rw [List.map_map]
  exact List.zipIdx_map_fst 0 lines

theorem map_line_ofLine (lines : List String) :
    (lines.zipIdx.map ofLine).map (fun entry => entry.line.val) = List.range' 1 lines.length := by
  rw [List.map_map]
  have h := congrArg (List.map (1 + ·)) (List.zipIdx_map_snd 0 lines)
  rw [List.map_map, List.map_add_range'] at h
  rw [← h]
  exact List.map_congr_left fun line _ => Nat.add_comm line.2 1

/-- Lines that come after others have their entries with the numbers moved on. -/
theorem map_ofLine_zipIdx (lines : List String) (before : Nat) :
    (lines.zipIdx before).map ofLine = (lines.zipIdx.map ofLine).map (later before) := by
  rw [List.zipIdx_eq_map_add, List.map_map, List.map_map]
  refine List.map_congr_left fun ⟨text, count⟩ _ => ?_
  have hline : before + count + 1 = count + 1 + before := by omega
  simp only [Function.comp, ofLine, later, hline]

end Entry

/-- **A batch never breaks off and never mixes its lines.** It ends with one entry for each line
that is not blank, in their order, with the text unchanged and numbered from one. Each entry passes
the checks of entries, and it holds the finite value that its text comes to, or the message of the
failure. So the entries of two batches in one are those of the first, and then those of the second
with their numbers moved on by the first's lines that are not blank. -/
theorem evaluateMany_entries :
    (∀ lines : List String, ∃ entries, (evaluateMany lines).result.1 = .ok entries ∧
      entries.map Entry.expression = visibleLines lines ∧
      (entries.map fun entry => entry.line.val) = List.range' 1 (visibleLines lines).length ∧
      ∀ entry ∈ entries, Entry.ofForm entry.form = .ok entry ∧ entry.Reports) ∧
    ∀ xs ys : List String, ∃ first second, (evaluateMany xs).result.1 = .ok first ∧
      (evaluateMany ys).result.1 = .ok second ∧
      (evaluateMany (xs ++ ys)).result.1 =
        .ok (first ++ second.map (Entry.later (visibleLines xs).length)) := by
  refine ⟨fun lines => ⟨_, evaluateMany_result lines, Entry.map_expression_ofLine _,
    Entry.map_line_ofLine _, fun entry hm => ?_⟩, fun xs ys => ⟨_, _, evaluateMany_result xs,
    evaluateMany_result ys, ?_⟩⟩
  · obtain ⟨line, -, rfl⟩ := List.mem_map.1 hm
    exact ⟨Entry.ofForm_form _, Entry.reports_ofLine line⟩
  · rw [evaluateMany_result, visibleLines_append, List.zipIdx_append, List.map_append, Nat.zero_add,
      Entry.map_ofLine_zipIdx (visibleLines ys)]

/-- A separator is blank at the ends of a line, though it stands in no expression. -/
theorem evaluateMany_entries_mixed :
    let entry : Entry := ⟨"2", ⟨2, by decide⟩, .value (.ofInt 2)⟩
    (evaluateMany ["1/0", "\t\x1c", "2"]).result.1 =
      .ok [⟨"1/0", .first, .failure "Division by zero"⟩, entry] ∧
      Entry.ofForm entry.form = .ok entry ∧ entry.Reports := by
  intro entry
  have h : (evaluateMany ["1/0", "\t\x1c", "2"]).result.1 =
      .ok [⟨"1/0", .first, .failure "Division by zero"⟩, entry] := by decide +kernel
  obtain ⟨entries, hentries, -, -, hall⟩ := evaluateMany_entries.1 ["1/0", "\t\x1c", "2"]
  obtain rfl := Except.ok.inj (hentries.symm.trans h)
  exact ⟨h, hall entry (by simp)⟩

end Abacus
