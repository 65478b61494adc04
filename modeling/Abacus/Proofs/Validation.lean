/-
What the checks of forms accept, and what they report.

A form is read field by field, and what is reported of it lists the fields at
fault, each once and in the order in which they are read (`Checked.Reports`). A
form without such fields makes a request at once. It makes an entry if exactly
one of the result and the error is given, and otherwise this one issue of the
form as a whole is reported (`Form.checks_complete`).
-/
import Abacus.Proofs.Batch
import Mathlib.Tactic.MkIffOfInductiveProp

namespace Abacus

/-! ## Raw values -/

namespace Raw

/-- Why a raw value is no text. -/
inductive TextFault (raw : Raw) : Cause → Prop
  | notText (h : ∀ text, raw ≠ .text text) : TextFault raw .notText

/-- Why a raw value is no expression of a request. -/
inductive ExpressionFault (raw : Raw) : Cause → Prop
  | notText (h : ∀ text, raw ≠ .text text) : ExpressionFault raw .notText
  | blank {text : String} (h : raw = .text text) (hblank : Text.strip text.toList = []) :
      ExpressionFault raw .blankExpression

/-- A line number is an integer from one on. -/
def IsLine (raw : Raw) : Prop := ∃ integer, raw.readInteger = .ok integer ∧ 1 ≤ integer

/-- Why a raw value is no line number. -/
inductive LineFault (raw : Raw) : Cause → Prop
  | notInteger {cause : Cause} (h : raw.readInteger = .error cause) : LineFault raw cause
  | belowOne {integer : Int} (h : raw.readInteger = .ok integer) (hbelow : integer < 1) :
      LineFault raw .belowOne

variable {α : Type} {read : Raw → Except Cause α} {raw : Raw} {cause : Cause}

theorem readText_eq_ok {text : String} : raw.readText = .ok text ↔ raw = .text text := by
  cases raw <;> simp [readText]

theorem readText_eq_error : raw.readText = .error cause ↔ raw.TextFault cause := by
  constructor
  · intro h
    cases raw with
    | text value => cases h
    | _ =>
      cases h
      exact .notText (by simp)
  · intro ⟨h⟩
    cases raw with
    | text value => exact absurd rfl (h value)
    | _ => rfl

theorem readOptional_of_ne_null (h : raw ≠ .null) :
    readOptional read raw = (read raw).map some := by
  cases raw with
  | null => exact absurd rfl h
  | _ => rfl

theorem readOptional_ok_iff :
    (∃ a?, readOptional read raw = .ok a?) ↔ raw = .null ∨ ∃ a, read raw = .ok a := by
  by_cases hnull : raw = .null
  · simp [hnull, readOptional]
  · cases h : read raw <;> simp [readOptional_of_ne_null hnull, hnull, h, Except.map]

theorem readOptional_eq_error :
    readOptional read raw = .error cause ↔ raw ≠ .null ∧ read raw = .error cause := by
  by_cases hnull : raw = .null
  · simp [hnull, readOptional]
  · cases h : read raw <;> simp [readOptional_of_ne_null hnull, hnull, h, Except.map]

end Raw

namespace LineNumber

variable {raw : Raw}

theorem read_of_pos {integer : Int} (h : raw.readInteger = .ok integer) (hpos : 0 < integer.toNat) :
    read raw = .ok ⟨integer.toNat, hpos⟩ := by
  simp only [read, h, bind, Except.bind, dif_pos hpos]
  rfl

theorem read_of_not_pos {integer : Int} (h : raw.readInteger = .ok integer)
    (hpos : ¬ 0 < integer.toNat) : read raw = .error .belowOne := by
  simp only [read, h, bind, Except.bind, dif_neg hpos]
  rfl

theorem read_eq_ok {line : LineNumber} :
    read raw = .ok line ↔ raw.readInteger = .ok (line.val : Int) := by
  have hline := line.property
  cases h : raw.readInteger with
  | error cause => simp [read, h, bind, Except.bind]
  | ok integer =>
    by_cases hpos : 0 < integer.toNat
    · simp only [read_of_pos h hpos, Except.ok.injEq, Subtype.ext_iff]
      omega
    · simp only [read_of_not_pos h hpos, reduceCtorEq, Except.ok.injEq, false_iff]
      omega

theorem read_eq_error {cause : Cause} : read raw = .error cause ↔ raw.LineFault cause := by
  constructor
  · intro h
    cases hinteger : raw.readInteger with
    | error cause' =>
      simp only [read, hinteger, bind, Except.bind, Except.error.injEq] at h
      exact .notInteger (h ▸ hinteger)
    | ok integer =>
      by_cases hpos : 0 < integer.toNat
      · simp [read_of_pos hinteger hpos] at h
      · obtain rfl := Except.error.inj ((read_of_not_pos hinteger hpos).symm.trans h)
        exact .belowOne hinteger (by omega)
  · intro h
    cases h with
    | notInteger h => simp [read, h, bind, Except.bind]
    | belowOne h hbelow => exact read_of_not_pos h (by omega)

theorem read_ok_iff : (∃ line, read raw = .ok line) ↔ raw.IsLine := by
  simp only [read_eq_ok, Raw.IsLine]
  constructor
  · intro ⟨line, h⟩
    exact ⟨line.val, h, by exact_mod_cast line.property⟩
  · intro ⟨integer, h, hpos⟩
    refine ⟨⟨integer.toNat, by omega⟩, ?_⟩
    rw [h, Int.toNat_of_nonneg (by omega)]

end LineNumber

namespace Request

variable {raw : Raw} {text : String}

theorem readExpression_of_blank (h : Text.Blank text) :
    readExpression (.text text) = .error .blankExpression := by
  simp only [readExpression, Raw.readText, bind, Except.bind, dif_pos h]
  rfl

theorem readExpression_of_visible (h : ¬ Text.Blank text) :
    readExpression (.text text) = .ok ⟨text, h⟩ := by
  simp only [readExpression, Raw.readText, bind, Except.bind, dif_neg h]
  rfl

theorem readExpression_eq_ok {text : { text : String // ¬ Text.Blank text }} :
    readExpression raw = .ok text ↔ raw = .text text.val := by
  constructor
  · intro h
    cases raw with
    | text value =>
      by_cases hblank : Text.Blank value
      · simp [readExpression_of_blank hblank] at h
      · obtain rfl := Except.ok.inj ((readExpression_of_visible hblank).symm.trans h)
        rfl
    | _ => cases h
  · rintro rfl
    exact readExpression_of_visible text.property

theorem readExpression_eq_error {cause : Cause} :
    readExpression raw = .error cause ↔ raw.ExpressionFault cause := by
  constructor
  · intro h
    cases raw with
    | text value =>
      by_cases hblank : Text.Blank value
      · obtain rfl := Except.error.inj ((readExpression_of_blank hblank).symm.trans h)
        exact .blank rfl (Text.blank_iff.1 hblank)
      · simp [readExpression_of_visible hblank] at h
    | _ =>
      cases h
      exact .notText (by simp)
  · intro h
    cases h with
    | notText h =>
      cases raw with
      | text value => exact absurd rfl (h value)
      | _ => rfl
    | blank h hblank =>
      rw [h]
      exact readExpression_of_blank (Text.blank_iff.2 hblank)

end Request

/-! ## Fields -/

namespace Form

variable {α : Type} {form : Form} {name : String} {default? : Option α}
  {read : Raw → Except Cause α}

/-- The field is there, and it is not null. -/
def Sets (form : Form) (name : String) : Prop := ∃ raw, form.lookup name = some raw ∧ raw ≠ .null

/-- The field is absent or valid. -/
def Admits (form : Form) (name : String) (valid : Raw → Prop) : Prop :=
  ∀ raw, form.lookup name = some raw → valid raw

/-- The issue of a field at fault: it is absent though it is required, or its value has a fault. -/
@[mk_iff]
inductive Refuses (form : Form) (name : String) (required : Bool) (fault : Raw → Cause → Prop) :
    Issue → Prop
  | missing (hlookup : form.lookup name = none) (hrequired : required = true) :
      Refuses form name required fault ⟨name, .missing⟩
  | invalid {raw : Raw} {cause : Cause} (hlookup : form.lookup name = some raw)
      (hfault : fault raw cause) : Refuses form name required fault ⟨name, cause⟩

theorem Refuses.field_eq {required : Bool} {fault : Raw → Cause → Prop} {issue : Issue}
    (h : form.Refuses name required fault issue) : issue.field = name := by
  cases h <;> rfl

theorem field_eq_ok {a : α} : form.field name default? read = .ok a ↔
    (∃ raw, form.lookup name = some raw ∧ read raw = .ok a) ∨
      form.lookup name = none ∧ default? = some a := by
  unfold field
  cases form.lookup name with
  | none => cases default? <;> simp
  | some raw => cases hread : read raw <;> simp [Except.mapError, hread]

theorem field_eq_error {fault : Raw → Cause → Prop}
    (hfault : ∀ {raw cause}, read raw = .error cause ↔ fault raw cause) {issues : List Issue} :
    form.field name default? read = .error issues ↔
      ∃ issue, form.Refuses name default?.isNone fault issue ∧ issues = [issue] := by
  unfold field
  cases hlookup : form.lookup name with
  | none => cases default? <;> simp [refuses_iff, hlookup, @eq_comm _ _ issues]
  | some raw =>
    cases hread : read raw <;>
      simp [refuses_iff, hlookup, ← hfault, hread, Except.mapError, @eq_comm _ _ issues]

/-- An optional field is set to the value, or there is none and it is not set. -/
def Holds (form : Form) (name : String) (read : Raw → Except Cause α) : Option α → Prop
  | none => ¬ form.Sets name
  | some a => ∃ raw, form.lookup name = some raw ∧ read raw = .ok a

theorem field_eq_ok_of_optional {a? : Option α} (read : Raw → Except Cause α)
    (hnull : ∀ a, read .null ≠ .ok a) :
    form.field name (some none) (Raw.readOptional read) = .ok a? ↔ form.Holds name read a? := by
  rw [field_eq_ok]
  cases hlookup : form.lookup name with
  | none => cases a? <;> simp [Holds, Sets, hlookup]
  | some raw =>
    by_cases h : raw = .null
    · subst h
      cases a? <;> simp [Holds, Sets, hlookup, Raw.readOptional, hnull]
    · cases a? <;> cases hread : read raw <;>
        simp [Holds, Sets, hlookup, Raw.readOptional_of_ne_null h, h, hread, Except.map]

theorem Holds.isSome_iff {a? : Option α} (hnull : ∀ a, read .null ≠ .ok a)
    (h : form.Holds name read a?) : a?.isSome = true ↔ form.Sets name := by
  cases a? with
  | none => exact iff_of_false (by simp) h
  | some a =>
    obtain ⟨raw, hlookup, hread⟩ := h
    refine ⟨fun _ => ⟨raw, hlookup, ?_⟩, fun _ => rfl⟩
    rintro rfl
    exact hnull a hread

/-- A field with a default is valid exactly if it is absent or can be read. -/
theorem field_ok_iff_admits {a : α} : (∃ b, form.field name (some a) read = .ok b) ↔
    form.Admits name fun raw => ∃ b, read raw = .ok b := by
  cases hlookup : form.lookup name <;> simp [field_eq_ok, Admits, hlookup]

end Form

/-! ## Reports -/

/-- The issues are all that are to be reported, in the order of their fields, each once. -/
structure Issue.Listed (order : List String) (refused : Issue → Prop) (issues : List Issue) :
    Prop where
  ordered : (issues.map Issue.field).Sublist order
  complete : ∀ issue, issue ∈ issues ↔ refused issue

theorem Issue.Listed.nil {order : List String} {refused : Issue → Prop}
    (h : ∀ issue, ¬ refused issue) : Listed order refused [] :=
  ⟨List.nil_sublist order, fun issue => by simp [h issue]⟩

theorem Issue.Listed.append {order order' : List String} {refused refused' : Issue → Prop}
    {issues issues' : List Issue} (h : Listed order refused issues)
    (h' : Listed order' refused' issues') :
    Listed (order ++ order') (fun issue => refused issue ∨ refused' issue) (issues ++ issues') where
  ordered := by
    rw [List.map_append]
    exact h.ordered.append h'.ordered
  complete issue := by rw [List.mem_append, h.complete, h'.complete]

namespace Checked

variable {α β : Type} {order order' : List String} {refused refused' : Issue → Prop}

/-- There is a value exactly if no field is at fault, and otherwise a list of those that are. -/
def Reports (order : List String) (refused : Issue → Prop) : Checked α → Prop
  | .ok _ => ∀ issue, ¬ refused issue
  | .error issues => issues ≠ [] ∧ Issue.Listed order refused issues

theorem reports_both {first : Checked α} {second : Checked β} (h : first.Reports order refused)
    (h' : second.Reports order' refused') : (first.both second).Reports (order ++ order')
      fun issue => refused issue ∨ refused' issue := by
  cases first with
  | ok a =>
    cases second with
    | ok b => exact fun issue => not_or.2 ⟨h issue, h' issue⟩
    | error issues' => exact ⟨h'.1, (Issue.Listed.nil h).append h'.2⟩
  | error issues =>
    cases second with
    | ok b => exact ⟨h.1, by simpa using h.2.append (Issue.Listed.nil h')⟩
    | error issues' => exact ⟨by simp [h.1], h.2.append h'.2⟩

theorem reports_field {form : Form} {name : String} {default? : Option α}
    {read : Raw → Except Cause α} {fault : Raw → Cause → Prop}
    (hfault : ∀ {raw cause}, read raw = .error cause ↔ fault raw cause) :
    (form.field name default? read).Reports [name] (form.Refuses name default?.isNone fault) := by
  cases h : form.field name default? read with
  | ok a =>
    intro issue hissue
    have herror := (Form.field_eq_error hfault).2 ⟨issue, hissue, rfl⟩
    simp [h] at herror
  | error issues =>
    obtain ⟨issue, hissue, rfl⟩ := (Form.field_eq_error hfault).1 h
    refine ⟨by simp, by simp [hissue.field_eq], fun other => List.mem_singleton.trans ⟨?_, ?_⟩⟩
    · rintro rfl
      exact hissue
    · intro hother
      have herror := (Form.field_eq_error hfault).2 ⟨other, hother, rfl⟩
      simpa [h, eq_comm] using herror

theorem both_ok_iff {first : Checked α} {second : Checked β} :
    (∃ parts, first.both second = .ok parts) ↔ (∃ a, first = .ok a) ∧ ∃ b, second = .ok b := by
  cases first <;> cases second <;> simp [both]

theorem both_eq_ok {first : Checked α} {second : Checked β} {a : α} {b : β} :
    first.both second = .ok (a, b) ↔ first = .ok a ∧ second = .ok b := by
  cases first <;> cases second <;> simp [both]

end Checked

/-! ## Line numbers in forms -/

namespace Form

variable {form : Form}

/-- The line number is the one that is given, or else the first. -/
def HasLine (form : Form) (line : LineNumber) : Prop :=
  match form.lookup "line_number" with
  | none => line = .first
  | some raw => raw.readInteger = .ok (line.val : Int)

theorem field_line_eq_ok {line : LineNumber} :
    form.field "line_number" (some .first) LineNumber.read = .ok line ↔ form.HasLine line := by
  rw [field_eq_ok, HasLine]
  cases form.lookup "line_number" with
  | none => simp [eq_comm]
  | some raw => simp [LineNumber.read_eq_ok]

end Form

/-! ## Requests -/

namespace Request

variable {form : Form}

/-- The fields are there as a request needs them. -/
structure Valid (form : Form) : Prop where
  expression : ∃ text, form.lookup "expression" = some (.text text) ∧ Text.strip text.toList ≠ []
  line : form.Admits "line_number" Raw.IsLine

/-- The request has the values that its form gives. -/
structure MadeOf (request : Request) (form : Form) : Prop where
  expression : form.lookup "expression" = some (.text request.expression)
  line : form.HasLine request.line

/-- The issues of the fields of a request. -/
def Refuses (form : Form) (issue : Issue) : Prop :=
  form.Refuses "expression" true Raw.ExpressionFault issue ∨
    form.Refuses "line_number" false Raw.LineFault issue

/-- The fields of a request, each of them read. -/
def fields (form : Form) : Checked ({ text : String // ¬ Text.Blank text } × LineNumber) :=
  (form.field "expression" none readExpression).both
    (form.field "line_number" (some .first) LineNumber.read)

theorem ofForm_eq (form : Form) : ofForm form = (fields form).map fun (expression, line) =>
    ⟨expression.val, line, expression.property⟩ := rfl

theorem fields_reports (form : Form) :
    (fields form).Reports ["expression", "line_number"] (Refuses form) :=
  Checked.reports_both (Checked.reports_field readExpression_eq_error)
    (Checked.reports_field LineNumber.read_eq_error)

theorem fields_ok_iff : (∃ parts, fields form = .ok parts) ↔ Valid form := by
  simp only [fields, Checked.both_ok_iff, Form.field_ok_iff_admits, LineNumber.read_ok_iff]
  simp only [Form.field_eq_ok, readExpression_eq_ok]
  constructor
  · intro ⟨⟨text, h⟩, hline⟩
    refine ⟨⟨text.val, ?_, fun h => text.property (Text.blank_iff.2 h)⟩, hline⟩
    simpa using h
  · intro ⟨⟨text, hlookup, hvisible⟩, hline⟩
    exact ⟨⟨⟨text, fun h => hvisible (Text.blank_iff.1 h)⟩, .inl ⟨_, hlookup, rfl⟩⟩, hline⟩

theorem fields_eq_ok {text : { text : String // ¬ Text.Blank text }} {line : LineNumber} :
    fields form = .ok (text, line) ↔
      form.lookup "expression" = some (.text text.val) ∧ form.HasLine line := by
  simp only [fields, Checked.both_eq_ok, Form.field_line_eq_ok]
  simp [Form.field_eq_ok, readExpression_eq_ok]

/-- A form makes the request that has its values, and no other. -/
theorem ofForm_eq_ok {request : Request} : ofForm form = .ok request ↔ request.MadeOf form := by
  have hfields : ofForm form = .ok request ↔
      fields form = .ok (⟨request.expression, request.visible⟩, request.line) := by
    rw [ofForm_eq]
    cases fields form with
    | error issues => simp [Except.map]
    | ok parts =>
      obtain ⟨⟨text, hvisible⟩, line⟩ := parts
      obtain ⟨expression, line', hvisible'⟩ := request
      simp [Except.map]
  rw [hfields, fields_eq_ok]
  exact ⟨fun h => ⟨h.1, h.2⟩, fun h => ⟨h.expression, h.line⟩⟩

theorem ofForm_ok_iff : (∃ request, ofForm form = .ok request) ↔ Valid form := by
  rw [← fields_ok_iff, ofForm_eq]
  cases fields form <;> simp [Except.map]

/-- What is reported of a form that makes no request are its fields at fault. -/
theorem ofForm_error {issues : List Issue} (h : ofForm form = .error issues) :
    issues ≠ [] ∧ Issue.Listed ["expression", "line_number"] (Refuses form) issues := by
  have hreports := fields_reports form
  rw [ofForm_eq] at h
  cases hfields : fields form with
  | ok parts => simp [hfields, Except.map] at h
  | error issues' =>
    simp only [hfields, Except.map, Except.error.injEq] at h
    rw [hfields, h] at hreports
    exact hreports

end Request

/-! ## Entries -/

/-- Parts make an outcome exactly if there is one of them. -/
theorem Outcome.ofParts?_isSome_iff {result : Option Binary64} {error : Option String} :
    (∃ outcome, ofParts? result error = some outcome) ↔
      (result.isSome = true ↔ ¬ error.isSome = true) := by
  cases result <;> cases error <;> simp [ofParts?]

theorem Outcome.ofParts?_eq_some_iff (entry : Entry) {result : Option Binary64}
    {error : Option String} : ofParts? result error = some entry.outcome ↔
      result = entry.result? ∧ error = entry.error? := by
  simp only [Entry.result?, Entry.error?]
  cases entry.outcome <;> cases result <;> cases error <;> simp [ofParts?]

namespace Entry

variable {form : Form}

/-- The fields are there as an entry needs them. -/
structure Valid (form : Form) : Prop where
  expression : ∃ text, form.lookup "expression" = some (.text text)
  line : form.Admits "line_number" Raw.IsLine
  result : form.Admits "result" fun raw => raw = .null ∨ ∃ value, raw.readNumber = .ok value
  error : form.Admits "error" fun raw => raw = .null ∨ ∃ reason, raw = .text reason

/-- The entry has the values that its form gives. -/
structure MadeOf (entry : Entry) (form : Form) : Prop where
  expression : form.lookup "expression" = some (.text entry.expression)
  line : form.HasLine entry.line
  result : form.Holds "result" Raw.readNumber entry.result?
  error : form.Holds "error" Raw.readText entry.error?

/-- The issues of the fields of an entry. -/
def Refuses (form : Form) (issue : Issue) : Prop :=
  form.Refuses "expression" true Raw.TextFault issue ∨
    form.Refuses "line_number" false Raw.LineFault issue ∨
    form.Refuses "result" false
      (fun raw cause => raw ≠ .null ∧ raw.readNumber = .error cause) issue ∨
    form.Refuses "error" false (fun raw cause => raw ≠ .null ∧ raw.TextFault cause) issue

/-- The fields of an entry, each of them read. -/
def fields (form : Form) : Checked (String × LineNumber × Option Binary64 × Option String) :=
  (form.field "expression" none Raw.readText).both
    ((form.field "line_number" (some .first) LineNumber.read).both
      ((form.field "result" (some none) (Raw.readOptional Raw.readNumber)).both
        (form.field "error" (some none) (Raw.readOptional Raw.readText))))

theorem ofForm_eq (form : Form) : ofForm form =
    match fields form with
    | .error issues => .error issues
    | .ok (expression, line, result, error) =>
      match Outcome.ofParts? result error with
      | some outcome => .ok ⟨expression, line, outcome⟩
      | none => .error [⟨"", .notExactlyOne⟩] := by
  change fields form >>= _ = _
  cases fields form <;> rfl

theorem fields_reports (form : Form) :
    (fields form).Reports ["expression", "line_number", "result", "error"] (Refuses form) :=
  Checked.reports_both (Checked.reports_field Raw.readText_eq_error) <|
    Checked.reports_both (Checked.reports_field LineNumber.read_eq_error) <|
      Checked.reports_both (Checked.reports_field Raw.readOptional_eq_error)
        (Checked.reports_field <|
          Raw.readOptional_eq_error.trans (and_congr_right fun _ => Raw.readText_eq_error))

theorem fields_eq_ok {expression : String} {line : LineNumber} {result : Option Binary64}
    {error : Option String} : fields form = .ok (expression, line, result, error) ↔
      form.lookup "expression" = some (.text expression) ∧ form.HasLine line ∧
        form.Holds "result" Raw.readNumber result ∧ form.Holds "error" Raw.readText error := by
  simp only [fields, Checked.both_eq_ok, Form.field_line_eq_ok,
    Form.field_eq_ok_of_optional Raw.readNumber (by simp [Raw.readNumber]),
    Form.field_eq_ok_of_optional Raw.readText (by simp [Raw.readText])]
  simp [Form.field_eq_ok, Raw.readText_eq_ok]

theorem fields_ok_iff : (∃ parts, fields form = .ok parts) ↔ Valid form := by
  simp only [fields, Checked.both_ok_iff, Form.field_ok_iff_admits, LineNumber.read_ok_iff,
    Raw.readOptional_ok_iff, Raw.readText_eq_ok]
  simp only [Form.field_eq_ok, Raw.readText_eq_ok]
  constructor
  · intro ⟨hexpression, hline, hresult, herror⟩
    exact ⟨by simpa using hexpression, hline, hresult, herror⟩
  · intro h
    exact ⟨by simpa using h.expression, h.line, h.result, h.error⟩

/-- A form makes the entry that has its values, and no other. -/
theorem ofForm_eq_ok {entry : Entry} : ofForm form = .ok entry ↔ entry.MadeOf form := by
  constructor
  · intro h
    rw [ofForm_eq] at h
    cases hfields : fields form with
    | error issues => simp [hfields] at h
    | ok parts =>
      obtain ⟨expression, line, result, error⟩ := parts
      cases hparts : Outcome.ofParts? result error with
      | none => simp [hfields, hparts] at h
      | some outcome =>
        simp only [hfields, hparts, Except.ok.injEq] at h
        subst h
        obtain ⟨rfl, rfl⟩ := (Outcome.ofParts?_eq_some_iff ⟨expression, line, outcome⟩).1 hparts
        obtain ⟨hexpression, hline, hresult, herror⟩ := fields_eq_ok.1 hfields
        exact ⟨hexpression, hline, hresult, herror⟩
  · intro h
    have hfields := fields_eq_ok.2 ⟨h.expression, h.line, h.result, h.error⟩
    have hparts := (Outcome.ofParts?_eq_some_iff entry).2 ⟨rfl, rfl⟩
    simp only [ofForm_eq, hfields, hparts]

/-- The parts of valid fields make an outcome exactly if one of the two is set. -/
theorem ofParts?_ok_iff {expression : String} {line : LineNumber} {result : Option Binary64}
    {error : Option String} (h : fields form = .ok (expression, line, result, error)) :
    (∃ outcome, Outcome.ofParts? result error = some outcome) ↔
      (form.Sets "result" ↔ ¬ form.Sets "error") := by
  obtain ⟨-, -, hresult, herror⟩ := fields_eq_ok.1 h
  rw [Outcome.ofParts?_isSome_iff, hresult.isSome_iff (by simp [Raw.readNumber]),
    herror.isSome_iff (by simp [Raw.readText])]

theorem ofForm_ok_iff : (∃ entry, ofForm form = .ok entry) ↔
    Valid form ∧ (form.Sets "result" ↔ ¬ form.Sets "error") := by
  rw [← fields_ok_iff, ofForm_eq]
  cases hfields : fields form with
  | error issues => simp
  | ok parts =>
    obtain ⟨expression, line, result, error⟩ := parts
    rw [← ofParts?_ok_iff hfields]
    cases hparts : Outcome.ofParts? result error <;> simp [hparts]

/-- What is reported of a form that makes no entry are its fields at fault, or, if there are none,
that not exactly one of the result and the error is set. -/
theorem ofForm_error {issues : List Issue} (h : ofForm form = .error issues) :
    (¬ Valid form ∧ issues ≠ [] ∧
      Issue.Listed ["expression", "line_number", "result", "error"] (Refuses form) issues) ∨
    Valid form ∧ (∀ issue, ¬ Refuses form issue) ∧ issues = [⟨"", .notExactlyOne⟩] := by
  have hreports := fields_reports form
  rw [← fields_ok_iff]
  rw [ofForm_eq] at h
  cases hfields : fields form with
  | error issues' =>
    simp only [hfields, Except.error.injEq] at h
    rw [hfields, h] at hreports
    exact .inl ⟨by simp, hreports⟩
  | ok parts =>
    obtain ⟨expression, line, result, error⟩ := parts
    rw [hfields] at hreports
    cases hparts : Outcome.ofParts? result error with
    | none =>
      simp only [hfields, hparts, Except.error.injEq] at h
      exact .inr ⟨⟨_, rfl⟩, hreports, h.symm⟩
    | some outcome => simp [hfields, hparts] at h

/-- An entry has a result or an error, and not both. -/
theorem result?_isSome_iff (entry : Entry) :
    entry.result?.isSome = true ↔ ¬ entry.error?.isSome = true := by
  simp only [result?, error?]
  cases entry.outcome <;> simp

theorem succeeded_iff (entry : Entry) :
    entry.succeeded = true ↔ entry.result?.isSome = true := by
  simp only [succeeded, result?, error?]
  cases entry.outcome <;> simp

end Entry

/-! ## Forms -/

/-- **Forms are accepted exactly if they are valid, and what is reported of the others is
complete.** A form makes an entry exactly if its expression is a text, its other fields are absent
or valid, and exactly one of the result and the error is set. The entry has these values, its line
number is positive, and it has succeeded exactly if it has a result. Otherwise the fields at fault
are reported, one issue each and in their order, or, if and only if there are none, the single issue
of the form as a whole. A form makes a request exactly if its expression is a text that is not blank
and its line number is absent or valid; otherwise the fields at fault are reported. -/
theorem Form.checks_complete (form : Form) :
    ((∀ entry, Entry.ofForm form = .ok entry ↔ entry.MadeOf form) ∧
      ((∃ entry, Entry.ofForm form = .ok entry) ↔
        Entry.Valid form ∧ (form.Sets "result" ↔ ¬ form.Sets "error")) ∧
      (∀ entry, Entry.ofForm form = .ok entry → 1 ≤ entry.line.val ∧
        (entry.succeeded = true ↔ entry.result?.isSome = true) ∧
        (entry.result?.isSome = true ↔ ¬ entry.error?.isSome = true)) ∧
      ∀ issues, Entry.ofForm form = .error issues →
        (¬ Entry.Valid form ∧ issues ≠ [] ∧
          Issue.Listed ["expression", "line_number", "result", "error"] (Entry.Refuses form)
            issues) ∨
        Entry.Valid form ∧ (∀ issue, ¬ Entry.Refuses form issue) ∧
          issues = [⟨"", .notExactlyOne⟩]) ∧
    (∀ request, Request.ofForm form = .ok request ↔ request.MadeOf form) ∧
      ((∃ request, Request.ofForm form = .ok request) ↔ Request.Valid form) ∧
      ∀ issues, Request.ofForm form = .error issues →
        issues ≠ [] ∧ Issue.Listed ["expression", "line_number"] (Request.Refuses form) issues :=
  ⟨⟨fun _ => Entry.ofForm_eq_ok, Entry.ofForm_ok_iff,
    fun entry _ => ⟨entry.line.property, entry.succeeded_iff, entry.result?_isSome_iff⟩,
    fun _ => Entry.ofForm_error⟩,
    fun _ => Request.ofForm_eq_ok, Request.ofForm_ok_iff, fun _ => Request.ofForm_error⟩

/-- An empty reason is a reason, but null is none. -/
example : (Entry.ofForm [("expression", .text "1"), ("error", .text "")]).isOk = true ∧
    Entry.ofForm [("expression", .text "1"), ("error", .null)] = .error [⟨"", .notExactlyOne⟩] ∧
    Entry.ofForm [("line_number", .integer 0), ("error", .compound)] =
      .error [⟨"expression", .missing⟩, ⟨"line_number", .belowOne⟩, ⟨"error", .notText⟩] := by
  decide

end Abacus
