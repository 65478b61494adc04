/-
No operation is applied outside its domain.

A recording follows an outcome if it ends in it from every list and adds only
applications of one kind (`Follows`). The recorded evaluation follows the value
of an expression with applications that are all defined
(`recorded_follows`): operands are finite because values are, and the checks in
front of an operation rule out the rest.
-/
import Abacus.Expr.Applications
import Abacus.Proofs.Evaluation

namespace Abacus

namespace Recording

/-- The outcome of a recording together with a list. -/
def ended {α : Type} (made : List Application) :
    Except EvaluationError α → EStateM.Result EvaluationError (List Application) α
  | .ok a => .ok a made
  | .error error => .error error made

/-- The recording comes to the outcome, and each application that it makes is of a kind. -/
def Follows {α : Type} (kind : Application → Prop) (recording : Recording α)
    (outcome : Except EvaluationError α) : Prop :=
  ∀ before, ∃ made, recording before = ended (before ++ made) outcome ∧ ∀ a ∈ made, kind a

namespace Follows

variable {α β : Type} {kind : Application → Prop}

theorem ofExcept (outcome : Except EvaluationError α) :
    Follows kind (ofExcept outcome) outcome := by
  intro before
  refine ⟨[], ?_, by simp⟩
  rw [List.append_nil]
  cases outcome <;> rfl

theorem note {application : Application} (h : kind application) :
    Follows kind (note application) (.ok ()) := by
  intro before
  exact ⟨[application], rfl, by simpa using h⟩

theorem bind {recording : Recording α} {next : α → Recording β}
    {outcome : Except EvaluationError α} {f : α → Except EvaluationError β}
    (h : Follows kind recording outcome) (h' : ∀ a, outcome = .ok a → Follows kind (next a) (f a)) :
    Follows kind (recording >>= next) (outcome >>= f) := by
  intro before
  obtain ⟨made, hrun, hkind⟩ := h before
  cases outcome with
  | error error =>
    refine ⟨made, ?_, hkind⟩
    simp only [Bind.bind, EStateM.bind, hrun, ended, Except.bind]
  | ok a =>
    obtain ⟨more, hrun', hkind'⟩ := h' a rfl (before ++ made)
    refine ⟨made ++ more, ?_, ?_⟩
    · simp only [Bind.bind, EStateM.bind, hrun, ended, Except.bind, hrun', List.append_assoc]
    · intro application hm
      exact (List.mem_append.1 hm).elim (hkind _) (hkind' _)

theorem result {recording : Recording α} {outcome : Except EvaluationError α}
    (h : Follows kind recording outcome) :
    recording.result.1 = outcome ∧ ∀ a ∈ recording.result.2, kind a := by
  obtain ⟨made, hrun, hkind⟩ := h []
  simp only [Recording.result, hrun, List.nil_append]
  cases outcome <;> exact ⟨rfl, hkind⟩

end Follows

/-! ## Operations -/

variable {tolerance : Tolerance} {x y : Binary64}

theorem isZero_eq_false_of_tolerance_le (h : tolerance.value ≤ y.abs) : y.isZero = false := by
  obtain ⟨a, b, ha, hb, hab⟩ := Binary64.lt_iff.1 (Binary64.lt_of_lt_of_le tolerance.positive h)
  cases y with
  | nan | infinite => rfl
  | finite negative m =>
    obtain rfl := Option.some.inj ha
    obtain rfl := Option.some.inj hb
    simp only [Binary64.isZero, beq_eq_false_iff_ne]
    intro hm
    simp [Binary64.signed, hm] at hab

theorem divide_follows (hx : x.isFinite = true) (hy : y.isFinite = true)
    (hd : ¬ y.abs < tolerance.value) :
    Follows (Application.Defined tolerance) (divide x y) (.ok (x / y)) := by
  have hnan : y.abs.isNaN = false := by cases y <;> first | rfl | cases hy
  have hle := Binary64.le_of_not_lt hnan (Binary64.isNaN_right_of_lt tolerance.positive) hd
  refine (Follows.note ⟨hx, hy, hle, ?_⟩).bind fun _ _ => Follows.ofExcept (.ok _)
  simp [isZero_eq_false_of_tolerance_le hle]

theorem power_follows (hx : x.isFinite = true) (hy : y.isFinite = true) :
    Follows (Application.Defined tolerance) (power tolerance x y) (Expr.power tolerance x y) := by
  unfold power Expr.power
  split
  · exact .ofExcept (.error _)
  · next hzero =>
    rw [Bool.and_eq_true] at hzero
    have hraise : Follows (Application.Defined tolerance) (raise x y) (.ok (x.pow y)) :=
      (Follows.note ⟨hx, hy, hzero⟩).bind fun _ _ => .ofExcept (.ok _)
    split
    · exact .ofExcept (.error _)
    · show Follows _ _ (Except.ok (x.pow y) >>= fun result =>
        if result.isInfinite then .error .overflow
        else if result.isNaN && x.isFinite && y.isFinite then .error (.undefinedPower x y)
        else .ok result)
      refine hraise.bind fun result _ => ?_
      split
      · exact .ofExcept (.error _)
      · split
        · exact .ofExcept (.error _)
        · exact .ofExcept (.ok _)

/-! ## Words -/

theorem isWord_eq_true :
    isWord x = true ↔ ∃ whole, x.toInt? = some whole ∧ -2 ^ 63 ≤ whole ∧ whole ≤ 2 ^ 63 := by
  simp [isWord, Option.any_eq_true]

/-- A whole number is its own whole part. -/
theorem wholePart_of_toInt? {whole : Int} (h : x.toInt? = some whole) : x.wholePart = whole := by
  unfold Binary64.toInt? at h
  split at h
  · split at h <;> cases h
    rfl
  · cases h

theorem convert_follows (h : isWord x = true) :
    Follows (Application.Defined tolerance) (convert x) (.ok x.wholePart) :=
  (Follows.note (isWord_eq_true.1 h)).bind fun _ _ => .ofExcept (.ok _)

/-- The word of a number is that of its whole part. -/
theorem toWord?_eq (x : Binary64) : x.toWord? =
    if isWord x then some (BitVec.ofInt 64 (min x.wholePart Binary64.maxWord)) else none := by
  unfold Binary64.toWord? isWord
  cases hwhole : x.toInt? with
  | none => rfl
  | some whole => simp [wholePart_of_toInt? hwhole]

theorem bitwise_follows (op : Operator) (combine : BitVec 64 → BitVec 64 → BitVec 64) :
    Follows (Application.Defined tolerance) (bitwise op combine x y)
      (Expr.bitwise op combine x y) := by
  rw [bitwise, Expr.bitwise, toWord?_eq, toWord?_eq]
  cases hx : isWord x with
  | false => exact .ofExcept (.error _)
  | true =>
    cases hy : isWord y with
    | false => exact .ofExcept (.error _)
    | true =>
      show Follows _ _ (Except.ok x.wholePart >>= fun a => Except.ok y.wholePart >>= fun b =>
        Except.ok (Binary64.ofWord (combine (.ofInt 64 (min a Binary64.maxWord))
          (.ofInt 64 (min b Binary64.maxWord)))))
      exact (convert_follows hx).bind fun a _ => (convert_follows hy).bind fun b _ =>
        .ofExcept (.ok _)

theorem operate_follows (op : Operator) (hx : x.isFinite = true) (hy : y.isFinite = true)
    (hop : op ≠ .divide) :
    Follows (Application.Defined tolerance) (operate tolerance op x y)
      (Expr.operate tolerance op x y) := by
  cases op with
  | add | subtract | multiply => exact .ofExcept (.ok _)
  | divide => exact absurd rfl hop
  | power => exact power_follows hx hy
  | and => exact bitwise_follows .and _
  | or => exact bitwise_follows .or _

end Recording

/-! ## Evaluation -/

namespace Expr

open Recording (Follows)

theorem recorded_follows (tolerance : Tolerance) (e : Expr) (depth : Nat) :
    Follows (Application.Defined tolerance) (e.recorded tolerance depth)
      (e.valueWithin tolerance depth) := by
  induction e generalizing depth with
  | number value =>
    cases depth with
    | zero => exact .ofExcept (.error _)
    | succ depth => exact .ofExcept _
  | negative e ih =>
    cases depth with
    | zero => exact .ofExcept (.error _)
    | succ depth => exact (ih depth).bind fun x _ => .ofExcept _
  | binary op left right ihl ihr =>
    cases depth with
    | zero => exact .ofExcept (.error _)
    | succ depth =>
      rw [recorded, valueWithin_binary]
      split
      · refine (ihr depth).bind fun y hy => (Follows.ofExcept _).bind fun _ hd =>
          (ihl depth).bind fun x hx => ?_
        exact (Recording.divide_follows (isFinite_of_valueWithin hx) (isFinite_of_valueWithin hy)
          (checkDivisor_eq_ok.1 hd)).bind fun z _ => .ofExcept _
      · next hop =>
        refine (ihl depth).bind fun x hx => (ihr depth).bind fun y hy => ?_
        exact (Recording.operate_follows op (isFinite_of_valueWithin hx)
          (isFinite_of_valueWithin hy) hop).bind fun z _ => .ofExcept _
  | undetermined | empty => cases depth <;> exact .ofExcept (.error _)

/-- **No operation is applied outside its domain, and no value is infinite or NaN.** The recorded
evaluation ends as the plain one does, in an error or in a finite value. Whatever becomes of it, each
division, power and conversion that it made is defined for its operands; and each part of an
expression that has a value has a finite one. -/
theorem recorded_defined (tolerance : Tolerance) (e : Expr) (depth : Nat) :
    (e.recorded tolerance depth).result.1 = e.valueWithin tolerance depth ∧
      (∀ application ∈ (e.recorded tolerance depth).result.2, application.Defined tolerance) ∧
      ((∃ error, e.valueWithin tolerance depth = .error error) ∨
        ∃ v, e.valueWithin tolerance depth = .ok v ∧ v.isFinite = true) ∧
      ∀ (K : Context) part v, e = K.fill part → e.valueWithin tolerance depth = .ok v →
        ∃ w, part.valueWithin tolerance depth = .ok w ∧ w.isFinite = true := by
  obtain ⟨houtcome, hdefined⟩ := (recorded_follows tolerance e depth).result
  refine ⟨houtcome, hdefined, ?_, fun K part v he h => ?_⟩
  · cases h : e.valueWithin tolerance depth with
    | error error => exact .inl ⟨error, rfl⟩
    | ok v => exact .inr ⟨v, rfl, isFinite_of_valueWithin h⟩
  · subst he
    obtain ⟨w, hw⟩ := valueWithin_part h
    exact ⟨w, hw, isFinite_of_valueWithin hw⟩

/-- A divisor that is zero is computed and never divided by. -/
example : ((binary .divide (number .one) (binary .and (number .one) (number (.zero false)))).recorded
    .standard 3).result.2 = [.conversion .one, .conversion (.zero false)] := by
  decide +kernel

end Expr
end Abacus
