/-
Which error an evaluation reports.

An evaluation that does not run out of depth comes to the verdict of its checks:
the error of the first one that fails, or the unchecked value if none does
(`valueWithin_eq_verdict`). The verdict of two lists of checks one after the other
is that of two computations in sequence (`bind_eq_verdict`), so the order of the
list is that of the recursion. Each operator's own checks give its result only for
finite operands; the checks before them see to that.
-/
import Abacus.Expr.Checks
import Abacus.Proofs.ZeroSign

namespace Abacus
namespace Expr

variable {α β : Type} {tolerance : Tolerance} {op : Operator} {e : Expr} {depth : Nat}
  {x y : Binary64} {cs ds : List Check} {u : α} {v : β}

/-! ## Verdicts -/

/-- The error of the first check that fails, and the value if all pass. -/
def verdict (cs : List Check) (value : α) : Except EvaluationError α :=
  match cs.findSome? id with
  | some error => .error error
  | none => .ok value

theorem verdict_eq_error {error : EvaluationError} : verdict cs u = .error error ↔
    ∃ before after, cs = before ++ some error :: after ∧ ∀ check ∈ before, check = none := by
  have hfirst : verdict cs u = .error error ↔ cs.findSome? id = some error := by
    unfold verdict
    split <;> simp [*]
  rw [hfirst, List.findSome?_eq_some_iff]
  constructor
  · rintro ⟨before, -, after, rfl, rfl, hbefore⟩
    exact ⟨before, after, rfl, hbefore⟩
  · rintro ⟨before, after, rfl, hbefore⟩
    exact ⟨before, _, after, rfl, rfl, hbefore⟩

theorem verdict_eq_ok {w : α} : verdict cs u = .ok w ↔ u = w ∧ ∀ check ∈ cs, check = none := by
  have hpass : (∀ check ∈ cs, check = none) ↔ cs.findSome? id = none :=
    List.findSome?_eq_none_iff.symm
  rw [hpass]
  unfold verdict
  split <;> simp [*]

theorem verdict_append (u : α) :
    verdict (cs ++ ds) v = verdict cs u >>= fun _ => verdict ds v := by
  unfold verdict
  rw [List.findSome?_append]
  cases cs.findSome? id <;> rfl

theorem verdict_nil : verdict [] u = .ok u := rfl

theorem verdict_refuse {condition : Bool} {error : EvaluationError} :
    verdict (.refuse condition error :: cs) u =
      if condition then .error error else verdict cs u := by
  cases condition <;> rfl

/-- Two computations in sequence come to the verdict of the checks of both, if each comes to the
verdict of its own. The second is looked at only where the first has its value. -/
theorem bind_eq_verdict {f : α → Except EvaluationError β} {r : Except EvaluationError α}
    (h : (r >>= f) ≠ .error .tooDeep) (hr : r ≠ .error .tooDeep → r = verdict cs u)
    (hf : r = .ok u → f u ≠ .error .tooDeep → f u = verdict ds v) :
    (r >>= f) = verdict (cs ++ ds) v := by
  rw [verdict_append u]
  cases r with
  | error error =>
    rw [← hr fun he => h (by rw [he]; rfl)]
    rfl
  | ok a =>
    have hverdict := hr (by simp)
    obtain ⟨rfl, -⟩ := verdict_eq_ok.1 hverdict.symm
    rw [← hverdict]
    exact hf rfl h

/-! ## Operations -/

theorem checkFinite_eq_verdict (x : Binary64) : checkFinite x = verdict [.finite x] x := by
  rw [Check.finite, verdict_refuse, verdict_nil, checkFinite]
  cases x.isFinite <;> rfl

theorem checkDivisor_eq_verdict (y : Binary64) :
    checkDivisor tolerance y = verdict [.divisor tolerance y] () := by
  simp only [Check.divisor, verdict_refuse, verdict_nil, checkDivisor, decide_eq_true_eq]

theorem bitwise_eq_verdict (op : Operator) (combine : BitVec 64 → BitVec 64 → BitVec 64) :
    bitwise op combine x y = verdict [.words op x y] (combineWords combine x y) := by
  rw [Check.words, verdict_refuse, verdict_nil, bitwise, combineWords]
  cases x.toWord? <;> cases y.toWord? <;> rfl

theorem power_eq_verdict (hx : x.isFinite = true) (hy : y.isFinite = true) :
    power tolerance x y = verdict (Check.domain tolerance .power x y) (x.pow y) := by
  have hlt : ∀ a b : Binary64, decide (a < b) = a.lt b := fun a b => Bool.decide_eq_true ..
  simp only [Check.domain, verdict_refuse, verdict_nil, power, hlt, hx, hy, Bool.and_true]

theorem operate_eq_verdict (hx : x.isFinite = true) (hy : y.isFinite = true) :
    operate tolerance op x y = verdict (Check.domain tolerance op x y) (plain op x y) := by
  cases op with
  | add | subtract | multiply | divide => rfl
  | power => exact power_eq_verdict hx hy
  | and => exact bitwise_eq_verdict .and _
  | or => exact bitwise_eq_verdict .or _

/-! ## Evaluations -/

theorem valueWithin_eq_verdict (h : e.valueWithin tolerance depth ≠ .error .tooDeep) :
    e.valueWithin tolerance depth = verdict (e.checks tolerance) e.unchecked := by
  induction e generalizing depth with
  | number x =>
    obtain ⟨depth, rfl⟩ := exists_depth_of_ne h
    exact checkFinite_eq_verdict x
  | negative e ih =>
    obtain ⟨depth, rfl⟩ := exists_depth_of_ne h
    exact bind_eq_verdict h ih fun _ _ => checkFinite_eq_verdict _
  | binary op left right ihl ihr =>
    obtain ⟨depth, rfl⟩ := exists_depth_of_ne h
    rw [valueWithin_binary] at h ⊢
    rw [checks]
    split at h
    · next hop =>
      subst hop
      rw [if_pos rfl, if_pos rfl]
      refine bind_eq_verdict h ihr fun _ h => ?_
      refine @bind_eq_verdict _ _ [_] _ _ _ _ _ h (fun _ => checkDivisor_eq_verdict _) fun _ h => ?_
      exact bind_eq_verdict h ihl fun _ _ => checkFinite_eq_verdict _
    · next hop =>
      rw [if_neg hop, if_neg hop]
      refine bind_eq_verdict h ihl fun hx h => ?_
      refine bind_eq_verdict h ihr fun hy h => ?_
      have hoperate := @operate_eq_verdict tolerance op _ _ (isFinite_of_valueWithin hx)
        (isFinite_of_valueWithin hy)
      exact bind_eq_verdict h (fun _ => hoperate) fun _ _ => checkFinite_eq_verdict _
  | undetermined | empty =>
    obtain ⟨depth, rfl⟩ := exists_depth_of_ne h
    rfl

/-- **The error of an evaluation is that of the first check that fails.** Unless the evaluation runs
out of depth, it ends in an error exactly if a check in the list of all checks fails with that error
and all those before it pass; and if all checks pass, and only then, it ends in the value that plain
arithmetic gives. -/
theorem valueWithin_checks (h : e.valueWithin tolerance depth ≠ .error .tooDeep) :
    (∀ error, e.valueWithin tolerance depth = .error error ↔ ∃ before after,
      e.checks tolerance = before ++ some error :: after ∧ ∀ check ∈ before, check = none) ∧
    (e.valueWithin tolerance depth = .ok e.unchecked ↔
      ∀ check ∈ e.checks tolerance, check = none) := by
  rw [valueWithin_eq_verdict h]
  refine ⟨fun error => verdict_eq_error, verdict_eq_ok.trans ?_⟩
  simp only [true_and]

example : (binary .divide (number .nan) (number (.zero true))).checks .standard =
    [none, some .divisionByZero, some (.notFinite .nan), some (.notFinite .nan)] := by
  decide +kernel

/-- A divisor is refused before its dividend is looked at, and the left term before the right. -/
theorem valueWithin_checks_divisor :
    let dividend := binary .and (number .one) (number (.ofDecimal false ⟨25, -1⟩))
    let e := binary .add (binary .divide dividend (number (.zero true))) (number .nan)
    e.valueWithin .standard 4 ≠ .error .tooDeep ∧
      e.valueWithin .standard 4 = .error .divisionByZero ∧
      ∃ before after, e.checks .standard = before ++ some .divisionByZero :: after ∧
        ∀ check ∈ before, check = none := by
  intro dividend e
  have h : e.valueWithin .standard 4 = .error .divisionByZero := by decide +kernel
  have hdeep : e.valueWithin .standard 4 ≠ .error .tooDeep := by simp [h]
  exact ⟨hdeep, h, ((valueWithin_checks hdeep).1 _).1 h⟩

end Expr
end Abacus
