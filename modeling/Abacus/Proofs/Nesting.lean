/-
The limit on nested calls.

`primary`, `expression` and `operation` give up when too many of their calls are
nested. Here the limit is taken apart from what they read: a `Plan` is what a
task does from one call of a task to the next, and `Ends cost limit plan r`
carries a plan out when a call of a task takes `cost task` of the limit for as
long as it lasts. The rooms of the functions are the limits with one for each
of their calls (`Runs.iff_ends`); a limit on the nested operands alone is the
one with the costs `Task.operands`.

Whatever the costs, a limit only cuts off. A plan carried out within it ends as
it does within a greater one or else for lack of room (`Ends.narrow`), for every
plan of a task passes on the lack of room of a call that it makes, and so does
what follows a group (`Plan.Strict`).
-/
import Abacus.Proofs.Evaluation
import Abacus.Proofs.Room

namespace Abacus

open Parse (advance extendsAbove Result)
open Parse.Result

/-! ## Plans -/

/-- What is to be done from some moment on: nothing more, or the call of a task at a cursor and then
what depends on how that ended. -/
inductive Plan where
  | done (r : Result)
  | call (task : Task) (c : Cursor) (next : Result → Plan)

namespace Plan

/-- Goes on behind the current token, if there is another one. -/
def moving (c : Cursor) (next : Cursor → Plan) : Plan :=
  match advance c with
  | .ok () d => next d
  | .error err d => .done (.error err d)

/-- Goes on with the expression that a call has read; if it failed, that is the end. -/
def reading (next : Expr → Cursor → Plan) : Result → Plan
  | .ok e d => next e d
  | .error err d => .done (.error err d)

/-- A call that makes a part of an expression. -/
def building (task : Task) (c : Cursor) (f : Expr → Expr) : Plan :=
  .call task c fun r => .done (r.build f)

theorem moving_ok {c d : Cursor} {next : Cursor → Plan} (h : advance c = .ok () d) :
    moving c next = next d := by simp only [moving, h]

theorem moving_error {c d : Cursor} {next : Cursor → Plan} {err : ParseError}
    (h : advance c = .error err d) : moving c next = .done (.error err d) := by
  simp only [moving, h]

end Plan

namespace Parse

/-- What a group comes to when the operand behind it, which was looked for at `c`, ends so. -/
def Result.behind (group : Expr) (c : Cursor) (operand : Result) : Result :=
  afterGroup group (fun _ => operand : Parse Expr) c

theorem Result.behind_ok {group right : Expr} {c d : Cursor} :
    behind group c (.ok right d) = .ok (.binary .multiply group right) d :=
  afterGroup_ok rfl

theorem Result.behind_alone {group : Expr} {c d : Cursor} {err : ParseError} (hne : err ≠ .tooDeep)
    (hd : d.consumed = c.consumed) : behind group c (.error err d) = .ok group d :=
  afterGroup_alone rfl hne hd

theorem Result.behind_broken {group : Expr} {c d : Cursor} {err : ParseError}
    (hd : err = .tooDeep ∨ d.consumed ≠ c.consumed) :
    behind group c (.error err d) = .error err d :=
  afterGroup_broken rfl hd

theorem Result.settled_behind {group : Expr} {c : Cursor} {s : Result} (hs : s.Settled) :
    (s.behind group c).Settled := by
  cases s with
  | ok right d =>
    rw [behind_ok]
    exact settled_ok
  | error err d =>
    by_cases hd : d.consumed = c.consumed
    · rw [behind_alone (settled_error.1 hs) hd]
      exact settled_ok
    · rw [behind_broken (.inr hd)]
      exact hs

end Parse

open Plan (moving reading building)

/-- What a task does at a cursor. -/
def Task.plan : Task → Cursor → Plan
  | primary, c =>
    match c.current with
    | .operator .subtract =>
      moving c fun d => building (.expression Precedence.negation.level) d .negative
    | .number value =>
      moving c fun d =>
        if d.current = .leftParen then building .primary d (.binary .multiply (.number value))
        else .done (.ok (.number value) d)
    | .leftParen =>
      moving c fun d =>
        .call (.expression Precedence.none.level) d (reading fun e d' => .call (.closing e) d' .done)
    | token => .done (.error (.unexpected token) c)
  | expression floor, c =>
    .call .primary c (reading fun e d => .call (.extension floor e) d .done)
  | extension floor left, c =>
    if extendsAbove floor c.current then
      .call (.operation left) c (reading fun longer d => .call (.extension floor longer) d .done)
    else .done (.ok left c)
  | operation left, c =>
    match c.current with
    | .operator op =>
      moving c fun d => building (.expression op.precedence.level) d (.binary op left)
    | token => .done (.error (.notOperator token) c)
  | closing group, c =>
    if c.current = .rightParen then moving c fun d => .call (.following group) d .done
    else .done (.error (.expected .rightParen c.current) c)
  | following group, c =>
    if c.current = .operator .subtract then .done (.ok group c)
    else .call .primary c fun r => .done (r.behind group c)

/-- The reading of an expression up to the end of the input. -/
def Plan.whole (c : Cursor) : Plan :=
  .call (.expression Precedence.none.level) c <| reading fun e d =>
    .done (if d.current = .endOfInput then .ok e d else .error (.trailing d.current) d)

/-! ## Limits -/

namespace Task

/-- Each call of `primary`, `expression` or `operation` takes one of the limit. -/
def calls : Task → Nat
  | primary | expression _ | operation _ => 1
  | _ => 0

/-- Each operand takes one of the limit. -/
def operands : Task → Nat
  | primary => 1
  | _ => 0

theorem operands_le (task : Task) : task.operands ≤ task.calls := by
  cases task <;> simp [operands, calls]

end Task

/-- How a plan ends within a limit. A call that there is no room for ends too deep where it is
made. -/
inductive Ends (cost : Task → Nat) : Nat → Plan → Result → Prop
  | done {limit : Nat} {r : Result} : Ends cost limit (.done r) r
  | refused {limit : Nat} {task : Task} {c : Cursor} {next : Result → Plan} {r : Result} :
      limit < cost task → Ends cost limit (next (.error .tooDeep c)) r →
      Ends cost limit (.call task c next) r
  | made {limit : Nat} {task : Task} {c : Cursor} {next : Result → Plan} {s r : Result} :
      cost task ≤ limit → Ends cost (limit - cost task) (task.plan c) s →
      Ends cost limit (next s) r → Ends cost limit (.call task c next) r

/-- A plan carried out within a limit comes to the call of a task, with `rest` of the limit left. -/
inductive Comes (cost : Task → Nat) : Nat → Plan → Nat → Task → Cursor → Prop
  | here {limit : Nat} {task : Task} {c : Cursor} {next : Result → Plan} :
      Comes cost limit (.call task c next) limit task c
  | inside {limit rest : Nat} {task inner : Task} {c d : Cursor} {next : Result → Plan} :
      cost task ≤ limit → Comes cost (limit - cost task) (task.plan c) rest inner d →
      Comes cost limit (.call task c next) rest inner d
  | later {limit rest : Nat} {task other : Task} {c d : Cursor} {next : Result → Plan} {s : Result} :
      Ends cost limit (.call task c .done) s → Comes cost limit (next s) rest other d →
      Comes cost limit (.call task c next) rest other d

/-! ## Strict plans -/

namespace Plan

/-- A plan that ends for lack of room exactly if one of its calls does. -/
inductive Strict : Plan → Prop
  | done {r : Result} : r.Settled → Strict (.done r)
  | call {task : Task} {c : Cursor} {next : Result → Plan} :
      (∀ d, next (.error .tooDeep d) = .done (.error .tooDeep d)) →
      (∀ s, s.Settled → Strict (next s)) → Strict (.call task c next)

namespace Strict

variable {task : Task} {c : Cursor} {next : Result → Plan} {s : Result}

theorem next_tooDeep (h : Strict (.call task c next)) (d : Cursor) :
    next (.error .tooDeep d) = .done (.error .tooDeep d) := by
  cases h with
  | call hdeep _ => exact hdeep d

theorem next_settled (h : Strict (.call task c next)) (hs : s.Settled) : Strict (next s) := by
  cases h with
  | call _ hnext => exact hnext s hs

end Strict

theorem strict_moving {c : Cursor} {next : Cursor → Plan} (h : ∀ d, Strict (next d)) :
    Strict (moving c next) := by
  cases ha : advance c with
  | ok _ d => rw [moving_ok ha]; exact h d
  | error err d =>
    rw [moving_error ha]
    refine .done (settled_error.2 ?_)
    rintro rfl
    exact Parse.advance_ne_tooDeep ha

theorem strict_reading {task : Task} {c : Cursor} {next : Expr → Cursor → Plan}
    (h : ∀ e d, Strict (next e d)) : Strict (.call task c (reading next)) := by
  refine .call (fun d => rfl) fun s hs => ?_
  cases s with
  | ok e d => exact h e d
  | error err d => exact .done hs

theorem strict_building {task : Task} {c : Cursor} {f : Expr → Expr} :
    Strict (building task c f) :=
  .call (fun _ => rfl) fun _ hs => .done (settled_build.2 hs)

theorem strict_call {task : Task} {c : Cursor} : Strict (.call task c .done) :=
  .call (fun _ => rfl) fun _ hs => .done hs

theorem strict_plan (task : Task) (c : Cursor) : Strict (task.plan c) := by
  cases task with
  | primary =>
    simp only [Task.plan]
    split
    · exact strict_moving fun d => strict_building
    · refine strict_moving fun d => ?_
      split
      · exact strict_building
      · exact .done settled_ok
    · exact strict_moving fun d => strict_reading fun e d' => strict_call
    · exact .done (settled_error.2 (by simp))
  | expression floor => exact strict_reading fun e d => strict_call
  | extension floor left =>
    simp only [Task.plan]
    split
    · exact strict_reading fun longer d => strict_call
    · exact .done settled_ok
  | operation left =>
    simp only [Task.plan]
    split
    · exact strict_moving fun d => strict_building
    · exact .done (settled_error.2 (by simp))
  | closing group =>
    simp only [Task.plan]
    split
    · exact strict_moving fun d => strict_call
    · exact .done (settled_error.2 (by simp))
  | following group =>
    simp only [Task.plan]
    split
    · exact .done settled_ok
    · -- The attempt to read an operand is given up for any error but this one.
      exact .call (fun d => by rw [behind_broken (.inl rfl)]) fun s hs => .done (settled_behind hs)

theorem strict_whole (c : Cursor) : Strict (.whole c) := by
  refine strict_reading fun e d => .done ?_
  split
  · exact settled_ok
  · exact settled_error.2 (by simp)

end Plan

/-! ## Ends within different limits -/

namespace Ends

open Plan (Strict strict_plan)

variable {cost cost' : Task → Nat} {limit limit' : Nat} {task : Task} {c d : Cursor} {plan : Plan}
  {next : Result → Plan} {r r' s : Result}

theorem eq_of_done (h : Ends cost limit (.done s) r) : r = s := by
  cases h
  rfl

theorem of_tooDeep (hp : Strict (.call task c next)) (d : Cursor) :
    Ends cost limit (next (.error .tooDeep d)) (.error .tooDeep d) := by
  rw [hp.next_tooDeep]
  exact .done

theorem eq_tooDeep (hp : Strict (.call task c next))
    (h : Ends cost limit (next (.error .tooDeep d)) r) : r = .error .tooDeep d := by
  rw [hp.next_tooDeep] at h
  exact eq_of_done h

/-- A plan has one end. -/
theorem det (h : Ends cost limit plan r) (h' : Ends cost limit plan r') : r = r' := by
  induction h generalizing r' with
  | done => exact (eq_of_done h').symm
  | refused hlt _ ih =>
    cases h' with
    | refused _ h' => exact ih h'
    | made hle => exact absurd hle (by omega)
  | made hle _ _ ih ih' =>
    cases h' with
    | refused hlt => exact absurd hle (by omega)
    | made _ hs hr =>
      cases ih hs
      exact ih' hr

/-- A call may be carried out before what depends on it. -/
theorem andThen (h : Ends cost limit (.call task c .done) s) (hr : Ends cost limit (next s) r) :
    Ends cost limit (.call task c next) r := by
  cases h with
  | refused hlt h =>
    cases eq_of_done h
    exact .refused hlt hr
  | made hle hs h =>
    cases eq_of_done h
    exact .made hle hs hr

theorem of_plan (hle : cost task ≤ limit) (h : Ends cost (limit - cost task) (task.plan c) r) :
    Ends cost limit (.call task c .done) r := .made hle h .done

/-- **A limit only cuts off.** Within a smaller limit, or with greater costs, a plan ends in the same
way or for lack of room. -/
theorem narrow (h : Ends cost limit plan r) (hp : plan.Strict)
    (hcost : ∀ task, cost task ≤ cost' task) (hle : limit' ≤ limit) :
    Ends cost' limit' plan r ∨ ∃ d, Ends cost' limit' plan (.error .tooDeep d) := by
  induction h generalizing limit' with
  | done => exact .inl .done
  | @refused limit task c next r hlt h _ =>
    have := hcost task
    cases eq_tooDeep hp h
    exact .inl (.refused (by omega) (of_tooDeep hp c))
  | @made limit task c next s r _ _ hr ih ih' =>
    have := hcost task
    by_cases hroom : limit' < cost' task
    · exact .inr ⟨c, .refused hroom (of_tooDeep hp c)⟩
    · rcases ih (strict_plan task c) (show limit' - cost' task ≤ limit - cost task by omega)
        with hs | ⟨d, hs⟩
      · by_cases hset : s.Settled
        · exact (ih' (hp.next_settled hset) hle).imp (.made (by omega) hs)
            fun ⟨d, hr⟩ => ⟨d, .made (by omega) hs hr⟩
        · obtain ⟨d, rfl⟩ := not_settled.1 hset
          exact .inr ⟨d, .made (by omega) hs (of_tooDeep hp d)⟩
      · exact .inr ⟨d, .made (by omega) hs (of_tooDeep hp d)⟩

/-- A plan that does not end for lack of room ends in the same way within a greater limit, or with
smaller costs. -/
theorem widen (h : Ends cost limit plan r) (hp : plan.Strict) (hs : r.Settled)
    (hcost : ∀ task, cost' task ≤ cost task) (hle : limit ≤ limit') : Ends cost' limit' plan r := by
  induction h generalizing limit' with
  | done => exact .done
  | @refused limit task c next r _ h _ => exact absurd (eq_tooDeep hp h) (hs c)
  | @made limit task c next s r hroom _ hr ih ih' =>
    have := hcost task
    have hset : s.Settled := by
      rintro d rfl
      exact hs d (eq_tooDeep hp hr)
    exact .made (by omega)
      (ih (strict_plan task c) hset (show limit - cost task ≤ limit' - cost' task by omega))
      (ih' (hp.next_settled hset) hs hle)

end Ends

/-! ## The functions and their rooms -/

namespace Task

variable {c d : Cursor} {err : ParseError}

theorem plan_primary_refused (h : c.current.opens = false) :
    primary.plan c = .done (.error (.unexpected c.current) c) := by
  simp only [plan]
  cases hc : c.current with
  | number | leftParen => rw [hc] at h; cases h
  | operator op => cases op <;> first | rfl | (rw [hc] at h; cases h)
  | rightParen | endOfInput => rfl

theorem plan_primary_stuck (h : c.current.opens = true) (ha : advance c = .error err d) :
    primary.plan c = .done (.error err d) := by
  simp only [plan]
  cases hc : c.current with
  | number | leftParen => exact Plan.moving_error ha
  | operator op => cases op <;> first | exact Plan.moving_error ha | (rw [hc] at h; cases h)
  | rightParen | endOfInput => rw [hc] at h; cases h

theorem plan_operation_noOperator {left : Expr} (h : ∀ op, c.current ≠ .operator op) :
    (operation left).plan c = .done (.error (.notOperator c.current) c) := by
  -- The last case of `plan` is left, by `h`.
  simp only [plan]

end Task

namespace Runs

open Plan (moving_ok moving_error)

variable {room : Nat} {task : Task} {c : Cursor} {r : Result}

theorem ends_nested (hn : task.calls = 1) (h : Ends Task.calls room (task.plan c) r) :
    Ends Task.calls (room + 1) (.call task c .done) r :=
  .of_plan (by omega) (by rwa [hn])

theorem ends_inline (hn : task.calls = 0) (h : Ends Task.calls room (task.plan c) r) :
    Ends Task.calls room (.call task c .done) r :=
  .of_plan (by omega) (by rwa [hn])

/-- A run carries out the plan of its task, its room being the limit. -/
theorem ends (h : Runs room task c r) : Ends Task.calls room (.call task c .done) r := by
  induction h with
  | @tooDeep task c hn =>
    refine .refused ?_ .done
    cases task <;> first | exact Nat.zero_lt_one | exact hn.elim
  | refused ho => exact ends_nested rfl (Task.plan_primary_refused ho ▸ .done)
  | stuck ho ha => exact ends_nested rfl (Task.plan_primary_stuck ho ha ▸ .done)
  | negative hc ha _ ih =>
    refine ends_nested rfl ?_
    simp only [Task.plan, hc, moving_ok ha]
    exact ih.andThen .done
  | number hc ha hd =>
    refine ends_nested rfl ?_
    simp only [Task.plan, hc, moving_ok ha, if_neg hd]
    exact .done
  | numberTimes hc ha hd _ ih =>
    refine ends_nested rfl ?_
    simp only [Task.plan, hc, moving_ok ha, if_pos hd]
    exact ih.andThen .done
  | groupFails hc ha _ ih =>
    refine ends_nested rfl ?_
    simp only [Task.plan, hc, moving_ok ha]
    exact ih.andThen .done
  | group hc ha _ _ ih ih' =>
    refine ends_nested rfl ?_
    simp only [Task.plan, hc, moving_ok ha]
    exact ih.andThen ih'
  | unclosed hc =>
    refine ends_inline rfl ?_
    simp only [Task.plan, if_neg hc]
    exact .done
  | closedLast hc ha =>
    refine ends_inline rfl ?_
    simp only [Task.plan, if_pos hc, moving_error ha]
    exact .done
  | closed hc ha _ ih =>
    refine ends_inline rfl ?_
    simp only [Task.plan, if_pos hc, moving_ok ha]
    exact ih
  | minus hc =>
    refine ends_inline rfl ?_
    simp only [Task.plan, if_pos hc]
    exact .done
  | times hc _ ih =>
    refine ends_inline rfl ?_
    simp only [Task.plan, if_neg hc]
    exact ih.andThen (by rw [behind_ok]; exact .done)
  | alone hc _ hne hd ih =>
    refine ends_inline rfl ?_
    simp only [Task.plan, if_neg hc]
    exact ih.andThen (by rw [behind_alone hne hd]; exact .done)
  | broken hc _ hd ih =>
    refine ends_inline rfl ?_
    simp only [Task.plan, if_neg hc]
    exact ih.andThen (by rw [behind_broken hd]; exact .done)
  | noOperand _ ih => exact ends_nested rfl (ih.andThen .done)
  | operand _ _ ih ih' => exact ends_nested rfl (ih.andThen ih')
  | stop hx =>
    refine ends_inline rfl ?_
    simp only [Task.plan, hx]
    exact .done
  | stepFails hx _ ih =>
    refine ends_inline rfl ?_
    simp only [Task.plan, if_pos hx]
    exact ih.andThen .done
  | step hx _ _ ih ih' =>
    refine ends_inline rfl ?_
    simp only [Task.plan, if_pos hx]
    exact ih.andThen ih'
  | noOperator hc => exact ends_nested rfl (Task.plan_operation_noOperator hc ▸ .done)
  | operatorLast hc ha =>
    refine ends_nested rfl ?_
    simp only [Task.plan, hc, moving_error ha]
    exact .done
  | operator hc ha _ ih =>
    refine ends_nested rfl ?_
    simp only [Task.plan, hc, moving_ok ha]
    exact ih.andThen .done

/-- The room of a run is a limit on the nested calls. -/
theorem iff_ends : Runs room task c r ↔ Ends Task.calls room (.call task c .done) r := by
  constructor
  · exact ends
  · intro h
    obtain ⟨s, hs⟩ := total room task c
    rwa [h.det hs.ends]

end Runs

/-! ## The end of the whole -/

namespace Ends

variable {cost : Task → Nat} {limit : Nat} {c : Cursor}

/-- Every task comes to an end, whatever the limit and the costs. -/
theorem total (cost : Task → Nat) (limit : Nat) (task : Task) (c : Cursor) :
    ∃ r, Ends cost limit (.call task c .done) r := by
  obtain ⟨r, hr⟩ := Runs.total (task.need c.unread.length + limit) task c
  have hs : r.Settled := by
    rintro d rfl
    have := hr.room_lt rfl
    omega
  -- Nothing is cut off of a run without costs, and so the limit may be made any smaller.
  have hfree : Ends (fun _ => 0) (task.need c.unread.length + limit) (.call task c .done) r :=
    hr.ends.widen Plan.strict_call hs (fun _ => Nat.zero_le _) (Nat.le_refl _)
  rcases hfree.narrow Plan.strict_call (fun _ => Nat.zero_le _) (Nat.le_add_left limit _) with
    h | ⟨d, h⟩
  · exact ⟨r, h⟩
  · exact ⟨_, h⟩

theorem total_whole (cost : Task → Nat) (limit : Nat) (c : Cursor) :
    ∃ r, Ends cost limit (.whole c) r := by
  obtain ⟨s, hs⟩ := total cost limit (.expression Precedence.none.level) c
  cases s with
  | ok e d => exact ⟨_, hs.andThen .done⟩
  | error err d => exact ⟨_, hs.andThen .done⟩

/-- The room for reading the whole is a limit on the nested calls. -/
theorem whole (room : Nat) (c : Cursor) : Ends Task.calls room (.whole c) (Parse.whole room c) := by
  obtain ⟨s, hs⟩ := Runs.total room (.expression Precedence.none.level) c
  have he : Parse.expression room Precedence.none.level c = s := hs.eq_run 0
  cases s with
  | error err d =>
    rw [Parse.whole, Parse.bind_error he]
    exact hs.ends.andThen .done
  | ok e d =>
    rw [Parse.whole, Parse.bind_ok he, Parse.bind_ok (Parse.current_apply d)]
    refine hs.ends.andThen ?_
    simp only [reading]
    split <;> exact .done

theorem iff_whole {room : Nat} {r : Result} :
    Ends Task.calls room (.whole c) r ↔ Parse.whole room c = r := by
  constructor
  · exact (whole room c).det
  · rintro rfl
    exact whole room c

end Ends

/-! ## Calls that there is no room for -/

namespace Comes

open Plan (strict_plan)

variable {cost : Task → Nat} {limit rest : Nat} {task : Task} {d x : Cursor} {plan : Plan}

/-- A call that a plan comes to and that ends for lack of room ends the plan. -/
theorem surfaces (h : Comes cost limit plan rest task d) (hp : plan.Strict)
    (hx : Ends cost rest (.call task d .done) (.error .tooDeep x)) :
    Ends cost limit plan (.error .tooDeep x) := by
  induction h with
  | here => exact hx.andThen (.of_tooDeep hp x)
  | inside hle _ ih => exact .made hle (ih (strict_plan ..) hx) (.of_tooDeep hp x)
  | @later _ _ _ _ _ _ _ s hs hlater ih =>
    have hset : s.Settled := by
      rintro y rfl
      rw [hp.next_tooDeep] at hlater
      cases hlater
    exact hs.andThen (ih (hp.next_settled hset) hx)

end Comes

namespace Ends

open Plan (strict_plan)

variable {cost : Task → Nat} {limit : Nat} {plan : Plan} {x : Cursor} {r : Result}

theorem exists_refused (h : Ends cost limit plan r) (hp : plan.Strict)
    (hr : r = .error .tooDeep x) :
    ∃ rest task, Comes cost limit plan rest task x ∧ rest < cost task := by
  induction h generalizing x with
  | done =>
    cases hp with
    | done hs => exact absurd hr (hs x)
  | refused hlt h =>
    cases (eq_tooDeep hp h).symm.trans hr
    exact ⟨_, _, .here, hlt⟩
  | @made limit task c next s r hle hs h ih ih' =>
    by_cases hset : s.Settled
    · obtain ⟨rest, other, hother, hlt⟩ := ih' (hp.next_settled hset) hr
      exact ⟨rest, other, .later (.of_plan hle hs) hother, hlt⟩
    · obtain ⟨y, rfl⟩ := not_settled.1 hset
      cases (eq_tooDeep hp h).symm.trans hr
      obtain ⟨rest, inner, hinner, hlt⟩ := ih (strict_plan task c) rfl
      exact ⟨rest, inner, .inside hle hinner, hlt⟩

/-- A plan ends for lack of room exactly where it comes to a call that there is no room for. -/
theorem tooDeep_iff (hp : plan.Strict) : Ends cost limit plan (.error .tooDeep x) ↔
    ∃ rest task, Comes cost limit plan rest task x ∧ rest < cost task := by
  constructor
  · exact fun h => h.exists_refused hp rfl
  · rintro ⟨rest, task, h, hlt⟩
    exact h.surfaces hp (.refused hlt .done)

end Ends

/-! ## The limit only cuts off -/

namespace Parse

variable {cost : Task → Nat} {limit limit' rest : Nat} {group : Expr} {c d x : Cursor} {r : Result}

theorem ends_whole_unique (cost : Task → Nat) (limit : Nat) (c : Cursor) :
    ∃! r, Ends cost limit (.whole c) r := by
  obtain ⟨r, hr⟩ := Ends.total_whole cost limit c
  exact ⟨r, hr, fun s hs => hs.det hr⟩

theorem ends_whole_mono (h : Ends cost limit (.whole c) r) (hs : r.Settled)
    (hle : limit ≤ limit') : Ends cost limit' (.whole c) r :=
  h.widen (Plan.strict_whole c) hs (fun _ => Nat.le_refl _) hle

theorem whole_settled {room room' : Nat} (hs : Result.Settled (whole room c))
    (hle : room ≤ room') : whole room' c = whole room c :=
  Ends.iff_whole.1 (ends_whole_mono (Ends.whole room c) hs hle)

/-- A whole that two limits both leave room for ends in the same way within both, even if they count
different things. -/
theorem ends_whole_settled_unique {cost' : Task → Nat} {r' : Result}
    (h : Ends cost limit (.whole c) r) (hs : r.Settled) (h' : Ends cost' limit' (.whole c) r')
    (hs' : r'.Settled) : r = r' := by
  have hfree : Ends (fun _ => 0) (max limit limit') (.whole c) r :=
    h.widen (Plan.strict_whole c) hs (fun _ => Nat.zero_le _) (Nat.le_max_left ..)
  exact hfree.det
    (h'.widen (Plan.strict_whole c) hs' (fun _ => Nat.zero_le _) (Nat.le_max_right ..))

/-- What follows a group is too deep if the attempt to read an operand there is. -/
theorem ends_following (hle : cost (.following group) ≤ rest)
    (hc : d.current ≠ .operator .subtract)
    (hx : Ends cost (rest - cost (.following group)) (.call .primary d .done) (.error .tooDeep x)) :
    Ends cost rest (.call (.following group) d .done) (.error .tooDeep x) := by
  refine .of_plan hle ?_
  simp only [Task.plan, if_neg hc]
  exact hx.andThen (by rw [behind_broken (.inl rfl)]; exact .done)

/-- **The nesting limit only cuts off.** Whatever the calls cost, the reading of a whole ends in one
way within a limit, and if that is not for lack of room, it ends so within every greater limit, with
the same expression or error at the same cursor. It ends for lack of room exactly where some nested
call is refused it, and always if that is in the attempt to read an operand behind a group. The
rooms of `whole` are such limits, and what it reads with room enough is what is read within any
limit that does not cut it off. The depth of an evaluation only cuts off, too. -/
theorem limit_only_cuts_off (cost : Task → Nat) (c : Cursor) :
    (∀ limit, ∃! r, Ends cost limit (.whole c) r) ∧
    (∀ limit limit' r, limit ≤ limit' → r.Settled → Ends cost limit (.whole c) r →
      Ends cost limit' (.whole c) r) ∧
    (∀ limit x, Ends cost limit (.whole c) (.error .tooDeep x) ↔
      ∃ rest task, Comes cost limit (.whole c) rest task x ∧ rest < cost task) ∧
    (∀ limit rest group d x, Comes cost limit (.whole c) rest (.following group) d →
      cost (.following group) ≤ rest → d.current ≠ .operator .subtract →
      Ends cost (rest - cost (.following group)) (.call .primary d .done) (.error .tooDeep x) →
      Ends cost limit (.whole c) (.error .tooDeep x)) ∧
    (∀ room r, Ends Task.calls room (.whole c) r ↔ whole room c = r) ∧
    (∀ room room', room ≤ room' → Result.Settled (whole room c) → whole room' c = whole room c) ∧
    (∀ limit room r, Ends cost limit (.whole c) r → r.Settled → Result.Settled (whole room c) →
      whole room c = r) ∧
    ∀ tolerance (e : Expr) depth depth', depth ≤ depth' →
      e.valueWithin tolerance depth ≠ .error .tooDeep →
      e.valueWithin tolerance depth' = e.valueWithin tolerance depth := by
  refine ⟨fun limit => ends_whole_unique cost limit c, ?_, ?_, ?_, ?_, ?_, ?_, ?_⟩
  · exact fun _ _ _ hle hs h => ends_whole_mono h hs hle
  · exact fun _ _ => Ends.tooDeep_iff (Plan.strict_whole c)
  · intro limit rest group d x h hle hc hx
    exact h.surfaces (Plan.strict_whole c) (ends_following hle hc hx)
  · exact fun _ _ => Ends.iff_whole
  · exact fun _ _ hle hs => whole_settled hs hle
  · exact fun _ room _ h hs hs' => ends_whole_settled_unique (Ends.whole room c) hs' h hs
  · exact fun _ _ _ _ hle h => Expr.valueWithin_settled h hle

/-- With two nested operands allowed, the operand of the second group is one too many. -/
theorem limit_only_cuts_off_groups :
    let c : Cursor := ⟨.leftParen,
      [.number .one, .rightParen, .leftParen, .number .one, .rightParen, .endOfInput], none, 0⟩
    let d : Cursor := ⟨.leftParen, [.number .one, .rightParen, .endOfInput], none, 3⟩
    let x : Cursor := ⟨.number .one, [.rightParen, .endOfInput], none, 4⟩
    let e : Expr := .binary .multiply (.number .one) (.number .one)
    let r : Result := .ok e ⟨.endOfInput, [], none, 6⟩
    Cursor.ofText "(1)(1)" = .ok c ∧
      (Ends Task.operands 9 (.whole c) r ∧ Ends Task.operands 99 (.whole c) r) ∧
      (Comes Task.operands 2 (.whole c) 1 (.following (.number .one)) d ∧
        Ends Task.operands 1 (.call .primary d .done) (.error .tooDeep x) ∧
        Ends Task.operands 2 (.whole c) (.error .tooDeep x)) ∧
      (whole 9 c = r ∧ whole 99 c = r) ∧
      (e.valueWithin .standard 2 = .ok .one ∧ e.valueWithin .standard 9 = .ok .one) := by
  intro c d x e r
  have hc : Cursor.ofText "(1)(1)" = .ok c := by decide +kernel
  have hroom : whole 9 c = r := rfl
  have hr : Ends Task.operands 9 (.whole c) r :=
    (Ends.iff_whole.2 hroom).widen (Plan.strict_whole c) settled_ok Task.operands_le (Nat.le_refl 9)
  have hgroup : Ends Task.operands 1
      (.call (.expression Precedence.none.level) ⟨.number .one, c.unread.tail, none, 1⟩ .done)
      (.ok (.number .one) ⟨.rightParen, d.current :: d.unread, none, 2⟩) :=
    .of_plan (by decide) (.made (by decide) .done (.made (by decide) .done .done))
  have hd : Comes Task.operands 2 (.whole c) 1 (.following (.number .one)) d :=
    .inside (by decide) (.inside (by decide) (.later hgroup (.inside (by decide) .here)))
  have hx : Ends Task.operands 1 (.call .primary d .done) (.error .tooDeep x) :=
    .of_plan (by decide) (.made (by decide) (.refused (by decide) .done) .done)
  have hv : e.valueWithin .standard 2 = .ok .one := by decide +kernel
  obtain ⟨-, hkept, -, hfollowing, -, hwhole, -, hvalue⟩ := limit_only_cuts_off Task.operands c
  refine ⟨hc, ⟨hr, hkept 9 99 r (by decide) settled_ok hr⟩, ⟨hd, hx, ?_⟩, ⟨hroom, ?_⟩, hv, ?_⟩
  · exact hfollowing 2 1 _ d x hd (by decide) (by decide) hx
  · exact (hwhole 9 99 (by decide) (hroom ▸ settled_ok)).trans hroom
  · exact (hvalue .standard e 2 9 (by decide) (by simp [hv])).trans hv

end Parse
end Abacus
