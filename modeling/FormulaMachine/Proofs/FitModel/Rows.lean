import FormulaMachine.FitModel
import FormulaMachine.Proofs.Bound.Failure

/-!
# Rows of a data matrix

Residuals and Jacobians go through the rows with one model, and each row finds what the rows before
it have left in the workspaces. It makes no difference whether a row fails, and none at all to the
results if the program assigns its own variables before it reads them.

* `FitModel.Call`, `FitModel.after`: a model after some calls.
* `FitModel.ComesFrom`: what these leave of a new model.
* `FitModel.forRows_of_ok`, `FitModel.forRows_of_error`: the loop over the rows.
* **`FitModel.FailsAlike`**: all rows fail, with the same fault, or none does.
* **`FitModel.rows_after`**: what each row contributes, after any calls.
-/

namespace FormulaMachine

/-! ## Outcomes that are all alike -/

/-- Outcomes that are all alike are all the same fault, or all results. -/
theorem Alike.error_or_ok {ε α ι : Type} (outcome : ι → Except ε α) (i : ι)
    (h : ∀ j, Alike (fun _ _ => True) (outcome i) (outcome j)) :
    (∃ fault, ∀ j, outcome j = .error fault) ∨ ∃ result : ι → α, ∀ j, outcome j = .ok (result j) := by
  -- one of them decides for all
  cases hi : outcome i with
  | error fault =>
    refine .inl ⟨fault, fun j => ?_⟩
    have hj := h j
    rw [hi] at hj
    generalize outcome j = other at hj ⊢
    cases hj with
    | error => rfl
  | ok a =>
    have hexists (j : ι) : ∃ b, outcome j = .ok b := by
      have hj := h j
      rw [hi] at hj
      generalize outcome j = other at hj ⊢
      cases hj with
      | ok => exact ⟨_, rfl⟩
    exact .inr (Classical.skolem.1 hexists)

theorem map_eq_ok {ε α β : Type} {g : α → β} {outcome : Except ε α} {b : β} :
    outcome.map g = .ok b ↔ ∃ a, outcome = .ok a ∧ g a = b := by
  cases outcome <;> simp [Except.map]

/-! ## Orders of rows -/

/-- The entries at the positions `order`. -/
def pick {β : Type} (order : List Nat) (entries : List β) : List β :=
  order.filterMap (entries[·]?)

/-- One more position in front; a position outside the list contributes nothing. -/
theorem pick_cons {β : Type} (i : Nat) (order : List Nat) (entries : List β) :
    pick (i :: order) entries = entries[i]?.toList ++ pick order entries := by
  rw [pick, List.filterMap_cons]
  cases entries[i]? <;> rfl

/-- Positions within the list contribute one entry each. -/
theorem length_pick {β : Type} {order : List Nat} {entries : List β}
    (h : ∀ i ∈ order, i < entries.length) : (pick order entries).length = order.length := by
  induction order with
  | nil => rfl
  | cons i order ih =>
    have hi : i < entries.length := h i List.mem_cons_self
    rw [pick_cons, List.getElem?_eq_getElem hi, List.length_append, List.length_cons,
      ih fun j hj => h j (List.mem_cons_of_mem i hj)]
    exact Nat.add_comm 1 _

/-- Picking from a list that is given by a function of the position is mapping the positions. -/
theorem pick_map_range {β : Type} {order : List Nat} {count : Nat} (g : Nat → β)
    (h : ∀ i ∈ order, i < count) : pick order ((List.range count).map g) = order.map g := by
  induction order with
  | nil => rfl
  | cons i order ih =>
    have hi : i < count := h i List.mem_cons_self
    rw [pick_cons, List.getElem?_map, List.getElem?_range hi, List.map_cons,
      ih fun j hj => h j (List.mem_cons_of_mem i hj)]
    rfl

/-- Entries picked from two lists of one length belong together as before. -/
theorem zipWith_pick {α β γ : Type} (f : α → β → γ) (order : List Nat) {left : List α}
    {right : List β} (h : left.length = right.length) :
    List.zipWith f (pick order left) (pick order right) = pick order (List.zipWith f left right) := by
  induction order with
  | nil => rfl
  | cons i order ih =>
    rw [pick_cons, pick_cons, pick_cons, ← ih, List.getElem?_zipWith]
    -- both lists have an entry at the position, or neither has
    rcases Nat.lt_or_ge i left.length with hlt | hge
    · rw [List.getElem?_eq_getElem hlt, List.getElem?_eq_getElem (h ▸ hlt)]
      rfl
    · rw [List.getElem?_eq_none hge, List.getElem?_eq_none (h ▸ hge)]
      rfl

/-- The matrix whose rows are those at the positions `order`. -/
def DataMatrix.reordered (matrix : DataMatrix) (order : List Nat) : DataMatrix :=
  ⟨order.length, matrix.columnCount, fun k => matrix.entry (order.getD k 0)⟩

namespace FitModel

/-! ## Loops over rows -/

section

variable {β : Type} {task : RowTask} {compute : FitModel → Nat → Except Fault β × FitModel}
  {inv : FitModel → Prop} {model : FitModel}

/-- The first row that fails is the last one. -/
theorem forRows_of_error {i : Nat} {fault : Fault} (h : (compute model i).1 = .error fault)
    (rest : List Nat) :
    (forRows task compute model (i :: rest)).1 = .error (.row task i fault) := by
  have hrow : compute model i = (.error fault, (compute model i).2) := Prod.ext h rfl
  rw [forRows, hrow]

/-- If every row has a result in all models that occur, the rows have these results. -/
theorem forRows_of_ok {result : Nat → β → Prop} {rows : List Nat}
    (hstep : ∀ m, inv m → ∀ i ∈ rows,
      ∃ b, (compute m i).1 = .ok b ∧ result i b ∧ inv (compute m i).2)
    (h : inv model) :
    ∃ bs, (forRows task compute model rows).1 = .ok bs ∧ List.Forall₂ result rows bs := by
  induction rows generalizing model with
  | nil => exact ⟨[], rfl, .nil⟩
  | cons i rows ih =>
    obtain ⟨b, hb, hresult, hnext⟩ := hstep model h i List.mem_cons_self
    -- the rest of the loop starts in the model that this row has left
    obtain ⟨bs, hbs, hresults⟩ :=
      ih (fun m hm j hj => hstep m hm j (List.mem_cons_of_mem i hj)) hnext
    have hrow : compute model i = (.ok b, (compute model i).2) := Prod.ext hb rfl
    refine ⟨b :: bs, ?_, .cons hresult hresults⟩
    rw [forRows, hrow]
    show (forRows task compute (compute model i).2 rows).1.map (b :: ·) = _
    rw [hbs]
    rfl

/-- What every row keeps is kept by the loop, whether it comes to its end or not. -/
theorem inv_forRows (hstep : ∀ m i, inv m → inv (compute m i).2) (h : inv model)
    (rows : List Nat) : inv (forRows task compute model rows).2 := by
  induction rows generalizing model with
  | nil => exact h
  | cons i rows ih =>
    have hnext := hstep model i h
    rw [forRows]
    generalize compute model i = next at hnext ⊢
    obtain ⟨outcome, after⟩ := next
    cases outcome with
    | error fault => exact hnext
    | ok b => exact ih hnext

end

/-! ## Loops that fail at once or not at all -/

/-- What a loop over `rowCount` rows comes to if all rows are alike: it fails exactly if there is a
row and all of them fail, at the first one and with the fault that they all have. No row is of the wrong
size. -/
structure FailsAlike {β γ : Type} (task : RowTask) (rowCount : Nat) (atRow : Nat → Except Fault β)
    (outcome : Except DataFault γ) : Prop where
  alike : ∀ i j, Alike (fun _ _ => True) (atRow i) (atRow j)
  error_iff : ∀ fault, outcome = .error fault ↔ 0 < rowCount ∧
    ∃ cause, fault = .row task 0 cause ∧ ∀ i < rowCount, atRow i = .error cause
  ne_size : ∀ i counted expected found, atRow i ≠ .error (.size counted expected found)

/-- What is done with the results of a loop changes nothing about how it fails. -/
theorem FailsAlike.map {β γ δ : Type} {task : RowTask} {rowCount : Nat}
    {atRow : Nat → Except Fault β} {outcome : Except DataFault γ}
    (h : FailsAlike task rowCount atRow outcome) (g : γ → δ) :
    FailsAlike task rowCount atRow (outcome.map g) := by
  refine ⟨h.alike, fun fault => ?_, h.ne_size⟩
  rw [← h.error_iff fault]
  cases outcome with
  | error other => simp [Except.map]
  | ok result => simp [Except.map]

section

variable {β : Type} {task : RowTask} {compute : FitModel → Nat → Except Fault β × FitModel}
  {inv : FitModel → Prop} {model : FitModel}
  (hinv : ∀ m i, inv m → inv (compute m i).2) (h : inv model)

include hinv h

/-- A loop whose rows are all alike, in all models that occur, fails at its first row or not at all.
The rows of the model at the start decide: where they have results, each row has one in whatever
model it finds. -/
theorem failsAlike_forRows
    (halike : ∀ m n i j, inv m → inv n → Alike (fun _ _ => True) (compute m i).1 (compute n j).1)
    (hsize : ∀ m i counted expected found, inv m →
      (compute m i).1 ≠ .error (.size counted expected found)) (rowCount : Nat) :
    FailsAlike task rowCount (fun i => (compute model i).1)
      (forRows task compute model (List.range rowCount)).1 := by
  refine ⟨fun i j => halike model model i j h h, fun fault => ?_,
    fun i counted expected found => hsize model i counted expected found h⟩
  obtain ⟨cause, hcause⟩ | ⟨result, hresult⟩ :=
    Alike.error_or_ok (fun i => (compute model i).1) 0 fun j => halike model model 0 j h h
  · cases rowCount with
    -- without rows there is no failure
    | zero => simp [forRows]
    | succ count =>
      -- the first row fails and ends the loop
      rw [List.range_succ_eq_map, forRows_of_error (hcause 0)]
      constructor
      · intro hfault
        exact ⟨Nat.succ_pos count, cause, (Except.error.inj hfault).symm, fun i _ => hcause i⟩
      · rintro ⟨-, other, rfl, hother⟩
        have hsame : cause = other :=
          Except.error.inj ((hcause 0).symm.trans (hother 0 (Nat.succ_pos count)))
        rw [hsame]
  · -- then there is a result at each row, in all models that occur
    have hstep : ∀ m, inv m → ∀ i ∈ List.range rowCount,
        ∃ b, (compute m i).1 = .ok b ∧ True ∧ inv (compute m i).2 := by
      intro m hm i _
      have hrow := halike model m 0 i h hm
      rw [hresult 0] at hrow
      generalize hright : (compute m i).1 = right at hrow
      cases hrow with
      | @ok _ b => exact ⟨b, rfl, trivial, hinv m i hm⟩
    obtain ⟨bs, hbs, -⟩ := @forRows_of_ok _ task _ _ _ _ _ hstep h
    rw [hbs]
    refine iff_of_false nofun ?_
    rintro ⟨hpos, cause, -, hcause⟩
    exact nomatch (hresult 0).symm.trans (hcause 0 hpos)

/-- Results that do not depend on the model are those of the rows in order. -/
theorem forRows_of_fixed {result : Nat → β} (hfixed : ∀ m i, inv m → (compute m i).1 = .ok (result i))
    (rows : List Nat) : (forRows task compute model rows).1 = .ok (rows.map result) := by
  obtain ⟨bs, hbs, hresults⟩ := @forRows_of_ok _ task _ _ _ (fun i b => result i = b) rows
    (fun m hm i _ => ⟨result i, hfixed m i hm, rfl, hinv m i hm⟩) h
  have heq : rows.map result = bs := by
    rw [← List.forall₂_eq_eq_eq, List.forall₂_map_left_iff]
    exact hresults
  rw [hbs, heq]

variable {atRow : Nat → Except Fault β} (hfixed : ∀ m i, inv m → (compute m i).1 = atRow i)
  (halike : ∀ i j, Alike (fun _ _ => True) (atRow i) (atRow j))

include hfixed halike

/-- Where the model makes no difference at any row, the results are those of the rows. -/
theorem forRows_entries {rowCount : Nat} {bs : List β}
    (hbs : (forRows task compute model (List.range rowCount)).1 = .ok bs) :
    bs.length = rowCount ∧ ∀ i < rowCount, ∃ b, atRow i = .ok b ∧ bs[i]? = some b := by
  -- either every row fails, and there are no results but for no rows, or every row has one
  obtain ⟨cause, hcause⟩ | ⟨result, hresult⟩ := Alike.error_or_ok atRow 0 (halike 0)
  · cases rowCount with
    | zero =>
      obtain rfl : [] = bs := Except.ok.inj hbs
      exact ⟨rfl, fun i hi => absurd hi (Nat.not_lt_zero i)⟩
    | succ count =>
      have hfirst : (compute model 0).1 = .error cause := (hfixed model 0 h).trans (hcause 0)
      rw [List.range_succ_eq_map, forRows_of_error hfirst] at hbs
      cases hbs
  · have hok : ∀ m i, inv m → (compute m i).1 = .ok (result i) :=
      fun m i hm => (hfixed m i hm).trans (hresult i)
    rw [forRows_of_fixed hinv h hok] at hbs
    obtain rfl := Except.ok.inj hbs
    refine ⟨by simp, fun i hi => ⟨result i, hresult i, ?_⟩⟩
    rw [List.getElem?_map, List.getElem?_range hi, Option.map_some]

/-- The same rows in another order have the same results in that order. -/
theorem forRows_reordered {rowCount : Nat} {order : List Nat}
    (horder : order.Perm (List.range rowCount)) :
    (forRows task (fun m k => compute m (order.getD k 0)) model (List.range order.length)).1 =
      (forRows task compute model (List.range rowCount)).1.map (pick order) := by
  have hlength : order.length = rowCount := horder.length_eq.trans List.length_range
  obtain ⟨cause, hcause⟩ | ⟨result, hresult⟩ := Alike.error_or_ok atRow 0 (halike 0)
  · cases rowCount with
    | zero =>
      obtain rfl := List.length_eq_zero_iff.1 hlength
      rfl
    | succ count =>
      have hfirst (i : Nat) : (compute model i).1 = .error cause :=
        (hfixed model i h).trans (hcause i)
      rw [hlength, List.range_succ_eq_map, forRows_of_error (hfirst 0)]
      exact @forRows_of_error β task (fun m k => compute m (order.getD k 0)) model 0 cause
        (hfirst _) _
  · have hok : ∀ m i, inv m → (compute m i).1 = .ok (result i) :=
      fun m i hm => (hfixed m i hm).trans (hresult i)
    rw [forRows_of_fixed hinv h hok,
      forRows_of_fixed (fun m k => hinv m (order.getD k 0)) h fun m k => hok m (order.getD k 0)]
    have hmem : ∀ i ∈ order, i < rowCount := fun i hi => List.mem_range.1 (horder.mem_iff.1 hi)
    -- position `k` of the order is row `order[k]`, so the loop over positions is one over rows
    have hback : (List.range order.length).map (fun k => result (order.getD k 0)) =
        order.map result := by
      apply List.ext_getElem
      · simp
      · intro k hk hk'
        have hlt : k < order.length := by simpa using hk'
        simp [List.getD_eq_getElem?_getD, List.getElem?_eq_getElem hlt]
    rw [hback, Except.map, pick_map_range result hmem]

end

/-! ## Calls on a model -/

/-- What can be asked of a model. -/
inductive Call where
  | compile
  | evaluate (x params : List Float)
  | gradient (x params : List Float)
  | residuals (xs : DataMatrix) (ys params : List Float)
  | jacobian (xs : DataMatrix) (params : List Float)

/-- The model after a call, whether the call had an answer or not. -/
def perform (model : FitModel) : Call → FitModel
  | .compile => model.compile.2
  | .evaluate x params => (model.evaluate x params).2
  | .gradient x params => (model.gradient x params).2
  | .residuals xs ys params => (model.residuals xs ys params).2
  | .jacobian xs params => (model.jacobian xs params).2

/-- The model after calls in order. -/
def after (model : FitModel) (calls : List Call) : FitModel := calls.foldl perform model

/-- A model with the variables and parameters of a new one, whose formula has been in use. -/
structure ComesFrom (new model : FitModel) : Prop where
  variableCount : model.variableCount = new.variableCount
  parameters : model.parameters = new.parameters
  function : new.function.InUseFrom model.function

namespace ComesFrom

variable {new model : FitModel}

/-- A use of the formula leaves the variables and parameters. -/
theorem withFunction {β : Type} (h : new.ComesFrom model)
    {use : BoundFormula → Except Fault β × BoundFormula}
    (huse : ∀ f, new.function.InUseFrom f → new.function.InUseFrom (use f).2) :
    new.ComesFrom (model.withFunction use).2 :=
  ⟨h.variableCount, h.parameters, huse _ h.function⟩

/-- The checks of sizes leave the model as it is, and so does what follows them if it does. -/
theorem checkSizes {β : Type} (h : new.ComesFrom model) {x params : List Float}
    {next : Except Fault β × FitModel} (hnext : new.ComesFrom next.2) :
    new.ComesFrom (model.checkSizes x params next).2 := by
  rw [FitModel.checkSizes]
  split
  · exact h
  · split
    · exact h
    · exact hnext

theorem evaluate (h : new.ComesFrom model) (x params : List Float) :
    new.ComesFrom (model.evaluate x params).2 :=
  h.checkSizes (h.withFunction fun _ hf => hf.evaluate _)

theorem gradient (h : new.ComesFrom model) (x params : List Float) :
    new.ComesFrom (model.gradient x params).2 :=
  h.checkSizes (h.withFunction fun _ hf => hf.slopes _ _)

/-- One call. A loop over rows keeps what every row keeps. -/
theorem perform (h : new.ComesFrom model) (call : Call) : new.ComesFrom (model.perform call) := by
  cases call with
  | compile => exact h.withFunction fun _ hf => hf.compile
  | evaluate x params => exact h.evaluate x params
  | gradient x params => exact h.gradient x params
  | residuals xs ys params =>
    rw [FitModel.perform, residuals]
    split
    · exact h
    · split
      · exact h
      -- each row leaves the model as one that comes from the new one
      · exact inv_forRows (fun m i hm => hm.evaluate (xs.row i) params) h _
  | jacobian xs params =>
    rw [FitModel.perform, jacobian]
    split
    · exact h
    · exact inv_forRows (fun m i hm => hm.gradient (xs.row i) params) h _

/-- Any calls, by induction on them. -/
theorem after (h : new.ComesFrom model) (calls : List Call) :
    new.ComesFrom (model.after calls) := by
  induction calls generalizing model with
  | nil => exact h
  | cons call calls ih => exact ih (h.perform call)

end ComesFrom

/-- A new model comes from itself, and calls keep that. -/
theorem comesFrom_after (source : String) (inputs parameters : List String) (options : Options)
    (calls : List Call) :
    (ofSource source inputs parameters options).ComesFrom
      ((ofSource source inputs parameters options).after calls) := by
  have hnew : (ofSource source inputs parameters options).ComesFrom
      (ofSource source inputs parameters options) := ⟨rfl, rfl, .refl rfl⟩
  exact hnew.after calls

/-! ## Single rows -/

section

variable {model : FitModel} {x params : List Float} (hx : x.length = model.variableCount)
  (hparams : params.length = model.parameterCount)

include hx hparams

theorem checkSizes_of_sizes {β : Type} (next : Except Fault β × FitModel) :
    model.checkSizes x params next = next := by
  rw [checkSizes, if_neg (not_not.2 hx), if_neg (not_not.2 hparams)]

/-- With sizes that fit, the value is that of the formula at the point followed by the parameters.
-/
theorem evaluate_fst :
    (model.evaluate x params).1 = (model.function.evaluate (x ++ params)).1 := by
  rw [evaluate, checkSizes_of_sizes hx hparams]
  rfl

/-- With sizes that fit, the derivatives are the slopes of the formula by the arguments that stand
for the parameters. -/
theorem gradient_fst :
    (model.gradient x params).1 = (model.function.slopes (x ++ params)
      ((List.range params.length).map (model.variableCount + ·))).1 := by
  rw [gradient, checkSizes_of_sizes hx hparams]
  rfl

end

namespace ComesFrom

variable {source : String} {inputs parameters : List String} {options : Options}
  {model other : FitModel} {x y params : List Float}

section

variable (h : (ofSource source inputs parameters options).ComesFrom model)
  (hx : x.length = inputs.length) (hparams : params.length = parameters.length)

include h hx hparams

omit h in
/-- A point and its parameters are as many values as the formula has arguments. -/
theorem length_append :
    (x ++ params).length = (ofSource source inputs parameters options).function.arity := by
  rw [List.length_append, hx, hparams]
  exact List.length_append.symm

/-- Sizes that fit a new model fit it after any use. -/
theorem sizes : x.length = model.variableCount ∧ params.length = model.parameterCount := by
  refine ⟨hx.trans h.variableCount.symm, hparams.trans ?_⟩
  rw [parameterCount, h.parameters]
  rfl

/-- No value fails over its size once the sizes fit. -/
theorem evaluate_ne_size (counted : Counted) (expected found : Nat) :
    (model.evaluate x params).1 ≠ .error (.size counted expected found) := by
  obtain ⟨hxmodel, hpmodel⟩ := h.sizes hx hparams
  rw [evaluate_fst hxmodel hpmodel, BoundFormula.evaluate, BoundFormula.checkArity,
    if_pos ((length_append hx hparams).trans h.function.arity_eq.symm)]
  exact BoundFormula.withPrepared_ne_size _ _ _ _ _

/-- No derivatives fail over their size once the sizes fit. -/
theorem gradient_ne_size (counted : Counted) (expected found : Nat) :
    (model.gradient x params).1 ≠ .error (.size counted expected found) := by
  obtain ⟨hxmodel, hpmodel⟩ := h.sizes hx hparams
  rw [gradient_fst hxmodel hpmodel, BoundFormula.slopes, BoundFormula.checkArity,
    if_pos ((length_append hx hparams).trans h.function.arity_eq.symm)]
  exact BoundFormula.withPrepared_ne_size _ _ _ _ _

variable (h' : (ofSource source inputs parameters options).ComesFrom other)

include h'

/-- Two models in use, at two points with the same parameters: both values fail alike, or there are
both. -/
theorem evaluate_alike (hy : y.length = inputs.length) :
    Alike (fun _ _ => True) (model.evaluate x params).1 (other.evaluate y params).1 := by
  obtain ⟨hxmodel, hpmodel⟩ := h.sizes hx hparams
  obtain ⟨hyother, hpother⟩ := h'.sizes hy hparams
  rw [evaluate_fst hxmodel hpmodel, evaluate_fst hyother hpother]
  exact BoundFormula.InUseFrom.evaluate_alike rfl h.function h'.function (length_append hx hparams)
    (length_append hy hparams)

/-- Gradients at two points fail alike, since neither the numbers nor the calls before decide it. -/
theorem gradient_alike (hy : y.length = inputs.length) :
    Alike (fun _ _ => True) (model.gradient x params).1 (other.gradient y params).1 := by
  obtain ⟨hxmodel, hpmodel⟩ := h.sizes hx hparams
  obtain ⟨hyother, hpother⟩ := h'.sizes hy hparams
  rw [gradient_fst hxmodel hpmodel, gradient_fst hyother hpother, h.variableCount,
    h'.variableCount]
  exact BoundFormula.InUseFrom.slopes_alike rfl h.function h'.function (length_append hx hparams)
    (length_append hy hparams) _

variable (hassigns : ∀ program, (ofSource source inputs parameters options).compile.1 = .ok program →
  program.AssignsFirst (inputs.length + parameters.length))

include hassigns

/-- If the program assigns its own variables before it reads them, what the models were used for
makes no difference to the value. -/
theorem evaluate_eq : (model.evaluate x params).1 = (other.evaluate x params).1 := by
  obtain ⟨hxmodel, hpmodel⟩ := h.sizes hx hparams
  obtain ⟨hxother, hpother⟩ := h'.sizes hx hparams
  rw [evaluate_fst hxmodel hpmodel, evaluate_fst hxother hpother]
  refine BoundFormula.InUseFrom.evaluate_fst rfl h.function h'.function (length_append hx hparams)
    fun program hprogram => ?_
  rw [show (ofSource source inputs parameters options).function.arity = _ from List.length_append]
  exact hassigns program hprogram

/-- What came before makes no difference to the derivatives if the program assigns before it reads.
-/
theorem gradient_eq : (model.gradient x params).1 = (other.gradient x params).1 := by
  obtain ⟨hxmodel, hpmodel⟩ := h.sizes hx hparams
  obtain ⟨hxother, hpother⟩ := h'.sizes hx hparams
  rw [gradient_fst hxmodel hpmodel, gradient_fst hxother hpother, h.variableCount,
    h'.variableCount]
  refine BoundFormula.InUseFrom.slopes_fst rfl h.function h'.function (length_append hx hparams)
    (fun program hprogram => ?_) _
  rw [show (ofSource source inputs parameters options).function.arity = _ from List.length_append]
  exact hassigns program hprogram

end

end ComesFrom

/-! ## All rows -/

open PreparedProgram (seeded)

/-- The derivatives of a new model are the slopes of one pass each, with slope one at the argument
that stands for the parameter. -/
theorem exists_passes_of_gradient {source : String} {inputs parameters : List String}
    {options : Options} {x params row : List Float} (hx : x.length = inputs.length)
    (hparams : params.length = parameters.length)
    (hassigns : ∀ program, (ofSource source inputs parameters options).compile.1 = .ok program →
      program.AssignsFirst (inputs.length + parameters.length))
    (hrow : ((ofSource source inputs parameters options).gradient x params).1 = .ok row) :
    ∃ p, (ofSource source inputs parameters options).function.prepare = .ok p ∧
      row.length = parameters.length ∧ ∀ j < parameters.length, ∃ d,
        (p.workspace.constants.pass p.program (seeded (x ++ params) (inputs.length + j))).1 = .ok d ∧
          row[j]? = some d.eps := by
  have hargs := @ComesFrom.length_append source inputs parameters options x params hx hparams
  rw [gradient_fst hx hparams] at hrow
  obtain ⟨-, p, hp, hslopes⟩ := BoundFormula.exists_of_answer_ok hrow
  -- the program that the hypothesis is about is the one that the passes run
  have hprogram : (ofSource source inputs parameters options).compile.1 = .ok p.program := by
    show ((ofSource source inputs parameters options).function.compile).1 = _
    rw [BoundFormula.compile, BoundFormula.withPrepared_of_prepare hp]
    rfl
  have hassigned := hassigns _ hprogram
  rw [← List.length_append] at hassigned
  obtain ⟨hlength, hentries⟩ :=
    (PreparedProgram.settled_build hp).slopes_entries hassigned hargs hslopes
  rw [List.length_map, List.length_range, hparams] at hlength
  refine ⟨p, hp, hlength, fun j hj => ?_⟩
  obtain ⟨d, hd, hentry⟩ := hentries j (by simpa [hparams] using hj)
  rw [List.getElem_map, List.getElem_range] at hd
  exact ⟨d, hd, hentry⟩

namespace ComesFrom

section

variable {source : String} {inputs parameters : List String} {options : Options}
  {model : FitModel} {xs : DataMatrix} {ys params : List Float}
  (h : (ofSource source inputs parameters options).ComesFrom model)
  (hcolumns : xs.columnCount = inputs.length) (hparams : params.length = parameters.length)
  (hys : ys.length = xs.rowCount)

include hcolumns

omit h in
theorem length_row (i : Nat) : (xs.row i).length = inputs.length :=
  (xs.length_row i).trans hcolumns

include h hparams

/-- With sizes that fit, there is no fault before the loop. -/
theorem sizeFault?_eq_none : model.sizeFault? xs params = none := by
  have hvariables : xs.columnCount = model.variableCount := hcolumns.trans h.variableCount.symm
  have hcount : params.length = model.parameterCount := by
    rw [parameterCount, h.parameters]
    exact hparams
  rw [sizeFault?, if_neg (not_not.2 hvariables), if_neg (not_not.2 hcount)]

/-- With sizes that fit, a Jacobian is a loop over derivatives. -/
theorem jacobian_fst :
    (model.jacobian xs params).1 = (forRows .gradient (fun m i => m.gradient (xs.row i) params) model
      (List.range xs.rowCount)).1 := by
  rw [jacobian, h.sizeFault?_eq_none hcolumns hparams]

/-- All rows of a Jacobian fail alike, or none fails. -/
theorem jacobian_failsAlike :
    FailsAlike .gradient xs.rowCount (fun i => (model.gradient (xs.row i) params).1)
      (model.jacobian xs params).1 := by
  have hrow := length_row hcolumns
  rw [h.jacobian_fst hcolumns hparams]
  exact failsAlike_forRows (fun m i hm => hm.gradient (xs.row i) params) h
    (fun m n i j hm hn => hm.gradient_alike (hrow i) hparams hn (hrow j))
    (fun m i _ _ _ hm => hm.gradient_ne_size (hrow i) hparams _ _ _) xs.rowCount

include hys

/-- With sizes that fit, residuals are a loop over values, less the observations. -/
theorem residuals_fst :
    (model.residuals xs ys params).1 =
      (forRows .value (fun m i => m.evaluate (xs.row i) params) model
        (List.range xs.rowCount)).1.map fun values => List.zipWith (· - ·) values ys := by
  rw [residuals, h.sizeFault?_eq_none hcolumns hparams]
  simp only [if_neg (not_not.2 hys)]

/-- All residuals fail alike, or none fails. -/
theorem residuals_failsAlike :
    FailsAlike .value xs.rowCount (fun i => (model.evaluate (xs.row i) params).1)
      (model.residuals xs ys params).1 := by
  have hrow := length_row hcolumns
  rw [h.residuals_fst hcolumns hparams hys]
  exact (failsAlike_forRows (fun m i hm => hm.evaluate (xs.row i) params) h
    (fun m n i j hm hn => hm.evaluate_alike (hrow i) hparams hn (hrow j))
    (fun m i _ _ _ hm => hm.evaluate_ne_size (hrow i) hparams _ _ _) xs.rowCount).map _

variable (hassigns : ∀ program, (ofSource source inputs parameters options).compile.1 = .ok program →
  program.AssignsFirst (inputs.length + parameters.length)) {order : List Nat}
  (horder : order.Perm (List.range xs.rowCount))

include hassigns

omit hys in
/-- The values of the rows are those of a new model. -/
theorem values_entries {values : List Float}
    (hvalues : (forRows .value (fun m i => m.evaluate (xs.row i) params) model
      (List.range xs.rowCount)).1 = .ok values) :
    values.length = xs.rowCount ∧ ∀ i < xs.rowCount, ∃ value,
      ((ofSource source inputs parameters options).evaluate (xs.row i) params).1 = .ok value ∧
        values[i]? = some value := by
  have hrow := length_row hcolumns
  have hnew := comesFrom_after source inputs parameters options []
  exact @forRows_entries _ .value (fun m i => m.evaluate (xs.row i) params) _ _
    (fun m i hm => hm.evaluate (xs.row i) params) h
    (fun i => ((ofSource source inputs parameters options).evaluate (xs.row i) params).1)
    (fun m i hm => hm.evaluate_eq (hrow i) hparams hnew hassigns)
    (fun i j => hnew.evaluate_alike (hrow i) hparams hnew (hrow j)) _ _ hvalues

/-- Each residual is the value that a new model has at the row, less the observation. -/
theorem residuals_entries {rs : List Float} (hrs : (model.residuals xs ys params).1 = .ok rs) :
    rs.length = xs.rowCount ∧ ∀ i < xs.rowCount, ∃ value y,
      ((ofSource source inputs parameters options).evaluate (xs.row i) params).1 = .ok value ∧
        ys[i]? = some y ∧ rs[i]? = some (value - y) := by
  rw [h.residuals_fst hcolumns hparams hys] at hrs
  obtain ⟨values, hok, rfl⟩ := map_eq_ok.1 hrs
  obtain ⟨hlength, hentries⟩ := h.values_entries hcolumns hparams hassigns hok
  refine ⟨by rw [List.length_zipWith, hlength, hys, Nat.min_self], fun i hi => ?_⟩
  obtain ⟨value, hvalue, hentry⟩ := hentries i hi
  have hy : ys[i]? = some ys[i] := List.getElem?_eq_getElem (hys ▸ hi)
  refine ⟨value, ys[i], hvalue, hy, ?_⟩
  rw [List.getElem?_zipWith, hentry, hy]

omit hys in
/-- Each entry of a Jacobian is the slope of a pass of its own at the row, in the workspace of a new
model. -/
theorem jacobian_entries {rows : List (List Float)}
    (hrows : (model.jacobian xs params).1 = .ok rows) :
    rows.length = xs.rowCount ∧ ∀ i < xs.rowCount, ∃ row p, rows[i]? = some row ∧
      (ofSource source inputs parameters options).function.prepare = .ok p ∧
      row.length = parameters.length ∧ ∀ j < parameters.length, ∃ d,
        (p.workspace.constants.pass p.program
          (seeded (xs.row i ++ params) (inputs.length + j))).1 = .ok d ∧ row[j]? = some d.eps := by
  have hrow := length_row hcolumns
  have hnew := comesFrom_after source inputs parameters options []
  rw [h.jacobian_fst hcolumns hparams] at hrows
  obtain ⟨hlength, hentries⟩ := @forRows_entries _ .gradient
    (fun m i => m.gradient (xs.row i) params) _ _ (fun m i hm => hm.gradient (xs.row i) params) h
    (fun i => ((ofSource source inputs parameters options).gradient (xs.row i) params).1)
    (fun m i hm => hm.gradient_eq (hrow i) hparams hnew hassigns)
    (fun i j => hnew.gradient_alike (hrow i) hparams hnew (hrow j)) _ _ hrows
  refine ⟨hlength, fun i hi => ?_⟩
  -- the row that the loop has is the one that a new model has, and that one is made of passes
  obtain ⟨row, hgradient, hentry⟩ := hentries i hi
  obtain ⟨p, hp, hcount, hslots⟩ := exists_passes_of_gradient (hrow i) hparams hassigns hgradient
  exact ⟨row, p, hentry, hp, hcount, hslots⟩

include horder

/-- Rows and observations in another order have the residuals in that order. Both loops have the
values of a new model, so neither the order nor what came before makes a difference. -/
theorem residuals_reordered :
    (model.residuals (xs.reordered order) (pick order ys) params).1 =
      (model.residuals xs ys params).1.map (pick order) := by
  have hrow := length_row hcolumns
  have hnew := comesFrom_after source inputs parameters options []
  -- the observations in the other order are as many as the rows
  have hpicked : (pick order ys).length = order.length := length_pick fun i hi => by
    rw [hys]
    exact List.mem_range.1 (horder.mem_iff.1 hi)
  have hreordered : (model.residuals (xs.reordered order) (pick order ys) params).1 = _ :=
    h.residuals_fst hcolumns hparams hpicked
  have hrows := @forRows_reordered _ .value (fun m i => m.evaluate (xs.row i) params) _ _
    (fun m i hm => hm.evaluate (xs.row i) params) h
    (fun i => ((ofSource source inputs parameters options).evaluate (xs.row i) params).1)
    (fun m i hm => hm.evaluate_eq (hrow i) hparams hnew hassigns)
    (fun i j => hnew.evaluate_alike (hrow i) hparams hnew (hrow j)) _ _ horder
  rw [hreordered, h.residuals_fst hcolumns hparams hys]
  show Except.map _ (forRows _ (fun m k => m.evaluate (xs.row (order.getD k 0)) params) model
    (List.range order.length)).1 = _
  rw [hrows]
  generalize houtcome : (forRows _ _ model (List.range xs.rowCount)).1 = outcome
  cases outcome with
  | error fault => rfl
  | ok values =>
    have hlength := (h.values_entries hcolumns hparams hassigns houtcome).1
    exact congrArg _ (zipWith_pick _ order (hlength.trans hys.symm))

omit hys in
/-- Rows in another order have the derivatives in that order. -/
theorem jacobian_reordered :
    (model.jacobian (xs.reordered order) params).1 =
      (model.jacobian xs params).1.map (pick order) := by
  have hrow := length_row hcolumns
  have hnew := comesFrom_after source inputs parameters options []
  have hreordered : (model.jacobian (xs.reordered order) params).1 = _ :=
    h.jacobian_fst hcolumns hparams
  rw [hreordered, h.jacobian_fst hcolumns hparams]
  exact @forRows_reordered _ .gradient (fun m i => m.gradient (xs.row i) params) _ _
    (fun m i hm => hm.gradient (xs.row i) params) h
    (fun i => ((ofSource source inputs parameters options).gradient (xs.row i) params).1)
    (fun m i hm => hm.gradient_eq (hrow i) hparams hnew hassigns)
    (fun i j => hnew.gradient_alike (hrow i) hparams hnew (hrow j)) _ _ horder

end

end ComesFrom

/-- Residuals and Jacobians, after any calls on a model.

If the program assigns its own variables before it reads them, each residual is the value that a new
model has at the row, less the observation, and each entry of a Jacobian is the slope of a pass of its
own at the row, with slope one at the argument that stands for the parameter; rows in another order
have the same results in that order. Whatever the program is, all rows fail alike or none fails. -/
theorem rows_after (source : String) (inputs parameters : List String) (options : Options)
    (calls : List Call) (xs : DataMatrix) (ys params : List Float)
    (hcolumns : xs.columnCount = inputs.length) (hparams : params.length = parameters.length)
    (hys : ys.length = xs.rowCount) :
    let fresh := ofSource source inputs parameters options
    let model := fresh.after calls
    ((∀ program, fresh.compile.1 = .ok program →
        program.AssignsFirst (inputs.length + parameters.length)) →
      (∀ rs, (model.residuals xs ys params).1 = .ok rs → rs.length = xs.rowCount ∧
        ∀ i < xs.rowCount, ∃ value y, (fresh.evaluate (xs.row i) params).1 = .ok value ∧
          ys[i]? = some y ∧ rs[i]? = some (value - y)) ∧
      (∀ rows, (model.jacobian xs params).1 = .ok rows → rows.length = xs.rowCount ∧
        ∀ i < xs.rowCount, ∃ row p, rows[i]? = some row ∧ fresh.function.prepare = .ok p ∧
          row.length = parameters.length ∧ ∀ j < parameters.length, ∃ d,
            (p.workspace.constants.pass p.program
              (seeded (xs.row i ++ params) (inputs.length + j))).1 = .ok d ∧
            row[j]? = some d.eps) ∧
      ∀ order : List Nat, order.Perm (List.range xs.rowCount) →
        (model.residuals (xs.reordered order) (pick order ys) params).1 =
            (model.residuals xs ys params).1.map (pick order) ∧
          (model.jacobian (xs.reordered order) params).1 =
            (model.jacobian xs params).1.map (pick order)) ∧
    FailsAlike .value xs.rowCount (fun i => (model.evaluate (xs.row i) params).1)
      (model.residuals xs ys params).1 ∧
    FailsAlike .gradient xs.rowCount (fun i => (model.gradient (xs.row i) params).1)
      (model.jacobian xs params).1 := by
  intro fresh model
  -- all that the calls before have left is that the model comes from the new one
  have h : fresh.ComesFrom model := comesFrom_after source inputs parameters options calls
  exact ⟨fun hassigns =>
      ⟨fun _ hrs => h.residuals_entries hcolumns hparams hys hassigns hrs,
        fun _ hrows => h.jacobian_entries hcolumns hparams hassigns hrows,
        fun _ horder => ⟨h.residuals_reordered hcolumns hparams hys hassigns horder,
          h.jacobian_reordered hcolumns hparams hassigns horder⟩⟩,
    h.residuals_failsAlike hcolumns hparams hys, h.jacobian_failsAlike hcolumns hparams⟩

/-- A model whose program has a variable of its own. -/
def scaling : Program :=
  ⟨"v = k * x; v", ⟨[.assign "v" (.binary .mul (.var "k") (.var "x")), .result (.var "v")]⟩,
    [.load 1, .load 0, .binary .mul, .store 2, .load 2],
    .resolveAll .empty ["x", "k", "v"]⟩

set_option maxRecDepth 10000 in
/-- What the formula of this model is compiled to. -/
theorem prepare_scaling :
    (ofSource "v = k * x; v" ["x"] ["k"]).function.prepare =
      .ok ⟨scaling, (Workspace.forProgram scaling).registerStandard, none⟩ := by
  have hparse : Formula.parse scaling.source = .ok scaling.formula := by cbv
  exact BoundFormula.prepare_of_parse hparse (by rfl)

/-- Two rows, after a value at another point and a call with a parameter too many. The rows in the
other order have the same residuals in the other order. -/
theorem rows_after_of_scaling :
    let fresh := ofSource "v = k * x; v" ["x"] ["k"]
    let model := fresh.after [.gradient [5] [7], .evaluate [1] [2, 3]]
    let xs := DataMatrix.ofEntries 2 1 [3, 4]
    (model.residuals xs [1, 2] [2]).1 = .ok [2 * 3 - 1, 2 * 4 - 2] ∧
      (model.residuals (xs.reordered [1, 0]) [2, 1] [2]).1 = .ok [2 * 4 - 2, 2 * 3 - 1] ∧
      ∃ value y, (fresh.evaluate [4] [2]).1 = .ok value ∧ ([1, 2] : List Float)[1]? = some y ∧
        some (2 * 4 - 2) = some (value - y) := by
  intro fresh model xs
  -- `v` is stored before it is loaded, and it is all that the program assigns
  have hassigns : ∀ program, fresh.compile.1 = .ok program → program.AssignsFirst 2 := by
    intro program hprogram
    have hcompile : fresh.compile.1 = .ok scaling := by
      show fresh.function.compile.1 = _
      rw [BoundFormula.compile, BoundFormula.withPrepared_of_prepare prepare_scaling]
      rfl
    obtain rfl : scaling = program := Except.ok.inj (hcompile.symm.trans hprogram)
    have hcode : ∀ a ∈ Code.stored scaling.code, 2 ≤ a → a ∉ Code.readFirst scaling.code := by
      decide
    exact fun a hstored hfree => Code.storesFirst_iff.2 (hcode a hstored hfree)
  -- the second call fails over its sizes and leaves the model, the first one has run two passes
  have hmodel : model = { fresh with
      function := { fresh.function with
        prepared? := some ((PreparedProgram.slopes ⟨scaling,
          (Workspace.forProgram scaling).registerStandard, none⟩ [5, 7] [1]).2) } } := by
    have hfirst : (fresh.gradient [5] [7]).2 = _ :=
      congrArg (fun next => { fresh with function := next.2 })
        (@BoundFormula.slopes_of_prepare fresh.function _ prepare_scaling [5, 7] rfl [1])
    show ((fresh.gradient [5] [7]).2.evaluate [1] [2, 3]).2 = _
    rw [hfirst]
    rfl
  have hresiduals : (model.residuals xs [1, 2] [2]).1 = .ok [2 * 3 - 1, 2 * 4 - 2] := by
    rw [hmodel]
    rfl
  obtain ⟨hrows, -⟩ := rows_after "v = k * x; v" ["x"] ["k"] {} [.gradient [5] [7],
    .evaluate [1] [2, 3]] xs [1, 2] [2] rfl rfl rfl
  obtain ⟨hvalues, -, hreordered⟩ := hrows hassigns
  refine ⟨hresiduals, ?_, (hvalues _ hresiduals).2 1 (by decide)⟩
  have hswapped := (hreordered [1, 0] (by decide)).1
  rw [show (model.residuals xs [1, 2] [2]).1 = _ from hresiduals] at hswapped
  exact hswapped

end FitModel

end FormulaMachine
