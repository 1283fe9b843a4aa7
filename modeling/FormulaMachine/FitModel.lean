import FormulaMachine.BoundFormula

/-!
# Models to be fitted to data

A model is a formula over independent variables and parameters, such as `a * exp(-k * t)` with the
variable `t` and the parameters `a` and `k`. The variables come first among the arguments.

* `FitModel.evaluate`, `FitModel.gradient`: the value at a point, and its derivatives with respect
  to the parameters.
* `FitModel.residuals`, `FitModel.jacobian`: the same over the rows of a data matrix. The first row
  that fails is reported.
-/

namespace FormulaMachine

structure DataMatrix where
  rowCount : Nat
  columnCount : Nat
  entry : Nat → Nat → Float

namespace DataMatrix

/-- The matrix whose entries are listed row after row. -/
def ofEntries (rowCount columnCount : Nat) (entries : List Float) : DataMatrix :=
  ⟨rowCount, columnCount, fun i j => entries.getD (i * columnCount + j) 0⟩

def row (matrix : DataMatrix) (i : Nat) : List Float :=
  (List.range matrix.columnCount).map (matrix.entry i)

theorem length_row (matrix : DataMatrix) (i : Nat) :
    (matrix.row i).length = matrix.columnCount := by
  simp [row]

end DataMatrix

/-- What is computed for each row of a data matrix. -/
inductive RowTask where
  | value
  | gradient
  deriving DecidableEq, Repr

/-- Why a model has no answer over a data matrix. -/
inductive DataFault where
  | columns (found expected : Nat)
  | parameters (expected found : Nat)
  | observations (found points : Nat)
  /-- a row at which the model itself has no answer -/
  | row (task : RowTask) (index : Nat) (fault : Fault)

namespace DataFault

/-- The messages of a fault and of what caused it, outermost first. Text that cannot be parsed has
its own message in the one about compiling, and once more as the cause. -/
def causes : Fault → List String
  | .compile (.malformed source fault) =>
    [(CompileFault.malformed source fault).message, fault.message]
  | fault => [fault.message]

def message : DataFault → String
  | columns found expected =>
    "Data has " ++ toString found ++ " columns but the model takes " ++ toString expected ++
      " variables."
  | parameters expected found =>
    "Parameter vector dimension mismatch. Expected " ++ toString expected ++ ", got " ++
      toString found ++ "."
  | observations found points =>
    "Got " ++ toString found ++ " observations for " ++ toString points ++ " data points."
  | row task index fault =>
    let what := match task with
      | .value => "evaluation"
      | .gradient => "gradient"
    ": ".intercalate
      (("Model " ++ what ++ " failed at data point " ++ toString index ++ ".") :: causes fault)

end DataFault

/-- A formula whose arguments are independent variables, and parameters after them. -/
structure FitModel where
  function : BoundFormula
  variableCount : Nat
  parameters : List String

namespace FitModel

/-- The model of a formula with the independent variables `inputs`. -/
def ofSource (source : String) (inputs parameters : List String) (options : Options := {}) :
    FitModel :=
  ⟨{ source, arguments := inputs ++ parameters, options }, inputs.length, parameters⟩

def parameterCount (model : FitModel) : Nat := model.parameters.length

/-- Does something with the bound formula and keeps what becomes of it. -/
def withFunction {β : Type} (model : FitModel)
    (use : BoundFormula → Except Fault β × BoundFormula) : Except Fault β × FitModel :=
  let (outcome, function) := use model.function
  (outcome, { model with function })

def compile (model : FitModel) : Except Fault Program × FitModel :=
  model.withFunction BoundFormula.compile

/-- Goes on if the numbers of variables and of parameters are right. -/
def checkSizes {β : Type} (model : FitModel) (x params : List Float)
    (next : Except Fault β × FitModel) : Except Fault β × FitModel :=
  if x.length ≠ model.variableCount then
    (.error (.size .arguments model.variableCount x.length), model)
  else if params.length ≠ model.parameterCount then
    (.error (.size .parameters model.parameterCount params.length), model)
  else next

/-- The value at the point `x`. -/
def evaluate (model : FitModel) (x params : List Float) : Except Fault Float × FitModel :=
  model.checkSizes x params (model.withFunction fun f => f.evaluate (x ++ params))

/-- The derivatives at the point `x` with respect to each parameter. -/
def gradient (model : FitModel) (x params : List Float) : Except Fault (List Float) × FitModel :=
  model.checkSizes x params (model.withFunction fun f =>
    f.slopes (x ++ params) ((List.range params.length).map (model.variableCount + ·)))

/-! ## Data matrices -/

/-- What does not fit together in the sizes of the data and the parameters. -/
def sizeFault? (model : FitModel) (xs : DataMatrix) (params : List Float) : Option DataFault :=
  if xs.columnCount ≠ model.variableCount then
    some (.columns xs.columnCount model.variableCount)
  else if params.length ≠ model.parameterCount then
    some (.parameters model.parameterCount params.length)
  else none

/-- Does something at each of the rows `indices`, up to the first that fails. -/
def forRows {β : Type} (task : RowTask) (compute : FitModel → Nat → Except Fault β × FitModel)
    (model : FitModel) : List Nat → Except DataFault (List β) × FitModel
  | [] => (.ok [], model)
  | i :: rest =>
    match compute model i with
    | (.error fault, model) => (.error (.row task i fault), model)
    | (.ok b, model) =>
      let (outcome, model) := forRows task compute model rest
      (outcome.map (b :: ·), model)

/-- The values at the rows of `xs` less the observations `ys`. -/
def residuals (model : FitModel) (xs : DataMatrix) (ys params : List Float) :
    Except DataFault (List Float) × FitModel :=
  match model.sizeFault? xs params with
  | some fault => (.error fault, model)
  | none =>
    if ys.length ≠ xs.rowCount then (.error (.observations ys.length xs.rowCount), model)
    else
      let (outcome, model) := forRows .value (fun model i => model.evaluate (xs.row i) params)
        model (List.range xs.rowCount)
      (outcome.map fun values => List.zipWith (· - ·) values ys, model)

/-- The derivatives with respect to each parameter, at each row of `xs`. -/
def jacobian (model : FitModel) (xs : DataMatrix) (params : List Float) :
    Except DataFault (List (List Float)) × FitModel :=
  match model.sizeFault? xs params with
  | some fault => (.error fault, model)
  | none =>
    forRows .gradient (fun model i => model.gradient (xs.row i) params) model
      (List.range xs.rowCount)

end FitModel

end FormulaMachine
