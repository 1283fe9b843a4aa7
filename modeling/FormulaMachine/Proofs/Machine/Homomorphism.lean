import FormulaMachine.Proofs.Machine.Relation

/-!
# Runs on related scalars

A map between two scalar types that keeps every operation keeps every run: the machine makes the same
moves on either type, stops at the same instruction with the same fault, and its states correspond
all along.

* `Scalar.Homomorphism`: a map that keeps the operations. Its graph is a relation that they keep, so
  runs on related scalars give all that follows.
* `FunctionTable.Maps`: the functions of one table carried over to another.
* **`standard_maps`**: the standard functions carry over along every homomorphism.
* **`exec_map`**, **`states_map`**: a run commutes with the map, and so does every state it passes.
-/

namespace FormulaMachine

open Binary64 (Direction)

variable {α β : Type} [Scalar α] [Scalar β] {f : α → β}

/-- `f` keeps constants, operators, and functions. -/
structure Scalar.Homomorphism (f : α → β) : Prop where
  ofFloat (x : Float) : f (Scalar.ofFloat x) = Scalar.ofFloat x
  operator (op : Operator) (a b : α) : f (op.apply a b) = op.apply (f a) (f b)
  neg (a : α) : f (-a) = -f a
  smooth (g : Smooth) (a : α) : f (Scalar.smooth g a) = Scalar.smooth g (f a)
  integral (dir : Direction) (a : α) : f (Scalar.integral dir a) = Scalar.integral dir (f a)
  abs (a : α) : f (Scalar.abs a) = Scalar.abs (f a)
  atan2 (a b : α) : f (Scalar.atan2 a b) = Scalar.atan2 (f a) (f b)
  hypot (a b : α) : f (Scalar.hypot a b) = Scalar.hypot (f a) (f b)
  fmod (a b : α) : f (Scalar.fmod a b) = Scalar.fmod (f a) (f b)
  remainder (a b : α) : f (Scalar.remainder a b) = Scalar.remainder (f a) (f b)
  positiveDifference (a b : α) :
    f (Scalar.positiveDifference a b) = Scalar.positiveDifference (f a) (f b)
  max (a b : α) : f (Scalar.max a b) = Scalar.max (f a) (f b)
  min (a b : α) : f (Scalar.min a b) = Scalar.min (f a) (f b)

/-- The graph of a map that keeps the operations is a relation that they keep. -/
theorem Scalar.Homomorphism.relates (hf : Scalar.Homomorphism f) :
    Scalar.Relates fun a b => f a = b where
  ofFloat := hf.ofFloat
  operator op _ _ _ _
    | rfl, rfl => hf.operator op _ _
  neg
    | rfl => hf.neg _
  smooth g _ _
    | rfl => hf.smooth g _
  integral dir _ _
    | rfl => hf.integral dir _
  abs
    | rfl => hf.abs _
  atan2
    | rfl, rfl => hf.atan2 _ _
  hypot
    | rfl, rfl => hf.hypot _ _
  fmod
    | rfl, rfl => hf.fmod _ _
  remainder
    | rfl, rfl => hf.remainder _ _
  positiveDifference
    | rfl, rfl => hf.positiveDifference _ _
  max
    | rfl, rfl => hf.max _ _
  min
    | rfl, rfl => hf.min _ _

omit [Scalar α] [Scalar β] in
theorem forall₂_graph_iff {xs : List α} {ys : List β} :
    List.Forall₂ (fun a b => f a = b) xs ys ↔ xs.map f = ys := by
  rw [← List.forall₂_eq_eq_eq, List.forall₂_map_left_iff]

/-! ## Functions -/

/-- The function of as many arguments that `f` takes results to results of. -/
structure HostFunction.Maps (f : α → β) (g : HostFunction α) (h : HostFunction β) : Prop where
  arity : g.arity = h.arity
  body (arguments : List α) : f (g.body arguments) = h.body (arguments.map f)

/-- The same names are bound, to functions that correspond. -/
def FunctionTable.Maps (f : α → β) (table : FunctionTable α) (image : FunctionTable β) : Prop :=
  ∀ name, Option.Rel (HostFunction.Maps f) (table.get? name) (image.get? name)

namespace FunctionTable

omit [Scalar α] [Scalar β] in
/-- A table is carried over if it is related by the graph of the map. -/
theorem maps_iff {table : FunctionTable α} {image : FunctionTable β} :
    table.Maps f image ↔ table.Related (fun a b => f a = b) image := by
  refine forall_congr' fun name => ?_
  refine iff_of_eq (congrArg (Option.Rel · _ _) ?_)
  funext g h
  refine propext ⟨fun hmaps => ⟨hmaps.arity, fun harguments => ?_⟩,
    fun hrelated => ⟨hrelated.arity, fun _ => hrelated.body (forall₂_graph_iff.2 rfl)⟩⟩
  rw [← forall₂_graph_iff.1 harguments]
  exact hmaps.body _

/-- The standard functions carry over along every homomorphism. -/
theorem standard_maps (hf : Scalar.Homomorphism f) :
    (standard : FunctionTable α).Maps f standard :=
  maps_iff.2 (standard_related hf.relates)

end FunctionTable

/-! ## Runs -/

namespace Machine

/-- The machine with every value carried over. -/
def map (f : α → β) (m : Machine α) : Machine β := ⟨m.stack.map f, m.slots.map f⟩

/-- The machines that a run passes: the first one, and the one after each instruction that could
run. -/
def states (functions : FunctionTable α) (m : Machine α) : List Instr → List (Machine α)
  | [] => [m]
  | instr :: code =>
    m :: match instr.step functions m with
      | .error _ => []
      | .ok next => states functions next code

end Machine

omit [Scalar α] [Scalar β] in
/-- A machine is related by the graph of the map to its image, and to nothing else. -/
theorem Machine.map_eq_iff {m : Machine α} {n : Machine β} :
    m.map f = n ↔ m.Related (fun a b => f a = b) n := by
  obtain ⟨stack, slots⟩ := n
  rw [map, mk.injEq]
  exact ⟨fun h => ⟨forall₂_graph_iff.2 h.1, forall₂_graph_iff.2 h.2⟩,
    fun h => ⟨forall₂_graph_iff.1 h.stack, forall₂_graph_iff.1 h.slots⟩⟩

variable {functions : FunctionTable α} {images : FunctionTable β}

/-- One instruction does the same on both sides. -/
theorem Instr.step_map (hf : Scalar.Homomorphism f) (hfunctions : functions.Maps f images)
    (m : Machine α) (instr : Instr) :
    instr.step images (m.map f) = (instr.step functions m).map (Machine.map f) := by
  have hstep := step_related hf.relates (FunctionTable.maps_iff.1 hfunctions)
    (Machine.map_eq_iff.1 rfl : m.Related _ (m.map f)) instr
  generalize instr.step functions m = left, instr.step images (m.map f) = right at hstep ⊢
  cases hstep with
  | error fault => rfl
  | ok h => exact congrArg Except.ok (Machine.map_eq_iff.2 h).symm

namespace Machine

/-- A run commutes with the map: same outcome, and corresponding machines at the end. -/
theorem exec_map (hf : Scalar.Homomorphism f) (hfunctions : functions.Maps f images)
    (m : Machine α) (code : List Instr) :
    (m.map f).exec images code = ((m.exec functions code).1, (m.exec functions code).2.map f) := by
  obtain ⟨houtcome, hend⟩ := exec_related hf.relates (FunctionTable.maps_iff.1 hfunctions)
    (map_eq_iff.1 rfl : m.Related _ (m.map f)) code
  exact Prod.ext houtcome.symm (map_eq_iff.2 hend).symm

/-- Every state of the run is carried over to the state of the other run at the same place, and
there are as many. -/
theorem states_map (hf : Scalar.Homomorphism f) (hfunctions : functions.Maps f images)
    (m : Machine α) (code : List Instr) :
    (m.map f).states images code = (m.states functions code).map (map f) := by
  induction code generalizing m with
  | nil => rfl
  | cons instr code ih =>
    rw [states, states, Instr.step_map hf hfunctions]
    -- a step that fails ends both lists, and another one goes on from corresponding machines
    cases instr.step functions m with
    | error fault => rfl
    | ok next => exact congrArg (List.cons (m.map f)) (ih next)

end Machine

end FormulaMachine
