import FormulaMachine.Scalar.Basic

/-!
# Functions that programs call

Programs call functions by name. A table binds names to functions of a fixed number of arguments;
binding a name again replaces what it was bound to.

* `get?_register`: what a name is bound to after a binding.
* `standard`: the functions that every formula may expect, on any scalar type.
-/

namespace FormulaMachine

/-- A function of `arity` arguments, which `body` gets leftmost first. -/
structure HostFunction (α : Type) where
  arity : Nat
  body : List α → α

/-- Names bound to functions, no name twice. -/
structure FunctionTable (α : Type) where
  bindings : List (String × HostFunction α)
  nodup : (bindings.map Prod.fst).Nodup

namespace FunctionTable

variable {α : Type}

def empty : FunctionTable α := ⟨[], List.nodup_nil⟩

def size (table : FunctionTable α) : Nat := table.bindings.length

def get? (table : FunctionTable α) (name : String) : Option (HostFunction α) :=
  table.bindings.lookup name

/-- Once the binding of a name has been taken out, the name can be bound again. -/
theorem nodup_rebound {bindings : List (String × HostFunction α)}
    (h : (bindings.map Prod.fst).Nodup) (name : String) (function : HostFunction α) :
    (((name, function) :: bindings.filter fun binding => binding.1 != name).map
      Prod.fst).Nodup := by
  refine List.nodup_cons.2 ⟨fun hmem => ?_, h.sublist (List.filter_sublist.map Prod.fst)⟩
  obtain ⟨binding, hbinding, hname⟩ := List.mem_map.1 hmem
  have hkept := (List.mem_filter.1 hbinding).2
  simp [show binding.1 = name from hname] at hkept

/-- The table with `name` bound to a function, in place of what it was bound to. -/
def register (table : FunctionTable α) (name : String) (function : HostFunction α) :
    FunctionTable α :=
  ⟨(name, function) :: table.bindings.filter fun binding => binding.1 != name,
    nodup_rebound table.nodup name function⟩

/-- The table with every binding of another one added. -/
def extend (table other : FunctionTable α) : FunctionTable α :=
  other.bindings.foldl (fun t binding => t.register binding.1 binding.2) table

/-- Taking out the binding of one name does not change what the other names are bound to. -/
theorem lookup_filter_ne (bindings : List (String × HostFunction α)) {name other : String}
    (h : other ≠ name) :
    (bindings.filter fun binding => binding.1 != name).lookup other = bindings.lookup other := by
  induction bindings with
  | nil => rfl
  | cons binding bindings ih =>
    obtain ⟨key, function⟩ := binding
    by_cases hk : key = name
    · subst hk
      simp [ih, List.lookup_cons, beq_false_of_ne h]
    · have kept : (key != name) = true := by simpa using hk
      simp only [List.filter_cons, kept, if_true, List.lookup_cons, ih]

/-- After a binding its name is bound to the function given, and every other name to what it was. -/
theorem get?_register (table : FunctionTable α) (name other : String)
    (function : HostFunction α) :
    (table.register name function).get? other =
      if other = name then some function else table.get? other := by
  by_cases h : other = name
  · simp [get?, register, h]
  · simp [get?, register, h, List.lookup_cons, beq_false_of_ne h, lookup_filter_ne _ h]

/-! ## The standard functions -/

section Standard

variable [Scalar α]

open Scalar

def unary (f : α → α) : HostFunction α :=
  ⟨1, fun
    | [a] => f a
    | _ => ofFloat Binary64.nan⟩

def binary (f : α → α → α) : HostFunction α :=
  ⟨2, fun
    | [a, b] => f a b
    | _ => ofFloat Binary64.nan⟩

/-- The names of the standard functions, and what they stand for. -/
def standardBindings : List (String × HostFunction α) := [
  ("sin", unary (smooth .sin)),
  ("cos", unary (smooth .cos)),
  ("tan", unary (smooth .tan)),
  ("asin", unary (smooth .arcsin)),
  ("acos", unary (smooth .arccos)),
  ("atan", unary (smooth .arctan)),
  ("atan2", binary atan2),
  ("sinh", unary (smooth .sinh)),
  ("cosh", unary (smooth .cosh)),
  ("tanh", unary (smooth .tanh)),
  ("asinh", unary (smooth .arsinh)),
  ("acosh", unary (smooth .arcosh)),
  ("atanh", unary (smooth .artanh)),
  ("exp", unary (smooth .exp)),
  ("log", unary (smooth .log)),
  ("log10", unary (smooth .log10)),
  ("log2", unary (smooth .log2)),
  ("exp2", unary (smooth .exp2)),
  ("expm1", unary (smooth .expMinusOne)),
  ("log1p", unary (smooth .logOnePlus)),
  ("pow", binary pow),
  ("sqrt", unary (smooth .sqrt)),
  ("cbrt", unary (smooth .cbrt)),
  ("hypot", binary hypot),
  ("erf", unary (smooth .erf)),
  ("erfc", unary (smooth .erfc)),
  ("tgamma", unary (smooth .gamma)),
  ("lgamma", unary (smooth .logGamma)),
  ("ceil", unary (integral .up)),
  ("floor", unary (integral .down)),
  ("trunc", unary (integral .towardZero)),
  ("round", unary (integral .halfAway)),
  ("rint", unary (integral .halfEven)),
  ("nearbyint", unary (integral .halfEven)),
  ("fmod", binary fmod),
  ("remainder", binary remainder),
  ("fdim", binary positiveDifference),
  ("fmax", binary Scalar.max),
  ("fmin", binary Scalar.min),
  ("fabs", unary Scalar.abs)]

/-- No two of the standard functions have one name. -/
theorem nodup_standard :
    ((standardBindings : List (String × HostFunction α)).map Prod.fst).Nodup := by
  simp [standardBindings]

/-- The table of the standard functions. -/
def standard : FunctionTable α := ⟨standardBindings, nodup_standard⟩

end Standard

end FunctionTable

end FormulaMachine
