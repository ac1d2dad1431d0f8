import OpenApiClient.Expression.Synthesis
import OpenApiClient.Php.Expression
import OpenApiClient.Value.Access

/-!
# What response expressions evaluate to

Expressions are evaluated as the functions they are printed as.  A scope has one variable: the
response body outside of all walks through lists, the element inside of one, since a function
does not see the variables around it.  To read another variable, or a key that is not there,
is a failure, and so is walking through what is no list.  A guard asks whether a whole path is
there and ends at something besides null; only then what it guards is evaluated.
-/

namespace OpenApiClient

/-- The variable of a scope and its value. -/
structure Scope where
  variableName : String
  value : Value

/-- Why an expression has no value. -/
inductive Stuck where
  | unbound (variableName : String)
  | absent (path : List String)
  | notAList
  deriving DecidableEq, Repr

/-- What expressions evaluate to. -/
inductive Built where
  | value (v : Value)
  | object (type : String) (arguments : List Built)
  | list (items : List Built)

/-- The object that is not there. -/
abbrev Built.null : Built := .value .null

namespace Value

/-- What stands at the end of a path of keys. -/
def dig (v : Value) : List String → Option Value
  | [] => some v
  | key :: rest => (v.get? key).bind (dig · rest)

theorem dig_append (v : Value) (path : List String) (key : String) :
    v.dig (path ++ [key]) = (v.dig path).bind (·.get? key) := by
  induction path generalizing v with
  | nil =>
      cases h : v.get? key <;> simp [dig, h]
  | cons k rest ih =>
      cases h : v.get? k with
      | none => simp [dig, h]
      | some w => simp [dig, h, ih]

end Value

namespace Scope

/-- The variable of a binding, if it is the one of the scope. -/
def lookup (s : Scope) (binding : Binding) : Except Stuck Value :=
  if Php.variableOf binding = s.variableName then .ok s.value
  else .error (.unbound (Php.variableOf binding))

/-- Reads along a path. -/
def access (s : Scope) (read : FieldRead) : Except Stuck Value := do
  let v ← s.lookup read.binding
  (v.dig read.path).elim (.error (.absent read.path)) .ok

/-- Whether a path ends at something besides null. -/
def isSet (s : Scope) (read : FieldRead) : Except Stuck Bool := do
  let v ← s.lookup read.binding
  return (v.dig read.path).any fun w => !w.isNull

end Scope

namespace Expression

mutual

/-- Evaluates an expression. -/
def eval (s : Scope) : Expression → Except Stuck Built
  | .field read => do
    if read.guarded && !read.path.isEmpty then
      if ← s.isSet read then .value <$> s.access read else return .null
    else .value <$> s.access read
  | .construct target arguments => .object target <$> evalAll s arguments
  | .arrayMap source element body => do
    match ← s.access source with
    | .seq items => .list <$> items.mapM fun v => eval ⟨Php.variableOf element, v⟩ body
    | _ => throw .notAList
  | .nullGuard subject body => do
    if ← s.isSet subject then eval s body else return .null
  | .null _ => return .null

/-- Evaluates arguments. -/
def evalAll (s : Scope) : List Expression → Except Stuck (List Built)
  | [] => return []
  | e :: rest => return (← eval s e) :: (← evalAll s rest)

end

variable {binding : Binding} {root v : Value} {path : List String}

theorem lookup_self (binding : Binding) (root : Value) :
    Scope.lookup ⟨Php.variableOf binding, root⟩ binding = .ok root :=
  if_pos rfl

theorem access_of_dig {guarded : Bool} (h : root.dig path = some v) :
    Scope.access ⟨Php.variableOf binding, root⟩ ⟨binding, path, guarded⟩ = .ok v := by
  unfold Scope.access
  rw [lookup_self]
  change (root.dig path).elim _ _ = _
  rw [h]
  rfl

theorem isSet_eq (binding : Binding) (root : Value) (path : List String) (guarded : Bool) :
    Scope.isSet ⟨Php.variableOf binding, root⟩ ⟨binding, path, guarded⟩ =
      .ok ((root.dig path).any fun w => !w.isNull) := by
  unfold Scope.isSet
  rw [lookup_self]
  rfl

/-- A guard is evaluated where its subject is set. -/
theorem eval_nullGuard (body : Expression) :
    eval ⟨Php.variableOf binding, root⟩ (.nullGuard ⟨binding, path, false⟩ body) =
      if (root.dig path).any fun w => !w.isNull then eval ⟨Php.variableOf binding, root⟩ body
      else .ok .null := by
  rw [eval, isSet_eq]
  rfl

/-- A walk through a list evaluates its body at every element. -/
theorem eval_arrayMap {body : Expression} {element : Binding} {items : List Value}
    {f : Value → Built} (h : root.dig path = some (.seq items))
    (hbody : ∀ x ∈ items, eval ⟨Php.variableOf element, x⟩ body = .ok (f x)) :
    eval ⟨Php.variableOf binding, root⟩ (.arrayMap ⟨binding, path, false⟩ element body) =
      .ok (.list (items.map f)) := by
  have hitems : (items.mapM fun x => eval ⟨Php.variableOf element, x⟩ body) =
      .ok (items.map f) := by
    clear h
    induction items with
    | nil => rfl
    | cons x rest ih =>
        rw [List.mapM_cons, hbody x List.mem_cons_self,
          ih fun y hy => hbody y (List.mem_cons_of_mem x hy)]
        rfl
  rw [eval, access_of_dig h]
  change (Built.list <$> (items.mapM fun x => eval ⟨Php.variableOf element, x⟩ body) :
    Except Stuck Built) = _
  rw [hitems]
  rfl

/-- Arguments that evaluate one by one evaluate together. -/
theorem evalAll_map {α : Type} {s : Scope} {f : α → Expression} {g : α → Built} {l : List α}
    (h : ∀ a ∈ l, eval s (f a) = .ok (g a)) : evalAll s (l.map f) = .ok (l.map g) := by
  induction l with
  | nil => rfl
  | cons a rest ih =>
      rw [List.map_cons, evalAll, h a List.mem_cons_self,
        ih fun c hc => h c (List.mem_cons_of_mem a hc)]
      rfl

end Expression

end OpenApiClient
