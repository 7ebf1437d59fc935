import FluxBalance.Handles.Operation

/-!
# The facade

A call names an operation and hands over arguments. Failures do not leave the facade as errors:
each operation has a reply of its own that reports them. What is let through are the faults of
equations with unknown functions and of names that are no texts, and the faults of the two
operations that work on no object.
-/

namespace FluxBalance

/-- The reply of a real operation that has failed: the least finite double. -/
def Reply.undefinedReal : Reply := .real (-1.7976931348623157e308)

namespace Operation

/-- The operations by the names under which they are called. -/
def named : List (String × Operation) := [
  ("new_double_matrix", newMatrix), ("new_double_identity_matrix", newIdentity),
  ("clone_double_matrix", cloneMatrix), ("free_double_matrix", freeMatrix),
  ("index_double_matrix", readEntry), ("index_mut_double_matrix", writeEntry),
  ("inplace_row_swap", swapRows), ("inplace_row_scale", scaleRow),
  ("inplace_scale", scaleMatrix), ("inplace_row_add", addRow),
  ("inplace_scaled_row_add", addScaledRow), ("multiply_matrix", multiply),
  ("augment_with", augment), ("subset", subset), ("trace", trace), ("transpose", transpose),
  ("try_inplace_invert", invert), ("new_context_hash_map", newContext),
  ("new_default_context_hash_map", newUsualContext), ("add_const_to_ctx", addConstant),
  ("free_context_hash_map", freeContext), ("solve_equation", solveEquation),
  ("new_system_builder", newBuilder), ("try_constrain_with", constrain),
  ("is_fully_constrained", constraintStatus), ("build_system", buildSystem),
  ("free_system_builder", freeBuilder), ("debug_system_builder", showBuilder),
  ("specify_variable", specifyVariable), ("solve_system", solveSystem),
  ("free_system", freeSystem), ("new_declared_hash_map", newDeclared),
  ("add_declared_variable", declareVariable), ("free_declared_hash_map", freeDeclared),
  ("basic_solve", solvePool), ("free_solution_string", releaseText),
  ("live_handles", countHandles)]

/-- The operation with the given name. -/
def ofName? (name : String) : Option Operation := (named.find? fun p => p.1 == name).map (·.2)

/-- The reply that reports a failure; none if failures are let through. -/
def failure? : Operation → Option Reply
  | readEntry | trace => some .undefinedReal
  | invert => some (.code InversionOutcome.unknownInternalError.code)
  | constrain | constraintStatus => some (.code ConstraintStatus.tooMany.code)
  | solveEquation | solveSystem | solvePool | showBuilder => some .nothing
  | releaseText | countHandles => none
  | _ => some (.code 0)

/-- Whether a failure is reported by a reply. -/
def isReported : Error Float → Bool
  | .fault (.unknownFunction _) | .fault .notText | .fault (.other _) | .endless => false
  | _ => true

/-- A call: its reply, or a failure that is let through, and the table afterwards. -/
def call (op : Operation) (args : List Argument) (t : HandleTable) :
    Except (Error Float) Reply × HandleTable :=
  match op.run args t with
  | .ok r t => (.ok r, t)
  | .error e t =>
    match op.failure? with
    | some r => if isReported e then (.ok r, t) else (.error e, t)
    | none => (.error e, t)

end Operation

end FluxBalance
