import SpendAuth.Proofs.Script.Walk

set_option autoImplicit false

namespace SpendAuth.Script

/-- A script without some operations is cut into those that were kept. -/
theorem slices_removeOp (script : Script) (op : UInt8) :
    slices (removeOp script op) = (slices script).filter fun slice => slice.head? ≠ some op := by
  have kept := (tiling_slices script).sublist
    (List.filter_sublist (p := fun slice => slice.head? ≠ some op))
  exact kept.slices_flatten

theorem removeOp_removeOp (script : Script) (op other : UInt8) :
    removeOp (removeOp script op) other =
      ((slices script).filter fun slice =>
        slice.head? ≠ some other && slice.head? ≠ some op).flatten := by
  rw [removeOp, slices_removeOp, List.filter_filter]

theorem removeOp_self (script : Script) (op : UInt8) :
    removeOp (removeOp script op) op = removeOp script op := by
  rw [removeOp_removeOp, removeOp]
  simp only [Bool.and_self]

theorem removeOp_comm (script : Script) (op other : UInt8) :
    removeOp (removeOp script op) other = removeOp (removeOp script other) op := by
  rw [removeOp_removeOp, removeOp_removeOp]
  simp only [Bool.and_comm]

/-- No step of a walk meets a removed code. -/
theorem getElem?_removeOp_ne (script : Script) (op : UInt8) (steps : Nat) :
    (removeOp script op)[(nextOp (removeOp script op))^[steps] 0]? ≠ some op := by
  rw [getElem?_iterate_nextOp, slices_removeOp]
  intro met
  obtain ⟨slice, found, head⟩ := Option.bind_eq_some_iff.1 met
  have member := List.mem_of_getElem? found
  have other := of_decide_eq_true (List.mem_filter.1 member).2
  exact other head

theorem op_ne_iff {script : Script} {v : Visit} (member : v ∈ walk script) (op : UInt8) :
    v.op ≠ op ↔ v.slice.head? ≠ some op := by
  have slice : v.slice ∈ slices script := by
    rw [← slice_walk]
    exact List.mem_map_of_mem member
  obtain ⟨code, rest, same⟩ := List.exists_cons_of_ne_nil (ne_nil_of_mem_slices slice)
  rw [Visit.op, same]
  simp

/-- Walking the shorter script visits the slices of the operations that were kept. -/
theorem slice_walk_removeOp (script : Script) (op : UInt8) :
    (walk (removeOp script op)).map Visit.slice =
      ((walk script).filter fun v => v.op ≠ op).map Visit.slice := by
  have codes : (walk script).filter (fun v => v.op ≠ op) =
      (walk script).filter ((fun slice => decide (slice.head? ≠ some op)) ∘ Visit.slice) := by
    apply List.filter_congr
    intro v member
    exact decide_eq_decide.2 (op_ne_iff member op)
  rw [slice_walk, slices_removeOp, codes, ← List.filter_map, slice_walk]

/--
Removing a code keeps the slices that do not begin with it, in order, and these are what a walk over
the result meets. So it is done once and for all, in any order of codes, leaves no operation of the
code, and keeps the others with all that they push.
-/
theorem removeOp_filters_walk (script : Script) (op : UInt8) :
    let kept := (slicesFrom script 0).filter fun slice => slice.head? ≠ some op
    removeOp script op = kept.flatten ∧
      slicesFrom (removeOp script op) 0 = kept ∧
      removeOp (removeOp script op) op = removeOp script op ∧
      (∀ other, removeOp (removeOp script op) other = removeOp (removeOp script other) op) ∧
      (∀ steps, (removeOp script op)[(nextOp (removeOp script op))^[steps] 0]? ≠ some op) ∧
      (walk (removeOp script op)).map (fun v => (v.op, payload v.slice)) =
        ((walk script).filter fun v => v.op ≠ op).map fun v => (v.op, payload v.slice) := by
  intro kept
  have again := slices_removeOp script op
  rw [← slicesFrom_zero script, ← slicesFrom_zero (removeOp script op)] at again
  have pushed := congrArg (List.map fun slice : Bytes => (slice.headD 0, payload slice))
    (slice_walk_removeOp script op)
  rw [List.map_map, List.map_map] at pushed
  refine ⟨?_, again, removeOp_self script op, removeOp_comm script op,
    getElem?_removeOp_ne script op, pushed⟩
  rw [removeOp, ← slicesFrom_zero]

/-- The code stays where it is data, also in a push that the end of the script cuts short. -/
example : removeOp [0xab, 0x02, 0xab, 0xab, 0xab, 0x4c, 0x05, 0xab] 0xab =
    [0x02, 0xab, 0xab, 0x4c, 0x05, 0xab] := by
  decide +kernel

end SpendAuth.Script
