import ArrayFusion.ArrayOps
import ArrayFusion.BackendScope
import ArrayFusion.Binary64.Arithmetic
import ArrayFusion.Binary64.Elementary
import ArrayFusion.Binary64.Format
import ArrayFusion.Body.Basic
import ArrayFusion.Body.Method
import ArrayFusion.Body.Run
import ArrayFusion.DType
import ArrayFusion.DType.Promotion
import ArrayFusion.Decimal.Shortest
import ArrayFusion.Eager
import ArrayFusion.Elem
import ArrayFusion.Error
import ArrayFusion.Exec
import ArrayFusion.Fused.Basic
import ArrayFusion.Fused.Bundle
import ArrayFusion.Fused.KernelCache
import ArrayFusion.Fused.Launch
import ArrayFusion.Fused.Signature
import ArrayFusion.Graph.Basic
import ArrayFusion.Graph.Hazard
import ArrayFusion.Graph.Reach
import ArrayFusion.Graph.Recorder
import ArrayFusion.Graph.Shapes
import ArrayFusion.Graph.Stage
import ArrayFusion.Kernel.Host
import ArrayFusion.Kernel.Plan
import ArrayFusion.Kernel.Point
import ArrayFusion.Kernel.Probe
import ArrayFusion.Kernel.Source
import ArrayFusion.Operand
import ArrayFusion.Reduction.Basic
import ArrayFusion.Reduction.Fold
import ArrayFusion.Shape.Basic
import ArrayFusion.Shape.Broadcast
import ArrayFusion.Shape.Index
import ArrayFusion.Shape.Region
import ArrayFusion.Store
import ArrayFusion.Text.Extending
import ArrayFusion.Text.Printable
import ArrayFusion.Text.Quoted
import ArrayFusion.Text.Ranges
import ArrayFusion.Text.Unassigned
import ArrayFusion.Ufunc.Basic
import ArrayFusion.Ufunc.Eval
import ArrayFusion.Ufunc.Loop
import ArrayFusion.Ufunc.Word
import ArrayFusion.Proofs.Shape.Broadcast
import ArrayFusion.Proofs.Shape.Index
import ArrayFusion.Proofs.Shape.Word
import ArrayFusion.Proofs.Binary64.Bits
import ArrayFusion.Proofs.Binary64.Rounding
import ArrayFusion.Proofs.Except
import ArrayFusion.Proofs.Lists
import ArrayFusion.Proofs.Casting
import ArrayFusion.Proofs.Reduction
import ArrayFusion.Proofs.Ufunc
import ArrayFusion.Proofs.Tensor
import ArrayFusion.Proofs.Slice
import ArrayFusion.Proofs.Outcome
import ArrayFusion.Proofs.Graph.Tape
import ArrayFusion.Proofs.Graph.Sweep
import ArrayFusion.Proofs.Graph.Snapshot
import ArrayFusion.Proofs.Graph.Reach
import ArrayFusion.Proofs.Kernel.Point
import ArrayFusion.Proofs.Kernel.Host
import ArrayFusion.Proofs.Kernel.Stage
import ArrayFusion.Proofs.Body
import ArrayFusion.Proofs.Graph.Recorder
import ArrayFusion.Proofs.Graph.Finish
import ArrayFusion.Proofs.Graph.Ownership
import ArrayFusion.Proofs.Graph.Hazard
import ArrayFusion.Proofs.Lockstep
import ArrayFusion.Proofs.Eager
import ArrayFusion.Proofs.Simulation
import ArrayFusion.Proofs.Fused.Record
import ArrayFusion.Proofs.Fused.Launch
import ArrayFusion.Proofs.Fused.Delivery
import ArrayFusion.Proofs.Fused.Realize
import ArrayFusion.Proofs.Fused.Call
import ArrayFusion.Proofs.Fused.Agreement
import ArrayFusion.Proofs.Fused.Aliasing
import ArrayFusion.Proofs.Graph.History
import ArrayFusion.Proofs.Kernel.Scope
import ArrayFusion.Proofs.Kernel.Partition
import ArrayFusion.Proofs.Kernel.Buffers
import ArrayFusion.Proofs.Fused.ResultSize
import ArrayFusion.Proofs.Fused.Transparency
import ArrayFusion.Proofs.Fused.Accounting
import ArrayFusion.Proofs.Fused.Representation
import ArrayFusion.Proofs.Graph.WriteBack
import ArrayFusion.Proofs.Graph.Shapes
import ArrayFusion.Proofs.Kernel.Fresh
import ArrayFusion.Proofs.Kernel.Memo
import ArrayFusion.Proofs.Kernel.Total
import ArrayFusion.Proofs.Kernel.Dependence
import ArrayFusion.Proofs.Reduction.Lanes
import ArrayFusion.Proofs.Kernel.Reduce
import ArrayFusion.Proofs.Reduction.TwoSteps
import ArrayFusion.Proofs.Outputs
import ArrayFusion.Proofs.Assignment
import ArrayFusion.Proofs.Integer
import ArrayFusion.Proofs.Promotion
import ArrayFusion.Proofs.Ufunc.Machine
import ArrayFusion.Proofs.Ufunc.Division
import ArrayFusion.Proofs.Promotion.Order
import ArrayFusion.Proofs.Ufunc.Comparison
import ArrayFusion.Proofs.Shape.Least
import ArrayFusion.Proofs.BackendScope
