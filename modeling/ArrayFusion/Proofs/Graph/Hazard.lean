/-
ArrayFusion/Proofs/Graph/Hazard.lean

What the pairs of parameters that must not share storage exclude.

Design.  A parameter is written exactly if some node has a target among its
versions (`written_of_target`), and its first write is not later than any of
these nodes (`firstWrite_le`).  So a pair that is no hazard is one of which at
most one member is written, and whose other member no live node reads after a
write.
-/
import ArrayFusion.Graph.Hazard
import ArrayFusion.Proofs.Graph.Ownership
import ArrayFusion.Proofs.Graph.Reach

namespace ArrayFusion

open Recorder (Reached)

namespace Graph

/-- The first write is not later than any node with a target that the
parameter owns. -/
theorem firstWrite_le {g : Graph} {n : NodeId} {node : Node} {x : ValueId} {w : Nat}
    (hn : g.nodes[n]? = some node) (hx : x ∈ node.targets) (hw : g.ownerOf x = some w) :
    ∃ first, g.firstWrite w = some first ∧ first ≤ n := by
  have hwrites : (node.targets.any fun t => g.ownerOf t == some w) = true :=
    List.any_eq_true.mpr ⟨x, hx, beq_iff_eq.mpr hw⟩
  rcases hfirst : g.firstWrite w with - | first
  · have := List.findIdx?_eq_none_iff.mp hfirst node (List.mem_of_getElem? hn)
    rw [hwrites] at this
    cases this
  · refine ⟨first, rfl, ?_⟩
    by_contra hlt
    obtain ⟨_, -, hbefore⟩ := List.findIdx?_eq_some_iff_getElem.mp hfirst
    obtain ⟨hlen, rfl⟩ := List.getElem?_eq_some_iff.mp hn
    exact hbefore n (Nat.lt_of_not_le hlt) hwrites

theorem mem_hazards {g : Graph} {w o : Nat} :
    (w, o) ∈ g.hazards ↔ w ∈ g.written ∧ o ∈ g.otherArrays w ∧ g.isHazard w o = true := by
  unfold hazards
  simp only [List.mem_flatMap, List.mem_map, List.mem_filter, Prod.mk.injEq]
  constructor
  · rintro ⟨w', hw, o', ⟨ho, hhaz⟩, rfl, rfl⟩
    exact ⟨hw, ho, hhaz⟩
  · rintro ⟨hw, ho, hhaz⟩
    exact ⟨w, hw, o, ⟨ho, hhaz⟩, rfl, rfl⟩

theorem mem_otherArrays {g : Graph} {w o : Nat} {p : Param} (hp : g.params[o]? = some p)
    (hkind : p.kind = .array) (hne : o ≠ w) : o ∈ g.otherArrays w := by
  refine List.mem_filter.mpr ⟨List.mem_range.mpr (List.getElem?_eq_some_iff.mp hp).1, ?_⟩
  simp [hp, hkind, hne]

/-- The parameters of a hazard are different ones. -/
theorem ne_of_mem_hazards {g : Graph} {w o : Nat} (h : (w, o) ∈ g.hazards) : o ≠ w := by
  have hother := (List.mem_filter.mp (mem_hazards.mp h).2.1).2
  simp only [Bool.and_eq_true, bne_iff_ne] at hother
  exact hother.1

end Graph

namespace Recorder

variable {r : Recorder} {name : String} {returned : Returned Handle}

/-- A parameter of which a version is a target is an array, and it is written. -/
theorem Reached.written_of_target (h : Reached r) {n : NodeId} {node : Node} {x : ValueId} {w : Nat}
    (hn : r.tape.nodes[n]? = some node) (hx : x ∈ node.targets)
    (hw : r.tape.ownerOf x = some w) : w ∈ (r.finish name returned).written := by
  obtain ⟨first, hfirst, hle⟩ := h.recorded.first_of_owner x hw
  obtain ⟨hp, -⟩ := h.recorded.param_of_source hfirst
  have harray : (r.tape.formOf x).kind = .array :=
    (h.recorded.typed hn).arrays _ (List.mem_map_of_mem hx)
  -- the output that replaces the target is a younger version
  obtain ⟨k, hk⟩ := List.getElem?_of_mem hx
  obtain ⟨v, hv⟩ : ∃ v, node.outputs[k]? = some v := by
    rcases (h.recorded.typed hn).targets_cases with hnil | hsame
    · rw [List.map_eq_nil_iff.mp hnil] at hx
      cases hx
    · have hlen := congrArg List.length hsame
      rw [List.length_map, List.length_map] at hlen
      exact ⟨_, List.getElem?_eq_getElem (hlen ▸ (List.getElem?_eq_some_iff.mp hk).1)⟩
  have howner : r.tape.ownerOf v = some w := by
    rw [h.recorded.ownerOf_output hn hv, hk]
    exact hw
  have hxv : x < v := h.recorded.operand_lt_output hn (List.mem_append_right _ hx)
    (List.mem_of_getElem? hv)
  obtain ⟨y, hy⟩ := h.linked.present hp rfl
  obtain ⟨hcur, hmax⟩ := h.versions.latest hy
  refine List.mem_map.mpr ⟨(w, r.valueOf y), h.mem_writeBacks.mpr ⟨y, hy, ?_, rfl, ?_⟩, rfl⟩
  · rw [formOf, h.recorded.form_of_owner hcur hw]
    exact harray
  · intro form hinit
    rw [h.recorded.initial_unique hinit hfirst] at hmax
    exact Nat.not_lt_of_le (Nat.le_trans (hmax v howner) hle) hxv

/-- The declaration of a parameter that owns a value. -/
theorem Reached.param_of_owner (h : Reached r) {v : ValueId} {i : Nat}
    (hv : r.tape.ownerOf v = some i) : ∃ p, r.tape.params[i]? = some p ∧
      p.kind = (r.tape.formOf v).kind := by
  obtain ⟨first, hfirst, -⟩ := h.recorded.first_of_owner v hv
  exact ⟨_, (h.recorded.param_of_source hfirst).1, rfl⟩

/-- Two written parameters must not share storage. -/
theorem Reached.hazard_of_written (h : Reached r) {w o : Nat}
    (hw : w ∈ (r.finish name returned).written) (ho : o ∈ (r.finish name returned).written)
    (hne : o ≠ w) : (w, o) ∈ (r.finish name returned).hazards := by
  obtain ⟨⟨o', v⟩, hv, rfl⟩ := List.mem_map.mp ho
  obtain ⟨x, hx, hkind, -, -⟩ := h.mem_writeBacks.mp hv
  obtain ⟨p, hp, hpk⟩ := h.param_of_owner (h.versions.latest hx).1
  refine Graph.mem_hazards.mpr ⟨hw, Graph.mem_otherArrays hp (hpk.trans hkind) hne, ?_⟩
  rw [Graph.isHazard, decide_eq_true ho]
  rfl

/-- A parameter must not share storage with one that is written before a live
node reads it. -/
theorem Reached.hazard_of_read (h : Reached r) {m n : NodeId} {writer reader : Node} {x v : ValueId}
    {w o : Nat} (hm : r.tape.nodes[m]? = some writer) (hx : x ∈ writer.targets)
    (hw : r.tape.ownerOf x = some w) (hlive : n ∈ (r.finish name returned).live)
    (hn : r.tape.nodes[n]? = some reader) (hv : v ∈ reader.reads) (ho : r.tape.ownerOf v = some o)
    (harray : (r.tape.formOf v).kind = .array) (hlt : m < n) (hne : o ≠ w) :
    (w, o) ∈ (r.finish name returned).hazards := by
  obtain ⟨p, hp, hpk⟩ := h.param_of_owner ho
  refine Graph.mem_hazards.mpr
    ⟨h.written_of_target hm hx hw, Graph.mem_otherArrays hp (hpk.trans harray) hne, ?_⟩
  obtain ⟨first, hfirst, hle⟩ :=
    Graph.firstWrite_le (g := r.finish name returned) hm hx hw
  have hread : (r.finish name returned).readAfter first o = true := by
    refine List.any_eq_true.mpr ⟨n, hlive, ?_⟩
    rw [Bool.and_eq_true]
    refine ⟨decide_eq_true (Nat.lt_of_le_of_lt hle hlt), List.any_eq_true.mpr ⟨v, ?_, ?_⟩⟩
    · rw [Graph.readsOf, show (r.finish name returned).nodes[n]? = some reader from hn]
      exact hv
    · exact beq_iff_eq.mpr ho
  rw [Graph.isHazard, hfirst]
  exact Bool.or_eq_true_iff.mpr (.inr hread)

end Recorder

end ArrayFusion
