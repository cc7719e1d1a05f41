import CartGraph.Proofs.Emit.Reads
import CartGraph.Proofs.Graph.ExecTree
import CartGraph.Proofs.Table

/-! # Outputs that are locals of the program

The outputs of a resumed coroutine, the index of a loop and the parameters of an event are not
computed where they are read: they are looked up among the locals in scope. In a graph that was
loaded, nothing else is ever looked up. -/
namespace CartGraph

/-! ## Nodes by different ids that are the same -/

theorem Property.check_congr {p : Property} {v a : Value} (b : Value) (h : p.check v a = .ok ()) :
    p.check v b = .ok () := by
  unfold check at *
  cases hv : v.isNull with
  | true => rfl
  | false =>
    simp only [hv, Bool.false_eq_true, if_false] at h ⊢
    cases hm : p.misfit? v with
    | error e => rw [hm] at h; cases h
    | ok reason =>
      rw [hm] at h
      cases reason with
      | none => rfl
      | some reason => cases h

namespace Compilation

variable {c : Compilation} {a b : Key}

theorem property_congr (h : a.canonical = b.canonical) {key : Key} {fallback v : Value}
    (hv : c.property a key fallback = .ok v) : c.property b key fallback = .ok v := by
  obtain ⟨t, ht, hv⟩ := CartGraph.bind_ok hv
  obtain ⟨n, hn, hv⟩ := CartGraph.bind_ok hv
  have hn : c.graph.node b = .ok n :=
    Graph.node_ok_iff.mpr (Graph.node?_congr h ▸ Graph.node_ok_iff.mp hn)
  simp only [property, (Graph.typeOf_congr h).mp ht, hn, bind, Except.bind]
  cases hp : t.definition.property? key with
  | none => rw [hp] at hv; exact hv
  | some p =>
    rw [hp] at hv
    obtain ⟨_, hcheck, hv⟩ := CartGraph.bind_ok hv
    simp only [Property.check_congr b hcheck]
    exact hv

theorem nameProperty_congr (h : a.canonical = b.canonical) {key fallback name : String}
    (hn : c.nameProperty a key fallback = .ok name) : c.nameProperty b key fallback = .ok name := by
  obtain ⟨v, hv, hn⟩ := CartGraph.bind_ok hn
  unfold nameProperty
  rw [property_congr h hv]
  exact hn

theorem event?_congr (c : Compilation) (h : a.canonical = b.canonical) :
    c.event? a = c.event? b := by
  have of_text {a b : Key} (h : a.canonical = b.canonical) {s : String} (ha : a = .text s) :
      a = b := by
    subst ha
    exact (Key.canonical_eq_text h.symm).symm
  have other {a : Key} (ha : ∀ s, a ≠ .text s) : c.event? a = none := by
    cases a with
    | text s => exact absurd rfl (ha s)
    | _ => rfl
  by_cases ha : ∃ s, a = .text s
  · obtain ⟨s, ha⟩ := ha
    rw [of_text h ha]
  · by_cases hb : ∃ s, b = .text s
    · obtain ⟨s, hb⟩ := hb
      rw [of_text h.symm hb]
    · rw [other fun s hs => ha ⟨s, hs⟩, other fun s hs => hb ⟨s, hs⟩]

end Compilation

/-! ## Locals -/

namespace Graph

def Feeds (g : Graph) (node pin : Key) : Prop :=
  ∃ w ∈ g.connections, w.isExec = false ∧ w.sourceNode = node ∧ w.sourcePin = pin

def IsLocal (g : Graph) (node pin : Key) : Prop :=
  match g.statement? node with
  | some .resume => pin = .text "success" ∨ pin = .text "result"
  | some .loop => pin = .text "index"
  | some .openEvent => ∃ n, g.node? node = some n ∧ ∃ q ∈ n.parameters, pin = .text q.outputPin
  | _ => False

end Graph

namespace Loaded

open CartGraph.Graph

variable {c : Compilation}

/-- The pin that a value connection leaves. -/
theorem feeds_pin {g : Graph} (h : Loaded g) {node pin : Key} (hf : g.Feeds node pin) :
    ∃ ps p, g.pinsOf node = .ok ps ∧ p ∈ ps.outputs ∧ p.isExec = false ∧ pin = .text p.id := by
  obtain ⟨w, hw, hx, rfl, rfl⟩ := hf
  obtain ⟨source, target, hj⟩ := h.joins w hw
  obtain ⟨⟨ps, hps, hm⟩, _⟩ := h.listed hj
  exact ⟨ps, source, hps, hm, hj.isExec_source ▸ hx, hj.sourcePin⟩

/-- What wires bring are outputs that value connections leave, and what is looked up for them is a
local. -/
theorem asks (h : Loaded c.graph) : c.Asks c.graph.Feeds c.graph.IsLocal where
  wire {node pin w} hpin hw := by
    obtain ⟨hmem, htarget⟩ := (h.incoming (placeOf node pin) w).mp hw
    refine ⟨w, hmem, ?_, rfl, rfl⟩
    cases hx : w.isExec with
    | false => rfl
    | true =>
      have htext : pin.canonical = .text "exec_in" := by
        have := congrArg Prod.snd htarget
        rw [Connection.target, h.exec_in hmem hx] at this
        exact this.symm
      exact absurd (Key.canonical_eq_text htext) hpin
  bound {node pin t output} hf ht he := by
    obtain ⟨ps, p, hps, hp, hx, rfl⟩ := h.feeds_pin hf
    unfold IsLocal
    rw [statement?_of_type ht]
    rcases Library.expression_output t (h.type_mem ht) _ he output rfl with
      ⟨rfl, hst, hd, hids⟩ | ⟨rfl, hst⟩ <;> rw [hst]
    · rcases pinsOf_output hps hp ht with hp | ⟨hb, _⟩ | ⟨hb, _⟩
      · rcases hids p hp hx with hid | hid
        · exact .inl (congrArg Key.text hid)
        · exact .inr (congrArg Key.text hid)
      · cases hd.symm.trans hb
      · cases hd.symm.trans hb
    · rfl
  unbound {node pin t} hf ht he _ := by
    obtain ⟨ps, p, hps, hp, hx, rfl⟩ := h.feeds_pin hf
    obtain ⟨hexec, hevent⟩ := Library.unbound_outputs t (h.type_mem ht) he
    unfold IsLocal
    rw [statement?_of_type ht]
    rcases pinsOf_output hps hp ht with hp | ⟨_, hx'⟩ | ⟨hb, _, n, hn, q, hq, hid⟩
    · cases hx.symm.trans (hexec p hp)
    · cases hx.symm.trans hx'
    · rw [hevent hb]
      exact ⟨n, hn, q, hq, congrArg Key.text hid⟩

end Loaded

end CartGraph
