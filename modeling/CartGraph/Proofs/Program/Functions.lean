import CartGraph.Proofs.Emit.Opening
import CartGraph.Proofs.GivenNames
import CartGraph.Proofs.Order
import CartGraph.Proofs.Program.Entries

/-! # Functions of a program

A program has a function for each entry node and no other: those of events that are answered come
first, those of custom events after them. A program that is made is these functions after a header
(`Program.assembleLogged_ok`), and one that is not has failed in one of its parts
(`Program.assemble_error_cases`). -/
namespace CartGraph

theorem Variable.declare_error {globals : List Variable} {e : CompileError}
    (h : declare globals = .error e) : Lua.Invalid e := by
  suffices hall : ∀ index used found, declareFrom index used found globals = .error e →
      Lua.Invalid e from hall _ _ _ h
  clear h
  induction globals with
  | nil =>
    intro index used found h
    cases h
  | cons v rest ih =>
    intro index used found h
    rcases bind_error h with h | ⟨text, _, h⟩
    · unfold defaultLiteral at h
      split at h
      · cases h
      · cases h
      · exact Lua.literal_error h
    · exact ih _ _ _ h

namespace Program

variable {g : Graph} {settings : Settings} {globals : List Variable} {entries : Entries}

def Function.ofSignature (s : Signature) : Function :=
  ⟨s.functionName ++ "(" ++ s.parameterList ++ ")", s.nodeId⟩

def Function.block (f : Function) (body : List String) : List String :=
  "" :: ("function " ++ f.head) :: body ++ ["end"]

theorem mem_functions {signatures : List Signature} {f : Function} :
    f ∈ functions entries signatures ↔
      (∃ entry ∈ entries.named, f = ⟨entry.1.display ++ "()", entry.2⟩) ∨
        ∃ s ∈ signatures, f = .ofSignature s := by
  unfold functions
  simp only [List.mem_append, List.mem_map, (Order.sortBy_perm _ _).mem_iff, eq_comm (a := f)]
  rfl

/-- Every function starts from a node of the graph. -/
theorem functions_node (h : Entries.ofGraph g settings = .ok entries) {f : Function}
    (hf : f ∈ functions entries ((Signature.ofNodes entries.custom).map (·.2))) :
    ∃ n ∈ g.nodes, f.node = n.id := by
  have hlists := Entries.lists_of_graph h
  rcases mem_functions.mp hf with ⟨entry, he, rfl⟩ | ⟨s, hs, rfl⟩
  · obtain ⟨n, hn, hid, _⟩ := hlists.named entry he
    exact ⟨n, hn, hid⟩
  · obtain ⟨entry, he, rfl⟩ := List.mem_map.mp hs
    obtain ⟨n, hn, used, hs⟩ := Signature.ofNodes_mem he
    refine ⟨n, (hlists.custom n hn).1, ?_⟩
    rw [hs]
    rfl

/-- What the functions of a program are emitted from, with the names of its variables by id. -/
def compilation (g : Graph) (settings : Settings) (entries : Entries)
    (globals : List (String × String)) : Compilation where
  graph := g
  settings := settings
  globals := globals
  events := Signature.ofNodes entries.custom

/-! ## Programs that are made -/

theorem emitAll_cons {c : Compilation} {f : Function} {rest : List Function} {s s' : Progress}
    {lines : List String} (h : emitAll c (f :: rest) s = (.ok lines, s')) :
    ∃ body more s₁, c.entry f.node 1 s = (.ok body, s₁) ∧ emitAll c rest s₁ = (.ok more, s') ∧
      lines = f.block body ++ more := by
  obtain ⟨first, s₁, hfirst, h⟩ := Emit.bind_ok h
  obtain ⟨body, s₁, hbody, hfirst⟩ := Emit.bind_ok hfirst
  cases hfirst
  obtain ⟨more, s₂, hmore, h⟩ := Emit.bind_ok h
  cases h
  exact ⟨body, more, s₁, hbody, hmore, rfl⟩

/-- What a program is made of, if its graph has entry nodes. -/
theorem assembleLogged_ok {text : String} {progress : Progress}
    (h : assembleLogged g settings globals = (.ok text, progress))
    (hentries : Entries.ofGraph g settings = .ok entries) :
    entries.isEmpty = true ∧ progress = {} ∨
      ∃ declarations lines, Variable.declare globals = .ok declarations ∧
        emitAll (compilation g settings entries declarations.names)
          (functions entries ((Signature.ofNodes entries.custom).map (·.2))) {} =
            (.ok lines, progress) ∧
        text = "\n".intercalate (header :: preamble declarations.lines ++ lines) := by
  unfold assembleLogged at h
  rw [hentries] at h
  dsimp only at h
  split at h
  · cases h
    exact .inl ⟨‹_›, rfl⟩
  split at h
  · cases h
  split at h
  · cases h
  · rename_i declarations hdeclared
    let run := emitAll (compilation g settings entries declarations.names)
      (functions entries ((Signature.ofNodes entries.custom).map (·.2))) {}
    change (run.1.map _, run.2) = _ at h
    rcases hrun : run with ⟨e | lines, s⟩
    all_goals
      rw [hrun] at h
      cases h
    exact .inr ⟨declarations, lines, mapError_ok hdeclared, hrun, rfl⟩

/-! ## Programs that are not made -/

theorem emitAll_error {c : Compilation} {fs : List Function} {s : Progress} {e : Error}
    (h : (emitAll c fs s).1 = .error e) : ∃ f ∈ fs, ∃ s, (c.entry f.node 1 s).1 = .error e := by
  induction fs generalizing s with
  | nil => cases h
  | cons f rest ih =>
    change (Emit.bind (Emit.bind (c.entry f.node 1) _) _ s).1 = .error e at h
    unfold Emit.bind at h
    rcases hrun : c.entry f.node 1 s with ⟨e' | body, s₁⟩
    · rw [hrun] at h
      cases h
      exact ⟨f, .head _, s, congrArg Prod.fst hrun⟩
    · rw [hrun] at h
      change (Emit.bind (emitAll c rest) _ s₁).1 = .error e at h
      unfold Emit.bind at h
      rcases hrest : emitAll c rest s₁ with ⟨e' | lines, s₂⟩ <;> rw [hrest] at h
      · cases h
        obtain ⟨f', hf', he⟩ := ih (congrArg Prod.fst hrest)
        exact ⟨f', .tail _ hf', he⟩
      · cases h

/-- Where a program that is not made has failed. -/
theorem assemble_error_cases {e : Error} (h : assemble g settings globals = .error e) :
    Entries.ofGraph g settings = .error e ∨
      ∃ entries, Entries.ofGraph g settings = .ok entries ∧
        (entries.check = .error e ∨
          (∃ ce, Variable.declare globals = .error ce ∧ e = .compile ce) ∨
          ∃ names, ∃ f ∈ functions entries ((Signature.ofNodes entries.custom).map (·.2)),
            ∃ s, ((compilation g settings entries names).entry f.node 1 s).1 = .error e) := by
  unfold assemble assembleLogged at h
  cases hentries : Entries.ofGraph g settings with
  | error e' =>
    rw [hentries] at h
    exact .inl (congrArg _ (Except.error.inj h))
  | ok entries =>
    rw [hentries] at h
    refine .inr ⟨entries, rfl, ?_⟩
    dsimp only at h
    split at h
    · cases h
    split at h
    · rename_i hcheck
      cases h
      exact .inl hcheck
    split at h
    · rename_i hdeclare
      cases h
      exact .inr (.inl (mapError_error hdeclare))
    · rename_i declarations _
      exact .inr (.inr ⟨declarations.names, emitAll_error (map_error h)⟩)

theorem assemble_error {e : Error} (h : assemble g settings globals = .error e) :
    Entries.ofGraph g settings = .error e ∨
      ∃ entries, Entries.ofGraph g settings = .ok entries ∧
        (entries.check = .error e ∨ (∃ ce, e = .compile ce) ∨
          ∃ names, ∃ f ∈ functions entries ((Signature.ofNodes entries.custom).map (·.2)),
            ∃ s, ((compilation g settings entries names).entry f.node 1 s).1 = .error e) :=
  (assemble_error_cases h).imp_right fun ⟨entries, hentries, h⟩ =>
    ⟨entries, hentries, h.imp_right (Or.imp_left fun ⟨ce, _, he⟩ => ⟨ce, he⟩)⟩

end Program

end CartGraph
