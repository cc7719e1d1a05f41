import CartGraph.Proofs.Emit.Visibility

/-! # Blocks that are closed

Whether a part of the walk answers or fails, it leaves the enclosing blocks as they were, and a part
that opened a block has closed it. What a chain makes readable in its own block belongs to its own
statements: to events, whose parameters are locals of the whole function, and to resumed coroutines.
The index of a loop and what was bound in an inner block is out of reach again, also after a failure
at any depth (`scopes_restored`). -/
namespace CartGraph

/-- What is known of a state after an earlier one: the enclosing blocks are as they were, what was
bound in the innermost one is bound, and a binding of it that is new or has changed is of a node
that may bind, given what was noted in between. -/
structure Progress.Brings (may : List Visit → Key → Prop) (s s' : Progress) : Prop where
  outer : s'.symbols.outer = s.symbols.outer
  kept : ∀ k, (s.symbols.top.lookup k).isSome = true → (s'.symbols.top.lookup k).isSome = true
  trail : ∃ new, s'.trail = new ++ s.trail ∧
    ∀ k, s'.symbols.top.lookup k ≠ s.symbols.top.lookup k → may new k.1

namespace Progress.Brings

variable {may may' : List Visit → Key → Prop} {s s' s₁ s₂ s₃ : Progress}

/-- Nothing is brought if the blocks are as they were. -/
theorem of_scopes (htop : s'.symbols.top = s.symbols.top)
    (houter : s'.symbols.outer = s.symbols.outer) (htrail : s.trail <:+ s'.trail) :
    s.Brings may s' := by
  obtain ⟨new, hnew⟩ := htrail
  refine ⟨houter, fun k hk => htop ▸ hk, new, hnew.symm, fun k hk => ?_⟩
  rw [htop] at hk
  exact absurd rfl hk

theorem of_symbols (hs : s'.symbols = s.symbols) (htrail : s.trail <:+ s'.trail) :
    s.Brings may s' :=
  of_scopes (by rw [hs]) (by rw [hs]) htrail

theorem refl (s : Progress) : s.Brings may s := of_symbols rfl List.suffix_rfl

theorem suffix (h : s.Brings may s') : s.trail <:+ s'.trail := by
  obtain ⟨new, hnew, _⟩ := h.trail
  exact ⟨new, hnew.symm⟩

/-- A block that was opened is closed. -/
theorem leave (h : s.opened.trail <:+ s'.trail) : s.Brings may (s'.leave s) :=
  of_scopes rfl rfl h

theorem trans (hmono : ∀ {new new' k}, new ⊆ new' → may new k → may new' k)
    (h : s₁.Brings may s₂) (h' : s₂.Brings may s₃) : s₁.Brings may s₃ := by
  obtain ⟨new, hnew, hmay⟩ := h.trail
  obtain ⟨new', hnew', hmay'⟩ := h'.trail
  refine ⟨h'.outer.trans h.outer, fun k hk => h'.kept k (h.kept k hk), new' ++ new, ?_, ?_⟩
  · rw [hnew', hnew, List.append_assoc]
  · intro k hk
    by_cases hfirst : s₂.symbols.top.lookup k = s₁.symbols.top.lookup k
    · exact hmono (List.subset_append_left _ _) (hmay' k (hfirst ▸ hk))
    · exact hmono (List.subset_append_right _ _) (hmay k hfirst)

/-- A node that may bind binds its own outputs only. -/
theorem admitsAt {node : Key} (hmono : ∀ {new new' k}, new ⊆ new' → may new k → may new' k)
    (hnode : ∀ new, may new node.canonical) : Progress.AdmitsAt node (Progress.Brings may) where
  refl := refl
  trans := trans hmono
  line s text := of_symbols rfl (List.suffix_cons ..)
  bound s pin name := by
    have hlookup (k : Output) : (s.bound node pin name).symbols.top.lookup k =
        if k = outputOf node pin then some name else s.symbols.top.lookup k :=
      Association.lookup_assign ..
    refine ⟨rfl, fun k hk => ?_, [], rfl, fun k hk => ?_⟩
    · rw [hlookup]
      split
      · rfl
      · exact hk
    · rw [hlookup] at hk
      split at hk
      · subst k
        exact hnode []
      · exact absurd rfl hk
  temp s label :=
    of_scopes (s.symbols.temp_scopes node label).1 (s.symbols.temp_scopes node label).2
      List.suffix_rfl

end Progress.Brings

/-- The statement of a node makes outputs readable in its own block: the parameters of an event, or
what a resumed coroutine answers. -/
def Graph.BindsHere (g : Graph) (n : Key) : Prop :=
  g.statement? n = some .openEvent ∨ g.statement? n = some .resume

/-- A node may bind in a block of some depth if its statement was noted there and is one that binds
in its own block. -/
def Compilation.MayBind (c : Compilation) (level : Int) (new : List Visit) (k : Key) : Prop :=
  ∃ m, m.canonical = k ∧ .statement m level ∈ new ∧ c.graph.BindsHere m

section

variable {c : Compilation}

theorem Compilation.MayBind.mono {level : Int} {new new' : List Visit} {k : Key}
    (hsub : new ⊆ new') (h : c.MayBind level new k) : c.MayBind level new' k := by
  obtain ⟨m, hm, hnoted, hbinds⟩ := h
  exact ⟨m, hm, hsub hnoted, hbinds⟩

theorem Site.written_brings {may : List Visit → Key → Prop} (site : Site) (level : Int)
    (text : String) (p : Progress) : p.Brings may (site.written c level text p).2 := by
  obtain ⟨hs, new, hnew, _⟩ := site.written_lines c level text p
  exact .of_symbols hs ⟨new, hnew.symm⟩

theorem Site.commented_brings {may : List Visit → Key → Prop} (site : Site) (comment : String)
    (out : Outcome) : out.2.Brings may (site.commented c comment out).2 := by
  obtain ⟨hs, new, hnew, _⟩ := site.commented_lines c comment out
  exact .of_symbols hs ⟨new, hnew.symm⟩

/-- How a statement opens: it binds its own outputs, if it binds any. -/
theorem Opens.brings {site : Site} {st : Statement} {opening : Opening}
    (ho : Opens c site st opening) (s : Progress) :
    s.Brings (fun _ k => k = site.node.canonical ∧ (st = .openEvent ∨ st = .resume))
      (opening.perform c site s).2 := by
  have hline (text : String) (parts : List Part) :
      (Opening.line text parts).perform c site s = site.written c site.level text s :=
    site.lineAt_eq c site.level text s
  cases ho with
  | follow | noEvent | sequence => exact .refl s
  | event | resume =>
    exact Opening.perform_within _ c site (Progress.Brings.admitsAt (fun _ h => h) (by simp)) s
  | noTarget | callEvent | branch | loop | assign | declare | call =>
    rw [hline]
    exact site.written_brings ..

def Task.level : Task → Int
  | .chain _ level _ => level
  | .parts site _ | .part site _ | .body site _ _ => site.level

variable (h : Represented c.graph)
include h

/-- What is gathered is noted after the statement, and no block changes. -/
theorem Enters.gathered {node : Key} {level : Int} {path : List Key} {st : Statement}
    {s s₁ s₂ : Progress} {r : Except Error Opening} (enters : Enters c node level path st s s₁)
    (hg : st.gather c (c.evaluate node) (.enter node level path) s₁ = (r, s₂)) :
    s₂.symbols = s.symbols ∧ ∃ asked, s₂.trail = asked ++ .statement node level :: s.trail := by
  obtain ⟨asked, ht, hs, _⟩ := Statement.gather_reads h c.asks_any enters.statement
    (.enter node level path) s₁
  rw [hg] at ht hs
  exact ⟨hs.trans enters.symbols, asked, by rw [ht, enters.trail]⟩

/-- A node that is entered and opened binds in its own block, if it binds at all. -/
theorem Enters.brings {node : Key} {level : Int} {path : List Key} {st : Statement}
    {s s₁ s₂ s₃ : Progress} {opening : Opening} {r : Except Error (List String)}
    (enters : Enters c node level path st s s₁)
    (hg : st.gather c (c.evaluate node) (.enter node level path) s₁ = (.ok opening, s₂))
    (hp : opening.perform c (.enter node level path) s₂ = (r, s₃)) :
    s.Brings (c.MayBind level) s₃ := by
  obtain ⟨hs, asked, ht⟩ := enters.gathered h hg
  have hopens := (Statement.gather_ok hg).brings s₂
  rw [hp] at hopens
  obtain ⟨new, hnew, hmay⟩ := hopens.trail
  refine ⟨hs ▸ hopens.outer, hs ▸ hopens.kept, new ++ (asked ++ [.statement node level]), ?_, ?_⟩
  · rw [hnew, ht]
    simp
  · intro k hk
    obtain ⟨hnode, hst⟩ := hmay k (hs ▸ hk)
    refine ⟨node, hnode.symm, by simp, ?_⟩
    rcases hst with rfl | rfl
    · exact .inl enters.statement
    · exact .inr enters.statement

/-- Every task, whether it answers or fails, leaves the enclosing blocks as they were, and binds in
its own block for its own statements only. -/
theorem Runs.brings {task : Task} {s : Progress} {out : Outcome} (run : Runs c task s out) :
    s.Brings (c.MayBind task.level) out.2 := by
  induction run with
  | refused hs ht => exact .of_symbols hs (by simp only [ht, List.suffix_rfl])
  | unread enters hg =>
    obtain ⟨hs, asked, ht⟩ := enters.gathered h hg
    refine .of_symbols hs ?_
    rw [ht]
    exact (List.suffix_cons ..).trans (List.suffix_append ..)
  | unopened enters hg hp => exact enters.brings h hg hp
  | entered enters hg hp _ ih => exact (enters.brings h hg hp).trans .mono ih
  | done => exact .refl _
  | stop _ ih => exact ih
  | next _ _ ihfirst ih => exact ihfirst.trans .mono ih
  | line => exact Site.written_brings ..
  | idle => exact .refl _
  | follow _ _ ih => exact ih
  | block _ ih => exact ih
  | loop _ _ ih => exact .leave ih.suffix
  | blank => exact Site.commented_brings _ _ (.ok [], _)
  | @filled site comment target s out pin _ _ ih =>
    have hleft : s.Brings (c.MayBind site.level) (out.leave s).2 := .leave ih.suffix
    exact hleft.trans .mono (site.commented_brings comment (out.leave s))

/-! ## Whole calls -/

theorem Compilation.chain_brings (node : Key) (level : Int) (path : List Key) (s : Progress) :
    s.Brings (c.MayBind level) (c.chain node level path s).2 :=
  (c.chainWithin_runs h c.reach node level path s).brings h

/-- A block of its own is closed behind a chain, whatever came of the chain. -/
theorem Compilation.chain_inBlock (node : Key) (level : Int) (path : List Key) (s : Progress) :
    Emit.inBlock (c.chain node level path) s =
      ((c.chain node level path s.opened).1, (c.chain node level path s.opened).2.leave s) :=
  Emit.inBlock_eq ((c.chainWithin_runs h c.reach node level path s.opened).extends h)

/-- A branch that stands deeper than its statement leaves the blocks as they were. -/
theorem Site.branchAt_scopes (site : Site) (pin : Key) {level : Int} (hl : site.level < level)
    (path : List Key) (s : Progress) :
    (site.branchAt c c.chain pin level path s).2.symbols.top = s.symbols.top ∧
      (site.branchAt c c.chain pin level path s).2.symbols.outer = s.symbols.outer := by
  unfold branchAt
  rcases h.execTargets_cases site.node pin with ht | ⟨target, ht⟩
  · rw [ht]
    exact ⟨rfl, rfl⟩
  · have hall : c.chain.all level path [target] = c.chain target level path := by
      simp [Chain.all]
    rw [ht]
    simp only [hall, if_pos hl, c.chain_inBlock h]
    exact ⟨rfl, rfl⟩

end

/-- Blocks are closed on success and on failure. Over every graph that was loaded and then edited,
and from every table of names, a function and a branch that stands deeper than its statement leave
all blocks exactly as they were, and a chain leaves the enclosing ones so. In its own block a chain
keeps what is bound, and an output is found otherwise than before only if its node is an event or a
resumed coroutine whose statement the chain emitted in this very block: the index of a loop and what
an inner block bound is out of reach. -/
theorem scopes_restored {document : Value} {g₀ : Graph}
    (hload : Graph.load document Library.catalogue = .ok g₀) (calls : List Call)
    {c : Compilation} (hc : c.graph = g₀.after calls) (s : Progress) :
    (∀ node level, let s' := (c.entry node level s).2
      s'.symbols.top = s.symbols.top ∧ s'.symbols.outer = s.symbols.outer) ∧
    (∀ (site : Site) pin level path, site.level < level →
      let s' := (site.branchAt c c.chain pin level path s).2
      s'.symbols.top = s.symbols.top ∧ s'.symbols.outer = s.symbols.outer) ∧
    ∀ node level path, let s' := (c.chain node level path s).2
      s'.symbols.depth = s.symbols.depth ∧ s'.symbols.outer = s.symbols.outer ∧
      (∀ k, (s.symbols.top.lookup k).isSome = true → (s'.symbols.top.lookup k).isSome = true) ∧
      ∀ n p, s'.symbols.lookup n p ≠ s.symbols.lookup n p →
        c.MayBind level ((c.chain node level path).log s) n.canonical := by
  have h : Represented c.graph := hc ▸ (Loaded.of_load hload).toRepresented.after calls
  refine ⟨fun node level => ?_, fun site pin level path hl => site.branchAt_scopes h pin hl path s,
    fun node level path => ?_⟩
  · have hentry : c.entry node level s = _ := c.chain_inBlock h node level [] s
    rw [hentry]
    exact ⟨rfl, rfl⟩
  · have hbrings := c.chain_brings h node level path s
    refine ⟨?_, hbrings.outer, hbrings.kept, fun n p hfound => ?_⟩
    · simp only [SymbolTable.depth, hbrings.outer]
    · obtain ⟨new, hnew, hmay⟩ := hbrings.trail
      rw [Emit.log_eq hnew]
      refine (hmay (outputOf n p) fun hsame => hfound ?_).mono fun _ => List.mem_reverse.mpr
      unfold SymbolTable.lookup
      rw [hbrings.outer, List.findSome?_cons, List.findSome?_cons, hsame]

/-- Coroutines that are resumed before a loop and in its body, where the last one fails for want of
its coroutine. -/
def brokenOff : Value := Graph.outline
  [("first", "lua_coroutine_resume", [("pin:coroutine", .text "co")]), ("loop", "for_loop", []),
    ("inner", "lua_coroutine_resume", [("pin:coroutine", .text "co")]),
    ("last", "lua_coroutine_resume", [])]
  [("first", "exec_out", "loop", "exec_in"), ("loop", "loop", "inner", "exec_in"),
    ("inner", "exec_out", "last", "exec_in")]

/-- The walk breaks off in the body of the loop. What was resumed before the loop can be read, but
not the index, nor what was resumed in the body. -/
theorem scopes_restored_brokenOff : ∃ g, Graph.load brokenOff Library.catalogue = .ok g ∧
    let c : Compilation := { graph := g }
    let s' := (c.chain "first" 1 [] {}).2
    (c.chain "first" 1 [] {}).1.isOk = false ∧
    .statement "last" 2 ∈ (c.chain "first" 1 []).log {} ∧
    s'.symbols.lookup "first" "result" = some "__pg_first_co_result" ∧ s'.symbols.depth = 1 ∧
    s'.symbols.lookup "loop" "index" = none ∧ s'.symbols.lookup "inner" "result" = none := by
  have heval : ((Graph.load brokenOff Library.catalogue).toOption.any fun g =>
      let c : Compilation := { graph := g }
      !(c.chain "first" 1 [] {}).1.isOk &&
      ((c.chain "first" 1 []).log {}).contains (.statement "last" 2) &&
      (c.chain "first" 1 [] {}).2.symbols.lookup "first" "result" ==
        some "__pg_first_co_result" &&
      g.statement? "loop" == some .loop &&
      !((c.chain "first" 1 []).log {}).contains (.statement "inner" 1)) = true := by
    decide +kernel
  obtain ⟨g, hload, heval⟩ := exists_ok_of_any heval
  simp only [Bool.and_eq_true, Bool.not_eq_true', beq_iff_eq, List.contains_eq_mem,
    decide_eq_true_eq, decide_eq_false_iff_not] at heval
  obtain ⟨⟨⟨⟨hfails, hlast⟩, hfirst⟩, hloop⟩, hinner⟩ := heval
  obtain ⟨_, _, hchain⟩ := scopes_restored hload [] (c := { graph := g }) rfl {}
  obtain ⟨hdepth, _, _, hfound⟩ := hchain "first" 1 []
  refine ⟨g, hload, hfails, hlast, hfirst, hdepth, ?_, ?_⟩
  · by_contra hindex
    obtain ⟨m, hm, _, hbinds⟩ := hfound "loop" "index" hindex
    obtain rfl : m = "loop" := Key.canonical_eq_text hm
    rcases hbinds with hst | hst
    · cases hloop.symm.trans hst
    · cases hloop.symm.trans hst
  · by_contra hresult
    obtain ⟨m, hm, hnoted, _⟩ := hfound "inner" "result" hresult
    obtain rfl : m = "inner" := Key.canonical_eq_text hm
    exact hinner hnoted

end CartGraph
